import IndentedGrammar.Rule.Basic
import IndentedGrammar.Term.Printer

namespace IndentedGrammar.Rule

def line (r : Rule) : List Char :=
  List.replicate (4 * r.scope.length) ' ' ++ r.name.toList ++
    match r with
    | .terminal _ term => ':' :: ' ' :: term.chars 0
    | .group _ _ => ['.', '.', '.']

def charsAll (rules : List Rule) : List Char := (walkAll rules).flatMap fun r => r.line ++ ['\n']

def chars : Rule → List Char
  | .terminal heading term => line (.terminal heading term)
  | .group heading children => charsAll [.group heading children]

def allPrintable (rules : List Rule) : Bool :=
  (walkAll rules).all fun r => r.term?.all Term.printable

def render? (r : Rule) : Option String :=
  if allPrintable [r] then some (String.ofList r.chars) else none

def renderAll? (rules : List Rule) : Option String :=
  if allPrintable rules then some (String.ofList (charsAll rules)) else none

end IndentedGrammar.Rule
