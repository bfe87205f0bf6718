import IndentedGrammar.Term.Basic

namespace IndentedGrammar

def escapeLetter? : Char → Option Char
  | '\\' => some '\\'
  | '"' => some '"'
  | '\n' => some 'n'
  | '\t' => some 't'
  | '\r' => some 'r'
  | _ => none

def escape (ch : Char) : List Char :=
  match escapeLetter? ch with
  | some letter => ['\\', letter]
  | none => [ch]

def quote (value : List Char) : List Char := '"' :: value.flatMap escape ++ ['"']

namespace Term

mutual

/-- The written form at a place that demands precedence `min`. -/
def chars (min : Nat) : Term → List Char
  | ⟨kind, _, text, children⟩ =>
    let body := match kind with
      | .choice => List.intercalate [' ', '|', ' '] (charsAll 1 children)
      | .sequence => List.intercalate [' '] (charsAll 2 children)
      | .predicate p => p.symbol :: (charsAll 3 children).headD []
      | .repetition r => (charsAll 4 children).headD [] ++ [r.symbol]
      | .literal => quote (text.getD "").toList
      | .characterClass => '[' :: (text.getD "None").toList ++ [']']
      | .any => ['.']
      | .reference => (text.getD "").toList
    if kind.precedence < min then '(' :: body ++ [')'] else body

def charsAll (min : Nat) : List Term → List (List Char)
  | [] => []
  | t :: ts => t.chars min :: charsAll min ts

end

mutual

def printable : Term → Bool
  | ⟨kind, _, _, children⟩ =>
    match kind with
    | .choice | .sequence => allPrintable children
    | .predicate _ | .repetition _ => firstPrintable children
    | .reference | .literal | .characterClass | .any => true

def allPrintable : List Term → Bool
  | [] => true
  | t :: ts => t.printable && allPrintable ts

def firstPrintable : List Term → Bool
  | [] => false
  | t :: _ => t.printable

end

def render? (t : Term) : Option String :=
  if t.printable then some (String.ofList (t.chars 0)) else none

end Term

end IndentedGrammar
