import IndentedGrammar.Rule.Basic

namespace IndentedGrammar

inductive Flaw where
  | badName : String → Flaw
  | termMissing : String → Flaw
  | rulesMissing : String → Flaw
  | noChildren : String → Flaw
  deriving DecidableEq

def Flaw.message : Flaw → String
  | .badName name => "Rule name '" ++ name ++ "' must be made of [a-z_] characters"
  | .termMissing name => "Terminal rule '" ++ name ++ "' must hold a term"
  | .rulesMissing name => "Name-extended rule '" ++ name ++ "' must hold child rules"
  | .noChildren name => "Name-extended rule '" ++ name ++ "' has no children"

/-- Whether `name` is a run of name characters. One newline after them is let through. -/
def isRuleName (name : String) : Bool :=
  let run := name.toList.takeWhile isNameChar
  let rest := name.toList.dropWhile isNameChar
  !run.isEmpty && (rest.isEmpty || rest = ['\n'])

namespace Rule

def ofTerm? (heading : Heading) (term : Term) : Except Flaw Rule :=
  if isRuleName heading.name then .ok (.terminal heading term) else .error (.badName heading.name)

def ofChildren? (heading : Heading) (children : List Rule) : Except Flaw Rule :=
  if !isRuleName heading.name then .error (.badName heading.name)
  else if children.isEmpty then .error (.noChildren heading.name)
  else .ok (.group heading children)

inductive Record where
  | withTerm : Bool → Heading → Term → Record
  | withRules : Bool → Heading → List Record → Record

namespace Record

mutual

/-- The rule that the record describes. Its parts are built first and in order; of several flaws the
first one is told. -/
def build : Record → Except Flaw Rule
  | .withTerm isTerminal heading term =>
    match ofTerm? heading term with
    | .error flaw => .error flaw
    | .ok r => if isTerminal then .ok r else .error (.rulesMissing heading.name)
  | .withRules isTerminal heading records =>
    match buildAll records with
    | .error flaw => .error flaw
    | .ok children =>
      if !isRuleName heading.name then .error (.badName heading.name)
      else if isTerminal then .error (.termMissing heading.name)
      else ofChildren? heading children

def buildAll : List Record → Except Flaw (List Rule)
  | [] => .ok []
  | record :: records =>
    match record.build with
    | .error flaw => .error flaw
    | .ok r =>
      match buildAll records with
      | .error flaw => .error flaw
      | .ok rs => .ok (r :: rs)

end

end Record

end Rule

end IndentedGrammar
