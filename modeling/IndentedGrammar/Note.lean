namespace IndentedGrammar

inductive Note where
  | skippedBlock : String → Note
  | childFailed : String → Int → Note
  | resynchronised : Int → Note
  | ruleRead : String → Int → Note
  | finished : Nat → Nat → String → Note
  | checking : String → Note
  deriving DecidableEq

def Note.origin : Note → String
  | .skippedBlock _ | .childFailed _ _ => "rulegrammar.core.rule"
  | .resynchronised _ | .ruleRead _ _ | .finished _ _ _ => "rulegrammar.core.grammar"
  | .checking _ => "rulegrammar.cli.commands"

def Note.message : Note → String
  | .skippedBlock name => "Skipping block of rule '" ++ name ++ "' after term error"
  | .childFailed name line => "Child of '" ++ name ++ "' failed at line " ++ toString line
  | .resynchronised line => "Resynchronising after failed declaration at line " ++ toString line
  | .ruleRead name line => "Parsed rule '" ++ name ++ "' at line " ++ toString line
  | .finished rules diagnostics file =>
    "Parsed " ++ toString rules ++ " rules with " ++ toString diagnostics ++ " diagnostics from " ++ file
  | .checking path => "Checking " ++ path

def Note.render (note : Note) : String := "DEBUG " ++ note.origin ++ ": " ++ note.message

end IndentedGrammar
