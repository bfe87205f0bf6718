import IndentedGrammar.Command.Check
import IndentedGrammar.Command.Dump

namespace IndentedGrammar.Command

def version : String := "0.1.0"

def boxed (message : String) : String :=
  let line (width : Nat) := String.ofList (List.replicate width '─')
  let room := String.ofList (List.replicate (76 - message.length) ' ')
  "╭─ Error " ++ line 70 ++ "╮\n│ " ++ message ++ room ++ " │\n╰" ++ line 78 ++ "╯\n"

/-- The end of a run whose arguments are wrong. Only for an option used the wrong way there is a message
that does not depend on the terminal. -/
def refuse : UsageError → Report
  | .needsValue option => ⟨[(.err, boxed ("Option '" ++ option ++ "' requires an argument."))], .exit 2⟩
  | .takesNoValue option =>
    ⟨[(.err, boxed ("Option '" ++ option ++ "' does not take a value."))], .exit 2⟩
  | _ => ⟨[], .misused⟩

def run (explain : List Char → String) (w : Workspace) (args : List String) : Report :=
  match readRequest Document.defaultLimit args with
  | .error e => refuse e
  | .ok .version => ⟨[(.out, "rulegrammar version " ++ version ++ "\n")], .exit 0⟩
  | .ok (.check request) => check explain w request
  | .ok (.dump request) => dump w request

end IndentedGrammar.Command
