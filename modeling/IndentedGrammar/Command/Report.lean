import IndentedGrammar.Document.File
import IndentedGrammar.Settings
import IndentedGrammar.Text.ControlSequence

namespace IndentedGrammar.Command

inductive Stream where
  | out : Stream
  | err : Stream
  deriving DecidableEq

abbrev Printed := List (Stream × String)

/-- A line for one of the two streams. No text can smuggle a control sequence into it. -/
def say (stream : Stream) (text : String) : Stream × String := (stream, withoutSequences text ++ "\n")

def Printed.on (stream : Stream) (printed : Printed) : String :=
  String.join ((printed.filter fun piece => piece.1 = stream).map (·.2))

/-- What stops a run for which it has no words of its own. -/
inductive Crash where
  | notText : Crash
  | notTable : Toml.Value → Crash
  | unreachable : FileError → Crash
  | nullCharacter : Crash
  | badPattern : Crash

inductive Ending where
  | exit : Nat → Ending
  | crash : Crash → Ending
  | misused : Ending

structure Report where
  printed : Printed
  ending : Ending

namespace Report

def fail (printed : Printed) : Report := ⟨printed, .exit 1⟩

def after (printed : Printed) (report : Report) : Report :=
  { report with printed := printed ++ report.printed }

end Report

def shownPath (w : Workspace) (root p : Path) : String :=
  match (w.resolve p).relativeTo? (w.resolve root) with
  | some relative => relative.toString
  | none => p.toString

def printNotes (verbose : Bool) (notes : List Note) : Printed :=
  if verbose then notes.map fun note => (.err, note.render ++ "\n") else []

def printHuman (name : String) (doc : Document) : Printed :=
  if doc.ok then [say .out ("OK: " ++ name ++ " (" ++ toString doc.rules.length ++ " rules)")]
  else
    say .err (name ++ ": " ++ toString doc.diagnostics.length ++ " syntax error(s)\n") ::
      (Diagnostic.formatAll (some name) (some doc.source) doc.diagnostics).map fun text =>
        say .err ("ERROR: " ++ text)

def printBrief (name : String) (doc : Document) : Printed :=
  (Diagnostic.formatAll (some name) none doc.diagnostics).map (say .err)

def printUnreadable (p : Path) (e : FileError) : Printed :=
  [say .err ("Error: cannot read " ++ p.toString ++ ": " ++ e.message p)]

def printFault (f : Fault) : Printed :=
  [say .err ("Internal parser error: " ++ Context.describe f.context? f.message)]

end IndentedGrammar.Command
