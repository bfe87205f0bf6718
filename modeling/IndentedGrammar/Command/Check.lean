import IndentedGrammar.Command.Arguments
import IndentedGrammar.Command.Report

namespace IndentedGrammar.Command

structure CheckMode where
  root : Path
  limit : Int
  format : String
  verbose : Bool

inductive Verdict where
  | clean : Verdict
  | faulty : Verdict
  | stop : Ending → Verdict

def checkFile (w : Workspace) (mode : CheckMode) (p : Path) : Printed × Verdict :=
  let start := printNotes mode.verbose [.checking p.toString]
  match Document.ofFile w mode.limit p with
  | .error (.fault f) => (start ++ printFault f, .stop (.exit 2))
  | .error (.unreadable e) => (start ++ printUnreadable p e, .faulty)
  | .error .notText => (start, .stop (.crash .notText))
  | .ok doc =>
    let name := shownPath w mode.root p
    let shown := if mode.format = "vscode" then printBrief name doc else printHuman name doc
    (start ++ printNotes mode.verbose doc.notes ++ shown, if doc.ok then .clean else .faulty)

def checkFiles (w : Workspace) (mode : CheckMode) (failed : Bool) : List Path → Report
  | [] => ⟨[], .exit (if failed then 1 else 0)⟩
  | p :: ps =>
    match checkFile w mode p with
    | (printed, .clean) => (checkFiles w mode failed ps).after printed
    | (printed, .faulty) => (checkFiles w mode true ps).after printed
    | (printed, .stop ending) => ⟨printed, ending⟩

def checkTargets (w : Workspace) (request : CheckRequest) (settings : Option Settings)
    (targets : List Path) : Report :=
  if targets.isEmpty then .fail [say .err "No grammar files found."]
  else
    let root := (settings.map (·.root)).getD (.ofString ".")
    let limit := (settings.map fun s => (s.limit : Int)).getD Document.defaultLimit
    checkFiles w ⟨root, limit, request.format, request.verbose⟩ false targets

def Crash.ofFailure : Settings.Failure → Crash
  | .notTable v => .notTable v
  | _ => .notText

def Crash.ofSearchError : SearchError → Crash
  | .unreachable _ e => .unreachable e
  | .nullCharacter => .nullCharacter
  | .badPattern => .badPattern

inductive SettingsError where
  | refused : String → SettingsError
  | crash : Crash → SettingsError

variable (explain : List Char → String)

def findSettings (w : Workspace) (name : String) : Except SettingsError (Option Settings) :=
  let p := w.resolve (.ofString name)
  match w.find? p with
  | .error e => .error (.crash (.unreachable e))
  | .ok none => .ok none
  | .ok (some _) =>
    match Settings.load explain w p with
    | .ok settings => .ok (some settings)
    | .error failure =>
      match failure.message? p with
      | some message => .error (.refused message)
      | none => .error (.crash (.ofFailure failure))

/-- Checks the files that the request names, or else those that the settings name. Wrong settings are no
obstacle as long as files are named. -/
def check (w : Workspace) (request : CheckRequest) : Report :=
  let named := request.files.map Path.ofString
  match findSettings explain w request.config with
  | .ok settings =>
    if !named.isEmpty then checkTargets w request settings named
    else
      match settings with
      | some s =>
        match s.files w with
        | .ok targets => checkTargets w request settings targets
        | .error e => ⟨[], .crash (.ofSearchError e)⟩
      | none => .fail [say .err ("No grammar files given and no " ++ request.config ++ " found.")]
  | .error (.crash cause) => ⟨[], .crash cause⟩
  | .error (.refused message) =>
    if named.isEmpty then .fail [say .err ("Error: " ++ message)]
    else
      (checkTargets w request none named).after
        [say .err ("Warning: ignoring " ++ request.config ++ ": " ++ message)]

end IndentedGrammar.Command
