import IndentedGrammar.Command.Check
import IndentedGrammar.Proofs.Document.File
import Mathlib.Data.List.Forall2

namespace IndentedGrammar.Command

variable (w : Workspace)

def inOrder (limit : Int) (p : Path) : Bool :=
  match Document.ofFile w limit p with
  | .ok doc => doc.ok
  | .error _ => false

def CheckRequest.mode (request : CheckRequest) (settings : Option Settings) : CheckMode where
  root := (settings.map (·.root)).getD (.ofString ".")
  limit := (settings.map fun s => (s.limit : Int)).getD Document.defaultLimit
  format := request.format
  verbose := request.verbose

inductive Reports (mode : CheckMode) (p : Path) : Printed → Prop
  | unreadable {e} : w.readText p = .error (.file e) → Reports mode p
      (printNotes mode.verbose [.checking p.toString] ++ printUnreadable p e)
  | clean {doc} : Document.ofFile w mode.limit p = .ok doc → doc.diagnostics = [] → Reports mode p
      (printNotes mode.verbose [.checking p.toString] ++ printNotes mode.verbose doc.notes ++
        if mode.format = "vscode" then [] else
          [say .out ("OK: " ++ shownPath w mode.root p ++ " (" ++ toString doc.rules.length ++ " rules)")])
  | faulty {doc} : Document.ofFile w mode.limit p = .ok doc → doc.diagnostics ≠ [] → Reports mode p
      (printNotes mode.verbose [.checking p.toString] ++ printNotes mode.verbose doc.notes ++
        if mode.format = "vscode" then
          doc.diagnostics.map fun d => say .err (d.format (some (shownPath w mode.root p)) none)
        else
          say .err (shownPath w mode.root p ++ ": " ++ toString doc.diagnostics.length ++
            " syntax error(s)\n") ::
          doc.diagnostics.map fun d => say .err ("ERROR: " ++ d.format (some (shownPath w mode.root p))
            (some (String.ofList (doc.source.lineText d.line)))))

variable {explain : List Char → String} {w : Workspace} (mode : CheckMode) {p : Path}

theorem inOrder_of_unreadable (limit : Int) {e : FileError} (h : w.readText p = .error (.file e)) :
    inOrder w limit p = false := by
  rw [inOrder, Document.ofFile_of_unreadable limit h]

theorem checkFile_of_unreadable {e : FileError} (h : w.readText p = .error (.file e)) :
    checkFile w mode p =
      (printNotes mode.verbose [.checking p.toString] ++ printUnreadable p e, .faulty) := by
  rw [checkFile, Document.ofFile_of_unreadable mode.limit h]

theorem reports_checkFile (h : w.readText p ≠ .error .notText) :
    Reports w mode p (checkFile w mode p).1 := by
  cases hread : w.readText p with
  | error e =>
    cases e with
    | notText => exact absurd hread h
    | file e =>
      rw [checkFile_of_unreadable mode hread]
      exact .unreadable hread
  | ok text =>
    obtain ⟨doc, -, hdoc⟩ := Document.ofFile_of_readText mode.limit hread
    rw [checkFile, hdoc]
    by_cases hok : doc.diagnostics = []
    · have hclean := Reports.clean hdoc hok
      simpa [printHuman, printBrief, Diagnostic.formatAll, Document.ok, hok] using hclean
    · have hfaulty := Reports.faulty hdoc hok
      simpa [printHuman, printBrief, Diagnostic.formatAll, Document.ok, hok, Function.comp_def]
        using hfaulty

theorem checkFile_verdict (h : w.readText p ≠ .error .notText) :
    (checkFile w mode p).2 = if inOrder w mode.limit p then .clean else .faulty := by
  cases hread : w.readText p with
  | error e =>
    cases e with
    | notText => exact absurd hread h
    | file e =>
      rw [checkFile_of_unreadable mode hread, inOrder_of_unreadable mode.limit hread]
      rfl
  | ok text =>
    obtain ⟨doc, -, hdoc⟩ := Document.ofFile_of_readText mode.limit hread
    rw [checkFile, inOrder, hdoc]

theorem checkFile_of_notText (h : w.readText p = .error .notText) :
    checkFile w mode p =
      (printNotes mode.verbose [.checking p.toString], .stop (.crash .notText)) := by
  rw [checkFile, Document.ofFile_of_notText mode.limit h]

theorem checkFiles_cons (failed : Bool) (ps : List Path) (h : w.readText p ≠ .error .notText) :
    checkFiles w mode failed (p :: ps) =
      (checkFiles w mode (failed || !inOrder w mode.limit p) ps).after (checkFile w mode p).1 := by
  have hverdict := checkFile_verdict mode h
  cases hfile : checkFile w mode p with
  | mk printed verdict =>
    rw [hfile] at hverdict
    rw [checkFiles, hfile]
    cases hp : inOrder w mode.limit p with
    | true =>
      obtain rfl : verdict = .clean := by simpa [hp] using hverdict
      rw [Bool.not_true, Bool.or_false]
    | false =>
      obtain rfl : verdict = .faulty := by simpa [hp] using hverdict
      rw [Bool.not_false, Bool.or_true]

theorem checkFiles_append (failed : Bool) {ps : List Path} (more : List Path)
    (h : ∀ p ∈ ps, w.readText p ≠ .error .notText) :
    checkFiles w mode failed (ps ++ more) =
      (checkFiles w mode (failed || !ps.all (inOrder w mode.limit)) more).after
        (ps.flatMap fun p => (checkFile w mode p).1) := by
  induction ps generalizing failed with
  | nil => simp [Report.after]
  | cons p ps ih =>
    rw [List.forall_mem_cons] at h
    rw [List.cons_append, checkFiles_cons mode failed _ h.1, ih _ h.2]
    simp [Report.after, Bool.or_assoc]

theorem checkFiles_eq {ps : List Path} (h : ∀ p ∈ ps, w.readText p ≠ .error .notText) :
    checkFiles w mode false ps = ⟨ps.flatMap fun p => (checkFile w mode p).1,
      .exit (if ps.all (inOrder w mode.limit) then 0 else 1)⟩ := by
  have hrun := checkFiles_append mode false [] h
  rw [List.append_nil, Bool.false_or] at hrun
  rw [hrun]
  unfold checkFiles
  rw [Report.after, List.append_nil]
  cases ps.all (inOrder w mode.limit) with
  | true => rfl
  | false => rfl

theorem checkFiles_of_notText {ps : List Path} (more : List Path)
    (h : ∀ p ∈ ps, w.readText p ≠ .error .notText) (hp : w.readText p = .error .notText) :
    checkFiles w mode false (ps ++ p :: more) =
      ⟨ps.flatMap (fun p => (checkFile w mode p).1) ++ printNotes mode.verbose [.checking p.toString],
        .crash .notText⟩ := by
  rw [checkFiles_append mode false _ h, checkFiles, checkFile_of_notText mode hp]
  rfl

section

variable {request : CheckRequest} {settings : Option Settings}

theorem checkTargets_eq {targets : List Path} (h : targets ≠ []) :
    checkTargets w request settings targets =
      checkFiles w (request.mode settings) false targets := by
  rw [checkTargets, if_neg (by simpa using h)]
  rfl

theorem check_eq (hsettings : findSettings explain w request.config = .ok settings)
    (hfiles : request.files ≠ []) :
    check explain w request =
      checkFiles w (request.mode settings) false (request.files.map Path.ofString) := by
  unfold check
  rw [hsettings]
  dsimp only
  rw [if_pos (by simpa using hfiles), checkTargets_eq (by simpa using hfiles)]

end

theorem exists_reports {ps : List Path} (h : ∀ p ∈ ps, w.readText p ≠ .error .notText) :
    List.Forall₂ (Reports w mode) ps (ps.map fun p => (checkFile w mode p).1) := by
  rw [List.forall₂_map_right_iff, List.forall₂_same]
  exact fun p hp => reports_checkFile mode (h p hp)

/-- Without settings each file gets its own report, and the run tells at its end whether all of them are
in order. This holds up to the first file that is no text: there the run ends without a word about that
file and those behind it. -/
theorem check_reports {request : CheckRequest}
    (hsettings : findSettings explain w request.config = .ok none) (hfiles : request.files ≠ []) :
    let mode := request.mode none
    let paths := request.files.map Path.ofString
    ((∀ p ∈ paths, w.readText p ≠ .error .notText) →
      ∃ reports, List.Forall₂ (Reports w mode) paths reports ∧
        (check explain w request).printed = reports.flatten ∧
        (check explain w request).ending = .exit (if paths.all (inOrder w mode.limit) then 0 else 1)) ∧
    ∀ before p after, paths = before ++ p :: after →
      (∀ q ∈ before, w.readText q ≠ .error .notText) → w.readText p = .error .notText →
        ∃ reports, List.Forall₂ (Reports w mode) before reports ∧
          (check explain w request).printed =
            reports.flatten ++ printNotes mode.verbose [.checking p.toString] ∧
          (check explain w request).ending = .crash .notText := by
  intro mode paths
  have hcheck : check explain w request = checkFiles w mode false paths := check_eq hsettings hfiles
  constructor
  · intro htext
    refine ⟨_, exists_reports mode htext, ?_⟩
    rw [hcheck, checkFiles_eq mode htext, List.flatMap_def]
    exact ⟨rfl, rfl⟩
  · intro before p after hpaths hbefore hp
    refine ⟨_, exists_reports mode hbefore, ?_⟩
    rw [hcheck, hpaths, checkFiles_of_notText mode after hbefore hp, List.flatMap_def]
    exact ⟨rfl, rfl⟩

def mixedFiles : Workspace :=
  ⟨.directory [("bytes", .file ⟨#[0xff]⟩), ("rule", .file "a: b\n".toUTF8)], []⟩

def unexplained (_ : List Char) : String := ""

theorem findSettings_mixedFiles : findSettings unexplained mixedFiles settingsName = .ok none := by rfl

theorem readText_bytes : mixedFiles.readText (.ofString "bytes") = .error .notText := by rfl

theorem readText_rule : mixedFiles.readText (.ofString "rule") = .ok ['a', ':', ' ', 'b', '\n'] := by
  rfl

theorem check_reports_before_bytes :
    let request : CheckRequest := ⟨["rule", "bytes", "rule"], settingsName, "human", false⟩
    ∃ reports, List.Forall₂ (Reports mixedFiles (request.mode none)) [.ofString "rule"] reports ∧
      (check unexplained mixedFiles request).printed = reports.flatten ++ [] ∧
      (check unexplained mixedFiles request).ending = .crash .notText := by
  intro request
  have htext : ∀ q ∈ [Path.ofString "rule"], mixedFiles.readText q ≠ .error .notText := by
    rw [List.forall_mem_singleton, readText_rule]
    exact nofun
  have hsettings : findSettings unexplained mixedFiles request.config = .ok none := findSettings_mixedFiles
  obtain ⟨-, hstop⟩ := check_reports hsettings (List.cons_ne_nil _ _)
  exact hstop [.ofString "rule"] (.ofString "bytes") [.ofString "rule"] rfl htext readText_bytes

theorem check_hides_behind_bytes :
    let request : CheckRequest := ⟨["bytes", "rule"], settingsName, "human", false⟩
    findSettings unexplained mixedFiles request.config = .ok none ∧
      inOrder mixedFiles Document.defaultLimit (.ofString "rule") ∧
      (check unexplained mixedFiles request).printed = [] ∧
      (check unexplained mixedFiles request).ending = .crash .notText := by
  intro request
  have hsettings : findSettings unexplained mixedFiles request.config = .ok none := findSettings_mixedFiles
  have hcheck : check unexplained mixedFiles request = ⟨[], .crash .notText⟩ := calc
    check unexplained mixedFiles request
    _ = checkFiles mixedFiles (request.mode none) false
        ([] ++ .ofString "bytes" :: [.ofString "rule"]) := check_eq hsettings (List.cons_ne_nil _ _)
    _ = ⟨[], .crash .notText⟩ :=
      checkFiles_of_notText _ _ (List.forall_mem_nil _) readText_bytes
  rw [hcheck]
  exact ⟨hsettings, by decide +kernel, rfl, rfl⟩

end IndentedGrammar.Command
