import IndentedGrammar.Proofs.Command.Composition
import IndentedGrammar.Proofs.Files.Text

namespace IndentedGrammar

namespace Settings

/-- What the settings find at the path is no file. -/
def Disguised (w : Workspace) (s : Settings) (p : Path) (there : FileTree) : Prop :=
  (∃ entry ∈ s.paths, Finds w s entry p there) ∧ ∀ bytes, there ≠ .file bytes

variable {w : Workspace} {s : Settings} {p : Path} {there : FileTree} {found : List Path}

theorem Disguised.mem (hnamed : w.tree.WellNamed) (hdistinct : w.tree.Distinct)
    (hfiles : s.files w = .ok found) (h : s.Disguised w p there) : p ∈ found := by
  obtain ⟨⟨entry, hentry, hfinds⟩, -⟩ := h
  exact (mem_files_iff hnamed hdistinct hfiles).2 ⟨entry, hentry, there, hfinds⟩

theorem Disguised.stands (hnamed : w.tree.WellNamed) (h : s.Disguised w p there) : w.Stands p there := by
  obtain ⟨⟨entry, -, hfinds⟩, -⟩ := h
  exact hfinds.stands hnamed

theorem file_or_disguised (hnamed : w.tree.WellNamed) (hdistinct : w.tree.Distinct)
    (hfiles : s.files w = .ok found) (hp : p ∈ found) :
    ∃ there, w.Stands p there ∧ ((∃ bytes, there = .file bytes) ∨ s.Disguised w p there) := by
  obtain ⟨entry, hentry, there, hfinds⟩ := (mem_files_iff hnamed hdistinct hfiles).1 hp
  refine ⟨there, hfinds.stands hnamed, ?_⟩
  rw [Classical.or_iff_not_imp_left, not_exists]
  exact fun hfile => ⟨⟨entry, hentry, hfinds⟩, hfile⟩

theorem unreadable_iff_disguised (hnamed : w.tree.WellNamed) (hdistinct : w.tree.Distinct)
    (hfiles : s.files w = .ok found) (hp : p ∈ found) (hshort : w.readText p ≠ .error (.file .tooLong))
    {e : FileError} :
    w.readText p = .error (.file e) ↔ ∃ there, s.Disguised w p there ∧ there.contents = .error e := by
  obtain ⟨there, hstands, hregular⟩ := file_or_disguised hnamed hdistinct hfiles hp
  have hfind : w.find p = .ok there := by
    obtain ⟨above, hat⟩ := hstands
    exact hat.find_eq hdistinct fun h => hshort (Workspace.readText_of_error h)
  rw [Workspace.readText_eq_error_iff hfind]
  constructor
  · intro hcontents
    refine ⟨there, hregular.resolve_left ?_, hcontents⟩
    rintro ⟨bytes, rfl⟩
    exact nomatch hcontents
  · rintro ⟨other, hdisguised, hcontents⟩
    exact hstands.unique hdistinct (hdisguised.stands hnamed) ▸ hcontents

end Settings

namespace Command

variable {explain : List Char → String} {w : Workspace} {request : CheckRequest}

/-- What the settings name is a file or something in the guise of one, and when all of it is checked, just
that cannot be read which gives nothing when it is opened. -/
theorem check_discovered {s : Settings} {targets : List Path} (hnamed : w.tree.WellNamed)
    (hdistinct : w.tree.Distinct) (hsettings : findSettings explain w request.config = .ok (some s))
    (htargets : s.files w = .ok targets) :
    let mode := request.mode (some s)
    (∀ p ∈ targets, ∃ there, w.Stands p there ∧
      ((∃ bytes, there = .file bytes) ∨ s.Disguised w p there)) ∧
    (∀ p there, s.Disguised w p there → p ∈ targets ∧ w.Stands p there) ∧
    (targets ≠ [] →
      (∀ p ∈ targets, w.readText p ≠ .error (.file .tooLong) ∧ w.readText p ≠ .error .notText) →
      ∃ reports, List.Forall₂ (Reports w mode) targets reports ∧
        (check explain w { request with files := [] }).printed = reports.flatten ∧
        (check explain w { request with files := [] }).ending =
          .exit (if targets.all (inOrder w mode.limit) then 0 else 1) ∧
        ∀ p ∈ targets, ∀ e, w.readText p = .error (.file e) ↔
          ∃ there, s.Disguised w p there ∧ there.contents = .error e) := by
  intro mode
  refine ⟨fun p hp => Settings.file_or_disguised hnamed hdistinct htargets hp,
    fun p there hp => ⟨hp.mem hnamed hdistinct htargets, hp.stands hnamed⟩, fun hne hreadable => ?_⟩
  have htext (p : Path) (hp : p ∈ targets) : w.readText p ≠ .error .notText := (hreadable p hp).2
  have hcheck : check explain w { request with files := [] } = checkFiles w mode false targets :=
    (check_none hsettings htargets).trans (checkTargets_eq hne)
  refine ⟨_, exists_reports mode htext, ?_, ?_, fun p hp e => ?_⟩
  · rw [hcheck, checkFiles_eq mode htext, List.flatMap_def]
  · rw [hcheck, checkFiles_eq mode htext]
  · exact Settings.unreadable_iff_disguised hnamed hdistinct htargets hp (hreadable p hp).1

def disguisedProject : Workspace :=
  ⟨.directory [("rulegrammar.toml", .file "".toUTF8), ("grammar", .directory
    [("a.grammar", .file "a: b\n".toUTF8), ("old.grammar", .directory [])])], []⟩

def disguisedTargets : List Path := [⟨"/", ["grammar", "a.grammar"]⟩, ⟨"/", ["grammar", "old.grammar"]⟩]

theorem findSettings_disguisedProject :
    findSettings unexplained disguisedProject settingsName = .ok (some sampleSettings) := by rfl

theorem wellNamed_disguisedProject : disguisedProject.tree.WellNamed := by decide

theorem distinct_disguisedProject : disguisedProject.tree.Distinct := by decide

theorem files_disguisedProject : sampleSettings.files disguisedProject = .ok disguisedTargets := by
  have hfound : sampleSettings.filesOf disguisedProject "./grammar" = .ok disguisedTargets := by
    decide +kernel
  exact Settings.files_eq_of_filesOf wellNamed_disguisedProject distinct_disguisedProject rfl hfound (by decide)

theorem leads_disguisedProject : disguisedProject.tree.Leads ["grammar", "old.grammar"] (.directory []) :=
  .inside (List.mem_cons_of_mem _ List.mem_cons_self)
    (.inside (List.mem_cons_of_mem _ List.mem_cons_self) .here)

theorem check_discovered_disguisedProject :
    let request : CheckRequest := ⟨[], settingsName, "human", false⟩
    let mode := request.mode (some sampleSettings)
    let old : Path := ⟨"/", ["grammar", "old.grammar"]⟩
    sampleSettings.Disguised disguisedProject old (.directory []) ∧
      ∃ reports, List.Forall₂ (Reports disguisedProject mode) disguisedTargets reports ∧
        (check unexplained disguisedProject request).printed = reports.flatten ∧
        disguisedProject.readText old = .error (.file .isDirectory) := by
  intro request mode old
  have hsettings : findSettings unexplained disguisedProject request.config = .ok (some sampleSettings) :=
    findSettings_disguisedProject
  obtain ⟨hregular, -, hchecked⟩ := check_discovered wellNamed_disguisedProject distinct_disguisedProject
    hsettings files_disguisedProject
  have hold : old ∈ disguisedTargets := by decide
  have hdisguised : sampleSettings.Disguised disguisedProject old (.directory []) := by
    obtain ⟨there, hstands, hregular⟩ := hregular old hold
    have hleads := (Workspace.stands_iff_leads rfl (by decide)).1 hstands
    obtain rfl := hleads.unique distinct_disguisedProject leads_disguisedProject
    exact hregular.resolve_left nofun
  obtain ⟨reports, hreports, hprinted, -, hunreadable⟩ :=
    hchecked (List.cons_ne_nil _ _) (by decide)
  exact ⟨hdisguised, reports, hreports, hprinted,
    (hunreadable old hold .isDirectory).2 ⟨_, hdisguised, rfl⟩⟩

theorem check_cannot_read_directory :
    let request : CheckRequest := ⟨[], settingsName, "human", false⟩
    let old : Path := ⟨"/", ["grammar", "old.grammar"]⟩
    findSettings unexplained disguisedProject request.config = .ok (some sampleSettings) ∧
      sampleSettings.files disguisedProject = .ok disguisedTargets ∧ old ∈ disguisedTargets ∧
      (∀ bytes, ¬ disguisedProject.tree.Leads old.parts (.file bytes)) ∧
      (check unexplained disguisedProject request).printed = [say .out "OK: grammar/a.grammar (1 rules)",
        say .err ("Error: cannot read /grammar/old.grammar: " ++
          "[Errno 21] Is a directory: '/grammar/old.grammar'")] ∧
      (check unexplained disguisedProject request).ending = .exit 1 := by
  intro request old
  have hsettings : findSettings unexplained disguisedProject request.config = .ok (some sampleSettings) :=
    findSettings_disguisedProject
  let mode := request.mode (some sampleSettings)
  have htext : ∀ p ∈ disguisedTargets, disguisedProject.readText p ≠ .error .notText := by decide
  have hcheck : check unexplained disguisedProject request = _ :=
    ((check_none hsettings files_disguisedProject).trans (checkTargets_eq (List.cons_ne_nil _ _))).trans
      (checkFiles_eq mode htext)
  have hgrammar : (checkFile disguisedProject mode ⟨"/", ["grammar", "a.grammar"]⟩).1 =
      [say .out "OK: grammar/a.grammar (1 rules)"] := by
    decide +kernel
  have hfind : disguisedProject.find old = .ok (.directory []) := by rfl
  have hread : disguisedProject.readText old = .error (.file .isDirectory) :=
    (Workspace.readText_eq_error_iff hfind).2 rfl
  have hold : (checkFile disguisedProject mode old).1 = printUnreadable old .isDirectory := by
    rw [checkFile_of_unreadable mode hread]
    rfl
  have hfaulty : disguisedTargets.all (inOrder disguisedProject mode.limit) = false :=
    List.all_eq_false.2 ⟨old, by decide, by simp [inOrder_of_unreadable mode.limit hread]⟩
  have hname : old.toString = "/grammar/old.grammar" := by decide
  have hmessage : FileError.isDirectory.message old = "[Errno 21] Is a directory: '/grammar/old.grammar'" := by
    decide +kernel
  refine ⟨hsettings, files_disguisedProject, by decide,
    leads_disguisedProject.not_file distinct_disguisedProject, ?_, ?_⟩
  · rw [hcheck, disguisedTargets, List.flatMap_cons, List.flatMap_cons, hgrammar, hold, printUnreadable,
      hname, hmessage]
    rfl
  · rw [hcheck, hfaulty]
    rfl

end Command

end IndentedGrammar
