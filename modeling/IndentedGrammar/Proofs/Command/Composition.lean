import IndentedGrammar.Proofs.Command.Check
import IndentedGrammar.Proofs.Settings.Discovery
import Mathlib.Control.Monad.Basic

namespace IndentedGrammar.Command

theorem Printed.on_flatMap {α : Type} (stream : Stream) (f : α → Printed) (xs : List α) :
    Printed.on stream (xs.flatMap f) = String.join (xs.map fun x => (f x).on stream) := by
  rw [← String.toList_inj]
  simp [Printed.on, List.filter_flatMap, List.map_flatMap, List.flatMap_assoc, List.flatMap_map]

variable {explain : List Char → String} {w : Workspace} {request : CheckRequest}
  {settings : Option Settings}

theorem plain_root {name : String} {s : Settings} (hw : w.WellNamed)
    (h : findSettings explain w name = .ok (some s)) : s.root.Plain := by
  have hplain : (w.resolve (.ofString name)).Plain :=
    hw.resolve fun part hpart hup => Path.isName_of_mem_ofString hpart hup
  unfold findSettings at h
  dsimp only at h
  split at h
  · exact nomatch h
  · exact nomatch h
  split at h
  next loaded hload =>
    obtain rfl := Option.some.inj (Except.ok.inj h)
    rw [Settings.root_eq_of_load hload]
    exact ⟨hplain.1, fun part hpart => hplain.2 part (List.dropLast_subset _ hpart)⟩
  · split at h
    · exact nomatch h
    · exact nomatch h

theorem check_files (hsettings : findSettings explain w request.config = .ok settings) {files : List String}
    (hne : files ≠ []) (h : ∀ file ∈ files, w.readText (.ofString file) ≠ .error .notText) :
    check explain w { request with files := files } =
      ⟨files.flatMap fun file => (checkFile w (request.mode settings) (.ofString file)).1,
        .exit (if files.all fun file => inOrder w (request.mode settings).limit (.ofString file)
          then 0 else 1)⟩ := by
  have hcheck : check explain w { request with files := files } =
      checkFiles w (request.mode settings) false (files.map Path.ofString) := check_eq hsettings hne
  rw [hcheck, checkFiles_eq _ (List.forall_mem_map.2 h), List.flatMap_map, List.all_map]
  rfl

theorem check_singleton (hsettings : findSettings explain w request.config = .ok settings) {file : String}
    (h : w.readText (.ofString file) ≠ .error .notText) :
    check explain w { request with files := [file] } =
      ⟨(checkFile w (request.mode settings) (.ofString file)).1,
        .exit (if inOrder w (request.mode settings).limit (.ofString file) then 0 else 1)⟩ := by
  rw [check_files hsettings (List.cons_ne_nil _ _) (List.forall_mem_singleton.2 h)]
  simp

theorem check_singleton_fails_iff (hsettings : findSettings explain w request.config = .ok settings)
    {file : String} (h : w.readText (.ofString file) ≠ .error .notText) :
    (check explain w { request with files := [file] }).ending = .exit 1 ↔
      ¬ inOrder w (request.mode settings).limit (.ofString file) := by
  rw [check_singleton hsettings h]
  split <;> simp_all

theorem check_none {s : Settings} {targets : List Path}
    (hsettings : findSettings explain w request.config = .ok (some s)) (htargets : s.files w = .ok targets) :
    check explain w { request with files := [] } = checkTargets w request (some s) targets := by
  unfold check
  dsimp only
  rw [hsettings]
  dsimp only
  rw [htargets]
  rfl

theorem map_ofString_toString {targets : List Path} (h : ∀ p ∈ targets, p.Clean) :
    (targets.map Path.toString).map Path.ofString = targets := by
  rw [List.map_map]
  exact (List.map_congr_left fun p hp => (h p hp).ofString_toString).trans (List.map_id _)

/-- Each file adds what is said about it alone, and the run fails if one of them fails alone. Where no file
is given, all that the settings do is to name the files. -/
theorem check_composes (hsettings : findSettings explain w request.config = .ok settings) :
    let alone (file : String) := check explain w { request with files := [file] }
    (∀ files ≠ [], (∀ file ∈ files, w.readText (.ofString file) ≠ .error .notText) →
      let together := check explain w { request with files := files }
      (∀ stream, together.printed.on stream =
        String.join (files.map fun file => (alone file).printed.on stream)) ∧
      ((∃ file ∈ files, (alone file).ending = .exit 1) → together.ending = .exit 1) ∧
      ((∀ file ∈ files, (alone file).ending ≠ .exit 1) → together.ending = .exit 0)) ∧
    ∀ s targets, w.WellNamed → settings = some s → s.files w = .ok targets → targets ≠ [] →
      check explain w { request with files := [] } =
        check explain w { request with files := targets.map Path.toString } := by
  intro alone
  constructor
  · intro files hne htext together
    have htogether : together = _ := check_files hsettings hne htext
    have hfails : ∀ file ∈ files, (alone file).ending = .exit 1 ↔ _ :=
      fun file hfile => check_singleton_fails_iff hsettings (htext file hfile)
    refine ⟨fun stream => ?_, ?_, ?_⟩
    · rw [htogether, Printed.on_flatMap]
      refine congrArg String.join (List.map_congr_left fun file hfile => ?_)
      have halone : alone file = _ := check_singleton hsettings (htext file hfile)
      rw [halone]
    · rintro ⟨file, hfile, hexit⟩
      rw [htogether, if_neg]
      intro hall
      exact (hfails file hfile).1 hexit (List.all_eq_true.1 hall file hfile)
    · intro hpass
      rw [htogether, if_pos]
      rw [List.all_eq_true]
      intro file hfile
      by_contra hp
      exact hpass file hfile ((hfails file hfile).2 hp)
  · rintro s targets hw rfl htargets hne
    have hclean : ∀ p ∈ targets, p.Clean := fun p hp =>
      Settings.clean_of_mem_files hw (plain_root hw hsettings) htargets hp
    have hnamed : check explain w { request with files := targets.map Path.toString } =
        checkFiles w (request.mode (some s)) false ((targets.map Path.toString).map Path.ofString) :=
      check_eq hsettings (mt List.map_eq_nil_iff.1 hne)
    rw [check_none hsettings htargets, checkTargets_eq hne, hnamed, map_ofString_toString hclean]

def sampleProject : Workspace :=
  ⟨.directory [("rulegrammar.toml", .file "".toUTF8), ("grammar", .directory
    [("a.grammar", .file "a: b\n".toUTF8), ("b.grammar", .file "b\n".toUTF8)])], []⟩

def sampleSettings : Settings := ⟨.string "unnamed", ⟨"/", []⟩, ["./grammar"], ".grammar", 100⟩

def sampleTargets : List Path := [⟨"/", ["grammar", "a.grammar"]⟩, ⟨"/", ["grammar", "b.grammar"]⟩]

theorem findSettings_sampleProject :
    findSettings unexplained sampleProject settingsName = .ok (some sampleSettings) := by rfl

theorem wellNamed_sampleProject : sampleProject.WellNamed where
  tree := by decide
  here := nofun

theorem files_sampleProject : sampleSettings.files sampleProject = .ok sampleTargets := by
  have hfound : sampleSettings.filesOf sampleProject "./grammar" = .ok sampleTargets := by
    decide +kernel
  exact Settings.files_eq_of_filesOf wellNamed_sampleProject.tree (by decide) rfl hfound (by decide)

theorem check_composes_sampleProject :
    let request : CheckRequest := ⟨[], settingsName, "human", false⟩
    let named := sampleTargets.map Path.toString
    check unexplained sampleProject request = check unexplained sampleProject { request with files := named } ∧
      ∀ stream, (check unexplained sampleProject { request with files := named }).printed.on stream =
        String.join (named.map fun file =>
          (check unexplained sampleProject { request with files := [file] }).printed.on stream) := by
  intro request named
  have hsettings : findSettings unexplained sampleProject request.config = .ok (some sampleSettings) :=
    findSettings_sampleProject
  obtain ⟨heach, hdiscovered⟩ := check_composes hsettings
  have hread : ∀ file ∈ sampleTargets.map Path.toString,
      (sampleProject.readText (.ofString file)).isOk := by
    decide
  have htext : ∀ file ∈ named, sampleProject.readText (.ofString file) ≠ .error .notText := by
    intro file hfile hnot
    have hok := hread file hfile
    rw [hnot] at hok
    exact nomatch hok
  obtain ⟨hstream, -⟩ := heach named (List.cons_ne_nil _ _) htext
  exact ⟨hdiscovered sampleSettings sampleTargets wellNamed_sampleProject rfl files_sampleProject
    (List.cons_ne_nil _ _), hstream⟩

end IndentedGrammar.Command
