import IndentedGrammar.Proofs.Command.Check
import IndentedGrammar.Proofs.Files.Text
import IndentedGrammar.Proofs.Settings.Outcome

namespace IndentedGrammar.Command

variable {explain : List Char → String} {w : Workspace}

theorem findSettings_of_failure {name : String} {there : FileTree} {failure : Settings.Failure}
    (hfind : w.find? (w.resolve (.ofString name)) = .ok (some there))
    (hload : Settings.load explain w (w.resolve (.ofString name)) = .error failure) :
    findSettings explain w name = .error ((failure.message? (w.resolve (.ofString name))).elim
      (.crash (.ofFailure failure)) .refused) := by
  unfold findSettings
  dsimp only
  rw [hfind]
  dsimp only
  rw [hload]
  cases hmessage : failure.message? (w.resolve (.ofString name)) with
  | none =>
    dsimp only
    rw [hmessage]
    rfl
  | some message =>
    dsimp only
    rw [hmessage]
    rfl

theorem check_of_crash {request : CheckRequest} {cause : Crash}
    (hsettings : findSettings explain w request.config = .error (.crash cause)) :
    check explain w request = ⟨[], .crash cause⟩ := by
  unfold check
  rw [hsettings]

theorem check_of_refused {request : CheckRequest} {message : String}
    (hsettings : findSettings explain w request.config = .error (.refused message))
    (hfiles : request.files ≠ []) :
    check explain w request =
      (checkFiles w (request.mode none) false (request.files.map Path.ofString)).after
        [say .err ("Warning: ignoring " ++ request.config ++ ": " ++ message)] := by
  have hnamed : request.files.map Path.ofString ≠ [] := mt List.map_eq_nil_iff.1 hfiles
  unfold check
  rw [hsettings]
  dsimp only
  rw [if_neg (by simpa using hnamed), checkTargets_eq hnamed]

/-- The settings are those that the fields of the file describe. If these describe none, or if there are no
fields to read, the settings are refused with a message, and files that are named are checked with the
defaults. -/
theorem load_or_refuse {p : Path} (htext : w.IsText p)
    (hsections : ∀ text fields, w.readText p = .ok text → Toml.read text = some fields →
      ∀ name ∈ ["grammar", "project"], ∃ inner, Settings.HasSection fields name inner) :
    (∃ s text fields, Settings.load explain w p = .ok s ∧ w.readText p = .ok text ∧
      Toml.read text = some fields ∧ Settings.Describes p fields s ∧
      s.extension.toList.head? = some '.') ∨
    ∃ failure message, Settings.load explain w p = .error failure ∧ failure.message? p = some message ∧
      (∀ text fields s, w.readText p = .ok text → Toml.read text = some fields →
        ¬ Settings.Describes p fields s) ∧
      ∀ request : CheckRequest, request.files ≠ [] → w.resolve (.ofString request.config) = p →
        (∃ there, w.find? p = .ok (some there)) →
        check explain w request =
          (checkFiles w (request.mode none) false (request.files.map Path.ofString)).after
            [say .err ("Warning: ignoring " ++ request.config ++ ": " ++ message)] := by
  cases hload : Settings.load explain w p with
  | ok s =>
    obtain ⟨text, fields, hread, hfields, hdescribes⟩ := Settings.load_eq_ok_iff.1 hload
    exact .inl ⟨s, text, fields, rfl, hread, hfields, hdescribes, hdescribes.head?_extension⟩
  | error failure =>
    obtain ⟨message, hmessage⟩ := Settings.isRefusal_of_load htext.ne_notText hsections hload
    refine .inr ⟨failure, message, rfl, hmessage, ?_, ?_⟩
    · intro text fields s hread hfields hdescribes
      exact nomatch hload.symm.trans
        (Settings.load_eq_ok_iff.2 ⟨text, fields, hread, hfields, hdescribes⟩)
    · rintro request hfiles rfl ⟨there, hfind⟩
      refine check_of_refused ?_ hfiles
      rw [findSettings_of_failure hfind hload, hmessage]
      rfl

def projectWith (settings : ByteArray) : Workspace :=
  ⟨.directory [("rulegrammar.toml", .file settings), ("rule", .file "a: b\n".toUTF8)], []⟩

theorem load_projectWith {settings : ByteArray} {text : List Char} {fields : List (String × Toml.Value)}
    (htext : (projectWith settings).readText ⟨"/", ["rulegrammar.toml"]⟩ = .ok text)
    (hfields : Toml.read text = some fields) :
    Settings.load explain (projectWith settings) ⟨"/", ["rulegrammar.toml"]⟩ =
      Settings.ofFields ⟨"/", ["rulegrammar.toml"]⟩ fields := by
  rw [Settings.load, htext]
  dsimp only
  rw [hfields]

theorem resolve_projectWith (settings : ByteArray) :
    (projectWith settings).resolve (.ofString settingsName) = ⟨"/", ["rulegrammar.toml"]⟩ := by
  have hname : (Path.ofString settingsName).resolve [] = ⟨"/", ["rulegrammar.toml"]⟩ := by decide
  exact hname

theorem check_projectWith {settings : ByteArray} {failure : Settings.Failure}
    (hload : Settings.load explain (projectWith settings) ⟨"/", ["rulegrammar.toml"]⟩ = .error failure)
    (hmessage : failure.message? ⟨"/", ["rulegrammar.toml"]⟩ = none) :
    check explain (projectWith settings) ⟨["rule"], settingsName, "human", false⟩ =
      ⟨[], .crash (.ofFailure failure)⟩ := by
  have hfind : (projectWith settings).find? ⟨"/", ["rulegrammar.toml"]⟩ = .ok (some (.file settings)) :=
    rfl
  rw [← resolve_projectWith settings] at hload hmessage hfind
  apply check_of_crash
  rw [findSettings_of_failure hfind hload, hmessage]
  rfl

def explanation (_ : List Char) : String := "Invalid statement (at line 1, column 1)"

theorem load_or_refuse_malformed :
    let request : CheckRequest := ⟨["rule"], settingsName, "human", false⟩
    let checked (w : Workspace) (message : String) :=
      (checkFiles w (request.mode none) false [.ofString "rule"]).after
        [say .err ("Warning: ignoring rulegrammar.toml: " ++ message)]
    let malformed := projectWith "= 3\n".toUTF8
    let mistyped := projectWith "[grammar]\nmax_depth = true\n".toUTF8
    check explanation malformed request = checked malformed
      "Invalid TOML in /rulegrammar.toml: Invalid statement (at line 1, column 1)" ∧
    check explanation mistyped request = checked mistyped
      "/rulegrammar.toml: 'grammar.max_depth' must be of type int" := by
  intro request checked malformed mistyped
  let p : Path := ⟨"/", ["rulegrammar.toml"]⟩
  have hnull : ∀ part ∈ p.parts, NoNull part := by decide +kernel
  constructor
  · have hread : malformed.readText p = .ok "= 3\n".toList := by rfl
    have hnone : Toml.read "= 3\n".toList = none := by decide +kernel
    have hload : Settings.load explanation malformed p =
        .error (.malformed "Invalid statement (at line 1, column 1)") := by
      rw [Settings.load, hread]
      dsimp only
      rw [hnone]
      rfl
    have htext : malformed.IsText p := ⟨hnull, by simp [hread]⟩
    have houtcome := @load_or_refuse explanation malformed p htext fun text fields htext htoml => by
      obtain rfl := Except.ok.inj (hread.symm.trans htext)
      cases hnone.symm.trans htoml
    rcases houtcome with ⟨s, -, -, hs, -⟩ | ⟨failure, message, hfailure, hmessage, -, hcheck⟩
    · cases hload.symm.trans hs
    · obtain rfl := Except.error.inj (hload.symm.trans hfailure)
      obtain rfl := Option.some.inj hmessage
      exact hcheck request (List.cons_ne_nil _ _) (resolve_projectWith _) ⟨_, rfl⟩
  · have hread : mistyped.readText p = .ok "[grammar]\nmax_depth = true\n".toList := by rfl
    have hfields : Toml.read "[grammar]\nmax_depth = true\n".toList =
        some [("grammar", .table [("max_depth", .bool true)])] := by
      decide +kernel
    have hload : Settings.load explanation mistyped p = .error (.wrongType "grammar.max_depth" "int") :=
      load_projectWith hread hfields
    have htext : mistyped.IsText p := ⟨hnull, by simp [hread]⟩
    have houtcome := @load_or_refuse explanation mistyped p htext fun text fields htext htoml name hname => by
      obtain rfl := Except.ok.inj (hread.symm.trans htext)
      obtain rfl := Option.some.inj (hfields.symm.trans htoml)
      rcases List.mem_pair.1 hname with rfl | rfl
      · exact ⟨_, .written rfl⟩
      · exact ⟨_, .missing rfl⟩
    rcases houtcome with ⟨s, -, -, hs, -⟩ | ⟨failure, message, hfailure, hmessage, -, hcheck⟩
    · cases hload.symm.trans hs
    · obtain rfl := Except.error.inj (hload.symm.trans hfailure)
      obtain rfl := Option.some.inj hmessage
      exact hcheck request (List.cons_ne_nil _ _) (resolve_projectWith _) ⟨_, rfl⟩

/-- Settings that are no text, and a number where a section has to be, leave nothing that can be told: the
file that is named is not checked. -/
theorem check_crashes_on_settings :
    let request : CheckRequest := ⟨["rule"], settingsName, "human", false⟩
    let p : Path := ⟨"/", ["rulegrammar.toml"]⟩
    (Settings.load explanation (projectWith ⟨#[0xff]⟩) p = .error .notText ∧
      Settings.Failure.notText.message? p = none ∧
      check explanation (projectWith ⟨#[0xff]⟩) request = ⟨[], .crash .notText⟩) ∧
    Settings.load explanation (projectWith "grammar = 3\n".toUTF8) p = .error (.notTable (.integer 3)) ∧
      (Settings.Failure.notTable (.integer 3)).message? p = none ∧
      check explanation (projectWith "grammar = 3\n".toUTF8) request =
        ⟨[], .crash (.notTable (.integer 3))⟩ := by
  intro request p
  have hbytes : Settings.load explanation (projectWith ⟨#[0xff]⟩) p = .error .notText := by rfl
  have hread : (projectWith "grammar = 3\n".toUTF8).readText p = .ok "grammar = 3\n".toList := by rfl
  have hfields : Toml.read "grammar = 3\n".toList = some [("grammar", .integer 3)] := by
    decide +kernel
  have hnumber : Settings.load explanation (projectWith "grammar = 3\n".toUTF8) p =
      .error (.notTable (.integer 3)) :=
    load_projectWith hread hfields
  exact ⟨⟨hbytes, rfl, check_projectWith hbytes rfl⟩, hnumber, rfl, check_projectWith hnumber rfl⟩

end IndentedGrammar.Command
