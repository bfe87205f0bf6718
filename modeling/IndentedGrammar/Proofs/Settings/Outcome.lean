import IndentedGrammar.Proofs.Settings

namespace IndentedGrammar.Settings

inductive HasSection (fields : List (String × Toml.Value)) (name : String) :
    List (String × Toml.Value) → Prop
  | missing : fields.lookup name = none → HasSection fields name []
  | written {inner} : fields.lookup name = some (.table inner) → HasSection fields name inner

/-- What a section gives for a key, which it has to write as `form` does, or else the default. -/
inductive Gives {α : Type} (inner : List (String × Toml.Value)) (key : String) (default : α)
    (form : α → Toml.Value) : α → Prop
  | missing : inner.lookup key = none → Gives inner key default form default
  | written {a} : inner.lookup key = some (form a) → Gives inner key default form a

def dotted (text : String) : String := if text.toList.head? = some '.' then text else "." ++ text

inductive Describes (p : Path) (fields : List (String × Toml.Value)) : Settings → Prop
  | intro {grammar project name paths text limit} :
      HasSection fields "grammar" grammar → HasSection fields "project" project →
      Gives project "name" (.string (if p.parent.name = "" then "unnamed" else p.parent.name)) id name →
      Gives grammar "paths" ["./grammar"] (fun paths => .array (paths.map .string)) paths →
      Gives grammar "extension" ".grammar" .string text →
      Gives grammar "max_depth" 100 (fun n => .integer (.ofNat n)) limit →
      Describes p fields ⟨name, p.parent, paths, dotted text, limit⟩

section

variable {fields grammar inner : List (String × Toml.Value)}

theorem section?_eq_ok_iff {name : String} : section? name fields = .ok inner ↔
    HasSection fields name inner := by
  constructor
  · intro h
    unfold section? at h
    split at h
    next hlookup =>
      obtain rfl := Except.ok.inj h
      exact .missing hlookup
    next hlookup =>
      obtain rfl := Except.ok.inj h
      exact .written hlookup
    · exact nomatch h
  · rintro (hlookup | hlookup)
    · rw [section?, hlookup]
    · rw [section?, hlookup]

theorem readStrings_eq_ok_iff {values : List Toml.Value} {texts : List String} :
    readStrings values = .ok texts ↔ values = texts.map .string := by
  fun_induction readStrings values generalizing texts with
  | case1 => simp [eq_comm]
  | case2 text values ih =>
    cases texts with
    | nil => cases hmore : readStrings values <;> simp [Except.map]
    | cons text' texts =>
      rw [List.map_cons, List.cons.injEq, ← ih]
      cases hmore : readStrings values <;> simp [Except.map]
  | case3 value values hvalue =>
    refine iff_of_false nofun fun h => ?_
    cases texts with
    | nil => exact nomatch h
    | cons text texts => exact hvalue text (List.cons.inj h).1

theorem readPaths_eq_ok_iff {paths : List String} : readPaths grammar = .ok paths ↔
    Gives grammar "paths" ["./grammar"] (fun paths => .array (paths.map .string)) paths := by
  constructor
  · intro h
    unfold readPaths at h
    split at h
    next hlookup =>
      obtain rfl := Except.ok.inj h
      exact .missing hlookup
    next values hlookup =>
      rw [readStrings_eq_ok_iff] at h
      exact .written (h ▸ hlookup)
    · exact nomatch h
  · rintro (hlookup | hlookup)
    · rw [readPaths, hlookup]
    · rw [readPaths, hlookup]
      exact readStrings_eq_ok_iff.2 rfl

theorem readExtension_eq_ok_iff {extension : String} : readExtension grammar = .ok extension ↔
    ∃ text, Gives grammar "extension" ".grammar" .string text ∧ extension = dotted text := by
  constructor
  · intro h
    unfold readExtension at h
    split at h
    next hlookup =>
      obtain rfl := Except.ok.inj h
      exact ⟨_, .missing hlookup, rfl⟩
    next hlookup =>
      obtain rfl := Except.ok.inj h
      exact ⟨_, .written hlookup, rfl⟩
    · exact nomatch h
  · rintro ⟨text, hlookup | hlookup, rfl⟩
    · rw [readExtension, hlookup]
      rfl
    · rw [readExtension, hlookup]
      rfl

theorem readLimit_eq_ok_iff {limit : Nat} : readLimit grammar = .ok limit ↔
    Gives grammar "max_depth" 100 (fun n => .integer (.ofNat n)) limit := by
  constructor
  · intro h
    unfold readLimit at h
    split at h
    next hlookup =>
      obtain rfl := Except.ok.inj h
      exact .missing hlookup
    next hlookup =>
      obtain rfl := Except.ok.inj h
      exact .written hlookup
    · exact nomatch h
    · exact nomatch h
  · rintro (hlookup | hlookup)
    · rw [readLimit, hlookup]
      rfl
    · rw [readLimit, hlookup]

theorem readName_eq_iff {p : Path} {project : List (String × Toml.Value)} {name : Toml.Value} :
    readName p project = name ↔
      Gives project "name" (.string (if p.parent.name = "" then "unnamed" else p.parent.name)) id
        name := by
  cases hlookup : project.lookup "name" with
  | none =>
    rw [readName, hlookup]
    constructor
    · rintro rfl
      exact .missing hlookup
    · rintro (h | h)
      · rfl
      · exact nomatch hlookup.symm.trans h
  | some value =>
    rw [readName, hlookup]
    constructor
    · rintro rfl
      exact .written hlookup
    · rintro (h | h)
      · exact nomatch hlookup.symm.trans h
      · exact Option.some.inj (hlookup.symm.trans h)

end

theorem ofFields_eq_ok_iff {p : Path} {fields : List (String × Toml.Value)} {s : Settings} :
    ofFields p fields = .ok s ↔ Describes p fields s := by
  constructor
  · intro h
    obtain ⟨grammar, hgrammar, h⟩ := exists_of_bind_eq_ok h
    obtain ⟨paths, hpaths, h⟩ := exists_of_bind_eq_ok h
    obtain ⟨extension, hextension, h⟩ := exists_of_bind_eq_ok h
    obtain ⟨limit, hlimit, h⟩ := exists_of_bind_eq_ok h
    obtain ⟨project, hproject, h⟩ := exists_of_bind_eq_ok h
    obtain rfl := Except.ok.inj h
    obtain ⟨text, htext, rfl⟩ := readExtension_eq_ok_iff.1 hextension
    exact .intro (section?_eq_ok_iff.1 hgrammar) (section?_eq_ok_iff.1 hproject)
      (readName_eq_iff.1 rfl) (readPaths_eq_ok_iff.1 hpaths) htext (readLimit_eq_ok_iff.1 hlimit)
  · rintro ⟨hgrammar, hproject, hname, hpaths, htext, hlimit⟩
    rw [ofFields, section?_eq_ok_iff.2 hgrammar]
    dsimp only [bind, Except.bind]
    rw [readPaths_eq_ok_iff.2 hpaths]
    dsimp only
    rw [readExtension_eq_ok_iff.2 ⟨_, htext, rfl⟩]
    dsimp only
    rw [readLimit_eq_ok_iff.2 hlimit]
    dsimp only
    rw [section?_eq_ok_iff.2 hproject]
    dsimp only
    rw [readName_eq_iff.2 hname]
    rfl

variable {explain : List Char → String} {w : Workspace} {p : Path} {s : Settings}

theorem load_eq_ok_iff : load explain w p = .ok s ↔ ∃ text fields,
    w.readText p = .ok text ∧ Toml.read text = some fields ∧ Describes p fields s := by
  constructor
  · intro h
    unfold load at h
    split at h
    · exact nomatch h
    · exact nomatch h
    next text htext =>
      split at h
      · exact nomatch h
      next fields hfields => exact ⟨text, fields, htext, hfields, ofFields_eq_ok_iff.1 h⟩
  · rintro ⟨text, fields, htext, hfields, hdescribes⟩
    rw [load, htext]
    dsimp only
    rw [hfields]
    exact ofFields_eq_ok_iff.2 hdescribes

theorem head?_dotted (text : String) : (dotted text).toList.head? = some '.' := by
  rw [dotted]
  split
  next h => exact h
  · rw [String.toList_append]
    rfl

theorem Describes.head?_extension {fields : List (String × Toml.Value)} (h : Describes p fields s) :
    s.extension.toList.head? = some '.' := by
  obtain ⟨-, -, -, -, -, -⟩ := h
  exact head?_dotted _

def Failure.IsRefusal (p : Path) (failure : Failure) : Prop :=
  ∃ message, failure.message? p = some message

section

variable {failure : Failure} {grammar : List (String × Toml.Value)}

theorem isRefusal_of_readStrings {values : List Toml.Value} (h : readStrings values = .error failure) :
    failure.IsRefusal p := by
  fun_induction readStrings values with
  | case1 => exact nomatch h
  | case2 text values ih =>
    cases hmore : readStrings values with
    | error e =>
      rw [hmore] at h ih
      exact ih h
    | ok texts =>
      rw [hmore] at h
      exact nomatch h
  | case3 =>
    obtain rfl := Except.error.inj h
    exact ⟨_, rfl⟩

theorem isRefusal_of_readPaths (h : readPaths grammar = .error failure) : failure.IsRefusal p := by
  unfold readPaths at h
  split at h
  · exact nomatch h
  · exact isRefusal_of_readStrings h
  · obtain rfl := Except.error.inj h
    exact ⟨_, rfl⟩

theorem isRefusal_of_readExtension (h : readExtension grammar = .error failure) :
    failure.IsRefusal p := by
  unfold readExtension at h
  split at h
  · exact nomatch h
  · exact nomatch h
  · obtain rfl := Except.error.inj h
    exact ⟨_, rfl⟩

theorem isRefusal_of_readLimit (h : readLimit grammar = .error failure) : failure.IsRefusal p := by
  unfold readLimit at h
  split at h
  · exact nomatch h
  · exact nomatch h
  · obtain rfl := Except.error.inj h
    exact ⟨_, rfl⟩
  · obtain rfl := Except.error.inj h
    exact ⟨_, rfl⟩

theorem isRefusal_of_ofFields {fields : List (String × Toml.Value)}
    (hsections : ∀ name ∈ ["grammar", "project"], ∃ inner, HasSection fields name inner)
    (h : ofFields p fields = .error failure) : failure.IsRefusal p := by
  have hsection {name : String} (hname : name ∈ ["grammar", "project"]) : section? name fields ≠
      .error failure := by
    obtain ⟨inner, hinner⟩ := hsections name hname
    rw [section?_eq_ok_iff.2 hinner]
    exact nofun
  rcases error_of_bind_eq_error h with h | ⟨grammar, -, h⟩
  · exact absurd h (hsection (by decide))
  rcases error_of_bind_eq_error h with h | ⟨paths, -, h⟩
  · exact isRefusal_of_readPaths h
  rcases error_of_bind_eq_error h with h | ⟨extension, -, h⟩
  · exact isRefusal_of_readExtension h
  rcases error_of_bind_eq_error h with h | ⟨limit, -, h⟩
  · exact isRefusal_of_readLimit h
  rcases error_of_bind_eq_error h with h | ⟨project, -, h⟩
  · exact absurd h (hsection (by decide))
  · exact nomatch h

theorem isRefusal_of_load (htext : w.readText p ≠ .error .notText)
    (hsections : ∀ text fields, w.readText p = .ok text → Toml.read text = some fields →
      ∀ name ∈ ["grammar", "project"], ∃ inner, HasSection fields name inner)
    (h : load explain w p = .error failure) : failure.IsRefusal p := by
  unfold load at h
  split at h
  · obtain rfl := Except.error.inj h
    exact ⟨_, rfl⟩
  next hnot => exact absurd hnot htext
  next text hread =>
    split at h
    · obtain rfl := Except.error.inj h
      exact ⟨_, rfl⟩
    next fields hfields => exact isRefusal_of_ofFields (hsections text fields hread hfields) h

end

end IndentedGrammar.Settings
