import IndentedGrammar.Proofs.Files.Search
import IndentedGrammar.Settings

namespace IndentedGrammar.Settings

def named (w : Workspace) (root : Path) (entry : String) : Path :=
  w.resolve (root.join (.ofString entry))

/-- What an entry finds: the file that it names, and whatever from the directory that it names on the patterns
stand for. -/
inductive Finds (w : Workspace) (s : Settings) (entry : String) : Path → FileTree → Prop
  | file {bytes} : w.Stands (named w s.root entry) (.file bytes) →
      Finds w s entry (named w s.root entry) (.file bytes)
  | inside {above here parts there} : w.At (named w s.root entry) above here →
      FileTree.Matches ("**" :: patterns s.extension) above here parts there →
      Finds w s entry ((named w s.root entry).below parts) there

variable {explain : List Char → String} {w : Workspace} {s : Settings} {p : Path} {entry : String}

theorem Finds.stands {there : FileTree} (hnamed : w.tree.WellNamed) (h : Finds w s entry p there) :
    w.Stands p there := by
  cases h with
  | file hstands => exact hstands
  | inside hat hmatches =>
    obtain ⟨⟨above, hsteps⟩, -⟩ := hmatches.exists_steps (hat.wellNamed hnamed)
    exact ⟨above, hat.below hsteps⟩

theorem Finds.root_eq {there : FileTree} (h : Finds w s entry p there) : p.root = "/" := by
  cases h with
  | file => rfl
  | inside => rfl

theorem root_eq_of_ofFields {fields : List (String × Toml.Value)} (h : ofFields p fields = .ok s) :
    s.root = p.parent := by
  obtain ⟨grammar, -, h⟩ := exists_of_bind_eq_ok h
  obtain ⟨paths, -, h⟩ := exists_of_bind_eq_ok h
  obtain ⟨extension, -, h⟩ := exists_of_bind_eq_ok h
  obtain ⟨limit, -, h⟩ := exists_of_bind_eq_ok h
  obtain ⟨project, -, h⟩ := exists_of_bind_eq_ok h
  obtain rfl := Except.ok.inj h
  rfl

theorem root_eq_of_load (h : load explain w p = .ok s) : s.root = p.parent := by
  rw [load] at h
  split at h
  · exact nomatch h
  · exact nomatch h
  split at h
  · exact nomatch h
  · exact root_eq_of_ofFields h

theorem plain_named (hw : w.WellNamed) (hroot : s.root.Plain) (entry : String) :
    (named w s.root entry).Plain := by
  refine hw.resolve fun part hpart hup => ?_
  rw [Path.join] at hpart
  split at hpart
  · exact Path.isName_of_mem_ofString hpart hup
  · rcases List.mem_append.1 hpart with hpart | hpart
    · exact hroot.2 part hpart
    · exact Path.isName_of_mem_ofString hpart hup

theorem isPart_of_mem_patterns {extension pattern : String}
    (h : pattern ∈ "**" :: patterns extension) (hne : pattern ≠ "") : IsPart pattern := by
  rcases List.mem_cons.1 h with rfl | h
  · exact .inr (by decide)
  rcases List.mem_append.1 h with h | h
  · exact Decidable.or_iff_not_imp_left.2 (Path.isName_of_mem_ofString h)
  · split at h
    · exact absurd (List.mem_singleton.1 h) hne
    · exact absurd h List.not_mem_nil

theorem filesOf_eq_ok_iff {found : List Path} : s.filesOf w entry = .ok found ↔
    (∀ part ∈ (s.root.join (.ofString entry)).parts, NoNull part) ∧
    ((w.find? (named w s.root entry) = .ok none ∧ found = []) ∨
    (∃ bytes, w.find? (named w s.root entry) = .ok (some (.file bytes)) ∧
      found = [named w s.root entry]) ∨
    ∃ here, w.find? (named w s.root entry) = .ok (some here) ∧ (∀ bytes, here ≠ .file bytes) ∧
      (patterns s.extension).all isPattern ∧
      w.select ("**" :: patterns s.extension) (named w s.root entry) = .ok found) := by
  unfold filesOf
  dsimp only
  rw [named]
  split
  next hnull => exact iff_of_false nofun fun h => hnull h.1
  next hnull =>
    rw [and_iff_right (Decidable.not_not.1 hnull)]
    split
    next hfind => simp [hfind]
    next hfind => simp [hfind]
    next hfind => simpa [hfind] using eq_comm
    next here hfile hfind =>
      have hfile' (bytes : ByteArray) : here ≠ .file bytes := fun heq => hfile bytes heq
      split
      next hpatterns => simp [hfind, hfile', hpatterns]
      next hpatterns => simp [hfind, hfile', hpatterns]

theorem clean_of_mem_filesOf (hw : w.WellNamed) (hroot : s.root.Plain) {found : List Path}
    (h : s.filesOf w entry = .ok found) (hp : p ∈ found) : p.Clean := by
  have hnamed := plain_named hw hroot entry
  have hclean : (named w s.root entry).Clean := ⟨hnamed.1, fun part hpart => .inr (hnamed.2 part hpart)⟩
  obtain ⟨-, ⟨-, rfl⟩ | ⟨bytes, -, rfl⟩ | ⟨here, -, -, -, hselect⟩⟩ := filesOf_eq_ok_iff.1 h
  · exact absurd hp List.not_mem_nil
  · exact List.mem_singleton.1 hp ▸ hclean
  · exact Workspace.clean_of_mem_select hw.tree (fun _ => isPart_of_mem_patterns) hclean hselect hp

theorem mem_filesOf_iff (hnamed : w.tree.WellNamed) (hdistinct : w.tree.Distinct) {found : List Path}
    (h : s.filesOf w entry = .ok found) : p ∈ found ↔ ∃ there, Finds w s entry p there := by
  obtain ⟨-, ⟨hfind, rfl⟩ | ⟨bytes, hfind, rfl⟩ | ⟨here, hfind, hfile, -, hselect⟩⟩ :=
    filesOf_eq_ok_iff.1 h
  · refine iff_of_false List.not_mem_nil ?_
    rintro ⟨there, hstands | ⟨hat, -⟩⟩
    · exact nomatch hstands.eq_of_find? hdistinct hfind
    · exact nomatch Workspace.Stands.eq_of_find? hdistinct ⟨_, hat⟩ hfind
  · rw [List.mem_singleton]
    constructor
    · rintro rfl
      exact ⟨_, .file (Workspace.stands_of_find? rfl hfind)⟩
    · rintro ⟨there, hstands | ⟨hat, hmatches⟩⟩
      · rfl
      · obtain ⟨entries, rfl⟩ := hmatches.exists_directory (List.cons_ne_nil _ _)
        exact nomatch Workspace.Stands.eq_of_find? hdistinct ⟨_, hat⟩ hfind
  · obtain ⟨above, hat⟩ := Workspace.stands_of_find? rfl hfind
    constructor
    · intro hp
      cases here with
      | file bytes => exact absurd rfl (hfile bytes)
      | special bytes =>
        obtain ⟨here, hhere, hgathers⟩ := Workspace.gathers_of_anywhere hselect
        obtain rfl := Except.ok.inj ((Workspace.find?_eq_some_iff.1 hfind).symm.trans hhere)
        obtain ⟨place, hplace, -⟩ := (hgathers.mem_iff p).1 hp
        exact absurd hplace List.not_mem_nil
      | directory entries =>
        obtain ⟨parts, there, hmatches, rfl⟩ :=
          (w.exhaustive hdistinct hnamed _ hat (Bool.or_true _) hselect p).1 hp
        exact ⟨there, .inside hat hmatches⟩
    · rintro ⟨there, hstands | ⟨hat', hmatches⟩⟩
      · obtain rfl := Option.some.inj (hstands.eq_of_find? hdistinct hfind)
        exact absurd rfl (hfile _)
      · obtain ⟨rfl, rfl⟩ := hat.unique hdistinct hat'
        obtain ⟨entries, rfl⟩ := hmatches.exists_directory (List.cons_ne_nil _ _)
        exact (w.exhaustive hdistinct hnamed _ hat (Bool.or_true _) hselect _).2
          ⟨_, there, hmatches, rfl⟩

theorem mem_files {found : List Path} (h : s.files w = .ok found) :
    p ∈ found ↔ ∃ entry ∈ s.paths, ∃ paths, s.filesOf w entry = .ok paths ∧ p ∈ paths := by
  obtain ⟨lists, hlists, h⟩ := exists_of_bind_eq_ok h
  obtain rfl := Except.ok.inj h
  rw [List.mem_mergeSort, List.mem_eraseDups, mem_flatten_of_mapM hlists]

theorem exists_files_iff :
    (∃ found, s.files w = .ok found) ↔ ∀ entry ∈ s.paths, ∃ found, s.filesOf w entry = .ok found := by
  rw [files, exists_bind_iff, ← exists_mapM_iff]
  exact exists_congr fun lists => and_iff_left ⟨_, rfl⟩

theorem mem_files_iff (hnamed : w.tree.WellNamed) (hdistinct : w.tree.Distinct) {found : List Path}
    (h : s.files w = .ok found) : p ∈ found ↔ ∃ entry ∈ s.paths, ∃ there, Finds w s entry p there := by
  rw [mem_files h]
  refine exists_congr fun entry => and_congr_right fun hentry => ?_
  obtain ⟨paths, hpaths⟩ := exists_files_iff.1 ⟨found, h⟩ entry hentry
  simp [hpaths, mem_filesOf_iff hnamed hdistinct hpaths]

theorem clean_of_mem_files (hw : w.WellNamed) (hroot : s.root.Plain) {targets : List Path}
    (h : s.files w = .ok targets) (hp : p ∈ targets) : p.Clean := by
  obtain ⟨entry, -, paths, hpaths, hp⟩ := (mem_files h).1 hp
  exact clean_of_mem_filesOf hw hroot hpaths hp

end IndentedGrammar.Settings
