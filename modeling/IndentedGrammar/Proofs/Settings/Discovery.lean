import IndentedGrammar.Proofs.Files.Glob
import IndentedGrammar.Proofs.Files.Order
import IndentedGrammar.Proofs.Settings

namespace IndentedGrammar

namespace Settings

/-- What an entry stands for: the file that it names, and everything strictly below the directory that it
names whose last component ends in the extension. -/
inductive Selects (w : Workspace) (root : Path) (extension entry : String) : Path → Prop
  | file {bytes} : w.tree.Leads (named w root entry).parts (.file bytes) →
      Selects w root extension entry (named w root entry)
  | inside {entries above last there} :
      w.tree.Leads (named w root entry).parts (.directory entries) →
      (FileTree.directory entries).Leads (above ++ [last]) there →
      extension.toList <:+ last.toList →
      Selects w root extension entry ⟨"/", (named w root entry).parts ++ (above ++ [last])⟩

/-- The file system can follow the entry, as far as there is something, and go on to each directory below. -/
structure Reachable (w : Workspace) (root : Path) (entry : String) : Prop where
  noNull : ∀ part ∈ (root.join (.ofString entry)).parts, NoNull part
  notLong : w.find? (named w root entry) ≠ .error .tooLong
  below_notLong : ∀ parts entries, w.tree.Leads ((named w root entry).parts ++ parts) (.directory entries) →
    w.find ((named w root entry).below parts) ≠ .error .tooLong

variable {w : Workspace} {s : Settings} {root p : Path} {extension entry entry' : String}

theorem Selects.root_eq (h : Selects w root extension entry p) : p.root = "/" := by
  cases h with
  | file => rfl
  | inside => rfl

theorem Selects.up_not_mem (hnamed : w.tree.WellNamed) (h : Selects w root extension entry p) :
    ".." ∉ p.parts := by
  cases h with
  | file => exact Path.up_not_mem_resolve _ _
  | inside hbase hbelow =>
    have hleads := FileTree.leads_append_iff.2 ⟨_, hbase, hbelow⟩
    exact hnamed.up_not_mem_of_leads hleads

theorem stands_named_iff {there : FileTree} :
    w.Stands (named w root entry) there ↔ w.tree.Leads (named w root entry).parts there :=
  Workspace.stands_iff_leads rfl (Path.up_not_mem_resolve _ _)

theorem patterns_eq (hslash : '/' ∉ extension.toList) :
    patterns extension = ["*" ++ extension] := by
  have hchars : ("*" ++ extension).toList = '*' :: extension.toList := String.toList_append
  have hname : IsName ("*" ++ extension) := by
    simp only [IsName, Ne, ← String.toList_inj, hchars]
    refine ⟨nofun, by simp, by simp, by simpa using hslash⟩
  have hlast : extension.toList.getLast? ≠ some '/' := fun hlast =>
    hslash (List.mem_of_getLast? hlast)
  rw [patterns, Path.ofString_of_isName hname, if_neg hlast]
  rfl

theorem increasing_files {found : List Path} (hnamed : w.tree.WellNamed) (hdistinct : w.tree.Distinct)
    (h : s.files w = .ok found) : Path.Increasing found := by
  have hroot (p : Path) (hp : p ∈ found) : p.root = "/" := by
    obtain ⟨entry, -, there, hfinds⟩ := (mem_files_iff hnamed hdistinct h).1 hp
    exact hfinds.root_eq
  obtain ⟨lists, -, h⟩ := exists_of_bind_eq_ok h
  obtain rfl := Except.ok.inj h
  exact Path.increasing_mergeSort fun p hp => hroot p (List.mem_mergeSort.2 (List.mem_eraseDups.2 hp))

theorem files_eq_of_filesOf {found : List Path} (hnamed : w.tree.WellNamed) (hdistinct : w.tree.Distinct)
    (hpaths : s.paths = [entry]) (h : s.filesOf w entry = .ok found) (hincreasing : Path.Increasing found) :
    s.files w = .ok found := by
  have hfiles : s.files w =
      .ok ([found].flatten.eraseDups.mergeSort fun p q => (compare p.parts q.parts).isLE) := by
    rw [files, hpaths, List.mapM_cons, h]
    rfl
  rw [hfiles, (increasing_files hnamed hdistinct hfiles).eq hincreasing fun p => ?_]
  rw [List.mem_mergeSort, List.mem_eraseDups, List.flatten_singleton]

theorem selects_iff (hnamed : w.tree.WellNamed) (hliteral : IsLiteral s.extension.toList)
    (hslash : '/' ∉ s.extension.toList) :
    Selects w s.root s.extension entry p ↔ ∃ there, Finds w s entry p there := by
  have hfits {above : List FileTree} {here there : FileTree} {parts : List String} (hhere : here.WellNamed) :
      FileTree.Matches ("**" :: patterns s.extension) above here parts there ↔
        ∃ first last, parts = first ++ [last] ∧ globMatches ("*" ++ s.extension) last ∧
          here.Leads parts there := by
    rw [patterns_eq hslash]
    exact FileTree.matches_below_iff hhere (star_append_ne hliteral) (isWild_star _)
  constructor
  · intro h
    cases h with
    | file hleads => exact ⟨_, .file (stands_named_iff.2 hleads)⟩
    | inside hbase hbelow hlast =>
      obtain ⟨above, hat⟩ := stands_named_iff.2 hbase
      refine ⟨_, .inside hat ((hfits ?_).2 ⟨_, _, rfl, (globMatches_star hliteral).2 hlast, hbelow⟩)⟩
      exact hat.forall_mem (fun _ => FileTree.WellNamed.of_mem) hnamed _ List.mem_cons_self
  · rintro ⟨there, hstands | ⟨hat, hmatches⟩⟩
    · exact .file (stands_named_iff.1 hstands)
    · obtain ⟨entries, rfl⟩ := hmatches.exists_directory (List.cons_ne_nil _ _)
      have hhere := hat.forall_mem (fun _ => FileTree.WellNamed.of_mem) hnamed _ List.mem_cons_self
      obtain ⟨above, last, rfl, hlast, hbelow⟩ := (hfits hhere).1 hmatches
      exact .inside (stands_named_iff.1 ⟨_, hat⟩) hbelow ((globMatches_star hliteral).1 hlast)

theorem exists_filesOf_iff (hnamed : w.tree.WellNamed) (hdistinct : w.tree.Distinct)
    (hliteral : IsLiteral s.extension.toList) (hslash : '/' ∉ s.extension.toList) :
    (∃ found, s.filesOf w entry = .ok found) ↔ Reachable w s.root entry := by
  -- A directory at the place of the entry or below it shows that there is one at this place.
  have hdirectory {parts : List String} {entries : List (String × FileTree)} {found : Option FileTree}
      (hfind : w.find? (named w s.root entry) = .ok found)
      (hleads : w.tree.Leads ((named w s.root entry).parts ++ parts) (.directory entries)) :
      ∃ entries', found = some (.directory entries') ∧
        (FileTree.directory entries').Leads parts (.directory entries) := by
    obtain ⟨here, hhere, hbelow⟩ := FileTree.leads_append_iff.1 hleads
    obtain ⟨entries', rfl⟩ := hbelow.exists_directory
    exact ⟨entries', (stands_named_iff.2 hhere).eq_of_find? hdistinct hfind, hbelow⟩
  have hsearch {entries : List (String × FileTree)}
      (hfind : w.find? (named w s.root entry) = .ok (some (.directory entries))) :
      (∃ found, w.select ("**" :: patterns s.extension) (named w s.root entry) = .ok found) ↔
        ∀ parts below, (FileTree.directory entries).Leads parts (.directory below) →
          w.find ((named w s.root entry).below parts) ≠ .error .tooLong := by
    obtain ⟨above, hat⟩ := Workspace.stands_of_find? rfl hfind
    have hhere := hat.wellNamed hnamed _ List.mem_cons_self
    rw [patterns_eq hslash]
    exact Workspace.exists_select_iff hdistinct hhere (star_append_ne hliteral) (isWild_star _) hat
  constructor
  · rintro ⟨found, h⟩
    obtain ⟨hnull, h⟩ := filesOf_eq_ok_iff.1 h
    refine ⟨hnull, ?_, fun parts entries hleads => ?_⟩
    · rcases h with ⟨hfind, -⟩ | ⟨bytes, hfind, -⟩ | ⟨here, hfind, -⟩ <;> simp [hfind]
    · rcases h with ⟨hfind, -⟩ | ⟨bytes, hfind, -⟩ | ⟨here, hfind, -, -, hselect⟩
      · obtain ⟨entries', heq, -⟩ := hdirectory hfind hleads
        cases heq
      · obtain ⟨entries', heq, -⟩ := hdirectory hfind hleads
        cases heq
      · obtain ⟨entries', heq, hbelow⟩ := hdirectory hfind hleads
        obtain rfl := Option.some.inj heq
        exact (hsearch hfind).1 ⟨found, hselect⟩ parts entries hbelow
  · rintro ⟨hnull, hlong, hbelow⟩
    obtain ⟨here, hfind⟩ := Workspace.exists_find? hlong
    have hpatterns : (patterns s.extension).all isPattern := by
      simp [patterns_eq hslash, isPattern_star hliteral]
    cases here with
    | none => exact ⟨[], filesOf_eq_ok_iff.2 ⟨hnull, .inl ⟨hfind, rfl⟩⟩⟩
    | some here =>
      have hends {found : List Path} (hfile : ∀ bytes, here ≠ .file bytes)
          (hselect : w.select ("**" :: patterns s.extension) (named w s.root entry) = .ok found) :
          s.filesOf w entry = .ok found :=
        filesOf_eq_ok_iff.2 ⟨hnull, .inr (.inr ⟨here, hfind, hfile, hpatterns, hselect⟩)⟩
      have hstands := Workspace.stands_of_find? rfl hfind
      cases here with
      | file bytes => exact ⟨_, filesOf_eq_ok_iff.2 ⟨hnull, .inr (.inl ⟨bytes, hfind, rfl⟩)⟩⟩
      | special bytes =>
        have hselect : w.select ("**" :: patterns s.extension) (named w s.root entry) = .ok [] := by
          rw [Workspace.select, if_neg (by decide), if_pos rfl, Workspace.find?_eq_some_iff.1 hfind]
          rfl
        exact ⟨[], hends (by simp) hselect⟩
      | directory entries =>
        obtain ⟨found, hselect⟩ := (hsearch hfind).2 fun parts below hleads => hbelow parts below
          (FileTree.leads_append_iff.2 ⟨_, stands_named_iff.1 hstands, hleads⟩)
        exact ⟨found, hends (by simp) hselect⟩

/-- The second entry can be followed, and leads to the place of the first one or to one below it; if there
is a file below, then its name ends in the extension. -/
structure Covers (w : Workspace) (root : Path) (extension entry entry' : String) : Prop where
  reachable : Reachable w root entry'
  within : ∃ more, (named w root entry').parts = (named w root entry).parts ++ more ∧
    ∀ above last bytes, more = above ++ [last] →
      w.tree.Leads (named w root entry').parts (.file bytes) → extension.toList <:+ last.toList

theorem Covers.selects (h : Covers w root extension entry entry')
    (hselects : Selects w root extension entry' p) : Selects w root extension entry p := by
  obtain ⟨more, hparts, hfile⟩ := h.within
  cases hselects with
  | @file bytes hleads =>
    have hnamed : named w root entry' = ⟨"/", (named w root entry).parts ++ more⟩ :=
      congrArg (Path.mk "/") hparts
    -- At the place of the first entry the file is named by that one too; below it, the extension counts.
    rcases List.eq_nil_or_concat' more with rfl | ⟨above, last, rfl⟩
    · rw [List.append_nil] at hparts hnamed
      rw [hnamed]
      exact .file (hparts ▸ hleads)
    · have hlast := hfile above last bytes rfl hleads
      rw [hparts, FileTree.leads_append_iff] at hleads
      obtain ⟨base, hbase, hbelow⟩ := hleads
      obtain ⟨entries, rfl⟩ := hbelow.eq_directory (by simp)
      rw [hnamed]
      exact .inside hbase hbelow hlast
  | @inside entries above last there hdirectory hbelow hlast =>
    rw [hparts, FileTree.leads_append_iff] at hdirectory
    obtain ⟨base, hbase, hmore⟩ := hdirectory
    have hbelow := FileTree.leads_append_iff.2 ⟨_, hmore, hbelow⟩
    obtain ⟨entries, rfl⟩ := hbelow.eq_directory (by simp)
    rw [← List.append_assoc] at hbelow
    rw [hparts, List.append_assoc, ← List.append_assoc more]
    exact .inside hbase hbelow hlast

/-- There is a list of the files just if each entry can be followed. It holds what the entries select, each
once and in order. No other entries that lead to the same places, or below them, change it. -/
theorem files_selected (hnamed : w.tree.WellNamed) (hdistinct : w.tree.Distinct)
    (hliteral : IsLiteral s.extension.toList) (hslash : '/' ∉ s.extension.toList) :
    ((∃ found, s.files w = .ok found) ↔ ∀ entry ∈ s.paths, Reachable w s.root entry) ∧
    ∀ found, s.files w = .ok found → Path.Increasing found ∧
      (∀ p ∈ found, p.root = "/" ∧ ".." ∉ p.parts) ∧
      (∀ p, p ∈ found ↔ ∃ entry ∈ s.paths, Selects w s.root s.extension entry p) ∧
      ∀ paths, (∀ entry ∈ s.paths, entry ∈ paths) →
        (∀ entry' ∈ paths, entry' ∈ s.paths ∨
          ∃ entry ∈ s.paths, Covers w s.root s.extension entry entry') →
        { s with paths := paths }.files w = .ok found := by
  have hexists (s' : Settings) (hroot : s'.root = s.root) (hextension : s'.extension = s.extension) :
      (∃ found, s'.files w = .ok found) ↔ ∀ entry ∈ s'.paths, Reachable w s.root entry := by
    rw [exists_files_iff, ← hroot]
    refine forall₂_congr fun entry _ => exists_filesOf_iff hnamed hdistinct ?_ ?_
    · rwa [hextension]
    · rwa [hextension]
  have hmem {paths found : _} (hfiles : { s with paths := paths }.files w = .ok found) (p : Path) :
      p ∈ found ↔ ∃ entry ∈ paths, Selects w s.root s.extension entry p := by
    rw [mem_files_iff hnamed hdistinct hfiles]
    refine exists_congr fun entry => and_congr_right fun _ => ?_
    exact (selects_iff (s := { s with paths := paths }) hnamed hliteral hslash).symm
  refine ⟨hexists s rfl rfl, fun found hfiles => ?_⟩
  have hincreasing := increasing_files hnamed hdistinct hfiles
  refine ⟨hincreasing, fun p hp => ?_, hmem hfiles, fun paths hkept hcovered => ?_⟩
  · obtain ⟨entry, -, hselects⟩ := (hmem hfiles p).1 hp
    exact ⟨hselects.root_eq, hselects.up_not_mem hnamed⟩
  obtain ⟨found', hfiles'⟩ := (hexists { s with paths := paths } rfl rfl).2 fun entry' hentry' => by
    rcases hcovered entry' hentry' with hentry | ⟨entry, -, hcovers⟩
    · exact (hexists s rfl rfl).1 ⟨found, hfiles⟩ entry' hentry
    · exact hcovers.reachable
  -- Increasing lists with the same members are equal, so it remains to compare what is selected.
  rw [hfiles', (increasing_files hnamed hdistinct hfiles').eq hincreasing fun p => ?_]
  rw [hmem hfiles, hmem hfiles']
  constructor
  · rintro ⟨entry', hentry', hselects⟩
    rcases hcovered entry' hentry' with hentry | ⟨entry, hentry, hcovers⟩
    · exact ⟨entry', hentry, hselects⟩
    · exact ⟨entry, hentry, hcovers.selects hselects⟩
  · rintro ⟨entry, hentry, hselects⟩
    exact ⟨entry, hkept entry hentry, hselects⟩

def grammarTree : FileTree :=
  .directory [("grammar", .directory [("a.grammar", .file .empty),
    ("deep", .directory [("b.grammar", .file .empty), ("notes", .file .empty)])]), ("top", .file .empty)]

def grammarSettings : Settings :=
  ⟨.string "unnamed", ⟨"", []⟩, ["grammar", "grammar/../top", "missing"], ".grammar", 100⟩

theorem wellNamed_grammarTree : grammarTree.WellNamed := by decide

theorem distinct_grammarTree : grammarTree.Distinct := by decide

theorem files_selected_grammarTree :
    ∃ found, grammarSettings.files ⟨grammarTree, []⟩ = .ok found ∧
      ⟨"/", ["grammar", "deep", "b.grammar"]⟩ ∈ found ∧
      { grammarSettings with
        paths := ["missing", "grammar/deep/.", "grammar/../top", "grammar"] }.files ⟨grammarTree, []⟩ =
        .ok found := by
  have hliteral : IsLiteral grammarSettings.extension.toList := by simp [IsLiteral, grammarSettings]
  have hslash : '/' ∉ grammarSettings.extension.toList := by decide
  have hends : ∀ entry ∈ ["grammar", "grammar/../top", "missing", "grammar/deep/."],
      (grammarSettings.filesOf ⟨grammarTree, []⟩ entry).isOk := by
    decide +kernel
  have hreach : ∀ entry ∈ ["grammar", "grammar/../top", "missing", "grammar/deep/."],
      Reachable ⟨grammarTree, []⟩ ⟨"", []⟩ entry := by
    intro entry hentry
    have hok := hends entry hentry
    refine (exists_filesOf_iff (s := grammarSettings) wellNamed_grammarTree distinct_grammarTree hliteral
      hslash).1 ?_
    cases hfiles : grammarSettings.filesOf ⟨grammarTree, []⟩ entry with
    | error e =>
      rw [hfiles] at hok
      exact nomatch hok
    | ok found => exact ⟨found, rfl⟩
  obtain ⟨hexists, hselected⟩ := files_selected (w := ⟨grammarTree, []⟩) wellNamed_grammarTree
    distinct_grammarTree hliteral hslash
  obtain ⟨found, hfiles⟩ := hexists.2 fun entry hentry =>
    hreach entry (List.mem_append_left ["grammar/deep/."] hentry)
  obtain ⟨-, -, hmem, hsame⟩ := hselected found hfiles
  have hgrammar : named ⟨grammarTree, []⟩ ⟨"", []⟩ "grammar" = ⟨"/", ["grammar"]⟩ := by decide
  have hdeep : named ⟨grammarTree, []⟩ ⟨"", []⟩ "grammar/deep/." = ⟨"/", ["grammar", "deep"]⟩ := by
    decide
  have hdirectory : grammarTree.Leads ["grammar", "deep"]
      (.directory [("b.grammar", .file .empty), ("notes", .file .empty)]) :=
    .inside List.mem_cons_self (.inside (List.mem_cons_of_mem _ List.mem_cons_self) .here)
  have hselects : Selects ⟨grammarTree, []⟩ ⟨"", []⟩ ".grammar" "grammar"
      ⟨"/", ["grammar", "deep", "b.grammar"]⟩ := by
    have hsplit : grammarTree.Leads (["grammar"] ++ ["deep"]) _ := hdirectory
    obtain ⟨base, hbase, hbelow⟩ := FileTree.leads_append_iff.1 hsplit
    obtain ⟨entries, rfl⟩ := hbelow.exists_directory
    have hfile := FileTree.leads_append_iff.2 ⟨_, hbelow, .inside List.mem_cons_self .here⟩
    have hinside : Selects ⟨grammarTree, []⟩ ⟨"", []⟩ ".grammar" "grammar" _ :=
      .inside (by rwa [hgrammar]) hfile (by decide)
    rwa [hgrammar] at hinside
  have hcovers : Covers ⟨grammarTree, []⟩ ⟨"", []⟩ ".grammar" "grammar" "grammar/deep/." := by
    refine ⟨hreach _ (by simp), ["deep"], by rw [hdeep, hgrammar]; rfl, fun _ _ _ _ hfile => ?_⟩
    rw [hdeep] at hfile
    exact absurd hfile (hdirectory.not_file distinct_grammarTree _)
  refine ⟨found, hfiles, (hmem _).2 ⟨"grammar", List.mem_cons_self, hselects⟩,
    hsame _ (by decide) fun entry' hentry' => ?_⟩
  have hknown : entry' ∈ grammarSettings.paths ∨ entry' = "grammar/deep/." := by
    revert entry'
    decide
  rcases hknown with hknown | rfl
  · exact .inl hknown
  · exact .inr ⟨"grammar", List.mem_cons_self, hcovers⟩

theorem named_of_isName {tree : FileTree} {name : String} (h : IsName name) :
    named ⟨tree, []⟩ ⟨"", []⟩ name = ⟨"/", [name]⟩ := by
  have hup : name ≠ ".." := h.2.2.1
  rw [named, Path.ofString_of_isName h]
  simp [Workspace.resolve, Path.join, Path.below, Path.resolve, Path.isAbsolute, Path.normalize,
    Path.descend, hup]

theorem filesOf_eq_of_tooLong (hnull : ∀ part ∈ (s.root.join (.ofString entry)).parts, NoNull part)
    (h : w.find? (named w s.root entry) = .error .tooLong) :
    s.filesOf w entry = .error (.unreachable (named w s.root entry) .tooLong) := by
  unfold filesOf
  dsimp only
  rw [if_neg (Decidable.not_not.2 hnull)]
  rw [named] at h ⊢
  rw [h]

theorem files_eq_of_long {entries : List (String × FileTree)} {name : String}
    (hroot : s.root = ⟨"", []⟩) (hpaths : s.paths = [name]) (hname : IsName name) (hnull : NoNull name)
    (hlong : FileTree.longestName < name.utf8ByteSize) :
    s.files ⟨.directory entries, []⟩ = .error (.unreachable ⟨"/", [name]⟩ .tooLong) := by
  have hfollow : FileTree.follow [] (.directory entries) [name] = .error .tooLong := by
    rw [FileTree.follow, if_neg hname.2.2.1, if_pos hlong]
  have hfind : (Workspace.mk (.directory entries) []).find ⟨"/", [name]⟩ = .error .tooLong := by
    rw [Workspace.find]
    split
    · rfl
    · exact hfollow
  have hreached : (Workspace.mk (.directory entries) []).find?
      (named ⟨.directory entries, []⟩ s.root name) = .error .tooLong := by
    rw [hroot, named_of_isName hname, Workspace.find?, hfind]
  have hparts : ∀ part ∈ (s.root.join (.ofString name)).parts, NoNull part := by
    rw [hroot, Path.ofString_of_isName hname]
    exact List.forall_mem_singleton.2 hnull
  rw [files, hpaths, List.mapM_cons, filesOf_eq_of_tooLong hparts hreached, hroot,
    named_of_isName hname]
  rfl

theorem files_unreachable :
    let long := String.ofList (List.replicate 256 'a')
    let s := { grammarSettings with paths := [long] }
    grammarTree.WellNamed ∧ grammarTree.Distinct ∧ s.extension = ".grammar" ∧
      (∀ p, ¬ Selects ⟨grammarTree, []⟩ s.root s.extension long p) ∧
      s.files ⟨grammarTree, []⟩ = .error (.unreachable ⟨"/", [long]⟩ .tooLong) := by
  intro long s
  have hlong : FileTree.longestName < long.utf8ByteSize := by decide +kernel
  have hne {other : String} (h : other.utf8ByteSize ≤ FileTree.longestName) : long ≠ other :=
    fun heq => absurd (heq ▸ hlong) (Nat.not_lt.2 h)
  have hchars : long.toList = List.replicate 256 'a' := String.toList_ofList
  have hchar {ch : Char} (h : ch ≠ 'a') : ch ∉ long.toList := fun hmem =>
    h (List.eq_of_mem_replicate (hchars ▸ hmem))
  have hname : IsName long := ⟨hne (by decide), hne (by decide), hne (by decide), hchar (by decide)⟩
  have hnothing {there : FileTree} :
      ¬ grammarTree.Leads (named ⟨grammarTree, []⟩ ⟨"", []⟩ long).parts there := by
    rw [named_of_isName hname]
    intro hleads
    generalize long = name at hne hleads
    cases hleads with
    | inside hmem =>
      have hentry : name ∈ ["grammar", "top"] := List.mem_map_of_mem (f := Prod.fst) hmem
      rcases List.mem_pair.1 hentry with heq | heq
      · exact hne (by decide) heq
      · exact hne (by decide) heq
  refine ⟨wellNamed_grammarTree, distinct_grammarTree, rfl, fun p h => ?_,
    files_eq_of_long rfl rfl hname (hchar (by decide)) hlong⟩
  cases h with
  | file hleads => exact hnothing hleads
  | inside hleads => exact hnothing hleads

end Settings

end IndentedGrammar
