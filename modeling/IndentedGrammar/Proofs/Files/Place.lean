import IndentedGrammar.Proofs.Files.Tree

namespace IndentedGrammar

namespace FileTree

inductive Leads : FileTree → List String → FileTree → Prop
  | here {t} : Leads t [] t
  | inside {entries name there parts t} : (name, there) ∈ entries → Leads there parts t →
      Leads (.directory entries) (name :: parts) t

/-- What the components lead to if `..` leads back up. The directories on the way down are `above`, nearest
first. -/
inductive Steps : List FileTree → FileTree → List String → List FileTree → FileTree → Prop
  | here {above t} : Steps above t [] above t
  | down {above above' entries name there parts t} : name ≠ ".." → (name, there) ∈ entries →
      Steps (.directory entries :: above) there parts above' t →
      Steps above (.directory entries) (name :: parts) above' t
  | up {above above' entries there parts t} : Steps above there parts above' t →
      Steps (there :: above) (.directory entries) (".." :: parts) above' t
  | top {above' entries parts t} : Steps [] (.directory entries) parts above' t →
      Steps [] (.directory entries) (".." :: parts) above' t

inductive Distinct : FileTree → Prop
  | file (bytes : ByteArray) : Distinct (.file bytes)
  | special (bytes : Option ByteArray) : Distinct (.special bytes)
  | directory {entries : List (String × FileTree)} : (entries.map (·.1)).Nodup →
      (∀ e ∈ entries, Distinct e.2) → Distinct (.directory entries)

theorem distinct_directory_iff (entries : List (String × FileTree)) :
    (directory entries).Distinct ↔ (entries.map (·.1)).Nodup ∧ ∀ e ∈ entries, e.2.Distinct :=
  ⟨fun | .directory hnames hentries => ⟨hnames, hentries⟩, fun h => .directory h.1 h.2⟩

instance : DecidablePred Distinct := decideFrom .file .special distinct_directory_iff

section

variable {t u v here there : FileTree} {parts more : List String}

theorem leads_nil_iff : t.Leads [] u ↔ u = t := by
  constructor
  · intro h
    cases h
    rfl
  · rintro rfl
    exact .here

theorem Leads.eq_directory (h : t.Leads parts u) (hne : parts ≠ []) :
    ∃ entries, t = .directory entries := by
  cases h with
  | here => exact absurd rfl hne
  | inside => exact ⟨_, rfl⟩

theorem Leads.exists_directory {entries : List (String × FileTree)} (h : t.Leads parts (.directory entries)) :
    ∃ entries', t = .directory entries' := by
  cases h with
  | here => exact ⟨_, rfl⟩
  | inside => exact ⟨_, rfl⟩

theorem leads_append_iff :
    t.Leads (parts ++ more) v ↔ ∃ u, t.Leads parts u ∧ u.Leads more v := by
  constructor
  · intro h
    induction parts generalizing t with
    | nil => exact ⟨t, .here, h⟩
    | cons name parts ih =>
      cases h with
      | inside hmem h =>
        obtain ⟨u, hu, hv⟩ := ih h
        exact ⟨u, .inside hmem hu, hv⟩
  · rintro ⟨u, hu, hv⟩
    induction hu with
    | here => exact hv
    | inside hmem _ ih => exact .inside hmem (ih hv)

theorem WellNamed.isName_of_leads (h : t.WellNamed) (hleads : t.Leads parts u) :
    ∀ part ∈ parts, IsName part := by
  induction hleads with
  | here => exact List.forall_mem_nil _
  | inside hmem _ ih =>
    cases h with
    | directory hnames hentries =>
      exact List.forall_mem_cons.2 ⟨hnames _ hmem, ih (hentries _ hmem)⟩

theorem WellNamed.up_not_mem_of_leads (h : t.WellNamed) (hleads : t.Leads parts u) : ".." ∉ parts :=
  fun hmem => (h.isName_of_leads hleads _ hmem).2.2.1 rfl

theorem lookup_eq_some_of_mem {entries : List (String × FileTree)} {name : String}
    (h : (entries.map (·.1)).Nodup) (hmem : (name, there) ∈ entries) :
    entries.lookup name = some there := by
  obtain ⟨before, after, rfl⟩ := List.append_of_mem hmem
  rw [List.lookup_eq_some_iff]
  refine ⟨before, after, rfl, fun e he => ?_⟩
  rw [List.map_append, List.nodup_append] at h
  have hne := h.2.2 e.1 (List.mem_map_of_mem he) name List.mem_cons_self
  exact bne_iff_ne.2 hne.symm

theorem Leads.unique (h : t.Distinct) (hu : t.Leads parts u) (hv : t.Leads parts v) : u = v := by
  induction hu with
  | here => exact (leads_nil_iff.1 hv).symm
  | inside hmem _ ih =>
    cases h with
    | directory hnames hentries =>
      cases hv with
      | inside hmem' hv =>
        have hlookup := lookup_eq_some_of_mem hnames hmem
        have hlookup' := lookup_eq_some_of_mem hnames hmem'
        obtain rfl := Option.some.inj (hlookup.symm.trans hlookup')
        exact ih (hentries _ hmem) hv

theorem Leads.not_file {entries : List (String × FileTree)} (h : t.Distinct)
    (hdirectory : t.Leads parts (.directory entries)) (bytes : ByteArray) :
    ¬ t.Leads parts (.file bytes) :=
  fun hfile => nomatch Leads.unique h hdirectory hfile

section

variable {above above₁ above₂ : List FileTree}

theorem steps_append_iff : Steps above t (parts ++ more) above₂ v ↔
    ∃ above₁ u, Steps above t parts above₁ u ∧ Steps above₁ u more above₂ v := by
  constructor
  · intro h
    induction parts generalizing above t with
    | nil => exact ⟨above, t, .here, h⟩
    | cons name parts ih =>
      cases h with
      | down hup hmem h =>
        obtain ⟨above₁, u, hu, hv⟩ := ih h
        exact ⟨above₁, u, .down hup hmem hu, hv⟩
      | up h =>
        obtain ⟨above₁, u, hu, hv⟩ := ih h
        exact ⟨above₁, u, .up hu, hv⟩
      | top h =>
        obtain ⟨above₁, u, hu, hv⟩ := ih h
        exact ⟨above₁, u, .top hu, hv⟩
  · rintro ⟨above₁, u, hu, hv⟩
    induction hu with
    | here => exact hv
    | down hup hmem _ ih => exact .down hup hmem (ih hv)
    | up _ ih => exact .up (ih hv)
    | top _ ih => exact .top (ih hv)

theorem Steps.leads (h : Steps above t parts above₁ u) (hup : ".." ∉ parts) : t.Leads parts u := by
  induction h with
  | here => exact .here
  | down _ hmem _ ih => exact .inside hmem (ih (mt (List.mem_cons_of_mem _) hup))
  | up => exact absurd List.mem_cons_self hup
  | top => exact absurd List.mem_cons_self hup

theorem Leads.exists_steps (h : t.Leads parts u) (hup : ".." ∉ parts) (above : List FileTree) :
    ∃ above₁, Steps above t parts above₁ u := by
  induction h generalizing above with
  | here => exact ⟨above, .here⟩
  | @inside entries name there parts u hmem _ ih =>
    rw [List.mem_cons, not_or] at hup
    obtain ⟨above₁, h⟩ := ih hup.2 (.directory entries :: above)
    exact ⟨above₁, .down (Ne.symm hup.1) hmem h⟩

theorem Steps.forall_mem {P : FileTree → Prop}
    (hP : ∀ entries, P (.directory entries) → ∀ e ∈ entries, P e.2)
    (h : Steps above t parts above₁ u) (ht : ∀ d ∈ t :: above, P d) : ∀ d ∈ u :: above₁, P d := by
  induction h with
  | here => exact ht
  | down _ hmem _ ih => exact ih (List.forall_mem_cons.2 ⟨hP _ (ht _ List.mem_cons_self) _ hmem, ht⟩)
  | up _ ih => exact ih (List.forall_mem_cons.1 ht).2
  | top _ ih => exact ih ht

theorem Distinct.of_mem {entries : List (String × FileTree)} (h : Distinct (.directory entries)) :
    ∀ e ∈ entries, e.2.Distinct := ((distinct_directory_iff entries).1 h).2

theorem Steps.unique (ht : ∀ d ∈ t :: above, d.Distinct) (hu : Steps above t parts above₁ u)
    (hv : Steps above t parts above₂ v) : above₁ = above₂ ∧ u = v := by
  induction hu with
  | here =>
    cases hv
    exact ⟨rfl, rfl⟩
  | @down above above₁ entries name there parts u hup hmem _ ih =>
    have hentries := ht _ List.mem_cons_self
    cases hv with
    | down _ hmem' hv =>
      have hlookup := lookup_eq_some_of_mem ((distinct_directory_iff entries).1 hentries).1 hmem
      have hlookup' := lookup_eq_some_of_mem ((distinct_directory_iff entries).1 hentries).1 hmem'
      obtain rfl := Option.some.inj (hlookup.symm.trans hlookup')
      exact ih (List.forall_mem_cons.2 ⟨hentries.of_mem _ hmem, ht⟩) hv
    | up => exact absurd rfl hup
    | top => exact absurd rfl hup
  | up _ ih =>
    cases hv with
    | down hup => exact absurd rfl hup
    | up hv => exact ih (List.forall_mem_cons.1 ht).2 hv
  | top _ ih =>
    cases hv with
    | down hup => exact absurd rfl hup
    | top hv => exact ih ht hv

theorem steps_of_follow (h : follow above here parts = .ok there) :
    ∃ above₁, Steps above here parts above₁ there := by
  fun_induction follow above here parts with
  | case1 =>
    obtain rfl := Except.ok.inj h
    exact ⟨_, .here⟩
  | case2 => exact nomatch h
  | case3 => exact nomatch h
  | case4 parts entries ih =>
    obtain ⟨above₁, hsteps⟩ := ih h
    exact ⟨above₁, .top hsteps⟩
  | case5 parts entries up above ih =>
    obtain ⟨above₁, hsteps⟩ := ih h
    exact ⟨above₁, .up hsteps⟩
  | case6 => exact nomatch h
  | case7 => exact nomatch h
  | case8 above part parts entries hup _ below hbelow ih =>
    obtain ⟨above₁, hsteps⟩ := ih h
    exact ⟨above₁, .down hup (mem_of_lookup hbelow) hsteps⟩

theorem not_steps_of_follow {e : FileError} (hdistinct : ∀ d ∈ here :: above, d.Distinct)
    (h : follow above here parts = .error e) (he : e ≠ .tooLong) :
    ¬ Steps above here parts above₁ there := by
  -- What stands in the way is no directory, a missing entry, or something further on.
  fun_induction follow above here parts with
  | case1 => exact nomatch h
  | case2 => exact nofun
  | case3 => exact nofun
  | case4 parts entries ih =>
    intro hsteps
    cases hsteps with
    | down hup => exact hup rfl
    | top hsteps => exact ih hdistinct h hsteps
  | case5 parts entries up above ih =>
    intro hsteps
    cases hsteps with
    | down hup => exact hup rfl
    | up hsteps => exact ih (List.forall_mem_cons.1 hdistinct).2 h hsteps
  | case6 => exact absurd (Except.error.inj h).symm he
  | case7 above part parts entries hup _ hnone =>
    have hentries := hdistinct _ List.mem_cons_self
    intro hsteps
    cases hsteps with
    | down _ hmem =>
      exact nomatch hnone.symm.trans
        (lookup_eq_some_of_mem ((distinct_directory_iff entries).1 hentries).1 hmem)
    | up => exact hup rfl
    | top => exact hup rfl
  | case8 above part parts entries hup _ below hbelow ih =>
    have hentries := hdistinct _ List.mem_cons_self
    intro hsteps
    cases hsteps with
    | down _ hmem hsteps =>
      have hlookup := lookup_eq_some_of_mem ((distinct_directory_iff entries).1 hentries).1 hmem
      obtain rfl := Option.some.inj (hbelow.symm.trans hlookup)
      exact ih (List.forall_mem_cons.2 ⟨hentries.of_mem _ hmem, hdistinct⟩) h hsteps
    | up => exact hup rfl
    | top => exact hup rfl

end

end

mutual

theorem mem_directories_iff : {t : FileTree} → {parts : List String} →
    (parts ∈ t.directories ↔ ∃ entries, t.Leads parts (.directory entries))
  | .file _, parts => by
    refine iff_of_false (by simp [directories]) ?_
    rintro ⟨entries, hleads⟩
    cases hleads
  | .special _, parts => by
    refine iff_of_false (by simp [directories]) ?_
    rintro ⟨entries, hleads⟩
    cases hleads
  | .directory entries, parts => by
    rw [directories, List.mem_cons, mem_directoriesAll_iff]
    constructor
    · rintro (rfl | ⟨name, there, more, below, hmem, rfl, hleads⟩)
      · exact ⟨entries, .here⟩
      · exact ⟨below, .inside hmem hleads⟩
    · rintro ⟨below, hleads⟩
      cases hleads with
      | here => exact .inl rfl
      | inside hmem hleads => exact .inr ⟨_, _, _, below, hmem, rfl, hleads⟩

theorem mem_directoriesAll_iff : {entries : List (String × FileTree)} → {parts : List String} →
    (parts ∈ directoriesAll entries ↔ ∃ name there more below, (name, there) ∈ entries ∧
      parts = name :: more ∧ there.Leads more (.directory below))
  | [], parts => by simp [directoriesAll]
  | (name, there) :: entries, parts => by
    rw [directoriesAll, List.mem_append, List.mem_map, mem_directoriesAll_iff]
    constructor
    · rintro (⟨more, hmore, rfl⟩ | ⟨other, there', more, below, hmem, rfl, hleads⟩)
      · obtain ⟨below, hleads⟩ := mem_directories_iff.1 hmore
        exact ⟨name, there, more, below, List.mem_cons_self, rfl, hleads⟩
      · exact ⟨other, there', more, below, List.mem_cons_of_mem _ hmem, rfl, hleads⟩
    · rintro ⟨other, there', more, below, hmem, rfl, hleads⟩
      rcases List.mem_cons.1 hmem with heq | hmem
      · obtain ⟨rfl, rfl⟩ := Prod.mk.inj heq
        exact .inl ⟨more, mem_directories_iff.2 ⟨below, hleads⟩, rfl⟩
      · exact .inr ⟨other, there', more, below, hmem, rfl, hleads⟩

end

end FileTree

namespace Workspace

variable {w : Workspace} {p : Path}

theorem find_eq_follow (hroot : p.root = "/") (h : w.find p ≠ .error .tooLong) :
    w.find p = w.tree.follow [] p.parts := by
  rw [find] at h ⊢
  split at h
  · exact absurd rfl h
  next hlength => rw [if_neg hlength, if_pos (by simp [Path.isAbsolute, hroot])]

structure At (w : Workspace) (p : Path) (above : List FileTree) (there : FileTree) : Prop where
  root_eq : p.root = "/"
  steps : FileTree.Steps [] w.tree p.parts above there

/-- Something is there, be the path too long for the file system or not. -/
def Stands (w : Workspace) (p : Path) (there : FileTree) : Prop := ∃ above, w.At p above there

section

variable {above above' : List FileTree} {here there : FileTree} {parts : List String}

namespace At

theorem below (h : w.At p above here) (hsteps : FileTree.Steps above here parts above' there) :
    w.At (p.below parts) above' there :=
  ⟨h.root_eq, FileTree.steps_append_iff.2 ⟨above, here, h.steps, hsteps⟩⟩

theorem forall_mem {P : FileTree → Prop}
    (hP : ∀ entries, P (.directory entries) → ∀ e ∈ entries, P e.2) (htree : P w.tree)
    (h : w.At p above there) : ∀ d ∈ there :: above, P d :=
  h.steps.forall_mem hP (List.forall_mem_singleton.2 htree)

theorem wellNamed (htree : w.tree.WellNamed) (h : w.At p above there) :
    ∀ d ∈ there :: above, d.WellNamed := h.forall_mem (fun _ => FileTree.WellNamed.of_mem) htree

theorem unique (htree : w.tree.Distinct) (h : w.At p above here) (h' : w.At p above' there) :
    above = above' ∧ here = there :=
  FileTree.Steps.unique (List.forall_mem_singleton.2 htree) h.steps h'.steps

theorem steps_of_below (htree : w.tree.Distinct) (h : w.At p above here)
    (h' : w.At (p.below parts) above' there) : FileTree.Steps above here parts above' there := by
  obtain ⟨above₁, here', hfirst, hsteps⟩ := FileTree.steps_append_iff.1 h'.steps
  obtain ⟨rfl, rfl⟩ := h.unique htree ⟨h.root_eq, hfirst⟩
  exact hsteps

end At

theorem exists_at_of_find (hroot : p.root = "/") (h : w.find p = .ok there) : ∃ above, w.At p above there := by
  rw [find_eq_follow hroot (by simp [h])] at h
  obtain ⟨above, hsteps⟩ := FileTree.steps_of_follow h
  exact ⟨above, hroot, hsteps⟩

theorem At.find_eq (htree : w.tree.Distinct) (h : w.At p above there) (hlong : w.find p ≠ .error .tooLong) :
    w.find p = .ok there := by
  have hfollow := find_eq_follow h.root_eq hlong
  cases hfind : w.find p with
  | ok found =>
    obtain ⟨above', hfound⟩ := exists_at_of_find h.root_eq hfind
    rw [(h.unique htree hfound).2]
  | error e =>
    refine absurd h.steps (FileTree.not_steps_of_follow (List.forall_mem_singleton.2 htree)
      (hfollow.symm.trans hfind) ?_)
    rintro rfl
    exact hlong hfind

theorem At.eq_of_find (htree : w.tree.Distinct) (h : w.At p above there) (hfind : w.find p = .ok here) :
    here = there := Except.ok.inj (hfind.symm.trans (h.find_eq htree (by simp [hfind])))

theorem find?_eq_error_iff {e : FileError} :
    w.find? p = .error e ↔ e = .tooLong ∧ w.find p = .error .tooLong := by
  rw [find?]
  split
  next hfind => simp [hfind]
  next hfind => simp [hfind, eq_comm]
  next e' he' hfind =>
    refine iff_of_false nofun ?_
    rintro ⟨-, hlong⟩
    exact he' (Except.error.inj (hfind.symm.trans hlong))

theorem find?_eq_some_iff : w.find? p = .ok (some there) ↔ w.find p = .ok there := by
  rw [find?]
  split
  next hfind => simp [hfind]
  next hfind => simp [hfind]
  next hfind => simp [hfind]

theorem At.find?_eq (htree : w.tree.Distinct) (h : w.At p above there)
    (hlong : w.find? p ≠ .error .tooLong) : w.find? p = .ok (some there) :=
  find?_eq_some_iff.2 (h.find_eq htree fun h => hlong (find?_eq_error_iff.2 ⟨rfl, h⟩))

theorem stands_of_find? (hroot : p.root = "/") (h : w.find? p = .ok (some there)) : w.Stands p there :=
  exists_at_of_find hroot (find?_eq_some_iff.1 h)

theorem Stands.unique (htree : w.tree.Distinct) (h : w.Stands p here) (h' : w.Stands p there) :
    here = there := by
  obtain ⟨above, hat⟩ := h
  obtain ⟨above', hat'⟩ := h'
  exact (hat.unique htree hat').2

theorem Stands.eq_of_find? (htree : w.tree.Distinct) (h : w.Stands p there) {found : Option FileTree}
    (hfind : w.find? p = .ok found) : found = some there := by
  obtain ⟨above, hat⟩ := h
  have hthere := hat.find?_eq htree (by simp [hfind])
  exact Except.ok.inj (hfind.symm.trans hthere)

theorem exists_find? (h : w.find? p ≠ .error .tooLong) : ∃ there, w.find? p = .ok there := by
  cases hfind : w.find? p with
  | ok there => exact ⟨there, rfl⟩
  | error e =>
    obtain ⟨rfl, -⟩ := find?_eq_error_iff.1 hfind
    exact absurd hfind h

theorem stands_iff_leads (hroot : p.root = "/") (hup : ".." ∉ p.parts) :
    w.Stands p there ↔ w.tree.Leads p.parts there := by
  constructor
  · rintro ⟨above, -, hsteps⟩
    exact hsteps.leads hup
  · intro h
    obtain ⟨above, hsteps⟩ := h.exists_steps hup []
    exact ⟨above, hroot, hsteps⟩

end

end Workspace

end IndentedGrammar
