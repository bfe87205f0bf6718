import IndentedGrammar.Proofs.Document.Standing

namespace IndentedGrammar

def dottedNames (name : String) : List String := (cutAt '.' name.toList).map String.ofList

theorem dot_not_mem_of_isName {name : List Char} (h : isName name) : '.' ∉ name := by
  intro hmem
  exact absurd ((isName_iff.1 h).2 '.' hmem) (by decide)

theorem intercalate_eq_iff {path : List String} (hne : path ≠ [])
    (hnames : ∀ name ∈ path, isName name.toList) (name : String) :
    ".".intercalate path = name ↔ path = dottedNames name := by
  constructor
  · rintro rfl
    have hpieces : ∀ piece ∈ path.map String.toList, '.' ∉ piece := by
      intro piece hpiece
      obtain ⟨name, hname, rfl⟩ := List.mem_map.1 hpiece
      exact dot_not_mem_of_isName (hnames name hname)
    have hcut : cutAt '.' (".".intercalate path).toList = path.map String.toList := by
      rw [String.toList_intercalate]
      exact cutAt_intercalate (mt List.map_eq_nil_iff.1 hne) hpieces
    rw [dottedNames, hcut, List.map_map]
    simp
  · rintro rfl
    apply String.toList_injective
    rw [String.toList_intercalate, dottedNames, List.map_map]
    simp [intercalate_cutAt]

namespace Rule

mutual

def paths (above : List String) : Rule → List (List String × Rule)
  | .terminal heading term => [(above ++ [heading.name], .terminal heading term)]
  | .group heading children =>
    (above ++ [heading.name], .group heading children) :: pathsAll (above ++ [heading.name]) children

def pathsAll (above : List String) : List Rule → List (List String × Rule)
  | [] => []
  | r :: rs => r.paths above ++ pathsAll above rs

end

def FirstAt (rs : List Rule) (path : List String) (r : Rule) : Prop :=
  ∃ before after, pathsAll [] rs = before ++ (path, r) :: after ∧ ∀ entry ∈ before, entry.1 ≠ path

mutual

theorem paths_eq {scope : List String} : (r : Rule) → r.WellFormed scope →
    r.paths scope = r.walk.map fun u => (u.path, u)
  | .terminal heading term, h => by
    obtain ⟨-, rfl, -⟩ := h
    rfl
  | .group heading children, h => by
    obtain ⟨-, rfl, -, hchildren⟩ := h
    rw [paths, walk, List.map_cons, pathsAll_eq children hchildren]
    rfl

theorem pathsAll_eq {scope : List String} : (rs : List Rule) → AllWellFormed scope rs →
    pathsAll scope rs = (walkAll rs).map fun u => (u.path, u)
  | [], _ => rfl
  | r :: rs, h => by
    rw [pathsAll, walkAll, List.map_append, paths_eq r h.1, pathsAll_eq rs h.2]

end

variable {rs : List Rule} {r : Rule}

theorem Below.isName {above : List Rule} (h : Below rs above r) (hrs : AllWellFormed [] rs) :
    ∀ u ∈ above ++ [r], IndentedGrammar.isName u.name.toList := by
  have hlast {above : List Rule} {r : Rule} (h : Below rs above r) :
      ∀ u ∈ [r], IndentedGrammar.isName u.name.toList :=
    List.forall_mem_singleton.2 (h.wellFormed hrs).isName
  induction h with
  | top hr => exact hlast (.top hr)
  | child hg hr ih => exact List.forall_mem_append.2 ⟨ih, hlast (hg.child hr)⟩

theorem isName_of_mem_path (hrs : AllWellFormed [] rs) (hr : r ∈ walkAll rs) :
    ∀ name ∈ r.path, IndentedGrammar.isName name.toList := by
  obtain ⟨above, h⟩ := mem_walkAll_iff.1 hr
  have hpath : r.path = (above ++ [r]).map name := by
    rw [path, (h.wellFormed hrs).scope_eq, List.map_append]
    rfl
  rw [hpath]
  intro name hname
  obtain ⟨u, hu, rfl⟩ := List.mem_map.1 hname
  exact h.isName hrs u hu

theorem qualifiedName_eq_iff (hrs : AllWellFormed [] rs) (hr : r ∈ walkAll rs) (name : String) :
    r.qualifiedName = name ↔ r.path = dottedNames name :=
  intercalate_eq_iff (List.append_ne_nil_of_right_ne_nil _ (List.cons_ne_nil _ _))
    (isName_of_mem_path hrs hr) name

theorem find?_eq (hrs : AllWellFormed [] rs) (name : String) :
    find? rs name =
      ((pathsAll [] rs).find? fun entry => entry.1 = dottedNames name).map Prod.snd := by
  have hsame : (walkAll rs).filter (fun r => r.qualifiedName = name) =
      (walkAll rs).filter (fun r => r.path = dottedNames name) := by
    apply List.filter_congr
    intro r hr
    simp only [qualifiedName_eq_iff hrs hr]
  rw [pathsAll_eq rs hrs, List.find?_map, Option.map_map, find?, ← List.head?_filter, hsame,
    List.head?_filter]
  exact (congrFun Option.map_id _).symm

theorem find?_eq_some_iff (hrs : AllWellFormed [] rs) (name : String) :
    find? rs name = some r ↔ FirstAt rs (dottedNames name) r := by
  rw [find?_eq hrs, Option.map_eq_some_iff]
  constructor
  · rintro ⟨⟨path, u⟩, hfind, rfl⟩
    obtain ⟨hpath, before, after, heq, hbefore⟩ := List.find?_eq_some_iff_append.1 hfind
    obtain rfl : path = dottedNames name := by simpa using hpath
    exact ⟨before, after, heq, fun entry hentry => by simpa using hbefore entry hentry⟩
  · rintro ⟨before, after, heq, hbefore⟩
    refine ⟨(dottedNames name, r), List.find?_eq_some_iff_append.2 ⟨by simp, before, after, heq, ?_⟩,
      rfl⟩
    intro entry hentry
    simpa using hbefore entry hentry

theorem find?_eq_none_iff (hrs : AllWellFormed [] rs) (name : String) :
    find? rs name = none ↔ ∀ entry ∈ pathsAll [] rs, entry.1 ≠ dottedNames name := by
  rw [find?_eq hrs, Option.map_eq_none_iff, List.find?_eq_none]
  simp only [decide_eq_true_eq, ne_eq]

theorem FirstAt.path_eq (hrs : AllWellFormed [] rs) {path : List String} (h : FirstAt rs path r) :
    path = dottedNames r.qualifiedName := by
  obtain ⟨before, after, heq, -⟩ := h
  have hmem : (path, r) ∈ (walkAll rs).map fun u => (u.path, u) := by
    rw [← pathsAll_eq rs hrs, heq]
    exact List.mem_append_right _ List.mem_cons_self
  obtain ⟨u, hu, hentry⟩ := List.mem_map.1 hmem
  obtain ⟨rfl, rfl⟩ := Prod.mk.inj hentry
  exact (qualifiedName_eq_iff hrs hu _).1 rfl

end Rule

namespace Document

/-- What is found under a name is the first rule whose path that is, and nothing is found only if no
rule has the path. So each rule is found under its own name unless one before it has the same path. -/
theorem rule?_by_path (src : Source) (limit : Int) :
    ∃ doc, read src limit = .ok doc ∧
      (Rule.pathsAll [] doc.rules).map Prod.snd = Rule.walkAll doc.rules ∧
      (∀ name r, doc.rule? name = some r ↔ Rule.FirstAt doc.rules (dottedNames name) r) ∧
      (∀ name, doc.rule? name = none ↔
        ∀ entry ∈ Rule.pathsAll [] doc.rules, entry.1 ≠ dottedNames name) ∧
      ∀ path r, Rule.FirstAt doc.rules path r → doc.rule? r.qualifiedName = some r := by
  obtain ⟨doc, hread, hfits⟩ := read_ok src limit
  have hrs : Rule.AllWellFormed [] doc.rules :=
    Rule.allWellFormed_iff.2 fun r hr => (hfits r hr).wellFormed
  refine ⟨doc, hread, ?_, ?_, Rule.find?_eq_none_iff hrs, ?_⟩
  · rw [Rule.pathsAll_eq doc.rules hrs, List.map_map]
    exact List.map_id _
  · exact fun name r => Rule.find?_eq_some_iff hrs name
  · intro path r hfirst
    have hpath := hfirst.path_eq hrs
    rw [hpath] at hfirst
    exact (Rule.find?_eq_some_iff hrs _).2 hfirst

end Document

end IndentedGrammar
