import IndentedGrammar.Files.Path
import IndentedGrammar.Proofs.Source.Lines

namespace IndentedGrammar

def IsName (name : String) : Prop := name ≠ "" ∧ name ≠ "." ∧ name ≠ ".." ∧ '/' ∉ name.toList

instance : DecidablePred IsName := fun _ => inferInstanceAs (Decidable (_ ∧ _ ∧ _ ∧ _))

def IsPart (part : String) : Prop := part = ".." ∨ IsName part

theorem IsPart.ne {part : String} (h : IsPart part) : part ≠ "" ∧ part ≠ "." ∧ '/' ∉ part.toList := by
  rcases h with rfl | ⟨hne, hdot, -, hslash⟩
  · decide
  · exact ⟨hne, hdot, hslash⟩

namespace Path

/-- A path from the root that takes no step back. -/
def Plain (p : Path) : Prop := p.root = "/" ∧ ∀ part ∈ p.parts, IsName part

def Clean (p : Path) : Prop := p.root = "/" ∧ ∀ part ∈ p.parts, IsPart part

theorem isName_of_mem_ofString {text part : String} (h : part ∈ (ofString text).parts)
    (hup : part ≠ "..") : IsName part := by
  obtain ⟨piece, hpiece, rfl⟩ := List.mem_map.1 h
  obtain ⟨hcut, hkept⟩ := List.mem_filter.1 hpiece
  obtain ⟨hne, hdot⟩ : piece ≠ [] ∧ piece ≠ ['.'] := by simpa using hkept
  refine ⟨?_, ?_, hup, ?_⟩
  · simpa using hne
  · rwa [Ne, ← String.toList_inj, String.toList_ofList]
  · rw [String.toList_ofList]
    exact not_mem_of_mem_cutAt hcut

theorem ofString_of_isName {name : String} (h : IsName name) : ofString name = ⟨"", [name]⟩ := by
  obtain ⟨hne, hdot, -, hslash⟩ := h
  obtain ⟨ch, chars, hchars⟩ := List.exists_cons_of_ne_nil (mt String.toList_eq_nil_iff.1 hne)
  have hch : ch ≠ '/' := fun heq => hslash (hchars ▸ heq ▸ List.mem_cons_self)
  have htake : name.toList.takeWhile (· = '/') = [] := by
    rw [hchars, List.takeWhile_cons_of_neg (by simpa using hch)]
  rw [Ne, ← String.toList_inj] at hdot
  rw [ofString, htake, cutAt_of_not_mem hslash, List.filter_cons_of_pos]
  · simp
  · simpa [hne] using hdot

theorem mem_descend {above : List String} {part name : String} (h : name ∈ descend above part) :
    name ∈ above ∨ name = part ∧ part ≠ ".." := by
  rw [descend] at h
  split at h
  · exact .inl (List.mem_of_mem_tail h)
  next hup =>
    rcases List.mem_cons.1 h with rfl | h
    · exact .inr ⟨rfl, hup⟩
    · exact .inl h

theorem mem_foldl_descend {above parts : List String} {name : String}
    (h : name ∈ parts.foldl descend above) : name ∈ above ∨ name ∈ parts ∧ name ≠ ".." := by
  induction parts generalizing above with
  | nil => exact .inl h
  | cons part parts ih =>
    rcases ih h with h | ⟨h, hup⟩
    · rcases mem_descend h with h | ⟨rfl, hup⟩
      · exact .inl h
      · exact .inr ⟨List.mem_cons_self, hup⟩
    · exact .inr ⟨List.mem_cons_of_mem part h, hup⟩

theorem mem_normalize {parts : List String} {name : String} (h : name ∈ normalize parts) :
    name ∈ parts ∧ name ≠ ".." :=
  (mem_foldl_descend (List.mem_reverse.1 h)).resolve_left List.not_mem_nil

theorem up_not_mem_resolve (here : List String) (p : Path) : ".." ∉ (p.resolve here).parts :=
  fun hmem => (mem_normalize hmem).2 rfl

theorem plain_resolve {here : List String} {p : Path} (hhere : ∀ part ∈ here, IsName part)
    (hp : ∀ part ∈ p.parts, part ≠ ".." → IsName part) : (p.resolve here).Plain := by
  refine ⟨rfl, fun part hpart => ?_⟩
  obtain ⟨hmem, hup⟩ := mem_normalize hpart
  split at hmem
  · exact hp part hmem hup
  · rcases List.mem_append.1 hmem with hmem | hmem
    · exact hhere part hmem
    · exact hp part hmem hup

theorem filter_cutAt_intercalate {parts : List String} (h : ∀ part ∈ parts, IsPart part) :
    (cutAt '/' (List.intercalate ['/'] (parts.map String.toList))).filter
      (fun piece => piece ≠ [] && piece ≠ ['.']) = parts.map String.toList := by
  cases parts with
  | nil => rfl
  | cons part parts =>
    rw [cutAt_intercalate (by simp), List.filter_eq_self]
    · intro piece hpiece
      obtain ⟨name, hname, rfl⟩ := List.mem_map.1 hpiece
      obtain ⟨hne, hdot, -⟩ := (h name hname).ne
      rw [Ne, ← String.toList_inj] at hne hdot
      simpa using And.intro hne hdot
    · intro piece hpiece
      obtain ⟨name, hname, rfl⟩ := List.mem_map.1 hpiece
      exact (h name hname).ne.2.2

theorem takeWhile_intercalate {parts : List String} (h : ∀ part ∈ parts, IsPart part) :
    (List.intercalate ['/'] (parts.map String.toList)).takeWhile (· = '/') = [] := by
  cases parts with
  | nil => rfl
  | cons part parts =>
    obtain ⟨hne, -, hslash⟩ := (h part List.mem_cons_self).ne
    obtain ⟨ch, chars, hchars⟩ := List.exists_cons_of_ne_nil (mt String.toList_eq_nil_iff.1 hne)
    have hch : ch ≠ '/' := fun heq => hslash (hchars ▸ heq ▸ List.mem_cons_self)
    cases parts with
    | nil => simp [hchars, hch]
    | cons next parts => simp [hchars, hch, List.intercalate_cons_cons]

theorem Clean.ofString_toString {p : Path} (h : p.Clean) : ofString p.toString = p := by
  obtain ⟨root, parts⟩ := p
  obtain ⟨rfl, hparts⟩ := h
  have htext : (toString ⟨"/", parts⟩).toList =
      '/' :: List.intercalate ['/'] (parts.map String.toList) := by
    simp [toString, String.toList_intercalate]
  have hroot : ((toString ⟨"/", parts⟩).toList.takeWhile (· = '/')).length = 1 := by
    rw [htext, List.takeWhile_cons_of_pos (by decide), takeWhile_intercalate hparts]
    rfl
  rw [ofString, hroot, htext, cutAt_cons, if_pos rfl, List.filter_cons_of_neg (by decide),
    filter_cutAt_intercalate hparts]
  simp

end Path

end IndentedGrammar
