import IndentedGrammar.Proofs.Term.Conservation

namespace IndentedGrammar

theorem not_mem_intercalate {ch : Char} {sep : List Char} {parts : List (List Char)} (hsep : ch ∉ sep)
    (h : ∀ part ∈ parts, ch ∉ part) : ch ∉ List.intercalate sep parts := by
  induction parts with
  | nil => exact List.not_mem_nil
  | cons part parts ih =>
    rw [List.forall_mem_cons] at h
    cases parts with
    | nil => simpa using h.1
    | cons next parts =>
      rw [List.intercalate_cons_cons, List.mem_append, List.mem_append, not_or, not_or]
      exact ⟨⟨h.1, hsep⟩, ih h.2⟩

theorem return_not_mem_of_isName {name : List Char} (h : isName name) : '\r' ∉ name := by
  intro hmem
  rw [isName, Bool.and_eq_true] at h
  exact absurd (List.all_eq_true.1 h.2 _ hmem) (by decide)

theorem return_not_mem_of_isDottedName {name : List Char} (h : isDottedName name) : '\r' ∉ name := by
  intro hmem
  obtain ⟨piece, hpiece, hmem⟩ := exists_mem_cutAt hmem (by decide : '\r' ≠ '.')
  exact return_not_mem_of_isName (List.all_eq_true.1 h piece hpiece) hmem

theorem return_not_mem_escape (ch : Char) : '\r' ∉ escape ch := by
  rw [escape]
  cases hletter : escapeLetter? ch with
  | none =>
    rw [List.mem_singleton]
    rintro rfl
    simp [escapeLetter?] at hletter
  | some letter =>
    have hne : letter ≠ '\r' := by
      rw [escapeLetter?.eq_def] at hletter
      split at hletter <;> cases hletter <;> decide
    simpa using hne.symm

theorem return_not_mem_quote (value : List Char) : '\r' ∉ quote value := by
  have hvalue : '\r' ∉ value.flatMap escape := by
    intro hmem
    obtain ⟨ch, -, hch⟩ := List.mem_flatMap.1 hmem
    exact return_not_mem_escape ch hch
  simpa [quote] using hvalue

namespace Term

theorem mem_intercalate {α : Type} {sep part : List α} {parts : List (List α)} (hpart : part ∈ parts)
    {x : α} (hx : x ∈ part) : x ∈ List.intercalate sep parts := by
  induction parts with
  | nil => exact absurd hpart List.not_mem_nil
  | cons first parts ih =>
    cases parts with
    | nil => simpa [List.mem_singleton.1 hpart] using hx
    | cons next parts =>
      rw [List.intercalate_cons_cons, List.mem_append]
      rcases List.mem_cons.1 hpart with rfl | hpart
      · exact .inl (List.mem_append_left sep hx)
      · exact .inr (ih hpart)

theorem mem_tokens_of_mem_part {kind : Kind} {text : Option String} {parts : List (List Token)}
    (hkind : fitsChildren parts.length kind) {part : List Token} (hpart : part ∈ parts) {tok : Token}
    (htok : tok ∈ part) : tok ∈ kind.tokens text parts := by
  have hflatten : tok ∈ parts.flatten := List.mem_flatten.2 ⟨part, hpart, htok⟩
  have hne : parts.length ≠ 0 := Nat.ne_of_gt (List.length_pos_of_mem hpart)
  cases kind with
  | choice => exact mem_intercalate hpart htok
  | sequence => exact hflatten
  | predicate p => exact List.mem_cons_of_mem _ hflatten
  | repetition r => exact List.mem_append_left _ hflatten
  | reference | literal | characterClass | any => simp [fitsChildren, hne] at hkind

theorem length_tokensAll (ts : List Term) : (tokensAll ts).length = ts.length := by
  induction ts with
  | nil => rfl
  | cons t ts ih => rw [tokensAll, List.length_cons, List.length_cons, ih]

theorem return_not_mem_parenthesized {body : List Char} (h : '\r' ∉ body) (p : Prop) [Decidable p] :
    '\r' ∉ if p then '(' :: body ++ [')'] else body := by
  split
  · simpa using h
  · exact h

theorem return_not_mem_headD {parts : List (List Char)} (h : ∀ part ∈ parts, '\r' ∉ part) :
    '\r' ∉ parts.headD [] := by
  cases parts with
  | nil => exact List.not_mem_nil
  | cons part parts => exact h part List.mem_cons_self

mutual

theorem return_not_mem_chars : (t : Term) → t.WellFormed →
    (∀ body, .characterClass body ∈ t.tokens → '\r' ∉ body) → ∀ min, '\r' ∉ t.chars min
  | ⟨kind, p, text, children⟩, h, hclass, min => by
    obtain ⟨htext, hchildren, hall⟩ := h
    have hparts := return_not_mem_charsAll children hall fun toks htoks body hbody =>
      hclass body (mem_tokens_of_mem_part (by rwa [length_tokensAll]) htoks hbody)
    cases kind with
    | choice =>
      exact return_not_mem_parenthesized (not_mem_intercalate (by decide) (hparts 1)) _
    | sequence =>
      exact return_not_mem_parenthesized (not_mem_intercalate (by decide) (hparts 2)) _
    | predicate q =>
      refine return_not_mem_parenthesized ?_ _
      rw [List.mem_cons, not_or]
      exact ⟨by cases q <;> decide, return_not_mem_headD (hparts 3)⟩
    | repetition q =>
      refine return_not_mem_parenthesized ?_ _
      rw [List.mem_append, List.mem_singleton, not_or]
      exact ⟨return_not_mem_headD (hparts 4), by cases q <;> decide⟩
    | literal => exact return_not_mem_parenthesized (return_not_mem_quote _) _
    | characterClass =>
      obtain ⟨body, rfl, hbody⟩ := (Option.any_eq_true _ _).1 htext
      have hmem := hclass body.toList (List.mem_singleton_self _)
      exact return_not_mem_parenthesized (by simpa using hmem) _
    | any => exact return_not_mem_parenthesized (by decide) _
    | reference =>
      obtain ⟨name, rfl, hname⟩ := (Option.any_eq_true _ _).1 htext
      exact return_not_mem_parenthesized (return_not_mem_of_isDottedName hname) _

theorem return_not_mem_charsAll : (ts : List Term) → AllWellFormed ts →
    (∀ toks ∈ tokensAll ts, ∀ body, .characterClass body ∈ toks → '\r' ∉ body) →
    ∀ min, ∀ part ∈ charsAll min ts, '\r' ∉ part
  | [], _, _, _, _, hpart => absurd hpart List.not_mem_nil
  | t :: ts, h, hclass, min, part, hpart => by
    rw [tokensAll, List.forall_mem_cons] at hclass
    rcases List.mem_cons.1 hpart with rfl | hpart
    · exact return_not_mem_chars t h.1 hclass.1 min
    · exact return_not_mem_charsAll ts h.2 hclass.2 min part hpart

end

end Term

end IndentedGrammar
