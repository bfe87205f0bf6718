import IndentedGrammar.Proofs.Rule.Block
import IndentedGrammar.Proofs.Rule.RoundTrip

namespace IndentedGrammar

open Cursor

namespace Attempt

variable {α : Type}

theorem yields_of_cons {a : Attempt α} {b : Attempt (List α)} {xs : List α} {e : Cursor}
    (h : (a.cons fun _ => b).Yields xs e) :
    ∃ x xs', xs = x :: xs' ∧ a.Yields x a.cursor ∧ b.Yields xs' e := by
  obtain ⟨hresult, hdiagnostics, hcursor⟩ := h
  cases hx : a.result with
  | error f => simp [cons, hx] at hresult
  | ok x =>
    rw [cons_eq hx] at hresult hdiagnostics hcursor
    obtain ⟨hfirst, hmore⟩ := List.append_eq_nil_iff.1 hdiagnostics
    cases hxs : b.result with
    | error f => simp [hxs, Except.map] at hresult
    | ok xs' =>
      cases x with
      | none => simp [hxs, Except.map] at hresult
      | some x =>
        cases xs' with
        | none => simp [hxs, Except.map] at hresult
        | some xs' =>
          obtain rfl : x :: xs' = xs := by simpa [hxs, Except.map] using hresult
          exact ⟨x, xs', rfl, ⟨hx, hfirst, rfl⟩, ⟨hxs, hmore, hcursor⟩⟩

end Attempt

namespace Rule

variable {src : Source} {limit : Int} {read : Cursor → Attempt Rule} {p : Rule → Prop}
  {c e : Cursor} {r : Rule} {heading : Heading} {depth : Nat}

theorem accept?_eq_some {c d : Cursor} {text : List Char} (h : c.accept? text = some d) :
    text <+: c.rest ∧ d = c.drop text.length := by
  rw [accept?] at h
  split at h
  · next hprefix => exact ⟨List.isPrefixOf_iff_prefix.1 hprefix, (Option.some.inj h).symm⟩
  · simp at h

theorem yields_of_readDeclaration (hread : ∀ c, c.startsName → (read c).Satisfies p)
    (h : (readDeclaration src read c).Yields r e) :
    c.startsName ∧ (read c).Yields r e ∧ e.atLineEnd := by
  rw [readDeclaration_eq src hread] at h
  obtain ⟨hresult, hdiagnostics, hcursor⟩ := h
  by_cases hc : c.startsName
  · rw [if_pos hc] at hresult hdiagnostics hcursor
    exact ⟨hc, ⟨hresult, hdiagnostics, hcursor⟩, hcursor ▸ ((hread c hc).holds r hresult).2⟩
  · rw [if_neg hc] at hresult
    simp [Attempt.fail] at hresult

theorem yields_of_readChild (hread : ∀ c, c.startsName → (read c).Satisfies p) {parent : String}
    (h : (readChild src parent depth read c).Yields r e) :
    ∃ r', r = r'.within parent ∧ c.startsName ∧ (read c).Yields r' e ∧ e.atLineEnd := by
  rw [readChild] at h
  dsimp only at h
  split at h
  · next f hf => exact absurd (hf.symm.trans h.result) (by simp)
  · next r' hr =>
    obtain ⟨hresult, hdiagnostics, hcursor⟩ := h
    obtain rfl : r'.within parent = r := by simpa using hresult
    exact ⟨r', rfl, yields_of_readDeclaration hread ⟨hr, hdiagnostics, hcursor⟩⟩
  · next hnone => exact absurd (hnone.symm.trans h.result) (by simp)

theorem yields_of_readTerminal (hname : isName heading.name.toList)
    (h : (readTerminal src limit heading depth c).Yields r e) :
    separated c ∧ ∃ t, Term.read src limit true c.skipContinuedBlanks = .done t e ∧
      r = .terminal heading t := by
  rw [readTerminal] at h
  split at h
  · next hseparated =>
    split at h
    · next d e' hread =>
      exact absurd h.result (by simp)
    · next t e' hread =>
      rw [ofTerm?, if_pos (isRuleName_of_isName hname)] at h
      obtain ⟨hresult, -, rfl⟩ := h
      obtain rfl : terminal heading t = r := by simpa [Attempt.done] using hresult
      exact ⟨hseparated, t, hread, rfl⟩
  · exact absurd h.result (by simp [Attempt.fail])

theorem yields_of_readGroup (hname : isName heading.name.toList)
    (h : (readGroup src read heading depth c).Yields r e) :
    c.skipBlanks.skipComment.atLineEnd ∧ ∃ rs, rs ≠ [] ∧ r = .group heading rs ∧
      (readChildren src heading.name depth read c.skipBlanks.skipComment).Yields rs e := by
  rw [readGroup] at h
  dsimp only at h
  by_cases hend : c.skipBlanks.skipComment.atLineEnd
  · rw [skipLine_of_atLineEnd hend, if_pos hend] at h
    refine ⟨hend, ?_⟩
    split at h
    · exact absurd h.result (by simp)
    · exact absurd h.result (by simp)
    next rs hrs =>
    rw [if_neg (by simp)] at h
    split at h
    · exact absurd h.result (by simp)
    next hne =>
    have hne : rs ≠ [] := by simpa using hne
    rw [ofChildren?_eq (isRuleName_of_isName hname) hne] at h
    obtain ⟨hresult, hdiagnostics, hcursor⟩ := h
    obtain rfl : group heading rs = r := by simpa using hresult
    exact ⟨rs, hne, rfl, hrs, by simpa using hdiagnostics, hcursor⟩
  · rw [if_neg hend] at h
    split at h
    · exact absurd h.diagnostics (by simp)
    · exact absurd h.diagnostics (by simp)
    · rw [if_pos (by simp)] at h
      exact absurd h.diagnostics (by simp)

theorem yields_of_read {levels : Nat} (hc : c.startsName)
    (h : (Rule.read src limit levels depth c).Yields r e) :
    src.indentation c.position.line = 4 * depth ∧ ∃ levels', levels = levels' + 1 ∧
      ((∃ d, (c.drop c.name.length).skipBlanks.accept? [':'] = some d ∧
          (readTerminal src limit ⟨String.ofList c.name, c.position, []⟩ depth d).Yields r e) ∨
        ∃ d, (c.drop c.name.length).skipBlanks.accept? ['.', '.', '.'] = some d ∧
          (readGroup src (Rule.read src limit levels' (depth + 1))
            ⟨String.ofList c.name, c.position, []⟩ depth d).Yields r e) := by
  have hfail {position problem cursor} :
      ¬ (Attempt.fail position problem cursor : Attempt Rule).Yields r e :=
    fun h => absurd h.result (by simp [Attempt.fail])
  cases hm : misalignment (src.indentation c.position.line) depth with
  | some problem =>
    rw [read_misaligned src limit hm] at h
    exact absurd h hfail
  | none =>
    refine ⟨misalignment_eq_none_iff.1 hm, ?_⟩
    cases levels with
    | zero =>
      rw [Rule.read, hm] at h
      exact absurd h hfail
    | succ levels =>
      rw [Rule.read, hm] at h
      dsimp only at h
      rw [if_neg (not_isEmpty_name hc)] at h
      refine ⟨levels, rfl, ?_⟩
      split at h
      · next d hd => exact .inl ⟨d, hd, h⟩
      · next d _ hd => exact .inr ⟨d, hd, h⟩
      · exact absurd h hfail

end Rule

end IndentedGrammar
