import IndentedGrammar.Term.Reader

namespace IndentedGrammar

open Cursor

def Diagnostic.AboutLimit (d : Diagnostic) : Prop := ∃ limit, d.problem = .tooDeep limit

namespace Reading

variable {α : Type} {r r' : Reading α}

def Relaxed (r r' : Reading α) : Prop := r' = r ∨ ∃ d e, r = .failed d e ∧ d.AboutLimit

namespace Relaxed

theorem refl (r : Reading α) : r.Relaxed r := .inl rfl

theorem of_done {x : α} {e : Cursor} (h : r.Relaxed r') (hr : r = .done x e) : r' = .done x e := by
  rcases h with h | ⟨d, e, hfailed, -⟩
  · rw [h, hr]
  · simp [hr] at hfailed

theorem of_failed {d : Diagnostic} {e : Cursor} (h : r.Relaxed r') (hr : r = .failed d e) :
    r' = .failed d e ∨ d.AboutLimit := by
  rcases h with h | ⟨d', e', hfailed, hd⟩
  · exact .inl (h.trans hr)
  · obtain ⟨rfl, rfl⟩ := Reading.failed.inj (hr.symm.trans hfailed)
    exact .inr hd

end Relaxed

theorem relaxed_failed {d : Diagnostic} {e : Cursor} (hd : d.AboutLimit) :
    (failed d e : Reading α).Relaxed r' := .inr ⟨d, e, rfl, hd⟩

end Reading

open Reading

namespace Term

variable (src : Source) (margin : Nat)

section

variable {group group' : Cursor → Reading Term} (hg : ∀ c, (group c).Relaxed (group' c))

include hg

theorem readAtom_relaxed (c : Cursor) : (readAtom group c).Relaxed (readAtom group' c) := by
  rw [readAtom, readAtom]
  split
  · exact .refl _
  -- the atoms come in the order in which the reader asks for them; only the last is a group
  split
  · exact .refl _
  split
  · exact .refl _
  split
  · exact .refl _
  split
  · exact .refl _
  split
  · exact hg c
  · exact .refl _

theorem readRepeated_relaxed (c : Cursor) :
    (readRepeated src margin group c).Relaxed (readRepeated src margin group' c) := by
  rw [readRepeated, readRepeated]
  rcases readAtom_relaxed hg c with h | ⟨d, e, h, hd⟩
  · rw [h]
    exact .refl _
  · rw [h]
    exact relaxed_failed hd

theorem readPart_relaxed (c : Cursor) :
    (readPart src margin group c).Relaxed (readPart src margin group' c) := by
  rw [readPart, readPart]
  split
  · exact readRepeated_relaxed src margin hg c
  rcases readRepeated_relaxed src margin hg (c.next.skipGap src margin) with h | ⟨d, e, h, hd⟩
  · rw [h]
    exact .refl _
  · rw [h]
    exact relaxed_failed hd

theorem readParts_relaxed (c : Cursor) :
    (readParts src margin group c).Relaxed (readParts src margin group' c) := by
  have hpart := readPart_relaxed src margin hg
  fun_induction readParts src margin group c with
  | case1 c hstart d e hc =>
    rcases (hpart c).of_failed hc with h | hd
    · rw [readParts, if_pos hstart, h]
      exact .refl _
    · exact relaxed_failed hd
  | case2 c hstart t e hc hlt d e' hmore ih =>
    rw [readParts, if_pos hstart, (hpart c).of_done hc]
    dsimp only
    rw [dif_pos hlt]
    rcases ih.of_failed hmore with h | hd
    · rw [h]
      exact .refl _
    · exact relaxed_failed hd
  | case3 c hstart t e hc hlt ts e' hmore ih =>
    rw [readParts, if_pos hstart, (hpart c).of_done hc]
    dsimp only
    rw [dif_pos hlt, ih.of_done hmore]
    exact .refl _
  | case4 c hstart t e hc hlt =>
    rw [readParts, if_pos hstart, (hpart c).of_done hc]
    dsimp only
    rw [dif_neg hlt]
    exact .refl _
  | case5 c hstart =>
    rw [readParts, if_neg hstart]
    exact .refl _

theorem readSequence_relaxed (c : Cursor) :
    (readSequence src margin group c).Relaxed (readSequence src margin group' c) := by
  rw [readSequence, readSequence]
  rcases readParts_relaxed src margin hg c with h | ⟨d, e, h, hd⟩
  · rw [h]
    exact .refl _
  · rw [h]
    exact relaxed_failed hd

theorem readAlternatives_relaxed (c : Cursor) :
    (readAlternatives src margin group c).Relaxed (readAlternatives src margin group' c) := by
  have hsequence := readSequence_relaxed src margin hg
  fun_induction readAlternatives src margin group c with
  | case1 c d e hc =>
    rcases (hsequence c).of_failed hc with h | hd
    · rw [readAlternatives, h]
      exact .refl _
    · exact relaxed_failed hd
  | case2 c t e hc hbar e' hlt d e'' hmore ih =>
    rw [readAlternatives, (hsequence c).of_done hc]
    dsimp only
    rw [if_pos hbar, dif_pos hlt]
    rcases ih.of_failed hmore with h | hd
    · rw [h]
      exact .refl _
    · exact relaxed_failed hd
  | case3 c t e hc hbar e' hlt ts e'' hmore ih =>
    rw [readAlternatives, (hsequence c).of_done hc]
    dsimp only
    rw [if_pos hbar, dif_pos hlt, ih.of_done hmore]
    exact .refl _
  | case4 c t e hc hbar e' hlt =>
    rw [readAlternatives, (hsequence c).of_done hc]
    dsimp only
    rw [if_pos hbar, dif_neg hlt]
    exact .refl _
  | case5 c t e hc hbar =>
    rw [readAlternatives, (hsequence c).of_done hc]
    dsimp only
    rw [if_neg hbar]
    exact .refl _

theorem readChoice_relaxed (c : Cursor) :
    (readChoice src margin group c).Relaxed (readChoice src margin group' c) := by
  rw [readChoice, readChoice]
  rcases readAlternatives_relaxed src margin hg c with h | ⟨d, e, h, hd⟩
  · rw [h]
    exact .refl _
  · rw [h]
    exact relaxed_failed hd

theorem readGroup_relaxed (c : Cursor) :
    (readGroup src margin group c).Relaxed (readGroup src margin group' c) := by
  rw [readGroup, readGroup]
  rcases hg (c.next.skipGap src margin) with h | ⟨d, e, h, hd⟩
  · rw [h]
    exact .refl _
  · rw [h]
    exact relaxed_failed hd

end

theorem choiceWithin_relaxed {limit limit' : Int} {levels levels' : Nat} (h : levels ≤ levels')
    (c : Cursor) :
    (choiceWithin src margin limit levels c).Relaxed
      (choiceWithin src margin limit' levels' c) := by
  induction levels generalizing levels' c with
  | zero =>
    have hg (group : Cursor → Reading Term) (c : Cursor) :
        (failed ⟨c.position, .tooDeep limit⟩ c : Reading Term).Relaxed (group c) :=
      relaxed_failed ⟨limit, rfl⟩
    cases levels' with
    | zero => exact readChoice_relaxed src margin (hg _) c
    | succ levels' => exact readChoice_relaxed src margin (hg _) c
  | succ levels ih =>
    cases levels' with
    | zero => exact absurd h (Nat.not_succ_le_zero levels)
    | succ levels' =>
      exact readChoice_relaxed src margin
        (readGroup_relaxed src margin fun c => ih (Nat.le_of_succ_le_succ h) c) c

theorem read_relaxed {limit limit' : Int} (h : limit ≤ limit') (newlineFirst : Bool) (c : Cursor) :
    (read src limit newlineFirst c).Relaxed (read src limit' newlineFirst c) := by
  have hlevels : limit.toNat ≤ limit'.toNat := Int.toNat_le_toNat h
  rw [read, read]
  dsimp only
  split
  · exact .refl _
  generalize c.skipContinuedBlanks.skipComment.skipGap _ _ = d
  generalize (if d.current? = some '|' then _ else d) = c'
  have hchoice : (choiceWithin src (src.indentation c.position.line) limit limit.toNat c').Relaxed
      (choiceWithin src (src.indentation c.position.line) limit' limit'.toNat c') :=
    choiceWithin_relaxed src _ hlevels c'
  rcases hchoice with h | ⟨d, e, h, hd⟩
  · rw [h]
    exact .refl _
  · rw [h]
    exact relaxed_failed hd

end Term

end IndentedGrammar
