import IndentedGrammar.Proofs.Source.Layout

namespace IndentedGrammar

def Cursor.PastBlanks (c : Cursor) : Prop := ∀ ch, c.current? = some ch → ¬ isBlank ch

namespace Cursor.PastBlanks

variable {c : Cursor}

theorem of_atLineEnd (h : c.atLineEnd) : c.PastBlanks := by
  intro ch hc hb
  have hn : ch ≠ '\n' := by
    rintro rfl
    exact absurd hb (by decide)
  exact not_atLineEnd hc hn h

theorem of_startsName (h : c.startsName) : c.PastBlanks := by
  intro ch hc
  rw [startsName, ← current?, hc] at h
  rw [isBlank_of_isSolid (isSolid_of_isNameChar h)]
  exact Bool.false_ne_true

theorem skipBlanks (c : Cursor) : c.skipBlanks.PastBlanks := fun _ => not_isBlank_skipBlanks

theorem skipContinuedBlanks (c : Cursor) : c.skipContinuedBlanks.PastBlanks := by
  intro ch hc hb
  have hnone := continuedBlanks_drop c.rest
  have hblank : [ch].all isBlank := by simpa using hb
  have hone := continuedBlanks_append hblank c.skipContinuedBlanks.next.rest
  rw [List.singleton_append, ← rest_of_current? hc] at hone
  rw [Cursor.skipContinuedBlanks, rest_drop, hnone, List.length_singleton] at hone
  omega

theorem skipComment (h : c.PastBlanks) : c.skipComment.PastBlanks := by
  rw [Cursor.skipComment]
  split
  · exact .of_atLineEnd c.atLineEnd_skipLine
  · exact h

theorem skipGap (src : Source) (margin : Nat) (c : Cursor) : (c.skipGap src margin).PastBlanks := by
  fun_induction Cursor.skipGap src margin c with
  | case1 c d h ih => exact ih
  | case2 c d h => exact (skipContinuedBlanks c).skipComment

theorem skipInsignificant (c : Cursor) : c.skipInsignificant.PastBlanks := by
  intro ch hc
  rw [(of_head?_drop_insignificant hc).2.1]
  exact Bool.false_ne_true

end Cursor.PastBlanks

namespace Source

def Shows (src : Source) (p : Position) : Prop :=
  ∃ c : Cursor, c.IsIn src ∧ c.PastBlanks ∧ c.position = p

theorem Shows.column {src : Source} {p : Position} (h : src.Shows p) :
    ∃ i : Nat, p.column = i + 1 ∧
      ((∃ ch, (src.lineText p.line)[i]? = some ch ∧ src.text[p.offset]? = some ch) ∨
        (src.lineText p.line).length ≤ i ∧
          (p.offset = src.text.length ∨ src.text[p.offset]? = some '\n')) := by
  obtain ⟨c, hin, hc, rfl⟩ := h
  obtain ⟨before, ht, hp⟩ := hin.before
  have hline := Cursor.IsIn.line_eq src c before ht hp
  refine ⟨(lastLine before).length, by rw [hp, column_start_afterAll], ?_⟩
  by_cases hend : c.atLineEnd
  · right
    constructor
    · have htake : c.rest.takeWhile (· ≠ '\n') = [] := by
        rcases Cursor.rest_of_atLineEnd hend with hrest | ⟨text, hrest⟩ <;> simp [hrest]
      rw [lineText, hline, htake, List.append_nil]
      exact length_stripReturns_le _
    · rcases Cursor.rest_of_atLineEnd hend with hrest | ⟨text, hrest⟩
      · left
        rw [hin.offset_eq ht, ht, hrest, List.append_nil]
      · right
        rw [hin.getElem?_eq, Cursor.current?, hrest]
        rfl
  · left
    obtain ⟨ch, hcurrent, hn⟩ := Cursor.exists_of_not_atLineEnd hend
    have hr : ch ≠ '\r' := by
      rintro rfl
      exact hc _ hcurrent (by decide)
    refine ⟨ch, ?_, hin.getElem?_eq.trans hcurrent⟩
    apply getElem?_stripReturns _ hr
    rw [hline, Cursor.rest_of_current? hcurrent, List.takeWhile_cons_of_pos (by simpa using hn),
      List.getElem?_append_right (Nat.le_refl _), Nat.sub_self]
    rfl

end Source

end IndentedGrammar
