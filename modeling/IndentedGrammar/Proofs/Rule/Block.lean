import IndentedGrammar.Proofs.Rule.Outcome
import IndentedGrammar.Proofs.Rule.Progress
import IndentedGrammar.Proofs.Source.Content

/-! The block below the heading of a group, from one line end to the next. What the loop over the
children of a group does depends on the indentation of the next content line alone, and it always
gets on, so facts about blocks are proved by induction on `Block`. -/

namespace IndentedGrammar

open Cursor

theorem Attempt.cons_congr {α : Type} {a : Attempt α} {more more' : Cursor → Attempt (List α)}
    (h : more a.cursor = more' a.cursor) : a.cons more = a.cons more' := by
  rw [cons, cons, h]

namespace Rule

structure ReadsRules (p : Rule → Prop) (read : Cursor → Attempt Rule) : Prop where
  satisfies : ∀ c : Cursor, c.startsName → (read c).Satisfies p
  reaches : ∀ c : Cursor, c.Reaches (read c).cursor

theorem readsRules_read (src : Source) (limit : Int) (levels depth : Nat) :
    ReadsRules (Fits limit [] levels) (read src limit levels depth) :=
  ⟨fun _ hc => read_satisfies src limit levels depth hc, reaches_read src limit levels depth⟩

theorem readsRules_readAt (src : Source) (limit depth : Int) :
    ReadsRules (Fits limit [] (limit + 1 - depth).toNat) (readAt src limit depth) :=
  ⟨fun _ hc => readAt_satisfies src limit depth hc, reaches_readAt src limit depth⟩

variable (src : Source) (parent : String) (depth : Nat) (child : Cursor → Attempt Rule)

inductive Block : Cursor → Attempt (List Rule) → Prop
  | ended {c} : c.IsIn src → c.atLineEnd → aheadIndentation c.rest ≤ 4 * depth → Block c (.done [] c)
  | misplaced {c} : c.IsIn src → c.atLineEnd → 4 * depth < aheadIndentation c.rest →
      aheadIndentation c.rest ≠ 4 * (depth + 1) →
      Block c (.misplaced c.skipInsignificant.position
        (c.skipInsignificant.skipBlock src (4 * depth)))
  | child {c b} : c.IsIn src → c.atLineEnd → aheadIndentation c.rest = 4 * (depth + 1) →
      Block (readChild src parent depth child c.skipInsignificant).cursor b →
      Block c ((readChild src parent depth child c.skipInsignificant).cons fun _ => b)

variable {src parent depth child} {p : Rule → Prop} {c : Cursor} {a : Attempt (List Rule)}

theorem readChildren_eq (hread : ∀ c : Cursor, c.Reaches (child c).cursor) (hin : c.IsIn src)
    (hend : c.atLineEnd) :
    readChildren src parent depth child c =
      if aheadIndentation c.rest ≤ 4 * depth then .done [] c
      else if aheadIndentation c.rest ≠ 4 * (depth + 1) then
        .misplaced c.skipInsignificant.position (c.skipInsignificant.skipBlock src (4 * depth))
      else
        (readChild src parent depth child c.skipInsignificant).cons
          (readChildren src parent depth child) := by
  rw [readChildren, hin.nextIndentation_eq]
  dsimp only
  split
  · rfl
  next hdeep =>
  split
  · rfl
  · apply Attempt.cons_congr
    have hlt := length_skipInsignificant_lt hend (Nat.zero_lt_of_lt (Nat.not_le.1 hdeep))
    have hle := (reaches_readChild src hread parent depth c.skipInsignificant).length_le
    exact dif_pos (Nat.lt_of_le_of_lt hle hlt)

theorem block_readChildren (hread : ReadsRules p child) (hin : c.IsIn src) (hend : c.atLineEnd) :
    Block src parent depth child c (readChildren src parent depth child c) := by
  induction hn : c.rest.length using Nat.strongRecOn generalizing c with
  | ind n ih =>
    subst hn
    rw [readChildren_eq hread.reaches hin hend]
    split
    · next hshallow => exact .ended hin hend hshallow
    next hdeep =>
    split
    · next hne => exact .misplaced hin hend (Nat.not_le.1 hdeep) hne
    · next heq =>
      have hreach := reaches_readChild src hread.reaches parent depth c.skipInsignificant
      have hlt := length_skipInsignificant_lt hend (Nat.zero_lt_of_lt (Nat.not_le.1 hdeep))
      have hend' := (readChild_ends src parent depth hread.satisfies c.skipInsignificant).2
      have hmore := ih _ (Nat.lt_of_le_of_lt hreach.length_le hlt)
        (hin.reaches (c.reaches_skipInsignificant.trans hreach)) hend' rfl
      exact .child hin hend (Decidable.not_not.1 heq) hmore

namespace Block

variable (hread : ReadsRules p child)

include hread

theorem reaches (h : Block src parent depth child c a) : c.Reaches a.cursor := by
  induction h with
  | ended => exact .refl _
  | @misplaced c => exact c.reaches_skipInsignificant.trans (reaches_skipBlock ..)
  | @child c b _ _ _ _ ih =>
    exact Attempt.reaches_cons (c.reaches_skipInsignificant.trans
      (reaches_readChild src hread.reaches parent depth _)) ih

end Block

end Rule

end IndentedGrammar
