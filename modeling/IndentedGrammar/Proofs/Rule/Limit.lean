import IndentedGrammar.Proofs.Rule.Outcome
import IndentedGrammar.Proofs.Rule.Progress
import IndentedGrammar.Proofs.Term.Limit

namespace IndentedGrammar

open Cursor

namespace Attempt

variable {α : Type} {a a' : Attempt α}

def Relaxed (a a' : Attempt α) : Prop := a' = a ∨ ∃ d ∈ a.diagnostics, d.AboutLimit

theorem Relaxed.refl (a : Attempt α) : a.Relaxed a := .inl rfl

theorem Relaxed.eq_of_silent (h : a.Relaxed a') (hd : a.diagnostics = []) : a' = a := by
  rcases h with h | ⟨d, hmem, -⟩
  · exact h
  · exact absurd (hd ▸ hmem) List.not_mem_nil

theorem cons_relaxed {more more' : Cursor → Attempt (List α)} (h : a.Relaxed a')
    (hmore : (more a.cursor).Relaxed (more' a.cursor)) :
    (a.cons more).Relaxed (a'.cons more') := by
  rcases h with rfl | ⟨d, hmem, hd⟩
  · cases hx : a'.result with
    | error f =>
      rw [cons, cons, hx]
      exact .refl _
    | ok x =>
      rw [cons_eq hx, cons_eq hx]
      rcases hmore with h | ⟨d, hmem, hd⟩
      · rw [h]
        exact .refl _
      · exact .inr ⟨d, List.mem_append_right _ hmem, hd⟩
  · right
    rw [cons]
    split
    · exact ⟨d, hmem, hd⟩
    · exact ⟨d, List.mem_append_left _ hmem, hd⟩

end Attempt

open Attempt

namespace Rule

variable (src : Source) {limit limit' : Int}

section

variable {read read' : Cursor → Attempt Rule} (hread : ∀ c, (read c).Relaxed (read' c))

include hread

theorem readDeclaration_relaxed (c : Cursor) :
    (readDeclaration src read c).Relaxed (readDeclaration src read' c) := by
  have ha : (if c.startsName then read c else .fail c.position .expectedRuleName c).Relaxed
      (if c.startsName then read' c else .fail c.position .expectedRuleName c) := by
    split
    · exact hread c
    · exact .refl _
  rcases ha with h | ⟨d, hmem, hd⟩
  · rw [readDeclaration, readDeclaration, h]
    exact .refl _
  · right
    obtain ⟨result, heq⟩ := exists_readDeclaration_eq src read c
    rw [heq]
    exact ⟨d, hmem, hd⟩

theorem readChild_relaxed (parent : String) (depth : Nat) (c : Cursor) :
    (readChild src parent depth read c).Relaxed (readChild src parent depth read' c) := by
  rw [readChild, readChild]
  rcases readDeclaration_relaxed src hread c with h | ⟨d, hmem, hd⟩
  · rw [h]
    exact .refl _
  · right
    dsimp only
    split
    · exact ⟨d, hmem, hd⟩
    · exact ⟨d, hmem, hd⟩
    · exact ⟨d, hmem, hd⟩

theorem readChildren_relaxed (parent : String) (depth : Nat) (c : Cursor) :
    (readChildren src parent depth read c).Relaxed (readChildren src parent depth read' c) := by
  fun_induction readChildren src parent depth read c with
  | case1 c width hshallow =>
    rw [readChildren, if_pos hshallow]
    exact .refl _
  | case2 c width hdeep d hne =>
    rw [readChildren, if_neg hdeep, if_pos hne]
    exact .refl _
  | case3 c width hdeep d heq ih =>
    rw [readChildren, if_neg hdeep, if_neg heq]
    apply cons_relaxed (readChild_relaxed src hread parent depth d)
    split
    · next hlt => exact ih _ hlt
    · exact .refl _

theorem readGroup_relaxed (heading : Heading) (depth : Nat) (c : Cursor) :
    (readGroup src read heading depth c).Relaxed (readGroup src read' heading depth c) := by
  rcases readChildren_relaxed src hread heading.name depth c.skipBlanks.skipComment.skipLine with
    h | ⟨d, hmem, hd⟩
  · rw [readGroup, readGroup]
    dsimp only
    rw [h]
    exact .refl _
  · right
    obtain ⟨result, trailing, missing, heq, -⟩ := exists_readGroup_eq src read heading depth c
    rw [heq]
    exact ⟨d, List.mem_append_left _ (List.mem_append_right _ hmem), hd⟩

end

theorem readTerminal_relaxed (h : limit ≤ limit') (heading : Heading) (depth : Nat) (c : Cursor) :
    (readTerminal src limit heading depth c).Relaxed
      (readTerminal src limit' heading depth c) := by
  rw [readTerminal, readTerminal]
  split
  · rcases Term.read_relaxed src h true c.skipContinuedBlanks with h | ⟨d, e, h, hd⟩
    · rw [h]
      exact .refl _
    · rw [h]
      exact .inr ⟨d, List.mem_singleton_self d, hd⟩
  · exact .refl _

theorem read_relaxed (h : limit ≤ limit') {levels levels' : Nat} (hlevels : levels ≤ levels')
    (depth : Nat) (c : Cursor) :
    (read src limit levels depth c).Relaxed (read src limit' levels' depth c) := by
  induction levels generalizing levels' depth c with
  | zero =>
    cases hm : misalignment (src.indentation c.position.line) depth with
    | some problem =>
      rw [read_misaligned src limit hm, read_misaligned src limit' hm]
      exact .refl _
    | none =>
      rw [read, hm]
      exact .inr ⟨_, List.mem_singleton_self _, limit, rfl⟩
  | succ levels ih =>
    obtain ⟨levels', rfl⟩ : ∃ n, levels' = n + 1 := ⟨levels' - 1, by omega⟩
    rw [read, read]
    split
    · exact .refl _
    dsimp only
    split
    · exact .refl _
    split
    · exact readTerminal_relaxed src h _ depth _
    · exact readGroup_relaxed src (ih (Nat.le_of_succ_le_succ hlevels) (depth + 1)) _ depth _
    · exact .refl _

end Rule

end IndentedGrammar
