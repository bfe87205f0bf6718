import IndentedGrammar.Files.Path
import Mathlib.Data.List.Basic

namespace IndentedGrammar

theorem compare_eq_lt_iff {xs ys : List String} : compare xs ys = .lt ↔ xs < ys := by
  induction xs generalizing ys with
  | nil =>
    cases ys with
    | nil => exact iff_of_false nofun (List.lt_irrefl [])
    | cons y ys => exact iff_of_true rfl (List.nil_lt_cons y ys)
  | cons x xs ih =>
    cases ys with
    | nil => exact iff_of_false nofun (List.not_lt_nil _)
    | cons y ys =>
      rw [List.compare_eq_compareLex, List.compareLex_cons_cons, Ordering.then_eq_lt,
        ← List.compare_eq_compareLex, ih, List.cons_lt_cons_iff, Std.compare_eq_iff_eq]
      exact or_congr_left compareOfLessAndEq_eq_lt

theorem nodup_eraseDups {α : Type} [BEq α] [LawfulBEq α] (xs : List α) : xs.eraseDups.Nodup := by
  match xs with
  | [] => exact List.nodup_nil
  | x :: xs =>
    rw [List.eraseDups_cons, List.nodup_cons, List.mem_eraseDups]
    exact ⟨by simp, nodup_eraseDups _⟩
termination_by xs.length
decreasing_by exact Nat.lt_succ_of_le (List.length_filter_le _ _)

namespace Path

def Increasing (paths : List Path) : Prop := paths.Pairwise fun p q => p.parts < q.parts

instance : DecidablePred Increasing := fun _ => inferInstanceAs (Decidable (List.Pairwise _ _))

theorem increasing_mergeSort {paths : List Path} (hroot : ∀ p ∈ paths, p.root = "/") :
    Increasing (paths.eraseDups.mergeSort fun p q => (compare p.parts q.parts).isLE) := by
  let sorted := paths.eraseDups.mergeSort fun p q => (compare p.parts q.parts).isLE
  have hsorted : sorted.Pairwise fun p q => (compare p.parts q.parts).isLE := by
    refine List.pairwise_mergeSort (fun p q r hpq hqr => ?_) (fun p q => ?_) _
    · exact Std.TransOrd.isLE_trans hpq hqr
    · rw [Std.OrientedOrd.eq_swap (a := q.parts)]
      cases compare p.parts q.parts <;> rfl
  have hnodup : sorted.Nodup := (List.mergeSort_perm _ _).nodup_iff.2 (nodup_eraseDups paths)
  refine (hsorted.and hnodup).imp_of_mem ?_
  rintro p q hp hq ⟨hle, hne⟩
  rcases Ordering.isLE_iff_eq_lt_or_eq_eq.1 hle with hlt | heq
  · exact compare_eq_lt_iff.1 hlt
  · rw [List.mem_mergeSort, List.mem_eraseDups] at hp hq
    have hparts := Std.LawfulEqOrd.eq_of_compare heq
    obtain ⟨root, parts⟩ := p
    obtain ⟨root', parts'⟩ := q
    obtain rfl : root = root' := (hroot _ hp).trans (hroot _ hq).symm
    exact absurd (congrArg _ hparts) hne

theorem Increasing.nodup {paths : List Path} (h : Increasing paths) : paths.Nodup := by
  refine List.Pairwise.imp ?_ h
  rintro p _ hlt rfl
  exact List.lt_irrefl p.parts hlt

theorem Increasing.eq {paths paths' : List Path} (h : Increasing paths) (h' : Increasing paths')
    (hmem : ∀ p, p ∈ paths ↔ p ∈ paths') : paths = paths' := by
  refine List.Perm.eq_of_pairwise ?_ h h' ((List.perm_ext_iff_of_nodup h.nodup h'.nodup).2 hmem)
  intro p q _ _ hpq hqp
  exact absurd (List.lt_trans hpq hqp) (List.lt_irrefl p.parts)

end Path

end IndentedGrammar
