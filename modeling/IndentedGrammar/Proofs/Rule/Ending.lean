import IndentedGrammar.Proofs.Rule.Order
import IndentedGrammar.Proofs.Source.Block

namespace IndentedGrammar

open Cursor

def Problem.isIndentation : Problem → Bool
  | .invalidIndentation | .unexpectedIndentation => true
  | _ => false

theorem Cursor.offset_lt_of_atLineEnd {c e : Cursor} (h : c.Reaches e) (hc : ¬ c.atLineEnd)
    (he : e.atLineEnd) : c.position.offset < e.position.offset := by
  rcases h.eq_or_next with rfl | hnext
  · exact absurd he hc
  · exact offset_lt_of_next (fun hnil => hc (atLineEnd_of_rest_nil hnil)) hnext

theorem Cursor.not_atLineEnd_of_startsName {c : Cursor} (h : c.startsName) : ¬ c.atLineEnd := by
  obtain ⟨ch, text, hc, hname⟩ := exists_cons_of_head h
  have hcurrent : c.current? = some ch := congrArg List.head? hc
  apply not_atLineEnd hcurrent
  rintro rfl
  exact absurd hname (by decide)

namespace Rule

variable {src : Source} {limit : Int} {child : Cursor → Attempt Rule} {p : Rule → Prop}
  {parent : String} {depth : Nat} {c : Cursor}

theorem isIndentation_of_misalignment {width : Nat} {problem : Problem}
    (h : misalignment width depth = some problem) : problem.isIndentation := by
  rw [misalignment] at h
  split at h
  · obtain rfl := Option.some.inj h
    rfl
  split at h
  · obtain rfl := Option.some.inj h
    rfl
  · simp at h

theorem Block.atBlockEnd {a : Attempt (List Rule)} (hread : ReadsRules p child)
    (h : Block src parent depth child c a) : a.cursor.AtBlockEnd src (4 * depth) := by
  induction h with
  | ended hin hend hshallow => exact ⟨hend, (shallow_iff hin (4 * depth)).2 hshallow⟩
  | misplaced hin => exact atBlockEnd_skipBlock (hin.reaches (reaches_skipInsignificant _)) _
  | @child c b hin hend hahead hb ih =>
    obtain ⟨⟨first, hfirst⟩, -⟩ :=
      readChild_ends src parent depth hread.satisfies c.skipInsignificant
    rw [Attempt.cons_eq hfirst]
    exact ih

theorem atBlockEnd_readGroup (hread : ReadsRules p child) (heading : Heading) (hin : c.IsIn src) :
    (readGroup src child heading depth c).cursor.AtBlockEnd src (4 * depth) := by
  have hline := (c.reaches_skipBlanks.trans (reaches_skipComment _)).trans (reaches_skipLine _)
  obtain ⟨result, trailing, missing, heq, -⟩ := exists_readGroup_eq src child heading depth c
  rw [heq]
  exact (block_readChildren hread (hin.reaches hline) (atLineEnd_skipLine _)).atBlockEnd hread

theorem atBlockEnd_readTerminal (heading : Heading) (hin : c.IsIn src)
    (h : (readTerminal src limit heading depth c).result = .ok none) :
    (readTerminal src limit heading depth c).cursor.AtBlockEnd src (4 * depth) := by
  have hread := c.reaches_skipContinuedBlanks.trans
    (Term.reaches_read src limit true c.skipContinuedBlanks)
  revert h
  rw [readTerminal]
  split
  · generalize Term.read src limit true c.skipContinuedBlanks = r at hread
    cases r with
    | failed d e => exact fun _ => atBlockEnd_skipBlock (hin.reaches hread) _
    | done t e =>
      dsimp only
      split
      · simp [Attempt.fault]
      · simp [Attempt.done]
  · exact fun _ => atBlockEnd_skipBlock hin _

theorem atBlockEnd_read {levels : Nat} (hin : c.IsIn src) (hc : c.startsName)
    (hwidth : src.indentation c.position.line = 4 * depth)
    (h : (read src limit levels depth c).result = .ok none) :
    (read src limit levels depth c).cursor.AtBlockEnd src (4 * depth) := by
  cases levels with
  | zero =>
    rw [read, misalignment_eq_none_iff.2 hwidth]
    exact atBlockEnd_skipBlock hin _
  | succ levels =>
    have hd := (Reaches.drop c c.name.length).trans (reaches_skipBlanks _)
    revert h
    rw [read, misalignment_eq_none_iff.2 hwidth]
    dsimp only
    rw [if_neg (not_isEmpty_name hc)]
    split
    · next e he =>
      exact atBlockEnd_readTerminal _ (hin.reaches (hd.trans (reaches_of_accept? he)))
    · next e _ he =>
      intro _
      exact atBlockEnd_readGroup (readsRules_read src limit levels (depth + 1)) _
        (hin.reaches (hd.trans (reaches_of_accept? he)))
    · exact fun _ => atBlockEnd_skipBlock (hin.reaches hd) _

theorem readAt_misplaced (limit : Int) (hwidth : src.indentation c.position.line ≠ 4 * depth) :
    ∃ problem : Problem, problem.isIndentation ∧
      readAt src limit depth c = .fail c.position problem c := by
  obtain ⟨problem, hproblem⟩ :=
    Option.ne_none_iff_exists'.1 fun hnone => hwidth (misalignment_eq_none_iff.1 hnone)
  exact ⟨problem, isIndentation_of_misalignment hproblem, by rw [readAt, hproblem]⟩

theorem atBlockEnd_readAt (hin : c.IsIn src) (hc : c.startsName)
    (hwidth : src.indentation c.position.line = 4 * depth)
    (h : (readAt src limit depth c).result = .ok none) :
    (readAt src limit depth c).cursor.AtBlockEnd src (4 * depth) := by
  rw [readAt_aligned src limit depth hwidth] at h ⊢
  exact atBlockEnd_read hin hc hwidth h

theorem readAt_placed (limit : Int) (hin : c.IsIn src) (hc : c.startsName)
    (hwidth : src.indentation c.position.line = 4 * depth) :
    let a := readAt src limit depth c
    (∃ r, a.result = .ok (some r) ∧ r.scope = [] ∧ a.diagnostics = [] ∧ a.cursor.atLineEnd) ∨
      (a.result = .ok none ∧ a.diagnostics ≠ [] ∧
        c.position.offset < a.cursor.position.offset ∧ a.cursor.AtBlockEnd src (4 * depth)) := by
  intro a
  have hreports : a.Reports := (orderly_readAt depth c hin hc).reports
  obtain ⟨x, hx, hiff⟩ := id hreports
  cases x with
  | some r =>
    obtain ⟨hfits, hend⟩ := (readAt_satisfies src limit depth hc).holds r hx
    exact .inl ⟨r, hx, hfits.wellFormed.scope_eq, hreports.silent hx, hend⟩
  | none =>
    have hblock := atBlockEnd_readAt hin hc hwidth hx
    have hlt := offset_lt_of_atLineEnd (reaches_readAt src limit depth c)
      (not_atLineEnd_of_startsName hc) hblock.atLineEnd
    exact .inr ⟨hx, hiff.1 rfl, hlt, hblock⟩

end Rule

end IndentedGrammar
