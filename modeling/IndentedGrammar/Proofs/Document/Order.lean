import IndentedGrammar.Proofs.Document.Run
import IndentedGrammar.Proofs.Rule.Order

namespace IndentedGrammar

open Cursor Attempt

namespace Document

variable {src : Source} {limit : Int} {c : Cursor} {doc : Document}

theorem orderly_readTopLevel (hin : c.IsIn src) :
    (readTopLevel src limit c).Orderly Rule.walk c := by
  have hread := Rule.readsRules_readAt src limit 0
  have ha := Rule.orderly_readDeclaration hread (Rule.orderly_readAt 0) hin
  obtain ⟨x, hx, hiff⟩ := ha.reports
  have hpasses := ha.passes
  rw [readTopLevel]
  dsimp only
  rw [hx]
  cases x with
  | none =>
    rw [places_of_none hx] at hpasses
    exact orderly_of_none hx (hiff.1 rfl) (hpasses.widen (.refl c) (reaches_skipBlock ..))
  | some r =>
    have hsilent := ha.reports.silent hx
    rw [places_of_some hx hsilent] at hpasses
    exact orderly_of_some hx hsilent hpasses

theorem Run.passes (h : Run src limit c doc) :
    ∃ ps, c.Passes doc.cursor ps ∧ (doc.diagnostics.map Diagnostic.position).Sublist ps ∧
      ((Rule.walkAll doc.rules).map Rule.position).Sublist ps ∧
      (doc.diagnostics.map Diagnostic.position ++
        (Rule.walkAll doc.rules).map Rule.position).Perm ps := by
  induction h with
  | ended => exact ⟨[], .nil .., .refl _, .refl _, .refl _⟩
  | @declaration c first more hin hc hfirst hrun ih =>
    obtain ⟨ps, hps, hsub, hsub', hperm⟩ := ih
    have ha : (readTopLevel src limit c).Orderly Rule.walk c := orderly_readTopLevel hin
    have hreach := reaches_readTopLevel src limit c
    have hend := atLineEnd_readTopLevel src limit c
    have hskip := reaches_skipInsignificant (readTopLevel src limit c).cursor
    have hbelow : ∀ q ∈ ps, (readTopLevel src limit c).cursor.position.line < q.line := by
      intro q hq
      have hne : (readTopLevel src limit c).cursor.skipInsignificant.rest ≠ [] := by
        intro hnil
        rw [hrun.eq_of_rest_nil hnil] at hperm
        rw [List.nil_perm.1 hperm] at hq
        exact absurd hq List.not_mem_nil
      exact Int.lt_of_lt_of_le (line_lt_skipInsignificant (hin.reaches hreach) hend hne)
        (hps.line_le hq).1
    have hrules := walkAll_of_result hfirst more.rules
    refine ⟨(readTopLevel src limit c).places Rule.walk ++ ps, ?_, ?_, ?_, ?_⟩
    · exact ha.passes.append (hps.widen hskip (.refl _)) hbelow hreach (hskip.trans hrun.reaches)
    · rw [List.map_append]
      exact (List.sublist_append_left ..).append hsub
    · rw [hrules, List.map_append]
      exact (List.sublist_append_right ..).append hsub'
    · rw [hrules, places, List.map_append, List.map_append, List.append_assoc, List.append_assoc]
      apply List.Perm.append_left
      exact (List.perm_append_comm_assoc ..).trans (hperm.append_left _)

/-- The diagnostics of a document come line by line, and none is on a line where a rule starts. -/
theorem diagnostics_in_order (src : Source) (limit : Int) :
    ∃ doc, read src limit = .ok doc ∧
      doc.diagnostics.Pairwise
        (fun d e => d.line < e.line ∧ d.position.offset < e.position.offset) ∧
      ∀ d ∈ doc.diagnostics, ∀ r ∈ Rule.walkAll doc.rules, d.line ≠ r.position.line := by
  obtain ⟨doc, hrun, hread⟩ := run_read src limit
  obtain ⟨ps, hps, hsub, -, hperm⟩ := hrun.passes
  refine ⟨_, hread, ?_, ?_⟩
  · have hlines := List.pairwise_map.1 (hps.lines.sublist hsub)
    refine hlines.imp_of_mem ?_
    intro d e hd he hlt
    obtain ⟨b, hb, -, hbd⟩ := hps.between _ (hsub.mem (List.mem_map_of_mem hd))
    obtain ⟨b', hb', -, hbe⟩ := hps.between _ (hsub.mem (List.mem_map_of_mem he))
    rw [← hbd, ← hbe] at hlt
    have hoffset := (hrun.isIn.reaches hb).offset_lt (hrun.isIn.reaches hb') hlt
    rw [hbd, hbe] at hlt hoffset
    exact ⟨hlt, hoffset⟩
  · have hne := (hperm.pairwise_iff fun h => Ne.symm h).2 (hps.lines.imp Int.ne_of_lt)
    intro d hd r hr
    exact (List.pairwise_append.1 hne).2.2 _ (List.mem_map_of_mem hd) _ (List.mem_map_of_mem hr)

end Document

end IndentedGrammar
