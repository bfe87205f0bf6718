import IndentedGrammar.Proofs.Diagnostic.Marker
import IndentedGrammar.Proofs.Document.Run
import IndentedGrammar.Proofs.Rule.Shown
import Mathlib.Data.List.Forall2

namespace IndentedGrammar

open Cursor Attempt

namespace Document

variable {src : Source} {limit : Int} {c : Cursor} {doc : Document}

theorem shown_readTopLevel (hin : c.IsIn src) (hc : c.PastBlanks) :
    (readTopLevel src limit c).Shown src := by
  have ha : (Rule.readDeclaration src (Rule.readAt src limit 0) c).Shown src :=
    Rule.shown_readDeclaration (fun _ => Rule.shown_readAt 0) hin hc
  rw [readTopLevel]
  dsimp only
  split
  · exact ha
  · exact ha
  · exact ha

theorem Run.shown (h : Run src limit c doc) (hc : c.PastBlanks) :
    ∀ d ∈ doc.diagnostics, src.Shows d.position := by
  induction h with
  | ended => exact fun _ hd => absurd hd List.not_mem_nil
  | declaration hin _ _ _ ih =>
    exact List.forall_mem_append.2 ⟨shown_readTopLevel hin hc, ih (.skipInsignificant _)⟩

/-- Every diagnostic of a document is shown with its line and a marker that points at its place. -/
theorem diagnostics_pointedOut (src : Source) (limit : Int) :
    ∃ doc, read src limit = .ok doc ∧
      List.Forall₂ (Diagnostic.PointedOut src) doc.diagnostics (doc.formatDiagnostics true) := by
  obtain ⟨doc, hrun, hread⟩ := run_read src limit
  have hshown := hrun.shown (.skipInsignificant _)
  refine ⟨_, hread, ?_⟩
  rw [formatDiagnostics, Diagnostic.formatAll, List.forall₂_map_right_iff, List.forall₂_same]
  intro d hd
  simp only [hrun.source_eq]
  exact Diagnostic.pointedOut_of_shows (hshown d hd)

end Document

end IndentedGrammar
