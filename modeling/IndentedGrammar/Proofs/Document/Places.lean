import IndentedGrammar.Proofs.Document.Run
import IndentedGrammar.Proofs.Rule.Places

namespace IndentedGrammar

open Cursor Attempt

namespace Document

variable {src : Source} {limit : Int} {c : Cursor} {doc : Document}

theorem located_readTopLevel (c : Cursor) : (readTopLevel src limit c).Located Rule.walk c := by
  have ha : (Rule.readDeclaration src (Rule.readAt src limit 0) c).Located Rule.walk c :=
    Rule.located_readDeclaration (fun _ => Rule.located_readAt 0) c
  rw [readTopLevel]
  dsimp only
  split
  · exact ha
  · exact ha
  · next hnone => exact located_of_none hnone

theorem Run.heldBy (h : Run src limit c doc) :
    ∀ r ∈ Rule.walkAll doc.rules, r.HeldBy c doc.cursor := by
  induction h with
  | ended => nofun
  | @declaration c first more hin hc hfirst hrun ih =>
    have hreach := (reaches_readTopLevel src limit c).trans (reaches_skipInsignificant _)
    intro r hr
    rw [walkAll_of_result hfirst] at hr
    rcases List.mem_append.1 hr with hr | hr
    · have hheld := located_readTopLevel c r hr
      exact hheld.widen (.refl c) ((reaches_skipInsignificant _).trans hrun.reaches)
    · exact (ih r hr).widen hreach (.refl _)

end Document

end IndentedGrammar
