import IndentedGrammar.Proofs.Document.Order
import IndentedGrammar.Proofs.Rule.Silence

namespace IndentedGrammar

open Cursor Attempt

namespace Document

variable (src : Source) (limit : Int)

inductive Declares : Cursor → List Rule → Prop
  | ended {c} : c.IsIn src → c.rest = [] → Declares c []
  | declaration {c r rs e} : c.IsIn src → c.startsName → src.indentation c.position.line = 0 →
      (Rule.read src limit (limit + 1).toNat 0 c).Yields r e → e.atLineEnd →
      Declares e.skipInsignificant rs → Declares c (r :: rs)

variable {src limit} {c e : Cursor} {r : Rule} {doc : Document}

theorem yields_of_readTopLevel (h : (readTopLevel src limit c).Yields r e) :
    c.startsName ∧ src.indentation c.position.line = 0 ∧
      (Rule.read src limit (limit + 1).toNat 0 c).Yields r e ∧ e.atLineEnd := by
  have hdeclaration : (Rule.readDeclaration src (Rule.readAt src limit 0) c).Yields r e := by
    rw [readTopLevel] at h
    dsimp only at h
    split at h
    · exact h
    · exact ⟨h.result, h.diagnostics, h.cursor⟩
    · next hnone => exact absurd (hnone.symm.trans h.result) (by simp)
  obtain ⟨hc, hread, hend⟩ := Rule.yields_of_readDeclaration
    (fun _ hc => Rule.readAt_satisfies src limit 0 hc) hdeclaration
  rw [Rule.readAt] at hread
  split at hread
  · exact absurd hread.result (by simp [Attempt.fail])
  · next hm =>
    rw [Int.sub_zero] at hread
    have hwidth : src.indentation c.position.line = 4 * 0 := Rule.misalignment_eq_none_iff.1 hm
    exact ⟨hc, hwidth, hread, hend⟩

theorem Run.declares (h : Run src limit c doc) (hsilent : doc.diagnostics = []) :
    Declares src limit c doc.rules := by
  induction h with
  | ended hin hc => exact .ended hin hc
  | @declaration c first more hin hc hfirst hrun ih =>
    obtain ⟨hd, hmore⟩ := List.append_eq_nil_iff.1 hsilent
    obtain ⟨r, hr⟩ := (orderly_readTopLevel hin).reports.result_of_silent hd
    obtain rfl := Except.ok.inj (hfirst.symm.trans hr)
    obtain ⟨hc, hwidth, hread, hend⟩ := yields_of_readTopLevel ⟨hr, hd, rfl⟩
    exact .declaration hin hc hwidth hread hend (ih hmore)

theorem declares_of_read (h : read src limit = .ok doc) (hsilent : doc.diagnostics = []) :
    Declares src limit (Cursor.start src.text).skipInsignificant doc.rules := by
  obtain ⟨run, hrun, hread⟩ := run_read src limit
  obtain rfl := Except.ok.inj (hread.symm.trans h)
  exact hrun.declares hsilent

end Document

end IndentedGrammar
