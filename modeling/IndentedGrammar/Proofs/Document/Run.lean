import IndentedGrammar.Proofs.Document.Alignment

namespace IndentedGrammar.Document

open Cursor

variable (src : Source) (limit : Int)

/-- What is read from a cursor on that has nothing insignificant before it. -/
inductive Run : Cursor → Document → Prop
  | ended {c} : c.IsIn src → c.rest = [] → Run c ⟨src, [], [], [], [], c⟩
  | declaration {c first more} : c.IsIn src → ¬ c.atLineEnd →
      (readTopLevel src limit c).result = .ok first →
      Run (readTopLevel src limit c).cursor.skipInsignificant more →
      Run c ⟨src, first.toList ++ more.rules,
        (readTopLevel src limit c).diagnostics ++ more.diagnostics,
        (readTopLevel src limit c).notes ++ more.notes,
        (readTopLevel src limit c).starts ++ more.starts, more.cursor⟩

variable {src limit} {c : Cursor} {doc : Document}

theorem run_readFrom (src : Source) (limit : Int) (hin : c.IsIn src)
    (hend : c.atLineEnd → c.rest = []) :
    ∃ doc, readFrom src limit c = .ok doc ∧ Run src limit c doc := by
  induction hn : c.rest.length using Nat.strongRecOn generalizing c with
  | ind n ih =>
    subst hn
    by_cases hc : c.atLineEnd
    · exact ⟨_, readFrom_of_rest_nil src limit (hend hc), .ended hin (hend hc)⟩
    · obtain ⟨first, hfirst⟩ := (readTopLevel_satisfies src limit c).noFault
      obtain ⟨more, hmore, hrun⟩ := ih _ (length_readTopLevel_lt src limit hc)
        (hin.reaches ((reaches_readTopLevel src limit c).trans (reaches_skipInsignificant _)))
        rest_skipInsignificant_eq_nil rfl
      rw [readFrom_eq src limit hc, hfirst, hmore]
      exact ⟨_, rfl, .declaration hin hc hfirst hrun⟩

theorem run_read (src : Source) (limit : Int) :
    ∃ doc, Run src limit (Cursor.start src.text).skipInsignificant doc ∧
      read src limit = .ok { doc with
        notes := doc.notes ++ [.finished doc.rules.length doc.diagnostics.length src.shownFile] } := by
  obtain ⟨doc, hdoc, hrun⟩ := run_readFrom src limit
    ((IsIn.start src).reaches (reaches_skipInsignificant _)) rest_skipInsignificant_eq_nil
  rw [read, hdoc]
  exact ⟨doc, hrun, rfl⟩

namespace Run

theorem isIn (h : Run src limit c doc) : c.IsIn src := by
  cases h with
  | ended hin => exact hin
  | declaration hin => exact hin

theorem source_eq (h : Run src limit c doc) : doc.source = src := by
  cases h with
  | ended => rfl
  | declaration => rfl

theorem eq_of_rest_nil (h : Run src limit c doc) (hc : c.rest = []) :
    doc = ⟨src, [], [], [], [], c⟩ := by
  cases h with
  | ended => rfl
  | declaration _ hend => exact absurd (atLineEnd_of_rest_nil hc) hend

theorem reaches (h : Run src limit c doc) : c.Reaches doc.cursor := by
  induction h with
  | ended => exact .refl _
  | declaration _ _ _ _ ih =>
    exact (reaches_readTopLevel ..).trans ((reaches_skipInsignificant _).trans ih)

theorem atEnd (h : Run src limit c doc) : doc.cursor.rest = [] := by
  induction h with
  | ended _ hc => exact hc
  | declaration _ _ _ _ ih => exact ih

end Run

end IndentedGrammar.Document
