import IndentedGrammar.Proofs.Document.Alignment
import IndentedGrammar.Proofs.Source.Tabs

namespace IndentedGrammar.Document

open Cursor

/-- A source and the same source with a tab's width of spaces for every tab in the lead of a line are
read alike, each rule, term and diagnostic at the same character. -/
theorem read_withoutTabs (src : Source) (file : Option String) (limit : Int) :
    let whole := Source.ofText (withoutTabs true src.text) file
    ∃ doc doc', read src limit = .ok doc ∧ read whole limit = .ok doc' ∧
      doc'.rules = doc.rules.map (Rule.mapPosition (.amongSpaces src.text)) ∧
      doc'.diagnostics = doc.diagnostics.map (Diagnostic.mapPosition (.amongSpaces src.text)) ∧
      ∀ c : Cursor, c.IsIn src → ∃ c' : Cursor, c'.IsIn whole ∧
        c'.position = c.position.amongSpaces src.text ∧
        ∃ lead, c'.rest = withoutTabs lead c.rest := by
  intro whole
  have hwhole : whole.text = withoutTabs true src.text := rfl
  have hfirst := settled_skipInsignificant_amongSpaces hwhole (.start src)
  rw [amongSpaces_start hwhole] at hfirst
  have hends (e e' : Cursor) (h : (Alignment.ofTabs hwhole).Ends e e') :
      (Alignment.ofTabs hwhole).Settled e.skipInsignificant e'.skipInsignificant := by
    rw [h.1.eq_amongSpaces]
    exact settled_skipInsignificant_amongSpaces hwhole h.1.isIn
  obtain ⟨doc, doc', hdoc, hdoc', hrules, hdiagnostics⟩ :=
    read_aligned (connected_ofTabs hwhole) rfl limit hends hfirst
  refine ⟨doc, doc', hdoc, hdoc', hrules, hdiagnostics, ?_⟩
  intro c hc
  exact ⟨_, isIn_amongSpaces hwhole c, hc.position_amongSpaces, hc.exists_lead⟩

example : withoutTabs true ['a', '.', '\n', ' ', '\t', 'b', '\t', '#', '\n', '\t', '\r', '\t'] =
    ['a', '.', '\n', ' ', ' ', ' ', ' ', ' ', 'b', '\t', '#', '\n', ' ', ' ', ' ', ' ', '\r', '\t'] := by
  decide

end IndentedGrammar.Document
