import IndentedGrammar.Proofs.Document.Alignment
import IndentedGrammar.Proofs.Source.Returns

namespace IndentedGrammar.Document

open Cursor

variable {src whole : Source}

/-- A source without carriage returns and the same source with one in front of every newline are read
alike, each rule, term and diagnostic at the same character. -/
theorem read_returns (htext : '\r' ∉ src.text) (hwhole : whole.text = withReturns src.text)
    (limit : Int) :
    ∃ doc doc', read src limit = .ok doc ∧ read whole limit = .ok doc' ∧
      doc'.rules = doc.rules.map (Rule.mapPosition (.amongReturns src.text)) ∧
      doc'.diagnostics = doc.diagnostics.map
        (Diagnostic.mapPosition (.amongReturns src.text)) ∧
      ∀ c : Cursor, c.IsIn src → ∃ c' : Cursor, c'.IsIn whole ∧
        c'.position = c.position.amongReturns src.text ∧ c'.current? = c.current? ∧
        c'.next.rest = withReturns c.next.rest := by
  have hstart : (Cursor.start src.text).returned = Cursor.start whole.text :=
    Cursor.ext hwhole.symm rfl
  have hfirst := settled_skipInsignificant htext hwhole (.start src)
  rw [hstart] at hfirst
  obtain ⟨doc, doc', hdoc, hdoc', hrules, hdiagnostics⟩ :=
    read_aligned (connected_ofReturns htext hwhole) rfl limit
      (fun _ _ h => settled_endsReturned htext hwhole h) hfirst
  exact ⟨doc, doc', hdoc, hdoc', hrules, hdiagnostics, fun c hc => exists_amongReturns hwhole hc⟩

theorem read_returns_continued :
    let src := Source.ofText ['a', ':', ' ', '\\', '\n', 'b', '\n', 'c', ':', ' ', '"', '\\', '\n'] none
    let whole := Source.ofText
      ['a', ':', ' ', '\\', '\r', '\n', 'b', '\r', '\n', 'c', ':', ' ', '"', '\\', '\r', '\n'] none
    '\r' ∉ src.text ∧ whole.text = withReturns src.text ∧
      ∃ doc doc', read src 1 = .ok doc ∧ read whole 1 = .ok doc' ∧
        doc'.rules = doc.rules.map (Rule.mapPosition (.amongReturns src.text)) ∧
        doc'.diagnostics = doc.diagnostics.map
          (Diagnostic.mapPosition (.amongReturns src.text)) ∧
        ∀ c : Cursor, c.IsIn src → ∃ c' : Cursor, c'.IsIn whole ∧
          c'.position = c.position.amongReturns src.text ∧ c'.current? = c.current? ∧
          c'.next.rest = withReturns c.next.rest := by
  intro src whole
  have htext : '\r' ∉ src.text := by decide
  have hwhole : whole.text = withReturns src.text := by decide
  exact ⟨htext, hwhole, read_returns htext hwhole 1⟩

end IndentedGrammar.Document
