import IndentedGrammar.Proofs.Document.Alignment
import IndentedGrammar.Proofs.Source.Insertion

namespace IndentedGrammar.Document

open Cursor

variable {src whole : Source} {before after line : List Char}

/-- A blank line or a comment line in front of any line that no backslash joins to the one before it
changes nothing but the places behind it. -/
theorem read_insert (htext : src.text = before ++ after)
    (hwhole : whole.text = before ++ (line ++ '\n' :: after)) (hlines : WholeLines before)
    (hbackslash : ¬ ['\\', '\n'] <:+ before) (hreturn : ¬ ['\\', '\r', '\n'] <:+ before)
    (hline : '\n' ∉ line) (hblank : isBlankLine line) (limit : Int) :
    ∃ doc doc', read src limit = .ok doc ∧ read whole limit = .ok doc' ∧
      doc'.rules = doc.rules.map (Rule.mapPosition (.pushed before.length (line.length + 1))) ∧
      doc'.diagnostics = doc.diagnostics.map
        (Diagnostic.mapPosition (.pushed before.length (line.length + 1))) := by
  let first := Source.ofText before none
  let second := Source.ofText after none
  have htext' : src.text = first.text ++ second.text := htext
  have hwhole' : whole.text = first.text ++ (line ++ '\n' :: second.text) := hwhole
  have hstart : (Cursor.start first.text).extend second.text = .start src.text :=
    Cursor.ext htext.symm rfl
  have hstart' : (Cursor.start first.text).extend (line ++ '\n' :: second.text) =
      .start whole.text := Cursor.ext hwhole.symm rfl
  have hparted : Parted first second line _ _ :=
    parted_skipInsignificant hlines hline hblank (.start first)
  rw [hstart, hstart'] at hparted
  exact read_aligned (connected_ofInserted htext' hwhole' hlines hline hblank hbackslash hreturn) rfl
    limit (fun _ _ h => settled_inserted htext' hwhole' hlines hline hblank
      (h.1.skipInsignificant hlines hline hblank))
    (settled_inserted htext' hwhole' hlines hline hblank hparted)

theorem read_insert_comment :
    let before := ['a', ':', '\n']
    let after := [' ', ' ', 'b', ' ', ')', '\n', 'c', ':', ' ', 'd']
    let line := ['\t', '#', ' ', '"', '\\']
    let src := Source.ofText (before ++ after) none
    let whole := Source.ofText (before ++ (line ++ '\n' :: after)) none
    WholeLines before ∧ ¬ ['\\', '\n'] <:+ before ∧ ¬ ['\\', '\r', '\n'] <:+ before ∧
      '\n' ∉ line ∧ isBlankLine line ∧
      ∃ doc doc', read src 1 = .ok doc ∧ read whole 1 = .ok doc' ∧
        doc'.rules = doc.rules.map (Rule.mapPosition (.pushed before.length (line.length + 1))) ∧
        doc'.diagnostics = doc.diagnostics.map
          (Diagnostic.mapPosition (.pushed before.length (line.length + 1))) := by
  intro before after line src whole
  have hlines : WholeLines before := .inr rfl
  have hbackslash : ¬ ['\\', '\n'] <:+ before := by decide
  have hreturn : ¬ ['\\', '\r', '\n'] <:+ before := by decide
  have hline : '\n' ∉ line := by decide
  have hblank : isBlankLine line := by decide
  exact ⟨hlines, hbackslash, hreturn, hline, hblank,
    read_insert rfl rfl hlines hbackslash hreturn hline hblank 1⟩

end IndentedGrammar.Document
