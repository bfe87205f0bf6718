import IndentedGrammar.Proofs.Document.Alignment
import IndentedGrammar.Proofs.Source.Append

namespace IndentedGrammar

open Cursor

namespace Term

mutual

theorem mapPosition_id : (t : Term) → t.mapPosition id = t
  | ⟨kind, p, text, children⟩ => by
    rw [mapPosition, mapPositionAll_id children]
    rfl

theorem mapPositionAll_id : (ts : List Term) → mapPositionAll id ts = ts
  | [] => rfl
  | t :: ts => by
    rw [mapPositionAll, mapPosition_id t, mapPositionAll_id ts]

end

end Term

namespace Rule

mutual

theorem mapPosition_id : (r : Rule) → r.mapPosition id = r
  | .terminal heading term => by
    rw [mapPosition, Term.mapPosition_id]
    rfl
  | .group heading children => by
    rw [mapPosition, mapPositionAll_id children]
    rfl

theorem mapPositionAll_id : (rs : List Rule) → mapPositionAll id rs = rs
  | [] => rfl
  | r :: rs => by
    rw [mapPositionAll, mapPosition_id r, mapPositionAll_id rs]

end

end Rule

namespace Document

variable {first second whole : Source}

/-- If the second of two texts starts without indentation and no backslash continues the last line
of the first, reading both together is reading one and then the other. -/
theorem read_append (htext : whole.text = first.text ++ second.text)
    (hlines : WholeLines first.text) (hbackslash : ¬ ['\\', '\n'] <:+ first.text)
    (hreturn : ¬ ['\\', '\r', '\n'] <:+ first.text)
    (hsecond : ∀ n, second.nextContentLine 0 = some n → second.indentation n = 0) (limit : Int) :
    ∃ doc₁ doc₂ doc, read first limit = .ok doc₁ ∧ read second limit = .ok doc₂ ∧
      read whole limit = .ok doc ∧
      doc.rules = doc₁.rules ++ doc₂.rules.map (Rule.mapPosition (.behind first.text)) ∧
      doc.diagnostics = doc₁.diagnostics ++ doc₂.diagnostics.map
        (Diagnostic.mapPosition (.behind first.text)) := by
  have hindentation : second.nextIndentation 0 = 0 := by
    rw [Source.nextIndentation]
    split
    · next n hn => exact hsecond n hn
    · rfl
  have hstart : (Cursor.start first.text).extend second.text = Cursor.start whole.text := by
    rw [Cursor.start, extend, ← htext]
    rfl
  have hend : readFrom whole limit ((Cursor.start whole.text).drop whole.text.length) =
      .ok ⟨whole, [], [], [], [], (Cursor.start whole.text).drop whole.text.length⟩ := by
    rw [readFrom, if_pos (by simp [atEnd, Cursor.start])]
  obtain ⟨doc₂, more, hdoc₂, hmore, hrules₂, hdiagnostics₂⟩ :=
    readFrom_aligned (connected_ofSecond htext hlines) rfl limit
      (fun e _ h => h.2.2 ▸ resumes_behind htext hlines h.1) hend
        (resumes_behind htext hlines (.start second))
  obtain ⟨doc₁, doc, hdoc₁, hdoc, hrules, hdiagnostics⟩ :=
    readFrom_aligned (connected_ofFirst htext hlines hindentation hbackslash hreturn) rfl limit
      (fun e _ h => h.2.2.2 ▸ resumes_extend htext hlines hindentation h.1) hmore
      (resumes_extend htext hlines hindentation (.start first))
  rw [hstart] at hdoc
  have hid : doc₁.rules.map (Rule.mapPosition id) = doc₁.rules := by
    rw [← Rule.mapPositionAll_eq_map, Rule.mapPositionAll_id]
  have hid' : doc₁.diagnostics.map (Diagnostic.mapPosition id) = doc₁.diagnostics := List.map_id _
  obtain ⟨d₁, hread₁, hr₁, hd₁⟩ := read_eq hdoc₁
  obtain ⟨d₂, hread₂, hr₂, hd₂⟩ := read_eq hdoc₂
  obtain ⟨d, hread, hr, hd⟩ := read_eq hdoc
  refine ⟨d₁, d₂, d, hread₁, hread₂, hread, ?_, ?_⟩
  · rw [hr, hr₁, hr₂, hrules, hrules₂, List.append_nil]
    exact congrArg (· ++ _) hid
  · rw [hd, hd₁, hd₂, hdiagnostics, hdiagnostics₂, List.append_nil]
    exact congrArg (· ++ _) hid'

theorem read_append_misspelled :
    let first := Source.ofText ['a', ':', ' ', ')', '\n'] none
    let second := Source.ofText ['b', ':', ' ', 'c'] none
    let whole := Source.ofText ['a', ':', ' ', ')', '\n', 'b', ':', ' ', 'c'] none
    whole.text = first.text ++ second.text ∧ WholeLines first.text ∧ ¬ ['\\', '\n'] <:+ first.text ∧
      ¬ ['\\', '\r', '\n'] <:+ first.text ∧
      (∀ n, second.nextContentLine 0 = some n → second.indentation n = 0) ∧
      ∃ doc₁ doc₂ doc, read first 1 = .ok doc₁ ∧ read second 1 = .ok doc₂ ∧ read whole 1 = .ok doc ∧
        doc.rules = doc₁.rules ++ doc₂.rules.map (Rule.mapPosition (.behind first.text)) ∧
        doc.diagnostics = doc₁.diagnostics ++ doc₂.diagnostics.map
          (Diagnostic.mapPosition (.behind first.text)) := by
  intro first second whole
  have htext : whole.text = first.text ++ second.text := rfl
  have hlines : WholeLines first.text := .inr rfl
  have hbackslash : ¬ ['\\', '\n'] <:+ first.text := by decide
  have hreturn : ¬ ['\\', '\r', '\n'] <:+ first.text := by decide
  have hsecond : ∀ n, second.nextContentLine 0 = some n → second.indentation n = 0 := by
    intro n hn
    obtain rfl : 1 = n := Option.some.inj hn
    rfl
  exact ⟨htext, hlines, hbackslash, hreturn, hsecond,
    read_append htext hlines hbackslash hreturn hsecond 1⟩

end Document

end IndentedGrammar
