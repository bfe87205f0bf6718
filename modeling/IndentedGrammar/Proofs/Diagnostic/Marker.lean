import IndentedGrammar.Diagnostic.Basic
import IndentedGrammar.Proofs.Source.Shown

namespace IndentedGrammar

theorem toList_numberedLine (n : Int) (text : String) :
    (numberedLine n text).toList = (numberedLine n "").toList ++ text.toList := by
  simp [numberedLine]

theorem markerLine_eq (n : Int) (i : Nat) :
    markerLine n (i + 1) =
      String.ofList (List.replicate ((numberedLine n "").length + i) ' ') ++ "^^^" := by
  have hwidth : ((numberedLine n "").length + (i + 1 : Int) - 1).toNat =
      (numberedLine n "").length + i := by
    omega
  rw [markerLine, hwidth]

namespace Diagnostic

/-- The diagnostic is shown with the line that it is about and a marker under that. The marker begins
under the character at the place of the diagnostic, or behind the line if that ends there. -/
def PointedOut (src : Source) (d : Diagnostic) (shown : String) : Prop :=
  let line := numberedLine d.line (String.ofList (src.lineText d.line))
  shown = "\n".intercalate [d.format src.file none, line, markerLine d.line d.column] ∧
    ∃ width : Nat, markerLine d.line d.column = String.ofList (List.replicate width ' ') ++ "^^^" ∧
      ((∃ ch, line.toList[width]? = some ch ∧ src.text[d.position.offset]? = some ch) ∨
        line.length ≤ width ∧
          (d.position.offset = src.text.length ∨ src.text[d.position.offset]? = some '\n'))

theorem pointedOut_of_shows {src : Source} {d : Diagnostic} (h : src.Shows d.position) :
    d.PointedOut src (d.format src.file (some (String.ofList (src.lineText d.line)))) := by
  obtain ⟨i, hcolumn, hshown⟩ := h.column
  refine ⟨rfl, (numberedLine d.line "").length + i, ?_, ?_⟩
  · rw [column, hcolumn]
    exact markerLine_eq d.line i
  · rcases hshown with ⟨ch, hline, hchar⟩ | ⟨hlength, hend⟩
    · refine .inl ⟨ch, ?_, hchar⟩
      rw [toList_numberedLine, String.toList_ofList, String.length,
        List.getElem?_append_right (Nat.le_add_right ..), Nat.add_sub_cancel_left]
      exact hline
    · refine .inr ⟨?_, hend⟩
      rw [String.length, toList_numberedLine, String.toList_ofList, List.length_append]
      exact Nat.add_le_add_left hlength _

end Diagnostic

end IndentedGrammar
