import IndentedGrammar.Diagnostic.Context
import IndentedGrammar.Proofs.Source.Lines
import Mathlib.Data.Int.Range

namespace IndentedGrammar

section

variable {first last : Int}

theorem range_eq_nil (h : last ≤ first) : Int.range first last = [] := by
  rw [Int.range, Int.toNat_of_nonpos (by omega)]
  rfl

theorem range_eq_cons (h : first < last) :
    Int.range first last = first :: Int.range (first + 1) last := by
  have hcount : (last - first).toNat = (last - (first + 1)).toNat + 1 := by omega
  rw [Int.range, Int.range, hcount, List.range_succ_eq_map, List.map_cons, List.map_map]
  congr 1
  · exact Int.add_zero first
  · apply List.map_congr_left
    intro i _
    simp only [Function.comp_apply]
    omega

end

namespace Source

variable (src : Source) {n context : Int}

theorem newline_not_mem_line (n : Int) : '\n' ∉ src.line n := by
  rw [line]
  split
  · exact List.not_mem_nil
  · cases hline : src.lines[(n - 1).toNat]? with
    | none => exact List.not_mem_nil
    | some line =>
      have hmem := List.mem_of_getElem? hline
      rw [src.lines_eq] at hmem
      exact not_mem_of_mem_cutAt hmem

def numberedLines (first last : Int) : List String :=
  (Int.range first (last + 1)).map fun n => numberedLine n (String.ofList (src.lineText n))

theorem numberedLines_eq_nil {first last : Int} (h : last < first) :
    src.numberedLines first last = [] := by
  rw [numberedLines, range_eq_nil h]
  rfl

theorem numberedLines_eq_cons {first last : Int} (h : first ≤ last) :
    src.numberedLines first last =
      numberedLine first (String.ofList (src.lineText first)) ::
        src.numberedLines (first + 1) last := by
  rw [numberedLines, range_eq_cons (Int.lt_add_one_of_le h)]
  rfl

theorem snippet_eq (n context : Int) :
    src.snippet n context = List.intercalate ['\n']
      ((Int.range (max 1 (n - context)) (min (src.lineCount : Int) (n + context) + 1)).map
        src.lineText) := by
  rw [snippet, Int.range, List.map_map]
  rfl

theorem splitLines_snippet (h : src.snippet n context ≠ []) :
    splitLines (src.snippet n context) =
      (Int.range (max 1 (n - context)) (min (src.lineCount : Int) (n + context) + 1)).map
        src.lineText := by
  rw [snippet_eq] at h ⊢
  apply cutAt_intercalate
  · intro hnil
    rw [hnil] at h
    exact h rfl
  · intro piece hpiece
    obtain ⟨k, -, rfl⟩ := List.mem_map.1 hpiece
    exact newline_not_mem_stripReturns (src.newline_not_mem_line k)

end Source

namespace Context

variable (src : Source) {line column first last : Int}

theorem numberedFrom_of_not_shown (h : line < first ∨ last < line) :
    numberedFrom line column first ((Int.range first (last + 1)).map src.lineText) =
      src.numberedLines first last := by
  induction hn : (last + 1 - first).toNat generalizing first with
  | zero =>
    rw [src.numberedLines_eq_nil (by omega), range_eq_nil (by omega)]
    rfl
  | succ n ih =>
    have hne : first ≠ line := by omega
    rw [src.numberedLines_eq_cons (by omega), range_eq_cons (by omega), List.map_cons, numberedFrom,
      if_neg hne, ih (by omega) (by omega)]

theorem numberedFrom_of_shown (hfirst : first ≤ line) (hlast : line ≤ last) :
    numberedFrom line column first ((Int.range first (last + 1)).map src.lineText) =
      src.numberedLines first line ++ markerLine line column :: src.numberedLines (line + 1) last := by
  induction hn : (line - first).toNat generalizing first with
  | zero =>
    obtain rfl : first = line := by omega
    have hbehind : numberedFrom first column (first + 1)
        ((Int.range (first + 1) (last + 1)).map src.lineText) =
          src.numberedLines (first + 1) last :=
      numberedFrom_of_not_shown src (.inl (Int.lt_succ first))
    rw [range_eq_cons (Int.lt_add_one_of_le hlast), List.map_cons, numberedFrom, if_pos rfl, hbehind,
      src.numberedLines_eq_cons (Int.le_refl first), src.numberedLines_eq_nil (Int.lt_succ first)]
    rfl
  | succ n ih =>
    have hlt : first < line := by omega
    rw [range_eq_cons (by omega), List.map_cons, numberedFrom, if_neg (Int.ne_of_lt hlt),
      ih (by omega) (by omega), src.numberedLines_eq_cons hfirst]
    rfl

theorem format_eq (file : Option String) {text : List Char} (h : text ≠ []) :
    format ⟨file, line, column, some (String.ofList text)⟩ =
      "\n".intercalate
        ((file.getD "<string>" ++ ":" ++ toString line ++ ":" ++ toString column) ::
          numberedFrom line column (max 1 (line - 2)) (splitLines text)) := by
  rw [format]
  split
  · next hsnippet => exact absurd hsnippet (by simp)
  · next hsnippet =>
    have hempty := congrArg String.toList (Option.some.inj hsnippet)
    rw [String.toList_ofList] at hempty
    exact absurd hempty h
  · next hsnippet => rw [← Option.some.inj hsnippet, String.toList_ofList]

/-- Where the snippet is not empty, the lines of the source follow the place of the error, from two
lines before it to two lines behind it as far as there are such. Each has its number, and below line
`n` is the marker, if that line is among them. -/
theorem format_contextAt (src : Source) (c : Cursor) :
    let n := c.position.line
    let first := max 1 (n - 2)
    let last := min (src.lineCount : Int) (n + 2)
    let place := src.shownFile ++ ":" ++ toString n ++ ":" ++ toString c.position.column
    (src.contextAt c).format =
      if src.snippet n 2 = [] then place
      else if first ≤ n ∧ n ≤ last then
        "\n".intercalate (place :: (src.numberedLines first n ++
          markerLine n c.position.column :: src.numberedLines (n + 1) last))
      else "\n".intercalate (place :: src.numberedLines first last) := by
  intro n first last place
  by_cases hempty : src.snippet n 2 = []
  · rw [if_pos hempty, Source.contextAt, hempty]
    rfl
  rw [if_neg hempty, Source.contextAt, format_eq src.file hempty, src.splitLines_snippet hempty]
  split
  · next hshown => rw [numberedFrom_of_shown src hshown.1 hshown.2]; rfl
  · next hshown => rw [numberedFrom_of_not_shown src (by omega)]; rfl

end Context

end IndentedGrammar
