import IndentedGrammar.Proofs.Source.Layout

namespace IndentedGrammar.Cursor

theorem count_take_throughLines {n : Nat} {text : List Char} (h : n ≤ text.count '\n') :
    (text.take (throughLines n text)).count '\n' = n := by
  induction text using lines_induction generalizing n with
  | last line hline =>
    rw [List.count_eq_zero_of_not_mem hline] at h
    obtain rfl := Nat.le_zero.1 h
    simp [throughLines]
  | more line text hline ih =>
    cases n with
    | zero => simp [throughLines]
    | succ n =>
      have hn : n ≤ text.count '\n' := by
        rw [List.count_append, List.count_eq_zero_of_not_mem hline, List.count_cons_self] at h
        omega
      have htake : (line ++ '\n' :: text).take (line.length + 1 + throughLines n text) =
          line ++ '\n' :: text.take (throughLines n text) := by
        rw [Nat.add_assoc, List.take_length_add_append, Nat.add_comm 1, List.take_succ_cons]
      rw [throughLines_line hline, htake, List.count_append, List.count_cons_self, ih hn,
        List.count_eq_zero_of_not_mem hline, Nat.zero_add]

theorem length_splitLines (text : List Char) :
    (splitLines text).length = text.count '\n' + 1 := by
  induction text using lines_induction with
  | last line hline => rw [splitLines_of_not_mem hline, List.count_eq_zero_of_not_mem hline]; rfl
  | more line text hline ih =>
    rw [splitLines_line hline, List.length_cons, ih, List.count_append, List.count_cons_self,
      List.count_eq_zero_of_not_mem hline, Nat.zero_add]

theorem insignificant_le (inComment : Bool) (text : List Char) :
    insignificant inComment text ≤ text.length := by
  induction text generalizing inComment with
  | nil => exact Nat.le_refl 0
  | cons ch text ih =>
    rw [insignificant]
    split
    · exact Nat.succ_le_succ (ih false)
    split
    · exact Nat.succ_le_succ (ih inComment)
    split
    · exact Nat.succ_le_succ (ih true)
    · exact Nat.zero_le _

theorem insignificant_of_findIdx?_none {text : List Char}
    (h : (splitLines text).findIdx? (fun line => !isBlankLine line) = none) :
    insignificant false text = text.length := by
  induction text using lines_induction with
  | last line hline =>
    have hb : isBlankLine line := by simpa [splitLines_of_not_mem hline] using h
    -- a newline behind the line would be passed over as well
    have hmore := insignificant_blankLine hb hline []
    apply Nat.le_antisymm (insignificant_le false line)
    apply Nat.not_lt.1
    intro hlt
    rw [insignificant_append_of_lt hlt] at hmore
    omega
  | more line text hline ih =>
    rw [splitLines_line hline, List.findIdx?_cons] at h
    by_cases hb : isBlankLine line
    · rw [insignificant_blankLine hb hline, ih (by simpa [hb] using h), List.length_append,
        List.length_cons]
      omega
    · simp [hb] at h

variable {src : Source} {c : Cursor}

theorem Reaches.line_le {d : Cursor} (h : c.Reaches d) : c.position.line ≤ d.position.line := by
  obtain ⟨n, rfl⟩ := h
  rw [position_drop, line_afterAll]
  omega

theorem newline_not_mem_of_blanks {blanks : List Char} (h : blanks.all isBlank) : '\n' ∉ blanks := by
  intro hmem
  exact absurd (List.all_eq_true.1 h _ hmem) (by decide)

theorem isBlankLine_blanks {blanks text : List Char} {ch : Char} (h : blanks.all isBlank)
    (hch : ¬ isBlank ch) : isBlankLine (blanks ++ ch :: text) ↔ ch = '#' := by
  rw [isBlankLine, List.dropWhile_append_of_pos (List.all_eq_true.1 h),
    List.dropWhile_cons_of_neg hch]
  simp

theorem line_skipBlanks (c : Cursor) : c.skipBlanks.position.line = c.position.line :=
  line_drop_length (c.rest.takeWhile isBlank) List.takeWhile_append_dropWhile.symm
    (newline_not_mem_of_blanks List.all_takeWhile)

theorem IsIn.line_le_lineCount (h : c.IsIn src) : c.position.line ≤ src.lineCount := by
  obtain ⟨before, ht, hp⟩ := h.before
  rw [Source.lineCount, src.lines_eq, length_splitLines, ht, List.count_append, hp, line_afterAll]
  simp only [Position.start]
  omega

theorem line_toLine (h : c.IsIn src) {n : Nat}
    (hn : src.nextContentLine c.position.line = some n) : (c.toLine n).position.line = n := by
  rw [toLine, position_drop, line_afterAll]
  obtain ⟨i, hi, rfl⟩ := Option.map_eq_some_iff.1 hn
  rw [h.lines_eq] at hi
  have hlines := (List.findIdx?_eq_some_iff_getElem.1 hi).1
  rw [List.length_tail, length_splitLines] at hlines
  have hline := h.one_le_line
  rw [count_take_throughLines (by omega)]
  omega

theorem line_skipInsignificant (h : c.IsIn src) (hc : c.atLineEnd) {n : Nat}
    (hn : src.nextContentLine c.position.line = some n) : c.skipInsignificant.position.line = n := by
  rw [skipInsignificant_eq_toLine h hc hn, line_skipBlanks, line_toLine h hn]

theorem rest_skipInsignificant_of_some (h : c.IsIn src) (hc : c.atLineEnd) {n : Nat}
    (hn : src.nextContentLine c.position.line = some n) : c.skipInsignificant.rest ≠ [] := by
  obtain ⟨text, hrest⟩ := (rest_of_atLineEnd hc).resolve_left (h.rest_ne_nil hn)
  obtain ⟨i, hi, -⟩ := Option.map_eq_some_iff.1 hn
  rw [h.lines_eq, hrest, splitLines_newline, List.tail_cons] at hi
  obtain ⟨hlt, hcontent, -⟩ := List.findIdx?_eq_some_iff_getElem.1 hi
  have hshort := insignificant_lt ⟨_, List.getElem_mem hlt, by simpa using hcontent⟩
  apply rest_drop_ne_nil
  rw [hrest, insignificant, if_pos rfl, List.length_cons]
  exact Nat.succ_lt_succ hshort

theorem rest_skipInsignificant_of_none (h : c.IsIn src) (hc : c.atLineEnd)
    (hn : src.nextContentLine c.position.line = none) : c.skipInsignificant.rest = [] := by
  have hlines := Option.map_eq_none_iff.1 hn
  rw [h.lines_eq] at hlines
  rcases rest_of_atLineEnd hc with hrest | ⟨text, hrest⟩
  · rw [skipInsignificant, rest_drop, hrest, List.drop_nil]
  · rw [hrest, splitLines_newline, List.tail_cons] at hlines
    rw [skipInsignificant, rest_drop, hrest, insignificant, if_pos rfl, List.drop_succ_cons,
      insignificant_of_findIdx?_none hlines, List.drop_length]

theorem indentation_skipInsignificant (h : c.IsIn src) (hc : c.atLineEnd)
    (hne : c.skipInsignificant.rest ≠ []) :
    src.indentation c.skipInsignificant.position.line = aheadIndentation c.rest := by
  cases hn : src.nextContentLine c.position.line with
  | none => exact absurd (rest_skipInsignificant_of_none h hc hn) hne
  | some n => rw [line_skipInsignificant h hc hn, ← h.nextIndentation_eq, Source.nextIndentation, hn]

theorem line_lt_skipInsignificant (h : c.IsIn src) (hc : c.atLineEnd)
    (hne : c.skipInsignificant.rest ≠ []) :
    c.position.line < c.skipInsignificant.position.line := by
  cases hn : src.nextContentLine c.position.line with
  | none => exact absurd (rest_skipInsignificant_of_none h hc hn) hne
  | some n =>
    have hlt := Source.lt_nextContentLine hn
    rwa [line_skipInsignificant h hc hn]

end IndentedGrammar.Cursor
