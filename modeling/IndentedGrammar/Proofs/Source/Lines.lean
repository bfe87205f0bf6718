import IndentedGrammar.Proofs.Source.Movement

namespace IndentedGrammar

theorem cutAt_cons (mark ch : Char) (text : List Char) :
    cutAt mark (ch :: text) =
      if ch = mark then [] :: cutAt mark text else (cutAt mark text).modifyHead (ch :: ·) := rfl

theorem exists_cutAt (mark : Char) (text : List Char) :
    ∃ piece pieces, cutAt mark text = piece :: pieces := by
  induction text with
  | nil => exact ⟨[], [], rfl⟩
  | cons ch text ih =>
    obtain ⟨piece, pieces, h⟩ := ih
    rw [cutAt_cons, h]
    split
    · exact ⟨_, _, rfl⟩
    · exact ⟨_, _, rfl⟩

theorem cutAt_of_not_mem {mark : Char} {text : List Char} (h : mark ∉ text) :
    cutAt mark text = [text] := by
  induction text with
  | nil => rfl
  | cons ch text ih =>
    simp only [List.mem_cons, not_or] at h
    rw [cutAt_cons, if_neg (Ne.symm h.1), ih h.2]
    rfl

theorem cutAt_append_mark {mark : Char} {piece : List Char} (h : mark ∉ piece) (text : List Char) :
    cutAt mark (piece ++ mark :: text) = piece :: cutAt mark text := by
  induction piece with
  | nil => simp [cutAt_cons]
  | cons ch piece ih =>
    simp only [List.mem_cons, not_or] at h
    rw [List.cons_append, cutAt_cons, if_neg (Ne.symm h.1), ih h.2]
    rfl

theorem not_mem_of_mem_cutAt {mark : Char} {text piece : List Char} (h : piece ∈ cutAt mark text) :
    mark ∉ piece := by
  induction text generalizing piece with
  | nil =>
    obtain rfl : piece = [] := by simpa [cutAt] using h
    exact List.not_mem_nil
  | cons ch text ih =>
    rw [cutAt_cons] at h
    split at h
    · rcases List.mem_cons.1 h with rfl | h
      · exact List.not_mem_nil
      · exact ih h
    next hch =>
      obtain ⟨first, pieces, hcut⟩ := exists_cutAt mark text
      rw [hcut] at h
      rcases List.mem_cons.1 h with rfl | h
      · rw [List.mem_cons, not_or]
        exact ⟨Ne.symm hch, ih (hcut ▸ List.mem_cons_self)⟩
      · exact ih (hcut ▸ List.mem_cons_of_mem first h)

theorem cutAt_intercalate {mark : Char} {pieces : List (List Char)} (hne : pieces ≠ [])
    (h : ∀ piece ∈ pieces, mark ∉ piece) : cutAt mark (List.intercalate [mark] pieces) = pieces := by
  induction pieces with
  | nil => exact absurd rfl hne
  | cons piece pieces ih =>
    have hpiece := h piece List.mem_cons_self
    cases pieces with
    | nil => simpa using cutAt_of_not_mem hpiece
    | cons next pieces =>
      have hrest := ih (List.cons_ne_nil next pieces) fun p hp => h p (List.mem_cons_of_mem piece hp)
      rw [List.intercalate_cons_cons, List.append_assoc, List.singleton_append,
        cutAt_append_mark hpiece, hrest]

theorem intercalate_cutAt (mark : Char) (text : List Char) :
    List.intercalate [mark] (cutAt mark text) = text := by
  induction text with
  | nil => rfl
  | cons ch text ih =>
    obtain ⟨piece, pieces, hcut⟩ := exists_cutAt mark text
    rw [hcut] at ih
    rw [cutAt_cons, hcut]
    split
    · next hch => rw [List.intercalate_cons_cons, ih, hch]; rfl
    · cases pieces with
      | nil => simpa using ih
      | cons next pieces =>
        rw [List.intercalate_cons_cons] at ih
        rw [List.modifyHead_cons, List.intercalate_cons_cons, List.cons_append, List.cons_append, ih]

theorem exists_mem_cutAt {mark ch : Char} {text : List Char} (h : ch ∈ text) (hch : ch ≠ mark) :
    ∃ piece ∈ cutAt mark text, ch ∈ piece := by
  induction text with
  | nil => exact absurd h List.not_mem_nil
  | cons first text ih =>
    rw [cutAt_cons]
    rcases List.mem_cons.1 h with rfl | h
    · obtain ⟨piece, pieces, hcut⟩ := exists_cutAt mark text
      rw [if_neg hch, hcut]
      exact ⟨ch :: piece, List.mem_cons_self, List.mem_cons_self⟩
    · obtain ⟨piece, hpiece, hmem⟩ := ih h
      split
      · exact ⟨piece, List.mem_cons_of_mem _ hpiece, hmem⟩
      · cases hcut : cutAt mark text with
        | nil => exact absurd (hcut ▸ hpiece) List.not_mem_nil
        | cons next pieces =>
          rcases List.mem_cons.1 (hcut ▸ hpiece) with rfl | hpiece
          · exact ⟨first :: piece, List.mem_cons_self, List.mem_cons_of_mem first hmem⟩
          · exact ⟨piece, List.mem_cons_of_mem _ hpiece, hmem⟩

theorem splitLines_of_not_mem {line : List Char} (h : '\n' ∉ line) : splitLines line = [line] :=
  cutAt_of_not_mem h

theorem splitLines_line {line : List Char} (h : '\n' ∉ line) (text : List Char) :
    splitLines (line ++ '\n' :: text) = line :: splitLines text := cutAt_append_mark h text

@[simp] theorem splitLines_nil : splitLines [] = [[]] := rfl

@[simp] theorem splitLines_newline (text : List Char) :
    splitLines ('\n' :: text) = [] :: splitLines text := rfl

theorem newline_not_mem_takeWhile (text : List Char) : '\n' ∉ text.takeWhile (· ≠ '\n') := by
  intro h
  simpa using List.all_eq_true.1 List.all_takeWhile _ h

@[elab_as_elim]
theorem lines_induction {motive : List Char → Prop} (last : ∀ line, '\n' ∉ line → motive line)
    (more : ∀ line text, '\n' ∉ line → motive text → motive (line ++ '\n' :: text))
    (text : List Char) :
    motive text := by
  have hsplit := List.takeWhile_append_dropWhile (p := (· ≠ '\n')) (l := text)
  have hline := newline_not_mem_takeWhile text
  cases hd : text.dropWhile (· ≠ '\n') with
  | nil =>
    rw [hd, List.append_nil] at hsplit
    exact last text (hsplit ▸ hline)
  | cons ch rest =>
    have hch : ch = '\n' := by
      have h := List.head?_dropWhile_not (· ≠ '\n') text
      rw [hd] at h
      simpa using h
    have hlt : rest.length < text.length := by
      rw [← hsplit, hd]
      simp
      omega
    rw [← hsplit, hd, hch]
    exact more _ _ hline (lines_induction last more rest)
termination_by text.length

theorem indentWidth_of_ne {ch : Char} (hspace : ch ≠ ' ') (htab : ch ≠ '\t') (line : List Char) :
    indentWidth (ch :: line) = 0 := by
  rw [indentWidth]
  · exact fun more h => hspace (List.cons.inj h).1
  · exact fun more h => htab (List.cons.inj h).1

theorem exists_returns (line : List Char) :
    ∃ returns, line = stripReturns line ++ returns ∧ ∀ ch ∈ returns, ch = '\r' := by
  refine ⟨(line.reverse.takeWhile (· = '\r')).reverse, ?_, ?_⟩
  · rw [stripReturns, ← List.reverse_append, List.takeWhile_append_dropWhile, List.reverse_reverse]
  · intro ch hch
    simpa using List.all_eq_true.1 List.all_takeWhile ch (List.mem_reverse.1 hch)

theorem length_stripReturns_le (line : List Char) : (stripReturns line).length ≤ line.length := by
  obtain ⟨returns, hline, -⟩ := exists_returns line
  have hlength := congrArg List.length hline
  rw [List.length_append] at hlength
  omega

theorem getElem?_stripReturns {text : List Char} {i : Nat} {ch : Char} (h : text[i]? = some ch)
    (hr : ch ≠ '\r') : (stripReturns text)[i]? = some ch := by
  obtain ⟨returns, htext, hreturns⟩ := exists_returns text
  rw [htext, List.getElem?_append] at h
  split at h
  · exact h
  · exact absurd (hreturns ch (List.mem_of_getElem? h)) hr

theorem newline_not_mem_stripReturns {line : List Char} (h : '\n' ∉ line) :
    '\n' ∉ stripReturns line := by
  obtain ⟨returns, hline, -⟩ := exists_returns line
  rw [hline, List.mem_append, not_or] at h
  exact h.1

def lastLine : List Char → List Char
  | [] => []
  | ch :: text => if '\n' ∈ ch :: text then lastLine text else ch :: text

theorem lastLine_of_not_mem {text : List Char} (h : '\n' ∉ text) : lastLine text = text := by
  cases text with
  | nil => rfl
  | cons ch text => rw [lastLine, if_neg h]

theorem lastLine_append_newline (text more : List Char) :
    lastLine (text ++ '\n' :: more) = lastLine more := by
  induction text with
  | nil => simp [lastLine]
  | cons ch text ih => simpa [lastLine] using ih

theorem lastLine_append_of_not_mem {more : List Char} (h : '\n' ∉ more) (text : List Char) :
    lastLine (text ++ more) = lastLine text ++ more := by
  induction text with
  | nil => exact lastLine_of_not_mem h
  | cons ch text ih =>
    have hmem : '\n' ∈ ch :: (text ++ more) ↔ '\n' ∈ ch :: text := by simp [h]
    rw [List.cons_append, lastLine, lastLine, ih]
    simp only [hmem]
    split
    · rfl
    · rfl

theorem getElem?_splitLines_append (before rest : List Char) :
    (splitLines (before ++ rest))[before.count '\n']? =
      some (lastLine before ++ rest.takeWhile (· ≠ '\n')) := by
  induction before with
  | nil =>
    -- nothing stands before: the line ends where `rest` has its first newline
    induction rest with
    | nil => rfl
    | cons ch rest ih =>
      by_cases hch : ch = '\n'
      · simp [splitLines, cutAt_cons, hch, lastLine]
      · obtain ⟨piece, pieces, h⟩ := exists_cutAt '\n' rest
        simp_all [splitLines, cutAt_cons, lastLine]
  | cons ch before ih =>
    by_cases hch : ch = '\n'
    · simpa [splitLines, cutAt_cons, hch, lastLine] using ih
    · obtain ⟨piece, pieces, h⟩ := exists_cutAt '\n' (before ++ rest)
      by_cases hmem : '\n' ∈ before
      · obtain ⟨n, hn⟩ :=
          Nat.exists_eq_add_one_of_ne_zero (Nat.ne_of_gt (List.count_pos_iff.2 hmem))
        simp_all [splitLines, cutAt_cons, lastLine]
      · simp_all [splitLines, cutAt_cons, lastLine, lastLine_of_not_mem,
          List.count_eq_zero_of_not_mem, Ne.symm hch]

theorem exists_splitLines (text : List Char) :
    ∃ lines, splitLines text = text.takeWhile (· ≠ '\n') :: lines := by
  obtain ⟨line, lines, h⟩ := exists_cutAt '\n' text
  have hline := getElem?_splitLines_append [] text
  rw [List.nil_append, splitLines, h] at hline
  obtain rfl : line = text.takeWhile (· ≠ '\n') := by simpa [lastLine] using hline
  exact ⟨lines, h⟩

theorem drop_splitLines_append (before rest : List Char) :
    (splitLines (before ++ rest)).drop (before.count '\n' + 1) = (splitLines rest).tail := by
  induction before with
  | nil => simp
  | cons ch before ih =>
    by_cases hch : ch = '\n'
    · simpa [splitLines, cutAt_cons, hch] using ih
    · obtain ⟨piece, pieces, h⟩ := exists_cutAt '\n' (before ++ rest)
      simp_all [splitLines, cutAt_cons]

theorem splitLines_append_newline (text more : List Char) :
    splitLines (text ++ '\n' :: more) = splitLines text ++ splitLines more := by
  induction text with
  | nil => rfl
  | cons ch text ih =>
    by_cases hch : ch = '\n'
    · simpa [splitLines, cutAt_cons, hch] using ih
    · obtain ⟨piece, pieces, h⟩ := exists_cutAt '\n' text
      simp_all [splitLines, cutAt_cons]

def contentIndentation : List (List Char) → Nat
  | [] => 0
  | line :: lines => if isBlankLine line then contentIndentation lines else indentWidth line

theorem exists_of_contentIndentation_pos {lines : List (List Char)}
    (h : 0 < contentIndentation lines) : ∃ line ∈ lines, ¬ isBlankLine line := by
  induction lines with
  | nil => exact absurd h (Nat.lt_irrefl 0)
  | cons line lines ih =>
    rw [contentIndentation] at h
    split at h
    · obtain ⟨content, hmem, hcontent⟩ := ih h
      exact ⟨content, List.mem_cons_of_mem line hmem, hcontent⟩
    · next hb => exact ⟨line, List.mem_cons_self, hb⟩

def aheadIndentation (rest : List Char) : Nat := contentIndentation (splitLines rest).tail

theorem contentIndentation_append_congr {lines more more' : List (List Char)}
    (h : contentIndentation more' = contentIndentation more) :
    contentIndentation (lines ++ more') = contentIndentation (lines ++ more) := by
  induction lines with
  | nil => exact h
  | cons line lines ih =>
    rw [List.cons_append, List.cons_append, contentIndentation, contentIndentation, ih]

theorem aheadIndentation_append_congr {rest more more' : List Char}
    (hrest : rest.getLast? = some '\n')
    (h : contentIndentation (splitLines more') = contentIndentation (splitLines more)) :
    aheadIndentation (rest ++ more') = aheadIndentation (rest ++ more) := by
  obtain ⟨text, rfl⟩ := List.getLast?_eq_some_iff.1 hrest
  obtain ⟨line, lines, hlines⟩ := exists_cutAt '\n' text
  have hsplit (more : List Char) : (splitLines (text ++ '\n' :: more)).tail =
      lines ++ splitLines more := by
    rw [splitLines_append_newline, splitLines, hlines]
    rfl
  rw [aheadIndentation, aheadIndentation, List.append_assoc, List.append_assoc,
    List.singleton_append, List.singleton_append, hsplit, hsplit]
  exact contentIndentation_append_congr h

theorem aheadIndentation_append {rest more : List Char} (hrest : rest.getLast? = some '\n')
    (hmore : contentIndentation (splitLines more) = 0) :
    aheadIndentation (rest ++ more) = aheadIndentation rest := by
  have h : aheadIndentation (rest ++ more) = aheadIndentation (rest ++ []) :=
    aheadIndentation_append_congr hrest hmore
  rwa [List.append_nil] at h

theorem line_afterAll (p : Position) (text : List Char) :
    (p.afterAll text).line = p.line + text.count '\n' := by
  induction text generalizing p with
  | nil => simp
  | cons ch text ih =>
    rw [Position.afterAll_cons, ih, Position.after, List.count_cons]
    split <;> simp_all
    omega

theorem Cursor.line_drop_length {c : Cursor} (text : List Char) {more : List Char}
    (hc : c.rest = text ++ more) (h : '\n' ∉ text) :
    (c.drop text.length).position.line = c.position.line := by
  rw [position_drop, hc, List.take_left, line_afterAll, List.count_eq_zero_of_not_mem h]
  exact Int.add_zero _

theorem Cursor.line_skipLine (c : Cursor) : c.skipLine.position.line = c.position.line :=
  line_drop_length (c.rest.takeWhile (· ≠ '\n')) List.takeWhile_append_dropWhile.symm
    (newline_not_mem_takeWhile c.rest)

theorem column_afterAll (p : Position) (text : List Char) :
    (p.afterAll text).column = (if '\n' ∈ text then 1 else p.column) + (lastLine text).length := by
  induction text generalizing p with
  | nil => simp [lastLine]
  | cons ch text ih =>
    rw [Position.afterAll_cons, ih, lastLine]
    by_cases hmem : '\n' ∈ text
    · simp [hmem]
    · by_cases hch : ch = '\n'
      · simp [hmem, hch, Position.after]
      · simp [hmem, hch, Ne.symm hch, Position.after, lastLine_of_not_mem hmem]
        omega

theorem column_start_afterAll (text : List Char) :
    (Position.start.afterAll text).column = (lastLine text).length + 1 := by
  rw [column_afterAll]
  simp only [Position.start, ite_self]
  exact Int.add_comm ..

theorem column_afterAll_of_not_mem (p : Position) {text : List Char} (h : '\n' ∉ text) :
    (p.afterAll text).column = p.column + text.length := by
  rw [column_afterAll, if_neg h, lastLine_of_not_mem h]

namespace Cursor.IsIn

variable {src : Source} {c : Cursor}

theorem one_le_line (h : c.IsIn src) : 1 ≤ c.position.line := by
  obtain ⟨before, -, hp⟩ := h.before
  rw [hp, line_afterAll]
  simp only [Position.start]
  omega

theorem line_eq (src : Source) (c : Cursor) (before : List Char) (ht : src.text = before ++ c.rest)
    (hp : c.position = Position.start.afterAll before) :
    src.line c.position.line = lastLine before ++ c.rest.takeWhile (· ≠ '\n') := by
  have hn : ¬ (Position.start.line + (before.count '\n' : Int) < 1) := by
    simp only [Position.start]
    omega
  have hi : (Position.start.line + (before.count '\n' : Int) - 1).toNat = before.count '\n' := by
    simp only [Position.start]
    omega
  rw [Source.line, hp, line_afterAll, if_neg hn, hi, src.lines_eq, ht, getElem?_splitLines_append]
  rfl

theorem lines_eq (h : c.IsIn src) :
    src.lines.drop c.position.line.toNat = (splitLines c.rest).tail := by
  obtain ⟨before, ht, hp⟩ := h.before
  have hi : (Position.start.line + (before.count '\n' : Int)).toNat = before.count '\n' + 1 := by
    simp only [Position.start]
    omega
  rw [hp, line_afterAll, hi, src.lines_eq, ht, drop_splitLines_append]

end Cursor.IsIn

namespace Source

variable (src : Source)

theorem line_add_one (n i : Nat) : src.line (i + n + 1 : Nat) = (src.lines.drop n)[i]?.getD [] := by
  have hi : (((i + n + 1 : Nat) : Int) - 1).toNat = n + i := by omega
  rw [line, if_neg (by omega), hi, List.getElem?_drop]

theorem contentIndentation_of_findIdx? {lines : List (List Char)} {i : Nat}
    (h : lines.findIdx? (fun line => !isBlankLine line) = some i) :
    contentIndentation lines = indentWidth (lines[i]?.getD []) := by
  induction lines generalizing i with
  | nil => simp at h
  | cons line lines ih =>
    rw [List.findIdx?_cons] at h
    by_cases hb : isBlankLine line
    · obtain ⟨j, hj, rfl⟩ := Option.map_eq_some_iff.1 (by simpa [hb] using h)
      simpa [contentIndentation, hb] using ih hj
    · obtain rfl : 0 = i := by simpa [hb] using h
      simp [contentIndentation, hb]

theorem contentIndentation_of_findIdx?_none {lines : List (List Char)}
    (h : lines.findIdx? (fun line => !isBlankLine line) = none) : contentIndentation lines = 0 := by
  induction lines with
  | nil => rfl
  | cons line lines ih =>
    rw [List.findIdx?_eq_none_iff] at h ih
    simp_all [contentIndentation]

theorem nextIndentation_eq_contentIndentation (n : Int) :
    src.nextIndentation n = contentIndentation (src.lines.drop n.toNat) := by
  rw [nextIndentation, nextContentLine]
  cases h : (src.lines.drop n.toNat).findIdx? (fun line => !isBlankLine line) with
  | none => rw [contentIndentation_of_findIdx?_none h]; rfl
  | some i =>
    rw [contentIndentation_of_findIdx? h]
    exact congrArg indentWidth (src.line_add_one n.toNat i)

end Source

theorem Cursor.IsIn.nextIndentation_eq {src : Source} {c : Cursor} (h : c.IsIn src) :
    src.nextIndentation c.position.line = aheadIndentation c.rest := by
  rw [src.nextIndentation_eq_contentIndentation, h.lines_eq, aheadIndentation]

end IndentedGrammar
