import IndentedGrammar.Proofs.Source.Lines

/-! Skipping over whole lines. What `skipInsignificant` passes over is the lines up to the next
content line together with its indentation, so a block is skipped by going from one content line to
the next, and only the text that is left decides how far. -/

namespace IndentedGrammar.Cursor

theorem insignificant_comment {text : List Char} (h : '\n' ∉ text) (more : List Char) :
    insignificant true (text ++ '\n' :: more) = text.length + 1 + insignificant false more := by
  induction text with
  | nil => simp [insignificant]; omega
  | cons ch text ih =>
    simp only [List.mem_cons, not_or] at h
    simp [insignificant, Ne.symm h.1, ih h.2]
    omega

theorem insignificant_blankLine {line : List Char} (hb : isBlankLine line) (h : '\n' ∉ line)
    (more : List Char) :
    insignificant false (line ++ '\n' :: more) = line.length + 1 + insignificant false more := by
  induction line with
  | nil => simp [insignificant]; omega
  | cons ch line ih =>
    simp only [List.mem_cons, not_or] at h
    by_cases hch : isBlank ch
    · have hl : isBlankLine line := by simpa [isBlankLine, hch] using hb
      simp [insignificant, Ne.symm h.1, hch, ih hl h.2]
      omega
    · have hc : ch = '#' := by simpa [isBlankLine, hch] using hb
      have hcomment := insignificant_comment h.2 more
      simp [insignificant, hc, isBlank, hcomment]
      omega

theorem insignificant_contentLine {line : List Char} (hb : ¬ isBlankLine line) (h : '\n' ∉ line)
    (more : List Char) :
    insignificant false (line ++ more) = ((line ++ more).takeWhile isBlank).length := by
  induction line with
  | nil => simp [isBlankLine] at hb
  | cons ch line ih =>
    simp only [List.mem_cons, not_or] at h
    by_cases hch : isBlank ch
    · have hl : ¬ isBlankLine line := by simpa [isBlankLine, hch] using hb
      simp [insignificant, Ne.symm h.1, hch, ih hl h.2]
    · have hc : ch ≠ '#' := by simpa [isBlankLine, hch] using hb
      simp [insignificant, Ne.symm h.1, hch, hc]

theorem throughLines_line {line : List Char} (h : '\n' ∉ line) (n : Nat) (more : List Char) :
    throughLines (n + 1) (line ++ '\n' :: more) = line.length + 1 + throughLines n more := by
  induction line with
  | nil => simp [throughLines]; omega
  | cons ch line ih =>
    simp only [List.mem_cons, not_or] at h
    simp [throughLines, Ne.symm h.1, ih h.2]
    omega

theorem insignificant_eq_throughLines {text : List Char} {n : Nat}
    (h : (splitLines text).findIdx? (fun line => !isBlankLine line) = some n) :
    insignificant false text =
      throughLines n text + ((text.drop (throughLines n text)).takeWhile isBlank).length := by
  induction text using lines_induction generalizing n with
  | last line hline =>
    rw [splitLines_of_not_mem hline, List.findIdx?_cons] at h
    by_cases hb : isBlankLine line
    · simp [hb] at h
    · obtain rfl : 0 = n := by simpa [hb] using h
      simpa [throughLines] using insignificant_contentLine hb hline []
  | more line text hline ih =>
    rw [splitLines_line hline, List.findIdx?_cons] at h
    by_cases hb : isBlankLine line
    · obtain ⟨m, hm, rfl⟩ := Option.map_eq_some_iff.1 (by simpa [hb] using h)
      rw [insignificant_blankLine hb hline, throughLines_line hline, ih hm]
      have hdrop : (line ++ '\n' :: text).drop (line.length + 1 + throughLines m text) =
          text.drop (throughLines m text) := by
        rw [Nat.add_assoc, Nat.add_comm 1, List.drop_length_add_append, List.drop_succ_cons]
      rw [hdrop]
      omega
    · obtain rfl : 0 = n := by simpa [hb] using h
      simpa [throughLines] using insignificant_contentLine hb hline ('\n' :: text)

theorem skipLine_skipBlanks (c : Cursor) : c.skipBlanks.skipLine = c.skipLine := by
  obtain ⟨rest, p⟩ := c
  simp only [skipBlanks, skipLine, drop_drop, rest_drop]
  congr 1
  induction rest generalizing p with
  | nil => rfl
  | cons ch rest ih =>
    by_cases hch : isBlank ch
    · have hn : ch ≠ '\n' := fun e => by simp [e, isBlank] at hch
      simp [hch, hn] at ih ⊢
      have := ih p
      omega
    · simp [hch]

theorem insignificant_append_of_lt {inComment : Bool} {text : List Char}
    (h : insignificant inComment text < text.length) (more : List Char) :
    insignificant inComment (text ++ more) = insignificant inComment text := by
  induction text generalizing inComment with
  | nil => exact absurd h (Nat.not_lt_zero _)
  | cons ch text ih =>
    rw [insignificant, List.length_cons] at h
    rw [List.cons_append, insignificant, insignificant]
    split
    · next hn =>
      rw [if_pos hn] at h
      rw [ih (Nat.lt_of_succ_lt_succ h)]
    · next hn =>
      rw [if_neg hn] at h
      split
      · next hb =>
        rw [if_pos hb] at h
        rw [ih (Nat.lt_of_succ_lt_succ h)]
      · next hb =>
        rw [if_neg hb] at h
        split
        · next hc =>
          rw [if_pos hc] at h
          rw [ih (Nat.lt_of_succ_lt_succ h)]
        · rfl

theorem insignificant_append {inComment : Bool} {text : List Char}
    (h : ¬ insignificant inComment text < text.length)
    (hline : text.getLast? = some '\n' ∨ text = [] ∧ inComment = false) (more : List Char) :
    insignificant inComment (text ++ more) = text.length + insignificant false more := by
  induction text generalizing inComment with
  | nil =>
    have hfalse : inComment = false := by simpa using hline
    simp [hfalse]
  | cons ch text ih =>
    have hlast : text = [] ∧ ch = '\n' ∨ text.getLast? = some '\n' := by
      cases text with
      | nil => simpa using hline
      | cons => simpa using hline
    have hend (hn : ch ≠ '\n') : text.getLast? = some '\n' := hlast.resolve_left fun h => hn h.2
    rw [insignificant, List.length_cons] at h
    rw [List.cons_append, insignificant, List.length_cons, Nat.add_right_comm]
    split
    · next hn =>
      rw [if_pos hn] at h
      rw [ih (by omega) (hlast.symm.imp_right fun h => ⟨h.1, rfl⟩)]
    · next hn =>
      rw [if_neg hn] at h
      split
      · next hb =>
        rw [if_pos hb] at h
        rw [ih (by omega) (.inl (hend hn))]
      · next hb =>
        rw [if_neg hb] at h
        split
        · next hc =>
          rw [if_pos hc] at h
          rw [ih (by omega) (.inl (hend hn))]
        · next hc =>
          rw [if_neg hc] at h
          omega

theorem length_takeWhile_isBlank_lt {text : List Char} {ch : Char} (h : ch ∈ text)
    (hb : ¬ isBlank ch) :
    (text.takeWhile isBlank).length < text.length := by
  have hprefix := List.takeWhile_prefix isBlank (l := text)
  apply Nat.lt_of_le_of_ne hprefix.length_le
  intro hlength
  rw [← hprefix.eq_of_length hlength] at h
  exact hb (List.all_eq_true.1 List.all_takeWhile ch h)

theorem length_takeWhile_isBlank_lt_of_content {line : List Char} (hb : ¬ isBlankLine line)
    (more : List Char) : ((line ++ more).takeWhile isBlank).length < (line ++ more).length := by
  cases hd : (line.dropWhile isBlank).head? with
  | none => simp [isBlankLine, hd] at hb
  | some ch =>
    have hch := List.head?_dropWhile_not isBlank line
    rw [hd] at hch
    have hmem := (List.dropWhile_suffix isBlank).mem (List.mem_of_mem_head? hd)
    apply length_takeWhile_isBlank_lt (List.mem_append_left more hmem)
    simpa using hch

theorem insignificant_lt {text : List Char} (h : ∃ line ∈ splitLines text, ¬ isBlankLine line) :
    insignificant false text < text.length := by
  induction text using lines_induction with
  | last line hline =>
    obtain ⟨content, hmem, hb⟩ := h
    rw [splitLines_of_not_mem hline] at hmem
    obtain rfl := List.mem_singleton.1 hmem
    have hfirst := insignificant_contentLine hb hline []
    have hlt := length_takeWhile_isBlank_lt_of_content hb []
    rw [← hfirst, List.append_nil] at hlt
    exact hlt
  | more line text hline ih =>
    by_cases hb : isBlankLine line
    · obtain ⟨content, hmem, hcontent⟩ := h
      rw [splitLines_line hline] at hmem
      have hne : content ≠ line := by
        rintro rfl
        exact hcontent hb
      have hlt := ih ⟨content, (List.mem_cons.1 hmem).resolve_left hne, hcontent⟩
      rw [insignificant_blankLine hb hline, List.length_append, List.length_cons]
      omega
    · rw [insignificant_contentLine hb hline]
      exact length_takeWhile_isBlank_lt_of_content hb _

theorem of_head?_drop_insignificant {inComment : Bool} {text : List Char} {ch : Char}
    (h : (text.drop (insignificant inComment text)).head? = some ch) :
    ch ≠ '\n' ∧ isBlank ch = false ∧ ch ≠ '#' := by
  induction text generalizing inComment with
  | nil => simp at h
  | cons first text ih =>
    rw [insignificant] at h
    split at h
    · exact ih h
    split at h
    · exact ih h
    split at h
    · exact ih h
    · next hn hb hc =>
      obtain rfl : first = ch := by simpa using h
      simp only [Bool.or_eq_true, not_or, Bool.not_eq_true] at hb
      exact ⟨hn, hb.2, hc⟩

theorem head?_drop_insignificant (inComment : Bool) (text : List Char) :
    (text.drop (insignificant inComment text)).head? ≠ some '\n' :=
  fun h => (of_head?_drop_insignificant h).1 rfl

theorem rest_skipInsignificant_eq_nil {c : Cursor} (h : c.skipInsignificant.atLineEnd) :
    c.skipInsignificant.rest = [] := by
  apply Decidable.byContradiction
  intro hne
  obtain ⟨text, hc⟩ := (rest_of_atLineEnd h).resolve_left hne
  apply head?_drop_insignificant false c.rest
  rw [skipInsignificant, rest_drop] at hc
  rw [hc]
  rfl

variable {src : Source} {c : Cursor}

theorem IsIn.rest_ne_nil (h : c.IsIn src) {n : Nat}
    (hn : src.nextContentLine c.position.line = some n) : c.rest ≠ [] := by
  intro hnil
  obtain ⟨i, hi, -⟩ := Option.map_eq_some_iff.1 hn
  rw [h.lines_eq, hnil] at hi
  simp at hi

theorem skipInsignificant_eq_toLine (h : c.IsIn src) (hc : c.atLineEnd) {n : Nat}
    (hn : src.nextContentLine c.position.line = some n) :
    c.skipInsignificant = (c.toLine n).skipBlanks := by
  obtain ⟨text, ht⟩ := (rest_of_atLineEnd hc).resolve_left (h.rest_ne_nil hn)
  obtain ⟨i, hi, rfl⟩ := Option.map_eq_some_iff.1 hn
  rw [h.lines_eq] at hi
  have hline := h.one_le_line
  have hcount : (((i + c.position.line.toNat + 1 : Nat) : Int) - c.position.line).toNat =
      i + 1 := by
    omega
  have htext : insignificant false text = _ :=
    insignificant_eq_throughLines (by simpa [ht] using hi)
  simp only [skipInsignificant, toLine, skipBlanks, hcount, drop_drop, rest_drop]
  rw [ht, insignificant, if_pos rfl, htext, throughLines, if_pos rfl, List.drop_succ_cons,
    Nat.add_right_comm]

theorem skipBlock_congr {c d : Cursor} (margin : Int) (h : c.skipLine = d.skipLine) :
    c.skipBlock src margin = d.skipBlock src margin := by
  rw [skipBlock, skipBlock]
  generalize c.skipLine = e at h
  subst h
  rfl

theorem rest_eq_of_aheadIndentation_pos {c : Cursor} (h : c.atLineEnd)
    (ha : 0 < aheadIndentation c.rest) :
    ∃ text, c.rest = '\n' :: text := by
  apply (rest_of_atLineEnd h).resolve_left
  intro hnil
  simp [hnil, aheadIndentation, contentIndentation] at ha

theorem insignificant_lt_length {c : Cursor} (h : c.atLineEnd) (ha : 0 < aheadIndentation c.rest) :
    insignificant false c.rest < c.rest.length := by
  obtain ⟨text, hc⟩ := rest_eq_of_aheadIndentation_pos h ha
  rw [hc] at ha ⊢
  rw [insignificant, if_pos rfl, List.length_cons]
  exact Nat.succ_lt_succ (insignificant_lt (exists_of_contentIndentation_pos ha))

theorem rest_skipInsignificant_ne_nil {c : Cursor} (h : c.atLineEnd)
    (ha : 0 < aheadIndentation c.rest) : c.skipInsignificant.rest ≠ [] :=
  rest_drop_ne_nil (insignificant_lt_length h ha)

theorem length_skipInsignificant_lt {c : Cursor} (h : c.atLineEnd)
    (ha : 0 < aheadIndentation c.rest) :
    c.skipInsignificant.rest.length < c.rest.length := by
  obtain ⟨text, hc⟩ := rest_eq_of_aheadIndentation_pos h ha
  exact length_drop_lt (insignificant_pos (by rw [hc]; rfl)) (by simp [hc])

theorem skipBlock_eq (h : c.IsIn src) (margin : Nat) :
    c.skipBlock src margin =
      if margin < aheadIndentation c.skipLine.rest then
        c.skipLine.skipInsignificant.skipBlock src margin
      else c.skipLine := by
  have hd : c.skipLine.IsIn src := h.reaches c.reaches_skipLine
  have hahead := hd.nextIndentation_eq
  rw [Source.nextIndentation] at hahead
  rw [skipBlock]
  split
  · next hn =>
    simp only [hn] at hahead
    rw [if_neg (by omega)]
  · next n hn =>
    simp only [hn] at hahead
    have hne := hd.rest_ne_nil hn
    by_cases hm : margin < aheadIndentation c.skipLine.rest
    · have hdeep : ¬ ((src.indentation n : Int) ≤ margin ∨ c.skipLine.rest = []) := by
        simp only [hne, or_false]
        omega
      rw [dif_neg hdeep, if_pos hm]
      apply skipBlock_congr
      rw [skipInsignificant_eq_toLine hd c.atLineEnd_skipLine hn, skipLine_skipBlanks]
    · rw [if_neg hm, dif_pos (.inl (by omega))]

theorem skipGap_eq (h : c.IsIn src) (margin : Nat) :
    c.skipGap src margin =
      if c.skipContinuedBlanks.skipComment.current? = some '\n' ∧
          margin < aheadIndentation c.skipContinuedBlanks.skipComment.rest then
        c.skipContinuedBlanks.skipComment.skipInsignificant.skipGap src margin
      else c.skipContinuedBlanks.skipComment := by
  have hd := (h.reaches c.reaches_skipContinuedBlanks).reaches (reaches_skipComment _)
  rw [skipGap.eq_def]
  dsimp only
  rw [hd.nextIndentation_eq]
  split
  · rfl
  · rfl

def isSolid (ch : Char) : Bool := !(isBlank ch || ch = '\n' || ch = '#' || ch = '\\')

section isSolid

variable {ch : Char} (h : isSolid ch)

include h

theorem isBlank_of_isSolid : isBlank ch = false := by simp_all [isSolid]

theorem ne_newline_of_isSolid : ch ≠ '\n' := by simp_all [isSolid]

theorem ne_hash_of_isSolid : ch ≠ '#' := by simp_all [isSolid]

theorem ne_backslash_of_isSolid : ch ≠ '\\' := by simp_all [isSolid]

end isSolid

theorem continuedBlanks_of_solid {ch : Char} {text : List Char} (h : isSolid ch) :
    continuedBlanks (ch :: text) = 0 := by
  have hb := isBlank_of_isSolid h
  have hs := ne_backslash_of_isSolid h
  rw [continuedBlanks.eq_def]
  split <;> simp_all

theorem isSolid_of_isNameChar {ch : Char} (h : isNameChar ch) : isSolid ch := by
  rw [isSolid, Bool.not_eq_true', ← Bool.not_eq_true]
  intro hgap
  simp [isBlank] at hgap
  rcases hgap with (((((rfl | rfl) | rfl) | rfl) | rfl) | rfl) <;> exact absurd h (by decide)

theorem continuedBlanks_append {gap : List Char} (h : gap.all isBlank) (text : List Char) :
    continuedBlanks (gap ++ text) = gap.length + continuedBlanks text := by
  induction gap with
  | nil => simp
  | cons ch gap ih =>
    simp only [List.all_cons, Bool.and_eq_true] at h
    have hs : ch ≠ '\\' := fun e => absurd h.1 (by simp [e, isBlank])
    rw [List.cons_append, continuedBlanks, if_pos h.1, ih h.2, List.length_cons]
    · omega
    · exact fun _ e => absurd e hs
    · exact fun _ e => absurd e hs

theorem skipContinuedBlanks_of_solid {ch : Char} {text : List Char} (hc : c.rest = ch :: text)
    (h : isSolid ch) : c.skipContinuedBlanks = c := by
  rw [skipContinuedBlanks, hc, continuedBlanks_of_solid h, drop_zero]

theorem skipComment_of_ne {ch : Char} {text : List Char} (hc : c.rest = ch :: text) (h : ch ≠ '#') :
    c.skipComment = c := by
  rw [skipComment, current?, hc, if_neg (by simpa using h)]

theorem skipGap_of_solid (src : Source) (margin : Nat) {ch : Char} {text : List Char}
    (hc : c.rest = ch :: text) (h : isSolid ch) : c.skipGap src margin = c := by
  rw [skipGap, skipContinuedBlanks_of_solid hc h, skipComment_of_ne hc (ne_hash_of_isSolid h),
    dif_neg]
  simp [current?, hc, ne_newline_of_isSolid h]

theorem skipInsignificant_of_solid {ch : Char} {text : List Char} (hc : c.rest = ch :: text)
    (h : isSolid ch) : c.skipInsignificant = c := by
  rw [skipInsignificant, hc, insignificant, if_neg (ne_newline_of_isSolid h),
    if_neg (by simp [isBlank_of_isSolid h]), if_neg (ne_hash_of_isSolid h), drop_zero]

theorem skipGap_of_blanks (src : Source) (margin : Nat) {gap text : List Char} {ch : Char}
    (hc : c.rest = gap ++ ch :: text) (hgap : gap.all isBlank) (h : isSolid ch) :
    c.skipGap src margin = c.drop gap.length := by
  have hd : (c.drop gap.length).rest = ch :: text := by simp [hc]
  have hblanks : c.skipContinuedBlanks = c.drop gap.length := by
    rw [skipContinuedBlanks, hc, continuedBlanks_append hgap, continuedBlanks_of_solid h,
      Nat.add_zero]
  rw [← skipGap_of_solid src margin hd h, skipGap.eq_def, skipGap.eq_def, hblanks,
    skipContinuedBlanks_of_solid hd h]

theorem continuedBlanks_drop (text : List Char) :
    continuedBlanks (text.drop (continuedBlanks text)) = 0 := by
  fun_induction continuedBlanks text with
  | case1 => rfl
  | case2 text ih => exact ih
  | case3 text ih => exact ih
  | case4 ch text h₁ h₂ hch ih => exact ih
  | case5 ch text h₁ h₂ hch =>
    rw [List.drop_zero, continuedBlanks, if_neg hch]
    · exact h₁
    · exact h₂

theorem continuedBlanks_of_atLineEnd (h : c.atLineEnd) : continuedBlanks c.rest = 0 := by
  rcases rest_of_atLineEnd h with hc | ⟨text, hc⟩
  · rw [hc, continuedBlanks]
  · rw [hc]
    rfl

theorem skipContinuedBlanks_eq_self (h : continuedBlanks c.rest = 0) :
    c.skipContinuedBlanks = c := by
  rw [skipContinuedBlanks, h, drop_zero]

theorem skipComment_of_atLineEnd (h : c.atLineEnd) : c.skipComment = c := by
  rcases rest_of_atLineEnd h with hc | ⟨text, hc⟩
  · simp [skipComment, current?, hc]
  · exact skipComment_of_ne hc (by decide)

theorem skipGap_skipComment (src : Source) (margin : Nat) (c : Cursor) :
    c.skipContinuedBlanks.skipComment.skipGap src margin = c.skipGap src margin := by
  have hself : c.skipContinuedBlanks.skipComment.skipContinuedBlanks.skipComment =
      c.skipContinuedBlanks.skipComment := by
    by_cases h : c.skipContinuedBlanks.current? = some '#'
    · have hskip : c.skipContinuedBlanks.skipComment = c.skipContinuedBlanks.skipLine := if_pos h
      have hend := c.skipContinuedBlanks.atLineEnd_skipLine
      rw [hskip, skipContinuedBlanks_eq_self (continuedBlanks_of_atLineEnd hend),
        skipComment_of_atLineEnd hend]
    · have hskip : c.skipContinuedBlanks.skipComment = c.skipContinuedBlanks := if_neg h
      rw [hskip, skipContinuedBlanks_eq_self (continuedBlanks_drop c.rest), hskip]
  rw [skipGap.eq_def, hself]
  exact (skipGap.eq_def ..).symm

def endsLine (c : Cursor) : Prop :=
  c.current? = some '\n' ∨ c.current? = some '\r' ∧ c.next.current? = some '\n'

def continuesLine (c : Cursor) : Prop := c.current? = some '\\' ∧ c.next.endsLine

theorem skipBlanks_of_isBlank {ch : Char} (h : c.current? = some ch) (hb : isBlank ch) :
    c.skipBlanks = c.next.skipBlanks := by
  rw [skipBlanks, rest_of_current? h, List.takeWhile_cons_of_pos hb, List.length_cons, drop_add_one]
  rfl

theorem skipBlanks_eq_self (h : ∀ ch, c.current? = some ch → ¬ isBlank ch) : c.skipBlanks = c := by
  cases hc : c.current? with
  | none => simp [skipBlanks, List.head?_eq_none_iff.1 hc]
  | some ch => simp [skipBlanks, rest_of_current? hc, h ch hc]

theorem skipBlanks_of_atLineEnd (h : c.atLineEnd) : c.skipBlanks = c := by
  apply skipBlanks_eq_self
  intro ch hc hb
  have hn : ch ≠ '\n' := by
    rintro rfl
    exact absurd hb (by decide)
  exact not_atLineEnd hc hn h

theorem not_isBlank_skipBlanks {ch : Char} (h : c.skipBlanks.current? = some ch) :
    ¬ isBlank ch := by
  have hhead := List.head?_dropWhile_not isBlank c.rest
  rw [← rest_skipBlanks, ← current?, h] at hhead
  simpa using hhead

theorem skipContinuedBlanks_skipBlanks (c : Cursor) :
    c.skipBlanks.skipContinuedBlanks = c.skipContinuedBlanks := by
  have h := continuedBlanks_append (List.all_takeWhile (p := isBlank) (l := c.rest))
    (c.rest.dropWhile isBlank)
  rw [List.takeWhile_append_dropWhile] at h
  rw [skipContinuedBlanks, rest_skipBlanks, skipBlanks, drop_drop, ← h]
  rfl

theorem skipLine_of_continuesLine (h : c.continuesLine) :
    c.skipLine = c.next ∧ c.rest = '\\' :: '\n' :: c.next.next.rest ∨
      c.skipLine = c.next.next ∧ c.rest = '\\' :: '\r' :: '\n' :: c.next.next.next.rest := by
  obtain ⟨hc, hn | ⟨hr, hn⟩⟩ := h
  · left
    rw [skipLine_of_ne hc (by decide), skipLine_of_atLineEnd (atLineEnd_of_newline hn)]
    exact ⟨rfl, by rw [rest_of_current? hc, rest_of_current? hn]⟩
  · right
    rw [skipLine_of_ne hc (by decide), skipLine_of_ne hr (by decide),
      skipLine_of_atLineEnd (atLineEnd_of_newline hn)]
    exact ⟨rfl, by rw [rest_of_current? hc, rest_of_current? hr, rest_of_current? hn]⟩

theorem rest_of_continuesLine (h : c.continuesLine) :
    c.rest = ['\\', '\n'] ++ c.skipLine.next.rest ∨
      c.rest = ['\\', '\r', '\n'] ++ c.skipLine.next.rest := by
  rcases skipLine_of_continuesLine h with ⟨hline, hc⟩ | ⟨hline, hc⟩
  · exact .inl (hline ▸ hc)
  · exact .inr (hline ▸ hc)

theorem current?_skipLine_of_continuesLine (h : c.continuesLine) :
    c.skipLine.current? = some '\n' := by
  rcases skipLine_of_continuesLine h with ⟨hline, hc⟩ | ⟨hline, hc⟩
  · rw [hline, current?, next, rest_drop, hc]
    rfl
  · rw [hline, current?, next, rest_drop, next, rest_drop, hc]
    rfl

theorem skipContinuedBlanks_of_continuesLine (h : c.skipBlanks.continuesLine) :
    c.skipContinuedBlanks = c.skipBlanks.skipLine.next.skipContinuedBlanks := by
  rw [← skipContinuedBlanks_skipBlanks]
  generalize c.skipBlanks = c at h
  rcases skipLine_of_continuesLine h with ⟨hline, hc⟩ | ⟨hline, hc⟩
  · rw [hline, skipContinuedBlanks, hc, continuedBlanks, drop_add_one, drop_add_one]
    rfl
  · rw [hline, skipContinuedBlanks, hc, continuedBlanks, drop_add_one, drop_add_one, drop_add_one]
    rfl

theorem continuedBlanks_eq_zero (hb : ∀ ch, c.current? = some ch → ¬ isBlank ch)
    (hs : ¬ c.continuesLine) :
    continuedBlanks c.rest = 0 := by
  rw [continuedBlanks.eq_def]
  split
  · rfl
  · next text hc => exact absurd ⟨by simp [current?, hc], .inl (by simp [current?, next, hc])⟩ hs
  · next text hc =>
    exact absurd ⟨by simp [current?, hc], .inr (by simp [current?, next, hc])⟩ hs
  · next ch text _ _ hc => exact if_neg (hb ch (by simp [current?, hc]))

theorem skipContinuedBlanks_of_not_continuesLine (h : ¬ c.skipBlanks.continuesLine) :
    c.skipContinuedBlanks = c.skipBlanks := by
  rw [← skipContinuedBlanks_skipBlanks]
  exact skipContinuedBlanks_eq_self (continuedBlanks_eq_zero (fun _ => not_isBlank_skipBlanks) h)

theorem length_continued_lt (h : c.skipBlanks.continuesLine) :
    c.skipBlanks.skipLine.next.skipBlanks.rest.length < c.rest.length := by
  have hline : c.skipBlanks.skipLine = c.skipBlanks.next.skipLine := skipLine_of_ne h.1 (by decide)
  rw [hline]
  have hreach :=
    ((reaches_skipLine c.skipBlanks.next).trans (reaches_next _)).trans (reaches_skipBlanks _)
  calc
    _ ≤ c.skipBlanks.next.rest.length := hreach.length_le
    _ < c.skipBlanks.rest.length := length_next_lt h.1
    _ ≤ c.rest.length := c.reaches_skipBlanks.length_le

theorem indentWidth_spaces (n : Nat) {ch : Char} (h : isSolid ch) (text : List Char) :
    indentWidth (List.replicate n ' ' ++ ch :: text) = n := by
  induction n with
  | zero =>
    rw [List.replicate_zero, List.nil_append, indentWidth.eq_def]
    split
    · next hline => exact absurd h (by simp [(List.cons.inj hline).1, isSolid, isBlank])
    · next hline => exact absurd h (by simp [(List.cons.inj hline).1, isSolid, isBlank])
    · rfl
  | succ n ih => rw [List.replicate_succ, List.cons_append, indentWidth, ih]

theorem not_isBlankLine_spaces (n : Nat) {ch : Char} (h : isSolid ch) (text : List Char) :
    isBlankLine (List.replicate n ' ' ++ ch :: text) = false := by
  have hblanks : ∀ b ∈ List.replicate n ' ', isBlank b := by
    intro b hb
    rw [List.eq_of_mem_replicate hb]
    rfl
  rw [isBlankLine, List.dropWhile_append_of_pos hblanks]
  simp [isBlank_of_isSolid h, ne_hash_of_isSolid h]

variable {n : Nat} {ch : Char} {text : List Char}

theorem takeWhile_solid (h : isSolid ch) :
    (ch :: text).takeWhile (· ≠ '\n') = ch :: text.takeWhile (· ≠ '\n') := by
  simp [ne_newline_of_isSolid h]

theorem aheadIndentation_line (h : isSolid ch) :
    aheadIndentation ('\n' :: (List.replicate n ' ' ++ ch :: text)) = n := by
  obtain ⟨lines, hlines⟩ := exists_splitLines (List.replicate n ' ' ++ ch :: text)
  rw [List.takeWhile_append_of_pos (by simp), takeWhile_solid h] at hlines
  rw [aheadIndentation, splitLines_newline, List.tail_cons, hlines, contentIndentation,
    not_isBlankLine_spaces n h, if_neg (by simp), indentWidth_spaces n h]

theorem skipInsignificant_line (hc : c.rest = '\n' :: (List.replicate n ' ' ++ ch :: text))
    (h : isSolid ch) :
    c.skipInsignificant = c.drop (n + 1) := by
  have hspaces (n : Nat) : insignificant false (List.replicate n ' ' ++ ch :: text) = n := by
    induction n with
    | zero => simp [insignificant, ne_newline_of_isSolid h, ne_hash_of_isSolid h,
      isBlank_of_isSolid h]
    | succ n ih => simp [List.replicate_succ, insignificant, isBlank, ih]
  rw [skipInsignificant, hc, insignificant, if_pos rfl, hspaces]

theorem take_line (hc : c.rest = '\n' :: (List.replicate n ' ' ++ ch :: text)) :
    c.rest.take (n + 1) = '\n' :: List.replicate n ' ' := by
  rw [hc, List.take_succ_cons, List.take_left' List.length_replicate]

theorem position_line (hc : c.rest = '\n' :: (List.replicate n ' ' ++ ch :: text)) :
    (c.drop (n + 1)).position.line = c.position.line + 1 ∧
      (c.drop (n + 1)).position.column = n + 1 := by
  have hmem : '\n' ∉ List.replicate n ' ' := by simp
  rw [position_drop, take_line hc, Position.afterAll_cons]
  constructor
  · rw [line_afterAll, List.count_eq_zero_of_not_mem hmem]
    simp [Position.after]
  · rw [column_afterAll_of_not_mem _ hmem]
    simp [Position.after]
    omega

theorem IsIn.indentation_line (hin : c.IsIn src)
    (hc : c.rest = '\n' :: (List.replicate n ' ' ++ ch :: text)) (h : isSolid ch) :
    src.indentation (c.drop (n + 1)).position.line = n := by
  obtain ⟨before, ht, hp⟩ := hin.before
  have hmem : '\n' ∉ List.replicate n ' ' := by simp
  have hrest : (c.drop (n + 1)).rest = ch :: text := by
    rw [rest_drop, hc, List.drop_succ_cons, List.drop_left' List.length_replicate]
  have hline := IsIn.line_eq src (c.drop (n + 1)) (before ++ '\n' :: List.replicate n ' ')
    (by rw [ht, hrest, hc]; simp) (by rw [position_drop, take_line hc, hp]; simp)
  rw [Source.indentation, hline, hrest, lastLine_append_newline, lastLine_of_not_mem hmem,
    takeWhile_solid h, indentWidth_spaces n h]

end IndentedGrammar.Cursor