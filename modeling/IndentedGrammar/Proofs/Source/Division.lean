import IndentedGrammar.Proofs.Source.Margin

namespace IndentedGrammar

open Cursor

/-- Line `n` has content without any indentation, and the line before it, if there is one, does not end
in a backslash or in a backslash with a carriage return behind it. -/
structure Source.StartsAnew (src : Source) (n : Int) : Prop where
  content : isBlankLine (src.line n) = false
  indentation : src.indentation n = 0
  backslash : ¬ ['\\'] <:+ src.line (n - 1)
  backslashReturn : ¬ ['\\', '\r'] <:+ src.line (n - 1)

instance (src : Source) (n : Int) : Decidable (src.StartsAnew n) :=
  decidable_of_iff
    ((isBlankLine (src.line n) = false ∧ src.indentation n = 0) ∧ ¬ ['\\'] <:+ src.line (n - 1) ∧
      ¬ ['\\', '\r'] <:+ src.line (n - 1))
    ⟨fun ⟨⟨hcontent, hwidth⟩, hbackslash, hreturn⟩ => ⟨hcontent, hwidth, hbackslash, hreturn⟩,
      fun ⟨hcontent, hwidth, hbackslash, hreturn⟩ => ⟨⟨hcontent, hwidth⟩, hbackslash, hreturn⟩⟩

example :
    let src := Source.ofText ['a', ':', ' ', '\\', '\n', 'b', '\n', '#', '\n', 'c', '.', '.', '.'] none
    ¬ src.StartsAnew 2 ∧ ¬ src.StartsAnew 3 ∧ src.StartsAnew 4 := by
  decide

structure Source.DividedAt (src : Source) (n : Int) (first second : Source) : Prop where
  text : src.text = first.text ++ second.text
  lines : WholeLines first.text
  line_eq : n = 1 + first.text.count '\n'

theorem exists_wholeLines {text : List Char} {n : Nat} (h : n ≤ text.count '\n') :
    ∃ first second, text = first ++ second ∧ WholeLines first ∧ first.count '\n' = n := by
  induction text using lines_induction generalizing n with
  | last line hline =>
    rw [List.count_eq_zero_of_not_mem hline] at h
    obtain rfl := Nat.le_zero.1 h
    exact ⟨[], line, rfl, .inl rfl, rfl⟩
  | more line text hline ih =>
    cases n with
    | zero => exact ⟨[], _, rfl, .inl rfl, rfl⟩
    | succ n =>
      rw [List.count_append, List.count_eq_zero_of_not_mem hline, List.count_cons_self,
        Nat.zero_add] at h
      obtain ⟨first, second, rfl, hfirst, hcount⟩ := ih (Nat.le_of_succ_le_succ h)
      refine ⟨line ++ '\n' :: first, second, ?_, hfirst.line line, ?_⟩
      · rw [List.append_assoc, List.cons_append]
      · rw [List.count_append, List.count_eq_zero_of_not_mem hline, List.count_cons_self, hcount,
          Nat.zero_add]

namespace Source

variable {src first second : Source} {n : Int}

theorem StartsAnew.exists_dividedAt (h : src.StartsAnew n) :
    ∃ first second, src.DividedAt n first second := by
  have hcontent := h.content
  rw [Source.line] at hcontent
  split at hcontent
  · exact absurd hcontent (by decide)
  next hn =>
  cases hline : src.lines[(n - 1).toNat]? with
  | none =>
    rw [hline] at hcontent
    exact absurd hcontent (by decide)
  | some line =>
    obtain ⟨hlt, -⟩ := List.getElem?_eq_some_iff.1 hline
    rw [src.lines_eq, length_splitLines] at hlt
    obtain ⟨first, second, ht, hlines, hcount⟩ := exists_wholeLines (Nat.le_of_lt_succ hlt)
    refine ⟨.ofText first none, .ofText second none, ht, hlines, ?_⟩
    change n = 1 + (first.count '\n' : Int)
    omega

namespace DividedAt

variable (h : src.DividedAt n first second)

include h

theorem start_behind : ((Cursor.start second.text).behind first.text).position =
    Position.start.afterAll first.text := (Position.start_afterAll h.lines).symm

theorem line_second : src.line n = second.text.takeWhile (· ≠ '\n') := by
  have hline := IsIn.line_eq src ((Cursor.start second.text).behind first.text) first.text h.text
    h.start_behind
  have hlast := h.lines.lastLine_append []
  rw [List.append_nil] at hlast
  rw [h.start_behind, line_afterAll, hlast] at hline
  rw [h.line_eq]
  exact hline

theorem suffix_line {word : List Char} (hword : '\n' ∉ word) (hend : word ++ ['\n'] <:+ first.text) :
    word <:+ src.line (n - 1) := by
  obtain ⟨before, hbefore⟩ := hend
  have hrest : src.text = (before ++ word) ++ '\n' :: second.text := by
    rw [h.text, ← hbefore]
    simp
  have hline := IsIn.line_eq src ⟨'\n' :: second.text, Position.start.afterAll (before ++ word)⟩
    (before ++ word) hrest rfl
  have hcount : Position.start.line + ((before ++ word).count '\n' : Int) = n - 1 := by
    have hfirst : first.text.count '\n' = (before ++ word).count '\n' + 1 := by
      rw [← hbefore, ← List.append_assoc, List.count_append, List.count_singleton_self]
    rw [h.line_eq, hfirst]
    simp only [Position.start]
    omega
  rw [line_afterAll, hcount, lastLine_append_of_not_mem hword] at hline
  rw [hline]
  exact ⟨lastLine before, by simp⟩

theorem nextIndentation_second (hanew : src.StartsAnew n) : second.nextIndentation 0 = 0 := by
  obtain ⟨lines, hlines⟩ := exists_splitLines second.text
  have hwidth := hanew.indentation
  rw [Source.indentation, h.line_second] at hwidth
  rw [second.nextIndentation_eq_contentIndentation, second.lines_eq, Int.toNat_zero, List.drop_zero,
    hlines, contentIndentation, ← h.line_second, hanew.content, if_neg (by simp), h.line_second,
    hwidth]

theorem connected (hanew : src.StartsAnew n) :
    (Alignment.ofFirst h.text h.lines (h.nextIndentation_second hanew)).Connected :=
  connected_ofFirst h.text h.lines (h.nextIndentation_second hanew)
    (fun hend => hanew.backslash (h.suffix_line (by decide) hend))
    (fun hend => hanew.backslashReturn (h.suffix_line (by decide) hend))

variable {c : Cursor}

theorem line_extend_lt (hin : c.IsIn first) (hne : c.rest ≠ []) :
    (c.extend second.text).position.line < n := by
  obtain ⟨before, ht, hp⟩ := hin.before
  have hlast := h.lines.getLast?_suffix hin.suffix hne
  have hpos : 0 < c.rest.count '\n' := List.count_pos_iff.2 (List.mem_of_getLast? hlast)
  have hline := line_afterAll Position.start before
  rw [← hp] at hline
  rw [h.line_eq, ht, List.count_append]
  simp only [Cursor.extend, hline, Position.start]
  omega

theorem exists_extend (hin : c.IsIn src) (hlt : c.position.line < n) :
    ∃ d : Cursor, d.IsIn first ∧ d.rest ≠ [] ∧ c = d.extend second.text := by
  have hstart : Cursor.start src.text = (Cursor.start first.text).extend second.text :=
    Cursor.ext h.text rfl
  obtain ⟨k, rfl⟩ := hin
  by_cases hk : k < first.text.length
  · refine ⟨(Cursor.start first.text).drop k, (IsIn.start first).drop k, rest_drop_ne_nil hk, ?_⟩
    rw [hstart, extend_drop (Nat.le_of_lt hk)]
  · -- behind the first text there are only lines from `n` on
    have hreach : ((Cursor.start src.text).drop first.text.length).Reaches
        ((Cursor.start src.text).drop k) :=
      ⟨k - first.text.length, by rw [drop_drop, Nat.add_sub_cancel' (Nat.not_lt.1 hk)]⟩
    have hle := hreach.line_le
    rw [h.text, ← Cursor.start_behind h.lines, h.start_behind, line_afterAll, ← h.text] at hle
    have hline := h.line_eq
    simp only [Position.start] at hle
    omega

theorem skipInsignificant_second (hanew : src.StartsAnew n) :
    ((Cursor.start second.text).behind first.text).skipInsignificant.position.line = n ∧
      ¬ ((Cursor.start second.text).behind first.text).skipInsignificant.atLineEnd := by
  have hcontent : ¬ isBlankLine (second.text.takeWhile (· ≠ '\n')) := by
    rw [← h.line_second, hanew.content]
    exact Bool.false_ne_true
  have hfirst := insignificant_contentLine hcontent (newline_not_mem_takeWhile second.text)
    (second.text.dropWhile (· ≠ '\n'))
  have hlt := length_takeWhile_isBlank_lt_of_content hcontent (second.text.dropWhile (· ≠ '\n'))
  rw [← hfirst, List.takeWhile_append_dropWhile] at hlt
  rw [List.takeWhile_append_dropWhile] at hfirst
  refine ⟨?_, fun hend => rest_drop_ne_nil hlt (rest_skipInsignificant_eq_nil hend)⟩
  have hskip : ((Cursor.start second.text).behind first.text).skipInsignificant =
      ((Cursor.start second.text).behind first.text).skipBlanks := congrArg (Cursor.drop _) hfirst
  rw [hskip, line_skipBlanks, h.start_behind, line_afterAll, h.line_eq]
  rfl

end DividedAt

end Source

end IndentedGrammar
