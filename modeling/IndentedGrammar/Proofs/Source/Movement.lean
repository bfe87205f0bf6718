import IndentedGrammar.Source.Layout

/-! Every movement of a cursor passes over a run of characters. `Reaches` is all that most arguments
need to know of a movement, and `IsIn` says that a cursor is one of those that a source can have. -/

namespace IndentedGrammar

@[ext] theorem Position.ext {p q : Position} (hoffset : p.offset = q.offset)
    (hline : p.line = q.line) (hcolumn : p.column = q.column) : p = q := by
  obtain ⟨offset, line, column⟩ := p
  obtain rfl : offset = q.offset := hoffset
  obtain rfl : line = q.line := hline
  obtain rfl : column = q.column := hcolumn
  rfl

namespace Cursor

@[simp] theorem rest_drop (c : Cursor) (n : Nat) : (c.drop n).rest = c.rest.drop n := rfl

@[simp] theorem position_drop (c : Cursor) (n : Nat) :
    (c.drop n).position = c.position.afterAll (c.rest.take n) := rfl

@[simp] theorem drop_zero (c : Cursor) : c.drop 0 = c := by
  simp [drop]

@[simp] theorem drop_drop (c : Cursor) (m n : Nat) : (c.drop m).drop n = c.drop (m + n) := by
  simp only [drop, List.drop_drop, List.take_add, Position.afterAll_append]

@[ext] theorem ext {c d : Cursor} (hrest : c.rest = d.rest) (hposition : c.position = d.position) :
    c = d := by
  obtain ⟨rest, p⟩ := c
  obtain rfl : rest = d.rest := hrest
  obtain rfl : p = d.position := hposition
  rfl

theorem rest_drop_ne_nil {c : Cursor} {n : Nat} (h : n < c.rest.length) : (c.drop n).rest ≠ [] := by
  rw [rest_drop, ← List.length_pos_iff, List.length_drop]
  exact Nat.sub_pos_of_lt h

def Reaches (c d : Cursor) : Prop := ∃ n, d = c.drop n

namespace Reaches

theorem refl (c : Cursor) : c.Reaches c := ⟨0, c.drop_zero.symm⟩

theorem drop (c : Cursor) (n : Nat) : c.Reaches (c.drop n) := ⟨n, rfl⟩

theorem trans {c d e : Cursor} (h : c.Reaches d) (h' : d.Reaches e) : c.Reaches e := by
  obtain ⟨m, rfl⟩ := h
  obtain ⟨n, rfl⟩ := h'
  exact ⟨m + n, c.drop_drop m n⟩

theorem length_le {c d : Cursor} (h : c.Reaches d) : d.rest.length ≤ c.rest.length := by
  obtain ⟨n, rfl⟩ := h
  exact c.length_drop_le n

theorem suffix {c d : Cursor} (h : c.Reaches d) : d.rest <:+ c.rest := by
  obtain ⟨n, rfl⟩ := h
  exact List.drop_suffix n c.rest

theorem offset_le {c d : Cursor} (h : c.Reaches d) : c.position.offset ≤ d.position.offset := by
  obtain ⟨n, rfl⟩ := h
  simp

end Reaches

theorem reaches_next (c : Cursor) : c.Reaches c.next := .drop c 1

theorem reaches_skipLine (c : Cursor) : c.Reaches c.skipLine := .drop c _

theorem reaches_skipBlanks (c : Cursor) : c.Reaches c.skipBlanks := .drop c _

theorem reaches_skipContinuedBlanks (c : Cursor) : c.Reaches c.skipContinuedBlanks := .drop c _

theorem reaches_skipInsignificant (c : Cursor) : c.Reaches c.skipInsignificant := .drop c _

theorem reaches_skipComment (c : Cursor) : c.Reaches c.skipComment := by
  unfold skipComment
  split
  · exact c.reaches_skipLine
  · exact .refl c

variable (src : Source)

theorem reaches_skipGap (margin : Nat) (c : Cursor) : c.Reaches (c.skipGap src margin) := by
  fun_induction skipGap src margin c with
  | case1 c d h ih =>
    have hd : c.Reaches d := c.reaches_skipContinuedBlanks.trans (reaches_skipComment _)
    exact (hd.trans d.reaches_skipInsignificant).trans ih
  | case2 c d h => exact c.reaches_skipContinuedBlanks.trans (reaches_skipComment _)

theorem reaches_skipBlock (margin : Int) (c : Cursor) : c.Reaches (c.skipBlock src margin) := by
  fun_induction skipBlock src margin c with
  | case1 c d hn => exact c.reaches_skipLine
  | case2 c d n hn h => exact c.reaches_skipLine
  | case3 c d n hn h ih => exact (c.reaches_skipLine.trans (.drop d _)).trans ih

theorem drop_length_takeWhile (p : Char → Bool) (text : List Char) :
    text.drop (text.takeWhile p).length = text.dropWhile p := by
  calc
    text.drop (text.takeWhile p).length =
        (text.takeWhile p ++ text.dropWhile p).drop (text.takeWhile p).length := by
      rw [List.takeWhile_append_dropWhile]
    _ = text.dropWhile p := List.drop_left

@[simp] theorem rest_skipLine (c : Cursor) : c.skipLine.rest = c.rest.dropWhile (· ≠ '\n') :=
  drop_length_takeWhile _ c.rest

@[simp] theorem rest_skipBlanks (c : Cursor) : c.skipBlanks.rest = c.rest.dropWhile isBlank :=
  drop_length_takeWhile _ c.rest

theorem atLineEnd_skipLine (c : Cursor) : c.skipLine.atLineEnd := by
  have h := List.head?_dropWhile_not (· ≠ '\n') c.rest
  rw [atLineEnd, rest_skipLine]
  cases hd : (c.rest.dropWhile (· ≠ '\n')).head? with
  | none => rfl
  | some ch =>
    rw [hd] at h
    simpa using h

theorem atLineEnd_of_rest_nil {c : Cursor} (h : c.rest = []) : c.atLineEnd := by
  rw [atLineEnd, h]
  rfl

theorem rest_of_atLineEnd {c : Cursor} (h : c.atLineEnd) :
    c.rest = [] ∨ ∃ text, c.rest = '\n' :: text := by
  rw [atLineEnd] at h
  cases hc : c.rest with
  | nil => exact .inl rfl
  | cons ch text =>
    obtain rfl : ch = '\n' := by simpa [hc] using h
    exact .inr ⟨text, rfl⟩

theorem skipLine_of_atLineEnd {c : Cursor} (h : c.atLineEnd) : c.skipLine = c := by
  rcases rest_of_atLineEnd h with hc | ⟨text, hc⟩
  · simp [skipLine, hc]
  · simp [skipLine, hc]

theorem atLineEnd_skipBlock (margin : Int) (c : Cursor) : (c.skipBlock src margin).atLineEnd := by
  fun_induction skipBlock src margin c with
  | case1 c d hn => exact c.atLineEnd_skipLine
  | case2 c d n hn h => exact c.atLineEnd_skipLine
  | case3 c d n hn h ih => exact ih

theorem rest_of_current? {c : Cursor} {ch : Char} (h : c.current? = some ch) :
    c.rest = ch :: c.next.rest := by
  obtain ⟨text, hc⟩ := List.head?_eq_some_iff.1 h
  rw [next, rest_drop, hc]
  rfl

theorem position_next {c : Cursor} {ch : Char} (h : c.current? = some ch) :
    c.next.position = c.position.after ch := by
  rw [next, position_drop, rest_of_current? h]
  rfl

theorem rest_ne_nil_of_current? {c : Cursor} {ch : Char} (h : c.current? = some ch) :
    c.rest ≠ [] := by
  rw [rest_of_current? h]
  exact List.cons_ne_nil _ _

theorem drop_add_one (c : Cursor) (n : Nat) : c.drop (n + 1) = c.next.drop n := by
  rw [next, drop_drop, Nat.add_comm]

theorem Reaches.eq_or_next {c d : Cursor} (h : c.Reaches d) : d = c ∨ c.next.Reaches d := by
  obtain ⟨n, rfl⟩ := h
  cases n with
  | zero => exact .inl c.drop_zero
  | succ n =>
    right
    rw [drop_add_one]
    exact .drop c.next n

theorem offset_lt_of_next {c d : Cursor} (hc : c.rest ≠ []) (h : c.next.Reaches d) :
    c.position.offset < d.position.offset := by
  obtain ⟨ch, text, hc⟩ := List.exists_cons_of_ne_nil hc
  have hcurrent : c.current? = some ch := congrArg List.head? hc
  have hnext : c.next.position.offset = c.position.offset + 1 := by
    rw [position_next hcurrent, Position.offset_after]
  have hle := h.offset_le
  omega

theorem length_next_lt {c : Cursor} {ch : Char} (h : c.current? = some ch) :
    c.next.rest.length < c.rest.length := by
  rw [rest_of_current? h]
  exact Nat.lt_succ_self _

theorem atLineEnd_of_newline {c : Cursor} (h : c.current? = some '\n') : c.atLineEnd := by
  rw [atLineEnd, ← current?, h]
  rfl

theorem not_atLineEnd {c : Cursor} {ch : Char} (h : c.current? = some ch) (hn : ch ≠ '\n') :
    ¬ c.atLineEnd := by
  rw [atLineEnd, ← current?, h]
  simpa using hn

theorem exists_of_not_atLineEnd {c : Cursor} (h : ¬ c.atLineEnd) :
    ∃ ch, c.current? = some ch ∧ ch ≠ '\n' := by
  cases hc : c.current? with
  | none => exact absurd (atLineEnd_of_rest_nil (List.head?_eq_none_iff.1 hc)) h
  | some ch =>
    refine ⟨ch, rfl, ?_⟩
    rintro rfl
    exact h (atLineEnd_of_newline hc)

theorem skipLine_of_ne {c : Cursor} {ch : Char} (h : c.current? = some ch) (hn : ch ≠ '\n') :
    c.skipLine = c.next.skipLine := by
  rw [skipLine, rest_of_current? h, List.takeWhile_cons_of_pos (by simpa using hn),
    List.length_cons, drop_add_one]
  rfl

def IsIn (c : Cursor) (src : Source) : Prop := (start src.text).Reaches c

namespace IsIn

variable {src}

theorem start (src : Source) : (Cursor.start src.text).IsIn src := .refl _

theorem reaches {c d : Cursor} (h : c.IsIn src) (hd : c.Reaches d) : d.IsIn src := h.trans hd

theorem drop {c : Cursor} (h : c.IsIn src) (n : Nat) : (c.drop n).IsIn src := h.reaches (.drop c n)

theorem suffix {c : Cursor} (h : c.IsIn src) : c.rest <:+ src.text := Reaches.suffix h

theorem before {c : Cursor} (h : c.IsIn src) :
    ∃ text, src.text = text ++ c.rest ∧ c.position = Position.start.afterAll text := by
  obtain ⟨n, rfl⟩ := h
  exact ⟨src.text.take n, (List.take_append_drop n src.text).symm, rfl⟩

theorem offset_eq {c : Cursor} (h : c.IsIn src) {text : List Char} (ht : src.text = text ++ c.rest) :
    c.position.offset = text.length := by
  obtain ⟨text', ht', hp⟩ := h.before
  obtain rfl := List.append_cancel_right (ht.symm.trans ht')
  rw [hp, Position.offset_afterAll]
  exact Nat.zero_add _

theorem rest_eq {c : Cursor} (h : c.IsIn src) : c.rest = src.text.drop c.position.offset := by
  obtain ⟨text, ht, -⟩ := h.before
  rw [h.offset_eq ht, ht, List.drop_left]

theorem getElem?_eq {c : Cursor} (h : c.IsIn src) :
    src.text[c.position.offset]? = c.current? := by
  rw [current?, h.rest_eq, List.head?_drop]

theorem eq_of_rest_nil {c : Cursor} (h : c.IsIn src) (hc : c.rest = []) :
    c = (Cursor.start src.text).drop src.text.length := by
  obtain ⟨text, ht, hp⟩ := h.before
  obtain ⟨rest, p⟩ := c
  subst hc hp
  rw [List.append_nil] at ht
  simp [Cursor.drop, Cursor.start, ht]

end IsIn

end Cursor

end IndentedGrammar
