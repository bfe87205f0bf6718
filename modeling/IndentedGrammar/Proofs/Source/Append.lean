import IndentedGrammar.Proofs.Source.Alignment

namespace IndentedGrammar

open Cursor

def WholeLines (text : List Char) : Prop := text = [] ∨ text.getLast? = some '\n'

def Position.behind (text : List Char) (p : Position) : Position :=
  ⟨p.offset + text.length, p.line + text.count '\n', p.column⟩

namespace Position

theorem after_behind (text : List Char) (p : Position) (ch : Char) :
    (p.behind text).after ch = (p.after ch).behind text := by
  rw [after, after]
  split
  · simp only [behind, Nat.add_right_comm, Int.add_right_comm]
  · simp only [behind, Nat.add_right_comm]

theorem afterAll_behind (text : List Char) (p : Position) (more : List Char) :
    (p.behind text).afterAll more = (p.afterAll more).behind text := by
  induction more generalizing p with
  | nil => rfl
  | cons ch more ih => rw [afterAll_cons, afterAll_cons, after_behind, ih]

theorem start_afterAll {text : List Char} (h : WholeLines text) :
    start.afterAll text = start.behind text := by
  have hcolumn : (start.afterAll text).column = start.column := by
    rcases h with rfl | h
    · rfl
    · obtain ⟨lines, rfl⟩ := List.getLast?_eq_some_iff.1 h
      rw [afterAll_append]
      rfl
  rw [behind, ← offset_afterAll, ← line_afterAll, ← hcolumn]

end Position

namespace Cursor

def extend (more : List Char) (c : Cursor) : Cursor := ⟨c.rest ++ more, c.position⟩

def behind (text : List Char) (c : Cursor) : Cursor := ⟨c.rest, c.position.behind text⟩

variable {c : Cursor}

theorem extend_drop {n : Nat} (h : n ≤ c.rest.length) (more : List Char) :
    (c.extend more).drop n = (c.drop n).extend more := by
  simp only [extend, drop, List.drop_append_of_le_length h, List.take_append_of_le_length h]

theorem extend_next (h : c.rest ≠ []) (more : List Char) :
    (c.extend more).next = c.next.extend more :=
  extend_drop (List.length_pos_iff.2 h) more

theorem behind_drop (text : List Char) (c : Cursor) (n : Nat) :
    (c.behind text).drop n = (c.drop n).behind text := by
  simp only [behind, drop, Position.afterAll_behind]

theorem behind_next (text : List Char) (c : Cursor) : (c.behind text).next = c.next.behind text :=
  behind_drop text c 1

theorem skipBlanks_behind (text : List Char) (c : Cursor) :
    (c.behind text).skipBlanks = c.skipBlanks.behind text := behind_drop text c _

theorem skipInsignificant_behind (text : List Char) (c : Cursor) :
    (c.behind text).skipInsignificant = c.skipInsignificant.behind text := behind_drop text c _

theorem start_behind {text : List Char} (h : WholeLines text) (more : List Char) :
    (start more).behind text = (start (text ++ more)).drop text.length := by
  simp [behind, drop, start, Position.start_afterAll h]

theorem current?_extend (h : c.rest ≠ []) (more : List Char) :
    (c.extend more).current? = c.current? := by
  obtain ⟨ch, text, hc⟩ := List.exists_cons_of_ne_nil h
  rw [current?, current?, extend, hc]
  rfl

theorem skipBlanks_extend (h : c.skipBlanks.rest ≠ []) (more : List Char) :
    (c.extend more).skipBlanks = c.skipBlanks.extend more := by
  have htake : (c.rest ++ more).takeWhile isBlank = c.rest.takeWhile isBlank := by
    rw [List.takeWhile_append, if_neg]
    intro hlength
    apply h
    rw [skipBlanks, rest_drop, hlength, List.drop_length]
  rw [skipBlanks, extend, htake]
  exact extend_drop (List.takeWhile_prefix isBlank).length_le more

theorem skipInsignificant_extend (h : insignificant false c.rest < c.rest.length)
    (more : List Char) :
    (c.extend more).skipInsignificant = c.skipInsignificant.extend more := by
  rw [skipInsignificant, extend, insignificant_append_of_lt h]
  exact extend_drop (Nat.le_of_lt h) more

namespace IsIn

variable {first second whole : Source} (htext : whole.text = first.text ++ second.text)

include htext

theorem extend (h : c.IsIn first) : (c.extend second.text).IsIn whole := by
  obtain ⟨before, ht, hp⟩ := h.before
  refine ⟨before.length, ?_⟩
  simp [Cursor.extend, Cursor.drop, Cursor.start, htext, ht, hp]

theorem behind (hlines : WholeLines first.text) (h : c.IsIn second) :
    (c.behind first.text).IsIn whole := by
  obtain ⟨n, rfl⟩ := h
  rw [← behind_drop, start_behind hlines, ← htext, drop_drop]
  exact Reaches.drop _ _

end IsIn

end Cursor

theorem WholeLines.getLast?_suffix {text rest : List Char} (h : WholeLines text)
    (hrest : rest <:+ text) (hne : rest ≠ []) : rest.getLast? = some '\n' := by
  obtain ⟨before, rfl⟩ := hrest
  rcases h with h | h
  · exact absurd (List.append_eq_nil_iff.1 h).2 hne
  · cases hlast : rest.getLast? with
    | none => exact absurd (List.getLast?_eq_none_iff.1 hlast) hne
    | some ch => simpa [List.getLast?_append, hlast] using h

theorem WholeLines.next_rest_ne_nil {first : Source} {c : Cursor} (h : WholeLines first.text)
    (hin : c.IsIn first) {ch : Char} (hc : c.current? = some ch) (hch : ch ≠ '\n') :
    c.next.rest ≠ [] := by
  intro hnil
  have hlast := h.getLast?_suffix hin.suffix (rest_ne_nil_of_current? hc)
  rw [rest_of_current? hc, hnil] at hlast
  exact hch (by simpa using hlast)

theorem WholeLines.lastLine_append {text : List Char} (h : WholeLines text) (more : List Char) :
    lastLine (text ++ more) = lastLine more := by
  rcases h with rfl | h
  · rfl
  · obtain ⟨lines, rfl⟩ := List.getLast?_eq_some_iff.1 h
    rw [List.append_assoc, List.singleton_append, lastLine_append_newline]

theorem skipInsignificant_extend_eq_behind {first : Source} {c : Cursor}
    (hlines : WholeLines first.text) (h : c.IsIn first)
    (hlt : ¬ insignificant false c.rest < c.rest.length) (more : List Char) :
    (c.extend more).skipInsignificant =
      ((Cursor.start more).behind first.text).skipInsignificant := by
  have hlast : c.rest.getLast? = some '\n' ∨ c.rest = [] ∧ false = false := by
    by_cases hne : c.rest = []
    · exact .inr ⟨hne, rfl⟩
    · exact .inl (hlines.getLast?_suffix h.suffix hne)
  have hbehind : (c.extend more).drop c.rest.length = (Cursor.start more).behind first.text := by
    obtain ⟨before, ht, hp⟩ := h.before
    simp only [extend, drop, List.drop_left, List.take_left, Cursor.start, Cursor.behind]
    rw [hp, ← Position.afterAll_append, ← ht, Position.start_afterAll hlines]
  rw [← hbehind, skipInsignificant, skipInsignificant, extend, insignificant_append hlt hlast,
    ← drop_drop]
  simp

section First

variable {first second whole : Source} (htext : whole.text = first.text ++ second.text)
  (hlines : WholeLines first.text) (hsecond : second.nextIndentation 0 = 0)

theorem WholeLines.aheadIndentation_extend {c : Cursor} (hlines : WholeLines first.text)
    (hsecond : second.nextIndentation 0 = 0) (h : c.IsIn first) (hne : c.rest ≠ []) :
    aheadIndentation (c.rest ++ second.text) = aheadIndentation c.rest := by
  apply aheadIndentation_append (hlines.getLast?_suffix h.suffix hne)
  rw [second.nextIndentation_eq_contentIndentation, second.lines_eq] at hsecond
  exact hsecond

theorem Cursor.IsIn.indentation_extend {c : Cursor} (htext : whole.text = first.text ++ second.text)
    (h : c.IsIn first) (hend : c.atLineEnd) (hne : c.rest ≠ []) :
    whole.indentation (c.extend second.text).position.line = first.indentation c.position.line := by
  obtain ⟨before, ht, hp⟩ := h.before
  obtain ⟨text, hc⟩ := (rest_of_atLineEnd hend).resolve_left hne
  have hline := IsIn.line_eq first c before ht hp
  have hline' :=
    IsIn.line_eq whole (c.extend second.text) before (by simp [Cursor.extend, htext, ht]) hp
  rw [Source.indentation, Source.indentation, hline, hline']
  simp [Cursor.extend, hc]

def Alignment.ofFirst : Alignment first whole where
  move := id
  levels := 0
  returns := false
  Ends e e' := e.IsIn first ∧ e.atLineEnd ∧ e.rest ≠ [] ∧ e' = e.extend second.text
  isIn := by
    rintro e _ ⟨hin, -, -, rfl⟩
    exact ⟨hin, hin.extend htext⟩
  atLineEnd h := h.2.1
  current?_eq := by
    rintro e _ ⟨-, -, hne, rfl⟩
    exact current?_extend hne second.text
  position_eq := by
    rintro e _ ⟨-, -, -, rfl⟩
    rfl
  indentation_eq := by
    rintro e _ ⟨hin, hend, hne, rfl⟩ -
    exact hin.indentation_extend htext hend hne
  ahead := by
    rintro e _ ⟨hin, hend, hne, rfl⟩ margin
    rw [extend, hlines.aheadIndentation_extend hsecond hin hne, Nat.mul_zero, Nat.add_zero]

variable {c : Cursor}

theorem settled_extend (h : c.IsIn first) (hne : c.rest ≠ []) :
    (Alignment.ofFirst htext hlines hsecond).Settled c (c.extend second.text) := by
  have hrelates : (Alignment.ofFirst htext hlines hsecond).Relates
      fun c c' => c.IsIn first ∧ c.rest ≠ [] ∧ c' = c.extend second.text := by
    constructor
    · rintro c _ ⟨hin, hne, rfl⟩ hend
      exact ⟨hin, hend, hne, rfl⟩
    · rintro c _ ch ⟨hin, hne, rfl⟩ hc hch
      have hnext := hlines.next_rest_ne_nil hin hc hch
      exact ⟨(current?_extend hne _).trans hc, hin.reaches (reaches_next c), hnext,
        extend_next hne _⟩
    · rintro c _ ⟨hin, -, rfl⟩
      exact ⟨hin, hin.extend htext⟩
    · rintro c _ ⟨-, -, rfl⟩
      rfl
  exact hrelates.settled rfl ⟨h, hne, rfl⟩

theorem connected_ofFirst (hbackslash : ¬ ['\\', '\n'] <:+ first.text)
    (hreturn : ¬ ['\\', '\r', '\n'] <:+ first.text) :
    (Alignment.ofFirst htext hlines hsecond).Connected := by
  constructor
  · rintro e _ ⟨hin, hend, hne, rfl⟩ hpos
    have hlt := insignificant_lt_length hend hpos
    rw [skipInsignificant_extend hlt]
    exact settled_extend htext hlines hsecond (hin.reaches (reaches_skipInsignificant e))
      (rest_drop_ne_nil hlt)
  · intro c c' h hc
    obtain ⟨hin, hend, hne, he⟩ := h.ends_skipLine
    have hnext : c.skipLine.next.rest ≠ [] := by
      intro hnil
      have hsuffix := h.isIn.1.suffix
      rcases rest_of_continuesLine hc with hrest | hrest
      · rw [hrest, hnil] at hsuffix
        exact hbackslash hsuffix
      · rw [hrest, hnil] at hsuffix
        exact hreturn hsuffix
    have hblanks : c.skipLine.next.skipBlanks.rest ≠ [] := by
      have hlast := hlines.getLast?_suffix (hin.reaches (reaches_next _)).suffix hnext
      exact rest_drop_ne_nil (length_takeWhile_isBlank_lt (List.mem_of_getLast? hlast) (by decide))
    rw [he, extend_next hne, skipBlanks_extend hblanks]
    have hreach := (reaches_next c.skipLine).trans (reaches_skipBlanks _)
    exact (settled_extend htext hlines hsecond (hin.reaches hreach) hblanks).beside

theorem resumes_extend (h : c.IsIn first) :
    (Alignment.ofFirst htext hlines hsecond).Resumes
      ((Cursor.start second.text).behind first.text).skipInsignificant
      c.skipInsignificant (c.extend second.text).skipInsignificant := by
  -- something of the first text is left, or blanks and comments run through its end
  by_cases hlt : insignificant false c.rest < c.rest.length
  · have hne : c.skipInsignificant.rest ≠ [] := rest_drop_ne_nil hlt
    rw [skipInsignificant_extend hlt]
    left
    refine ⟨settled_extend htext hlines hsecond (h.reaches (reaches_skipInsignificant c)) hne, ?_⟩
    intro hend
    exact hne (rest_skipInsignificant_eq_nil hend)
  · right
    exact ⟨by simpa [atEnd, skipInsignificant] using hlt,
      skipInsignificant_extend_eq_behind hlines h hlt second.text⟩

end First

section Second

variable {first second whole : Source} (htext : whole.text = first.text ++ second.text)
  (hlines : WholeLines first.text)

theorem Cursor.IsIn.indentation_behind {c : Cursor} (htext : whole.text = first.text ++ second.text)
    (hlines : WholeLines first.text) (h : c.IsIn second) :
    whole.indentation (c.behind first.text).position.line = second.indentation c.position.line := by
  obtain ⟨before, ht, hp⟩ := h.before
  have hposition : (c.behind first.text).position =
      Position.start.afterAll (first.text ++ before) := by
    rw [Position.afterAll_append, Position.start_afterAll hlines, Position.afterAll_behind, ← hp]
    rfl
  have hline := IsIn.line_eq second c before ht hp
  have hline' := IsIn.line_eq whole (c.behind first.text) (first.text ++ before)
    (by rw [htext, ht, List.append_assoc]; rfl) hposition
  rw [Source.indentation, Source.indentation, hline, hline', hlines.lastLine_append]
  rfl

def Alignment.ofSecond : Alignment second whole where
  move := Position.behind first.text
  levels := 0
  returns := false
  Ends e e' := e.IsIn second ∧ e.atLineEnd ∧ e' = e.behind first.text
  isIn := by
    rintro e _ ⟨hin, -, rfl⟩
    exact ⟨hin, hin.behind htext hlines⟩
  atLineEnd h := h.2.1
  current?_eq := by
    rintro e _ ⟨-, -, rfl⟩
    rfl
  position_eq := by
    rintro e _ ⟨-, -, rfl⟩
    rfl
  indentation_eq := by
    rintro e _ ⟨hin, -, rfl⟩ -
    exact hin.indentation_behind htext hlines
  ahead := by
    rintro e _ ⟨-, -, rfl⟩ margin
    exact Iff.rfl

variable {c : Cursor}

theorem settled_behind (h : c.IsIn second) :
    (Alignment.ofSecond htext hlines).Settled c (c.behind first.text) := by
  have hrelates : (Alignment.ofSecond htext hlines).Relates
      fun c c' => c.IsIn second ∧ c' = c.behind first.text := by
    constructor
    · rintro c _ ⟨hin, rfl⟩ hend
      exact ⟨hin, hend, rfl⟩
    · rintro c _ ch ⟨hin, rfl⟩ hc -
      exact ⟨hc, hin.reaches (reaches_next c), behind_next first.text c⟩
    · rintro c _ ⟨hin, rfl⟩
      exact ⟨hin, hin.behind htext hlines⟩
    · rintro c _ ⟨-, rfl⟩
      rfl
  exact hrelates.settled rfl ⟨h, rfl⟩

theorem connected_ofSecond : (Alignment.ofSecond htext hlines).Connected := by
  constructor
  · rintro e _ ⟨hin, -, rfl⟩ -
    rw [skipInsignificant_behind]
    exact settled_behind htext hlines (hin.reaches (reaches_skipInsignificant e))
  · intro c c' h _
    obtain ⟨hin, -, he⟩ := h.ends_skipLine
    have hreach := (reaches_next c.skipLine).trans (reaches_skipBlanks _)
    rw [he, behind_next, skipBlanks_behind]
    exact (settled_behind htext hlines (hin.reaches hreach)).beside

theorem resumes_behind (h : c.IsIn second) :
    (Alignment.ofSecond htext hlines).Resumes ((Cursor.start whole.text).drop whole.text.length)
      c.skipInsignificant (c.behind first.text).skipInsignificant := by
  apply Alignment.resumes_of_settled
  rw [skipInsignificant_behind]
  exact settled_behind htext hlines (h.reaches (reaches_skipInsignificant c))

end Second

end IndentedGrammar
