import IndentedGrammar.Proofs.Source.Alignment
import IndentedGrammar.Proofs.Source.Places

namespace IndentedGrammar

open Cursor

def levelBlanks : List Char := [' ', ' ', ' ', ' ']

/-- The second text is the first with one level in front of every line. If nothing stands behind the
last newline, that may be taken for a line or not. -/
inductive Indents : List Char → List Char → Prop
  | ended : Indents [] []
  | last {line} : '\n' ∉ line → Indents line (levelBlanks ++ line)
  | more {line text text'} : '\n' ∉ line → Indents text text' →
      Indents (line ++ '\n' :: text) (levelBlanks ++ (line ++ '\n' :: text'))

def Position.nested (name : List Char) (p : Position) : Position :=
  ⟨p.offset + (name.length + 4) + 4 * p.line.toNat, p.line + 1, p.column + 4⟩

namespace Indents

variable {text text' : List Char}

theorem exists_indents (text : List Char) : ∃ text', Indents text text' := by
  induction hlen : text.length using Nat.strongRecOn generalizing text with
  | _ n ih =>
    by_cases hnewline : '\n' ∈ text
    · obtain ⟨line, more, rfl, hline⟩ := List.eq_append_cons_of_mem hnewline
      have hlt : more.length < n := by
        rw [← hlen, List.length_append, List.length_cons]
        omega
      obtain ⟨more', hmore⟩ := ih _ hlt more rfl
      exact ⟨_, .more hline hmore⟩
    · exact ⟨_, .last hnewline⟩

theorem char {ch : Char} (h : Indents (ch :: text) text') (hch : ch ≠ '\n') :
    ∃ more, text' = levelBlanks ++ ch :: more ∧ Indents text (levelBlanks ++ more) := by
  generalize hwhole : ch :: text = whole at h
  cases h with
  | ended => simp at hwhole
  | last hline =>
    subst hwhole
    rw [List.mem_cons, not_or] at hline
    exact ⟨text, rfl, .last hline.2⟩
  | @more line text₀ text₁ hline hmore =>
    cases line with
    | nil => exact absurd (List.cons.inj hwhole).1 hch
    | cons ch' line =>
      obtain ⟨rfl, rfl⟩ := List.cons.inj hwhole
      rw [List.mem_cons, not_or] at hline
      exact ⟨line ++ '\n' :: text₁, rfl, .more hline.2 hmore⟩

theorem newline (h : Indents ('\n' :: text) text') :
    ∃ more, text' = levelBlanks ++ '\n' :: more ∧ Indents text more := by
  generalize hwhole : '\n' :: text = whole at h
  cases h with
  | ended => simp at hwhole
  | last hline =>
    subst hwhole
    simp at hline
  | @more line text₀ text₁ hline hmore =>
    cases line with
    | nil =>
      obtain ⟨-, rfl⟩ := List.cons.inj hwhole
      exact ⟨text₁, rfl, hmore⟩
    | cons ch line =>
      rw [← (List.cons.inj hwhole).1] at hline
      simp at hline

theorem eq_nil_of_nil (h : Indents [] (levelBlanks ++ text')) : text' = [] := by
  generalize htext : ([] : List Char) = text, hwhole : levelBlanks ++ text' = whole at h
  cases h with
  | ended => simp [levelBlanks] at hwhole
  | last =>
    subst htext
    simpa using hwhole
  | more => simp at htext

theorem exists_blanks (h : Indents text text') :
    ∃ n more, text' = List.replicate n ' ' ++ more ∧ Indents text (levelBlanks ++ more) ∧
      (text ≠ [] → n = 4) := by
  cases h with
  | ended => exact ⟨0, [], rfl, .last (by simp), by simp⟩
  | last hline => exact ⟨4, _, rfl, .last hline, by simp⟩
  | more hline hmore => exact ⟨4, _, rfl, .more hline hmore, by simp⟩

theorem count_newline (h : Indents text text') : text'.count '\n' = text.count '\n' := by
  have hblanks : levelBlanks.count '\n' = 0 := by decide
  induction h with
  | ended => rfl
  | last => rw [List.count_append, hblanks, Nat.zero_add]
  | more _ _ ih =>
    rw [List.count_append, hblanks, Nat.zero_add, List.count_append, List.count_append,
      List.count_cons_self, List.count_cons_self, ih]

theorem not_mem_line {line : List Char} (h : '\n' ∉ line) : '\n' ∉ levelBlanks ++ line := by
  rw [List.mem_append]
  exact not_or.2 ⟨by decide, h⟩

theorem getElem?_splitLines (h : Indents text text') {i : Nat} {line : List Char}
    (hi : (splitLines text)[i]? = some line)
    (hline : line ≠ [] ∨ i + 1 < (splitLines text).length) :
    (splitLines text')[i]? = some (levelBlanks ++ line) := by
  induction h generalizing i with
  | ended =>
    cases i with
    | zero => simp_all
    | succ i => simp at hi
  | @last line₀ hline₀ =>
    rw [splitLines_of_not_mem hline₀] at hi
    rw [splitLines_of_not_mem (not_mem_line hline₀)]
    cases i with
    | zero =>
      obtain rfl : line₀ = line := by simpa using hi
      rfl
    | succ i => simp at hi
  | @more line₀ text₀ text₁ hline₀ hmore ih =>
    rw [splitLines_line hline₀] at hi hline
    rw [← List.append_assoc, splitLines_line (not_mem_line hline₀)]
    cases i with
    | zero =>
      obtain rfl : line₀ = line := by simpa using hi
      rfl
    | succ i => exact ih hi (hline.imp_right Nat.lt_of_succ_lt_succ)

theorem lt_contentIndentation (h : Indents text text') (margin : Nat) :
    margin + 4 < contentIndentation (splitLines text') ↔
      margin < contentIndentation (splitLines text) := by
  have hblank (line : List Char) : isBlankLine (levelBlanks ++ line) = isBlankLine line := rfl
  have hwidth (line : List Char) : indentWidth (levelBlanks ++ line) = indentWidth line + 4 := rfl
  induction h with
  | ended => simp [contentIndentation, isBlankLine]
  | @last line hline =>
    rw [splitLines_of_not_mem hline, splitLines_of_not_mem (not_mem_line hline)]
    simp only [contentIndentation, hblank, hwidth]
    split
    · omega
    · omega
  | @more line text₀ text₁ hline hmore ih =>
    rw [← List.append_assoc, splitLines_line hline, splitLines_line (not_mem_line hline)]
    simp only [contentIndentation, hblank, hwidth]
    split
    · exact ih
    · omega

end Indents

namespace Position

theorem after_nested (name : List Char) {p : Position} {ch : Char} (hch : ch ≠ '\n') :
    (p.nested name).after ch = (p.after ch).nested name := by
  simp only [nested, after, if_neg hch]
  congr 1
  · omega
  · omega

theorem afterAll_of_not_mem (p : Position) {text : List Char} (h : '\n' ∉ text) :
    p.afterAll text = ⟨p.offset + text.length, p.line, p.column + text.length⟩ := by
  calc
    p.afterAll text = ⟨(p.afterAll text).offset, (p.afterAll text).line,
        (p.afterAll text).column⟩ := rfl
    _ = ⟨p.offset + text.length, p.line, p.column + text.length⟩ := by
      rw [offset_afterAll, line_afterAll, List.count_eq_zero_of_not_mem h,
        column_afterAll_of_not_mem p h]
      simp

theorem afterAll_nested_newline (name : List Char) {p : Position} (hp : 0 ≤ p.line) :
    (p.nested name).afterAll ('\n' :: List.replicate 4 ' ') = (p.after '\n').nested name := by
  have hline : (p.line + 1).toNat = p.line.toNat + 1 := by omega
  simp [nested, after, afterAll, hline]
  omega

end Position

namespace Cursor

structure Nests (src whole : Source) (name : List Char) (c c' : Cursor) : Prop where
  isIn : c.IsIn src
  isIn' : c'.IsIn whole
  indents : Indents c.rest (levelBlanks ++ c'.rest)
  position_eq : c.rest ≠ [] → c'.position = c.position.nested name

def OpensAt (c d : Cursor) : Prop :=
  ∃ n, c.rest = '\n' :: (List.replicate n ' ' ++ d.rest) ∧ d = c.drop (n + 1)

theorem OpensAt.skipBlanks {c d : Cursor} (h : c.OpensAt d) : c.next.skipBlanks = d.skipBlanks := by
  obtain ⟨n, hc, rfl⟩ := h
  have hblanks : ∀ ch ∈ List.replicate n ' ', isBlank ch := by
    intro ch hch
    rw [List.eq_of_mem_replicate hch]
    rfl
  have hnext : c.next.rest = List.replicate n ' ' ++ (c.drop (n + 1)).rest := by
    rw [next, rest_drop, hc]
    rfl
  rw [Cursor.skipBlanks, hnext, List.takeWhile_append_of_pos hblanks, List.length_append,
    List.length_replicate, Cursor.skipBlanks, drop_add_one, drop_drop]

theorem OpensAt.insignificant {c d : Cursor} (h : c.OpensAt d) (inComment : Bool) :
    c.drop (insignificant inComment c.rest) = d.skipInsignificant := by
  obtain ⟨n, hc, rfl⟩ := h
  have hspaces (n : Nat) (text : List Char) : Cursor.insignificant false
      (List.replicate n ' ' ++ text) = n + Cursor.insignificant false text := by
    induction n with
    | zero => simp
    | succ n ih => simp [List.replicate_succ, Cursor.insignificant, isBlank, ih]; omega
  rw [hc, Cursor.insignificant, if_pos rfl, hspaces, skipInsignificant, drop_drop]
  congr 1
  omega

namespace Nests

variable {src whole : Source} {name : List Char} {c c' : Cursor}

theorem rest_eq_nil (h : Nests src whole name c c') (hc : c.rest = []) : c'.rest = [] := by
  have hindents := h.indents
  rw [hc] at hindents
  exact hindents.eq_nil_of_nil

theorem next {ch : Char} (h : Nests src whole name c c') (hc : c.current? = some ch)
    (hch : ch ≠ '\n') : c'.current? = some ch ∧ Nests src whole name c.next c'.next := by
  have hrest := rest_of_current? hc
  have hindents := h.indents
  rw [hrest] at hindents
  obtain ⟨more, hmore, hnext⟩ := hindents.char hch
  have hrest' := List.append_cancel_left hmore
  have hc' : c'.current? = some ch := by rw [current?, hrest']; rfl
  have hnext' : c'.next.rest = more := by
    rw [rest_of_current? hc'] at hrest'
    exact (List.cons.inj hrest').2
  refine ⟨hc', h.isIn.reaches c.reaches_next, h.isIn'.reaches c'.reaches_next, ?_, ?_⟩
  · rwa [hnext']
  · intro _
    have hposition := h.position_eq (rest_ne_nil_of_current? hc)
    rw [position_next hc', position_next hc, hposition, Position.after_nested name hch]

theorem opensAt (h : Nests src whole name c c') (hc : c.current? = some '\n') :
    ∃ d, c'.OpensAt d ∧ Nests src whole name c.next d := by
  have hrest := rest_of_current? hc
  have hindents := h.indents
  rw [hrest] at hindents
  obtain ⟨below, hbelow, hnext⟩ := hindents.newline
  obtain ⟨n, more, rfl, hmore, hn⟩ := hnext.exists_blanks
  have hrest' := List.append_cancel_left hbelow
  have hdrop : (c'.drop (n + 1)).rest = more := by
    rw [rest_drop, hrest', List.drop_succ_cons, List.drop_left' List.length_replicate]
  refine ⟨c'.drop (n + 1), ⟨n, by rw [hrest', hdrop], rfl⟩, h.isIn.reaches c.reaches_next,
    h.isIn'.drop _, by rwa [hdrop], ?_⟩
  intro hne
  obtain rfl := hn hne
  have hline : 0 ≤ c.position.line := Int.le_trans (by decide) h.isIn.one_le_line
  have htake : c'.rest.take (4 + 1) = '\n' :: List.replicate 4 ' ' := by rw [hrest']; rfl
  rw [position_drop, htake, h.position_eq (rest_ne_nil_of_current? hc),
    Position.afterAll_nested_newline name hline, position_next hc]

theorem insignificant (h : Nests src whole name c c') (inComment : Bool) :
    Nests src whole name (c.drop (insignificant inComment c.rest))
      (c'.drop (insignificant inComment c'.rest)) := by
  induction hlength : c.rest.length using Nat.strongRecOn generalizing c c' inComment with
  | ind n ih =>
    subst hlength
    cases hc : c.current? with
    | none =>
      have hnil := List.head?_eq_none_iff.1 hc
      rw [hnil, h.rest_eq_nil hnil]
      simpa [Cursor.insignificant] using h
    | some ch =>
      have hrest := rest_of_current? hc
      have hlt := length_next_lt hc
      by_cases hch : ch = '\n'
      · subst hch
        obtain ⟨d, hopens, hnests⟩ := h.opensAt hc
        rw [hopens.insignificant, hrest, Cursor.insignificant, if_pos rfl, drop_add_one]
        exact ih _ hlt hnests false rfl
      · obtain ⟨hc', hnext⟩ := h.next hc hch
        rw [hrest, rest_of_current? hc', Cursor.insignificant, Cursor.insignificant, if_neg hch,
          if_neg hch]
        split
        · rw [drop_add_one, drop_add_one]
          exact ih _ hlt hnext inComment rfl
        split
        · rw [drop_add_one, drop_add_one]
          exact ih _ hlt hnext true rfl
        · simpa using h

theorem skipInsignificant (h : Nests src whole name c c') :
    Nests src whole name c.skipInsignificant c'.skipInsignificant := h.insignificant false

theorem current?_eq (h : Nests src whole name c c') : c'.current? = c.current? := by
  cases hc : c.current? with
  | none => rw [current?, h.rest_eq_nil (List.head?_eq_none_iff.1 hc), List.head?_nil]
  | some ch =>
    by_cases hch : ch = '\n'
    · subst hch
      obtain ⟨d, ⟨n, hrest, -⟩, -⟩ := h.opensAt hc
      rw [current?, hrest]
      rfl
    · exact (h.next hc hch).1

theorem lt_aheadIndentation (h : Nests src whole name c c') (hend : c.atLineEnd) (margin : Nat) :
    margin + 4 < aheadIndentation c'.rest ↔ margin < aheadIndentation c.rest := by
  rcases rest_of_atLineEnd hend with hc | ⟨text, hc⟩
  · rw [hc, h.rest_eq_nil hc]
    simp [aheadIndentation, contentIndentation]
  · have hindents := h.indents
    rw [hc] at hindents
    obtain ⟨more, hmore, hbelow⟩ := hindents.newline
    rw [hc, List.append_cancel_left hmore]
    exact hbelow.lt_contentIndentation margin

/-- Where a place of the text is in the whole. The end of the one is at the end of the other, whether
there are blanks before that or not. -/
def move (src whole : Source) (name : List Char) (p : Position) : Position :=
  if p.offset = src.text.length then Position.start.afterAll whole.text else p.nested name

theorem move_of_holds {e : Cursor} {p : Position} (hin : c.IsIn src) (hp : c.Holds e p) :
    move src whole name p = p.nested name := by
  obtain ⟨b, hb, -, hne, rfl⟩ := hp
  obtain ⟨before, ht, hposition⟩ := (hin.reaches hb).before
  have hpos := List.length_pos_iff.2 hne
  apply if_neg
  rw [hposition, Position.offset_afterAll, ht, List.length_append]
  simp only [Position.start]
  omega

theorem position_eq_move (h : Nests src whole name c c') :
    c'.position = move src whole name c.position := by
  by_cases hc : c.rest = []
  · rw [h.isIn'.eq_of_rest_nil (h.rest_eq_nil hc), h.isIn.eq_of_rest_nil hc]
    simp [move, Cursor.start, Position.start]
  · rw [h.position_eq hc, move_of_holds h.isIn (.first hc (.refl c))]

end Nests

end Cursor

section

variable {whole : Source} {name tail : List Char}
  (htext : whole.text = name ++ '.' :: '.' :: '.' :: '\n' :: tail)

include htext

theorem rest_heading :
    ((Cursor.start whole.text).drop (name.length + 3)).rest = '\n' :: tail := by
  rw [rest_drop, Cursor.start, htext, List.drop_length_add_append]
  rfl

theorem atLineEnd_heading : ((Cursor.start whole.text).drop (name.length + 3)).atLineEnd := by
  rw [atLineEnd, rest_heading htext]
  rfl

end

section

variable {src whole : Source} {name body : List Char} (hname : '\n' ∉ name)
  (htext : whole.text = name ++ '.' :: '.' :: '.' :: '\n' :: body) (hbody : Indents src.text body)

include hname htext hbody

theorem count_newline_nested : whole.text.count '\n' = src.text.count '\n' + 1 := by
  rw [htext, List.count_append, List.count_eq_zero_of_not_mem hname, ← hbody.count_newline]
  simp

theorem exists_opensAt :
    ∃ d, ((Cursor.start whole.text).drop (name.length + 3)).OpensAt d ∧
      Nests src whole name (.start src.text) d := by
  obtain ⟨n, more, rfl, hmore, hn⟩ := hbody.exists_blanks
  have hrest := rest_heading htext
  have hdrop : (((Cursor.start whole.text).drop (name.length + 3)).drop (n + 1)).rest = more := by
    rw [rest_drop, hrest, List.drop_succ_cons, List.drop_left' List.length_replicate]
  have hin := (IsIn.start whole).drop (name.length + 3)
  refine ⟨_, ⟨n, by rw [hrest, hdrop], rfl⟩, .start src, hin.drop _, by rwa [hdrop], ?_⟩
  intro hne
  obtain rfl := hn hne
  have htake : ((Cursor.start whole.text).drop (name.length + 3)).rest.take (4 + 1) =
      '\n' :: List.replicate 4 ' ' := by
    rw [hrest]
    rfl
  have hheading : '\n' ∉ name ++ ['.', '.', '.'] := by simp [hname]
  have hfirst : (Cursor.start whole.text).rest.take (name.length + 3) = name ++ ['.', '.', '.'] := by
    rw [Cursor.start, htext, List.take_length_add_append]
    rfl
  rw [position_drop, htake, position_drop, hfirst]
  rw [Position.afterAll_of_not_mem _ hheading]
  simp [Position.afterAll, Position.after, Position.nested, Position.start, Cursor.start]

theorem exists_nests {c : Cursor} (hin : c.IsIn src) : ∃ c', Nests src whole name c c' := by
  obtain ⟨n, rfl⟩ := hin
  induction n with
  | zero =>
    obtain ⟨d, -, hd⟩ := exists_opensAt hname htext hbody
    exact ⟨d, by rwa [drop_zero]⟩
  | succ n ih =>
    obtain ⟨c', hc'⟩ := ih
    rw [← drop_drop]
    generalize (Cursor.start src.text).drop n = c at hc'
    change ∃ d, Nests src whole name c.next d
    cases hc : c.current? with
    | none =>
      have hnil := List.head?_eq_none_iff.1 hc
      have hnext : c.next = c := by
        obtain ⟨rest, p⟩ := c
        obtain rfl : rest = [] := hnil
        rfl
      exact ⟨c', hnext.symm ▸ hc'⟩
    | some ch =>
      by_cases hch : ch = '\n'
      · subst hch
        obtain ⟨d, -, hd⟩ := hc'.opensAt hc
        exact ⟨d, hd⟩
      · exact ⟨_, (hc'.next hc hch).2⟩

theorem Cursor.Nests.line_eq {c c' : Cursor} (h : Nests src whole name c c') :
    c'.position.line = c.position.line + 1 := by
  by_cases hc : c.rest = []
  · obtain ⟨before, ht, hp⟩ := h.isIn.before
    obtain ⟨before', ht', hp'⟩ := h.isIn'.before
    rw [hc, List.append_nil] at ht
    rw [h.rest_eq_nil hc, List.append_nil] at ht'
    rw [hp, hp', line_afterAll, line_afterAll, ← ht, ← ht', count_newline_nested hname htext hbody]
    omega
  · rw [h.position_eq hc]
    rfl

theorem line_nested {c c' : Cursor} (h : Nests src whole name c c') (hend : c.atLineEnd)
    (hline : c.rest ≠ [] ∨ src.line c.position.line ≠ []) :
    whole.line c'.position.line = levelBlanks ++ src.line c.position.line := by
  obtain ⟨before, ht, hp⟩ := h.isIn.before
  have hat := IsIn.line_eq src c before ht hp
  have hget := getElem?_splitLines_append before c.rest
  rw [← hat, ← ht] at hget
  have hget' : (splitLines body)[before.count '\n']? =
      some (levelBlanks ++ src.line c.position.line) := by
    refine hbody.getElem?_splitLines hget (hline.symm.imp_right fun hne => ?_)
    obtain ⟨text, hc⟩ := (rest_of_atLineEnd hend).resolve_left hne
    rw [length_splitLines, ht, hc, List.count_append, List.count_cons_self]
    omega
  have hlines : whole.lines = (name ++ ['.', '.', '.']) :: splitLines body := by
    have hheading : '\n' ∉ name ++ ['.', '.', '.'] := by simp [hname]
    rw [whole.lines_eq, ← splitLines_line hheading, htext]
    simp
  have hn : (c'.position.line - 1).toNat = before.count '\n' + 1 := by
    rw [h.line_eq hname htext hbody, hp, line_afterAll]
    simp only [Position.start]
    omega
  rw [Source.line, if_neg (Int.not_lt.2 h.isIn'.one_le_line), hn, hlines, List.getElem?_cons_succ,
    hget']
  rfl

end

section

variable {src whole : Source} {name body : List Char} (hname : '\n' ∉ name)
  (htext : whole.text = name ++ '.' :: '.' :: '.' :: '\n' :: body) (hbody : Indents src.text body)

def Alignment.ofNested : Alignment src whole where
  move := Nests.move src whole name
  levels := 1
  returns := false
  Ends e e' := Nests src whole name e e' ∧ e.atLineEnd
  isIn h := ⟨h.1.isIn, h.1.isIn'⟩
  atLineEnd h := h.2
  current?_eq h := h.1.current?_eq
  position_eq h := h.1.position_eq_move
  indentation_eq h hline := by
    rw [Source.indentation, Source.indentation, line_nested hname htext hbody h.1 h.2 hline]
    rfl
  ahead h margin := h.1.lt_aheadIndentation h.2 margin

variable {c c' : Cursor}

theorem settled_nested (h : Nests src whole name c c') :
    (Alignment.ofNested hname htext hbody).Settled c c' := by
  have hrelates : (Alignment.ofNested hname htext hbody).Relates (Nests src whole name) :=
    ⟨fun h hend => ⟨h, hend⟩, fun h hc hch => h.next hc hch, fun h => ⟨h.isIn, h.isIn'⟩,
      fun h => h.position_eq_move⟩
  exact hrelates.settled rfl h

theorem connected_ofNested : (Alignment.ofNested hname htext hbody).Connected := by
  constructor
  · rintro e e' ⟨h, -⟩ -
    exact settled_nested hname htext hbody h.skipInsignificant
  · intro c c' h hc
    obtain ⟨hends, -⟩ := h.ends_skipLine
    obtain ⟨d, hopens, hnests⟩ := hends.opensAt (current?_skipLine_of_continuesLine hc)
    rw [hopens.skipBlanks]
    exact (settled_nested hname htext hbody hnests).beside.skipBlanks.beside

end

end IndentedGrammar
