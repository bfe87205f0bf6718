import IndentedGrammar.Proofs.Source.Append

namespace IndentedGrammar

open Cursor

/-- Where a place is if `width` characters, the last of them a newline, are put in front of the line
that starts at `offset`. -/
def Position.pushed (offset width : Nat) (p : Position) : Position :=
  if p.offset < offset then p else ⟨p.offset + width, p.line + 1, p.column⟩

inductive Cursor.Parted (first second : Source) (line : List Char) : Cursor → Cursor → Prop
  | before {c : Cursor} : c.IsIn first → c.rest ≠ [] →
      Parted first second line (c.extend second.text) (c.extend (line ++ '\n' :: second.text))
  | behind {c : Cursor} : c.IsIn second →
      Parted first second line (c.behind first.text) (c.behind (first.text ++ (line ++ ['\n'])))

theorem WholeLines.append_line (text line : List Char) : WholeLines (text ++ (line ++ ['\n'])) := by
  right
  simp

theorem Position.behind_behind (text more : List Char) (p : Position) :
    (p.behind more).behind text = p.behind (text ++ more) := by
  simp only [behind, List.length_append, List.count_append, Position.mk.injEq]
  refine ⟨?_, ?_, trivial⟩
  · omega
  · omega

namespace Cursor.Parted

variable {first second : Source} {line : List Char} {c c' : Cursor}

theorem current?_eq (h : Parted first second line c c') : c'.current? = c.current? := by
  cases h with
  | before _ hne => rw [current?_extend hne, current?_extend hne]
  | behind => rfl

theorem next (hlines : WholeLines first.text) {ch : Char} (h : Parted first second line c c')
    (hc : c.current? = some ch) (hch : ch ≠ '\n') : Parted first second line c.next c'.next := by
  cases h with
  | @before c hin hne =>
    rw [current?_extend hne] at hc
    rw [extend_next hne, extend_next hne]
    exact .before (hin.reaches (reaches_next c)) (hlines.next_rest_ne_nil hin hc hch)
  | behind hin =>
    rw [behind_next, behind_next]
    exact .behind (hin.reaches (reaches_next _))

theorem position_eq (hline : '\n' ∉ line) (h : Parted first second line c c') :
    c'.position = c.position.pushed first.text.length (line.length + 1) := by
  cases h with
  | @before c hin hne =>
    obtain ⟨text, ht, hp⟩ := hin.before
    have hpos := List.length_pos_iff.2 hne
    have hlt : c.position.offset < first.text.length := by
      rw [hp, Position.offset_afterAll, ht, List.length_append]
      simp only [Position.start]
      omega
    exact (if_pos hlt).symm
  | @behind c hin =>
    have hle : ¬ (c.position.behind first.text).offset < first.text.length := by
      simp only [Position.behind]
      omega
    change c.position.behind _ = (c.position.behind first.text).pushed _ _
    rw [Position.pushed, if_neg hle]
    simp only [Position.behind, List.length_append, List.count_append, Position.mk.injEq,
      List.count_eq_zero_of_not_mem hline]
    simp
    omega

theorem ahead_eq (hlines : WholeLines first.text) (hline : '\n' ∉ line) (hblank : isBlankLine line)
    (h : Parted first second line c c') : aheadIndentation c'.rest = aheadIndentation c.rest := by
  cases h with
  | @before c hin hne =>
    apply aheadIndentation_append_congr (hlines.getLast?_suffix hin.suffix hne)
    rw [splitLines_line hline, contentIndentation, if_pos hblank]
  | behind => rfl

end Cursor.Parted

section

variable {src whole first second : Source} {line : List Char}
  (htext : src.text = first.text ++ second.text)
  (hwhole : whole.text = first.text ++ (line ++ '\n' :: second.text))
  (hlines : WholeLines first.text) (hline : '\n' ∉ line) (hblank : isBlankLine line)

section

include hwhole

theorem text_eq_before :
    whole.text = first.text ++ (Source.ofText (line ++ '\n' :: second.text) none).text := hwhole

theorem text_eq_behind :
    whole.text = (Source.ofText (first.text ++ (line ++ ['\n'])) none).text ++ second.text := by
  rw [hwhole]
  simp [Source.ofText]

variable {c c' : Cursor}

include htext hlines

theorem Cursor.Parted.isIn (h : Parted first second line c c') : c.IsIn src ∧ c'.IsIn whole := by
  cases h with
  | before hin => exact ⟨hin.extend htext, hin.extend (text_eq_before hwhole)⟩
  | behind hin =>
    exact ⟨hin.behind htext hlines, hin.behind (text_eq_behind hwhole) (.append_line ..)⟩

theorem Cursor.Parted.indentation_eq (h : Parted first second line c c') (hend : c.atLineEnd) :
    whole.indentation c'.position.line = src.indentation c.position.line := by
  cases h with
  | @before c hin hne =>
    have hend' : c.atLineEnd := by rwa [Cursor.atLineEnd, ← current?, ← current?_extend hne]
    exact (hin.indentation_extend (text_eq_before hwhole) hend' hne).trans
      (hin.indentation_extend htext hend' hne).symm
  | behind hin =>
    exact (hin.indentation_behind (text_eq_behind hwhole) (.append_line ..)).trans
      (hin.indentation_behind htext hlines).symm

end

def Alignment.ofInserted : Alignment src whole where
  move := .pushed first.text.length (line.length + 1)
  levels := 0
  returns := false
  Ends e e' := Parted first second line e e' ∧ e.atLineEnd
  isIn h := h.1.isIn htext hwhole hlines
  atLineEnd h := h.2
  current?_eq h := h.1.current?_eq
  position_eq h := h.1.position_eq hline
  indentation_eq h _ := h.1.indentation_eq htext hwhole hlines h.2
  ahead h margin := by
    rw [h.1.ahead_eq hlines hline hblank]
    rfl

variable {c c' : Cursor}

theorem settled_inserted (h : Parted first second line c c') :
    (Alignment.ofInserted htext hwhole hlines hline hblank).Settled c c' := by
  have hrelates : (Alignment.ofInserted htext hwhole hlines hline hblank).Relates
      (Parted first second line) :=
    ⟨fun h hend => ⟨h, hend⟩,
      fun h hc hch => ⟨h.current?_eq.trans hc, h.next hlines hc hch⟩,
      fun h => h.isIn htext hwhole hlines, fun h => h.position_eq hline⟩
  exact hrelates.settled rfl h

include hlines hline hblank

theorem parted_skipInsignificant (h : c.IsIn first) :
    Parted first second line (c.extend second.text).skipInsignificant
      (c.extend (line ++ '\n' :: second.text)).skipInsignificant := by
  by_cases hlt : insignificant false c.rest < c.rest.length
  · rw [skipInsignificant_extend hlt, skipInsignificant_extend hlt]
    exact .before (h.reaches (reaches_skipInsignificant c)) (rest_drop_ne_nil hlt)
  · have hlast : WholeLines (line ++ ['\n']) := .append_line [] line
    have hskip : (Cursor.start (line ++ '\n' :: second.text)).skipInsignificant =
        ((Cursor.start second.text).behind (line ++ ['\n'])).skipInsignificant := by
      rw [start_behind hlast, List.append_assoc, List.singleton_append,
        skipInsignificant, skipInsignificant, drop_drop]
      congr 1
      simp [Cursor.start, insignificant_blankLine hblank hline]
    rw [skipInsignificant_extend_eq_behind hlines h hlt,
      skipInsignificant_extend_eq_behind hlines h hlt, skipInsignificant_behind,
      skipInsignificant_behind, hskip, skipInsignificant_behind]
    have hbehind (c : Cursor) : (c.behind (line ++ ['\n'])).behind first.text =
        c.behind (first.text ++ (line ++ ['\n'])) :=
      Cursor.ext rfl (Position.behind_behind ..)
    rw [hbehind]
    exact .behind ((IsIn.start second).reaches (reaches_skipInsignificant _))

theorem Cursor.Parted.skipInsignificant (h : Parted first second line c c') :
    Parted first second line c.skipInsignificant c'.skipInsignificant := by
  cases h with
  | before hin => exact parted_skipInsignificant hlines hline hblank hin
  | behind hin =>
    rw [skipInsignificant_behind, skipInsignificant_behind]
    exact .behind (hin.reaches (reaches_skipInsignificant _))

theorem connected_ofInserted (hbackslash : ¬ ['\\', '\n'] <:+ first.text)
    (hreturn : ¬ ['\\', '\r', '\n'] <:+ first.text) :
    (Alignment.ofInserted htext hwhole hlines hline hblank).Connected := by
  constructor
  · rintro e e' ⟨h, -⟩ -
    exact settled_inserted htext hwhole hlines hline hblank
      (h.skipInsignificant hlines hline hblank)
  · intro c c' h hc
    obtain ⟨hparted, -⟩ := h.ends_skipLine
    have hrest := rest_of_continuesLine hc
    obtain ⟨before, ht, -⟩ := h.isIn.1.before
    suffices hnext : Parted first second line c.skipLine.next c'.skipLine.next from
      (settled_inserted htext hwhole hlines hline hblank hnext).beside.skipBlanks.beside
    generalize c.skipLine = e at hparted hrest
    generalize c'.skipLine = e' at hparted
    cases hparted with
    | @before e hin hne =>
      rw [extend_next hne] at hrest
      have hnext : e.next.rest ≠ [] := by
        intro hnil
        have hall (word : List Char) (hword : c.rest = word ++ (e.next.extend second.text).rest) :
            word <:+ first.text := by
          rw [Cursor.extend, hnil, List.nil_append] at hword
          rw [hword, htext, ← List.append_assoc] at ht
          exact ⟨before, (List.append_cancel_right ht).symm⟩
        rcases hrest with hrest | hrest
        · exact hbackslash (hall _ hrest)
        · exact hreturn (hall _ hrest)
      rw [extend_next hne, extend_next hne]
      exact .before (hin.reaches (reaches_next e)) hnext
    | behind hin =>
      rw [behind_next, behind_next]
      exact .behind (hin.reaches (reaches_next _))

end

end IndentedGrammar
