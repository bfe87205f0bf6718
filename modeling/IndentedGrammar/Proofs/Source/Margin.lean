import IndentedGrammar.Proofs.Source.Append
import IndentedGrammar.Proofs.Source.Content

namespace IndentedGrammar

open Cursor

def Cursor.OpensLine (src : Source) (c : Cursor) : Prop :=
  ∃ lines blanks, src.text = lines ++ (blanks ++ c.rest) ∧ WholeLines lines ∧ blanks.all isBlank ∧
    c.position = Position.start.afterAll (lines ++ blanks)

theorem WholeLines.line {text : List Char} (h : WholeLines text) (line : List Char) :
    WholeLines (line ++ '\n' :: text) := by
  right
  rcases h with rfl | h
  · simp
  · simp [List.getLast?_append, List.getLast?_cons, h]

theorem WholeLines.append {text more : List Char} (h : WholeLines text) (hmore : WholeLines more) :
    WholeLines (text ++ more) := by
  rcases hmore with rfl | hmore
  · rwa [List.append_nil]
  · exact .inr (by rw [List.getLast?_append, hmore]; rfl)

namespace Cursor

theorem exists_lines_of_insignificant {text : List Char}
    (h : insignificant false text < text.length) :
    ∃ lines blanks, text.take (insignificant false text) = lines ++ blanks ∧ WholeLines lines ∧
      blanks.all isBlank := by
  have hcontent {text : List Char} (h : insignificant false text = (text.takeWhile isBlank).length) :
      text.take (insignificant false text) = [] ++ text.takeWhile isBlank := by
    rw [h]
    exact (List.prefix_iff_eq_take.1 (List.takeWhile_prefix isBlank)).symm
  induction text using lines_induction with
  | last line hline =>
    by_cases hb : isBlankLine line
    · have hlines : (splitLines line).findIdx? (fun line => !isBlankLine line) = none := by
        rw [splitLines_of_not_mem hline]
        simp [hb]
      rw [insignificant_of_findIdx?_none hlines] at h
      exact absurd h (Nat.lt_irrefl _)
    · have hfirst := insignificant_contentLine hb hline []
      rw [List.append_nil] at hfirst
      exact ⟨[], _, hcontent hfirst, .inl rfl, List.all_takeWhile⟩
  | more line text hline ih =>
    by_cases hb : isBlankLine line
    · rw [insignificant_blankLine hb hline] at h ⊢
      have hlt : insignificant false text < text.length := by
        rw [List.length_append, List.length_cons] at h
        omega
      obtain ⟨lines, blanks, htake, hlines, hblanks⟩ := ih hlt
      refine ⟨line ++ '\n' :: lines, blanks, ?_, hlines.line line, hblanks⟩
      rw [Nat.add_assoc, List.take_length_add_append, Nat.add_comm 1, List.take_succ_cons, htake,
        List.append_assoc, List.cons_append]
    · exact ⟨[], _, hcontent (insignificant_contentLine hb hline _), .inl rfl, List.all_takeWhile⟩

variable {src : Source} {c : Cursor}

theorem exists_lines_skipInsignificant (hne : c.skipInsignificant.rest ≠ []) :
    ∃ lines blanks, c.rest = lines ++ (blanks ++ c.skipInsignificant.rest) ∧ WholeLines lines ∧
      blanks.all isBlank ∧
      c.skipInsignificant.position = c.position.afterAll (lines ++ blanks) := by
  have hlt : insignificant false c.rest < c.rest.length := by
    apply Nat.lt_of_not_le
    intro hle
    exact hne (List.drop_eq_nil_of_le hle)
  obtain ⟨lines, blanks, htake, hlines, hblanks⟩ := exists_lines_of_insignificant hlt
  refine ⟨lines, blanks, ?_, hlines, hblanks, ?_⟩
  · rw [← List.append_assoc, ← htake]
    exact (List.take_append_drop ..).symm
  · rw [skipInsignificant, position_drop, htake]

theorem opensLine_of_wholeLines {before : List Char} (ht : src.text = before ++ c.rest)
    (hp : c.position = Position.start.afterAll before) (hbefore : WholeLines before)
    (hne : c.skipInsignificant.rest ≠ []) : c.skipInsignificant.OpensLine src := by
  obtain ⟨lines, blanks, hrest, hlines, hblanks, hskip⟩ := exists_lines_skipInsignificant hne
  refine ⟨before ++ lines, blanks, ?_, hbefore.append hlines, hblanks, ?_⟩
  · rw [ht, List.append_assoc, ← hrest]
  · rw [hskip, hp, ← Position.afterAll_append, List.append_assoc]

theorem opensLine_start (src : Source) (hne : (start src.text).skipInsignificant.rest ≠ []) :
    (start src.text).skipInsignificant.OpensLine src :=
  opensLine_of_wholeLines (List.nil_append _).symm rfl (.inl rfl) hne

theorem IsIn.opensLine (h : c.IsIn src) (hend : c.atLineEnd)
    (hne : c.skipInsignificant.rest ≠ []) : c.skipInsignificant.OpensLine src := by
  obtain ⟨before, ht, hp⟩ := h.before
  have hc : c.current? = some '\n' := by
    rcases rest_of_atLineEnd hend with hrest | ⟨text, hrest⟩
    · exact absurd (by rw [skipInsignificant, rest_drop, hrest, List.drop_nil]) hne
    · rw [current?, hrest]
      rfl
  have hskip : c.skipInsignificant = c.next.skipInsignificant := by
    rw [skipInsignificant, rest_of_current? hc, insignificant, if_pos rfl, drop_add_one]
    rfl
  have hlines : WholeLines (before ++ ['\n']) := .inr (by simp)
  rw [hskip] at hne ⊢
  refine opensLine_of_wholeLines ?_ ?_ hlines hne
  · rw [ht, rest_of_current? hc, List.append_assoc, List.singleton_append]
  · rw [position_next hc, hp, Position.afterAll_append]
    rfl

namespace OpensLine

theorem line_eq (h : c.OpensLine src) :
    ∃ blanks, blanks.all isBlank ∧ c.position.column = blanks.length + 1 ∧
      src.line c.position.line = blanks ++ c.rest.takeWhile (· ≠ '\n') := by
  obtain ⟨lines, blanks, ht, hlines, hblanks, hp⟩ := h
  have hlast : lastLine (lines ++ blanks) = blanks := by
    rw [hlines.lastLine_append, lastLine_of_not_mem (newline_not_mem_of_blanks hblanks)]
  refine ⟨blanks, hblanks, ?_, ?_⟩
  · rw [hp, column_start_afterAll, hlast]
  · rw [IsIn.line_eq src c (lines ++ blanks) (by rw [ht, List.append_assoc]) hp, hlast]

theorem not_isBlankLine (h : c.OpensLine src) {ch : Char} (hc : c.current? = some ch)
    (hn : ch ≠ '\n') (hb : isBlank ch = false) (hhash : ch ≠ '#') :
    isBlankLine (src.line c.position.line) = false := by
  obtain ⟨blanks, hblanks, -, hline⟩ := h.line_eq
  rw [hline, rest_of_current? hc, List.takeWhile_cons_of_pos (by simpa using hn), ← Bool.not_eq_true,
    isBlankLine_blanks hblanks (by simp [hb])]
  exact hhash

theorem not_isBlankLine_skipInsignificant (h : c.skipInsignificant.OpensLine src)
    (hne : c.skipInsignificant.rest ≠ []) :
    isBlankLine (src.line c.skipInsignificant.position.line) = false := by
  obtain ⟨ch, text, hc⟩ := List.exists_cons_of_ne_nil hne
  have hcurrent : c.skipInsignificant.current? = some ch := by rw [current?, hc]; rfl
  obtain ⟨hn, hb, hhash⟩ := of_head?_drop_insignificant hcurrent
  exact h.not_isBlankLine hcurrent hn hb hhash

end OpensLine

structure FirstOn (src : Source) (n : Int) (c : Cursor) : Prop where
  line : c.position.line = n
  text : ∃ blanks ch more, src.line n = blanks ++ ch :: more ∧ blanks.all isBlank ∧ ¬ isBlank ch ∧
    c.position.column = blanks.length + 1 ∧ c.current? = some ch

theorem firstOn_skipInsignificant (h : c.IsIn src) (hc : c.atLineEnd) {n : Nat}
    (hn : src.nextContentLine c.position.line = some n) : c.skipInsignificant.FirstOn src n := by
  have hne := rest_skipInsignificant_of_some h hc hn
  obtain ⟨ch, text, hrest⟩ := List.exists_cons_of_ne_nil hne
  have hcurrent : c.skipInsignificant.current? = some ch := by rw [current?, hrest]; rfl
  obtain ⟨hnewline, hb, -⟩ := of_head?_drop_insignificant hcurrent
  obtain ⟨blanks, hblanks, hcolumn, hline⟩ := (h.opensLine hc hne).line_eq
  rw [hrest, List.takeWhile_cons_of_pos (by simpa using hnewline)] at hline
  have hon := line_skipInsignificant h hc hn
  rw [hon] at hline
  exact ⟨hon, blanks, ch, _, hline, hblanks, by simp [hb], hcolumn, hcurrent⟩

end Cursor

end IndentedGrammar
