import IndentedGrammar.Proofs.Source.Alignment

namespace IndentedGrammar

open Cursor

def withReturns (text : List Char) : List Char :=
  text.flatMap fun ch => if ch = '\n' then ['\r', '\n'] else [ch]

def Position.returned (p : Position) : Position :=
  ⟨p.offset + (p.line - 1).toNat, p.line, p.column⟩

/-- Where the character at a place of `text` is if there is a carriage return in front of every
newline: a newline itself has one in front of it. -/
def Position.amongReturns (text : List Char) (p : Position) : Position :=
  if text[p.offset]? = some '\n' then p.returned.after '\r' else p.returned

def Cursor.returned (c : Cursor) : Cursor := ⟨withReturns c.rest, c.position.returned⟩

section withReturns

@[simp] theorem withReturns_nil : withReturns [] = [] := rfl

@[simp] theorem withReturns_newline (text : List Char) :
    withReturns ('\n' :: text) = '\r' :: '\n' :: withReturns text := rfl

theorem withReturns_cons {ch : Char} (hch : ch ≠ '\n') (text : List Char) :
    withReturns (ch :: text) = ch :: withReturns text := by
  simp [withReturns, hch]

@[simp] theorem withReturns_append (text more : List Char) :
    withReturns (text ++ more) = withReturns text ++ withReturns more := List.flatMap_append

theorem withReturns_of_not_mem {text : List Char} (h : '\n' ∉ text) : withReturns text = text := by
  induction text with
  | nil => rfl
  | cons ch text ih =>
    rw [List.mem_cons, not_or] at h
    rw [withReturns_cons (Ne.symm h.1), ih h.2]

theorem lastLine_withReturns (text : List Char) : lastLine (withReturns text) = lastLine text := by
  induction text using lines_induction with
  | last line hline => rw [withReturns_of_not_mem hline]
  | more line text hline ih =>
    rw [withReturns_append, withReturns_newline, lastLine_append_newline, ← ih]
    exact (congrArg lastLine (List.append_assoc _ ['\r'] _)).symm.trans
      (lastLine_append_newline _ (withReturns text))

theorem isBlankLine_append_return (line : List Char) :
    isBlankLine (line ++ ['\r']) = isBlankLine line := by
  induction line with
  | nil => rfl
  | cons ch line ih =>
    by_cases hch : isBlank ch
    · simpa [isBlankLine, hch] using ih
    · simp [isBlankLine, hch]

theorem indentWidth_append_return (line : List Char) :
    indentWidth (line ++ ['\r']) = indentWidth line := by
  induction line with
  | nil => exact indentWidth_of_ne (by decide) (by decide) []
  | cons ch line ih =>
    by_cases htab : ch = '\t'
    · subst htab
      exact congrArg (· + 4) ih
    by_cases hspace : ch = ' '
    · subst hspace
      exact congrArg (· + 1) ih
    · rw [List.cons_append, indentWidth_of_ne hspace htab, indentWidth_of_ne hspace htab]

theorem contentIndentation_withReturns (text : List Char) :
    contentIndentation (splitLines (withReturns text)) = contentIndentation (splitLines text) := by
  induction text using lines_induction with
  | last line hline => rw [withReturns_of_not_mem hline]
  | more line text hline ih =>
    have hreturn : '\n' ∉ line ++ ['\r'] := by simp [hline]
    have hlines : withReturns (line ++ '\n' :: text) = (line ++ ['\r']) ++ '\n' :: withReturns text := by
      rw [withReturns_append, withReturns_of_not_mem hline, withReturns_newline, List.append_assoc]
      rfl
    rw [hlines, splitLines_line hreturn, splitLines_line hline, contentIndentation,
      contentIndentation, isBlankLine_append_return, indentWidth_append_return, ih]

end withReturns

namespace Position

theorem after_returned {p : Position} {ch : Char} (hch : ch ≠ '\n') :
    p.returned.after ch = (p.after ch).returned := by
  simp only [returned, after, if_neg hch, Nat.add_right_comm]

theorem newline_returned {p : Position} (hp : 1 ≤ p.line) :
    (p.returned.after '\r').after '\n' = (p.after '\n').returned := by
  have hline : (p.line + 1 - 1).toNat = (p.line - 1).toNat + 1 := by omega
  simp [returned, after]
  omega

theorem afterAll_returned {p : Position} (hp : 1 ≤ p.line) (text : List Char) :
    p.returned.afterAll (withReturns text) = (p.afterAll text).returned := by
  induction text generalizing p with
  | nil => rfl
  | cons ch text ih =>
    by_cases hch : ch = '\n'
    · subst hch
      have hnext : 1 ≤ (p.after '\n').line := by
        simp only [after, if_pos]
        omega
      rw [withReturns_newline, afterAll_cons, afterAll_cons, newline_returned hp, ih hnext,
        afterAll_cons]
    · have hnext : 1 ≤ (p.after ch).line := by rwa [after, if_neg hch]
      rw [withReturns_cons hch, afterAll_cons, after_returned hch, ih hnext, afterAll_cons]

end Position

namespace Cursor

variable {c : Cursor}

theorem returned_of_newline (hc : c.current? = some '\n') (hp : 1 ≤ c.position.line) :
    c.returned.current? = some '\r' ∧ c.returned.next.current? = some '\n' ∧
      c.returned.next.next = c.next.returned := by
  have hrest' : c.returned.rest = '\r' :: '\n' :: withReturns c.next.rest := by
    rw [returned, rest_of_current? hc, withReturns_newline]
  have hreturn : c.returned.current? = some '\r' := by rw [current?, hrest']; rfl
  have hnewline : c.returned.next.current? = some '\n' := by
    rw [current?, next, rest_drop, hrest']
    rfl
  refine ⟨hreturn, hnewline, Cursor.ext ?_ ?_⟩
  · rw [next, rest_drop, next, rest_drop, hrest']
    rfl
  · rw [position_next hnewline, position_next hreturn]
    change (c.position.returned.after '\r').after '\n' = c.next.position.returned
    rw [Position.newline_returned hp, position_next hc]

theorem returned_of_ne {ch : Char} (hc : c.current? = some ch) (hch : ch ≠ '\n') :
    c.returned.current? = some ch ∧ c.returned.next = c.next.returned := by
  have hrest' : c.returned.rest = ch :: withReturns c.next.rest := by
    rw [returned, rest_of_current? hc, withReturns_cons hch]
  have hcurrent : c.returned.current? = some ch := by rw [current?, hrest']; rfl
  refine ⟨hcurrent, Cursor.ext ?_ ?_⟩
  · rw [next, rest_drop, hrest']
    rfl
  · rw [position_next hcurrent]
    change c.position.returned.after ch = c.next.position.returned
    rw [Position.after_returned hch, position_next hc]

variable {src whole : Source}

theorem IsIn.returned (hwhole : whole.text = withReturns src.text) (h : c.IsIn src) :
    c.returned.IsIn whole := by
  obtain ⟨before, ht, hp⟩ := h.before
  refine ⟨(withReturns before).length, Cursor.ext ?_ ?_⟩
  · rw [rest_drop, Cursor.start, hwhole, ht, withReturns_append, List.drop_left]
    rfl
  · rw [position_drop, Cursor.start, hwhole, ht, withReturns_append, List.take_left]
    change c.position.returned = Position.start.returned.afterAll (withReturns before)
    rw [Position.afterAll_returned (Int.le_refl 1), hp]

theorem IsIn.insignificant_returned (h : c.IsIn src) (inComment : Bool) :
    c.returned.drop (insignificant inComment c.returned.rest) =
      (c.drop (insignificant inComment c.rest)).returned := by
  induction hlength : c.rest.length using Nat.strongRecOn generalizing c inComment with
  | ind n ih =>
    subst hlength
    cases hc : c.current? with
    | none =>
      have hnil := List.head?_eq_none_iff.1 hc
      have hnil' : c.returned.rest = [] := by rw [Cursor.returned, hnil, withReturns_nil]
      rw [hnil, hnil', insignificant, drop_zero, drop_zero]
    | some ch =>
      have hrest := rest_of_current? hc
      have hnext := h.reaches c.reaches_next
      have hlt := length_next_lt hc
      by_cases hch : ch = '\n'
      · subst hch
        obtain ⟨hreturn, hnewline, hbelow⟩ := returned_of_newline hc h.one_le_line
        have hskip (b : Bool) : insignificant b c.returned.rest =
            insignificant false c.next.returned.rest + 1 + 1 := by
          rw [rest_of_current? hreturn, rest_of_current? hnewline, ← hbelow]
          cases b <;> rfl
        rw [hskip, drop_add_one, drop_add_one, hbelow, ih _ hlt hnext false rfl, hrest,
          insignificant, if_pos rfl, drop_add_one]
      · obtain ⟨hcurrent, hbehind⟩ := returned_of_ne hc hch
        rw [rest_of_current? hcurrent, hrest, insignificant, insignificant, if_neg hch, if_neg hch,
          hbehind]
        split
        · rw [drop_add_one, drop_add_one, hbehind]
          exact ih _ hlt hnext inComment rfl
        split
        · rw [drop_add_one, drop_add_one, hbehind]
          exact ih _ hlt hnext true rfl
        · rw [drop_zero, drop_zero]

theorem IsIn.skipInsignificant_returned (h : c.IsIn src) :
    c.returned.skipInsignificant = c.skipInsignificant.returned := h.insignificant_returned false

end Cursor

inductive Cursor.EndsReturned (src : Source) : Cursor → Cursor → Prop
  | ended {e} : e.IsIn src → e.rest = [] → EndsReturned src e e.returned
  | newline {e} : e.IsIn src → e.current? = some '\n' → EndsReturned src e e.returned.next

theorem Cursor.EndsReturned.atLineEnd {src : Source} {e e' : Cursor} (h : EndsReturned src e e') :
    e.atLineEnd := by
  cases h with
  | ended _ hnil => exact atLineEnd_of_rest_nil hnil
  | newline _ hc => exact atLineEnd_of_newline hc

theorem Cursor.IsIn.position_returned {src : Source} {c : Cursor} (h : c.IsIn src)
    (hc : c.current? ≠ some '\n') : c.returned.position = c.position.amongReturns src.text := by
  rw [Position.amongReturns, h.getElem?_eq, if_neg hc]
  rfl

theorem Cursor.IsIn.position_next_returned {src : Source} {c : Cursor} (h : c.IsIn src)
    (hc : c.current? = some '\n') :
    c.returned.next.position = c.position.amongReturns src.text := by
  rw [position_next (returned_of_newline hc h.one_le_line).1, Position.amongReturns,
    h.getElem?_eq, if_pos hc]
  rfl

section

variable {src whole : Source} (htext : '\r' ∉ src.text) (hwhole : whole.text = withReturns src.text)

include hwhole

theorem indentation_returned {e : Cursor} (h : e.IsIn src) (hend : e.atLineEnd) :
    whole.indentation e.returned.position.line = src.indentation e.position.line := by
  obtain ⟨before, ht, hp⟩ := h.before
  have hline := IsIn.line_eq src e before ht hp
  have hline' := IsIn.line_eq whole e.returned (withReturns before)
    (by rw [hwhole, ht, withReturns_append]; rfl)
    (by
      change e.position.returned = Position.start.returned.afterAll (withReturns before)
      rw [Position.afterAll_returned (Int.le_refl 1), hp])
  rw [lastLine_withReturns] at hline'
  rw [Source.indentation, Source.indentation, hline, hline', returned]
  rcases rest_of_atLineEnd hend with hc | ⟨text, hc⟩
  · rw [hc]
    rfl
  · rw [hc, withReturns_newline]
    simpa using indentWidth_append_return (lastLine before)

theorem exists_amongReturns {c : Cursor} (h : c.IsIn src) :
    ∃ c' : Cursor, c'.IsIn whole ∧ c'.position = c.position.amongReturns src.text ∧
      c'.current? = c.current? ∧ c'.next.rest = withReturns c.next.rest := by
  have hin' := h.returned hwhole
  cases hc : c.current? with
  | none =>
    have hnil := List.head?_eq_none_iff.1 hc
    refine ⟨c.returned, hin', h.position_returned (by simp [hc]), ?_, ?_⟩
    · rw [current?, Cursor.returned, hnil]
      rfl
    · rw [next, next, rest_drop, rest_drop, Cursor.returned, hnil]
      rfl
  | some ch =>
    by_cases hch : ch = '\n'
    · subst hch
      obtain ⟨-, hnewline, hbelow⟩ := returned_of_newline hc h.one_le_line
      exact ⟨_, hin'.reaches (reaches_next _), h.position_next_returned hc, hnewline,
        congrArg Cursor.rest hbelow⟩
    · obtain ⟨hc', hnext⟩ := returned_of_ne hc hch
      exact ⟨_, hin', h.position_returned (by simpa [hc] using hch), hc', congrArg Cursor.rest hnext⟩

def Alignment.ofReturns : Alignment src whole where
  move := .amongReturns src.text
  levels := 0
  returns := true
  Ends := EndsReturned src
  isIn := by
    rintro e _ (⟨hin, -⟩ | ⟨hin, -⟩)
    · exact ⟨hin, hin.returned hwhole⟩
    · exact ⟨hin, (hin.returned hwhole).reaches (reaches_next _)⟩
  atLineEnd h := h.atLineEnd
  current?_eq := by
    rintro e _ (⟨-, hnil⟩ | ⟨hin, hc⟩)
    · rw [current?, current?, Cursor.returned, hnil]
      rfl
    · rw [hc, (returned_of_newline hc hin.one_le_line).2.1]
  position_eq := by
    rintro e _ (⟨hin, hnil⟩ | ⟨hin, hc⟩)
    · exact hin.position_returned (by simp [current?, hnil])
    · exact hin.position_next_returned hc
  indentation_eq := by
    intro e e' h _
    have hend := h.atLineEnd
    cases h with
    | ended hin => exact indentation_returned hwhole hin hend
    | newline hin hc =>
      have hline := indentation_returned hwhole hin hend
      rw [position_next (returned_of_newline hc hin.one_le_line).1]
      exact hline
  ahead := by
    rintro e _ (⟨-, hnil⟩ | ⟨hin, hc⟩) margin
    · rw [Cursor.returned, hnil]
      rfl
    · obtain ⟨-, hnewline, hbelow⟩ := returned_of_newline hc hin.one_le_line
      rw [rest_of_current? hnewline, rest_of_current? hc, hbelow, Cursor.returned, aheadIndentation,
        aheadIndentation, splitLines_newline, splitLines_newline, List.tail_cons, List.tail_cons,
        contentIndentation_withReturns]
      rfl

variable {c : Cursor}

include htext

theorem beside_returned (h : c.IsIn src) :
    (Alignment.ofReturns hwhole).Beside c c.returned := by
  induction hlength : c.rest.length using Nat.strongRecOn generalizing c with
  | ind n ih =>
    subst hlength
    cases hc : c.current? with
    | none => exact .lineEnd (.ended h (List.head?_eq_none_iff.1 hc))
    | some ch =>
      by_cases hch : ch = '\n'
      · subst hch
        exact .returned rfl hc (returned_of_newline hc h.one_le_line).1 (h.returned hwhole)
          (.newline h hc)
      · have hne : ch ≠ '\r' := by
          rintro rfl
          exact htext (h.suffix.mem (List.mem_of_mem_head? hc))
        obtain ⟨hc', hnext⟩ := returned_of_ne hc hch
        refine .char hc hc' hch (fun _ => hne) h (h.returned hwhole)
          (h.position_returned (by simpa [hc] using hch)) ?_
        rw [hnext]
        exact ih _ (length_next_lt hc) (h.reaches c.reaches_next) rfl

theorem settled_skipInsignificant (h : c.IsIn src) :
    (Alignment.ofReturns hwhole).Settled c.skipInsignificant c.returned.skipInsignificant := by
  rw [h.skipInsignificant_returned]
  apply (beside_returned htext hwhole (h.reaches c.reaches_skipInsignificant)).settled_of_ne
  exact head?_drop_insignificant false c.rest

theorem settled_endsReturned {e e' : Cursor} (h : (Alignment.ofReturns hwhole).Ends e e') :
    (Alignment.ofReturns hwhole).Settled e.skipInsignificant e'.skipInsignificant := by
  cases h with
  | ended hin => exact settled_skipInsignificant htext hwhole hin
  | newline hin hc =>
    have hskip : e.returned.next.skipInsignificant = e.returned.skipInsignificant := by
      have hreturn := (returned_of_newline hc hin.one_le_line).1
      rw [skipInsignificant, skipInsignificant, rest_of_current? hreturn]
      exact (drop_add_one _ _).symm
    rw [hskip]
    exact settled_skipInsignificant htext hwhole hin

theorem connected_ofReturns : (Alignment.ofReturns hwhole).Connected := by
  constructor
  · intro e e' h _
    exact settled_endsReturned htext hwhole h
  · intro c c' h hc
    have hnewline := current?_skipLine_of_continuesLine hc
    have hends := h.ends_skipLine
    generalize c'.skipLine = e' at hends
    cases hends with
    | ended _ hnil => exact absurd hnil (rest_ne_nil_of_current? hnewline)
    | newline hin _ =>
      rw [(returned_of_newline hnewline hin.one_le_line).2.2]
      exact (beside_returned htext hwhole (hin.reaches (reaches_next _))).skipBlanks.beside

end

end IndentedGrammar
