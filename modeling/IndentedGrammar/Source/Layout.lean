import IndentedGrammar.Source.Lines

namespace IndentedGrammar.Cursor

variable (src : Source)

/-- Skips what may stand between two tokens: blanks, line continuations, comments, and newlines whose
next content line is indented deeper than `margin`. -/
def skipGap (margin : Nat) (c : Cursor) : Cursor :=
  let d := c.skipContinuedBlanks.skipComment
  if _h : d.current? = some '\n' ∧ margin < src.nextIndentation d.position.line then
    skipGap margin d.skipInsignificant
  else d
termination_by c.rest.length
decreasing_by
  have hne : d.rest ≠ [] := fun e => by simp [current?, e] at _h
  have h₁ := length_drop_lt (insignificant_pos _h.1) hne
  have h₂ := c.skipContinuedBlanks.length_skipComment_le
  have h₃ := c.length_drop_le (continuedBlanks c.rest)
  exact Nat.lt_of_lt_of_le h₁ (Nat.le_trans h₂ h₃)

def toLine (n : Int) (c : Cursor) : Cursor :=
  c.drop (throughLines (n - c.position.line).toNat c.rest)

/-- Skips the rest of the line and all lines after it that are indented deeper than `margin`, with
the blank and comment lines between them, up to the newline that ends the block. -/
def skipBlock (margin : Int) (c : Cursor) : Cursor :=
  let d := c.skipLine
  match _hn : src.nextContentLine d.position.line with
  | none => d
  | some n =>
    if _h : (src.indentation n : Int) ≤ margin ∨ d.rest = [] then d
    else skipBlock margin (d.toLine n)
termination_by c.rest.length
decreasing_by
  have hlt := Source.lt_nextContentLine _hn
  have hne := (not_or.1 _h).2
  have h₁ : (d.toLine n).rest.length < d.rest.length :=
    length_drop_lt (throughLines_pos (by omega) hne) hne
  exact Nat.lt_of_lt_of_le h₁ (c.length_drop_le _)

end IndentedGrammar.Cursor
