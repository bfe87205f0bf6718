import IndentedGrammar.Source.Position

/-! A cursor is what is left of a source and the place where that begins. Every movement passes over
a run of characters at the front of what is left, so it is given by the length of that run:
`length_drop_lt` is why the loops over a source end. -/

namespace IndentedGrammar

def isBlank (ch : Char) : Bool := ch = ' ' || ch = '\t' || ch = '\r'

def isNameChar (ch : Char) : Bool := ('a' ≤ ch && ch ≤ 'z') || ch = '_'

structure Cursor where
  rest : List Char
  position : Position
  deriving DecidableEq

namespace Cursor

def start (text : List Char) : Cursor := ⟨text, .start⟩

def current? (c : Cursor) : Option Char := c.rest.head?

def atEnd (c : Cursor) : Bool := c.rest.isEmpty

def atLineEnd (c : Cursor) : Bool := c.rest.head?.all (· = '\n')

def startsName (c : Cursor) : Bool := c.rest.head?.any isNameChar

def drop (c : Cursor) (n : Nat) : Cursor := ⟨c.rest.drop n, c.position.afterAll (c.rest.take n)⟩

def next (c : Cursor) : Cursor := c.drop 1

def accept? (c : Cursor) (text : List Char) : Option Cursor :=
  if text.isPrefixOf c.rest then some (c.drop text.length) else none

/-- How many of the first characters form blanks and line continuations. A backslash right before the
end of a line, the carriage return of that end included, continues the line. -/
def continuedBlanks : List Char → Nat
  | [] => 0
  | '\\' :: '\n' :: text => continuedBlanks text + 2
  | '\\' :: '\r' :: '\n' :: text => continuedBlanks text + 3
  | ch :: text => if isBlank ch then continuedBlanks text + 1 else 0

/-- How many of the first characters form blanks, newlines and comments; `inComment` tells whether a
comment is already open. -/
def insignificant (inComment : Bool) : List Char → Nat
  | [] => 0
  | ch :: text =>
    if ch = '\n' then insignificant false text + 1
    else if inComment || isBlank ch then insignificant inComment text + 1
    else if ch = '#' then insignificant true text + 1
    else 0

def throughLines : Nat → List Char → Nat
  | 0, _ => 0
  | _ + 1, [] => 0
  | n + 1, ch :: text => (if ch = '\n' then throughLines n text else throughLines (n + 1) text) + 1

def skipBlanks (c : Cursor) : Cursor := c.drop (c.rest.takeWhile isBlank).length

def skipContinuedBlanks (c : Cursor) : Cursor := c.drop (continuedBlanks c.rest)

def skipLine (c : Cursor) : Cursor := c.drop (c.rest.takeWhile (· ≠ '\n')).length

def skipComment (c : Cursor) : Cursor := if c.current? = some '#' then c.skipLine else c

def skipInsignificant (c : Cursor) : Cursor := c.drop (insignificant false c.rest)

def name (c : Cursor) : List Char := c.rest.takeWhile isNameChar

theorem length_drop_le (c : Cursor) (n : Nat) : (c.drop n).rest.length ≤ c.rest.length := by
  simp [drop]

theorem length_drop_lt {c : Cursor} {n : Nat} (hn : 0 < n) (hc : c.rest ≠ []) :
    (c.drop n).rest.length < c.rest.length := by
  have := List.length_pos_iff.2 hc
  simp [drop]; omega

theorem length_skipComment_le (c : Cursor) : c.skipComment.rest.length ≤ c.rest.length := by
  unfold skipComment
  split
  · exact c.length_drop_le _
  · exact Nat.le_refl _

theorem insignificant_pos {text : List Char} (h : text.head? = some '\n') :
    0 < insignificant false text := by
  cases text with
  | nil => simp at h
  | cons ch text => simp_all [insignificant]

theorem throughLines_pos {n : Nat} {text : List Char} (hn : n ≠ 0) (ht : text ≠ []) :
    0 < throughLines n text := by
  cases n with
  | zero => exact absurd rfl hn
  | succ n => cases text with
    | nil => exact absurd rfl ht
    | cons ch text => simp [throughLines]

end Cursor

end IndentedGrammar
