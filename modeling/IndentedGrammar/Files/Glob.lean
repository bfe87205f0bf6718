import IndentedGrammar.Text.Cut

/-! Patterns for names: `*` stands for any run of characters, `?` for any single one, and `[...]` for
one of the characters in it or, after `[!`, for one that is not. In a pattern for several components of
a path, `**` stands for any run of components. -/

namespace IndentedGrammar

namespace Glob

inductive Piece where
  | run : Piece
  | one : Piece
  | char : Char → Piece
  | oneOf : Bool → List (Char × Char) → Piece
  deriving DecidableEq

/-- The inside of a bracket and what follows it. A closing bracket right at the start belongs to the
inside. -/
def bracket? (text : List Char) : Option (List Char × List Char) :=
  let start := match text with
    | '!' :: ']' :: _ => 2
    | '!' :: _ => 1
    | ']' :: _ => 1
    | _ => 0
  let body := (text.drop start).takeWhile (· ≠ ']')
  match (text.drop start).drop body.length with
  | [] => none
  | _ :: rest => some (text.take start ++ body, rest)

def ranges : List Char → List (Char × Char)
  | [] => []
  | low :: '-' :: high :: text => (low, high) :: ranges text
  | ch :: text => (ch, ch) :: ranges text

/-- The ranges of a bracket. One whose ends are the wrong way round counts for nothing, and it is the
exclamation mark in front of what is left that negates. -/
def oneOf (body : List Char) : Piece :=
  let written := match body with
    | '!' :: body => ('!', '!') :: ranges body
    | body => ranges body
  match written.filter fun range => range.1 ≤ range.2 with
  | ('!', '!') :: ranges => .oneOf true ranges
  | ranges => .oneOf false ranges

def ofChars : List Char → List Piece
  | [] => []
  | '*' :: text => .run :: ofChars text
  | '?' :: text => .one :: ofChars text
  | '[' :: text =>
    match bracket? text with
    | none => .char '[' :: ofChars text
    | some (body, rest) =>
      if _h : rest.length ≤ text.length then oneOf body :: ofChars rest else [oneOf body]
  | ch :: text => .char ch :: ofChars text
termination_by text => text.length

def Piece.admits (piece : Piece) (ch : Char) : Bool :=
  match piece with
  | .run => false
  | .one => true
  | .char c => c = ch
  | .oneOf negated ranges => negated != ranges.any fun range => range.1 ≤ ch && ch ≤ range.2

def fits : List Piece → List Char → Bool
  | [], text => text.isEmpty
  | .run :: pieces, [] => fits pieces []
  | .run :: pieces, ch :: text => fits pieces (ch :: text) || fits (.run :: pieces) text
  | _ :: _, [] => false
  | piece :: pieces, ch :: text => piece.admits ch && fits pieces text
termination_by pieces text => pieces.length + text.length

end Glob

def globMatches (pattern name : String) : Bool := Glob.fits (Glob.ofChars pattern.toList) name.toList

def isPattern (pattern : String) : Bool :=
  pattern = "**" || !hasDoubled '*' pattern.toList

def isWild (pattern : String) : Bool := pattern.toList.any fun ch => ch = '*' || ch = '?' || ch = '['

end IndentedGrammar
