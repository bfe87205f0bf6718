import IndentedGrammar.Source.Cursor
import IndentedGrammar.Text.Cut

/-! A source by lines. Indentation and blankness are facts about whole lines, asked by line number;
numbers outside the source are answered as for an empty line. -/

namespace IndentedGrammar

def splitLines (text : List Char) : List (List Char) := cutAt '\n' text

def indentWidth : List Char → Nat
  | ' ' :: line => indentWidth line + 1
  | '\t' :: line => indentWidth line + 4
  | _ => 0

def isBlankLine (line : List Char) : Bool := (line.dropWhile isBlank).head?.all (· = '#')

def stripReturns (line : List Char) : List Char := (line.reverse.dropWhile (· = '\r')).reverse

structure Source where
  text : List Char
  file : Option String
  lines : List (List Char)
  lines_eq : lines = splitLines text

namespace Source

def ofText (text : List Char) (file : Option String) : Source := ⟨text, file, splitLines text, rfl⟩

def lineCount (src : Source) : Nat := src.lines.length

def line (src : Source) (n : Int) : List Char :=
  if n < 1 then [] else src.lines[(n - 1).toNat]?.getD []

def lineText (src : Source) (n : Int) : List Char := stripReturns (src.line n)

def indentation (src : Source) (n : Int) : Nat := indentWidth (src.line n)

def nextContentLine (src : Source) (n : Int) : Option Nat :=
  ((src.lines.drop n.toNat).findIdx? (fun line => !isBlankLine line)).map (· + n.toNat + 1)

/-- The indentation of the next content line. The end of the source is like a line without any. -/
def nextIndentation (src : Source) (n : Int) : Nat :=
  match src.nextContentLine n with
  | some m => src.indentation m
  | none => 0

def snippet (src : Source) (n context : Int) : List Char :=
  let first := max 1 (n - context)
  let last := min (src.lineCount : Int) (n + context)
  List.intercalate ['\n'] ((List.range (last + 1 - first).toNat).map fun i : Nat => src.lineText (first + i))

/-- The cursor at a place given by hand. Nothing makes its line and column fit its offset. -/
def cursorAt (src : Source) (p : Position) : Cursor := ⟨src.text.drop p.offset, p⟩

/-- Whether the text at the cursor starts with `text`. Past the end of the source nothing does, not
even the empty text. -/
def continuesWith (src : Source) (c : Cursor) (text : List Char) : Bool :=
  c.position.offset ≤ src.text.length && text.isPrefixOf c.rest

def shownFile (src : Source) : String := src.file.getD "<string>"

theorem lt_nextContentLine {src : Source} {n : Int} {m : Nat}
    (h : src.nextContentLine n = some m) : n < m := by
  simp only [nextContentLine, Option.map_eq_some_iff] at h
  obtain ⟨i, -, rfl⟩ := h
  omega

end Source

end IndentedGrammar
