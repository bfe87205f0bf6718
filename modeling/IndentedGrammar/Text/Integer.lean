import IndentedGrammar.Text.Cut

/-! Integers as a person may write them: with blanks around, a sign, zeros in front, even of a minus
sign, single underscores between digits, and a fraction of zeros. -/

namespace IndentedGrammar

def isWhiteSpace (ch : Char) : Bool :=
  let n := ch.toNat
  (0x9 ≤ n && n ≤ 0xD) || (0x2000 ≤ n && n ≤ 0x200A) ||
    [0x20, 0x85, 0xA0, 0x1680, 0x2028, 0x2029, 0x202F, 0x205F, 0x3000].contains n

def trim (text : List Char) : List Char :=
  ((text.dropWhile isWhiteSpace).reverse.dropWhile isWhiteSpace).reverse

/-- The most characters that an integer in plain form can have, its sign included. -/
def longestInteger : Nat := 4300

def ofDecimalDigits (digits : List Char) : Nat :=
  digits.foldl (fun n digit => 10 * n + (digit.toNat - '0'.toNat)) 0

def readPlainDigits? (digits : List Char) : Option Nat :=
  match digits with
  | [] => none
  | '0' :: _ :: _ => none
  | digits => if digits.all Char.isDigit then some (ofDecimalDigits digits) else none

def readPlainInteger? (text : List Char) : Option Int :=
  if longestInteger < text.length then none
  else
    match text with
    | '-' :: digits => (readPlainDigits? digits).map fun n => -(n : Int)
    | digits => (readPlainDigits? digits).map fun n => (n : Int)

def isDigitOrMinus (ch : Char) : Bool := ch.isDigit || ch = '-'

def dropZeros : List Char → List Char
  | '0' :: '_' :: ch :: text =>
    if isDigitOrMinus ch then dropZeros (ch :: text) else '0' :: '_' :: ch :: text
  | '0' :: ch :: text => if isDigitOrMinus ch then dropZeros (ch :: text) else '0' :: ch :: text
  | text => text

def dropFraction (text : List Char) : List Char :=
  let fraction := (text.dropWhile (· ≠ '.')).drop 1
  if !fraction.isEmpty && fraction.all (· = '0') then text.takeWhile (· ≠ '.') else text

def dropUnderscores (text : List Char) : List Char :=
  if text.head? = some '_' || text.getLast? = some '_' || hasDoubled '_' text then text
  else text.filter (· ≠ '_')

def plainForm (text : List Char) : List Char := dropUnderscores (dropFraction (dropZeros text))

def readInteger? (text : String) : Option Int :=
  let (sign, text) := match trim text.toList with
    | '+' :: text => ([], text)
    | '-' :: text => (['-'], text)
    | text => ([], text)
  if text.head?.any Char.isDigit then readPlainInteger? (sign ++ plainForm text) else none

end IndentedGrammar
