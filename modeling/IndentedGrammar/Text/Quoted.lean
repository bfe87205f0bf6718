import IndentedGrammar.Text.Unprintable

namespace IndentedGrammar

def hexadecimal (width n : Nat) : List Char := (Nat.toDigits 16 n).leftpad width '0'

def quotedChar (quote ch : Char) : List Char :=
  if ch = quote || ch = '\\' then ['\\', ch]
  else if ch = '\n' then ['\\', 'n']
  else if ch = '\r' then ['\\', 'r']
  else if ch = '\t' then ['\\', 't']
  else if !isUnprintable ch then [ch]
  else if ch.toNat < 0x100 then '\\' :: 'x' :: hexadecimal 2 ch.toNat
  else if ch.toNat < 0x10000 then '\\' :: 'u' :: hexadecimal 4 ch.toNat
  else '\\' :: 'U' :: hexadecimal 8 ch.toNat

/-- The text between single quotes, or between double ones if it holds a single and no double quote. -/
def quoted (text : String) : String :=
  let chars := text.toList
  let quote := if chars.contains '\'' && !chars.contains '"' then '"' else '\''
  String.ofList (quote :: chars.flatMap (quotedChar quote) ++ [quote])

end IndentedGrammar
