import IndentedGrammar.Toml.Value

/-! Reading a TOML document. A reader takes the text and gives what it read with the rest of the text, or
nothing if the document is broken. `fuel` bounds the nesting and the number of parts, which the length
of the document does as well. -/

namespace IndentedGrammar.Toml

def isSpace (ch : Char) : Bool := ch = ' ' || ch = '\t'

def isSpaceOrNewline (ch : Char) : Bool := isSpace ch || ch = '\n'

def isBareKeyChar (ch : Char) : Bool := ch.isAlphanum || ch = '-' || ch = '_'

def isForbidden (ch : Char) : Bool := (ch.toNat < 32 && ch ≠ '\t') || ch.toNat = 127

def skipSpace (text : List Char) : List Char := text.dropWhile isSpace

def skipComment : List Char → Option (List Char)
  | '#' :: text =>
    if (text.takeWhile (· ≠ '\n')).any isForbidden then none else some (text.dropWhile (· ≠ '\n'))
  | text => some text

def skipFiller : (fuel : Nat) → List Char → Option (List Char)
  | 0, text => some text
  | fuel + 1, text =>
    match text.dropWhile isSpaceOrNewline with
    | '#' :: text => (skipComment ('#' :: text)).bind (skipFiller fuel)
    | text => some text

def digitValue (ch : Char) : Nat :=
  if ch.isDigit then ch.toNat - '0'.toNat else ch.toLower.toNat - 'a'.toNat + 10

def isDigitOf (base : Nat) (ch : Char) : Bool :=
  (ch.isDigit || ('a' ≤ ch.toLower && ch.toLower ≤ 'f')) && digitValue ch < base

def ofDigits (base : Nat) (digits : List Char) : Nat :=
  digits.foldl (fun n ch => base * n + digitValue ch) 0

def readScalar (width : Nat) (text : List Char) : Option (Char × List Char) :=
  let digits := text.take width
  let n := ofDigits 16 digits
  if digits.length = width && digits.all (isDigitOf 16) && n.isValidChar then
    some (Char.ofNat n, text.drop width)
  else none

def readEscape : List Char → Option (Char × List Char)
  | 'b' :: text => some ('\x08', text)
  | 't' :: text => some ('\t', text)
  | 'n' :: text => some ('\n', text)
  | 'f' :: text => some ('\x0c', text)
  | 'r' :: text => some ('\r', text)
  | '"' :: text => some ('"', text)
  | '\\' :: text => some ('\\', text)
  | 'u' :: text => readScalar 4 text
  | 'U' :: text => readScalar 8 text
  | _ => none

def skipLineEnd (text : List Char) : Option (List Char) :=
  match skipSpace text with
  | '\n' :: text => some (text.dropWhile isSpaceOrNewline)
  | _ => none

/-- The end of a string over several lines, which may have up to two more quotes before it. -/
def readClosing (quote : Char) (text : List Char) : List Char × List Char :=
  let more := min 2 (text.takeWhile (· = quote)).length
  (List.replicate more quote, text.drop more)

def readBasic (multiline : Bool) : (fuel : Nat) → List Char → Option (List Char × List Char)
  | 0, _ => none
  | _ + 1, [] => none
  | fuel + 1, '"' :: text =>
    if !multiline then some ([], text)
    else match text with
      | '"' :: '"' :: text => some (readClosing '"' text)
      | text => (readBasic multiline fuel text).map fun (value, rest) => ('"' :: value, rest)
  | fuel + 1, '\\' :: text =>
    if multiline && text.head?.any isSpaceOrNewline then
      (skipLineEnd text).bind (readBasic multiline fuel)
    else do
      let (ch, text) ← readEscape text
      let (value, rest) ← readBasic multiline fuel text
      return (ch :: value, rest)
  | fuel + 1, ch :: text =>
    if isForbidden ch && !(multiline && ch = '\n') then none
    else (readBasic multiline fuel text).map fun (value, rest) => (ch :: value, rest)

def readLiteral (multiline : Bool) : List Char → Option (List Char × List Char)
  | [] => none
  | '\'' :: text =>
    if !multiline then some ([], text)
    else match text with
      | '\'' :: '\'' :: text => some (readClosing '\'' text)
      | text => (readLiteral multiline text).map fun (value, rest) => ('\'' :: value, rest)
  | ch :: text =>
    if isForbidden ch && !(multiline && ch = '\n') then none
    else (readLiteral multiline text).map fun (value, rest) => (ch :: value, rest)

def skipNewline : List Char → List Char
  | '\n' :: text => text
  | text => text

def readString (fuel : Nat) : List Char → Option (List Char × List Char)
  | '"' :: '"' :: '"' :: text => readBasic true fuel (skipNewline text)
  | '"' :: text => readBasic false fuel text
  | '\'' :: '\'' :: '\'' :: text => readLiteral true (skipNewline text)
  | '\'' :: text => readLiteral false text
  | _ => none

def moreDigits (isDigit : Char → Bool) : List Char → List Char × List Char
  | '_' :: ch :: text =>
    if isDigit ch then
      let (digits, rest) := moreDigits isDigit text
      (ch :: digits, rest)
    else ([], '_' :: ch :: text)
  | ch :: text =>
    if isDigit ch then
      let (digits, rest) := moreDigits isDigit text
      (ch :: digits, rest)
    else ([], ch :: text)
  | [] => ([], [])

def readDigits (isDigit : Char → Bool) : List Char → Option (List Char × List Char)
  | ch :: text =>
    if isDigit ch then
      let (digits, rest) := moreDigits isDigit text
      some (ch :: digits, rest)
    else none
  | [] => none

def readPart (signed : Bool) (text : List Char) : Option (List Char × List Char) :=
  match text with
  | ch :: rest =>
    if signed && (ch = '+' || ch = '-') then
      (readDigits Char.isDigit rest).map fun (digits, rest) => (ch :: digits, rest)
    else readDigits Char.isDigit text
  | [] => none

def readFraction : List Char → List Char × List Char
  | '.' :: text => ((readPart false text).map fun (part, rest) => ('.' :: part, rest)).getD ([], '.' :: text)
  | text => ([], text)

def readExponent : List Char → List Char × List Char
  | [] => ([], [])
  | mark :: text =>
    if mark = 'e' || mark = 'E' then
      ((readPart true text).map fun (part, rest) => (mark :: part, rest)).getD ([], mark :: text)
    else ([], mark :: text)

def readWhole : List Char → Option (List Char × List Char)
  | '0' :: rest => some (['0'], rest)
  | text => readDigits Char.isDigit text

def readDecimal (sign : List Char) (text : List Char) : Option (Value × List Char) := do
  let (digits, text) ← readWhole text
  let (fraction, text) := readFraction text
  let (exponent, text) := readExponent text
  if fraction.isEmpty && exponent.isEmpty then
    let n : Int := ofDigits 10 digits
    return (.integer (if sign = ['-'] then -n else n), text)
  else return (.float (String.ofList (sign ++ digits ++ fraction ++ exponent)), text)

def readSpecial (sign : List Char) : List Char → Option (Value × List Char)
  | 'i' :: 'n' :: 'f' :: text => some (.float (String.ofList (sign ++ ['i', 'n', 'f'])), text)
  | 'n' :: 'a' :: 'n' :: text => some (.float (String.ofList (sign ++ ['n', 'a', 'n'])), text)
  | _ => none

def readInBase (base : Nat) (text : List Char) : Option (Value × List Char) :=
  (readDigits (isDigitOf base) text).map fun (digits, rest) => (.integer (ofDigits base digits), rest)

def readNumber (text : List Char) : Option (Value × List Char) :=
  match text with
  | '0' :: 'x' :: digits => readInBase 16 digits
  | '0' :: 'o' :: digits => readInBase 8 digits
  | '0' :: 'b' :: digits => readInBase 2 digits
  | '+' :: text => (readDecimal ['+'] text).or (readSpecial ['+'] text)
  | '-' :: text => (readDecimal ['-'] text).or (readSpecial ['-'] text)
  | text => (readDecimal [] text).or (readSpecial [] text)

def readPlain (text : List Char) : Option (Value × List Char) :=
  match readMoment text with
  | some (some kind, rest) =>
    some (.moment kind (String.ofList (text.take (text.length - rest.length))), rest)
  | some (none, _) => none
  | none => readNumber text

def readKeyPart (fuel : Nat) (text : List Char) : Option (String × List Char) :=
  match text with
  | '"' :: text => (readBasic false fuel text).map fun (part, rest) => (String.ofList part, rest)
  | '\'' :: text => (readLiteral false text).map fun (part, rest) => (String.ofList part, rest)
  | _ =>
    let part := text.takeWhile isBareKeyChar
    if part.isEmpty then none else some (String.ofList part, text.drop part.length)

def readKey : (fuel : Nat) → List Char → Option (List String × List Char)
  | 0, _ => none
  | fuel + 1, text => do
    let (part, text) ← readKeyPart (fuel + 1) text
    match skipSpace text with
    | '.' :: text =>
      let (parts, rest) ← readKey fuel (skipSpace text)
      return (part :: parts, rest)
    | rest => return ([part], rest)

def readEquals : List Char → Option (List Char)
  | '=' :: text => some (skipSpace text)
  | _ => none

mutual

def readValue : (fuel : Nat) → List Char → Option (Value × List Char)
  | 0, _ => none
  | fuel + 1, text =>
    match text with
    | '"' :: _ | '\'' :: _ =>
      (readString fuel text).map fun (value, rest) => (.string (String.ofList value), rest)
    | 't' :: 'r' :: 'u' :: 'e' :: text => some (.bool true, text)
    | 'f' :: 'a' :: 'l' :: 's' :: 'e' :: text => some (.bool false, text)
    | '[' :: text => do
      let text ← skipFiller fuel text
      let (items, rest) ← readItems fuel text
      return (.array items, rest)
    | '\x7b' :: text =>
      match skipSpace text with
      | '\x7d' :: rest => some (.table [], rest)
      | text => do
        let (entries, rest) ← readFields fuel [] text
        return (.table (Entry.toFields entries), rest)
    | text => readPlain text

def readItems : (fuel : Nat) → List Char → Option (List Value × List Char)
  | 0, _ => none
  | _ + 1, ']' :: text => some ([], text)
  | fuel + 1, text => do
    let (item, text) ← readValue fuel text
    match ← skipFiller fuel text with
    | ']' :: rest => return ([item], rest)
    | ',' :: text =>
      let (items, rest) ← readItems fuel (← skipFiller fuel text)
      return (item :: items, rest)
    | _ => none

/-- The fields of an inline table and its closing brace. No comma may stand after the last field. -/
def readFields : (fuel : Nat) → Entries → List Char → Option (Entries × List Char)
  | 0, _, _ => none
  | fuel + 1, entries, text => do
    let (key, text) ← readKey fuel text
    let text ← readEquals text
    let (value, text) ← readValue fuel text
    let entries ← entries.assign value key
    match skipSpace text with
    | '\x7d' :: rest => return (entries, rest)
    | ',' :: text => readFields fuel entries (skipSpace text)
    | _ => none

end

def endLine (text : List Char) : Option (List Char) := do
  match ← skipComment (skipSpace text) with
  | [] => return []
  | '\n' :: rest => return rest
  | _ => none

def readHeader (fuel : Nat) (close : List Char) (text : List Char) :
    Option (List String × List Char) := do
  let (key, text) ← readKey fuel (skipSpace text)
  if close.isPrefixOf text then return (key, text.drop close.length) else none

def openAt (opening : String → Entries → Option Entries) (key : List String) (entries : Entries) :
    Option Entries :=
  match key.getLast? with
  | none => none
  | some last => entries.alter (opening last) key.dropLast

def readLines : (fuel : Nat) → (header : List String) → Entries → List Char → Option Entries
  | 0, _, _, _ => none
  | fuel + 1, header, entries, text =>
    match skipSpace text with
    | [] => some entries
    | '\n' :: text => readLines fuel header entries text
    | '#' :: text => do readLines fuel header entries (← endLine ('#' :: text))
    | '[' :: '[' :: text => do
      let (key, text) ← readHeader fuel [']', ']'] text
      let entries ← openAt Entries.openElement key entries
      readLines fuel key entries (← endLine text)
    | '[' :: text => do
      let (key, text) ← readHeader fuel [']'] text
      let entries ← openAt Entries.openTable key entries
      readLines fuel key entries (← endLine text)
    | text => do
      let (key, text) ← readKey fuel text
      let (value, text) ← readValue fuel (← readEquals text)
      let entries ← entries.alter (Entries.assign value key) header
      readLines fuel header entries (← endLine text)

def read (text : List Char) : Option (List (String × Value)) :=
  (readLines (2 * text.length + 2) [] [] text).map Entry.toFields

end IndentedGrammar.Toml
