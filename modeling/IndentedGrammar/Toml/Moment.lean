namespace IndentedGrammar.Toml

inductive MomentKind where
  | date : MomentKind
  | time : MomentKind
  | dateTime : MomentKind
  deriving DecidableEq

def readTwoDigits (most : Nat) : List Char → Option (Nat × List Char)
  | tens :: ones :: text =>
    if tens.isDigit && ones.isDigit then
      let n := 10 * (tens.toNat - '0'.toNat) + (ones.toNat - '0'.toNat)
      if n ≤ most then some (n, text) else none
    else none
  | _ => none

def readMark (mark : Char) : List Char → Option (List Char)
  | ch :: text => if ch = mark then some text else none
  | [] => none

structure Date where
  year : Nat
  month : Nat
  day : Nat
  deriving DecidableEq

def isLeapYear (year : Nat) : Bool := year % 4 = 0 && (year % 100 ≠ 0 || year % 400 = 0)

def daysIn (year month : Nat) : Nat :=
  if month = 2 then if isLeapYear year then 29 else 28
  else if [4, 6, 9, 11].contains month then 30 else 31

def Date.isReal (date : Date) : Bool := 0 < date.year && date.day ≤ daysIn date.year date.month

/-- A date by its form, with any month up to twelve and any day up to thirty-one. -/
def readDate (text : List Char) : Option (Date × List Char) := do
  let (century, text) ← readTwoDigits 99 text
  let (year, text) ← readTwoDigits 99 text
  let (month, text) ← readTwoDigits 12 (← readMark '-' text)
  let (day, text) ← readTwoDigits 31 (← readMark '-' text)
  if 0 < month && 0 < day then return (⟨100 * century + year, month, day⟩, text) else none

def skipSecondFraction (text : List Char) : List Char :=
  match text with
  | '.' :: ch :: rest => if ch.isDigit then rest.dropWhile Char.isDigit else text
  | _ => text

def skipTime (text : List Char) : Option (List Char) := do
  let (_, text) ← readTwoDigits 23 text
  let (_, text) ← readTwoDigits 59 (← readMark ':' text)
  let (_, text) ← readTwoDigits 59 (← readMark ':' text)
  return skipSecondFraction text

def skipOffset (text : List Char) : List Char :=
  match text with
  | 'Z' :: rest | 'z' :: rest => rest
  | '+' :: rest | '-' :: rest =>
    (do
      let (_, rest) ← readTwoDigits 23 rest
      let (_, rest) ← readTwoDigits 59 (← readMark ':' rest)
      return rest).getD text
  | _ => text

def skipTimeOfDate : List Char → Option (List Char)
  | 'T' :: text | 't' :: text | ' ' :: text => (skipTime text).map skipOffset
  | _ => none

/-- A moment, if one stands here: its kind and the text behind it. The kind is missing if the calendar
does not have the date. -/
def readMoment (text : List Char) : Option (Option MomentKind × List Char) :=
  match readDate text with
  | some (date, rest) =>
    if !date.isReal then some (none, rest)
    else
      match skipTimeOfDate rest with
      | some rest => some (some .dateTime, rest)
      | none => some (some .date, rest)
  | none => (skipTime text).map fun rest => (some .time, rest)

end IndentedGrammar.Toml
