namespace IndentedGrammar

def isParameter (ch : Char) : Bool := ch.isDigit || ch = ';' || ch = '?'

def controlSequence? : List Char → Option Nat
  | '\x1b' :: '[' :: text =>
    let parameters := (text.takeWhile isParameter).length
    match text.drop parameters with
    | ch :: _ => if ch.isAlpha then some (parameters + 3) else none
    | [] => none
  | _ => none

/-- The text without its control sequences; `covered` counts the characters that still belong to the one
that has begun. What is left may look like a control sequence again. -/
def withoutSequencesFrom (covered : Nat) : List Char → List Char
  | [] => []
  | ch :: text =>
    match covered, controlSequence? (ch :: text) with
    | covered + 1, _ => withoutSequencesFrom covered text
    | 0, some length => withoutSequencesFrom (length - 1) text
    | 0, none => ch :: withoutSequencesFrom 0 text

def withoutSequences (text : String) : String := String.ofList (withoutSequencesFrom 0 text.toList)

end IndentedGrammar
