import IndentedGrammar.Document

/-! A cursor under remote control: one step asks something, moves the cursor, or reads a term or a rule
at it. Positions can be saved and gone back to. A step that fails leaves the cursor where it got to. -/

namespace IndentedGrammar

structure Session where
  source : Source
  cursor : Cursor
  saved : List Position

namespace Session

inductive Step where
  | endReached : Step
  | atLineEnd : Step
  | indentation : Step
  | lineCount : Step
  | currentChar : Step
  | advance : Step
  | peek : Int → Step
  | continuesWith : List Char → Step
  | accept : List Char → Step
  | skipSpace : Bool → Step
  | skipComment : Step
  | skipInsignificant : Step
  | skipLine : Step
  | skipBlock : Option Int → Step
  | lineText : Int → Step
  | lineIndentation : Int → Step
  | isBlankLine : Int → Step
  | nextContentLine : Step
  | indentationDelta : Int → Step
  | snippet : Int → Int → Step
  | describe : Step
  | startsRule : Step
  | save : Step
  | restore : Int → Step
  | moveTo : Position → Step
  | complain : String → Step
  | readTerm : Bool → Int → Step
  | readRule : Int → Int → Step

inductive Answer where
  | nothing : Answer
  | flag : Bool → Answer
  | number : Int → Answer
  | char : Char → Answer
  | text : String → Answer
  | term : Term → Answer
  | rule : Rule → Answer

inductive Failure where
  | beforeStart : Failure
  | notSaved : Failure
  | complaint : Context → String → Failure
  | fault : Fault → Failure

structure Outcome where
  answer : Except Failure Answer
  diagnostics : List Diagnostic
  session : Session

def index? (length : Nat) (i : Int) : Option Nat :=
  if 0 ≤ i then if i < length then some i.toNat else none
  else if 0 ≤ i + length then some (i + length).toNat
  else none

def start (source : Source) : Session := ⟨source, .start source.text, []⟩

variable (s : Session)

def tell (answer : Answer) : Outcome := ⟨.ok answer, [], s⟩

def refuse (failure : Failure) : Outcome := ⟨.error failure, [], s⟩

def moved (c : Cursor) : Outcome := ⟨.ok .nothing, [], { s with cursor := c }⟩

def tellChar (ch : Option Char) : Outcome := s.tell (ch.elim .nothing .char)

/-- The character `n` places after the cursor, which is nothing past the end. A place before the start
is counted from the end. -/
def peek (n : Int) : Outcome :=
  let place := s.cursor.position.offset + n
  if s.source.text.length ≤ place then s.tell .nothing
  else
    match index? s.source.text.length place with
    | some i => s.tellChar s.source.text[i]?
    | none => s.refuse .beforeStart

def accept (text : List Char) : Outcome :=
  if s.source.continuesWith s.cursor text then
    ⟨.ok (.flag true), [], { s with cursor := s.cursor.drop text.length }⟩
  else s.tell (.flag false)

def restore (i : Int) : Outcome :=
  match (index? s.saved.length i).bind fun i => s.saved[i]? with
  | some p => s.moved (s.source.cursorAt p)
  | none => s.refuse .notSaved

def readTerm (newlineFirst : Bool) (limit : Int) : Outcome :=
  match Term.read s.source limit newlineFirst s.cursor with
  | .done t c => ⟨.ok (.term t), [], { s with cursor := c }⟩
  | .failed d c => ⟨.ok .nothing, [d], { s with cursor := c }⟩

def readRule (depth limit : Int) : Outcome :=
  let a := Rule.readAt s.source limit depth s.cursor
  let answer := match a.result with
    | .ok (some r) => .ok (.rule r)
    | .ok none => .ok .nothing
    | .error f => .error (.fault f)
  ⟨answer, a.diagnostics, { s with cursor := a.cursor }⟩

def run : Step → Outcome
  | .endReached => s.tell (.flag s.cursor.atEnd)
  | .atLineEnd => s.tell (.flag s.cursor.atLineEnd)
  | .indentation => s.tell (.number (s.source.indentation s.cursor.position.line))
  | .lineCount => s.tell (.number s.source.lineCount)
  | .currentChar => s.tellChar s.cursor.current?
  | .advance => { s.tellChar s.cursor.current? with session := { s with cursor := s.cursor.next } }
  | .peek n => s.peek n
  | .continuesWith text => s.tell (.flag (s.source.continuesWith s.cursor text))
  | .accept text => s.accept text
  | .skipSpace true => s.moved s.cursor.skipContinuedBlanks
  | .skipSpace false => s.moved s.cursor.skipBlanks
  | .skipComment => s.moved s.cursor.skipComment
  | .skipInsignificant => s.moved s.cursor.skipInsignificant
  | .skipLine => s.moved s.cursor.skipLine
  | .skipBlock margin =>
    let own : Int := s.source.indentation s.cursor.position.line
    s.moved (s.cursor.skipBlock s.source (margin.getD own))
  | .lineText n => s.tell (.text (String.ofList (s.source.lineText n)))
  | .lineIndentation n => s.tell (.number (s.source.indentation n))
  | .isBlankLine n => s.tell (.flag (isBlankLine (s.source.line n)))
  | .nextContentLine =>
    s.tell ((s.source.nextContentLine s.cursor.position.line).elim .nothing fun n => .number n)
  | .indentationDelta n =>
    let next : Int := s.source.nextIndentation s.cursor.position.line
    s.tell (.number (next - s.source.indentation n))
  | .snippet n context => s.tell (.text (String.ofList (s.source.snippet n context)))
  | .describe =>
    s.tell (.text ("TextBuffer(" ++ s.source.shownFile ++ ", " ++ s.cursor.position.render ++ ")"))
  | .startsRule => s.tell (.flag s.cursor.startsName)
  | .save =>
    ⟨.ok (.text s.cursor.position.render), [], { s with saved := s.saved ++ [s.cursor.position] }⟩
  | .restore i => s.restore i
  | .moveTo p => s.moved (s.source.cursorAt p)
  | .complain message => s.refuse (.complaint (s.source.contextAt s.cursor) message)
  | .readTerm newlineFirst limit => s.readTerm newlineFirst limit
  | .readRule depth limit => s.readRule depth limit

end Session

end IndentedGrammar
