import IndentedGrammar.Diagnostic.Basic
import IndentedGrammar.Source.Layout
import IndentedGrammar.Term.Basic

/-! Reading a term: alternatives, sequences, operators and atoms, each a function from a cursor to the
node read and the cursor behind it, or to the one diagnostic that ended the reading. What stands in
parentheses is read by the parameter `group`, so every level of nesting is one use of `choice`, and
`choiceWithin` counts the levels that are left. -/

namespace IndentedGrammar

inductive Reading (α : Type) where
  | done : α → Cursor → Reading α
  | failed : Diagnostic → Cursor → Reading α

/-- The text up to `close`, in which a backslash takes the next character along; nothing if the line
ends first. -/
def delimited? (close : Char) : List Char → Option (List Char)
  | [] => none
  | ch :: text =>
    if ch = '\n' then none
    else if ch = close then some []
    else if ch = '\\' then
      match text with
      | [] => none
      | taken :: text =>
        if taken = '\n' then none else (delimited? close text).map fun body => ch :: taken :: body
    else (delimited? close text).map (ch :: ·)

def unescaped : Char → Char
  | 'n' => '\n'
  | 't' => '\t'
  | 'r' => '\r'
  | ch => ch

def unescape : List Char → List Char
  | [] => []
  | ['\\'] => ['\\']
  | '\\' :: letter :: text => unescaped letter :: unescape text
  | ch :: text => ch :: unescape text

/-- How many of the first characters form names joined by single dots. A dot with no name after it is
not part of them. -/
def dottedName : List Char → Nat
  | [] => 0
  | ch :: text =>
    if isNameChar ch || (ch = '.' && text.head?.any isNameChar) then dottedName text + 1 else 0

def startsPart (ch : Char) : Bool :=
  isNameChar ch || ch = '"' || ch = '\'' || ch = '(' || ch = '[' || ch = '.' || ch = '!' || ch = '&'

namespace Term

variable (src : Source) (margin : Nat)

def readReference (c : Cursor) : Reading Term :=
  let length := dottedName c.rest
  .done ⟨.reference, c.position, some (String.ofList (c.rest.take length)), []⟩ (c.drop length)

def readDelimited (close : Char) (kind : Kind) (value : List Char → List Char)
    (unterminated empty : Problem) (c : Cursor) : Reading Term :=
  match delimited? close c.next.rest with
  | none => .failed ⟨c.position, unterminated⟩ c.skipLine
  | some [] => .failed ⟨c.position, empty⟩ (c.drop 2)
  | some body =>
    .done ⟨kind, c.position, some (String.ofList (value body)), []⟩ (c.drop (body.length + 2))

def readLiteral (quote : Char) : Cursor → Reading Term :=
  readDelimited quote .literal unescape .unterminatedLiteral .emptyLiteral

def readCharacterClass : Cursor → Reading Term :=
  readDelimited ']' .characterClass id .unterminatedClass .emptyClass

def readAtom (group : Cursor → Reading Term) (c : Cursor) : Reading Term :=
  match c.current? with
  | none => .failed ⟨c.position, .expectedTerm⟩ c
  | some ch =>
    if isNameChar ch then readReference c
    else if ch = '"' ∨ ch = '\'' then readLiteral ch c
    else if ch = '[' then readCharacterClass c
    else if ch = '.' then .done ⟨.any, c.position, none, []⟩ c.next
    else if ch = '(' then group c
    else .failed ⟨c.position, .expectedTerm⟩ c

def readRepeated (group : Cursor → Reading Term) (c : Cursor) : Reading Term :=
  match readAtom group c with
  | .failed d c' => .failed d c'
  | .done t c' =>
    match c'.current?.bind Repetition.ofSymbol? with
    | some r => .done ⟨.repetition r, c.position, none, [t]⟩ (c'.next.skipGap src margin)
    | none => .done t (c'.skipGap src margin)

def readPart (group : Cursor → Reading Term) (c : Cursor) : Reading Term :=
  match c.current?.bind Predicate.ofSymbol? with
  | none => readRepeated src margin group c
  | some p =>
    match readRepeated src margin group (c.next.skipGap src margin) with
    | .failed d c' => .failed d c'
    | .done t c' => .done ⟨.predicate p, c.position, none, [t]⟩ c'

def readParts (group : Cursor → Reading Term) (c : Cursor) : Reading (List Term) :=
  if c.current?.any startsPart then
    match readPart src margin group c with
    | .failed d c' => .failed d c'
    | .done t c' =>
      if _h : c'.rest.length < c.rest.length then
        match readParts group c' with
        | .failed d c'' => .failed d c''
        | .done ts c'' => .done (t :: ts) c''
      else .done [t] c'
  else .done [] c
termination_by c.rest.length

def collapse (kind : Kind) (position : Position) : List Term → Term
  | [t] => t
  | ts => ⟨kind, position, none, ts⟩

def readSequence (group : Cursor → Reading Term) (c : Cursor) : Reading Term :=
  match readParts src margin group c with
  | .failed d c' => .failed d c'
  | .done [] c' => .failed ⟨c'.position, .expectedTerm⟩ c'
  | .done ts c' => .done (collapse .sequence c.position ts) c'

def readAlternatives (group : Cursor → Reading Term) (c : Cursor) : Reading (List Term) :=
  match readSequence src margin group c with
  | .failed d c' => .failed d c'
  | .done t c' =>
    if c'.current? = some '|' then
      let c'' := c'.next.skipGap src margin
      if _h : c''.rest.length < c.rest.length then
        match readAlternatives group c'' with
        | .failed d e => .failed d e
        | .done ts e => .done (t :: ts) e
      else .done [t] c''
    else .done [t] c'
termination_by c.rest.length

def readChoice (group : Cursor → Reading Term) (c : Cursor) : Reading Term :=
  match readAlternatives src margin group c with
  | .failed d c' => .failed d c'
  | .done ts c' => .done (collapse .choice c.position ts) c'

def readGroup (inner : Cursor → Reading Term) (c : Cursor) : Reading Term :=
  match inner (c.next.skipGap src margin) with
  | .failed d c' => .failed d c'
  | .done t c' =>
    if c'.current? = some ')' then .done t c'.next else .failed ⟨c'.position, .unclosedGroup⟩ c'

def choiceWithin (limit : Int) : Nat → Cursor → Reading Term
  | 0 => readChoice src margin fun c => .failed ⟨c.position, .tooDeep limit⟩ c
  | levels + 1 => readChoice src margin (readGroup src margin (choiceWithin limit levels))

/-- Reads one term up to the end of its last line. Lines indented deeper than the one the cursor is on
continue it. `newlineFirst` allows the whole term to stand on such lines. -/
def read (limit : Int) (newlineFirst : Bool) (c : Cursor) : Reading Term :=
  let margin := src.indentation c.position.line
  let c₁ := c.skipContinuedBlanks.skipComment
  if c₁.atLineEnd && !newlineFirst then .failed ⟨c₁.position, .expectedTerm⟩ c₁
  else
    let c₂ := c₁.skipGap src margin
    let c₃ := if c₂.current? = some '|' then c₂.next.skipGap src margin else c₂
    match choiceWithin src margin limit limit.toNat c₃ with
    | .failed d c' => .failed d c'
    | .done t c' =>
      match c'.current? with
      | none | some '\n' => .done t c'
      | some ch => .failed ⟨c'.position, .unexpectedCharacter ch⟩ c'

end Term

end IndentedGrammar
