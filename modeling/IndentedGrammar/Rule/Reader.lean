import IndentedGrammar.Diagnostic.Context
import IndentedGrammar.Note
import IndentedGrammar.Rule.Record
import IndentedGrammar.Term.Reader

/-! Reading a rule and the block below it. Whatever goes wrong in a declaration is reported once and
its block is skipped, so that the declarations after it are still read. `read` counts the levels of
nesting that are left; the children of a group are read by the parameter `child`. -/

namespace IndentedGrammar

/-- A state of reading that no source leads to, only a cursor put at a wrong place. -/
inductive Fault where
  | noRule : Context → Fault
  | incompleteRule : Context → Fault
  | flawed : Flaw → Fault
  deriving DecidableEq

def Fault.message : Fault → String
  | .noRule _ => "no rule found"
  | .incompleteRule _ => "incomplete rule parse"
  | .flawed flaw => flaw.message

def Fault.context? : Fault → Option Context
  | .noRule ctx => some ctx
  | .incompleteRule ctx => some ctx
  | .flawed _ => none

/-- What one attempt to read came to: the result, or nothing after diagnostics, together with all that
was reported and noted on the way and the cursor where it ended. `starts` tells where declarations were
looked for, in order. -/
structure Attempt (α : Type) where
  result : Except Fault (Option α)
  diagnostics : List Diagnostic
  notes : List Note
  starts : List Position
  cursor : Cursor

namespace Attempt

variable {α : Type}

def done (value : α) (c : Cursor) : Attempt α := ⟨.ok (some value), [], [], [], c⟩

def fail (position : Position) (problem : Problem) (c : Cursor) : Attempt α :=
  ⟨.ok none, [⟨position, problem⟩], [], [], c⟩

def misplaced (position : Position) (c : Cursor) : Attempt α :=
  { fail position .unexpectedIndentation c with starts := [position] }

def fault (f : Fault) (c : Cursor) : Attempt α := ⟨.error f, [], [], [], c⟩

def note (a : Attempt α) (note : Note) : Attempt α := { a with notes := a.notes ++ [note] }

def cons (a : Attempt α) (more : Cursor → Attempt (List α)) : Attempt (List α) :=
  match a.result with
  | .error f => ⟨.error f, a.diagnostics, a.notes, a.starts, a.cursor⟩
  | .ok first =>
    let b := more a.cursor
    ⟨b.result.map fun rest => first.bind fun x => rest.map (x :: ·), a.diagnostics ++ b.diagnostics,
      a.notes ++ b.notes, a.starts ++ b.starts, b.cursor⟩

end Attempt

namespace Rule

def misalignment (width : Nat) (depth : Int) : Option Problem :=
  if width % 4 ≠ 0 then some .invalidIndentation
  else if (width : Int) ≠ 4 * depth then some .unexpectedIndentation
  else none

def separated (c : Cursor) : Bool :=
  c.rest.head?.all fun ch => isBlank ch || ch = '\n' || ch = '\\'

variable (src : Source) (limit : Int)

def readDeclaration (read : Cursor → Attempt Rule) (c : Cursor) : Attempt Rule :=
  let a : Attempt Rule := if c.startsName then read c else .fail c.position .expectedRuleName c
  let b := { a with starts := c.position :: a.starts }
  match b.result with
  | .ok (some _) =>
    if b.cursor.atLineEnd then b
    else { b with result := .error (.incompleteRule (src.contextAt b.cursor)) }
  | _ => b

def readChild (parent : String) (depth : Nat) (child : Cursor → Attempt Rule) (c : Cursor) :
    Attempt Rule :=
  let a := readDeclaration src child c
  match a.result with
  | .error _ => a
  | .ok (some r) => { a with result := .ok (some (r.within parent)) }
  | .ok none =>
    let b := a.note (.childFailed parent a.cursor.position.line)
    { b with cursor := b.cursor.skipBlock src (4 * (depth + 1)) }

def readChildren (parent : String) (depth : Nat) (child : Cursor → Attempt Rule) (c : Cursor) :
    Attempt (List Rule) :=
  let width := src.nextIndentation c.position.line
  if width ≤ 4 * depth then .done [] c
  else
    let d := c.skipInsignificant
    if width ≠ 4 * (depth + 1) then
      .misplaced d.position (d.skipBlock src (4 * depth))
    else
      (readChild src parent depth child d).cons fun e =>
        if _h : e.rest.length < c.rest.length then readChildren parent depth child e
        else .done [] e
termination_by c.rest.length

def readTerminal (heading : Heading) (depth : Nat) (c : Cursor) : Attempt Rule :=
  if separated c then
    match Term.read src limit true c.skipContinuedBlanks with
    | .failed d c' =>
      ⟨.ok none, [d], [.skippedBlock heading.name], [], c'.skipBlock src (4 * depth)⟩
    | .done t c' =>
      match ofTerm? heading t with
      | .error flaw => .fault (.flawed flaw) c'
      | .ok r => .done r c'
  else .fail c.position .expectedSpace (c.skipBlock src (4 * depth))

/-- Reads the children of a group; the cursor is right behind the three dots. That there are none is
only reported if nothing else is wrong. -/
def readGroup (child : Cursor → Attempt Rule) (heading : Heading) (depth : Nat) (c : Cursor) :
    Attempt Rule :=
  let d := c.skipBlanks.skipComment
  let trailing := if d.atLineEnd then [] else [⟨d.position, .trailingCharacters⟩]
  let a := readChildren src heading.name depth child d.skipLine
  let finish (result : Except Fault (Option Rule)) (more : List Diagnostic) : Attempt Rule :=
    ⟨result, trailing ++ a.diagnostics ++ more, a.notes, a.starts, a.cursor⟩
  match a.result with
  | .error f => finish (.error f) []
  | .ok none => finish (.ok none) []
  | .ok (some children) =>
    if !trailing.isEmpty then finish (.ok none) []
    else if children.isEmpty then
      finish (.ok none) [⟨heading.position, .noChildren heading.name⟩]
    else
      match ofChildren? heading children with
      | .error flaw => finish (.error (.flawed flaw)) []
      | .ok r => finish (.ok (some r)) []

def read : (levels depth : Nat) → Cursor → Attempt Rule
  | levels, depth, c =>
    match misalignment (src.indentation c.position.line) depth with
    | some problem => .fail c.position problem c
    | none =>
      match levels with
      | 0 => .fail c.position (.tooDeep limit) (c.skipBlock src (4 * depth))
      | levels + 1 =>
        if c.name.isEmpty then .fault (.noRule (src.contextAt c)) c
        else
          let heading : Heading := ⟨String.ofList c.name, c.position, []⟩
          let d := (c.drop c.name.length).skipBlanks
          match d.accept? [':'], d.accept? ['.', '.', '.'] with
          | some e, _ => readTerminal src limit heading depth e
          | none, some e => readGroup src (read levels (depth + 1)) heading depth e
          | none, none => .fail d.position .expectedHeading (d.skipBlock src (4 * depth))
termination_by structural levels => levels

/-- Reads one rule at the cursor, which is to be inside of `depth` groups. No source has a line for a
negative depth. -/
def readAt (depth : Int) (c : Cursor) : Attempt Rule :=
  match misalignment (src.indentation c.position.line) depth with
  | some problem => .fail c.position problem c
  | none => read src limit (limit + 1 - depth).toNat depth.toNat c

end Rule

end IndentedGrammar
