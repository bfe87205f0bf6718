import IndentedGrammar.Source.Cursor
import IndentedGrammar.Term.Printer
import IndentedGrammar.Text.Cut

namespace IndentedGrammar

def isName (text : List Char) : Bool := !text.isEmpty && text.all isNameChar

def isDottedName (text : List Char) : Bool := (cutAt '.' text).all isName

def isClassBody : List Char → Bool
  | [] => true
  | ['\\'] => false
  | '\\' :: taken :: text => taken ≠ '\n' && isClassBody text
  | ch :: text => ch ≠ ']' && ch ≠ '\n' && isClassBody text

namespace Term

def fitsText (text : Option String) : Kind → Bool
  | .reference => text.any fun name => isDottedName name.toList
  | .literal => text.any fun value => value ≠ ""
  | .characterClass => text.any fun body => body ≠ "" && isClassBody body.toList
  | _ => text.isNone

def fitsChildren (n : Nat) : Kind → Bool
  | .choice | .sequence => 2 ≤ n
  | .predicate _ | .repetition _ => n = 1
  | _ => n = 0

mutual

def WellFormed : Term → Prop
  | ⟨kind, _, text, children⟩ =>
    fitsText text kind ∧ fitsChildren children.length kind ∧ AllWellFormed children

def AllWellFormed : List Term → Prop
  | [] => True
  | t :: ts => t.WellFormed ∧ AllWellFormed ts

end

mutual

theorem printable_of_wellFormed : (t : Term) → t.WellFormed → t.printable
  | ⟨kind, _, _, children⟩, h => by
    rw [WellFormed] at h
    have hall := allPrintable_of_wellFormed children h.2.2
    cases kind with
    | choice | sequence => simpa [printable] using hall
    | predicate | repetition =>
      cases children with
      | nil => simp [fitsChildren] at h
      | cons t ts => simp_all [printable, firstPrintable, allPrintable]
    | reference | literal | characterClass | any => simp [printable]

theorem allPrintable_of_wellFormed : (ts : List Term) → AllWellFormed ts → allPrintable ts
  | [], _ => rfl
  | t :: ts, h => by
    rw [AllWellFormed] at h
    simp [allPrintable, printable_of_wellFormed t h.1, allPrintable_of_wellFormed ts h.2]

end

theorem allWellFormed_iff {ts : List Term} : AllWellFormed ts ↔ ∀ t ∈ ts, t.WellFormed := by
  induction ts with
  | nil => simp [AllWellFormed]
  | cons t ts ih => simp [AllWellFormed, ih]

end Term

end IndentedGrammar
