import IndentedGrammar.Document
import IndentedGrammar.Proofs.Term.Progress

namespace IndentedGrammar

open Cursor

theorem Cursor.reaches_of_accept? {c d : Cursor} {text : List Char} (h : c.accept? text = some d) :
    c.Reaches d := by
  rw [accept?] at h
  split at h
  · obtain rfl := Option.some.inj h
    exact .drop c _
  · simp at h

theorem Attempt.reaches_cons {α : Type} {a : Attempt α} {more : Cursor → Attempt (List α)}
    {c : Cursor} (h : c.Reaches a.cursor) (hmore : a.cursor.Reaches (more a.cursor).cursor) :
    c.Reaches (a.cons more).cursor := by
  rw [Attempt.cons]
  split
  · exact h
  · exact h.trans hmore

namespace Rule

variable (src : Source) (limit : Int)

theorem exists_readDeclaration_eq (read : Cursor → Attempt Rule) (c : Cursor) :
    ∃ result,
      let a := if c.startsName then read c else .fail c.position .expectedRuleName c
      readDeclaration src read c =
        ⟨result, a.diagnostics, a.notes, c.position :: a.starts, a.cursor⟩ := by
  rw [readDeclaration]
  generalize (if c.startsName then read c else .fail c.position .expectedRuleName c) = a
  dsimp only
  split
  · split
    · exact ⟨_, rfl⟩
    · exact ⟨_, rfl⟩
  · exact ⟨_, rfl⟩

theorem exists_readGroup_eq (read : Cursor → Attempt Rule) (heading : Heading) (depth : Nat)
    (c : Cursor) :
    ∃ result trailing missing,
      (let d := c.skipBlanks.skipComment
        let a := readChildren src heading.name depth read d.skipLine
        readGroup src read heading depth c =
          ⟨result, trailing ++ a.diagnostics ++ missing, a.notes, a.starts, a.cursor⟩) ∧
      (∀ e ∈ trailing, e = ⟨c.skipBlanks.skipComment.position, .trailingCharacters⟩) ∧
      ∀ e ∈ missing, e = ⟨heading.position, .noChildren heading.name⟩ := by
  have htrailing : ∀ e ∈ (if c.skipBlanks.skipComment.atLineEnd then [] else
      [⟨c.skipBlanks.skipComment.position, .trailingCharacters⟩] : List Diagnostic),
      e = ⟨c.skipBlanks.skipComment.position, .trailingCharacters⟩ := by
    split
    · nofun
    · exact List.forall_mem_singleton.2 rfl
  rw [readGroup]
  dsimp only
  generalize (if c.skipBlanks.skipComment.atLineEnd then [] else _ : List Diagnostic) = trailing
    at htrailing
  split
  · exact ⟨_, trailing, [], rfl, htrailing, nofun⟩
  · exact ⟨_, trailing, [], rfl, htrailing, nofun⟩
  split
  · exact ⟨_, trailing, [], rfl, htrailing, nofun⟩
  split
  · exact ⟨_, trailing, [_], rfl, htrailing, List.forall_mem_singleton.2 rfl⟩
  split
  · exact ⟨_, trailing, [], rfl, htrailing, nofun⟩
  · exact ⟨_, trailing, [], rfl, htrailing, nofun⟩

section

variable {read : Cursor → Attempt Rule} (hread : ∀ c : Cursor, c.Reaches (read c).cursor)

include hread

theorem reaches_readDeclaration (c : Cursor) : c.Reaches (readDeclaration src read c).cursor := by
  obtain ⟨result, heq⟩ := exists_readDeclaration_eq src read c
  rw [heq]
  dsimp only
  split
  · exact hread c
  · exact .refl c

theorem reaches_readChild (parent : String) (depth : Nat) (c : Cursor) :
    c.Reaches (readChild src parent depth read c).cursor := by
  have h := reaches_readDeclaration src hread c
  rw [readChild]
  dsimp only
  split
  · exact h
  · exact h
  · exact h.trans (reaches_skipBlock ..)

theorem reaches_readChildren (parent : String) (depth : Nat) (c : Cursor) :
    c.Reaches (readChildren src parent depth read c).cursor := by
  fun_induction readChildren src parent depth read c with
  | case1 c => exact .refl c
  | case2 c => exact c.reaches_skipInsignificant.trans (reaches_skipBlock ..)
  | case3 c _ _ d _ ih =>
    apply Attempt.reaches_cons
      (c.reaches_skipInsignificant.trans (reaches_readChild src hread parent depth d))
    split
    · next hlt => exact ih _ hlt
    · exact .refl _

theorem reaches_readGroup (heading : Heading) (depth : Nat) (c : Cursor) :
    c.Reaches (readGroup src read heading depth c).cursor := by
  have hline := (c.reaches_skipBlanks.trans (reaches_skipComment _)).trans (reaches_skipLine _)
  obtain ⟨result, trailing, missing, heq, -⟩ := exists_readGroup_eq src read heading depth c
  rw [heq]
  exact hline.trans (reaches_readChildren src hread heading.name depth _)

end

theorem reaches_readTerminal (heading : Heading) (depth : Nat) (c : Cursor) :
    c.Reaches (readTerminal src limit heading depth c).cursor := by
  have h := c.reaches_skipContinuedBlanks.trans (Term.reaches_read src limit true _)
  rw [readTerminal]
  split
  · generalize Term.read src limit true c.skipContinuedBlanks = r at h
    cases r with
    | failed d c' => exact h.trans (reaches_skipBlock ..)
    | done t c' =>
      dsimp only
      split
      · exact h
      · exact h
  · exact reaches_skipBlock ..

theorem reaches_read (levels depth : Nat) (c : Cursor) :
    c.Reaches (read src limit levels depth c).cursor := by
  induction levels generalizing depth c with
  | zero =>
    rw [read]
    split
    · exact .refl c
    · exact reaches_skipBlock ..
  | succ levels ih =>
    have hname := (Reaches.drop c c.name.length).trans (reaches_skipBlanks _)
    rw [read]
    split
    · exact .refl c
    dsimp only
    split
    · exact .refl c
    split
    · next e he => exact (hname.trans (reaches_of_accept? he)).trans (reaches_readTerminal ..)
    · next e _ he =>
      exact (hname.trans (reaches_of_accept? he)).trans
        (reaches_readGroup src (ih (depth + 1)) _ _ e)
    · exact hname.trans (reaches_skipBlock ..)

theorem reaches_readAt (depth : Int) (c : Cursor) :
    c.Reaches (readAt src limit depth c).cursor := by
  rw [readAt]
  split
  · exact .refl c
  · exact reaches_read src limit _ _ c

end Rule

theorem Document.reaches_readTopLevel (src : Source) (limit : Int) (c : Cursor) :
    c.Reaches (readTopLevel src limit c).cursor := by
  have h := Rule.reaches_readDeclaration src (Rule.reaches_readAt src limit 0) c
  rw [readTopLevel]
  dsimp only
  split
  · exact h
  · exact h
  · exact h.trans (reaches_skipBlock ..)

end IndentedGrammar
