import IndentedGrammar.Proofs.Source.Movement
import IndentedGrammar.Term.Reader

namespace IndentedGrammar

open Cursor

namespace Reading

variable {α : Type}

def cursor : Reading α → Cursor
  | .done _ c => c
  | .failed _ c => c

@[simp] theorem cursor_done (x : α) (c : Cursor) : (done x c).cursor = c := rfl

@[simp] theorem cursor_failed (d : Diagnostic) (c : Cursor) :
    (failed d c : Reading α).cursor = c := rfl

end Reading

namespace Term

variable (src : Source) (margin : Nat)

theorem reaches_readDelimited (close : Char) (kind : Kind) (value : List Char → List Char)
    (unterminated empty : Problem) (c : Cursor) :
    c.Reaches (readDelimited close kind value unterminated empty c).cursor := by
  rw [readDelimited]
  split
  · exact c.reaches_skipLine
  · exact .drop c _
  · exact .drop c _

variable {group : Cursor → Reading Term} (hg : ∀ c : Cursor, c.Reaches (group c).cursor)

include hg

theorem reaches_readAtom (c : Cursor) : c.Reaches (readAtom group c).cursor := by
  rw [readAtom]
  split
  · exact .refl c
  split
  · exact .drop c _
  split
  · exact reaches_readDelimited ..
  split
  · exact reaches_readDelimited ..
  split
  · exact c.reaches_next
  split
  · exact hg c
  · exact .refl c

theorem reaches_readRepeated (c : Cursor) : c.Reaches (readRepeated src margin group c).cursor := by
  have hatom := reaches_readAtom hg c
  rw [readRepeated]
  generalize readAtom group c = r at hatom ⊢
  cases r with
  | failed d c' => exact hatom
  | done t c' =>
    dsimp only
    split
    · exact hatom.trans (c'.reaches_next.trans (reaches_skipGap ..))
    · exact hatom.trans (reaches_skipGap ..)

theorem reaches_readPart (c : Cursor) : c.Reaches (readPart src margin group c).cursor := by
  rw [readPart]
  split
  · exact reaches_readRepeated src margin hg c
  · have hgap := c.reaches_next.trans (reaches_skipGap src margin _)
    have hrepeated := hgap.trans (reaches_readRepeated src margin hg (c.next.skipGap src margin))
    generalize readRepeated src margin group _ = r at hrepeated ⊢
    cases r with
    | failed d c' => exact hrepeated
    | done t c' => exact hrepeated

theorem reaches_readParts (c : Cursor) : c.Reaches (readParts src margin group c).cursor := by
  have hpart := reaches_readPart src margin hg
  fun_induction readParts src margin group c with
  | case1 c hstart d c' hc => simpa [hc] using hpart c
  | case2 c hstart t c' hc hlt d c'' hmore ih =>
    have hc' : c.Reaches c' := by simpa [hc] using hpart c
    exact hc'.trans (by simpa [hmore] using ih)
  | case3 c hstart t c' hc hlt ts c'' hmore ih =>
    have hc' : c.Reaches c' := by simpa [hc] using hpart c
    exact hc'.trans (by simpa [hmore] using ih)
  | case4 c hstart t c' hc => simpa [hc] using hpart c
  | case5 c => exact .refl c

theorem reaches_readSequence (c : Cursor) : c.Reaches (readSequence src margin group c).cursor := by
  have hparts := reaches_readParts src margin hg c
  rw [readSequence]
  generalize readParts src margin group c = r at hparts ⊢
  split
  · exact hparts
  · exact hparts
  · exact hparts

theorem reaches_readAlternatives (c : Cursor) :
    c.Reaches (readAlternatives src margin group c).cursor := by
  have hsequence := reaches_readSequence src margin hg
  have hbar (c : Cursor) : c.Reaches (c.next.skipGap src margin) :=
    c.reaches_next.trans (reaches_skipGap ..)
  fun_induction readAlternatives src margin group c with
  | case1 c d c' hc => simpa [hc] using hsequence c
  | case2 c t c' hc _ c'' hlt d e hmore ih =>
    have hc' : c.Reaches c' := by simpa [hc] using hsequence c
    exact (hc'.trans (hbar c')).trans (by simpa [hmore] using ih)
  | case3 c t c' hc _ c'' hlt ts e hmore ih =>
    have hc' : c.Reaches c' := by simpa [hc] using hsequence c
    exact (hc'.trans (hbar c')).trans (by simpa [hmore] using ih)
  | case4 c t c' hc =>
    have hc' : c.Reaches c' := by simpa [hc] using hsequence c
    exact hc'.trans (hbar c')
  | case5 c t c' hc => simpa [hc] using hsequence c

theorem reaches_readChoice (c : Cursor) : c.Reaches (readChoice src margin group c).cursor := by
  have halternatives := reaches_readAlternatives src margin hg c
  rw [readChoice]
  generalize readAlternatives src margin group c = r at halternatives ⊢
  cases r with
  | failed d c' => exact halternatives
  | done ts c' => exact halternatives

theorem reaches_readGroup (c : Cursor) : c.Reaches (readGroup src margin group c).cursor := by
  have hinner :=
    (c.reaches_next.trans (reaches_skipGap src margin _)).trans (hg (c.next.skipGap src margin))
  rw [readGroup]
  generalize group (c.next.skipGap src margin) = r at hinner ⊢
  cases r with
  | failed d c' => exact hinner
  | done t c' =>
    dsimp only
    split
    · exact hinner.trans c'.reaches_next
    · exact hinner

omit hg

theorem reaches_choiceWithin (limit : Int) (levels : Nat) (c : Cursor) :
    c.Reaches (choiceWithin src margin limit levels c).cursor := by
  induction levels generalizing c with
  | zero =>
    rw [choiceWithin]
    apply reaches_readChoice
    intro c
    exact .refl c
  | succ levels ih => exact reaches_readChoice src margin (reaches_readGroup src margin ih) c

theorem reaches_read (limit : Int) (newlineFirst : Bool) (c : Cursor) :
    c.Reaches (read src limit newlineFirst c).cursor := by
  have hfirst := c.reaches_skipContinuedBlanks.trans (reaches_skipComment _)
  rw [read]
  dsimp only
  split
  · exact hfirst
  have hgap := hfirst.trans (reaches_skipGap src (src.indentation c.position.line) _)
  generalize c.skipContinuedBlanks.skipComment.skipGap _ _ = d at hgap ⊢
  have hstart : c.Reaches
      (if d.current? = some '|' then d.next.skipGap src (src.indentation c.position.line)
        else d) := by
    split
    · exact hgap.trans (d.reaches_next.trans (reaches_skipGap ..))
    · exact hgap
  have hchoice :=
    hstart.trans (reaches_choiceWithin src (src.indentation c.position.line) limit limit.toNat _)
  generalize choiceWithin src _ limit _ _ = r at hchoice ⊢
  cases r with
  | failed e c' => exact hchoice
  | done t c' =>
    dsimp only
    split
    · exact hchoice
    · exact hchoice
    · exact hchoice

end Term

end IndentedGrammar
