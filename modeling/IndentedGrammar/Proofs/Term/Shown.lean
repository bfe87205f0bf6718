import IndentedGrammar.Proofs.Source.Shown
import IndentedGrammar.Proofs.Term.Progress

namespace IndentedGrammar

open Cursor

namespace Reading

variable {α : Type} {src : Source} {c : Cursor}

def Shown (src : Source) : Reading α → Prop
  | .done _ _ => True
  | .failed d _ => src.Shows d.position

def Settled (src : Source) : Reading α → Prop
  | .done _ e => e.PastBlanks
  | .failed d _ => src.Shows d.position

theorem Settled.shown {r : Reading α} (h : r.Settled src) : r.Shown src := by
  cases r with
  | done x e => trivial
  | failed d e => exact h

theorem settled_failed (hin : c.IsIn src) (hc : c.PastBlanks) (problem : Problem) (e : Cursor) :
    (failed ⟨c.position, problem⟩ e : Reading α).Settled src := ⟨c, hin, hc, rfl⟩

end Reading

open Reading

namespace Term

variable {src : Source} {margin : Nat} {c : Cursor}

theorem shown_readDelimited (close : Char) (kind : Kind) (value : List Char → List Char)
    (unterminated empty : Problem) (hin : c.IsIn src) (hc : c.PastBlanks) :
    (readDelimited close kind value unterminated empty c).Shown src := by
  rw [readDelimited]
  split
  · exact (settled_failed hin hc _ _).shown
  · exact (settled_failed hin hc _ _).shown
  · trivial

section

variable {group : Cursor → Reading Term} (hg : ∀ c : Cursor, c.Reaches (group c).cursor)
  (hshown : ∀ c : Cursor, c.IsIn src → c.PastBlanks → (group c).Shown src)

include hshown

theorem shown_readAtom (hin : c.IsIn src) (hc : c.PastBlanks) : (readAtom group c).Shown src := by
  rw [readAtom]
  split
  · exact (settled_failed hin hc _ _).shown
  split
  · trivial
  split
  · exact shown_readDelimited _ _ _ _ _ hin hc
  split
  · exact shown_readDelimited _ _ _ _ _ hin hc
  split
  · trivial
  split
  · exact hshown c hin hc
  · exact (settled_failed hin hc _ _).shown

theorem settled_readRepeated (hin : c.IsIn src) (hc : c.PastBlanks) :
    (readRepeated src margin group c).Settled src := by
  have hatom := shown_readAtom hshown hin hc
  rw [readRepeated]
  generalize readAtom group c = r at hatom
  cases r with
  | failed d e => exact hatom
  | done t e =>
    dsimp only
    split
    · exact .skipGap src margin _
    · exact .skipGap src margin _

theorem settled_readPart (hin : c.IsIn src) (hc : c.PastBlanks) :
    (readPart src margin group c).Settled src := by
  rw [readPart]
  split
  · exact settled_readRepeated hshown hin hc
  · have hgap := c.reaches_next.trans (reaches_skipGap src margin _)
    have hrepeated : (readRepeated src margin group (c.next.skipGap src margin)).Settled src :=
      settled_readRepeated hshown (hin.reaches hgap) (.skipGap src margin _)
    generalize readRepeated src margin group _ = r at hrepeated
    cases r with
    | failed d e => exact hrepeated
    | done t e => exact hrepeated

include hg

theorem settled_readParts (hin : c.IsIn src) (hc : c.PastBlanks) :
    (readParts src margin group c).Settled src := by
  fun_induction readParts src margin group c with
  | case1 c hstart d e hpart =>
    have hfailed : (readPart src margin group c).Settled src := settled_readPart hshown hin hc
    rwa [hpart] at hfailed
  | case2 c hstart t e hpart hlt d e' hparts ih
  | case3 c hstart t e hpart hlt ts e' hparts ih =>
    have hfirst : (readPart src margin group c).Settled src := settled_readPart hshown hin hc
    have hreach := reaches_readPart src margin hg c
    rw [hpart] at hfirst hreach
    have hmore := ih (hin.reaches hreach) hfirst
    rwa [hparts] at hmore
  | case4 c hstart t e hpart =>
    have hfirst : (readPart src margin group c).Settled src := settled_readPart hshown hin hc
    rwa [hpart] at hfirst
  | case5 => exact hc

theorem settled_readSequence (hin : c.IsIn src) (hc : c.PastBlanks) :
    (readSequence src margin group c).Settled src := by
  have hparts : (readParts src margin group c).Settled src := settled_readParts hg hshown hin hc
  have hreach := reaches_readParts src margin hg c
  rw [readSequence]
  generalize readParts src margin group c = r at hparts hreach
  split
  · exact hparts
  · exact settled_failed (hin.reaches hreach) hparts _ _
  · exact hparts

theorem settled_readAlternatives (hin : c.IsIn src) (hc : c.PastBlanks) :
    (readAlternatives src margin group c).Settled src := by
  fun_induction readAlternatives src margin group c with
  | case1 c d e hfirst =>
    have hfailed : (readSequence src margin group c).Settled src :=
      settled_readSequence hg hshown hin hc
    rwa [hfirst] at hfailed
  | case2 c t e hfirst _ d hlt d' e' hmore ih
  | case3 c t e hfirst _ d hlt ts e' hmore ih =>
    have hreach := reaches_readSequence src margin hg c
    rw [hfirst] at hreach
    have hgap : e.Reaches d := e.reaches_next.trans (reaches_skipGap src margin _)
    have hrest := ih (hin.reaches (hreach.trans hgap)) (.skipGap src margin _)
    rwa [hmore] at hrest
  | case4 c t e hfirst _ d => exact .skipGap src margin _
  | case5 c t e hfirst =>
    have hsequence : (readSequence src margin group c).Settled src :=
      settled_readSequence hg hshown hin hc
    rwa [hfirst] at hsequence

theorem settled_readChoice (hin : c.IsIn src) (hc : c.PastBlanks) :
    (readChoice src margin group c).Settled src := by
  have halternatives : (readAlternatives src margin group c).Settled src :=
    settled_readAlternatives hg hshown hin hc
  rw [readChoice]
  generalize readAlternatives src margin group c = r at halternatives
  cases r with
  | failed d e => exact halternatives
  | done ts e => exact halternatives

end

theorem shown_readGroup {inner : Cursor → Reading Term}
    (hreach : ∀ c : Cursor, c.Reaches (inner c).cursor)
    (hinner : ∀ c : Cursor, c.IsIn src → c.PastBlanks → (inner c).Settled src) (hin : c.IsIn src) :
    (readGroup src margin inner c).Shown src := by
  have hgap := c.reaches_next.trans (reaches_skipGap src margin _)
  have hchoice := hinner _ (hin.reaches hgap) (.skipGap src margin _)
  have hend := hgap.trans (hreach (c.next.skipGap src margin))
  rw [readGroup]
  generalize inner (c.next.skipGap src margin) = r at hchoice hend
  cases r with
  | failed d e => exact hchoice
  | done t e =>
    dsimp only
    split
    · trivial
    · exact (settled_failed (hin.reaches hend) hchoice _ _).shown

theorem settled_choiceWithin (limit : Int) (levels : Nat) (hin : c.IsIn src) (hc : c.PastBlanks) :
    (choiceWithin src margin limit levels c).Settled src := by
  induction levels generalizing c with
  | zero =>
    apply settled_readChoice _ _ hin hc
    · exact fun c => .refl c
    · exact fun c hin hc => (settled_failed hin hc _ _).shown
  | succ levels ih =>
    have hreach := reaches_choiceWithin src margin limit levels
    apply settled_readChoice (reaches_readGroup src margin hreach) _ hin hc
    exact fun c hin _ => shown_readGroup hreach (fun _ => ih) hin

theorem settled_read (limit : Int) (newlineFirst : Bool) (hin : c.IsIn src) :
    (read src limit newlineFirst c).Settled src := by
  have hfirst := c.reaches_skipContinuedBlanks.trans (reaches_skipComment _)
  have hpast := (PastBlanks.skipContinuedBlanks c).skipComment
  rw [read]
  dsimp only
  split
  · exact settled_failed (hin.reaches hfirst) hpast _ _
  generalize src.indentation c.position.line = margin
  have hgap := hfirst.trans (reaches_skipGap src margin _)
  have hpast := PastBlanks.skipGap src margin c.skipContinuedBlanks.skipComment
  generalize c.skipContinuedBlanks.skipComment.skipGap src margin = d at hgap hpast
  -- a bar in front of the first alternative may be left out
  have hstart : c.Reaches (if d.current? = some '|' then d.next.skipGap src margin else d) ∧
      (if d.current? = some '|' then d.next.skipGap src margin else d).PastBlanks := by
    split
    · exact ⟨hgap.trans (d.reaches_next.trans (reaches_skipGap ..)), .skipGap src margin _⟩
    · exact ⟨hgap, hpast⟩
  generalize (if d.current? = some '|' then _ else d) = c' at hstart
  obtain ⟨hreach, hpast⟩ := hstart
  have hchoice : (choiceWithin src margin limit limit.toNat c').Settled src :=
    settled_choiceWithin limit limit.toNat (hin.reaches hreach) hpast
  have hend := hreach.trans (reaches_choiceWithin src margin limit limit.toNat c')
  generalize choiceWithin src margin limit limit.toNat c' = r at hchoice hend
  cases r with
  | failed e e' => exact hchoice
  | done t e =>
    dsimp only
    split
    · exact hchoice
    · exact hchoice
    · exact settled_failed (hin.reaches hend) hchoice _ _

end Term

end IndentedGrammar
