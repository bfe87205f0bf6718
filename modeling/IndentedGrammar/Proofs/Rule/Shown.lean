import IndentedGrammar.Proofs.Rule.Progress
import IndentedGrammar.Proofs.Term.Shown

namespace IndentedGrammar

open Cursor

namespace Attempt

variable {α : Type} {src : Source} {c : Cursor}

def Shown (src : Source) (a : Attempt α) : Prop := ∀ d ∈ a.diagnostics, src.Shows d.position

theorem shown_of_silent {a : Attempt α} (h : a.diagnostics = []) : a.Shown src := by
  rw [Shown, h]
  exact fun _ hd => absurd hd List.not_mem_nil

theorem shown_fail (hin : c.IsIn src) (hc : c.PastBlanks) (problem : Problem) (e : Cursor) :
    (fail c.position problem e : Attempt α).Shown src :=
  List.forall_mem_singleton.2 ⟨c, hin, hc, rfl⟩

theorem shown_cons {a : Attempt α} {more : Cursor → Attempt (List α)} (ha : a.Shown src)
    (hmore : (more a.cursor).Shown src) : (a.cons more).Shown src := by
  rw [cons]
  split
  · exact ha
  · exact List.forall_mem_append.2 ⟨ha, hmore⟩

end Attempt

open Attempt

namespace Rule

variable {src : Source} {limit : Int} {c : Cursor}

section

variable {child : Cursor → Attempt Rule} (hread : ∀ c : Cursor, c.Reaches (child c).cursor)
  (hshown : ∀ c : Cursor, c.IsIn src → c.startsName → (child c).Shown src)

include hshown

theorem shown_readDeclaration (hin : c.IsIn src) (hc : c.PastBlanks) :
    (readDeclaration src child c).Shown src := by
  obtain ⟨result, heq⟩ := exists_readDeclaration_eq src child c
  rw [Shown, heq]
  dsimp only
  split
  · next hname => exact hshown c hin hname
  · exact shown_fail hin hc _ _

theorem shown_readChild (parent : String) (depth : Nat) (hin : c.IsIn src) (hc : c.PastBlanks) :
    (readChild src parent depth child c).Shown src := by
  have ha := shown_readDeclaration hshown hin hc
  rw [readChild]
  dsimp only
  split
  · exact ha
  · exact ha
  · exact ha

include hread

theorem shown_readChildren (parent : String) (depth : Nat) (hin : c.IsIn src) :
    (readChildren src parent depth child c).Shown src := by
  fun_induction readChildren src parent depth child c with
  | case1 c => exact shown_of_silent rfl
  | case2 c =>
    have hd := hin.reaches c.reaches_skipInsignificant
    exact List.forall_mem_singleton.2 ⟨c.skipInsignificant, hd, .skipInsignificant c, rfl⟩
  | case3 c _ _ d _ ih =>
    have hd : d.IsIn src := hin.reaches c.reaches_skipInsignificant
    apply shown_cons (shown_readChild hshown parent depth hd (.skipInsignificant c))
    split
    · next hlt => exact ih _ hlt (hd.reaches (reaches_readChild src hread parent depth d))
    · exact shown_of_silent rfl

theorem shown_readGroup (heading : Heading) (hheading : src.Shows heading.position) (depth : Nat)
    (hin : c.IsIn src) : (readGroup src child heading depth c).Shown src := by
  have hd := hin.reaches (c.reaches_skipBlanks.trans (reaches_skipComment _))
  have hpast := (PastBlanks.skipBlanks c).skipComment
  have hblock := shown_readChildren hread hshown heading.name depth (hd.reaches (reaches_skipLine _))
  obtain ⟨result, trailing, missing, heq, htrailing, hmissing⟩ :=
    exists_readGroup_eq src child heading depth c
  rw [Shown, heq]
  intro e he
  rcases List.mem_append.1 he with he | he
  · rcases List.mem_append.1 he with he | he
    · rw [htrailing e he]
      exact ⟨_, hd, hpast, rfl⟩
    · exact hblock e he
  · rw [hmissing e he]
    exact hheading

end

theorem pastBlanks_of_not_separated (h : ¬ separated c) : c.PastBlanks := by
  intro ch hc hb
  apply h
  rw [separated, ← current?, hc]
  simp [hb]

theorem shown_readTerminal (heading : Heading) (depth : Nat) (hin : c.IsIn src) :
    (readTerminal src limit heading depth c).Shown src := by
  have hterm : (Term.read src limit true c.skipContinuedBlanks).Settled src :=
    Term.settled_read limit true (hin.reaches c.reaches_skipContinuedBlanks)
  rw [readTerminal]
  split
  · generalize Term.read src limit true c.skipContinuedBlanks = r at hterm
    cases r with
    | failed d e => exact List.forall_mem_singleton.2 hterm
    | done t e =>
      dsimp only
      split
      · exact shown_of_silent rfl
      · exact shown_of_silent rfl
  · next hseparated => exact shown_fail hin (pastBlanks_of_not_separated hseparated) _ _

theorem shown_read (levels depth : Nat) (hin : c.IsIn src) (hc : c.startsName) :
    (read src limit levels depth c).Shown src := by
  have hpast := PastBlanks.of_startsName hc
  induction levels generalizing depth c with
  | zero =>
    rw [read]
    split
    · exact shown_fail hin hpast _ _
    · exact shown_fail hin hpast _ _
  | succ levels ih =>
    rw [read]
    split
    · exact shown_fail hin hpast _ _
    dsimp only
    split
    · exact shown_of_silent rfl
    have hd := hin.reaches ((Reaches.drop c c.name.length).trans (reaches_skipBlanks _))
    split
    · next e he => exact shown_readTerminal _ depth (hd.reaches (reaches_of_accept? he))
    · next e _ he =>
      exact shown_readGroup (reaches_read src limit levels (depth + 1))
        (fun c hin hc => ih (depth + 1) hin hc (.of_startsName hc)) _ ⟨c, hin, hpast, rfl⟩ depth
        (hd.reaches (reaches_of_accept? he))
    · exact shown_fail hd (.skipBlanks _) _ _

theorem shown_readAt (depth : Int) (hin : c.IsIn src) (hc : c.startsName) :
    (readAt src limit depth c).Shown src := by
  rw [readAt]
  split
  · exact shown_fail hin (.of_startsName hc) _ _
  · exact shown_read _ _ hin hc

end Rule

end IndentedGrammar
