import IndentedGrammar.Proofs.Rule.Ending
import IndentedGrammar.Proofs.Session
import IndentedGrammar.Proofs.Source.Margin

namespace IndentedGrammar.Session

open Cursor

variable (s : Session)

def Outcome.log (before : List Diagnostic) (o : Outcome) : List Diagnostic := before ++ o.diagnostics

/-- The margin of a block at the cursor. It is the indentation of the line if none is given. -/
def margin (given : Option Int) : Int := given.getD (s.source.indentation s.cursor.position.line)

theorem run_skipBlock (given : Option Int) :
    (s.run (.skipBlock given)).session =
      { s with cursor := s.cursor.skipBlock s.source (s.margin given) } := rfl

/-- A block is skipped up to where it ends. A second time nothing is left to skip, whether the margin is
the same or wider, or that of the line on which the first time ended. -/
theorem skipBlock_endsBlock (h : s.cursor.IsIn s.source) (given : Option Int) :
    let s' := (s.run (.skipBlock given)).session
    s'.cursor.IsIn s.source ∧ s.cursor.EndsBlock s.source (s.margin given) s'.cursor ∧
      (∀ more, s.margin given ≤ more → (s'.run (.skipBlock (some more))).session = s') ∧
      (given = none → (s'.run (.skipBlock none)).session = s') := by
  intro s'
  have hends : s.cursor.EndsBlock s.source (s.margin given) s'.cursor := endsBlock_skipBlock h _
  have hagain (given' : Option Int) (hle : s.margin given ≤ s'.margin given') :
      (s'.run (.skipBlock given')).session = s' := by
    rw [run_skipBlock]
    exact congrArg (fun c => { s with cursor := c }) (skipBlock_skipBlock h hle)
  refine ⟨h.reaches (reaches_skipBlock ..), hends, fun more hle => hagain (some more) hle, ?_⟩
  rintro rfl
  exact hagain none hends.indentation_le

theorem skipBlock_endsBlock_none :
    let s := start (.ofText ['a', '\n', ' ', 'b', '\n', '\n', 'c'] none)
    let s' := (s.run (.skipBlock none)).session
    s.cursor.IsIn s.source ∧ s.cursor.EndsBlock s.source 0 s'.cursor ∧
      (s'.run (.skipBlock (some 3))).session = s' ∧ (s'.run (.skipBlock none)).session = s' := by
  intro s s'
  have hmargin : s.margin none = 0 := rfl
  obtain ⟨-, hends, hmore, hagain⟩ := skipBlock_endsBlock s (.start s.source) none
  rw [hmargin] at hends hmore
  exact ⟨.start s.source, hends, hmore 3 (by decide), hagain rfl⟩

/-- The next content line is looked for by lines, and blanks, newlines and comments are skipped by
characters. Both come to the same line, and both come to nothing if there is none. -/
theorem nextContentLine_agrees (h : s.cursor.Fits s.source) (hend : s.cursor.atLineEnd) :
    let ahead := (s.run .nextContentLine).answer
    let c := (s.run .skipInsignificant).session.cursor
    c.Fits s.source ∧ (∀ n, ahead = .ok (.number n) ↔ c.FirstOn s.source n) ∧
      (ahead = .ok .nothing ↔ c.atEnd) := by
  intro ahead c
  have hin : c.IsIn s.source := h.isIn.reaches s.cursor.reaches_skipInsignificant
  refine ⟨hin.fits, ?_⟩
  cases hn : s.source.nextContentLine s.cursor.position.line with
  | none =>
    have hahead : ahead = .ok .nothing := by
      simp only [ahead, run, tell, hn, Option.elim_none]
    have hrest : c.rest = [] := rest_skipInsignificant_of_none h.isIn hend hn
    refine ⟨fun n => ?_, fun _ => List.isEmpty_iff.2 hrest, fun _ => hahead⟩
    constructor
    · intro hnumber
      simp [hahead] at hnumber
    · rintro ⟨-, -, ch, -, -, -, -, -, hcurrent⟩
      exact absurd hrest (rest_ne_nil_of_current? hcurrent)
  | some m =>
    have hahead : ahead = .ok (.number m) := by
      simp only [ahead, run, tell, hn, Option.elim_some]
    have hfirst : c.FirstOn s.source m := firstOn_skipInsignificant h.isIn hend hn
    have hrest : c.rest ≠ [] := rest_skipInsignificant_of_some h.isIn hend hn
    refine ⟨fun n => ?_, fun hnothing => ?_, fun hempty => ?_⟩
    · constructor
      · intro hnumber
        obtain rfl : (m : Int) = n := by simpa [hahead] using hnumber
        exact hfirst
      · intro hn'
        rw [hahead, ← hn'.line, hfirst.line]
    · simp [hahead] at hnothing
    · exact absurd (List.isEmpty_iff.1 hempty) hrest

theorem nextContentLine_agrees_comment :
    let s := ((start (.ofText ['a', '\n', '\r', '#', 'x', '\n', '\t', ' ', 'b'] none)).run
      .advance).session
    s.cursor.Fits s.source ∧ s.cursor.atLineEnd ∧
      (s.run .skipInsignificant).session.cursor.FirstOn s.source 3 := by
  intro s
  have hfits : s.cursor.Fits s.source := ((IsIn.start s.source).reaches (reaches_next _)).fits
  have hend : s.cursor.atLineEnd := rfl
  obtain ⟨-, hcontent, -⟩ := nextContentLine_agrees s hfits hend
  exact ⟨hfits, hend, (hcontent 3).1 rfl⟩

/-- A term is read and nothing is reported, or it is not and there is one report, on something that was
passed over. -/
theorem readTerm_answers (newlineFirst : Bool) (limit : Int) (before : List Diagnostic) :
    let o := s.run (.readTerm newlineFirst limit)
    (∃ t, o.answer = .ok (.term t) ∧ o.log before = before ∧ o.session.cursor.atLineEnd ∧
        t.WellFormed) ∨
      (o.answer = .ok .nothing ∧ ∃ d, o.log before = before ++ [d] ∧
        s.cursor.position.offset ≤ d.position.offset ∧
        d.position.offset ≤ o.session.cursor.position.offset) := by
  have hlocated := Term.located_read s.source limit newlineFirst s.cursor
  rw [run, readTerm]
  cases hread : Term.read s.source limit newlineFirst s.cursor with
  | done t c =>
    exact .inl ⟨t, rfl, List.append_nil _, (Term.term_of_read hread).2, Term.wellFormed_of_read hread⟩
  | failed d c =>
    rw [hread] at hlocated
    obtain ⟨b, hb, he, hp⟩ := hlocated
    refine .inr ⟨rfl, d, rfl, ?_, ?_⟩
    · rw [← hp]
      exact hb.offset_le
    · rw [← hp]
      exact he.offset_le

inductive Ending where
  | complete : Ending
  | misplaced : Ending
  | abandoned : Ending

def Ending.Describes (s : Session) (depth : Nat) (before : List Diagnostic) (o : Outcome) :
    Ending → Prop
  | .complete =>
    (∃ r, o.answer = .ok (.rule r) ∧ r.scope = []) ∧ o.log before = before ∧
      o.session.cursor.atLineEnd
  | .misplaced =>
    o.answer = .ok .nothing ∧
      (∃ problem : Problem, problem.isIndentation ∧
        o.log before = before ++ [⟨s.cursor.position, problem⟩]) ∧
      o.session.cursor = s.cursor
  | .abandoned =>
    o.answer = .ok .nothing ∧ (∃ reports, reports ≠ [] ∧ o.log before = before ++ reports) ∧
      s.cursor.position.offset < o.session.cursor.position.offset ∧
      o.session.cursor.AtBlockEnd s.source (4 * depth)

variable {s} {depth : Nat} {before : List Diagnostic} {o : Outcome}

theorem Ending.eq_of_describes {ending other : Ending} (h : ending.Describes s depth before o)
    (h' : other.Describes s depth before o) : other = ending := by
  have hrule {r : Rule} (hr : o.answer = .ok (.rule r)) (hn : o.answer = .ok .nothing) : False := by
    simp [hr] at hn
  have hmoved (hstill : o.session.cursor = s.cursor)
      (hlt : s.cursor.position.offset < o.session.cursor.position.offset) : False := by
    simp [hstill] at hlt
  cases ending with
  | complete =>
    obtain ⟨⟨r, hr, -⟩, -⟩ := h
    cases other with
    | complete => rfl
    | misplaced => exact (hrule hr h'.1).elim
    | abandoned => exact (hrule hr h'.1).elim
  | misplaced =>
    cases other with
    | complete =>
      obtain ⟨⟨r, hr, -⟩, -⟩ := h'
      exact (hrule hr h.1).elim
    | misplaced => rfl
    | abandoned => exact (hmoved h.2.2 h'.2.2.1).elim
  | abandoned =>
    cases other with
    | complete =>
      obtain ⟨⟨r, hr, -⟩, -⟩ := h'
      exact (hrule hr h.1).elim
    | misplaced => exact (hmoved h'.2.2 h.2.2.1).elim
    | abandoned => rfl

theorem describes_misplaced (limit : Int)
    (h : s.source.indentation s.cursor.position.line ≠ 4 * depth) :
    Ending.misplaced.Describes s depth before (s.run (.readRule depth limit)) := by
  obtain ⟨problem, hproblem, hread⟩ := Rule.readAt_misplaced limit h
  rw [run, readRule, hread]
  exact ⟨rfl, ⟨problem, hproblem, rfl⟩, rfl⟩

theorem describes_placed (hin : s.cursor.IsIn s.source) (hname : s.cursor.startsName) (limit : Int)
    (h : s.source.indentation s.cursor.position.line = 4 * depth) :
    Ending.complete.Describes s depth before (s.run (.readRule depth limit)) ∨
      Ending.abandoned.Describes s depth before (s.run (.readRule depth limit)) := by
  rw [run, readRule]
  rcases Rule.readAt_placed limit hin hname h with ⟨r, hr, hscope, hsilent, hend⟩ | ⟨hr, hne, hlt, hblock⟩
  · left
    rw [hr, hsilent]
    exact ⟨⟨r, rfl, hscope⟩, List.append_nil _, hend⟩
  · right
    rw [hr]
    exact ⟨rfl, ⟨_, hne, rfl⟩, hlt, hblock⟩

/-- Where a name starts, the reading of a rule ends in one of three ways, and never in a fault. -/
theorem readRule_ends (hin : s.cursor.IsIn s.source) (hname : s.cursor.startsName) (depth : Nat)
    (limit : Int) (before : List Diagnostic) :
    let o := s.run (.readRule depth limit)
    (∃ ending : Ending, ending.Describes s depth before o ∧
        ∀ other : Ending, other.Describes s depth before o → other = ending) ∧
      (Ending.misplaced.Describes s depth before o ↔
        s.source.indentation s.cursor.position.line ≠ 4 * depth) := by
  intro o
  by_cases hwidth : s.source.indentation s.cursor.position.line = 4 * depth
  · obtain ⟨ending, hne, hending⟩ : ∃ ending : Ending, ending ≠ .misplaced ∧
        ending.Describes s depth before o := by
      rcases describes_placed hin hname limit hwidth with h | h
      · exact ⟨.complete, by simp, h⟩
      · exact ⟨.abandoned, by simp, h⟩
    refine ⟨⟨ending, hending, fun _ => Ending.eq_of_describes hending⟩, ?_⟩
    exact ⟨fun h => absurd (Ending.eq_of_describes h hending) hne, fun h => absurd hwidth h⟩
  · have h : Ending.misplaced.Describes s depth before o := describes_misplaced limit hwidth
    exact ⟨⟨.misplaced, h, fun _ => Ending.eq_of_describes h⟩, fun _ => hwidth, fun _ => h⟩

theorem readRule_ends_unindented :
    let s := start (.ofText ['a', ':', ' ', 'b'] none)
    s.cursor.IsIn s.source ∧ s.cursor.startsName ∧
      ¬ Ending.misplaced.Describes s 0 [] (s.run (.readRule 0 64)) ∧
      Ending.misplaced.Describes s 1 [] (s.run (.readRule 1 64)) := by
  intro s
  have hname : s.cursor.startsName := rfl
  have hwidth : s.source.indentation s.cursor.position.line = 0 := rfl
  obtain ⟨-, houter⟩ := readRule_ends (.start s.source) hname 0 64 []
  obtain ⟨-, hinner⟩ := readRule_ends (.start s.source) hname 1 64 []
  exact ⟨.start s.source, hname, fun h => houter.1 h (by simp [hwidth]), hinner.2 (by simp [hwidth])⟩

end IndentedGrammar.Session
