import IndentedGrammar.Proofs.Rule.Places
import IndentedGrammar.Proofs.Source.Lines
import IndentedGrammar.Session

namespace IndentedGrammar

open Cursor

structure Cursor.Fits (src : Source) (c : Cursor) : Prop where
  offset_le : c.position.offset ≤ src.text.length
  rest_eq : c.rest = src.text.drop c.position.offset
  line_eq : c.position.line = 1 + (src.text.take c.position.offset).count '\n'
  column_eq : c.position.column = 1 + (lastLine (src.text.take c.position.offset)).length

namespace Cursor

variable {src : Source} {c d : Cursor}

theorem IsIn.fits (h : c.IsIn src) : c.Fits src := by
  obtain ⟨text, ht, hp⟩ := h.before
  have ho : c.position.offset = text.length := h.offset_eq ht
  have htake : src.text.take c.position.offset = text := by rw [ho, ht, List.take_left]
  refine ⟨?_, h.rest_eq, ?_, ?_⟩
  · rw [ho, ht, List.length_append]
    exact Nat.le_add_right ..
  · rw [htake, hp, line_afterAll]
    rfl
  · rw [htake, hp, column_start_afterAll]
    exact Int.add_comm ..

theorem Fits.isIn (h : c.Fits src) : c.IsIn src := by
  have hd : ((Cursor.start src.text).drop c.position.offset).Fits src :=
    ((IsIn.start src).drop c.position.offset).fits
  have hoffset : ((Cursor.start src.text).drop c.position.offset).position.offset =
      c.position.offset := by
    rw [position_drop, Position.offset_afterAll, Cursor.start, List.length_take_of_le h.offset_le]
    exact Nat.zero_add _
  refine ⟨c.position.offset, Cursor.ext h.rest_eq ?_⟩
  have hline := hd.line_eq
  have hcolumn := hd.column_eq
  rw [hoffset, ← h.line_eq] at hline
  rw [hoffset, ← h.column_eq] at hcolumn
  exact Position.ext hoffset.symm hline.symm hcolumn.symm

theorem IsIn.cursorAt_position (h : c.IsIn src) : src.cursorAt c.position = c := by
  rw [Source.cursorAt, ← h.fits.rest_eq]

end Cursor

namespace Session

def Step.jumps : Step → Bool
  | .restore _ | .moveTo _ => true
  | _ => false

inductive Moves (s : Session) : Step → Session → Prop
  | on {step c} : ¬ step.jumps → s.cursor.Reaches c → Moves s step { s with cursor := c }
  | save : Moves s .save { s with saved := s.saved ++ [s.cursor.position] }
  | back {i p} : p ∈ s.saved → Moves s (.restore i) { s with cursor := s.source.cursorAt p }
  | notBack {i} : Moves s (.restore i) s
  | put {p} : Moves s (.moveTo p) { s with cursor := s.source.cursorAt p }

variable (s : Session)

theorem session_peek (n : Int) : (s.peek n).session = s := by
  rw [peek]
  split
  · rfl
  · split <;> rfl

theorem moves_accept (text : List Char) : Moves s (.accept text) (s.accept text).session := by
  rw [accept]
  split
  · exact .on Bool.false_ne_true (.drop _ _)
  · exact .on Bool.false_ne_true (.refl _)

theorem moves_restore (i : Int) : Moves s (.restore i) (s.restore i).session := by
  rw [restore]
  split
  · next p hp =>
    obtain ⟨j, -, hj⟩ := Option.bind_eq_some_iff.1 hp
    exact .back (List.mem_of_getElem? hj)
  · exact .notBack

theorem moves_readTerm (newlineFirst : Bool) (limit : Int) :
    Moves s (.readTerm newlineFirst limit) (s.readTerm newlineFirst limit).session := by
  have h := Term.reaches_read s.source limit newlineFirst s.cursor
  rw [readTerm]
  generalize Term.read s.source limit newlineFirst s.cursor = r at h
  cases r with
  | done t c => exact .on Bool.false_ne_true h
  | failed d c => exact .on Bool.false_ne_true h

theorem moves_run (step : Step) : Moves s step (s.run step).session := by
  cases step with
  | advance => exact .on Bool.false_ne_true s.cursor.reaches_next
  | peek n =>
    rw [run, session_peek]
    exact .on Bool.false_ne_true (.refl _)
  | accept text => exact s.moves_accept text
  | skipSpace continued =>
    cases continued with
    | false => exact .on Bool.false_ne_true s.cursor.reaches_skipBlanks
    | true => exact .on Bool.false_ne_true s.cursor.reaches_skipContinuedBlanks
  | skipComment => exact .on Bool.false_ne_true s.cursor.reaches_skipComment
  | skipInsignificant => exact .on Bool.false_ne_true s.cursor.reaches_skipInsignificant
  | skipLine => exact .on Bool.false_ne_true s.cursor.reaches_skipLine
  | skipBlock margin => exact .on Bool.false_ne_true (reaches_skipBlock ..)
  | save => exact .save
  | restore i => exact s.moves_restore i
  | moveTo p => exact .put
  | readTerm newlineFirst limit => exact s.moves_readTerm newlineFirst limit
  | readRule depth limit => exact .on Bool.false_ne_true (Rule.reaches_readAt ..)
  | endReached | atLineEnd | indentation | lineCount | currentChar | continuesWith | lineText |
      lineIndentation | isBlankLine | nextContentLine | indentationDelta | snippet | describe |
      startsRule | complain => exact .on Bool.false_ne_true (.refl _)

def after (steps : List Step) : Session := steps.foldl (fun s step => (s.run step).session) s

def Answer.positions : Answer → List Position
  | .term t => t.walk.map Term.position
  | .rule r => r.walk.flatMap fun r => r.position :: (r.term?.toList.flatMap Term.walk).map Term.position
  | _ => []

/-- The positions that can be had after a step: in its answer, in what it reported, and from the cursor. -/
def Outcome.positions (o : Outcome) : List Position :=
  o.answer.toOption.toList.flatMap Answer.positions ++ o.diagnostics.map Diagnostic.position ++
    [o.session.cursor.position]

/-- Wherever the cursor is put, it is put at a position that could be had by then. -/
def Retraces (s : Session) (known : List Position) : List Step → Prop
  | [] => True
  | step :: steps => (∀ p, step = .moveTo p → p ∈ known) ∧
      (s.run step).session.Retraces (known ++ (s.run step).positions) steps

def IsPlace (src : Source) (p : Position) : Prop := (src.cursorAt p).IsIn src

structure Consistent (src : Source) : Prop where
  source_eq : s.source = src
  cursor : s.cursor.IsIn src
  saved : ∀ p ∈ s.saved, IsPlace src p

variable {s} {src : Source}

theorem consistent_start (src : Source) : (start src).Consistent src :=
  ⟨rfl, .start src, by simp [start]⟩

theorem isPlace_of_reaches {c b : Cursor} (h : c.IsIn src) (hb : c.Reaches b) : IsPlace src b.position := by
  rw [IsPlace, (h.reaches hb).cursorAt_position]
  exact h.reaches hb

theorem isPlace_of_holds {c e : Cursor} {p : Position} (h : c.IsIn src) (hp : c.Holds e p) :
    IsPlace src p := by
  obtain ⟨b, hb, -, -, rfl⟩ := hp
  exact isPlace_of_reaches h hb

theorem Consistent.run (h : s.Consistent src) {step : Step} (hstep : ∀ p, step = .moveTo p → IsPlace src p) :
    (s.run step).session.Consistent src := by
  obtain ⟨rfl, hcursor, hsaved⟩ := h
  have hmoves := s.moves_run step
  generalize (s.run step).session = s' at hmoves
  cases hmoves with
  | on _ hreach => exact ⟨rfl, hcursor.reaches hreach, hsaved⟩
  | save =>
    refine ⟨rfl, hcursor, fun p hp => ?_⟩
    rcases List.mem_append.1 hp with hp | hp
    · exact hsaved p hp
    · exact List.mem_singleton.1 hp ▸ isPlace_of_reaches hcursor (.refl _)
  | back hp => exact ⟨rfl, hsaved _ hp, hsaved⟩
  | notBack => exact ⟨rfl, hcursor, hsaved⟩
  | put => exact ⟨rfl, hstep _ rfl, hsaved⟩

structure Outcome.TellsPlaces (o : Outcome) (src : Source) : Prop where
  answer : ∀ a, o.answer = .ok a → ∀ p ∈ a.positions, IsPlace src p
  diagnostics : ∀ d ∈ o.diagnostics, IsPlace src d.position

theorem tellsPlaces_ok {a : Answer} (h : a.positions = []) (s' : Session) :
    Outcome.TellsPlaces ⟨.ok a, [], s'⟩ src where
  answer := by
    rintro _ ⟨⟩
    rw [h]
    exact List.forall_mem_nil _
  diagnostics := List.forall_mem_nil _

theorem tellsPlaces_error (failure : Failure) (s' : Session) :
    Outcome.TellsPlaces ⟨.error failure, [], s'⟩ src := ⟨nofun, List.forall_mem_nil _⟩

theorem positions_elim_char (ch : Option Char) : (ch.elim Answer.nothing Answer.char).positions = [] := by
  cases ch <;> rfl

theorem tellsPlaces_peek (n : Int) : (s.peek n).TellsPlaces src := by
  rw [peek]
  split
  · exact tellsPlaces_ok rfl s
  · split
    · exact tellsPlaces_ok (positions_elim_char _) s
    · exact tellsPlaces_error _ s

theorem tellsPlaces_accept (text : List Char) : (s.accept text).TellsPlaces src := by
  rw [accept]
  split
  · exact tellsPlaces_ok rfl _
  · exact tellsPlaces_ok rfl s

theorem tellsPlaces_restore (i : Int) : (s.restore i).TellsPlaces src := by
  rw [restore]
  split
  · exact tellsPlaces_ok rfl _
  · exact tellsPlaces_error _ s

theorem tellsPlaces_readTerm (hcursor : s.cursor.IsIn s.source) (newlineFirst : Bool) (limit : Int) :
    (s.readTerm newlineFirst limit).TellsPlaces s.source := by
  have hlocated := Term.located_read s.source limit newlineFirst s.cursor
  rw [readTerm]
  generalize Term.read s.source limit newlineFirst s.cursor = r at hlocated
  cases r with
  | done t c =>
    refine ⟨?_, List.forall_mem_nil _⟩
    rintro _ ⟨⟩ p hp
    obtain ⟨u, hu, rfl⟩ := List.mem_map.1 hp
    exact isPlace_of_holds hcursor (hlocated u hu)
  | failed d c =>
    refine ⟨?_, List.forall_mem_singleton.2 ?_⟩
    · rintro _ ⟨⟩
      exact List.forall_mem_nil _
    · obtain ⟨b, hb, -, hp⟩ := hlocated
      exact hp ▸ isPlace_of_reaches hcursor hb

theorem tellsPlaces_readRule (hcursor : s.cursor.IsIn s.source) (depth limit : Int) :
    (s.readRule depth limit).TellsPlaces s.source := by
  have htells : _ ∧ (Rule.readAt s.source limit depth s.cursor).Located Rule.walk s.cursor :=
    Rule.tells_readAt depth hcursor
  obtain ⟨hdiagnostics, hlocated⟩ := htells
  rw [readRule]
  refine ⟨fun a ha p hp => ?_, fun d hd => ?_⟩
  · cases hresult : (Rule.readAt s.source limit depth s.cursor).result with
    | error f => simp [hresult] at ha
    | ok r =>
      cases r with
      | none =>
        obtain rfl : Answer.nothing = a := by simpa [hresult] using ha
        exact absurd hp List.not_mem_nil
      | some r =>
        obtain rfl : Answer.rule r = a := by simpa [hresult] using ha
        obtain ⟨u, hu, hp⟩ := List.mem_flatMap.1 hp
        rw [Attempt.Located, Attempt.rules_of_some hresult] at hlocated
        rcases List.mem_cons.1 hp with rfl | hp
        · exact isPlace_of_holds hcursor (hlocated u hu).heading
        · obtain ⟨node, hnode, rfl⟩ := List.mem_map.1 hp
          obtain ⟨t, ht, hnode⟩ := List.mem_flatMap.1 hnode
          exact isPlace_of_holds hcursor ((hlocated u hu).term t (Option.mem_toList.1 ht) node hnode)
  · obtain ⟨b, hb, hp⟩ := hdiagnostics d hd
    exact hp ▸ isPlace_of_reaches hcursor hb

theorem tellsPlaces_run (hcursor : s.cursor.IsIn s.source) (step : Step) :
    (s.run step).TellsPlaces s.source := by
  cases step with
  | currentChar | advance => exact tellsPlaces_ok (positions_elim_char _) _
  | peek n => exact tellsPlaces_peek n
  | accept text => exact tellsPlaces_accept text
  | skipSpace continued => cases continued <;> exact tellsPlaces_ok rfl _
  | nextContentLine =>
    refine tellsPlaces_ok ?_ s
    cases s.source.nextContentLine s.cursor.position.line <;> rfl
  | restore i => exact tellsPlaces_restore i
  | complain message => exact tellsPlaces_error _ s
  | readTerm newlineFirst limit => exact tellsPlaces_readTerm hcursor newlineFirst limit
  | readRule depth limit => exact tellsPlaces_readRule hcursor depth limit
  | endReached | atLineEnd | indentation | lineCount | continuesWith | skipComment | skipInsignificant |
      skipLine | skipBlock | lineText | lineIndentation | isBlankLine | indentationDelta | snippet |
      describe | startsRule | save | moveTo => exact tellsPlaces_ok rfl _

theorem Consistent.isPlace_of_mem (h : s.Consistent src) {step : Step}
    (hstep : ∀ p, step = .moveTo p → IsPlace src p) {p : Position} (hp : p ∈ (s.run step).positions) :
    IsPlace src p := by
  have hcursor := (h.run hstep).cursor
  obtain ⟨rfl, hin, -⟩ := h
  obtain ⟨hanswer, hdiagnostics⟩ := tellsPlaces_run hin step
  rcases List.mem_append.1 hp with hp | hp
  · rcases List.mem_append.1 hp with hp | hp
    · obtain ⟨a, ha, hp⟩ := List.mem_flatMap.1 hp
      refine hanswer a ?_ p hp
      cases hresult : (s.run step).answer with
      | error failure => simp [hresult, Except.toOption] at ha
      | ok a' =>
        obtain rfl : a = a' := by simpa [hresult, Except.toOption] using ha
        rfl
    · obtain ⟨d, hd, rfl⟩ := List.mem_map.1 hp
      exact hdiagnostics d hd
  · exact List.mem_singleton.1 hp ▸ isPlace_of_reaches hcursor (.refl _)

theorem Consistent.after (h : s.Consistent src) {known : List Position} {steps : List Step}
    (hknown : ∀ p ∈ known, IsPlace src p) (hsteps : s.Retraces known steps) :
    (s.after steps).Consistent src := by
  -- What is known grows with each step, and all of it stays at places of the source.
  induction steps generalizing s known with
  | nil => exact h
  | cons step steps ih =>
    obtain ⟨hstep, hsteps⟩ := hsteps
    have hplace (p : Position) (hp : step = .moveTo p) : IsPlace src p := hknown p (hstep p hp)
    refine ih (h.run hplace) (fun p hp => ?_) hsteps
    rcases List.mem_append.1 hp with hp | hp
    · exact hknown p hp
    · exact h.isPlace_of_mem hplace hp

theorem offset_le_run (s : Session) {step : Step} (h : ¬ step.jumps) :
    s.cursor.position.offset ≤ (s.run step).session.cursor.position.offset := by
  have hmoves := s.moves_run step
  generalize (s.run step).session = s' at hmoves
  cases hmoves with
  | on _ hreach => exact hreach.offset_le
  | save => exact Nat.le_refl _
  | back | notBack | put => exact absurd rfl h

/-- Whatever is asked, skipped or read, and wherever the cursor is put that it has been or that was told of,
its line and its column fit its offset. Only a step that puts it somewhere moves it back. -/
theorem fits_after (src : Source) (steps : List Step)
    (h : (start src).Retraces [(start src).cursor.position] steps) :
    ((start src).after steps).cursor.Fits src ∧
      ∀ step : Step, ¬ step.jumps →
        ((start src).after steps).cursor.position.offset ≤
          (((start src).after steps).run step).session.cursor.position.offset := by
  have hstart := List.forall_mem_singleton.2 (isPlace_of_reaches (.start src) (.refl _))
  exact ⟨((consistent_start src).after hstart h).cursor.fits, fun _ hstep => offset_le_run _ hstep⟩

/-- The literal of the second rule is not closed. Going back to the second part of the first rule's term and
to the place of the diagnostic, both of which are behind the cursor by then, does no harm. -/
theorem fits_after_moveTo :
    let src := Source.ofText "a: b c\nd: \"e".toList none
    let steps : List Step := [.readRule 0 100, .skipInsignificant, .readRule 0 100, .moveTo ⟨5, 1, 6⟩,
      .advance, .moveTo ⟨10, 2, 4⟩, .save, .skipLine, .restore (-1)]
    (start src).Retraces [(start src).cursor.position] steps ∧ ((start src).after steps).cursor.Fits src := by
  intro src steps
  have h : (start src).Retraces [(start src).cursor.position] steps := by
    refine ⟨nofun, nofun, nofun, ?_, nofun, ?_, nofun, nofun, nofun, trivial⟩
    · rintro _ ⟨⟩
      decide +kernel
    · rintro _ ⟨⟩
      decide +kernel
  exact ⟨h, (fits_after src steps h).1⟩

end Session

end IndentedGrammar
