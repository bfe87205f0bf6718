import IndentedGrammar.Proofs.Rule.Block
import IndentedGrammar.Proofs.Source.Loop
import IndentedGrammar.Proofs.Source.Margin

namespace IndentedGrammar

open Cursor

namespace Attempt

variable {α : Type}

structure Advances (src : Source) (c : Cursor) (a : Attempt α) : Prop where
  passes : c.Passes a.cursor a.starts
  content : ∀ p ∈ a.starts, isBlankLine (src.line p.line) = false

structure Descends (src : Source) (c : Cursor) (a : Attempt α) : Prop extends a.Advances src c where
  below : ∀ p ∈ a.starts, c.position.line < p.line

variable {src : Source} {c d : Cursor} {a : Attempt α}

theorem descends_of_starts_eq_nil (h : a.starts = []) : a.Descends src c := by
  refine ⟨⟨?_, ?_⟩, ?_⟩
  · rw [h]
    exact .nil ..
  · simp [h]
  · simp [h]

theorem Descends.widen {β : Type} {b : Attempt β} (h : a.Descends src d) (hc : c.Reaches d)
    (hstarts : b.starts = a.starts) (hcursor : a.cursor.Reaches b.cursor) : b.Descends src c := by
  refine ⟨⟨?_, ?_⟩, ?_⟩
  · rw [hstarts]
    exact h.passes.widen hc hcursor
  · rw [hstarts]
    exact h.content
  · rw [hstarts]
    exact fun p hp => Int.lt_of_le_of_lt hc.line_le (h.below p hp)

end Attempt

open Attempt

namespace Rule

variable {src : Source} {limit : Int} {child : Cursor → Attempt Rule} {p : Rule → Prop} {c : Cursor}

def ReadsBelow (src : Source) (read : Cursor → Attempt Rule) : Prop :=
  ∀ c : Cursor, c.IsIn src → c.startsName → (read c).Descends src c

theorem starts_readDeclaration (src : Source) (read : Cursor → Attempt Rule) (c : Cursor) :
    (readDeclaration src read c).starts = c.position :: if c.startsName then (read c).starts else [] := by
  obtain ⟨result, heq⟩ := exists_readDeclaration_eq src read c
  rw [heq]
  dsimp only
  split
  · rfl
  · rfl

theorem starts_readChild (src : Source) (parent : String) (depth : Nat)
    (child : Cursor → Attempt Rule) (c : Cursor) : (readChild src parent depth child c).starts =
      c.position :: if c.startsName then (child c).starts else [] := by
  have h := starts_readDeclaration src child c
  rw [readChild]
  dsimp only
  split
  · exact h
  · exact h
  · exact h

section

variable (hread : ReadsRules p child) (hbelow : ReadsBelow src child)

include hread hbelow

theorem advances_readDeclaration (hin : c.IsIn src)
    (hcontent : isBlankLine (src.line c.position.line) = false) :
    (readDeclaration src child c).Advances src c := by
  have ha : (if c.startsName then child c else .fail c.position .expectedRuleName c).Descends src c ∧
      c.Reaches (if c.startsName then child c else .fail c.position .expectedRuleName c).cursor := by
    split
    · next hc => exact ⟨hbelow c hin hc, hread.reaches c⟩
    · exact ⟨descends_of_starts_eq_nil rfl, .refl c⟩
  obtain ⟨ha, hreach⟩ := ha
  have hfirst : c.Passes c [c.position] := .single (.refl c) (.refl c)
  rw [readDeclaration_eq src hread.satisfies]
  exact ⟨hfirst.append ha.passes ha.below (.refl c) hreach,
    List.forall_mem_cons.2 ⟨hcontent, ha.content⟩⟩

theorem advances_readChild (parent : String) (depth : Nat) (hin : c.IsIn src)
    (hcontent : isBlankLine (src.line c.position.line) = false) :
    (readChild src parent depth child c).Advances src c := by
  have ha := advances_readDeclaration hread hbelow hin hcontent
  rw [readChild]
  dsimp only
  split
  · exact ha
  · exact ⟨ha.passes, ha.content⟩
  · exact ⟨ha.passes.widen (.refl c) (reaches_skipBlock ..), ha.content⟩

theorem Block.descends {parent : String} {depth : Nat} {a : Attempt (List Rule)}
    (h : Block src parent depth child c a) : a.Descends src c := by
  have hskip {c : Cursor} (hin : c.IsIn src) (hend : c.atLineEnd)
      (hahead : 4 * depth < aheadIndentation c.rest) :
      c.position.line < c.skipInsignificant.position.line ∧
        isBlankLine (src.line c.skipInsignificant.position.line) = false := by
    have hne := rest_skipInsignificant_ne_nil hend (Nat.zero_lt_of_lt hahead)
    exact ⟨line_lt_skipInsignificant hin hend hne,
      (hin.opensLine hend hne).not_isBlankLine_skipInsignificant hne⟩
  induction h with
  | ended => exact descends_of_starts_eq_nil rfl
  | @misplaced c hin hend hahead =>
    obtain ⟨hlt, hcontent⟩ := hskip hin hend hahead
    refine ⟨⟨.single c.reaches_skipInsignificant (reaches_skipBlock ..), ?_⟩, ?_⟩
    · exact List.forall_mem_singleton.2 hcontent
    · exact List.forall_mem_singleton.2 hlt
  | @child c b hin hend hahead hb ih =>
    obtain ⟨hlt, hcontent⟩ := hskip hin hend (by omega)
    have hskip := c.reaches_skipInsignificant
    have hfirst := advances_readChild hread hbelow parent depth (hin.reaches hskip) hcontent
    have hreach := reaches_readChild src hread.reaches parent depth c.skipInsignificant
    have hpasses := hfirst.passes.append ih.passes ih.below hreach (hb.reaches hread)
    obtain ⟨x, hx⟩ := (readChild_ends src parent depth hread.satisfies c.skipInsignificant).1
    rw [cons_eq hx]
    refine ⟨⟨hpasses.widen hskip (.refl _), ?_⟩, ?_⟩
    · exact List.forall_mem_append.2 ⟨hfirst.content, ih.content⟩
    · exact fun q hq => Int.lt_of_lt_of_le hlt (hpasses.line_le hq).1

theorem descends_readGroup (heading : Heading) (depth : Nat) {e : Cursor} (hin : c.IsIn src)
    (hc : c.Reaches e) : (readGroup src child heading depth e).Descends src c := by
  have hline := (hc.trans (e.reaches_skipBlanks.trans (reaches_skipComment _))).trans
    (reaches_skipLine _)
  have hblock : Block src heading.name depth child _ _ :=
    block_readChildren hread (hin.reaches hline) (atLineEnd_skipLine _)
  obtain ⟨result, trailing, missing, heq, -⟩ := exists_readGroup_eq src child heading depth e
  rw [heq]
  exact (hblock.descends hread hbelow).widen hline rfl (.refl _)

end

theorem starts_readTerminal (src : Source) (limit : Int) (heading : Heading) (depth : Nat)
    (c : Cursor) : (readTerminal src limit heading depth c).starts = [] := by
  rw [readTerminal]
  split
  · split
    · rfl
    · split
      · rfl
      · rfl
  · rfl

theorem readsBelow_read (levels depth : Nat) : ReadsBelow src (read src limit levels depth) := by
  induction levels generalizing depth with
  | zero =>
    intro c hin hc
    rw [read]
    split
    · exact descends_of_starts_eq_nil rfl
    · exact descends_of_starts_eq_nil rfl
  | succ levels ih =>
    intro c hin hc
    rw [read]
    split
    · exact descends_of_starts_eq_nil rfl
    have hd := (Reaches.drop c c.name.length).trans (reaches_skipBlanks _)
    dsimp only
    split
    · exact descends_of_starts_eq_nil rfl
    split
    · exact descends_of_starts_eq_nil (starts_readTerminal ..)
    · next e _ he =>
      exact descends_readGroup (readsRules_read src limit levels (depth + 1)) (ih (depth + 1)) _ depth
        hin (hd.trans (reaches_of_accept? he))
    · exact descends_of_starts_eq_nil rfl

theorem readsBelow_readAt (depth : Int) : ReadsBelow src (readAt src limit depth) := by
  intro c hin hc
  rw [readAt]
  split
  · exact descends_of_starts_eq_nil rfl
  · exact readsBelow_read _ _ c hin hc

def childPass (src : Source) (parent : String) (depth : Nat) (child : Cursor → Attempt Rule)
    (c : Cursor) : Option Cursor :=
  if src.nextIndentation c.position.line = 4 * (depth + 1) then
    some (readChild src parent depth child c.skipInsignificant).cursor
  else none

theorem Block.leaves {parent : String} {depth : Nat} {a : Attempt (List Rule)}
    (hread : ReadsRules p child) (h : Block src parent depth child c a) :
    ∃ cs e, Leaves (childPass src parent depth child) c cs e ∧
      a.cursor = (readChildren src parent depth child e).cursor ∧
      a.starts = cs.flatMap (fun d => (readChild src parent depth child d.skipInsignificant).starts) ++
        (readChildren src parent depth child e).starts ∧
      ∀ d ∈ e :: cs, d.IsIn src ∧ d.atLineEnd := by
  induction h with
  | @ended c hin hend hahead =>
    have hleft : childPass src parent depth child c = none := by
      rw [childPass, hin.nextIndentation_eq, if_neg (by omega)]
    refine ⟨[], c, .left hleft, ?_, ?_, List.forall_mem_singleton.2 ⟨hin, hend⟩⟩
    · rw [readChildren_eq hread.reaches hin hend, if_pos hahead]
    · rw [readChildren_eq hread.reaches hin hend, if_pos hahead]
      rfl
  | @misplaced c hin hend hahead hne =>
    have hleft : childPass src parent depth child c = none := by
      rw [childPass, hin.nextIndentation_eq, if_neg hne]
    refine ⟨[], c, .left hleft, ?_, ?_, List.forall_mem_singleton.2 ⟨hin, hend⟩⟩
    · rw [readChildren_eq hread.reaches hin hend, if_neg (Nat.not_le.2 hahead), if_pos hne]
    · rw [readChildren_eq hread.reaches hin hend, if_neg (Nat.not_le.2 hahead), if_pos hne]
      rfl
  | @child c b hin hend hahead hb ih =>
    obtain ⟨cs, e, hleaves, hcursor, hstarts, hplaces⟩ := ih
    have hagain : childPass src parent depth child c =
        some (readChild src parent depth child c.skipInsignificant).cursor := by
      rw [childPass, hin.nextIndentation_eq, if_pos hahead]
    have hreach := reaches_readChild src hread.reaches parent depth c.skipInsignificant
    have hlt := length_skipInsignificant_lt hend (by omega)
    have hoffset := (c.reaches_skipInsignificant.trans hreach).offset_lt
      (Nat.lt_of_le_of_lt hreach.length_le hlt)
    obtain ⟨x, hx⟩ := (readChild_ends src parent depth hread.satisfies c.skipInsignificant).1
    rw [List.forall_mem_cons] at hplaces
    rw [cons_eq hx]
    refine ⟨c :: cs, e, .again hagain hoffset hleaves, hcursor, ?_,
      List.forall_mem_cons.2 ⟨hplaces.1, List.forall_mem_cons.2 ⟨⟨hin, hend⟩, hplaces.2⟩⟩⟩
    dsimp only
    rw [hstarts, List.flatMap_cons, List.append_assoc]

theorem starts_readChildren_of_misplaced (parent : String) {depth : Nat} (hread : ReadsRules p child)
    (hin : c.IsIn src) (hend : c.atLineEnd) (hpass : childPass src parent depth child c = none)
    (hdeep : 4 * depth < src.nextIndentation c.position.line) :
    (readChildren src parent depth child c).starts = [c.skipInsignificant.position] ∧
      src.indentation c.skipInsignificant.position.line ≠ 4 * (depth + 1) := by
  have hne : src.nextIndentation c.position.line ≠ 4 * (depth + 1) := fun heq => by
    rw [childPass, if_pos heq] at hpass
    exact nomatch hpass
  rw [hin.nextIndentation_eq] at hdeep hne
  have hrest := rest_skipInsignificant_ne_nil hend (Nat.zero_lt_of_lt hdeep)
  rw [readChildren_eq hread.reaches hin hend, if_neg (Nat.not_le.2 hdeep), if_pos hne,
    indentation_skipInsignificant hin hend hrest]
  exact ⟨rfl, hne⟩

inductive OpensGroup (src : Source) (limit : Int) (depth : Nat) (c : Cursor) : String → Cursor → Prop
  | intro {d} : c.startsName → src.indentation c.position.line = 4 * depth → (depth : Int) ≤ limit →
      (c.drop c.name.length).skipBlanks.accept? [':'] = none →
      (c.drop c.name.length).skipBlanks.accept? ['.', '.', '.'] = some d →
      OpensGroup src limit depth c (String.ofList c.name) d.skipBlanks.skipComment.skipLine

theorem OpensGroup.starts_readAt {depth : Nat} {name : String} {e : Cursor}
    (h : OpensGroup src limit depth c name e) : (readAt src limit depth c).starts =
      (readChildren src name depth (read src limit (limit - depth).toNat (depth + 1)) e).starts := by
  obtain ⟨hname, hwidth, hdepth, hcolon, hdots⟩ := h
  have hlevels : (limit + 1 - depth).toNat = (limit - depth).toNat + 1 := by omega
  rw [readAt_aligned src limit depth hwidth, hlevels, read, misalignment_eq_none_iff.2 hwidth]
  dsimp only
  rw [if_neg (not_isEmpty_name hname), hcolon, hdots]
  dsimp only
  obtain ⟨result, trailing, missing, heq, -⟩ := exists_readGroup_eq src
    (read src limit (limit - depth).toNat (depth + 1)) ⟨String.ofList c.name, c.position, []⟩ depth _
  rw [heq]

theorem OpensGroup.startsName {depth : Nat} {name : String} {e : Cursor}
    (h : OpensGroup src limit depth c name e) : c.startsName := by
  obtain ⟨hname, -⟩ := h
  exact hname

theorem OpensGroup.indentation_eq {depth : Nat} {name : String} {e : Cursor}
    (h : OpensGroup src limit depth c name e) : src.indentation c.position.line = 4 * depth := by
  obtain ⟨-, hwidth, -⟩ := h
  exact hwidth

theorem OpensGroup.isIn {depth : Nat} {name : String} {e : Cursor}
    (h : OpensGroup src limit depth c name e) (hin : c.IsIn src) : e.IsIn src ∧ e.atLineEnd := by
  obtain ⟨-, -, -, -, hdots⟩ := h
  have hreach := ((Reaches.drop c c.name.length).trans (reaches_skipBlanks _)).trans
    (reaches_of_accept? hdots)
  exact ⟨hin.reaches (hreach.trans ((reaches_skipBlanks _).trans ((reaches_skipComment _).trans
    (reaches_skipLine _)))), atLineEnd_skipLine _⟩

end Rule

end IndentedGrammar
