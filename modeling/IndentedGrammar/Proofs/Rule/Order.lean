import IndentedGrammar.Proofs.Rule.Block
import IndentedGrammar.Proofs.Rule.Printing
import IndentedGrammar.Proofs.Source.Places
import IndentedGrammar.Proofs.Term.Places

/-! The order of what is read and what is reported. An attempt comes to a result exactly if it reports
nothing, and the places that it tells, be it of rules or of diagnostics, are on lines of their own in
the order of the source. -/

namespace IndentedGrammar

open Cursor

namespace Attempt

variable {α : Type}

def Reports (a : Attempt α) : Prop := ∃ x, a.result = .ok x ∧ (x = none ↔ a.diagnostics ≠ [])

theorem Reports.result_of_silent {a : Attempt α} (h : a.Reports) (hd : a.diagnostics = []) :
    ∃ x, a.result = .ok (some x) := by
  obtain ⟨x, hx, hiff⟩ := h
  cases x with
  | none => exact absurd hd (hiff.1 rfl)
  | some x => exact ⟨x, hx⟩

theorem Reports.silent {a : Attempt α} (h : a.Reports) {x : α} (hx : a.result = .ok (some x)) :
    a.diagnostics = [] := by
  obtain ⟨y, hy, hiff⟩ := h
  obtain rfl := Except.ok.inj (hx.symm.trans hy)
  apply Decidable.byContradiction
  intro hd
  simpa using hiff.2 hd

variable (walk : α → List Rule)

def rules (a : Attempt α) : List Rule :=
  match a.result with
  | .ok (some x) => walk x
  | _ => []

def places (a : Attempt α) : List Position :=
  a.diagnostics.map Diagnostic.position ++ (a.rules walk).map Rule.position

structure Orderly (c : Cursor) (a : Attempt α) : Prop where
  reports : a.Reports
  passes : c.Passes a.cursor (a.places walk)

variable {walk} {a : Attempt α} {c d e : Cursor}

theorem places_of_none (h : a.result = .ok none) :
    a.places walk = a.diagnostics.map Diagnostic.position := by
  rw [places, rules, h]
  exact List.append_nil _

theorem places_of_some {x : α} (h : a.result = .ok (some x)) (hd : a.diagnostics = []) :
    a.places walk = (walk x).map Rule.position := by
  rw [places, rules, h, hd]
  rfl

theorem orderly_of_none (h : a.result = .ok none) (hd : a.diagnostics ≠ [])
    (hp : c.Passes a.cursor (a.diagnostics.map Diagnostic.position)) : a.Orderly walk c :=
  ⟨⟨none, h, by simpa using hd⟩, by rwa [places_of_none h]⟩

theorem orderly_of_some {x : α} (h : a.result = .ok (some x)) (hd : a.diagnostics = [])
    (hp : c.Passes a.cursor ((walk x).map Rule.position)) : a.Orderly walk c :=
  ⟨⟨some x, h, by simp [hd]⟩, by rwa [places_of_some h hd]⟩

theorem orderly_fail (problem : Problem) (hd : c.Reaches d) (he : d.Reaches e) :
    (fail d.position problem e : Attempt α).Orderly walk c :=
  orderly_of_none rfl (by simp [fail]) (.single hd he)

end Attempt

open Attempt

theorem Attempt.reports_cons {α : Type} {a : Attempt α} {b : Attempt (List α)} (ha : a.Reports)
    (hb : b.Reports) : (a.cons fun _ => b).Reports := by
  obtain ⟨x, hx, hiff⟩ := ha
  obtain ⟨xs, hxs, hiff'⟩ := hb
  rw [cons_eq hx]
  refine ⟨x.bind fun x => xs.map (x :: ·), ?_, ?_⟩
  · dsimp only
    rw [hxs]
    rfl
  · cases x <;> cases xs <;> simp_all

theorem Attempt.walkAll_of_result {a : Attempt Rule} {first : Option Rule}
    (h : a.result = .ok first) (rs : List Rule) :
    Rule.walkAll (first.toList ++ rs) = a.rules Rule.walk ++ Rule.walkAll rs := by
  rw [Rule.walkAll_eq_flatMap, List.flatMap_append, ← Rule.walkAll_eq_flatMap,
    ← Rule.walkAll_eq_flatMap, rules, h]
  cases first with
  | none => rfl
  | some r => rw [Option.toList_some, Rule.walkAll, Rule.walkAll, List.append_nil]

theorem Attempt.places_cons {a : Attempt Rule} {b : Attempt (List Rule)} (ha : a.Reports)
    (hb : b.Reports) :
    ((a.cons fun _ => b).places Rule.walkAll).Sublist
      (a.places Rule.walk ++ b.places Rule.walkAll) := by
  obtain ⟨x, hx, hiff⟩ := ha
  obtain ⟨xs, hxs, hiff'⟩ := hb
  rw [cons_eq hx]
  simp only [places, rules, hx, hxs, Except.map, List.map_append]
  -- what was read before or behind a failure is left out
  cases x with
  | none => cases xs <;> simp
  | some r =>
    have hsilent : a.diagnostics = [] := by simpa using hiff
    cases xs with
    | none => simp [hsilent]
    | some rs =>
      have hsilent' : b.diagnostics = [] := by simpa using hiff'
      simp [hsilent, hsilent', Rule.walkAll]

namespace Rule

variable {src : Source} {limit : Int} {child : Cursor → Attempt Rule} {p : Rule → Prop}
  {c : Cursor}

theorem positions_within (parent : String) (r : Rule) :
    (r.within parent).walk.map position = r.walk.map position := by
  rw [walk_within, List.map_map]
  congr 1
  funext u
  exact position_within parent u

def ReadsInOrder (src : Source) (read : Cursor → Attempt Rule) : Prop :=
  ∀ c : Cursor, c.IsIn src → c.startsName → (read c).Orderly walk c

section

variable (hread : ReadsRules p child) (horder : ReadsInOrder src child)

include hread horder

theorem orderly_readDeclaration (hin : c.IsIn src) :
    (readDeclaration src child c).Orderly walk c := by
  have ha : (if c.startsName then child c else .fail c.position .expectedRuleName c).Orderly
      walk c := by
    split
    · next hc => exact horder c hin hc
    · exact orderly_fail _ (.refl c) (.refl c)
  rw [readDeclaration_eq src hread.satisfies]
  exact ⟨ha.reports, ha.passes⟩

theorem orderly_readChild (parent : String) (depth : Nat) (hin : c.IsIn src) :
    (readChild src parent depth child c).Orderly walk c := by
  have ha := orderly_readDeclaration hread horder hin
  obtain ⟨x, hx, hiff⟩ := ha.reports
  rw [readChild]
  dsimp only
  rw [hx]
  cases x with
  | none =>
    have hpasses := ha.passes
    rw [places_of_none hx] at hpasses
    exact orderly_of_none hx (hiff.1 rfl) (hpasses.widen (.refl c) (reaches_skipBlock ..))
  | some r =>
    have hpasses := ha.passes
    have hsilent := ha.reports.silent hx
    rw [places_of_some hx hsilent, ← positions_within parent] at hpasses
    exact orderly_of_some rfl hsilent hpasses

theorem Block.orderly {parent : String} {depth : Nat} {a : Attempt (List Rule)}
    (h : Block src parent depth child c a) :
    a.Orderly walkAll c ∧ ∀ q ∈ a.places walkAll, c.position.line < q.line := by
  have hline {c : Cursor} (hin : c.IsIn src) (hend : c.atLineEnd)
      (hahead : 4 * depth < aheadIndentation c.rest) :
      c.position.line < c.skipInsignificant.position.line :=
    line_lt_skipInsignificant hin hend
      (rest_skipInsignificant_ne_nil hend (Nat.zero_lt_of_lt hahead))
  induction h with
  | ended => exact ⟨orderly_of_some rfl rfl (.nil ..), nofun⟩
  | @misplaced c hin hend hahead =>
    constructor
    · apply orderly_of_none rfl (by simp [Attempt.misplaced, fail])
      exact .single c.reaches_skipInsignificant (reaches_skipBlock ..)
    · intro q hq
      rw [places_of_none rfl] at hq
      obtain rfl := List.mem_singleton.1 hq
      exact hline hin hend hahead
  | @child c b hin hend hahead hb ih =>
    obtain ⟨hmore, hbelow⟩ := ih
    have hskip := c.reaches_skipInsignificant
    have hfirst := orderly_readChild hread horder parent depth (hin.reaches hskip)
    have hreach := reaches_readChild src hread.reaches parent depth c.skipInsignificant
    have hlt := hline hin hend (by omega)
    have hpasses := hfirst.passes.append hmore.passes hbelow hreach (hb.reaches hread)
    have hcons := hpasses.sublist (places_cons hfirst.reports hmore.reports)
    have hcursor : ((readChild src parent depth child c.skipInsignificant).cons
        fun _ => b).cursor = b.cursor := by
      obtain ⟨x, hx, -⟩ := hfirst.reports
      rw [cons_eq hx]
    refine ⟨⟨reports_cons hfirst.reports hmore.reports, ?_⟩, ?_⟩
    · rw [hcursor]
      exact hcons.widen hskip (.refl _)
    · intro q hq
      exact Int.lt_of_lt_of_le hlt (hcons.line_le hq).1

theorem orderly_readGroup (heading : Heading) (hname : isName heading.name.toList) (depth : Nat)
    {e : Cursor} (hin : c.IsIn src) (hc : c.Reaches e) (hheading : heading.position = c.position) :
    (readGroup src child heading depth e).Orderly walk c := by
  have hd := hc.trans (e.reaches_skipBlanks.trans (reaches_skipComment _))
  rw [readGroup]
  dsimp only
  generalize e.skipBlanks.skipComment = d at hd
  have hline := hd.trans d.reaches_skipLine
  have hblock : Block src heading.name depth child d.skipLine _ :=
    block_readChildren hread (hin.reaches hline) d.atLineEnd_skipLine
  obtain ⟨hb, hbelow⟩ := hblock.orderly hread horder
  have hreach := hblock.reaches hread
  generalize readChildren src heading.name depth child d.skipLine = b at hb hbelow hreach
  have htrailing : c.Passes d.skipLine
      ((if d.atLineEnd then [] else [⟨d.position, .trailingCharacters⟩] : List Diagnostic).map
        Diagnostic.position) := by
    split
    · exact .nil ..
    · exact .single hd d.reaches_skipLine
  generalize (if d.atLineEnd then [] else _ : List Diagnostic) = trailing at htrailing
  -- what the heading line tells comes before what the block tells
  have hpasses {ps} (h : c.Passes d.skipLine ps) : c.Passes b.cursor (ps ++ b.places walkAll) :=
    h.append hb.passes hbelow hline hreach
  obtain ⟨x, hx, hiff⟩ := hb.reports
  rw [hx]
  cases x with
  | none =>
    have h := hpasses htrailing
    rw [places_of_none hx, ← List.map_append] at h
    exact orderly_of_none rfl (by simp [hiff.1 rfl]) (by simpa using h)
  | some children =>
    have hsilent := hb.reports.silent hx
    rw [places_of_some hx hsilent] at hpasses
    dsimp only
    split
    · next hsome =>
      have h := htrailing.widen (.refl c) hreach
      exact orderly_of_none rfl (by simpa [hsilent] using hsome) (by simpa [hsilent] using h)
    next hnone =>
    obtain rfl : trailing = [] := by simpa using hnone
    have hsingle := Passes.single (.refl c) hline
    rw [← hheading] at hsingle
    split
    · next hempty =>
      exact orderly_of_none rfl (by simp)
        (by simpa [hsilent] using hsingle.widen (.refl c) hreach)
    · next hne =>
      have hne : children ≠ [] := by simpa using hne
      rw [ofChildren?_eq (isRuleName_of_isName hname) hne]
      exact orderly_of_some rfl (by simp [hsilent]) (hpasses hsingle)

end

theorem orderly_readTerminal (heading : Heading) (hname : isName heading.name.toList) (depth : Nat)
    {e : Cursor} (hc : c.Reaches e) (hheading : heading.position = c.position) :
    (readTerminal src limit heading depth e).Orderly walk c := by
  have hreach := hc.trans (reaches_readTerminal src limit heading depth e)
  have hread := (Term.located_read src limit true e.skipContinuedBlanks).widen
    (hc.trans e.reaches_skipContinuedBlanks)
  rw [readTerminal] at hreach ⊢
  split
  · next hs =>
    rw [if_pos hs] at hreach
    generalize Term.read src limit true e.skipContinuedBlanks = r at hread hreach
    cases r with
    | failed d c' =>
      obtain ⟨b, hb, hb', hp⟩ := hread
      have hsingle := Passes.single hb (hb'.trans (reaches_skipBlock src (4 * depth) c'))
      rw [hp] at hsingle
      exact orderly_of_none rfl (by simp) hsingle
    | done t c' =>
      dsimp only at hreach ⊢
      rw [ofTerm?, if_pos (isRuleName_of_isName hname)] at hreach ⊢
      have hsingle := Passes.single (.refl c) hreach
      rw [← hheading] at hsingle
      exact orderly_of_some rfl rfl hsingle
  · exact orderly_fail _ hc (reaches_skipBlock ..)

theorem orderly_read (levels depth : Nat) :
    ReadsInOrder src (read src limit levels depth) := by
  induction levels generalizing depth with
  | zero =>
    intro c hin hc
    rw [read]
    split
    · exact orderly_fail _ (.refl c) (.refl c)
    · exact orderly_fail _ (.refl c) (reaches_skipBlock ..)
  | succ levels ih =>
    intro c hin hc
    rw [read]
    split
    · exact orderly_fail _ (.refl c) (.refl c)
    have hheading := isName_ofList_name hc
    have hd := (Reaches.drop c c.name.length).trans (reaches_skipBlanks _)
    split
    · next hempty => exact absurd hempty (not_isEmpty_name hc)
    dsimp only
    split
    · next e he =>
      exact orderly_readTerminal ⟨String.ofList c.name, c.position, []⟩ hheading depth
        (hd.trans (reaches_of_accept? he)) rfl
    · next e _ he =>
      exact orderly_readGroup (readsRules_read src limit levels (depth + 1)) (ih (depth + 1))
        ⟨String.ofList c.name, c.position, []⟩ hheading depth hin (hd.trans (reaches_of_accept? he))
        rfl
    · exact orderly_fail _ hd (reaches_skipBlock ..)

theorem orderly_readAt (depth : Int) : ReadsInOrder src (readAt src limit depth) := by
  intro c hin hc
  rw [readAt]
  split
  · exact orderly_fail _ (.refl c) (.refl c)
  · exact orderly_read _ _ c hin hc

end Rule

end IndentedGrammar
