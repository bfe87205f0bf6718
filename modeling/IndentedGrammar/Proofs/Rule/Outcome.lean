import IndentedGrammar.Document
import IndentedGrammar.Proofs.Term.Soundness
import IndentedGrammar.Rule.WellFormed

namespace IndentedGrammar

open Cursor

namespace Rule

mutual

theorem walk_within (parent : String) :
    (r : Rule) → (r.within parent).walk = r.walk.map (within parent)
  | .terminal heading term => rfl
  | .group heading children => by
    rw [within, walk, walk, List.map_cons, within, walkAll_within parent children]

theorem walkAll_within (parent : String) :
    (rs : List Rule) → walkAll (withinAll parent rs) = (walkAll rs).map (within parent)
  | [] => rfl
  | r :: rs => by
    rw [withinAll, walkAll, walkAll, List.map_append, walk_within parent r,
      walkAll_within parent rs]

end

mutual

theorem wellFormed_within (parent : String) {scope : List String} :
    (r : Rule) → r.WellFormed scope → (r.within parent).WellFormed (parent :: scope)
  | .terminal heading term, h => ⟨h.1, congrArg (parent :: ·) h.2.1, h.2.2⟩
  | .group heading children, h => by
    refine ⟨h.1, congrArg (parent :: ·) h.2.1, ?_, allWellFormed_within parent children h.2.2.2⟩
    obtain ⟨r, rs, hrs⟩ := List.exists_cons_of_ne_nil h.2.2.1
    rw [hrs]
    nofun

theorem allWellFormed_within (parent : String) {scope : List String} :
    (rs : List Rule) → AllWellFormed scope rs →
      AllWellFormed (parent :: scope) (withinAll parent rs)
  | [], _ => trivial
  | r :: rs, h => ⟨wellFormed_within parent r h.1, allWellFormed_within parent rs h.2⟩

end

theorem WellFormed.isName {r : Rule} {scope : List String} (h : r.WellFormed scope) :
    isName r.name.toList := by
  cases r with
  | terminal heading t => exact h.1
  | group heading rs => exact h.1

theorem WellFormed.scope_eq {r : Rule} {scope : List String} (h : r.WellFormed scope) :
    r.scope = scope := by
  cases r with
  | terminal heading t => exact h.2.1
  | group heading rs => exact h.2.1

@[simp] theorem scope_within (parent : String) (r : Rule) :
    (r.within parent).scope = parent :: r.scope := by
  cases r <;> rfl

@[simp] theorem term?_within (parent : String) (r : Rule) : (r.within parent).term? = r.term? := by
  cases r <;> rfl

/-- A rule that can stand inside of the groups `scope`, with less than `levels` names in the scopes
of its parts and with terms for which `limit` parentheses are enough. -/
structure Fits (limit : Int) (scope : List String) (levels : Nat) (r : Rule) : Prop where
  wellFormed : r.WellFormed scope
  scopes : ∀ u ∈ r.walk, u.scope.length < levels
  nesting : ∀ u ∈ r.walk, ∀ t ∈ u.term?, t.nesting 0 ≤ limit.toNat

variable {limit : Int} {scope : List String} {levels : Nat}

theorem Fits.within {r : Rule} (h : r.Fits limit scope levels) (parent : String) :
    (r.within parent).Fits limit (parent :: scope) (levels + 1) := by
  refine ⟨wellFormed_within parent r h.wellFormed, ?_, ?_⟩
  · rw [walk_within]
    simpa using h.scopes
  · rw [walk_within]
    simpa using h.nesting

theorem mem_walk_self (r : Rule) : r ∈ r.walk := by
  cases r <;> simp [walk]

theorem mem_walkAll {u : Rule} {rs : List Rule} : u ∈ walkAll rs ↔ ∃ r ∈ rs, u ∈ r.walk := by
  rw [walkAll_eq_flatMap, List.mem_flatMap]

theorem Fits.child {heading : Heading} {rs : List Rule}
    (h : (group heading rs).Fits limit scope levels) {r : Rule} (hr : r ∈ rs) :
    r.Fits limit (scope ++ [heading.name]) levels := by
  have hmem {u : Rule} (hu : u ∈ r.walk) : u ∈ (group heading rs).walk := by
    rw [walk, List.mem_cons, mem_walkAll]
    exact .inr ⟨r, hr, hu⟩
  refine ⟨?_, fun u hu => h.scopes u (hmem hu), fun u hu => h.nesting u (hmem hu)⟩
  exact allWellFormed_iff.1 h.wellFormed.2.2.2 r hr

theorem fits_terminal {heading : Heading} {t : Term} (hname : isName heading.name.toList)
    (hscope : heading.scope = []) (ht : t.WellFormed) (hn : t.nesting 0 ≤ limit.toNat) :
    (terminal heading t).Fits limit [] (levels + 1) := by
  refine ⟨⟨hname, hscope, ht⟩, ?_, ?_⟩
  · simp [walk, scope, Rule.heading, hscope]
  · simpa [walk, term?] using hn

theorem fits_group {heading : Heading} {rs : List Rule} (hname : isName heading.name.toList)
    (hscope : heading.scope = []) (hne : rs ≠ [])
    (h : ∀ r ∈ rs, r.Fits limit [heading.name] (levels + 1)) :
    (group heading rs).Fits limit [] (levels + 1) := by
  refine ⟨⟨hname, hscope, hne, allWellFormed_iff.2 fun r hr => (h r hr).wellFormed⟩, ?_, ?_⟩
  · intro u hu
    rw [walk, List.mem_cons, mem_walkAll] at hu
    obtain rfl | ⟨r, hr, hu⟩ := hu
    · simp [Rule.scope, Rule.heading, hscope]
    · exact (h r hr).scopes u hu
  · intro u hu
    rw [walk, List.mem_cons, mem_walkAll] at hu
    obtain rfl | ⟨r, hr, hu⟩ := hu
    · simp [term?]
    · exact (h r hr).nesting u hu

end Rule

namespace Attempt

structure Satisfies {α : Type} (a : Attempt α) (p : α → Prop) : Prop where
  noFault : ∃ result, a.result = .ok result
  holds : ∀ x, a.result = .ok (some x) → p x ∧ a.cursor.atLineEnd

variable {α : Type} {p : α → Prop}

theorem satisfies_none {a : Attempt α} (h : a.result = .ok none) : a.Satisfies p := by
  refine ⟨⟨none, h⟩, ?_⟩
  intro x hx
  simp [h] at hx

theorem satisfies_fail (position : Position) (problem : Problem) (c : Cursor) :
    (fail position problem c : Attempt α).Satisfies p :=
  satisfies_none rfl

theorem satisfies_done {x : α} {c : Cursor} (hx : p x) (hc : c.atLineEnd) :
    (done x c).Satisfies p := by
  refine ⟨⟨some x, rfl⟩, ?_⟩
  intro y hy
  obtain rfl : x = y := by simpa [done] using hy
  exact ⟨hx, hc⟩

theorem Satisfies.result_ne_error {a : Attempt α} (h : a.Satisfies p) (f : Fault) :
    a.result ≠ .error f := by
  obtain ⟨result, hresult⟩ := h.noFault
  simp [hresult]

theorem cons_eq {a : Attempt α} {more : Cursor → Attempt (List α)} {first : Option α}
    (h : a.result = .ok first) :
    a.cons more =
      let b := more a.cursor
      ⟨b.result.map fun rest => first.bind fun x => rest.map (x :: ·),
        a.diagnostics ++ b.diagnostics, a.notes ++ b.notes, a.starts ++ b.starts, b.cursor⟩ := by
  rw [cons, h]

theorem cons_satisfies {a : Attempt α} {more : Cursor → Attempt (List α)} (ha : a.Satisfies p)
    (hend : a.cursor.atLineEnd)
    (h : ∀ e : Cursor, e.atLineEnd → (more e).Satisfies fun xs => ∀ x ∈ xs, p x) :
    (a.cons more).Satisfies fun xs => ∀ x ∈ xs, p x := by
  obtain ⟨first, hfirst⟩ := ha.noFault
  obtain ⟨rest, hrest⟩ := (h a.cursor hend).noFault
  have hresult : (a.cons more).result = .ok (first.bind fun x => rest.map (x :: ·)) := by
    rw [cons_eq hfirst]
    dsimp only
    rw [hrest]
    rfl
  have hcursor : (a.cons more).cursor = (more a.cursor).cursor := by
    rw [cons_eq hfirst]
  refine ⟨⟨_, hresult⟩, ?_⟩
  intro xs hxs
  rw [hresult] at hxs
  obtain ⟨x, rfl, hx⟩ := Option.bind_eq_some_iff.1 (Except.ok.inj hxs)
  obtain ⟨ys, rfl, rfl⟩ := Option.map_eq_some_iff.1 hx
  obtain ⟨hys, hcursorEnd⟩ := (h a.cursor hend).holds ys hrest
  exact ⟨List.forall_mem_cons.2 ⟨(ha.holds x hfirst).1, hys⟩, hcursor ▸ hcursorEnd⟩

end Attempt

theorem isName_iff {text : List Char} : isName text ↔ text ≠ [] ∧ ∀ ch ∈ text, isNameChar ch := by
  simp [isName]

theorem exists_cons_of_isName {text : List Char} (h : isName text) :
    ∃ ch more, text = ch :: more ∧ isNameChar ch := by
  obtain ⟨hne, hall⟩ := isName_iff.1 h
  cases text with
  | nil => exact absurd rfl hne
  | cons ch more => exact ⟨ch, more, rfl, hall ch List.mem_cons_self⟩

theorem isName_name {c : Cursor} (h : c.startsName) : isName c.name := by
  obtain ⟨ch, text, hc, hname⟩ := exists_cons_of_head h
  simp [isName, Cursor.name, hc, hname]

theorem isName_ofList_name {c : Cursor} (h : c.startsName) :
    isName (String.ofList c.name).toList := by
  rw [String.toList_ofList]
  exact isName_name h

theorem not_isEmpty_name {c : Cursor} (h : c.startsName) : ¬ c.name.isEmpty := by
  obtain ⟨hne, -⟩ := isName_iff.1 (isName_name h)
  simpa using hne

theorem rest_ne_nil_of_startsName {c : Cursor} (h : c.startsName) : c.rest ≠ [] := by
  obtain ⟨ch, text, hc, -⟩ := exists_cons_of_head h
  simp [hc]

theorem isRuleName_of_isName {name : String} (h : isName name.toList) : isRuleName name := by
  obtain ⟨hne, hall⟩ := isName_iff.1 h
  have htake : (name.toList ++ []).takeWhile isNameChar = name.toList ++ [] :=
    List.takeWhile_append_of_pos hall
  have hdrop : (name.toList ++ []).dropWhile isNameChar = [] := List.dropWhile_append_of_pos hall
  rw [List.append_nil] at htake hdrop
  simpa [isRuleName, htake, hdrop] using hne

namespace Rule

open Attempt

variable (src : Source) (limit : Int) {p : Rule → Prop}

theorem readDeclaration_eq {read : Cursor → Attempt Rule}
    (h : ∀ c, c.startsName → (read c).Satisfies p) (c : Cursor) :
    readDeclaration src read c =
      let a := if c.startsName then read c else .fail c.position .expectedRuleName c
      { a with starts := c.position :: a.starts } := by
  have ha :
      (if c.startsName then read c else .fail c.position .expectedRuleName c).Satisfies p := by
    split
    · next hc => exact h c hc
    · exact satisfies_fail ..
  rw [readDeclaration]
  generalize (if c.startsName then read c else .fail c.position .expectedRuleName c) = a at ha
  dsimp only
  split
  · next r hr => exact if_pos (ha.holds r hr).2
  · rfl

theorem readDeclaration_satisfies {read : Cursor → Attempt Rule}
    (h : ∀ c, c.startsName → (read c).Satisfies p) (c : Cursor) :
    (readDeclaration src read c).Satisfies p := by
  rw [readDeclaration_eq src h]
  dsimp only
  split
  · next hc => exact ⟨(h c hc).noFault, (h c hc).holds⟩
  · exact satisfies_none rfl

theorem readChild_satisfies {read : Cursor → Attempt Rule} {q : Rule → Prop} (parent : String)
    (depth : Nat) (h : ∀ c, c.startsName → (read c).Satisfies p)
    (hq : ∀ r, p r → q (r.within parent)) (c : Cursor) :
    (readChild src parent depth read c).Satisfies q ∧
      (readChild src parent depth read c).cursor.atLineEnd := by
  have ha := readDeclaration_satisfies src h c
  rw [readChild]
  dsimp only
  split
  · next f hf => exact absurd hf (ha.result_ne_error f)
  · next r hr =>
    obtain ⟨hp, hend⟩ := ha.holds r hr
    refine ⟨⟨⟨_, rfl⟩, ?_⟩, hend⟩
    rintro x ⟨⟩
    exact ⟨hq r hp, hend⟩
  · next hnone => exact ⟨satisfies_none hnone, atLineEnd_skipBlock ..⟩

theorem readChild_ends {read : Cursor → Attempt Rule} (parent : String) (depth : Nat)
    (h : ∀ c, c.startsName → (read c).Satisfies p) (c : Cursor) :
    (∃ first, (readChild src parent depth read c).result = .ok first) ∧
      (readChild src parent depth read c).cursor.atLineEnd := by
  have hboth := readChild_satisfies src (q := fun _ => True) parent depth h (fun _ _ => trivial) c
  exact ⟨hboth.1.noFault, hboth.2⟩

theorem readChildren_satisfies {read : Cursor → Attempt Rule} {q : Rule → Prop} (parent : String)
    (depth : Nat) (h : ∀ c, c.startsName → (read c).Satisfies p)
    (hq : ∀ r, p r → q (r.within parent)) {c : Cursor} (hc : c.atLineEnd) :
    (readChildren src parent depth read c).Satisfies fun rs => ∀ r ∈ rs, q r := by
  fun_induction readChildren src parent depth read c with
  | case1 c width hwidth => exact satisfies_done (by simp) hc
  | case2 c width hwidth d hne => exact satisfies_none rfl
  | case3 c width hwidth d hne ih =>
    obtain ⟨ha, hend⟩ := readChild_satisfies src parent depth h hq d
    apply cons_satisfies ha hend
    intro e he
    split
    · next hlt => exact ih e hlt he
    · exact satisfies_done (by simp) he

theorem readTerminal_satisfies (heading : Heading) (hname : isName heading.name.toList)
    (hscope : heading.scope = []) (levels depth : Nat) (c : Cursor) :
    (readTerminal src limit heading depth c).Satisfies (Fits limit [] (levels + 1)) := by
  rw [readTerminal]
  split
  · split
    · exact satisfies_none rfl
    · next t e hread =>
      rw [ofTerm?, if_pos (isRuleName_of_isName hname)]
      refine satisfies_done ?_ (Term.term_of_read hread).2
      exact fits_terminal hname hscope (Term.wellFormed_of_read hread) (Term.nesting_of_read hread)
  · exact satisfies_fail ..

theorem ofChildren?_eq {heading : Heading} {rs : List Rule} (hname : isRuleName heading.name)
    (hne : rs ≠ []) :
    ofChildren? heading rs = .ok (group heading rs) := by
  simp [ofChildren?, hname, hne]

theorem readGroup_satisfies (heading : Heading) (hname : isName heading.name.toList)
    (hscope : heading.scope = []) {levels : Nat} {read : Cursor → Attempt Rule}
    (h : ∀ c, c.startsName → (read c).Satisfies (Fits limit [] levels)) (depth : Nat) (c : Cursor) :
    (readGroup src read heading depth c).Satisfies (Fits limit [] (levels + 1)) := by
  have ha := readChildren_satisfies src heading.name depth h (fun r hr => hr.within heading.name)
    c.skipBlanks.skipComment.atLineEnd_skipLine
  rw [readGroup]
  dsimp only
  generalize (if c.skipBlanks.skipComment.atLineEnd then [] else _ : List Diagnostic) = trailing
  split
  · next f hf => exact absurd hf (ha.result_ne_error f)
  · exact satisfies_none rfl
  · next rs hrs =>
    obtain ⟨hfits, hend⟩ := ha.holds rs hrs
    split
    · exact satisfies_none rfl
    split
    · exact satisfies_none rfl
    · next hne =>
      have hne : rs ≠ [] := by simpa using hne
      rw [ofChildren?_eq (isRuleName_of_isName hname) hne]
      refine ⟨⟨_, rfl⟩, ?_⟩
      rintro r ⟨⟩
      exact ⟨fits_group hname hscope hne hfits, hend⟩

theorem misalignment_eq_none_iff {width depth : Nat} :
    misalignment width depth = none ↔ width = 4 * depth := by
  constructor
  · intro h
    rw [misalignment] at h
    split at h
    · simp at h
    split at h
    · simp at h
    · omega
  · intro h
    rw [misalignment, if_neg (by omega), if_neg (by omega)]

theorem read_misaligned {depth : Nat} {c : Cursor} {problem : Problem}
    (h : misalignment (src.indentation c.position.line) depth = some problem) (levels : Nat) :
    read src limit levels depth c = .fail c.position problem c := by
  cases levels with
  | zero => rw [read, h]
  | succ levels => rw [read, h]

theorem readAt_aligned (depth : Nat) {c : Cursor}
    (h : src.indentation c.position.line = 4 * depth) :
    readAt src limit depth c = read src limit (limit + 1 - depth).toNat depth c := by
  rw [readAt, misalignment_eq_none_iff.2 h]
  rfl

theorem read_satisfies (levels depth : Nat) {c : Cursor} (hc : c.startsName) :
    (read src limit levels depth c).Satisfies (Fits limit [] levels) := by
  induction levels generalizing depth c with
  | zero =>
    rw [read]
    split
    · exact satisfies_fail ..
    · exact satisfies_fail ..
  | succ levels ih =>
    rw [read]
    split
    · exact satisfies_fail ..
    have hheading := isName_ofList_name hc
    split
    · next hempty => exact absurd hempty (not_isEmpty_name hc)
    dsimp only
    split
    · apply readTerminal_satisfies src limit ⟨String.ofList c.name, c.position, []⟩ hheading
      rfl
    · apply readGroup_satisfies src limit ⟨String.ofList c.name, c.position, []⟩ hheading
      · rfl
      · exact fun c hc => ih (depth + 1) hc
    · exact satisfies_fail ..

theorem readAt_satisfies (depth : Int) {c : Cursor} (hc : c.startsName) :
    (readAt src limit depth c).Satisfies (Fits limit [] (limit + 1 - depth).toNat) := by
  rw [readAt]
  split
  · exact satisfies_fail ..
  · exact read_satisfies src limit _ _ hc

end Rule

namespace Document

variable (src : Source) (limit : Int)

theorem readTopLevel_satisfies (c : Cursor) :
    (readTopLevel src limit c).Satisfies (Rule.Fits limit [] (limit + 1).toNat) := by
  have ha := Rule.readDeclaration_satisfies src
    (fun c hc => Rule.readAt_satisfies src limit 0 (c := c) hc) c
  rw [Int.sub_zero] at ha
  rw [readTopLevel]
  dsimp only
  split
  · next f hf => exact absurd hf (ha.result_ne_error f)
  · exact ⟨ha.noFault, ha.holds⟩
  · next hnone => exact Attempt.satisfies_none hnone

theorem atLineEnd_readTopLevel (c : Cursor) : (readTopLevel src limit c).cursor.atLineEnd := by
  have ha := Rule.readDeclaration_satisfies src
    (fun c hc => Rule.readAt_satisfies src limit 0 (c := c) hc) c
  rw [readTopLevel]
  dsimp only
  split
  · next f hf => exact absurd hf (ha.result_ne_error f)
  · next r hr => exact (ha.holds r hr).2
  · exact atLineEnd_skipBlock ..

theorem readFrom_of_rest_nil {c : Cursor} (h : c.rest = []) :
    readFrom src limit c = .ok ⟨src, [], [], [], [], c⟩ := by
  rw [readFrom, if_pos (by rw [atEnd, h]; rfl)]

theorem readFrom_ok (c : Cursor) :
    ∃ doc, readFrom src limit c = .ok doc ∧ ∀ r ∈ doc.rules, r.Fits limit [] (limit + 1).toNat := by
  have hfirst {c : Cursor} {first : Option Rule}
    (h : (readTopLevel src limit c).result = .ok first) :
      ∀ r ∈ first.toList, r.Fits limit [] (limit + 1).toNat := by
    intro r hr
    obtain rfl := Option.mem_toList.1 hr
    exact ((readTopLevel_satisfies src limit c).holds r h).1
  fun_induction readFrom src limit c with
  | case1 => exact ⟨_, rfl, by simp⟩
  | case2 c hc a f hf => exact absurd hf ((readTopLevel_satisfies src limit c).result_ne_error f)
  | case3 c hc a first hresult d hlt f hf ih =>
    obtain ⟨doc, hdoc, -⟩ := ih
    simp [hdoc] at hf
  | case4 c hc a first hresult d hlt more hmore ih =>
    obtain ⟨doc, hdoc, hrules⟩ := ih
    obtain rfl := Except.ok.inj (hmore.symm.trans hdoc)
    refine ⟨_, rfl, ?_⟩
    intro r hr
    rcases List.mem_append.1 hr with hr | hr
    · exact hfirst hresult r hr
    · exact hrules r hr
  | case5 c hc a first hresult d hlt => exact ⟨_, rfl, hfirst hresult⟩

theorem read_ok : ∃ doc, read src limit = .ok doc ∧ ∀ r ∈ doc.rules,
    r.Fits limit [] (limit + 1).toNat := by
  obtain ⟨doc, hdoc, hrules⟩ := readFrom_ok src limit (Cursor.start src.text).skipInsignificant
  rw [read, hdoc]
  exact ⟨_, rfl, hrules⟩

end Document

end IndentedGrammar