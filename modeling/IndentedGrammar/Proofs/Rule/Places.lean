import IndentedGrammar.Proofs.Rule.Order

namespace IndentedGrammar

open Cursor

/-- The rule itself and all nodes of its term stand at characters between the cursors. The rules in
it are not asked. -/
structure Rule.HeldBy (c e : Cursor) (r : Rule) : Prop where
  heading : c.Holds e r.position
  term : ∀ t ∈ r.term?, ∀ u ∈ t.walk, c.Holds e u.position

theorem Rule.HeldBy.widen {c c' e e' : Cursor} {r : Rule} (h : r.HeldBy c e) (hc : c'.Reaches c)
    (he : e.Reaches e') : r.HeldBy c' e' :=
  ⟨h.heading.widen hc he, fun t ht u hu => (h.term t ht u hu).widen hc he⟩

theorem Rule.heldBy_within (parent : String) {c e : Cursor} {r : Rule} :
    (r.within parent).HeldBy c e ↔ r.HeldBy c e := by
  constructor
  · rintro ⟨hheading, hterm⟩
    rw [position_within] at hheading
    rw [term?_within] at hterm
    exact ⟨hheading, hterm⟩
  · rintro ⟨hheading, hterm⟩
    rw [← position_within parent] at hheading
    rw [← term?_within parent] at hterm
    exact ⟨hheading, hterm⟩

def Attempt.Located {α : Type} (walk : α → List Rule) (c : Cursor) (a : Attempt α) : Prop :=
  ∀ r ∈ a.rules walk, r.HeldBy c a.cursor

namespace Attempt

variable {α : Type} {walk : α → List Rule} {a : Attempt α} {c : Cursor}

theorem rules_of_some {x : α} (h : a.result = .ok (some x)) : a.rules walk = walk x := by
  rw [rules, h]

theorem located_of_some {x : α} (h : a.result = .ok (some x))
    (hx : ∀ r ∈ walk x, r.HeldBy c a.cursor) : a.Located walk c := by
  rw [Located, rules_of_some h]
  exact hx

theorem located_of_rules_eq_nil (h : a.rules walk = []) : a.Located walk c := by
  rw [Located, h]
  exact fun _ hr => absurd hr List.not_mem_nil

theorem located_of_none (h : a.result = .ok none) : a.Located walk c :=
  located_of_rules_eq_nil (by rw [rules, h])

theorem located_fail (position : Position) (problem : Problem) (e : Cursor) :
    (fail position problem e : Attempt α).Located walk c := located_of_rules_eq_nil rfl

theorem mem_rules_cons {a : Attempt Rule} {more : Cursor → Attempt (List Rule)} {r : Rule}
    (h : r ∈ (a.cons more).rules Rule.walkAll) :
    (r ∈ a.rules Rule.walk ∨ r ∈ (more a.cursor).rules Rule.walkAll) ∧
      (a.cons more).cursor = (more a.cursor).cursor := by
  rw [cons] at h ⊢
  cases hx : a.result with
  | error f => simp [hx, rules] at h
  | ok x =>
    rw [hx] at h
    refine ⟨?_, rfl⟩
    cases hxs : (more a.cursor).result with
    | error f => simp [hxs, rules, Except.map] at h
    | ok xs =>
      cases x with
      | none => simp [hxs, rules, Except.map] at h
      | some x =>
        cases xs with
        | none => simp [hxs, rules, Except.map] at h
        | some xs =>
          rw [rules_of_some hx, rules_of_some hxs]
          simpa [hxs, rules, Except.map, Rule.walkAll] using h

end Attempt

open Attempt

namespace Rule

variable {src : Source} {limit : Int} {child : Cursor → Attempt Rule} {c : Cursor}

section

variable (hread : ∀ c : Cursor, c.Reaches (child c).cursor)
  (hl : ∀ c : Cursor, c.startsName → (child c).Located walk c)

include hl

theorem located_readDeclaration (c : Cursor) : (readDeclaration src child c).Located walk c := by
  have ha : (if c.startsName then child c else .fail c.position .expectedRuleName c).Located
      walk c := by
    split
    · next hc => exact hl c hc
    · exact located_fail _ _ _
  rw [readDeclaration]
  generalize (if c.startsName then child c else .fail c.position .expectedRuleName c) = a at ha
  dsimp only
  split
  · split
    · exact ha
    · exact located_of_rules_eq_nil rfl
  · exact ha

theorem located_readChild (parent : String) (depth : Nat) (c : Cursor) :
    (readChild src parent depth child c).Located walk c := by
  have ha : (readDeclaration src child c).Located walk c := located_readDeclaration hl c
  rw [readChild]
  dsimp only
  split
  · exact ha
  · next r hr =>
    apply located_of_some rfl
    rw [walk_within]
    intro u hu
    obtain ⟨v, hv, rfl⟩ := List.mem_map.1 hu
    rw [Located, rules_of_some hr] at ha
    exact (heldBy_within parent).2 (ha v hv)
  · next hnone => exact located_of_none hnone

include hread

theorem located_readChildren (parent : String) (depth : Nat) (c : Cursor) :
    (readChildren src parent depth child c).Located walkAll c := by
  have hmore := reaches_readChildren src hread parent depth
  fun_induction readChildren src parent depth child c with
  | case1 c => exact located_of_rules_eq_nil rfl
  | case2 c => exact located_of_none rfl
  | case3 c _ _ d _ ih =>
    intro r hr
    obtain ⟨hmem, hcursor⟩ := mem_rules_cons hr
    have hd := c.reaches_skipInsignificant
    have hreach := reaches_readChild src hread parent depth d
    have hfirst : (readChild src parent depth child d).Located walk d :=
      located_readChild hl parent depth d
    rw [hcursor]
    split at hmem
    · next hlt =>
      rw [dif_pos hlt]
      rcases hmem with hr | hr
      · exact (hfirst r hr).widen hd (hmore _)
      · exact (ih _ hlt r hr).widen (hd.trans hreach) (.refl _)
    · next hlt =>
      rw [dif_neg hlt]
      rcases hmem with hr | hr
      · exact (hfirst r hr).widen hd (.refl _)
      · exact absurd hr List.not_mem_nil

theorem located_readGroup (heading : Heading) (hheading : heading.position = c.position)
    (hc : c.rest ≠ []) {e : Cursor} (hce : c.Reaches e) (depth : Nat) :
    (readGroup src child heading depth e).Located walk c := by
  have hline := hce.trans
    ((e.reaches_skipBlanks.trans (reaches_skipComment _)).trans (reaches_skipLine _))
  have hreach := reaches_readChildren src hread heading.name depth
    e.skipBlanks.skipComment.skipLine
  have hchildren : (readChildren src heading.name depth child
      e.skipBlanks.skipComment.skipLine).Located walkAll _ :=
    located_readChildren hread hl heading.name depth _
  rw [readGroup]
  dsimp only
  generalize readChildren src heading.name depth child _ = b at hreach hchildren
  generalize (if e.skipBlanks.skipComment.atLineEnd then [] else _ : List Diagnostic) = trailing
  split
  · exact located_of_rules_eq_nil rfl
  · exact located_of_rules_eq_nil rfl
  next rs hrs =>
  split
  · exact located_of_rules_eq_nil rfl
  split
  · exact located_of_rules_eq_nil rfl
  split
  · exact located_of_rules_eq_nil rfl
  next r hr =>
  rw [ofChildren?] at hr
  split at hr
  · simp at hr
  obtain rfl := Except.ok.inj hr
  apply located_of_some rfl
  intro u hu
  rcases List.mem_cons.1 hu with rfl | hu
  · have hfirst := Holds.first hc (hline.trans hreach)
    rw [← hheading] at hfirst
    exact ⟨hfirst, by simp [term?]⟩
  · rw [Located, rules_of_some hrs] at hchildren
    exact (hchildren u hu).widen hline (.refl _)

end

theorem located_readTerminal (heading : Heading) (hheading : heading.position = c.position)
    (hc : c.rest ≠ []) {e : Cursor} (hce : c.Reaches e) (depth : Nat) :
    (readTerminal src limit heading depth e).Located walk c := by
  have hterm := hce.trans e.reaches_skipContinuedBlanks
  have hread := (Term.located_read src limit true e.skipContinuedBlanks).widen hterm
  have hreach := hterm.trans (Term.reaches_read src limit true e.skipContinuedBlanks)
  rw [readTerminal]
  split
  · generalize Term.read src limit true e.skipContinuedBlanks = r at hread hreach
    cases r with
    | failed d c' => exact located_of_rules_eq_nil rfl
    | done t c' =>
      dsimp only
      split
      · exact located_of_rules_eq_nil rfl
      next r hr =>
      rw [ofTerm?] at hr
      split at hr
      · obtain rfl := Except.ok.inj hr
        apply located_of_some rfl
        intro u hu
        obtain rfl := List.mem_singleton.1 hu
        refine ⟨?_, ?_⟩
        · have hfirst := Holds.first hc hreach
          rwa [← hheading] at hfirst
        · rintro t ⟨⟩
          exact hread
      · simp at hr
  · exact located_fail _ _ _

theorem located_read (levels depth : Nat) (hc : c.startsName) :
    (read src limit levels depth c).Located walk c := by
  induction levels generalizing depth c with
  | zero =>
    rw [read]
    split
    · exact located_fail _ _ _
    · exact located_fail _ _ _
  | succ levels ih =>
    have hne := rest_ne_nil_of_startsName hc
    have hd := (Reaches.drop c c.name.length).trans (reaches_skipBlanks _)
    rw [read]
    split
    · exact located_fail _ _ _
    dsimp only
    split
    · exact located_of_rules_eq_nil rfl
    split
    · next e he =>
      exact located_readTerminal ⟨String.ofList c.name, c.position, []⟩ rfl hne
        (hd.trans (reaches_of_accept? he)) depth
    · next e _ he =>
      exact located_readGroup (reaches_read src limit levels (depth + 1)) (fun c => ih (depth + 1))
        ⟨String.ofList c.name, c.position, []⟩ rfl hne (hd.trans (reaches_of_accept? he)) depth
    · exact located_fail _ _ _

theorem located_readAt (depth : Int) (hc : c.startsName) : (readAt src limit depth c).Located walk c := by
  rw [readAt]
  split
  · exact located_fail _ _ _
  · exact located_read _ _ hc

theorem readAt_of_not_startsName (src : Source) (limit depth : Int) (hc : ¬ c.startsName) : ∃ e,
    (∃ problem, readAt src limit depth c = .fail c.position problem e) ∨
      ∃ f, readAt src limit depth c = .fault f e := by
  have hempty : c.name.isEmpty := by
    rw [Cursor.startsName] at hc
    cases htext : c.rest with
    | nil => simp [Cursor.name, htext]
    | cons ch text =>
      rw [htext] at hc
      have hch : ¬ isNameChar ch := hc
      rw [Cursor.name, htext, List.takeWhile_cons_of_neg hch]
      rfl
  rw [readAt]
  split
  · exact ⟨c, .inl ⟨_, rfl⟩⟩
  cases (limit + 1 - depth).toNat with
  | zero =>
    rw [read]
    split
    · exact ⟨c, .inl ⟨_, rfl⟩⟩
    · exact ⟨_, .inl ⟨_, rfl⟩⟩
  | succ levels =>
    rw [read]
    split
    · exact ⟨c, .inl ⟨_, rfl⟩⟩
    · exact ⟨c, .inr ⟨_, if_pos hempty⟩⟩

theorem tells_readAt (depth : Int) (hin : c.IsIn src) :
    (∀ d ∈ (readAt src limit depth c).diagnostics, ∃ b, c.Reaches b ∧ b.position = d.position) ∧
      (readAt src limit depth c).Located walk c := by
  by_cases hc : c.startsName
  · refine ⟨fun d hd => ?_, located_readAt depth hc⟩
    obtain ⟨b, hb, -, hp⟩ := (orderly_readAt depth c hin hc).passes.between d.position
      (List.mem_append_left _ (List.mem_map_of_mem hd))
    exact ⟨b, hb, hp⟩
  · obtain ⟨e, ⟨problem, h⟩ | ⟨f, h⟩⟩ := readAt_of_not_startsName src limit depth hc
    · rw [h]
      exact ⟨List.forall_mem_singleton.2 ⟨c, .refl c, rfl⟩, located_fail _ _ _⟩
    · rw [h]
      exact ⟨List.forall_mem_nil _, located_of_rules_eq_nil rfl⟩

end Rule

end IndentedGrammar
