import IndentedGrammar.Proofs.Term.Tokens

/-! The grammar of terms over tokens. Parentheses leave no node, and a choice or a sequence of one
part is that part. Main statements: what tokens derive is well formed, and written out it needs no
more parentheses open at once than they have. -/

namespace IndentedGrammar

namespace Term

def bare (t : Term) : Term := t.mapPosition fun _ => .start

def leaf (kind : Kind) (text : List Char) : Term := ⟨kind, .start, some (String.ofList text), []⟩

def node (kind : Kind) (parts : List Term) : Term := ⟨kind, .start, none, parts⟩

mutual

def nesting (min : Nat) : Term → Nat
  | ⟨kind, _, _, children⟩ =>
    nestingAll (kind.precedence + 1) children + if kind.precedence < min then 1 else 0

def nestingAll (min : Nat) : List Term → Nat
  | [] => 0
  | t :: ts => max (t.nesting min) (nestingAll min ts)

end

end Term

namespace Token

def OpenAtMost (n : Nat) (toks : List Token) : Prop :=
  ∀ k, (toks.take k).count (.mark '(') ≤ (toks.take k).count (.mark ')') + n

def startsPart : Token → Bool
  | .mark ch => IndentedGrammar.startsPart ch
  | _ => true

def IsBalanced (toks : List Token) : Prop := toks.count (.mark '(') = toks.count (.mark ')')

end Token

inductive Phrase where
  | atom : Phrase
  | repeated : Phrase
  | part : Phrase
  | parts : Phrase
  | sequence : Phrase
  | alternatives : Phrase
  | choice : Phrase
  | term : Phrase

inductive Derives : Phrase → List Token → List Term → Prop
  | reference {name} : Derives .atom [.reference name] [.leaf .reference name]
  | literal {value} : Derives .atom [.literal value] [.leaf .literal value]
  | characterClass {body} : Derives .atom [.characterClass body] [.leaf .characterClass body]
  | any : Derives .atom [.mark '.'] [.node .any []]
  | group {toks t} : Derives .choice toks [t] →
    Derives .atom (.mark '(' :: (toks ++ [.mark ')'])) [t]
  | once {toks t} : Derives .atom toks [t] → Derives .repeated toks [t]
  | repetition {toks t} (r : Repetition) : Derives .atom toks [t] →
      Derives .repeated (toks ++ [.mark r.symbol]) [.node (.repetition r) [t]]
  | plain {toks t} : Derives .repeated toks [t] → Derives .part toks [t]
  | predicate {toks t} (p : Predicate) : Derives .repeated toks [t] →
      Derives .part (.mark p.symbol :: toks) [.node (.predicate p) [t]]
  | lastPart {toks t} : Derives .part toks [t] → Derives .parts toks [t]
  | part {toks more t ts} : Derives .part toks [t] → Derives .parts more ts →
      Derives .parts (toks ++ more) (t :: ts)
  | sequence {toks ts} : Derives .parts toks ts →
      Derives .sequence toks [Term.collapse .sequence .start ts]
  | lastAlternative {toks t} : Derives .sequence toks [t] → Derives .alternatives toks [t]
  | alternative {toks more t ts} : Derives .sequence toks [t] → Derives .alternatives more ts →
      Derives .alternatives (toks ++ .mark '|' :: more) (t :: ts)
  | choice {toks ts} : Derives .alternatives toks ts →
      Derives .choice toks [Term.collapse .choice .start ts]
  | term {toks t} : Derives .choice toks [t] → Derives .term toks [t]
  | barred {toks t} : Derives .choice toks [t] → Derives .term (.mark '|' :: toks) [t]

namespace Token

theorem OpenAtMost.mono {m n : Nat} {toks : List Token} (h : OpenAtMost m toks) (hmn : m ≤ n) :
    OpenAtMost n toks := by
  intro k
  have := h k
  omega

theorem IsBalanced.append {a b : List Token} (ha : IsBalanced a) (hb : IsBalanced b) :
    IsBalanced (a ++ b) := by
  simp only [IsBalanced, List.count_append] at *
  omega

theorem isBalanced_single {tok : Token} (ho : tok ≠ .mark '(') (hc : tok ≠ .mark ')') :
    IsBalanced [tok] := by
  simp [IsBalanced, ho, hc]

theorem openAtMost_append {n : Nat} {a b : List Token} (ha : IsBalanced a) :
    OpenAtMost n (a ++ b) ↔ OpenAtMost n a ∧ OpenAtMost n b := by
  constructor
  · intro h
    constructor
    · intro k
      have hk := h (min k a.length)
      rwa [List.take_append_of_le_length (Nat.min_le_right _ _), ← List.take_take, List.take_length]
        at hk
    · intro k
      have hk := h (a.length + k)
      rw [List.take_length_add_append, List.count_append, List.count_append] at hk
      simp only [IsBalanced] at ha
      omega
  · rintro ⟨h, h'⟩ k
    -- a front of the whole is one of `a`, or all of `a` and a front of `b`
    rw [List.take_append, List.count_append, List.count_append]
    rcases Nat.lt_or_ge k a.length with hk | hk
    · rw [Nat.sub_eq_zero_of_le (Nat.le_of_lt hk)]
      simpa using h k
    · have := h' (k - a.length)
      rw [List.take_of_length_le hk]
      simp only [IsBalanced] at ha
      omega

theorem openAtMost_single {n : Nat} {tok : Token} (ho : tok ≠ .mark '(') : OpenAtMost n [tok] := by
  intro k
  cases k with
  | zero => simp
  | succ k => simp [List.count_singleton, ho]

theorem openAtMost_cons {n : Nat} {tok : Token} {toks : List Token} (ho : tok ≠ .mark '(')
    (hc : tok ≠ .mark ')') : OpenAtMost n (tok :: toks) ↔ OpenAtMost n toks := by
  have h := openAtMost_append (n := n) (b := toks) (isBalanced_single ho hc)
  simpa [openAtMost_single ho] using h

theorem openAtMost_group {n : Nat} {toks : List Token} (hb : IsBalanced toks) :
    OpenAtMost n (.mark '(' :: (toks ++ [.mark ')'])) ↔ ∃ m, n = m + 1 ∧ OpenAtMost m toks := by
  constructor
  · intro h
    have hpos : 1 ≤ n := by simpa using h 1
    refine ⟨n - 1, by omega, ?_⟩
    intro k
    have hk := h (min k toks.length + 1)
    rw [List.take_succ_cons, List.take_append_of_le_length (Nat.min_le_right _ _), ← List.take_take,
      List.take_length] at hk
    simp at hk
    omega
  · rintro ⟨m, rfl, h⟩ k
    cases k with
    | zero => simp
    | succ k =>
      rcases Nat.lt_or_ge toks.length k with hk | hk
      · rw [List.take_of_length_le (by simp; omega)]
        simp only [IsBalanced] at hb
        simp [hb]
      · have := h k
        rw [List.take_succ_cons, List.take_append_of_le_length hk]
        simp
        omega

end Token

namespace Derives

open Token

variable {toks : List Token} {ts : List Term} {phrase : Phrase}

theorem isBalanced (h : Derives phrase toks ts) : IsBalanced toks := by
  induction h with
  | reference => exact isBalanced_single (by simp) (by simp)
  | literal => exact isBalanced_single (by simp) (by simp)
  | characterClass => exact isBalanced_single (by simp) (by simp)
  | any => exact isBalanced_single (by decide) (by decide)
  | group _ ih =>
    simp only [IsBalanced] at ih
    simp [IsBalanced, ih]
  | once _ ih => exact ih
  | repetition r _ ih => cases r <;> exact ih.append (isBalanced_single (by decide) (by decide))
  | plain _ ih => exact ih
  | predicate p _ ih => cases p <;> exact (isBalanced_single (by decide) (by decide)).append ih
  | lastPart _ ih => exact ih
  | part _ _ ih ih' => exact ih.append ih'
  | sequence _ ih => exact ih
  | lastAlternative _ ih => exact ih
  | alternative _ _ ih ih' =>
    exact ih.append ((isBalanced_single (by decide) (by decide)).append ih')
  | choice _ ih => exact ih
  | term _ ih => exact ih
  | barred _ ih => exact (isBalanced_single (by decide) (by decide)).append ih

theorem ne_nil (h : Derives phrase toks ts) : ts ≠ [] := by
  cases h <;> simp

theorem startsPart (h : Derives phrase toks ts) (hp : phrase ≠ .term) :
    ∃ tok more, toks = tok :: more ∧ tok.startsPart := by
  induction h with
  | reference => exact ⟨_, _, rfl, rfl⟩
  | literal => exact ⟨_, _, rfl, rfl⟩
  | characterClass => exact ⟨_, _, rfl, rfl⟩
  | any => exact ⟨_, _, rfl, rfl⟩
  | group => exact ⟨_, _, rfl, rfl⟩
  | once _ ih => exact ih (by simp)
  | repetition r _ ih =>
    obtain ⟨tok, more, rfl, h⟩ := ih (by simp)
    exact ⟨tok, _, rfl, h⟩
  | plain _ ih => exact ih (by simp)
  | predicate p => cases p <;> exact ⟨_, _, rfl, rfl⟩
  | lastPart _ ih => exact ih (by simp)
  | part _ _ ih =>
    obtain ⟨tok, more, rfl, h⟩ := ih (by simp)
    exact ⟨tok, _, rfl, h⟩
  | sequence _ ih => exact ih (by simp)
  | lastAlternative _ ih => exact ih (by simp)
  | alternative _ _ ih =>
    obtain ⟨tok, more, rfl, h⟩ := ih (by simp)
    exact ⟨tok, _, rfl, h⟩
  | choice _ ih => exact ih (by simp)
  | term => exact absurd rfl hp
  | barred => exact absurd rfl hp

theorem tokens_ne_nil (h : Derives phrase toks ts) (hp : phrase ≠ .term) : toks ≠ [] := by
  obtain ⟨tok, more, rfl, -⟩ := h.startsPart hp
  simp

end Derives

namespace Term

theorem bare_mk (kind : Kind) (p : Position) (text : Option String) (ts : List Term) :
    bare ⟨kind, p, text, ts⟩ = ⟨kind, .start, text, ts.map bare⟩ := by
  rw [bare, mapPosition, mapPositionAll_eq_map]
  rfl

theorem bare_collapse (kind : Kind) (p : Position) (ts : List Term) :
    (collapse kind p ts).bare = collapse kind .start (ts.map bare) := by
  match ts with
  | [] => exact bare_mk kind p none []
  | [t] => rfl
  | t :: t' :: ts => exact bare_mk kind p none (t :: t' :: ts)

mutual

theorem wellFormed_bare : (t : Term) → (t.bare.WellFormed ↔ t.WellFormed)
  | ⟨kind, p, text, children⟩ => by
    rw [bare_mk, WellFormed, WellFormed, List.length_map, allWellFormed_bare children]

theorem allWellFormed_bare : (ts : List Term) → (AllWellFormed (ts.map bare) ↔ AllWellFormed ts)
  | [] => Iff.rfl
  | t :: ts => by
    rw [List.map_cons, AllWellFormed, AllWellFormed, wellFormed_bare t, allWellFormed_bare ts]

end

mutual

theorem wellFormed_of_mem_walk : (t : Term) → t.WellFormed → ∀ u ∈ t.walk, u.WellFormed
  | ⟨kind, position, text, children⟩, h, u, hu => by
    rcases List.mem_cons.1 hu with rfl | hu
    · exact h
    · exact wellFormed_of_mem_walkAll children h.2.2 u hu

theorem wellFormed_of_mem_walkAll :
    (ts : List Term) → AllWellFormed ts → ∀ u ∈ walkAll ts, u.WellFormed
  | [], _, u, hu => absurd hu List.not_mem_nil
  | t :: ts, h, u, hu => by
    rcases List.mem_append.1 hu with hu | hu
    · exact wellFormed_of_mem_walk t h.1 u hu
    · exact wellFormed_of_mem_walkAll ts h.2 u hu

end

mutual

theorem nesting_bare (min : Nat) : (t : Term) → t.bare.nesting min = t.nesting min
  | ⟨kind, p, text, children⟩ => by
    rw [bare_mk, nesting, nesting, nestingAll_bare _ children]

theorem nestingAll_bare (min : Nat) :
    (ts : List Term) → nestingAll min (ts.map bare) = nestingAll min ts
  | [] => rfl
  | t :: ts => by
    rw [List.map_cons, nestingAll, nestingAll, nesting_bare min t, nestingAll_bare min ts]

end

theorem nestingAll_le_iff {min n : Nat} {ts : List Term} :
    nestingAll min ts ≤ n ↔ ∀ t ∈ ts, t.nesting min ≤ n := by
  induction ts with
  | nil => simp [nestingAll]
  | cons t ts ih => rw [nestingAll, Nat.max_le, ih, List.forall_mem_cons]

theorem nesting_mono {m n : Nat} (h : m ≤ n) (t : Term) : t.nesting m ≤ t.nesting n := by
  obtain ⟨kind, p, text, children⟩ := t
  simp only [nesting]
  split <;> split <;> omega

theorem nesting_le_succ (m n : Nat) (t : Term) : t.nesting m ≤ t.nesting n + 1 := by
  obtain ⟨kind, p, text, children⟩ := t
  simp only [nesting]
  split <;> split <;> omega

theorem wellFormed_collapse {kind : Kind} (hkind : kind = .choice ∨ kind = .sequence)
    {ts : List Term} (hne : ts ≠ []) (h : ∀ t ∈ ts, t.WellFormed) :
    (collapse kind .start ts).WellFormed := by
  match ts with
  | [] => exact absurd rfl hne
  | [t] => exact h t (by simp)
  | t :: t' :: ts =>
    rw [collapse, WellFormed, allWellFormed_iff]
    · rcases hkind with rfl | rfl <;> exact ⟨rfl, rfl, h⟩
    · nofun

theorem nesting_collapse (kind : Kind) {n : Nat} {ts : List Term}
    (h : ∀ t ∈ ts, t.nesting (kind.precedence + 1) ≤ n) :
    (collapse kind .start ts).nesting kind.precedence ≤ n := by
  match ts with
  | [] => simp [collapse, nesting, nestingAll]
  | [t] => exact Nat.le_trans (nesting_mono (Nat.le_succ _) t) (h t (by simp))
  | t :: t' :: ts =>
    rw [collapse, nesting, if_neg (Nat.lt_irrefl _)]
    · exact nestingAll_le_iff.2 h
    · nofun

theorem wellFormed_leaf {kind : Kind} {text : List Char}
    (ht : fitsText (some (String.ofList text)) kind) (hc : fitsChildren 0 kind) :
    (leaf kind text).WellFormed := ⟨ht, hc, trivial⟩

theorem wellFormed_node {kind : Kind} {t : Term} (ht : fitsText none kind)
    (hc : fitsChildren 1 kind) (h : t.WellFormed) :
    (node kind [t]).WellFormed := ⟨ht, hc, h, trivial⟩

theorem nesting_leaf_le {kind : Kind} (h : kind.precedence = 4) (text : List Char) (n : Nat) :
    (leaf kind text).nesting 4 ≤ n := by
  simp [leaf, nesting, nestingAll, h]

theorem nesting_node (kind : Kind) (t : Term) :
    (node kind [t]).nesting kind.precedence = t.nesting (kind.precedence + 1) := by
  simp [node, nesting, nestingAll]

end Term

namespace Phrase

def level : Phrase → Nat
  | .term | .choice => 0
  | .alternatives | .sequence => 1
  | .parts | .part => 2
  | .repeated => 3
  | .atom => 4

end Phrase

namespace Derives

open Token

variable {toks : List Token} {ts : List Term} {phrase : Phrase}

theorem wellFormed (h : Derives phrase toks ts) (hs : ∀ tok ∈ toks, ∃ word, tok.Spelled word) :
    ∀ t ∈ ts, t.WellFormed := by
  induction h with
  | reference =>
    obtain ⟨word, hword⟩ := hs _ (List.mem_singleton_self _)
    cases hword with
    | reference hname => simpa using Term.wellFormed_leaf (by simpa [Term.fitsText] using hname) rfl
  | literal =>
    obtain ⟨word, hword⟩ := hs _ (List.mem_singleton_self _)
    cases hword with
    | literal _ _ hne => simpa using Term.wellFormed_leaf (by simpa [Term.fitsText] using hne) rfl
  | characterClass =>
    obtain ⟨word, hword⟩ := hs _ (List.mem_singleton_self _)
    cases hword with
    | characterClass hb hne =>
      simpa using Term.wellFormed_leaf (by simpa [Term.fitsText] using ⟨hne, hb⟩) rfl
  | any => simpa using ⟨rfl, rfl, trivial⟩
  | group _ ih => exact ih fun tok ht => hs tok (by simp [ht])
  | once _ ih => exact ih hs
  | repetition r _ ih =>
    have ht := ih fun tok ht => hs tok (by simp [ht])
    simpa using Term.wellFormed_node rfl rfl (ht _ (by simp))
  | plain _ ih => exact ih hs
  | predicate p _ ih =>
    have ht := ih fun tok ht => hs tok (by simp [ht])
    simpa using Term.wellFormed_node rfl rfl (ht _ (by simp))
  | lastPart _ ih => exact ih hs
  | part _ _ ih ih' =>
    have ht := ih fun tok ht => hs tok (by simp [ht])
    have hts := ih' fun tok ht => hs tok (by simp [ht])
    simpa using ⟨ht _ (by simp), hts⟩
  | sequence hparts ih => simpa using Term.wellFormed_collapse (.inr rfl) hparts.ne_nil (ih hs)
  | lastAlternative _ ih => exact ih hs
  | alternative _ _ ih ih' =>
    have ht := ih fun tok ht => hs tok (by simp [ht])
    have hts := ih' fun tok ht => hs tok (by simp [ht])
    simpa using ⟨ht _ (by simp), hts⟩
  | choice halternatives ih =>
    simpa using Term.wellFormed_collapse (.inl rfl) halternatives.ne_nil (ih hs)
  | term _ ih => exact ih hs
  | barred _ ih => exact ih fun tok ht => hs tok (by simp [ht])

theorem nesting_le (h : Derives phrase toks ts) {n : Nat} (ho : OpenAtMost n toks) :
    ∀ t ∈ ts, t.nesting phrase.level ≤ n := by
  induction h generalizing n with
  | reference => simpa [Phrase.level] using Term.nesting_leaf_le rfl _ n
  | literal => simpa [Phrase.level] using Term.nesting_leaf_le rfl _ n
  | characterClass => simpa [Phrase.level] using Term.nesting_leaf_le rfl _ n
  | any => simp [Phrase.level, Term.node, Term.nesting, Term.nestingAll, Kind.precedence]
  | group hchoice ih =>
    -- the one parenthesis that a tighter place may add is the one that stands here
    obtain ⟨m, rfl, hm⟩ := (openAtMost_group hchoice.isBalanced).1 ho
    have ht := ih hm _ (List.mem_singleton_self _)
    intro t hmem
    obtain rfl := List.mem_singleton.1 hmem
    exact Nat.le_trans (Term.nesting_le_succ 4 0 t) (Nat.succ_le_succ ht)
  | once _ ih =>
    intro t hmem
    exact Nat.le_trans (Term.nesting_mono (by decide) t) (ih ho t hmem)
  | repetition r hatom ih =>
    have ht := ih ((openAtMost_append hatom.isBalanced).1 ho).1 _ (List.mem_singleton_self _)
    intro t hmem
    obtain rfl := List.mem_singleton.1 hmem
    exact Nat.le_trans (Nat.le_of_eq (Term.nesting_node (.repetition r) _)) ht
  | plain _ ih =>
    intro t hmem
    exact Nat.le_trans (Term.nesting_mono (by decide) t) (ih ho t hmem)
  | predicate p _ ih =>
    have hp : OpenAtMost n _ :=
      (openAtMost_cons (by cases p <;> decide) (by cases p <;> decide)).1 ho
    have ht := ih hp _ (List.mem_singleton_self _)
    intro t hmem
    obtain rfl := List.mem_singleton.1 hmem
    exact Nat.le_trans (Nat.le_of_eq (Term.nesting_node (.predicate p) _)) ht
  | lastPart _ ih => exact ih ho
  | part hpart _ ih ih' =>
    obtain ⟨ha, hb⟩ := (openAtMost_append hpart.isBalanced).1 ho
    simpa using ⟨ih ha _ (by simp), ih' hb⟩
  | sequence _ ih =>
    intro t hmem
    obtain rfl := List.mem_singleton.1 hmem
    exact Term.nesting_collapse .sequence (ih ho)
  | lastAlternative _ ih => exact ih ho
  | alternative hsequence _ ih ih' =>
    obtain ⟨ha, hb⟩ := (openAtMost_append hsequence.isBalanced).1 ho
    have hb := (openAtMost_cons (by decide) (by decide)).1 hb
    simpa using ⟨ih ha _ (by simp), ih' hb⟩
  | choice _ ih =>
    intro t hmem
    obtain rfl := List.mem_singleton.1 hmem
    exact Term.nesting_collapse .choice (ih ho)
  | term _ ih => exact ih ho
  | barred _ ih => exact ih ((openAtMost_cons (by decide) (by decide)).1 ho)

end Derives

end IndentedGrammar
