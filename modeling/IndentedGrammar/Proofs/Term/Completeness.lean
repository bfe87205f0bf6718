import IndentedGrammar.Proofs.Term.Soundness

namespace IndentedGrammar

open Cursor

def Phrase.endsBefore (next : Option Char) : Phrase → Bool
  | .atom => true
  | .repeated | .part => (next.bind Repetition.ofSymbol?).isNone
  | .parts | .sequence => (next.bind Repetition.ofSymbol?).isNone && !next.any startsPart
  | .alternatives | .choice | .term =>
    (next.bind Repetition.ofSymbol?).isNone && !next.any startsPart && next ≠ some '|'

variable (src : Source) (margin : Nat) (limit : Int)

namespace Term

def groupWithin : Nat → Cursor → Reading Term
  | 0 => fun c => .failed ⟨c.position, .tooDeep limit⟩ c
  | levels + 1 => readGroup src margin (choiceWithin src margin limit levels)

theorem choiceWithin_eq (levels : Nat) :
    choiceWithin src margin limit levels =
      readChoice src margin (groupWithin src margin limit levels) := by
  cases levels <;> rfl

/-- The reader of the phrase returns `ts`, but for their positions, and passes over all up to `d`;
only the reader of atoms leaves the gap at `d` to others. -/
def Returns (levels : Nat) (c d : Cursor) (ts : List Term) : Phrase → Prop
  | .atom => ∃ t, readAtom (groupWithin src margin limit levels) c = .done t d ∧ [t.bare] = ts
  | .repeated => ∃ t, readRepeated src margin (groupWithin src margin limit levels) c =
      .done t (d.skipGap src margin) ∧ [t.bare] = ts
  | .part => ∃ t, readPart src margin (groupWithin src margin limit levels) c =
      .done t (d.skipGap src margin) ∧ [t.bare] = ts
  | .parts => ∃ us, readParts src margin (groupWithin src margin limit levels) c =
      .done us (d.skipGap src margin) ∧ us.map bare = ts
  | .sequence => ∃ t, readSequence src margin (groupWithin src margin limit levels) c =
      .done t (d.skipGap src margin) ∧ [t.bare] = ts
  | .alternatives => ∃ us, readAlternatives src margin (groupWithin src margin limit levels) c =
      .done us (d.skipGap src margin) ∧ us.map bare = ts
  | .choice => ∃ t, choiceWithin src margin limit levels c =
      .done t (d.skipGap src margin) ∧ [t.bare] = ts
  | .term => ∃ t, choiceWithin src margin limit levels
      (if c.current? = some '|' then c.next.skipGap src margin else c) =
      .done t (d.skipGap src margin) ∧ [t.bare] = ts

end Term

variable {src margin limit} {c d : Cursor} {toks : List Token} {levels : Nat}

namespace Scans

theorem inv_single {tok : Token} (h : Scans src margin c [tok] d) :
    ∃ word, tok.Munched word c.rest ∧ d = c.drop word.length := by
  cases h with
  | one hm => exact ⟨_, hm, rfl⟩

theorem inv_mark {ch : Char} (h : Scans src margin c [.mark ch] d) :
    c.current? = some ch ∧ d = c.next := by
  obtain ⟨word, hm, rfl⟩ := h.inv_single
  obtain ⟨text, hc, rfl⟩ := hm.mark_eq
  exact ⟨by simp [current?, hc], rfl⟩

theorem munched {tok : Token} (h : Scans src margin c (tok :: toks) d) :
    ∃ word, tok.Munched word c.rest := by
  cases h with
  | one hm => exact ⟨_, hm⟩
  | more hm _ _ => exact ⟨_, hm⟩

end Scans

theorem Token.Munched.any_startsPart {tok : Token} {word text : List Char}
    (h : tok.Munched word text) (hs : tok.startsPart) :
    text.head?.any IndentedGrammar.startsPart := by
  cases tok with
  | reference name =>
    obtain ⟨ch, more, rfl, hname⟩ := exists_cons_of_head h.reference_eq.1
    simp [IndentedGrammar.startsPart, hname]
  | literal value =>
    obtain ⟨q, body, more, hq, rfl, -⟩ := h.literal_eq
    rcases hq with rfl | rfl <;> rfl
  | characterClass body =>
    obtain ⟨more, rfl, -⟩ := h.characterClass_eq
    rfl
  | mark ch =>
    obtain ⟨more, rfl, -⟩ := h.mark_eq
    exact hs

theorem Scans.any_startsPart (h : Scans src margin c toks d)
    (hs : ∃ tok more, toks = tok :: more ∧ tok.startsPart) : c.current?.any startsPart := by
  obtain ⟨tok, more, rfl, htok⟩ := hs
  obtain ⟨word, hm⟩ := h.munched
  exact hm.any_startsPart htok

theorem ofSymbol?_of_startsPart {ch : Char} (h : startsPart ch) :
    Repetition.ofSymbol? ch = none := by
  have hmark : ¬ Token.isRepetition (.mark ch) := Term.not_isRepetition h
  simpa [Token.isRepetition] using hmark

theorem Phrase.endsBefore_of_startsPart {phrase : Phrase} (h : phrase = .repeated ∨ phrase = .part)
    {next : Option Char} (hn : next.any startsPart) : phrase.endsBefore next := by
  obtain ⟨ch, rfl, hch⟩ := (Option.any_eq_true _ _).1 hn
  rcases h with rfl | rfl <;> simp [endsBefore, ofSymbol?_of_startsPart hch]

namespace Term

variable {group : Cursor → Reading Term}

theorem readDelimited_of_delimited? {close : Char} {kind : Kind} {value : List Char → List Char}
    {unterminated empty : Problem} {body : List Char} (h : delimited? close c.next.rest = some body)
    (hne : body ≠ []) :
    readDelimited close kind value unterminated empty c =
      .done ⟨kind, c.position, some (String.ofList (value body)), []⟩
        (c.drop (body.length + 2)) := by
  rw [readDelimited, h]
  cases body with
  | nil => exact absurd rfl hne
  | cons => rfl

theorem readAtom_of_reference {name word : List Char}
    (h : Token.Munched (.reference name) word c.rest) :
    ∃ t, readAtom group c = .done t (c.drop word.length) ∧ t.bare = leaf .reference name := by
  obtain ⟨hname, hlength, rfl⟩ := h.reference_eq
  obtain ⟨ch, hch, hname⟩ := (Option.any_eq_true _ _).1 hname
  refine ⟨_, ?_, bare_mk .reference c.position _ []⟩
  simp [readAtom, current?, hch, hname, readReference, hlength]

theorem readAtom_of_literal {value word : List Char}
    (h : Token.Munched (.literal value) word c.rest) :
    ∃ t, readAtom group c = .done t (c.drop word.length) ∧ t.bare = leaf .literal value := by
  obtain ⟨q, body, more, hq, hc, hbody, hne, rfl, hlength⟩ := h.literal_eq
  have hnext : delimited? q c.next.rest = some body := by simpa [next, hc] using hbody
  have hread : readLiteral q c =
      .done ⟨.literal, c.position, some (String.ofList (unescape body)), []⟩
        (c.drop (body.length + 2)) :=
    readDelimited_of_delimited? hnext hne
  refine ⟨_, ?_, bare_mk .literal c.position _ []⟩
  rw [hlength, ← hread]
  rcases hq with rfl | rfl <;> simp [readAtom, current?, hc, isNameChar]

theorem readAtom_of_characterClass {body word : List Char}
    (h : Token.Munched (.characterClass body) word c.rest) :
    ∃ t, readAtom group c = .done t (c.drop word.length) ∧ t.bare = leaf .characterClass body := by
  obtain ⟨more, hc, hbody, hne, hlength⟩ := h.characterClass_eq
  have hnext : delimited? ']' c.next.rest = some body := by simpa [next, hc] using hbody
  have hread : readCharacterClass c =
      .done ⟨.characterClass, c.position, some (String.ofList body), []⟩
        (c.drop (body.length + 2)) :=
    readDelimited_of_delimited? hnext hne
  refine ⟨_, ?_, bare_mk .characterClass c.position _ []⟩
  rw [hlength, ← hread]
  simp [readAtom, current?, hc, isNameChar]

theorem readAtom_of_any (h : c.current? = some '.') :
    ∃ t, readAtom group c = .done t c.next ∧ t.bare = node .any [] := by
  refine ⟨_, ?_, bare_mk .any c.position _ []⟩
  simp [readAtom, h, isNameChar]

theorem readAtom_of_paren (h : c.current? = some '(') : readAtom group c = group c := by
  simp [readAtom, h, isNameChar]

theorem repetition_none (h : (d.skipGap src margin).current?.bind Repetition.ofSymbol? = none) :
    d.current?.bind Repetition.ofSymbol? = none := by
  cases hr : d.current?.bind Repetition.ofSymbol? with
  | none => rfl
  | some r =>
    have hd := rest_of_current? (current?_of_bind symbol_of_repetition hr)
    rw [skipGap_of_solid src margin hd (by cases r <;> decide), hr] at h
    exact h

theorem not_predicate_of_readRepeated {t : Term} {e : Cursor}
    (h : readRepeated src margin group c = .done t e) :
    c.current?.bind Predicate.ofSymbol? = none := by
  cases hp : c.current?.bind Predicate.ofSymbol? with
  | none => rfl
  | some p =>
    have hcurrent := current?_of_bind symbol_of_predicate hp
    cases p <;> simp [readRepeated, readAtom, hcurrent, Predicate.symbol, isNameChar] at h

end Term

namespace Derives

open Term Token

theorem returns {phrase : Phrase} {ts : List Term} (limit : Int) (h : Derives phrase toks ts)
    (hs : Scans src margin c toks d) (ho : OpenAtMost levels toks)
    (he : phrase.endsBefore (d.skipGap src margin).current?) :
    Returns src margin limit levels c d ts phrase := by
  induction h generalizing c d levels with
  | reference =>
    obtain ⟨word, hm, rfl⟩ := hs.inv_single
    obtain ⟨t, hread, ht⟩ := readAtom_of_reference hm
    exact ⟨t, hread, by rw [ht]⟩
  | literal =>
    obtain ⟨word, hm, rfl⟩ := hs.inv_single
    obtain ⟨t, hread, ht⟩ := readAtom_of_literal hm
    exact ⟨t, hread, by rw [ht]⟩
  | characterClass =>
    obtain ⟨word, hm, rfl⟩ := hs.inv_single
    obtain ⟨t, hread, ht⟩ := readAtom_of_characterClass hm
    exact ⟨t, hread, by rw [ht]⟩
  | any =>
    obtain ⟨hdot, rfl⟩ := hs.inv_mark
    obtain ⟨t, hread, ht⟩ := readAtom_of_any hdot
    exact ⟨t, hread, by rw [ht]⟩
  | @group toks t hchoice ih =>
    obtain ⟨m, rfl, hm⟩ := (openAtMost_group hchoice.isBalanced).1 ho
    obtain ⟨c', hleft, hinside, -⟩ := hs.split [.mark '('] (by simp) (by simp)
    obtain ⟨hopen, rfl⟩ := hleft.inv_mark
    obtain ⟨tok, more, rfl, -⟩ := hchoice.startsPart (by simp)
    obtain ⟨d', hchoice', hright, -⟩ := hinside.split _ (by simp) (by simp)
    obtain ⟨hclose, rfl⟩ := hright.inv_mark
    obtain ⟨t', hread, ht⟩ := ih hchoice' hm (by rw [hclose]; rfl)
    refine ⟨t', ?_, ht⟩
    rw [readAtom_of_paren hopen, groupWithin, readGroup, hread]
    exact if_pos hclose
  | once _ ih =>
    obtain ⟨t', hread, ht⟩ := ih hs ho rfl
    -- a repetition right here would be seen behind the gap as well
    have hnone := repetition_none (Option.isNone_iff_eq_none.1 he)
    refine ⟨t', ?_, ht⟩
    simp only [readRepeated, hread, hnone]
  | repetition r hatom ih =>
    obtain ⟨ho', -⟩ := (openAtMost_append hatom.isBalanced).1 ho
    obtain ⟨d', hatom', hsymbol, hgap⟩ := hs.split _ (hatom.tokens_ne_nil (by simp)) (by simp)
    rw [hgap (by simp [isRepetition])] at hsymbol
    obtain ⟨hcurrent, rfl⟩ := hsymbol.inv_mark
    obtain ⟨t', hread, ht⟩ := ih hatom' ho' rfl
    refine ⟨⟨.repetition r, c.position, none, [t']⟩, ?_, ?_⟩
    · simp only [readRepeated, hread, hcurrent, Option.bind_some, Repetition.ofSymbol?_symbol]
    · rw [bare_mk, List.map_singleton, (List.cons.inj ht).1, node]
  | plain _ ih =>
    obtain ⟨t', hread, ht⟩ := ih hs ho he
    refine ⟨t', ?_, ht⟩
    rw [readPart, not_predicate_of_readRepeated hread]
    exact hread
  | predicate p hrepeated ih =>
    have ho' := (openAtMost_cons (by cases p <;> decide) (by cases p <;> decide)).1 ho
    obtain ⟨c', hsymbol, hrest, -⟩ :=
      hs.split [.mark p.symbol] (by simp) (hrepeated.tokens_ne_nil (by simp))
    obtain ⟨hcurrent, rfl⟩ := hsymbol.inv_mark
    obtain ⟨t', hread, ht⟩ := ih hrest ho' he
    refine ⟨⟨.predicate p, c.position, none, [t']⟩, ?_, ?_⟩
    · simp only [readPart, hcurrent, Option.bind_some, Predicate.ofSymbol?_symbol, hread]
    · rw [bare_mk, List.map_singleton, (List.cons.inj ht).1, node]
  | lastPart hpart ih =>
    have hlt := hs.length_skipGap_lt
    have hstart := hs.any_startsPart (hpart.startsPart (by simp))
    obtain ⟨hrep, hnostart⟩ : _ ∧ _ := by simpa [Phrase.endsBefore] using he
    obtain ⟨t', hread, ht⟩ := ih hs ho (by simpa [Phrase.endsBefore] using hrep)
    refine ⟨[t'], ?_, ht⟩
    rw [readParts, if_pos hstart, hread]
    simp only [hlt, dite_true]
    rw [readParts, if_neg (by simpa using hnostart)]
  | part hpart hparts ih ih' =>
    -- the part is over because the next one starts there
    obtain ⟨ho', ho''⟩ := (openAtMost_append hpart.isBalanced).1 ho
    obtain ⟨d', hs', hs'', -⟩ :=
      hs.split _ (hpart.tokens_ne_nil (by simp)) (hparts.tokens_ne_nil (by simp))
    have hlt := hs'.length_skipGap_lt
    have hstart := hs'.any_startsPart (hpart.startsPart (by simp))
    have hstart' := hs''.any_startsPart (hparts.startsPart (by simp))
    obtain ⟨t', hread, ht⟩ := ih hs' ho' (Phrase.endsBefore_of_startsPart (.inr rfl) hstart')
    obtain ⟨us, hread', hts⟩ := ih' hs'' ho'' he
    refine ⟨t' :: us, ?_, ?_⟩
    · rw [readParts, if_pos hstart, hread]
      simp only [hlt, dite_true, hread']
    · rw [List.map_cons, hts, (List.cons.inj ht).1]
  | sequence hparts ih =>
    obtain ⟨us, hread, hus⟩ := ih hs ho he
    have hne : us ≠ [] := by
      rintro rfl
      exact hparts.ne_nil hus.symm
    refine ⟨collapse .sequence c.position us, ?_, by rw [bare_collapse, hus]⟩
    rw [readSequence, hread]
    cases us with
    | nil => exact absurd rfl hne
    | cons => rfl
  | lastAlternative _ ih =>
    obtain ⟨⟨hrep, hstart⟩, hbar⟩ : (_ ∧ _) ∧ _ := by simpa [Phrase.endsBefore] using he
    obtain ⟨t', hread, ht⟩ := ih hs ho (by simpa [Phrase.endsBefore] using ⟨hrep, hstart⟩)
    refine ⟨[t'], ?_, ht⟩
    rw [readAlternatives, hread]
    exact if_neg hbar
  | alternative hsequence halternatives ih ih' =>
    obtain ⟨ho', ho''⟩ := (openAtMost_append hsequence.isBalanced).1 ho
    have ho'' := (openAtMost_cons (by decide) (by decide)).1 ho''
    obtain ⟨d', hs', hs'', -⟩ := hs.split _ (hsequence.tokens_ne_nil (by simp)) (by simp)
    obtain ⟨e, hmark, hs'', -⟩ := hs''.split [.mark '|'] (by simp)
      (halternatives.tokens_ne_nil (by simp))
    obtain ⟨hbar, rfl⟩ := hmark.inv_mark
    have hlt : ((d'.skipGap src margin).next.skipGap src margin).rest.length < c.rest.length :=
      Nat.lt_trans (hmark.length_skipGap_lt) hs'.length_skipGap_lt
    obtain ⟨t', hread, ht⟩ := ih hs' ho' (by rw [hbar]; rfl)
    obtain ⟨us, hread', hts⟩ := ih' hs'' ho'' he
    refine ⟨t' :: us, ?_, ?_⟩
    · rw [readAlternatives, hread]
      simp only [hbar, if_true, hlt, dite_true, hread']
    · rw [List.map_cons, hts, (List.cons.inj ht).1]
  | choice _ ih =>
    obtain ⟨us, hread, hus⟩ := ih hs ho he
    refine ⟨collapse .choice c.position us, ?_, by rw [bare_collapse, hus]⟩
    rw [choiceWithin_eq, readChoice, hread]
  | term hchoice ih =>
    obtain ⟨ch, hch, hstart⟩ :=
      (Option.any_eq_true _ _).1 (hs.any_startsPart (hchoice.startsPart (by simp)))
    have hbar : ¬ c.current? = some '|' := by
      rw [hch]
      rintro ⟨⟩
      exact absurd hstart (by decide)
    obtain ⟨t', hread, ht⟩ := ih hs ho he
    exact ⟨t', by rw [if_neg hbar, hread], ht⟩
  | barred hchoice ih =>
    have ho' := (openAtMost_cons (by decide) (by decide)).1 ho
    obtain ⟨c', hmark, hrest, -⟩ := hs.split [.mark '|'] (by simp) (hchoice.tokens_ne_nil (by simp))
    obtain ⟨hbar, rfl⟩ := hmark.inv_mark
    obtain ⟨t', hread, ht⟩ := ih hrest ho' he
    exact ⟨t', by rw [if_pos hbar, hread], ht⟩

end Derives

theorem current?_of_atLineEnd (h : c.atLineEnd) : c.current? = none ∨ c.current? = some '\n' := by
  cases hc : c.current? with
  | none => exact .inl rfl
  | some ch =>
    rw [atLineEnd, ← current?, hc] at h
    exact .inr (by simpa using h)

theorem Term.read_of_derives (limit : Int) (newlineFirst : Bool) {t : Term}
    (hfirst : ¬ (c.skipContinuedBlanks.skipComment.atLineEnd && !newlineFirst))
    (hs : Scans src (src.indentation c.position.line)
      (c.skipGap src (src.indentation c.position.line)) toks d)
    (hd : Derives .term toks [t]) (ho : Token.OpenAtMost limit.toNat toks)
    (he : (d.skipGap src (src.indentation c.position.line)).atLineEnd) :
    ∃ t', read src limit newlineFirst c =
      .done t' (d.skipGap src (src.indentation c.position.line)) ∧ t'.bare = t := by
  have hcurrent := current?_of_atLineEnd he
  have hends : Phrase.term.endsBefore
      (d.skipGap src (src.indentation c.position.line)).current? := by
    rcases hcurrent with h | h <;> rw [h] <;> rfl
  obtain ⟨t', hread, ht⟩ := hd.returns limit hs ho hends
  refine ⟨t', ?_, (List.cons.inj ht).1⟩
  rw [read, if_neg hfirst, skipGap_skipComment]
  dsimp only
  rw [hread]
  rcases hcurrent with h | h <;> simp only [h]

end IndentedGrammar
