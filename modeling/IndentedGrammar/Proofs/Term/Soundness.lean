import IndentedGrammar.Proofs.Term.Grammar

namespace IndentedGrammar

open Cursor

variable (src : Source) (margin : Nat)

/-- The tokens from one cursor to another, each the longest at its place and followed by the gap to
the next one. The gap behind the last token is left out, and so is any gap before a repetition. -/
inductive Scans : Cursor → List Token → Cursor → Prop
  | one {c tok word} : tok.Munched word c.rest → Scans c [tok] (c.drop word.length)
  | more {c tok word next toks d} : tok.Munched word c.rest →
      (next.isRepetition → (c.drop word.length).skipGap src margin = c.drop word.length) →
      Scans ((c.drop word.length).skipGap src margin) (next :: toks) d →
        Scans c (tok :: next :: toks) d

namespace Scans

variable {src margin} {c d e : Cursor} {toks more : List Token}

theorem single {tok : Token} {word : List Char} {n : Nat} (h : tok.Munched word c.rest)
    (hn : word.length = n) : Scans src margin c [tok] (c.drop n) := hn ▸ .one h

theorem ne_nil (h : Scans src margin c toks d) : toks ≠ [] := by
  cases h <;> simp

theorem reaches (h : Scans src margin c toks d) : c.Reaches d := by
  induction h with
  | one => exact .drop _ _
  | more _ _ _ ih => exact (Reaches.drop _ _).trans ((reaches_skipGap src margin _).trans ih)

theorem length_lt (h : Scans src margin c toks d) : d.rest.length < c.rest.length := by
  have hstep {c : Cursor} {tok : Token} {word : List Char} (hm : tok.Munched word c.rest) :
      (c.drop word.length).rest.length < c.rest.length := by
    have hpos := Token.length_pos_of_spelled hm.spelled
    have hle := hm.front.length_le
    exact length_drop_lt hpos (List.ne_nil_of_length_pos (by omega))
  cases h with
  | one hm => exact hstep hm
  | more hm _ hrest =>
    refine Nat.lt_of_le_of_lt (Nat.le_trans hrest.reaches.length_le ?_) (hstep hm)
    exact (reaches_skipGap src margin _).length_le

theorem length_skipGap_lt (h : Scans src margin c toks d) :
    (d.skipGap src margin).rest.length < c.rest.length :=
  Nat.lt_of_le_of_lt (reaches_skipGap src margin d).length_le h.length_lt

theorem spelled (h : Scans src margin c toks d) : ∀ tok ∈ toks, ∃ word, tok.Spelled word := by
  induction h with
  | one hm => simpa using ⟨_, hm.spelled⟩
  | more hm _ _ ih => exact List.forall_mem_cons.2 ⟨⟨_, hm.spelled⟩, ih⟩

theorem exists_solid (h : Scans src margin c toks d) :
    ∃ ch text, c.rest = ch :: text ∧ isSolid ch := by
  have hfirst {tok : Token} {word : List Char} (hm : tok.Munched word c.rest) :
      ∃ ch text, c.rest = ch :: text ∧ isSolid ch := by
    obtain ⟨ch, text, rfl, hsolid⟩ := hm.spelled.solid
    obtain ⟨more, hc⟩ := hm.front
    exact ⟨ch, text ++ more, hc.symm, hsolid⟩
  cases h with
  | one hm => exact hfirst hm
  | more hm _ _ => exact hfirst hm

theorem skipGap_eq (h : Scans src margin c toks d) : c.skipGap src margin = c := by
  obtain ⟨ch, text, hc, hsolid⟩ := h.exists_solid
  exact skipGap_of_solid src margin hc hsolid

theorem append {next : Token} (h : Scans src margin c toks d)
    (hgap : next.isRepetition → d.skipGap src margin = d)
    (h' : Scans src margin (d.skipGap src margin) (next :: more) e) :
    Scans src margin c (toks ++ next :: more) e := by
  induction h with
  | one hm => exact .more hm hgap h'
  | more hm hrep _ ih => exact .more hm hrep (ih hgap h')

theorem adjoin (h : Scans src margin c toks d) (h' : Scans src margin d more e) :
    Scans src margin c (toks ++ more) e := by
  have hgap := h'.skipGap_eq
  obtain ⟨next, more, rfl⟩ := List.exists_cons_of_ne_nil h'.ne_nil
  exact h.append (fun _ => hgap) (hgap.symm ▸ h')

theorem spaced (h : Scans src margin c toks d) (hd : d.current? = some ' ')
    (h' : Scans src margin d.next more e) (hm : ¬ more.head?.any Token.isRepetition) :
    Scans src margin c (toks ++ more) e := by
  have hgap : d.skipGap src margin = d.next := by
    obtain ⟨text, ht⟩ := List.head?_eq_some_iff.1 hd
    obtain ⟨ch, more, hc, hsolid⟩ := h'.exists_solid
    have hrest : d.rest = [' '] ++ ch :: more := by
      rw [← hc]
      simp [next, ht]
    exact skipGap_of_blanks src margin hrest rfl hsolid
  obtain ⟨next, more, rfl⟩ := List.exists_cons_of_ne_nil h'.ne_nil
  exact h.append (fun hr => absurd hr (by simpa using hm)) (hgap.symm ▸ h')

theorem split (first : List Token) (hf : first ≠ []) (hm : more ≠ [])
    (h : Scans src margin c (first ++ more) e) :
    ∃ d, Scans src margin c first d ∧ Scans src margin (d.skipGap src margin) more e ∧
      (more.head?.any Token.isRepetition → d.skipGap src margin = d) := by
  induction first generalizing c with
  | nil => exact absurd rfl hf
  | cons tok first ih =>
    cases first with
    | nil =>
      cases h with
      | one => exact absurd rfl hm
      | more hmunch hrep hrest => exact ⟨_, .one hmunch, hrest, by simpa using hrep⟩
    | cons next first =>
      cases h with
      | more hmunch hrep hrest =>
        obtain ⟨d, hd, hmore, hgap⟩ := ih (by simp) hrest
        exact ⟨d, .more hmunch hrep hd, hmore, hgap⟩

end Scans

namespace Term

open Token

def Reads (phrase : Phrase) (levels : Nat) (c : Cursor) (ts : List Term) (e : Cursor) : Prop :=
  ∃ toks d, Scans src margin c toks d ∧ e = d.skipGap src margin ∧
    Derives phrase toks (ts.map bare) ∧ OpenAtMost levels toks

def ReadsGroups (levels : Nat) (group : Cursor → Reading Term) : Prop :=
  ∀ c t d, c.current? = some '(' → group c = .done t d →
    ∃ toks, Scans src margin c toks d ∧ Derives .atom toks [t.bare] ∧ OpenAtMost levels toks

variable {src margin} {levels : Nat} {group : Cursor → Reading Term}

theorem body_of_readDelimited {close : Char} {kind : Kind} {value : List Char → List Char}
    {unterminated empty : Problem} {c d : Cursor} {t : Term}
    (h : readDelimited close kind value unterminated empty c = .done t d) :
    ∃ body, delimited? close c.next.rest = some body ∧ body ≠ [] ∧
      t = ⟨kind, c.position, some (String.ofList (value body)), []⟩ ∧
      d = c.drop (body.length + 2) := by
  rw [readDelimited] at h
  split at h
  · simp at h
  · simp at h
  · next body hne hbody =>
    obtain ⟨rfl, rfl⟩ := Reading.done.inj h
    exact ⟨body, hbody, hne, rfl, rfl⟩

theorem atom_of_readAtom (hg : ReadsGroups src margin levels group) {c d : Cursor} {t : Term}
    (h : readAtom group c = .done t d) :
    ∃ toks, Scans src margin c toks d ∧ Derives .atom toks [t.bare] ∧ OpenAtMost levels toks := by
  cases hc : c.rest with
  | nil => simp [readAtom, current?, hc] at h
  | cons ch text =>
    have hnext : c.next.rest = text := by simp [next, hc]
    simp only [readAtom, current?, hc, List.head?_cons] at h
    split at h
    · next hname =>
      obtain ⟨rfl, rfl⟩ := Reading.done.inj h
      have hm := munched_reference c.rest (by simp [hc, hname])
      exact ⟨_, .single hm (List.length_take_of_le (dottedName_le c.rest)), .reference,
        openAtMost_single (by simp)⟩
    split at h
    · next hquote =>
      obtain ⟨body, hbody, hne, rfl, rfl⟩ := body_of_readDelimited h
      rw [hnext] at hbody
      have hm := munched_literal hquote hbody hne
      rw [← hc] at hm
      exact ⟨_, .single hm (by simp), .literal, openAtMost_single (by simp)⟩
    split at h
    · next hbracket =>
      obtain ⟨body, hbody, hne, rfl, rfl⟩ := body_of_readDelimited h
      rw [hnext] at hbody
      have hm := munched_characterClass hbody hne
      rw [← hbracket, ← hc] at hm
      exact ⟨_, .single hm (by simp), .characterClass, openAtMost_single (by simp)⟩
    split at h
    · next hdot =>
      obtain ⟨rfl, rfl⟩ := Reading.done.inj h
      have hm : Munched (.mark '.') ['.'] ('.' :: text) := munched_mark rfl text
      rw [← hdot, ← hc, hdot] at hm
      exact ⟨_, .single hm rfl, .any, openAtMost_single (by decide)⟩
    split at h
    · next hopen => exact hg c t d (by simp [current?, hc, hopen]) h
    · simp at h

theorem current?_of_bind {α : Type} {c : Cursor} {f : Char → Option α} {symbol : α → Char} {x : α}
    (hf : ∀ ch x, f ch = some x → ch = symbol x) (h : c.current?.bind f = some x) :
    c.current? = some (symbol x) := by
  obtain ⟨ch, hch, hx⟩ := Option.bind_eq_some_iff.1 h
  rw [hch, hf ch x hx]

theorem symbol_of_repetition (ch : Char) (r : Repetition) (h : Repetition.ofSymbol? ch = some r) :
    ch = r.symbol := by
  rw [Repetition.ofSymbol?.eq_def] at h
  split at h <;> simp_all [Repetition.symbol]
  all_goals subst h; rfl

theorem symbol_of_predicate (ch : Char) (p : Predicate) (h : Predicate.ofSymbol? ch = some p) :
    ch = p.symbol := by
  rw [Predicate.ofSymbol?.eq_def] at h
  split at h <;> simp_all [Predicate.symbol]
  all_goals subst h; rfl

theorem not_isRepetition {tok : Token} (h : tok.startsPart) : ¬ tok.isRepetition := by
  cases tok with
  | mark ch =>
    intro hr
    obtain ⟨r, hr⟩ := Option.isSome_iff_exists.1 hr
    obtain rfl := symbol_of_repetition ch r hr
    cases r <;> simp [Token.startsPart, IndentedGrammar.startsPart, isNameChar,
      Repetition.symbol] at h
  | reference | literal | characterClass => simp [isRepetition]

theorem scans_phrase {phrase : Phrase} {c d e : Cursor} {toks more : List Token} {ts : List Term}
    (h : Scans src margin c toks d) (hd : Derives phrase more ts) (hp : phrase ≠ .term)
    (h' : Scans src margin (d.skipGap src margin) more e) :
    Scans src margin c (toks ++ more) e := by
  obtain ⟨tok, rest, rfl, hstart⟩ := hd.startsPart hp
  exact h.append (fun hr => absurd hr (not_isRepetition hstart)) h'

theorem scans_mark (src : Source) (margin : Nat) {c : Cursor} {ch : Char} (h : c.current? = some ch)
    (hm : isMark ch) :
    Scans src margin c [.mark ch] c.next := by
  have hmunch := munched_mark hm c.next.rest
  rw [← rest_of_current? h] at hmunch
  exact .single hmunch rfl

theorem repeated_of_readRepeated (hg : ReadsGroups src margin levels group) {c e : Cursor}
    {t : Term} (h : readRepeated src margin group c = .done t e) :
    Reads src margin .repeated levels c [t] e := by
  rw [readRepeated] at h
  split at h
  · simp at h
  · next t' d hatom =>
    obtain ⟨toks, hscan, hder, hopen⟩ := atom_of_readAtom hg hatom
    split at h
    · next r hr =>
      obtain ⟨rfl, rfl⟩ := Reading.done.inj h
      have hcurrent := current?_of_bind symbol_of_repetition hr
      have hgap := skipGap_of_solid src margin (rest_of_current? hcurrent) (by cases r <;> decide)
      have hsymbol := scans_mark src margin hcurrent (by cases r <;> decide)
      have ho : OpenAtMost levels [.mark r.symbol] := openAtMost_single (by cases r <;> decide)
      refine ⟨toks ++ [.mark r.symbol], d.next, hscan.append (fun _ => hgap) (hgap.symm ▸ hsymbol),
        rfl, ?_, (openAtMost_append hder.isBalanced).2 ⟨hopen, ho⟩⟩
      rw [List.map_singleton, bare_mk]
      exact .repetition r hder
    · obtain ⟨rfl, rfl⟩ := Reading.done.inj h
      exact ⟨toks, d, hscan, rfl, .once hder, hopen⟩

theorem part_of_readPart (hg : ReadsGroups src margin levels group) {c e : Cursor} {t : Term}
    (h : readPart src margin group c = .done t e) : Reads src margin .part levels c [t] e := by
  rw [readPart] at h
  split at h
  · obtain ⟨toks, d, hscan, he, hder, hopen⟩ := repeated_of_readRepeated hg h
    exact ⟨toks, d, hscan, he, .plain hder, hopen⟩
  · next p hp =>
    split at h
    · simp at h
    · next t' d' hrepeated =>
      obtain ⟨rfl, rfl⟩ := Reading.done.inj h
      obtain ⟨toks, d, hscan, he, hder, hopen⟩ := repeated_of_readRepeated hg hrepeated
      have hcurrent := current?_of_bind symbol_of_predicate hp
      have hsymbol := scans_mark src margin hcurrent (by cases p <;> decide)
      refine ⟨_, d, scans_phrase hsymbol hder (by simp) hscan, he, ?_,
        (openAtMost_cons (by cases p <;> decide) (by cases p <;> decide)).2 hopen⟩
      rw [List.map_singleton, bare_mk]
      exact .predicate p hder

theorem Reads.length_lt {phrase : Phrase} {c e : Cursor} {ts : List Term}
    (h : Reads src margin phrase levels c ts e) : e.rest.length < c.rest.length := by
  obtain ⟨toks, d, hscan, rfl, -, -⟩ := h
  exact hscan.length_skipGap_lt

theorem length_skipGap_next_lt (src : Source) (margin : Nat) {c : Cursor} {ch : Char}
    (h : c.current? = some ch) :
    (c.next.skipGap src margin).rest.length < c.rest.length :=
  Nat.lt_of_le_of_lt (reaches_skipGap src margin c.next).length_le (length_next_lt h)

theorem readParts_eq (hg : ReadsGroups src margin levels group) (c : Cursor) :
    readParts src margin group c =
      if c.current?.any startsPart then
        match readPart src margin group c with
        | .failed d c' => .failed d c'
        | .done t c' =>
          match readParts src margin group c' with
          | .failed d c'' => .failed d c''
          | .done ts c'' => .done (t :: ts) c''
      else .done [] c := by
  rw [readParts]
  split
  · cases hpart : readPart src margin group c with
    | failed d c' => rfl
    | done t c' => exact dif_pos (part_of_readPart hg hpart).length_lt
  · rfl

theorem parts_of_readParts (hg : ReadsGroups src margin levels group) {c e : Cursor}
    {ts : List Term} (h : readParts src margin group c = .done ts e) :
    ts = [] ∧ e = c ∨ Reads src margin .parts levels c ts e := by
  fun_induction readParts src margin group c generalizing ts e with
  | case1 c hstart d c' hpart => simp at h
  | case2 c hstart t c' hpart hlt d c'' hparts ih => simp at h
  | case3 c hstart t c' hpart hlt ts' c'' hparts ih =>
    obtain ⟨rfl, rfl⟩ := Reading.done.inj h
    obtain ⟨toks, d, hscan, rfl, hder, hopen⟩ := part_of_readPart hg hpart
    rcases ih hparts with ⟨rfl, rfl⟩ | ⟨more, d', hscan', he, hder', hopen'⟩
    · exact .inr ⟨toks, d, hscan, rfl, .lastPart hder, hopen⟩
    · exact .inr ⟨_, d', scans_phrase hscan hder' (by simp) hscan', he, .part hder hder',
        (openAtMost_append hder.isBalanced).2 ⟨hopen, hopen'⟩⟩
  | case4 c hstart t c' hpart hlt =>
    obtain ⟨rfl, rfl⟩ := Reading.done.inj h
    obtain ⟨toks, d, hscan, he, hder, hopen⟩ := part_of_readPart hg hpart
    exact .inr ⟨toks, d, hscan, he, .lastPart hder, hopen⟩
  | case5 c hstart =>
    obtain ⟨rfl, rfl⟩ := Reading.done.inj h
    exact .inl ⟨rfl, rfl⟩

theorem sequence_of_readSequence (hg : ReadsGroups src margin levels group) {c e : Cursor}
    {t : Term} (h : readSequence src margin group c = .done t e) :
    Reads src margin .sequence levels c [t] e := by
  rw [readSequence] at h
  split at h
  · simp at h
  · simp at h
  · next ts c' hne hparts =>
    obtain ⟨rfl, rfl⟩ := Reading.done.inj h
    rcases parts_of_readParts hg hparts with ⟨rfl, -⟩ | ⟨toks, d, hscan, he, hder, hopen⟩
    · exact absurd rfl hne
    · refine ⟨toks, d, hscan, he, ?_, hopen⟩
      rw [List.map_singleton, bare_collapse]
      exact .sequence hder

theorem alternatives_of_readAlternatives (hg : ReadsGroups src margin levels group) {c e : Cursor}
    {ts : List Term} (h : readAlternatives src margin group c = .done ts e) :
    Reads src margin .alternatives levels c ts e := by
  fun_induction readAlternatives src margin group c generalizing ts e with
  | case1 c d c' hsequence => simp at h
  | case2 => simp at h
  | case3 c t c' hsequence hbar c'' hlt ts' e' halternatives =>
    rename_i ih
    obtain ⟨rfl, rfl⟩ := Reading.done.inj h
    obtain ⟨toks, d, hscan, rfl, hder, hopen⟩ := sequence_of_readSequence hg hsequence
    obtain ⟨more, d', hscan', he, hder', hopen'⟩ := ih halternatives
    have htail := scans_phrase (scans_mark src margin hbar rfl) hder' (by simp) hscan'
    refine ⟨_, d', hscan.append (fun hr => absurd hr (by decide)) htail, he,
      .alternative hder hder', ?_⟩
    exact (openAtMost_append hder.isBalanced).2 ⟨hopen,
      (openAtMost_cons (by decide) (by decide)).2 hopen'⟩
  | case4 c t c' hsequence hbar c'' =>
    rename_i hlt
    have hlt' := (sequence_of_readSequence hg hsequence).length_lt
    exact absurd (Nat.lt_trans (length_skipGap_next_lt src margin hbar) hlt') hlt
  | case5 c t c' hsequence hbar =>
    obtain ⟨rfl, rfl⟩ := Reading.done.inj h
    obtain ⟨toks, d, hscan, he, hder, hopen⟩ := sequence_of_readSequence hg hsequence
    exact ⟨toks, d, hscan, he, .lastAlternative hder, hopen⟩

theorem readAlternatives_eq (hg : ReadsGroups src margin levels group) (c : Cursor) :
    readAlternatives src margin group c =
      match readSequence src margin group c with
      | .failed d c' => .failed d c'
      | .done t c' =>
        if c'.current? = some '|' then
          match readAlternatives src margin group (c'.next.skipGap src margin) with
          | .failed d e => .failed d e
          | .done ts e => .done (t :: ts) e
        else .done [t] c' := by
  rw [readAlternatives]
  cases hsequence : readSequence src margin group c with
  | failed d c' => rfl
  | done t c' =>
    by_cases hbar : c'.current? = some '|'
    · have hlt := (sequence_of_readSequence hg hsequence).length_lt
      have hlt' := Nat.lt_trans (length_skipGap_next_lt src margin hbar) hlt
      exact (if_pos hbar).trans ((dif_pos hlt').trans (if_pos hbar).symm)
    · exact (if_neg hbar).trans (if_neg hbar).symm

theorem choice_of_readChoice (hg : ReadsGroups src margin levels group) {c e : Cursor} {t : Term}
    (h : readChoice src margin group c = .done t e) : Reads src margin .choice levels c [t] e := by
  rw [readChoice] at h
  split at h
  · simp at h
  · next ts c' halternatives =>
    obtain ⟨rfl, rfl⟩ := Reading.done.inj h
    obtain ⟨toks, d, hscan, he, hder, hopen⟩ := alternatives_of_readAlternatives hg halternatives
    refine ⟨toks, d, hscan, he, ?_, hopen⟩
    rw [List.map_singleton, bare_collapse]
    exact .choice hder

theorem readsGroups_readGroup {inner : Cursor → Reading Term}
    (hi : ∀ c t e, inner c = .done t e → Reads src margin .choice levels c [t] e) :
    ReadsGroups src margin (levels + 1) (readGroup src margin inner) := by
  intro c t e hcurrent h
  rw [readGroup] at h
  split at h
  · simp at h
  · next t' c' hinner =>
    split at h
    · next hclose =>
      obtain ⟨rfl, rfl⟩ := Reading.done.inj h
      obtain ⟨toks, d, hscan, rfl, hder, hopen⟩ := hi _ _ _ hinner
      obtain ⟨tok, more, rfl, hfirst⟩ := hder.startsPart (by simp)
      have hleft := scans_mark src margin hcurrent rfl
      have hright := scans_mark src margin hclose rfl
      have hinside := hscan.append (fun hr => absurd hr (by decide)) hright
      refine ⟨_, hleft.append (fun hr => absurd hr (not_isRepetition hfirst)) hinside, .group hder,
        ?_⟩
      exact (openAtMost_group hder.isBalanced).2 ⟨levels, rfl, hopen⟩
    · simp at h

theorem choice_of_choiceWithin (limit : Int) (levels : Nat) {c e : Cursor} {t : Term}
    (h : choiceWithin src margin limit levels c = .done t e) :
    Reads src margin .choice levels c [t] e := by
  induction levels generalizing c t e with
  | zero => exact choice_of_readChoice (fun c t d _ hd => by simp at hd) h
  | succ levels ih => exact choice_of_readChoice (readsGroups_readGroup fun _ _ _ => ih) h

theorem atLineEnd_of_finish {r : Reading Term} {t : Term} {e : Cursor}
    (h : (match r with
      | .failed d c => .failed d c
      | .done t c =>
        match c.current? with
        | none | some '\n' => .done t c
        | some ch => .failed ⟨c.position, .unexpectedCharacter ch⟩ c) = Reading.done t e) :
    r = .done t e ∧ e.atLineEnd := by
  cases r with
  | failed d c => simp at h
  | done t' c =>
    dsimp only at h
    split at h
    · next hc =>
      obtain ⟨rfl, rfl⟩ := Reading.done.inj h
      exact ⟨rfl, by simp_all [current?, atLineEnd]⟩
    · next hc =>
      obtain ⟨rfl, rfl⟩ := Reading.done.inj h
      exact ⟨rfl, by simp_all [current?, atLineEnd]⟩
    · simp at h

theorem term_of_read {limit : Int} {newlineFirst : Bool} {c e : Cursor} {t : Term}
    (h : read src limit newlineFirst c = .done t e) :
    Reads src (src.indentation c.position.line) .term limit.toNat
      (c.skipGap src (src.indentation c.position.line)) [t] e ∧ e.atLineEnd := by
  rw [read] at h
  split at h
  · simp at h
  rw [skipGap_skipComment] at h
  obtain ⟨hchoice, hend⟩ := atLineEnd_of_finish h
  refine ⟨?_, hend⟩
  split at hchoice
  · next hbar =>
    obtain ⟨toks, d, hscan, he, hder, hopen⟩ := choice_of_choiceWithin limit _ hchoice
    have hmark := scans_mark src (src.indentation c.position.line) hbar rfl
    exact ⟨_, d, scans_phrase hmark hder (by simp) hscan, he, .barred hder,
      (openAtMost_cons (by decide) (by decide)).2 hopen⟩
  · obtain ⟨toks, d, hscan, he, hder, hopen⟩ := choice_of_choiceWithin limit _ hchoice
    exact ⟨toks, d, hscan, he, .term hder, hopen⟩

theorem wellFormed_of_read {limit : Int} {newlineFirst : Bool} {c e : Cursor} {t : Term}
    (h : read src limit newlineFirst c = .done t e) : t.WellFormed := by
  obtain ⟨⟨toks, d, hscan, -, hder, -⟩, -⟩ := term_of_read h
  exact (wellFormed_bare t).1 (hder.wellFormed hscan.spelled _ (List.mem_singleton_self _))

theorem nesting_of_read {limit : Int} {newlineFirst : Bool} {c e : Cursor} {t : Term}
    (h : read src limit newlineFirst c = .done t e) : t.nesting 0 ≤ limit.toNat := by
  obtain ⟨⟨toks, d, -, -, hder, hopen⟩, -⟩ := term_of_read h
  rw [← nesting_bare]
  exact hder.nesting_le hopen _ (List.mem_singleton_self _)

end Term

end IndentedGrammar
