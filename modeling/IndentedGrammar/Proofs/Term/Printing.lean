import IndentedGrammar.Proofs.Term.Soundness

namespace IndentedGrammar

open Cursor

theorem escapeLetter?_eq_some {ch letter : Char} (h : escapeLetter? ch = some letter) :
    letter ≠ '\n' ∧ unescaped letter = ch := by
  rw [escapeLetter?.eq_def] at h
  split at h <;> cases h <;> exact ⟨by decide, rfl⟩

theorem escapeLetter?_eq_none {ch : Char} (h : escapeLetter? ch = none) :
    ch ≠ '\\' ∧ ch ≠ '"' ∧ ch ≠ '\n' := by
  refine ⟨?_, ?_, ?_⟩ <;> rintro rfl <;> simp [escapeLetter?] at h

theorem unescape_plain {ch : Char} (h : ch ≠ '\\') (text : List Char) :
    unescape (ch :: text) = ch :: unescape text := by
  rw [unescape]
  · rintro rfl
    exact absurd rfl h
  · rintro letter text' rfl
    exact absurd rfl h

theorem unescape_flatMap_escape (value : List Char) : unescape (value.flatMap escape) = value := by
  induction value with
  | nil => rfl
  | cons ch value ih =>
    rw [List.flatMap_cons, escape]
    cases hl : escapeLetter? ch with
    | some letter => simp [unescape, ih, (escapeLetter?_eq_some hl).2]
    | none => simp [unescape_plain (escapeLetter?_eq_none hl).1, ih]

theorem isEnclosed_flatMap_escape (value : List Char) : isEnclosed '"' (value.flatMap escape) := by
  induction value with
  | nil => rfl
  | cons ch value ih =>
    rw [List.flatMap_cons, escape]
    cases hl : escapeLetter? ch with
    | some letter => simp [isEnclosed, ih, (escapeLetter?_eq_some hl).1]
    | none =>
      obtain ⟨hs, hq, hn⟩ := escapeLetter?_eq_none hl
      rw [List.singleton_append, isEnclosed_plain hq hn hs, ih]

theorem flatMap_escape_ne_nil {value : List Char} (h : value ≠ []) : value.flatMap escape ≠ [] := by
  intro hnil
  apply h
  rw [← unescape_flatMap_escape value, hnil]
  rfl

def endsName (text : List Char) : Bool := text.head?.all fun ch => !isNameChar ch && ch ≠ '.'

theorem dottedName_of_endsName {text : List Char} (h : endsName text) : dottedName text = 0 := by
  cases text with
  | nil => rfl
  | cons ch text =>
    have hch : isNameChar ch = false ∧ ch ≠ '.' := by simpa [endsName] using h
    simp [dottedName, hch.1, hch.2]

/-- `text` is a written form of the phrase wherever no name goes on behind it. At most `n`
parentheses are open at once in it. -/
structure Written (phrase : Phrase) (n : Nat) (text : List Char) (ts : List Term) : Prop where
  singleLine : '\n' ∉ text
  scans : ∀ (src : Source) (margin : Nat) (c : Cursor) (more : List Char), c.rest = text ++ more →
    endsName more → ∃ toks, Scans src margin c toks (c.drop text.length) ∧ Derives phrase toks ts ∧
      Token.OpenAtMost n toks

namespace Written

open Token

variable {phrase : Phrase} {m n : Nat} {text text' : List Char} {t : Term} {ts : List Term}

theorem mono (h : Written phrase m text ts) (hmn : m ≤ n) : Written phrase n text ts := by
  refine ⟨h.singleLine, fun src margin c more hc hm => ?_⟩
  obtain ⟨toks, hs, hd, ho⟩ := h.scans src margin c more hc hm
  exact ⟨toks, hs, hd, ho.mono hmn⟩

theorem derives {phrase' : Phrase} {ts' : List Term}
    (hd : ∀ toks, Derives phrase toks ts → Derives phrase' toks ts')
    (h : Written phrase n text ts) : Written phrase' n text ts' := by
  refine ⟨h.singleLine, fun src margin c more hc hm => ?_⟩
  obtain ⟨toks, hs, hder, ho⟩ := h.scans src margin c more hc hm
  exact ⟨toks, hs, hd toks hder, ho⟩

theorem reference {name : List Char} (h : isDottedName name) :
    Written .atom 0 name [.leaf .reference name] := by
  obtain ⟨hhead, hlength⟩ := (isDottedName_iff name).1 h
  have hmem := newline_not_mem_take_dottedName name
  rw [hlength, List.take_length] at hmem
  refine ⟨hmem, fun src margin c more hc hm => ?_⟩
  have hdotted : dottedName c.rest = name.length := by
    rw [hc, dottedName_append hlength, dottedName_of_endsName hm, Nat.add_zero]
  have htake : c.rest.take (dottedName c.rest) = name := by rw [hdotted, hc, List.take_left]
  have hmunched := munched_reference c.rest (by rw [hc]; cases name <;> simp_all)
  rw [htake] at hmunched
  exact ⟨_, .one hmunched, .reference, openAtMost_single (by simp)⟩

theorem literal {value : List Char} (h : value ≠ []) :
    Written .atom 0 (quote value) [.leaf .literal value] := by
  have henclosed := newline_not_mem_of_isEnclosed (isEnclosed_flatMap_escape value)
  refine ⟨by simpa [quote] using henclosed, fun src margin c more hc hm => ?_⟩
  have hbody := delimited?_append (by decide) (by decide) (isEnclosed_flatMap_escape value) more
  have hmunched := munched_literal (.inl rfl) hbody (flatMap_escape_ne_nil h)
  rw [unescape_flatMap_escape] at hmunched
  have hrest : c.rest = '"' :: (value.flatMap escape ++ '"' :: more) := by simp [hc, quote]
  rw [← hrest] at hmunched
  exact ⟨_, .single hmunched (by simp [quote]), .literal, openAtMost_single (by simp)⟩

theorem characterClass {body : List Char} (hb : isClassBody body) (h : body ≠ []) :
    Written .atom 0 ('[' :: body ++ [']']) [.leaf .characterClass body] := by
  rw [isClassBody_eq_isEnclosed] at hb
  have henclosed := newline_not_mem_of_isEnclosed hb
  refine ⟨by simpa using henclosed, fun src margin c more hc hm => ?_⟩
  have hmunched := munched_characterClass (delimited?_append (by decide) (by decide) hb more) h
  have hrest : c.rest = '[' :: (body ++ ']' :: more) := by simp [hc]
  rw [← hrest] at hmunched
  exact ⟨_, .one hmunched, .characterClass, openAtMost_single (by simp)⟩

theorem scans_first (src : Source) (margin : Nat) {c : Cursor} {ch : Char} {text : List Char}
    (hc : c.rest = ch :: text) (hm : isMark ch) : Scans src margin c [.mark ch] c.next :=
  Term.scans_mark src margin (by simp [current?, hc]) hm

theorem any : Written .atom 0 ['.'] [.node .any []] := by
  refine ⟨by decide, fun src margin c more hc hm => ?_⟩
  exact ⟨_, scans_first src margin hc rfl, .any, openAtMost_single (by decide)⟩

theorem group (h : Written .choice n text [t]) :
    Written .atom (n + 1) ('(' :: text ++ [')']) [t] := by
  refine ⟨by simpa using h.singleLine, fun src margin c more hc hm => ?_⟩
  have hnext : c.next.rest = text ++ ')' :: more := by simp [next, hc]
  obtain ⟨toks, hs, hd, ho⟩ := h.scans src margin c.next (')' :: more) hnext rfl
  have hclose : (c.next.drop text.length).rest = ')' :: more := by
    rw [rest_drop, hnext, List.drop_left]
  have hscan :=
    (scans_first src margin hc rfl).adjoin (hs.adjoin (scans_first src margin hclose rfl))
  refine ⟨_, ?_, .group hd, (openAtMost_group hd.isBalanced).2 ⟨n, rfl, ho⟩⟩
  simpa [next, Nat.add_comm] using hscan

theorem repetition (r : Repetition) (h : Written .atom n text [t]) :
    Written .repeated n (text ++ [r.symbol]) [.node (.repetition r) [t]] := by
  have hnewline : r.symbol ≠ '\n' := by cases r <;> decide
  refine ⟨by simpa [hnewline.symm] using h.singleLine, fun src margin c more hc hm => ?_⟩
  have hc' : c.rest = text ++ r.symbol :: more := by simp [hc]
  obtain ⟨toks, hs, hd, ho⟩ := h.scans src margin c (r.symbol :: more) hc' (by cases r <;> rfl)
  have hsymbol : (c.drop text.length).rest = r.symbol :: more := by
    rw [rest_drop, hc', List.drop_left]
  have ho' : OpenAtMost n [.mark r.symbol] := openAtMost_single (by cases r <;> decide)
  refine ⟨_, ?_, .repetition r hd, (openAtMost_append hd.isBalanced).2 ⟨ho, ho'⟩⟩
  simpa [next] using hs.adjoin (scans_first src margin hsymbol (by cases r <;> rfl))

theorem predicate (p : Predicate) (h : Written .repeated n text [t]) :
    Written .part n (p.symbol :: text) [.node (.predicate p) [t]] := by
  have hnewline : p.symbol ≠ '\n' := by cases p <;> decide
  refine ⟨by simpa [hnewline.symm] using h.singleLine, fun src margin c more hc hm => ?_⟩
  obtain ⟨toks, hs, hd, ho⟩ := h.scans src margin c.next more (by simp [next, hc]) hm
  refine ⟨_, ?_, .predicate p hd,
    (openAtMost_cons (by cases p <;> decide) (by cases p <;> decide)).2 ho⟩
  simpa [next, Nat.add_comm] using (scans_first src margin hc (by cases p <;> rfl)).adjoin hs

theorem part (h : Written .part n text [t]) (h' : Written .parts n text' ts) :
    Written .parts n (text ++ [' '] ++ text') (t :: ts) := by
  refine ⟨by simpa using ⟨h.singleLine, h'.singleLine⟩, fun src margin c more hc hm => ?_⟩
  have hc' : c.rest = text ++ ' ' :: (text' ++ more) := by simp [hc]
  obtain ⟨toks, hs, hd, ho⟩ := h.scans src margin c (' ' :: (text' ++ more)) hc' rfl
  have hspace : (c.drop text.length).rest = ' ' :: (text' ++ more) := by
    rw [rest_drop, hc', List.drop_left]
  obtain ⟨toks', hs', hd', ho'⟩ := h'.scans src margin (c.drop text.length).next more
    (by rw [next, rest_drop, hspace]; rfl) hm
  refine ⟨_, ?_, .part hd hd', (openAtMost_append hd.isBalanced).2 ⟨ho, ho'⟩⟩
  obtain ⟨tok, more', rfl, hstart⟩ := hd'.startsPart (by simp)
  have hscan :=
    hs.spaced (by rw [current?, hspace]; rfl) hs' (by simpa using Term.not_isRepetition hstart)
  simpa [next, Nat.add_assoc, Nat.add_comm, Nat.add_left_comm] using hscan

theorem alternative (h : Written .sequence n text [t]) (h' : Written .alternatives n text' ts) :
    Written .alternatives n (text ++ [' ', '|', ' '] ++ text') (t :: ts) := by
  refine ⟨by simpa using ⟨h.singleLine, h'.singleLine⟩, fun src margin c more hc hm => ?_⟩
  have hc' : c.rest = text ++ ' ' :: '|' :: ' ' :: (text' ++ more) := by simp [hc]
  obtain ⟨toks, hs, hd, ho⟩ := h.scans src margin c _ hc' rfl
  have hspace : (c.drop text.length).rest = ' ' :: '|' :: ' ' :: (text' ++ more) := by
    rw [rest_drop, hc', List.drop_left]
  have hbar : (c.drop text.length).next.rest = '|' :: ' ' :: (text' ++ more) := by
    rw [next, rest_drop, hspace]
    rfl
  have hspace' : (c.drop text.length).next.next.rest = ' ' :: (text' ++ more) := by
    rw [next, rest_drop, hbar]
    rfl
  obtain ⟨toks', hs', hd', ho'⟩ := h'.scans src margin (c.drop text.length).next.next.next more
    (by rw [next, rest_drop, hspace']; rfl) hm
  have ho'' : OpenAtMost n (.mark '|' :: toks') := (openAtMost_cons (by decide) (by decide)).2 ho'
  refine ⟨_, ?_, .alternative hd hd', (openAtMost_append hd.isBalanced).2 ⟨ho, ho''⟩⟩
  obtain ⟨tok, more', rfl, hstart⟩ := hd'.startsPart (by simp)
  have htail := (scans_first src margin hbar rfl).spaced
    (by rw [current?, hspace']; rfl) hs' (by simpa using Term.not_isRepetition hstart)
  have hscan :=
    hs.spaced (by rw [current?, hspace]; rfl) htail (by simp [isRepetition, Repetition.ofSymbol?])
  simpa [next, Nat.add_assoc, Nat.add_comm, Nat.add_left_comm] using hscan

end Written

def Phrase.ofPrecedence : Nat → Phrase
  | 0 => .choice
  | 1 => .sequence
  | 2 => .part
  | 3 => .repeated
  | _ => .atom

namespace Written

variable {m n : Nat} {text : List Char} {t : Term}

theorem loosen_one (hm : m < 4) (h : Written (.ofPrecedence (m + 1)) n text [t]) :
    Written (.ofPrecedence m) n text [t] := by
  match m, hm with
  | 0, _ => exact h.derives fun _ hd => .choice (.lastAlternative hd)
  | 1, _ => exact h.derives fun _ hd => .sequence (.lastPart hd)
  | 2, _ => exact h.derives fun _ hd => .plain hd
  | 3, _ => exact h.derives fun _ hd => .once hd

theorem loosen {p : Nat} (hmp : m ≤ p) (hp : p ≤ 4) (h : Written (.ofPrecedence p) n text [t]) :
    Written (.ofPrecedence m) n text [t] := by
  induction hmp with
  | refl => exact h
  | step _ ih => exact ih (by omega) (loosen_one (by omega) h)

end Written

namespace Term

theorem chars_eq (m : Nat) (t : Term) :
    t.chars m =
      if t.kind.precedence < m then '(' :: t.chars t.kind.precedence ++ [')']
      else t.chars t.kind.precedence := by
  obtain ⟨kind, p, text, children⟩ := t
  simp only [chars, Nat.lt_irrefl, if_false]

theorem nesting_eq (m : Nat) (t : Term) :
    t.nesting m = t.nesting t.kind.precedence + if t.kind.precedence < m then 1 else 0 := by
  obtain ⟨kind, p, text, children⟩ := t
  simp only [nesting, Nat.lt_irrefl, if_false, Nat.add_zero]

theorem precedence_le (kind : Kind) : kind.precedence ≤ 4 := by
  cases kind <;> simp [Kind.precedence]

variable {t : Term} {ts : List Term}

theorem written_intercalate {item list : Phrase} {separator : List Char} {m : Nat}
    (last : ∀ {n text t}, Written item n text [t] → Written list n text [t])
    (more : ∀ {n text text' t ts}, Written item n text [t] → Written list n text' ts →
      Written list n (text ++ separator ++ text') (t :: ts))
    (hne : ts ≠ []) (h : ∀ t ∈ ts, Written item (t.nesting m) (t.chars m) [t.bare]) :
    Written list (nestingAll m ts) (List.intercalate separator (charsAll m ts)) (ts.map bare) := by
  induction ts with
  | nil => exact absurd rfl hne
  | cons t ts ih =>
    have ht := (h t (by simp)).mono (Nat.le_max_left _ (nestingAll m ts))
    cases ts with
    | nil => simpa [charsAll, nestingAll] using last ht
    | cons t' ts =>
      have hts :=
        (ih (by simp) fun u hu => h u (by simp [hu])).mono (Nat.le_max_right (t.nesting m) _)
      rw [charsAll, charsAll, List.intercalate_cons_cons]
      exact more ht hts

theorem written_parts (hne : ts ≠ [])
    (h : ∀ t ∈ ts, Written .part (t.nesting 2) (t.chars 2) [t.bare]) :
    Written .parts (nestingAll 2 ts) (List.intercalate [' '] (charsAll 2 ts)) (ts.map bare) :=
  written_intercalate (fun ht => ht.derives fun _ => .lastPart) .part hne h

theorem written_alternatives (hne : ts ≠ [])
    (h : ∀ t ∈ ts, Written .sequence (t.nesting 1) (t.chars 1) [t.bare]) :
    Written .alternatives (nestingAll 1 ts) (List.intercalate [' ', '|', ' '] (charsAll 1 ts))
      (ts.map bare) :=
  written_intercalate (fun ht => ht.derives fun _ => .lastAlternative) .alternative hne h

theorem collapse_of_two_le {kind : Kind} (h : 2 ≤ ts.length) :
    collapse kind .start ts = node kind ts := by
  match ts with
  | [t] => simp at h
  | _ :: _ :: _ => rfl

theorem written_body (h : t.WellFormed)
    (hts : ∀ u ∈ t.children, ∀ m ≤ 4,
      Written (.ofPrecedence m) (u.nesting m) (u.chars m) [u.bare]) :
    Written (.ofPrecedence t.kind.precedence) (t.nesting t.kind.precedence)
      (t.chars t.kind.precedence) [t.bare] := by
  obtain ⟨kind, p, text, children⟩ := t
  obtain ⟨htext, hchildren, -⟩ := h
  rw [bare_mk]
  cases kind with
  | choice =>
    obtain rfl : text = none := by simpa [fitsText] using htext
    have hlength : 2 ≤ children.length := by simpa [fitsChildren] using hchildren
    have hne : children ≠ [] := List.ne_nil_of_length_pos (by omega)
    have hwritten :=
      (written_alternatives hne fun u hu => hts u hu 1 (by decide)).derives fun _ => .choice
    rw [collapse_of_two_le (by rwa [List.length_map])] at hwritten
    simpa [chars, nesting, Kind.precedence, Phrase.ofPrecedence, node] using hwritten
  | sequence =>
    obtain rfl : text = none := by simpa [fitsText] using htext
    have hlength : 2 ≤ children.length := by simpa [fitsChildren] using hchildren
    have hne : children ≠ [] := List.ne_nil_of_length_pos (by omega)
    have hwritten :=
      (written_parts hne fun u hu => hts u hu 2 (by decide)).derives fun _ => .sequence
    rw [collapse_of_two_le (by rwa [List.length_map])] at hwritten
    simpa [chars, nesting, Kind.precedence, Phrase.ofPrecedence, node] using hwritten
  | repetition r =>
    obtain rfl : text = none := by simpa [fitsText] using htext
    obtain ⟨u, rfl⟩ := List.length_eq_one_iff.1 (by simpa [fitsChildren] using hchildren)
    have hwritten := (hts u (by simp) 4 (by decide)).repetition r
    simpa [chars, charsAll, nesting, nestingAll, Kind.precedence, Phrase.ofPrecedence, node] using
      hwritten
  | predicate p' =>
    obtain rfl : text = none := by simpa [fitsText] using htext
    obtain ⟨u, rfl⟩ := List.length_eq_one_iff.1 (by simpa [fitsChildren] using hchildren)
    have hwritten := (hts u (by simp) 3 (by decide)).predicate p'
    simpa [chars, charsAll, nesting, nestingAll, Kind.precedence, Phrase.ofPrecedence, node] using
      hwritten
  | reference =>
    obtain ⟨name, rfl, hname⟩ := (Option.any_eq_true _ _).1 htext
    obtain rfl := List.length_eq_zero_iff.1 (by simpa [fitsChildren] using hchildren)
    simpa [chars, nesting, nestingAll, Kind.precedence, Phrase.ofPrecedence, leaf] using
      Written.reference hname
  | literal =>
    obtain ⟨value, rfl, hvalue⟩ := (Option.any_eq_true _ _).1 htext
    obtain rfl := List.length_eq_zero_iff.1 (by simpa [fitsChildren] using hchildren)
    have hne : value.toList ≠ [] := by simpa using hvalue
    simpa [chars, nesting, nestingAll, Kind.precedence, Phrase.ofPrecedence, leaf] using
      Written.literal hne
  | characterClass =>
    obtain ⟨body, rfl, hbody⟩ := (Option.any_eq_true _ _).1 htext
    obtain rfl := List.length_eq_zero_iff.1 (by simpa [fitsChildren] using hchildren)
    obtain ⟨hne, hclass⟩ : body.toList ≠ [] ∧ isClassBody body.toList := by simpa using hbody
    simpa [chars, nesting, nestingAll, Kind.precedence, Phrase.ofPrecedence, leaf] using
      Written.characterClass hclass hne
  | any =>
    obtain rfl : text = none := by simpa [fitsText] using htext
    obtain rfl := List.length_eq_zero_iff.1 (by simpa [fitsChildren] using hchildren)
    simpa [chars, nesting, nestingAll, Kind.precedence, Phrase.ofPrecedence, node] using Written.any

theorem written_at {m : Nat} (hm : m ≤ 4)
    (h : Written (.ofPrecedence t.kind.precedence) (t.nesting t.kind.precedence)
      (t.chars t.kind.precedence) [t.bare]) :
    Written (.ofPrecedence m) (t.nesting m) (t.chars m) [t.bare] := by
  have hp := precedence_le t.kind
  rw [chars_eq, nesting_eq]
  split
  -- parentheses make an atom of a choice, which every place takes
  · have hchoice : Written .choice _ _ _ := h.loosen (Nat.zero_le _) hp
    exact Written.loosen (p := 4) hm (Nat.le_refl 4) hchoice.group
  · exact h.loosen (by omega) hp

mutual

theorem written : (t : Term) → t.WellFormed → (m : Nat) → m ≤ 4 →
    Written (.ofPrecedence m) (t.nesting m) (t.chars m) [t.bare]
  | ⟨kind, p, text, children⟩, h, m, hm => by
    apply written_at hm
    apply written_body h
    exact writtenAll children h.2.2

theorem writtenAll : (ts : List Term) → AllWellFormed ts → ∀ u ∈ ts, ∀ m ≤ 4,
    Written (.ofPrecedence m) (u.nesting m) (u.chars m) [u.bare]
  | [], _ => nofun
  | t :: ts, h => List.forall_mem_cons.2 ⟨written t h.1, writtenAll ts h.2⟩

end

mutual

theorem chars_bare (m : Nat) : (t : Term) → t.bare.chars m = t.chars m
  | ⟨kind, p, text, children⟩ => by
    simp only [bare_mk, chars, charsAll_bare]

theorem charsAll_bare (m : Nat) : (ts : List Term) → charsAll m (ts.map bare) = charsAll m ts
  | [] => rfl
  | t :: ts => by rw [List.map_cons, charsAll, charsAll, chars_bare m t, charsAll_bare m ts]

end

mutual

theorem printable_bare : (t : Term) → t.bare.printable = t.printable
  | ⟨kind, p, text, children⟩ => by
    have hall := allPrintable_bare children
    have hfirst : firstPrintable (children.map bare) = firstPrintable children := by
      cases children with
      | nil => rfl
      | cons t ts => exact printable_bare t
    cases kind <;> simp only [bare_mk, printable, hall, hfirst]

theorem allPrintable_bare : (ts : List Term) → allPrintable (ts.map bare) = allPrintable ts
  | [] => rfl
  | t :: ts => by
    rw [List.map_cons, allPrintable, allPrintable, printable_bare t, allPrintable_bare ts]

end

end Term

end IndentedGrammar
