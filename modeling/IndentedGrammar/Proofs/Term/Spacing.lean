import IndentedGrammar.Proofs.Source.Gap
import IndentedGrammar.Proofs.Term.Lexing
import IndentedGrammar.Proofs.Term.SingleLine

namespace IndentedGrammar

open Cursor

/-- `text'` is the single line `text` with other gaps in front of its tokens: where there was none
there is none, and where there was one there is one. Behind `text'` the source goes on with
`behind`. -/
inductive Respaced (margin : Nat) (behind : List Char) : List Char → List Char → Prop
  | ending {gap} : isBlankLine gap → Respaced margin behind gap gap
  | token {gap gap' word text text'} {tok : Token} : gap.all isBlank → (gap = [] ↔ gap' = []) →
      Gap margin (word ++ (text' ++ behind)) gap' → tok.Munched word (word ++ text) →
      Respaced margin behind text text' →
        Respaced margin behind (gap ++ (word ++ text)) (gap' ++ (word ++ text'))

theorem dottedName_eq_zero_iff (ch : Char) (text : List Char) :
    dottedName (ch :: text) = 0 ↔
      ¬ isNameChar ch ∧ ¬ (ch = '.' ∧ text.head?.any isNameChar) := by
  simp [dottedName]

theorem not_isNameChar_of_not_isSolid {ch : Char} (h : isSolid ch = false) : ¬ isNameChar ch := by
  intro hname
  rw [isSolid_of_isNameChar hname] at h
  exact absurd h (by decide)

theorem dottedName_of_not_isSolid {ch : Char} (h : isSolid ch = false) (text : List Char) :
    dottedName (ch :: text) = 0 := by
  refine (dottedName_eq_zero_iff ch text).2 ⟨not_isNameChar_of_not_isSolid h, ?_⟩
  rintro ⟨rfl, -⟩
  exact absurd h (by decide)

theorem Token.Munched.congr {tok : Token} {word text text' : List Char}
    (h : tok.Munched word (word ++ text)) (ht : dottedName text = 0 → dottedName text' = 0) :
    tok.Munched word (word ++ text') := by
  cases tok with
  | reference name =>
    obtain ⟨hhead, hlength, -⟩ := h.reference_eq
    cases h.spelled with
    | reference hname =>
      obtain ⟨hfirst, hwhole⟩ := (isDottedName_iff word).1 hname
      rw [dottedName_append hwhole] at hlength
      have hlength' : dottedName (word ++ text') = word.length := by
        rw [dottedName_append hwhole, ht (by omega), Nat.add_zero]
      have hm := munched_reference (word ++ text') (by cases word <;> simp_all)
      rwa [hlength', List.take_left] at hm
  | literal value =>
    cases h.spelled with
    | @literal q body hq hb hne =>
      have hclose := delimited?_append hq.ne_backslash hq.ne_newline hb text'
      have hm := munched_literal hq hclose (fun e => hne (by rw [e]; rfl))
      simpa using hm
  | characterClass body =>
    cases h.spelled with
    | characterClass hb hne =>
      rw [isClassBody_eq_isEnclosed] at hb
      have hclose := delimited?_append (by decide) (by decide) hb text'
      have hm := munched_characterClass hclose hne
      simpa using hm
  | mark ch =>
    cases h.spelled with
    | mark hmark => exact munched_mark hmark text'

theorem blanks_append_inj {gap gap' text text' : List Char} {ch ch' : Char} (h : gap.all isBlank)
    (h' : gap'.all isBlank) (hch : isSolid ch) (hch' : isSolid ch')
    (heq : gap ++ ch :: text = gap' ++ ch' :: text') :
    gap = gap' ∧ ch :: text = ch' :: text' := by
  have hgap (gap text : List Char) (ch : Char) (h : gap.all isBlank) (hch : isSolid ch) :
      (gap ++ ch :: text).takeWhile isBlank = gap := by
    rw [List.takeWhile_append_of_pos (List.all_eq_true.1 h),
      List.takeWhile_cons_of_neg (by simp [isBlank_of_isSolid hch]), List.append_nil]
  have hsame := congrArg (List.takeWhile isBlank) heq
  rw [hgap _ _ _ h hch, hgap _ _ _ h' hch'] at hsame
  subst hsame
  exact ⟨rfl, List.append_cancel_left heq⟩

namespace Respaced

variable {margin : Nat} {behind more text text' : List Char} {tok : Token} {toks : List Token}

theorem front (h : Respaced margin ('\n' :: more) text text') :
    (∃ ch rest, text' ++ '\n' :: more = ch :: rest ∧ isSolid ch = false) ∨
      ∃ ch word rest rest', text = ch :: (word ++ rest) ∧ text' = ch :: (word ++ rest') ∧
        Respaced margin ('\n' :: more) rest rest' := by
  cases h with
  | ending hblank =>
    left
    cases text with
    | nil => exact ⟨_, _, rfl, rfl⟩
    | cons ch rest =>
      refine ⟨ch, rest ++ '\n' :: more, rfl, ?_⟩
      by_cases hch : isBlank ch
      · simp [isSolid, hch]
      · obtain rfl : ch = '#' := by simpa [isBlankLine, hch] using hblank
        rfl
  | @token gap gap' word rest rest' tok hgap hiff hgap' hm hrest =>
    by_cases hnil : gap' = []
    · obtain ⟨ch, word, rfl, hsolid⟩ := hm.spelled.solid
      exact .inr ⟨ch, word, rest, rest', by rw [hiff.2 hnil]; rfl, by rw [hnil]; rfl, hrest⟩
    · obtain ⟨ch, gap', rfl, hch⟩ := hgap'.head hnil
      exact .inl ⟨ch, _, rfl, hch⟩

theorem head_of_isNameChar (h : Respaced margin ('\n' :: more) text text')
    (hname : (text' ++ '\n' :: more).head?.any isNameChar) : text.head?.any isNameChar := by
  rcases h.front with ⟨ch, rest, heq, hch⟩ | ⟨ch, word, rest, rest', rfl, rfl, -⟩
  · rw [heq] at hname
    exact absurd hname (not_isNameChar_of_not_isSolid hch)
  · exact hname

theorem dottedName_eq_zero (h : Respaced margin ('\n' :: more) text text')
    (hz : dottedName text = 0) : dottedName (text' ++ '\n' :: more) = 0 := by
  rcases h.front with ⟨ch, rest, heq, hch⟩ | ⟨ch, word, rest, rest', rfl, rfl, hrest⟩
  · rw [heq]
    exact dottedName_of_not_isSolid hch rest
  · obtain ⟨hname, hdot⟩ := (dottedName_eq_zero_iff ch _).1 hz
    refine (dottedName_eq_zero_iff ch _).2 ⟨hname, ?_⟩
    rintro ⟨rfl, hhead⟩
    apply hdot
    refine ⟨rfl, ?_⟩
    cases word with
    | nil => exact hrest.head_of_isNameChar hhead
    | cons => exact hhead

theorem eq_of_splits_nil (h : Respaced margin behind text text') (hs : Splits text []) :
    text' = text := by
  cases h with
  | ending => rfl
  | token hgap _ _ hm _ =>
    obtain ⟨ch, word, rfl, hsolid⟩ := hm.spelled.solid
    have hblank := hs.isBlankLine
    rw [List.cons_append, isBlankLine_blanks hgap (by simp [isBlank_of_isSolid hsolid])] at hblank
    exact absurd hblank (ne_hash_of_isSolid hsolid)

theorem first (h : Respaced margin behind text text') (hs : Splits text (tok :: toks)) :
    ∃ gap word rest rest', text' = gap ++ (word ++ rest') ∧ rest <:+ text ∧
      Gap margin (word ++ (rest' ++ behind)) gap ∧ tok.Munched word (word ++ rest) ∧
      (tok.isRepetition → gap = []) ∧ Respaced margin behind rest rest' ∧ Splits rest toks := by
  obtain ⟨gap, word, rest, htext, hgap, hm, hrep, hrest⟩ := hs.inv
  obtain ⟨ch, word, rfl, hsolid⟩ := hm.spelled.solid
  cases h with
  | ending hblank =>
    rw [htext, List.cons_append,
      isBlankLine_blanks hgap (by simp [isBlank_of_isSolid hsolid])] at hblank
    exact absurd hblank (ne_hash_of_isSolid hsolid)
  | @token gap₁ gap' word₁ rest₁ rest' tok₁ hgap₁ hiff hgap' hm₁ hrest' =>
    obtain ⟨ch₁, word₁, rfl, hsolid₁⟩ := hm₁.spelled.solid
    obtain ⟨rfl, heq⟩ := blanks_append_inj hgap₁ hgap hsolid₁ hsolid htext
    change ch₁ :: word₁ ++ rest₁ = ch :: word ++ rest at heq
    rw [heq] at hm₁
    obtain ⟨rfl, hword⟩ := hm₁.unique hm
    rw [hword] at heq hgap'
    obtain rfl := List.append_cancel_left heq
    refine ⟨gap', ch :: word, rest₁, rest', by rw [hword], ?_, hgap', hm, ?_, hrest', hrest⟩
    · exact htext ▸ (List.suffix_append _ _).trans (List.suffix_append _ _)
    · exact fun h => hiff.1 (hrep h)

variable {src : Source} {c : Cursor}

theorem first_skipGap (h : Respaced margin ('\n' :: more) text text') (hs : Splits text (tok :: toks))
    (hin : c.IsIn src) (hc : c.rest = text' ++ '\n' :: more) :
    ∃ word rest rest' d, tok.Munched word (c.skipGap src margin).rest ∧
      d = (c.skipGap src margin).drop word.length ∧ d.rest = rest' ++ '\n' :: more ∧
      c.drop text'.length = d.drop rest'.length ∧ (tok.isRepetition → c.skipGap src margin = c) ∧
      rest <:+ text ∧ Respaced margin ('\n' :: more) rest rest' ∧ Splits rest toks := by
  obtain ⟨gap, word, rest, rest', rfl, hsuffix, hgap, hm, hrep, hrest, hsplit⟩ := h.first hs
  have hc' : c.rest = gap ++ (word ++ (rest' ++ '\n' :: more)) := by simp [hc]
  have hskip : c.skipGap src margin = c.drop gap.length := by
    obtain ⟨ch, word, rfl, hsolid⟩ := hm.spelled.solid
    exact skipGap_of_gap hgap hin hc' hsolid
  have hrest' : (c.drop gap.length).rest = word ++ (rest' ++ '\n' :: more) := by
    rw [rest_drop, hc', List.drop_left]
  refine ⟨word, rest, rest', (c.drop gap.length).drop word.length, ?_, by rw [hskip], ?_, ?_, ?_,
    hsuffix, hrest, hsplit⟩
  · rw [hskip, hrest']
    exact hm.congr hrest.dottedName_eq_zero
  · rw [rest_drop, hrest', List.drop_left]
  · rw [drop_drop, drop_drop, List.length_append, List.length_append]
  · intro hr
    rw [hskip, hrep hr]
    exact c.drop_zero

theorem scans (h : Respaced margin ('\n' :: more) text text') (hn : '\n' ∉ text)
    (hs : Splits text (tok :: toks)) (hin : c.IsIn src) (hc : c.rest = text' ++ '\n' :: more)
    (hmore : contentIndentation (splitLines more) ≤ margin) :
    ∃ d, Scans src margin (c.skipGap src margin) (tok :: toks) d ∧
      d.skipGap src margin = c.drop text'.length := by
  induction toks generalizing c tok text text' with
  | nil =>
    obtain ⟨word, rest, rest', d, hm, rfl, hd, hdrop, -, hsuffix, hrest, hsplit⟩ :=
      h.first_skipGap hs hin hc
    obtain rfl := hrest.eq_of_splits_nil hsplit
    refine ⟨_, .one hm, ?_⟩
    rw [hdrop]
    have hin' := (hin.reaches (reaches_skipGap src margin c)).drop word.length
    exact skipGap_of_isBlankLine hin' (fun hmem => hn (hsuffix.mem hmem)) hsplit.isBlankLine hd hmore
  | cons next toks ih =>
    obtain ⟨word, rest, rest', d, hm, rfl, hd, hdrop, -, hsuffix, hrest, hsplit⟩ :=
      h.first_skipGap hs hin hc
    have hin' := (hin.reaches (reaches_skipGap src margin c)).drop word.length
    obtain ⟨e, hscan, he⟩ := ih hrest (fun hmem => hn (hsuffix.mem hmem)) hsplit hin' hd
    obtain ⟨-, -, -, -, -, -, -, -, hrep, -⟩ := hrest.first_skipGap hsplit hin' hd
    exact ⟨e, .more hm hrep hscan, he.trans hdrop.symm⟩

end Respaced

namespace Term

open Token

/-- A term on one line is read the same if the gaps between its tokens are replaced by any others,
deeper lines and comments included. -/
theorem read_respaced {src src' : Source} {limit : Int} {newlineFirst : Bool} {t : Term} {e c : Cursor}
    {text more : List Char} (hn : '\n' ∉ src.text)
    (hread : read src limit newlineFirst (.start src.text) = .done t e) (hin : c.IsIn src')
    (hc : c.rest = text ++ '\n' :: more)
    (htext : Respaced (src'.indentation c.position.line) ('\n' :: more) src.text text)
    (hmore : contentIndentation (splitLines more) ≤ src'.indentation c.position.line) :
    ∃ t', read src' limit true c = .done t' (c.drop text.length) ∧ t'.bare = t.bare ∧
      (c.drop text.length).rest = '\n' :: more := by
  obtain ⟨toks, hs, hd, ho⟩ := splits_of_read (c := .start src.text) hn hread
  obtain ⟨tok, toks, rfl, -⟩ := hd.exists_first
  obtain ⟨d, hscan, hend⟩ := htext.scans hn hs hin hc hmore
  have hrest : (c.drop text.length).rest = '\n' :: more := by rw [rest_drop, hc, List.drop_left]
  obtain ⟨t', hread', ht⟩ := read_of_derives limit true (by simp) hscan hd ho
    (by rw [hend, atLineEnd, hrest]; rfl)
  rw [hend] at hread'
  exact ⟨t', hread', ht, hrest⟩

theorem read_respaced_names :
    let src := Source.ofText [' ', 'a', ' ', 'b'] none
    let text := ['\\', '\n', 'a', ' ', '#', 'c', '\n', '\n', ' ', 'b']
    let src' := Source.ofText (text ++ ['\n']) none
    ∃ t t' e, read src 0 false (.start src.text) = .done t e ∧
      Respaced (src'.indentation 1) ['\n'] src.text text ∧
      read src' 0 true (.start src'.text) = .done t' ((Cursor.start src'.text).drop text.length) ∧
      t'.bare = t.bare := by
  intro src text src'
  have hn : '\n' ∉ src.text := by decide
  have ha : Munched (.reference ['a']) ['a'] (['a'] ++ [' ', 'b']) :=
    munched_reference ['a', ' ', 'b'] rfl
  have hb : Munched (.reference ['b']) ['b'] (['b'] ++ []) := munched_reference ['b'] rfl
  have hs : Splits src.text [.reference ['a'], .reference ['b']] :=
    @Splits.token [' '] _ _ _ _ rfl ha (by simp [isRepetition])
      (@Splits.token [' '] _ _ _ _ rfl hb (by simp [isRepetition]) (.ending rfl))
  have hparts : Derives .parts [.reference ['a'], .reference ['b']] _ :=
    .part (.plain (.once .reference)) (.lastPart (.plain (.once .reference)))
  have hopen : OpenAtMost 0 [.reference ['a'], .reference ['b']] :=
    (openAtMost_cons (by simp) (by simp)).2 (openAtMost_single (by simp))
  have hread : ∃ t e, read src 0 false (.start src.text) = .done t e ∧ t.bare = _ :=
    read_of_splits hn hs (.term (.choice (.lastAlternative (.sequence hparts)))) hopen
  obtain ⟨t, e, hread, -⟩ := hread
  have htext : Respaced (src'.indentation 1) ['\n'] src.text text := by
    have hlast : Gap 0 ['b', '\n'] [' ', '#', 'c', '\n', '\n', ' '] :=
      .blank rfl (@Gap.comment _ _ ['c'] _ (by decide)
        (.newline (by decide) (.newline (by decide) (.blank rfl .nil))))
    exact @Respaced.token _ _ [' '] ['\\', '\n'] _ _ _ _ rfl (by decide) (.continued .nil) ha
      (@Respaced.token _ _ [' '] _ _ _ _ _ rfl (by decide) hlast hb (.ending rfl))
  obtain ⟨t', hread', ht, -⟩ := read_respaced hn hread (.start src') rfl htext (by decide)
  exact ⟨t, t', e, hread, htext, hread', ht⟩

end Term

end IndentedGrammar
