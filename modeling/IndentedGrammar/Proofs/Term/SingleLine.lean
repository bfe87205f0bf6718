import IndentedGrammar.Proofs.Term.Completeness

namespace IndentedGrammar

open Cursor

/-- A line splits into tokens, each the longest at its place. Blanks may stand before a token that
is not a repetition, and blanks and a comment behind the last one. -/
inductive Splits : List Char → List Token → Prop
  | ending {gap} : isBlankLine gap → Splits gap []
  | token {gap tok word text toks} : gap.all isBlank → tok.Munched word (word ++ text) →
      (tok.isRepetition → gap = []) → Splits text toks →
        Splits (gap ++ (word ++ text)) (tok :: toks)

namespace Splits

variable {text : List Char} {tok : Token} {toks : List Token}

theorem inv (h : Splits text (tok :: toks)) :
    ∃ gap word more, text = gap ++ (word ++ more) ∧ gap.all isBlank ∧
      tok.Munched word (word ++ more) ∧
      (tok.isRepetition → gap = []) ∧ Splits more toks := by
  cases h with
  | token hgap hm hr hmore => exact ⟨_, _, _, rfl, hgap, hm, hr, hmore⟩

theorem isBlankLine (h : Splits text []) : isBlankLine text := by
  cases h with
  | ending hb => exact hb

theorem blanks {gap : List Char} (h : Splits text (tok :: toks)) (hgap : gap.all isBlank)
    (hr : tok.isRepetition → gap = []) : Splits (gap ++ text) (tok :: toks) := by
  obtain ⟨gap', word, more, rfl, hgap', hm, hr', hmore⟩ := h.inv
  rw [← List.append_assoc]
  refine .token (by simp_all) hm (fun h => ?_) hmore
  rw [hr h, hr' h]
  rfl

end Splits

theorem Token.Munched.splits {tok : Token} {word text : List Char} {toks : List Token}
    (hm : tok.Munched word (word ++ text)) (h : Splits text toks) :
    Splits (word ++ text) (tok :: toks) := by
  rw [← List.nil_append (word ++ text)]
  exact .token rfl hm (fun _ => rfl) h

variable {src : Source} {margin : Nat} {c d : Cursor} {tok : Token} {toks : List Token}

theorem continuedBlanks_of_not_mem {text : List Char} (h : '\n' ∉ text) :
    continuedBlanks text = (text.takeWhile isBlank).length := by
  have hsplit := List.takeWhile_append_dropWhile (p := isBlank) (l := text)
  have hrest : continuedBlanks (text.dropWhile isBlank) = 0 := by
    have hmem : '\n' ∉ text.dropWhile isBlank := fun hm => h (hsplit ▸ List.mem_append_right _ hm)
    have hhead := List.head?_dropWhile_not isBlank text
    cases hd : text.dropWhile isBlank with
    | nil => rfl
    | cons ch more =>
      rw [hd] at hmem hhead
      rw [continuedBlanks, if_neg (by simpa using hhead)]
      · rintro more' rfl rfl
        simp at hmem
      · rintro more' rfl rfl
        simp at hmem
  conv => lhs; rw [← hsplit]
  rw [continuedBlanks_append List.all_takeWhile, hrest, Nat.add_zero]

theorem skipGap_of_not_mem (h : '\n' ∉ c.rest) :
    c.skipGap src margin = c.skipBlanks.skipComment := by
  have hblanks : c.skipContinuedBlanks = c.skipBlanks := by
    rw [skipContinuedBlanks, continuedBlanks_of_not_mem h, skipBlanks]
  rw [skipGap, hblanks, dif_neg]
  rintro ⟨hcurrent, -⟩
  have hsuffix := (c.reaches_skipBlanks.trans (reaches_skipComment _)).suffix
  exact h (hsuffix.mem (List.mem_of_mem_head? hcurrent))

theorem newline_not_mem_of_reaches (h : '\n' ∉ c.rest) (hd : c.Reaches d) : '\n' ∉ d.rest :=
  fun hm => h (hd.suffix.mem hm)

theorem rest_eq_nil_of_atLineEnd (h : '\n' ∉ c.rest) (hc : c.atLineEnd) : c.rest = [] := by
  by_cases hne : c.rest = []
  · exact hne
  · obtain ⟨text, ht⟩ := (rest_of_atLineEnd hc).resolve_left hne
    exact absurd (by simp [ht]) h

theorem rest_skipComment_eq_nil_iff (h : '\n' ∉ c.rest) :
    c.skipComment.rest = [] ↔ c.rest.head?.all (· = '#') := by
  rw [skipComment, current?]
  cases hc : c.rest with
  | nil => simp [hc]
  | cons ch text =>
    by_cases hch : ch = '#'
    · have hskip := rest_eq_nil_of_atLineEnd (newline_not_mem_of_reaches h c.reaches_skipLine)
        c.atLineEnd_skipLine
      rw [List.head?_cons, hch, if_pos rfl, hskip]
      simp
    · simp [hch, hc]

theorem rest_skipGap_eq_nil_iff (h : '\n' ∉ c.rest) :
    (c.skipGap src margin).rest = [] ↔ isBlankLine c.rest := by
  have hmem := newline_not_mem_of_reaches h c.reaches_skipBlanks
  rw [skipGap_of_not_mem h, isBlankLine, ← rest_skipBlanks]
  exact rest_skipComment_eq_nil_iff hmem

theorem exists_gap (src : Source) (margin : Nat) {c : Cursor} (h : '\n' ∉ c.rest)
    (hne : (c.skipGap src margin).rest ≠ []) :
    ∃ gap, gap.all isBlank ∧ c.rest = gap ++ (c.skipGap src margin).rest := by
  have hmem := newline_not_mem_of_reaches h c.reaches_skipBlanks
  rw [skipGap_of_not_mem h] at hne ⊢
  have hcomment : c.skipBlanks.current? ≠ some '#' := by
    intro hcurrent
    apply hne
    rw [rest_skipComment_eq_nil_iff hmem, ← current?, hcurrent]
    rfl
  rw [skipComment, if_neg hcomment]
  refine ⟨c.rest.takeWhile isBlank, List.all_takeWhile, ?_⟩
  rw [rest_skipBlanks, List.takeWhile_append_dropWhile]

theorem Splits.first (src : Source) (margin : Nat) (h : Splits c.rest (tok :: toks)) :
    ∃ word, tok.Munched word (c.skipGap src margin).rest ∧
      (tok.isRepetition → c.skipGap src margin = c) ∧
      Splits ((c.skipGap src margin).drop word.length).rest toks := by
  obtain ⟨gap, word, more, hc, hgap, hm, hr, hmore⟩ := h.inv
  obtain ⟨ch, text, hword, hsolid⟩ := hm.spelled.solid
  have hskip : c.skipGap src margin = c.drop gap.length :=
    skipGap_of_blanks src margin (by rw [hc, hword]; rfl) hgap hsolid
  have hrest : (c.drop gap.length).rest = word ++ more := by rw [rest_drop, hc, List.drop_left]
  refine ⟨word, ?_, fun h => ?_, ?_⟩
  · rw [hskip, hrest]
    exact hm
  · rw [hskip, hr h]
    exact c.drop_zero
  · rw [hskip, rest_drop, hrest, List.drop_left]
    exact hmore

theorem scans_of_splits (src : Source) (margin : Nat) {c : Cursor} (h : Splits c.rest (tok :: toks))
    (hn : '\n' ∉ c.rest) :
    ∃ d, Scans src margin (c.skipGap src margin) (tok :: toks) d ∧
      (d.skipGap src margin).rest = [] := by
  induction toks generalizing c tok with
  | nil =>
    obtain ⟨word, hm, -, hmore⟩ := h.first src margin
    have hn' :=
      newline_not_mem_of_reaches hn ((reaches_skipGap src margin c).trans (.drop _ word.length))
    exact ⟨_, .one hm, (rest_skipGap_eq_nil_iff hn').2 hmore.isBlankLine⟩
  | cons next toks ih =>
    obtain ⟨word, hm, -, hmore⟩ := h.first src margin
    have hn' :=
      newline_not_mem_of_reaches hn ((reaches_skipGap src margin c).trans (.drop _ word.length))
    obtain ⟨-, -, hr, -⟩ := hmore.first src margin
    obtain ⟨d, hs, hd⟩ := ih hmore hn'
    exact ⟨d, .more hm hr hs, hd⟩

theorem Scans.rest_ne_nil (h : Scans src margin c toks d) : c.rest ≠ [] :=
  List.ne_nil_of_length_pos (Nat.lt_of_le_of_lt (Nat.zero_le _) h.length_lt)

theorem splits_of_scans (h : Scans src margin c toks d) (hn : '\n' ∉ c.rest)
    (hd : (d.skipGap src margin).rest = []) : Splits c.rest toks := by
  induction h with
  | @one c tok word hm =>
    obtain ⟨more, hc⟩ := hm.front
    have hn' := newline_not_mem_of_reaches hn (.drop c word.length)
    rw [rest_skipGap_eq_nil_iff hn', rest_drop, ← hc, List.drop_left] at hd
    rw [← hc] at hm ⊢
    exact hm.splits (.ending hd)
  | @more c tok word next toks d hm hr hrest ih =>
    obtain ⟨more, hc⟩ := hm.front
    have hn' := newline_not_mem_of_reaches hn (.drop c word.length)
    obtain ⟨gap, hgap, hmore⟩ := exists_gap src margin hn' hrest.rest_ne_nil
    have hsplit := ih (newline_not_mem_of_reaches hn' (reaches_skipGap src margin _)) hd
    -- the gap belongs to the token behind it, and is empty if that is a repetition
    have hsplit' : Splits more (next :: toks) := by
      have hmore' : (c.drop word.length).rest = more := by rw [rest_drop, ← hc, List.drop_left]
      rw [← hmore', hmore]
      refine hsplit.blanks hgap (fun h => ?_)
      have hlength := congrArg List.length hmore
      rw [hr h, List.length_append] at hlength
      exact List.eq_nil_of_length_eq_zero (by omega)
    rw [← hc] at hm ⊢
    exact hm.splits hsplit'

theorem Derives.exists_first {ts : List Term} (h : Derives .term toks ts) :
    ∃ tok more, toks = tok :: more ∧ ¬ tok.isRepetition := by
  cases h with
  | term hchoice =>
    obtain ⟨tok, more, rfl, hstart⟩ := hchoice.startsPart (by simp)
    exact ⟨tok, more, rfl, Term.not_isRepetition hstart⟩
  | barred _ => exact ⟨_, _, rfl, by decide⟩

namespace Term

open Token

variable {limit : Int} {newlineFirst : Bool} {t : Term} {e : Cursor}

theorem splits_of_read (hn : '\n' ∉ c.rest) (h : read src limit newlineFirst c = .done t e) :
    ∃ toks, Splits c.rest toks ∧ Derives .term toks [t.bare] ∧ OpenAtMost limit.toNat toks := by
  obtain ⟨⟨toks, d, hs, rfl, hd, ho⟩, hend⟩ := term_of_read h
  have hgap := reaches_skipGap src (src.indentation c.position.line) c
  have hn' := newline_not_mem_of_reaches hn hgap
  have hrest := newline_not_mem_of_reaches hn'
    (hs.reaches.trans (reaches_skipGap src (src.indentation c.position.line) d))
  have hsplit := splits_of_scans hs hn' (rest_eq_nil_of_atLineEnd hrest hend)
  obtain ⟨tok, more, rfl, hrep⟩ := hd.exists_first
  obtain ⟨gap, hblank, hc⟩ := exists_gap src _ hn hs.rest_ne_nil
  rw [hc]
  exact ⟨_, hsplit.blanks hblank (fun h => absurd h hrep), hd, ho⟩

theorem read_of_splits (hn : '\n' ∉ c.rest) (hsplit : Splits c.rest toks)
    (hd : Derives .term toks [t]) (ho : OpenAtMost limit.toNat toks) :
    ∃ t' e, read src limit newlineFirst c = .done t' e ∧ t'.bare = t := by
  obtain ⟨tok, more, rfl, -⟩ := hd.exists_first
  obtain ⟨d, hs, hrest⟩ := scans_of_splits src (src.indentation c.position.line) hsplit hn
  have hline : ¬ c.skipContinuedBlanks.skipComment.atLineEnd := by
    intro hend
    have hreach := c.reaches_skipContinuedBlanks.trans (reaches_skipComment _)
    have hnil := rest_eq_nil_of_atLineEnd (newline_not_mem_of_reaches hn hreach) hend
    have hgap := (reaches_skipGap src (src.indentation c.position.line)
      c.skipContinuedBlanks.skipComment).suffix
    rw [skipGap_skipComment, hnil] at hgap
    exact hs.rest_ne_nil (List.suffix_nil.1 hgap)
  obtain ⟨t', hread, ht⟩ := read_of_derives limit newlineFirst
    (by simp [hline]) hs hd ho (by simp [atLineEnd, hrest])
  exact ⟨t', _, hread, ht⟩

/-- On a single line exactly those terms are read that its tokens derive, and nothing is read where
they derive none. -/
theorem read_singleLine (src : Source) (hn : '\n' ∉ src.text) (limit : Int) (newlineFirst : Bool) :
    (∀ t, (∃ t' e, read src limit newlineFirst (.start src.text) = .done t' e ∧ t'.bare = t) ↔
      ∃ toks, Splits src.text toks ∧ Derives .term toks [t] ∧ OpenAtMost limit.toNat toks) ∧
    ((¬ ∃ t toks, Splits src.text toks ∧ Derives .term toks [t] ∧ OpenAtMost limit.toNat toks) →
      ∃ d e, read src limit newlineFirst (.start src.text) = .failed d e) := by
  constructor
  · intro t
    constructor
    · rintro ⟨t', e, hread, rfl⟩
      exact splits_of_read hn hread
    · rintro ⟨toks, hsplit, hd, ho⟩
      exact read_of_splits (c := .start src.text) hn hsplit hd ho
  · intro hnone
    cases hread : read src limit newlineFirst (.start src.text) with
    | done t e => exact absurd ⟨t.bare, splits_of_read hn hread⟩ hnone
    | failed d e => exact ⟨d, e, rfl⟩

theorem read_singleLine_group :
    let text := ['(', 'a', ')', '?']
    '\n' ∉ (Source.ofText text none).text ∧
    ∃ t e, read (.ofText text none) 1 false (.start text) = .done t e ∧
      t.bare = node (.repetition .optional) [leaf .reference ['a']] := by
  intro text
  have hn : '\n' ∉ (Source.ofText text none).text := by decide
  have hgroup : Derives .atom [.mark '(', .reference ['a'], .mark ')'] [leaf .reference ['a']] :=
    .group (.choice (.lastAlternative (.sequence (.lastPart (.plain (.once .reference))))))
  have hopen : OpenAtMost 1 [.mark '(', .reference ['a'], .mark ')'] :=
    (openAtMost_group (isBalanced_single (by simp) (by simp))).2
      ⟨0, rfl, openAtMost_single (by simp)⟩
  refine ⟨hn, ((read_singleLine _ hn 1 false).1 _).2
    ⟨[.mark '(', .reference ['a'], .mark ')', .mark '?'], ?_⟩⟩
  refine ⟨?_, ?_, (openAtMost_append hgroup.isBalanced).2 ⟨hopen, openAtMost_single (by simp)⟩⟩
  · have hname := munched_reference ['a', ')', '?'] rfl
    apply (munched_mark rfl _).splits
    apply hname.splits
    apply (munched_mark rfl _).splits
    exact (munched_mark rfl _).splits (.ending rfl)
  · have hrepeated := hgroup.repetition .optional
    exact .term (.choice (.lastAlternative (.sequence (.lastPart (.plain hrepeated)))))

end Term

end IndentedGrammar
