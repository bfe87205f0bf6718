import IndentedGrammar.Proofs.Term.Soundness

namespace IndentedGrammar

open Cursor

def separator : List Char → Nat
  | [] => 0
  | '\\' :: '\n' :: _ => 2
  | '\\' :: '\r' :: '\n' :: _ => 3
  | ch :: text =>
    if ch = '#' then (text.takeWhile (· ≠ '\n')).length + 1
    else if isBlank ch || ch = '\n' then 1 else 0

/-- The text is a sequence of tokens, each the longest at its place. A colon is a token of rules, all
others are tokens of terms. -/
inductive Lexes : List Char → List Token → Prop
  | ended : Lexes [] []
  | separated {text toks} : 0 < separator text → Lexes (text.drop (separator text)) toks →
      Lexes text toks
  | colon {text toks} : Lexes text toks → Lexes (':' :: text) (.mark ':' :: toks)
  | token {tok word text toks} : tok.Munched word text → Lexes (text.drop word.length) toks →
      Lexes text (tok :: toks)

theorem separator_of_solid {ch : Char} (h : isSolid ch) (text : List Char) :
    separator (ch :: text) = 0 := by
  have hs := ne_backslash_of_isSolid h
  rw [separator.eq_def]
  split
  · rfl
  · next heq => exact absurd (List.cons.inj heq).1 hs
  · next heq => exact absurd (List.cons.inj heq).1 hs
  · next heq =>
    obtain ⟨rfl, rfl⟩ := List.cons.inj heq
    rw [if_neg (ne_hash_of_isSolid h), if_neg]
    simp [isBlank_of_isSolid h, ne_newline_of_isSolid h]

theorem separator_blank {ch : Char} (h : isBlank ch) (text : List Char) :
    separator (ch :: text) = 1 := by
  have hs : ch ≠ '\\' := by
    rintro rfl
    exact absurd h (by decide)
  have hc : ch ≠ '#' := by
    rintro rfl
    exact absurd h (by decide)
  rw [separator, if_neg hc, if_pos (by simp [h])]
  · exact fun _ e => absurd e hs
  · exact fun _ e => absurd e hs

namespace Token

def ofWord : List Char → Token
  | [] => .mark ' '
  | ch :: text =>
    if isNameChar ch then .reference (ch :: text)
    else if isMark ch then .mark ch
    else if ch = '[' then .characterClass text.dropLast
    else .literal (unescape text.dropLast)

theorem Spelled.eq_ofWord {tok : Token} {word : List Char} (h : tok.Spelled word) :
    tok = ofWord word := by
  cases h with
  | reference hname =>
    obtain ⟨ch, text, rfl, hch⟩ := exists_cons_of_head ((isDottedName_iff word).1 hname).1
    rw [ofWord, if_pos hch]
  | literal hq => rcases hq with rfl | rfl <;> simp [ofWord, isNameChar, isMark]
  | characterClass => simp [ofWord, isNameChar, isMark]
  | mark hmark => rw [ofWord, if_neg (not_isNameChar_of_isMark hmark), if_pos hmark]

theorem Munched.unique {tok tok' : Token} {word word' text : List Char}
    (h : tok.Munched word text) (h' : tok'.Munched word' text) : tok = tok' ∧ word = word' := by
  have hle := h.longest _ _ h'.spelled h'.front
  have hle' := h'.longest _ _ h.spelled h.front
  have hword : word = word' :=
    (List.prefix_of_prefix_length_le h.front h'.front hle').eq_of_length (by omega)
  subst hword
  exact ⟨h.spelled.eq_ofWord.trans h'.spelled.eq_ofWord.symm, rfl⟩

theorem Munched.exists_solid {tok : Token} {word text : List Char} (h : tok.Munched word text) :
    ∃ ch more, text = ch :: more ∧ isSolid ch ∧ tok.BeginsWith ch := by
  obtain ⟨ch, more, rfl, hsolid⟩ := h.spelled.solid
  obtain ⟨behind, rfl⟩ := id h.front
  exact ⟨ch, more ++ behind, rfl, hsolid, h.spelled.beginsWith h.front⟩

theorem not_beginsWith_colon (tok : Token) : ¬ tok.BeginsWith ':' := by
  cases tok with
  | reference => exact (by decide : ¬ isNameChar ':')
  | literal => rintro (h | h) <;> simp at h
  | characterClass => exact (by decide : ':' ≠ '[')
  | mark => exact fun h => absurd h.2 (by decide)

end Token

namespace Lexes

variable {text : List Char} {toks toks' : List Token}

theorem blank {ch : Char} (hch : isBlank ch) (h : Lexes text toks) : Lexes (ch :: text) toks := by
  apply Lexes.separated
  · rw [separator_blank hch]
    decide
  · rwa [separator_blank hch]

theorem newline (h : Lexes text toks) : Lexes ('\n' :: text) toks :=
  .separated Nat.one_pos h

theorem comment (h : Lexes (text.dropWhile (· ≠ '\n')) toks) : Lexes ('#' :: text) toks := by
  refine .separated (Nat.succ_pos _) ?_
  change Lexes (text.drop (text.takeWhile (· ≠ '\n')).length) toks
  rwa [drop_length_takeWhile]

theorem unique (h : Lexes text toks) (h' : Lexes text toks') : toks = toks' := by
  induction h generalizing toks' with
  | ended =>
    generalize hnil : ([] : List Char) = text at h'
    cases h' with
    | ended => rfl
    | separated hpos =>
      subst hnil
      exact absurd hpos (Nat.lt_irrefl 0)
    | colon => simp at hnil
    | token hm =>
      obtain ⟨ch, more, rfl, -⟩ := hm.exists_solid
      simp at hnil
  | @separated text toks hpos _ ih =>
    cases h' with
    | ended => exact absurd hpos (Nat.lt_irrefl 0)
    | separated _ hmore => exact ih hmore
    | colon =>
      rw [separator_of_solid (by decide)] at hpos
      exact absurd hpos (Nat.lt_irrefl 0)
    | token hm =>
      obtain ⟨ch, more, rfl, hsolid, -⟩ := hm.exists_solid
      rw [separator_of_solid hsolid] at hpos
      exact absurd hpos (Nat.lt_irrefl 0)
  | @colon text toks _ ih =>
    generalize hcolon : ':' :: text = whole at h'
    cases h' with
    | ended => simp at hcolon
    | separated hpos =>
      rw [← hcolon, separator_of_solid (by decide)] at hpos
      exact absurd hpos (Nat.lt_irrefl 0)
    | colon hmore =>
      obtain ⟨-, rfl⟩ := List.cons.inj hcolon
      rw [ih hmore]
    | token hm =>
      obtain ⟨ch, more, rfl, -, hbegin⟩ := hm.exists_solid
      obtain ⟨rfl, -⟩ := List.cons.inj hcolon
      exact absurd hbegin (Token.not_beginsWith_colon _)
  | @token tok word text toks hm _ ih =>
    obtain ⟨ch, more, rfl, hsolid, hbegin⟩ := hm.exists_solid
    cases h' with
    | separated hpos =>
      rw [separator_of_solid hsolid] at hpos
      exact absurd hpos (Nat.lt_irrefl 0)
    | colon => exact absurd hbegin (Token.not_beginsWith_colon _)
    | token hm' hmore =>
      obtain ⟨rfl, rfl⟩ := hm.unique hm'
      rw [ih hmore]

end Lexes

theorem lexes_continuedBlanks {text : List Char} {toks : List Token}
    (h : Lexes (text.drop (continuedBlanks text)) toks) : Lexes text toks := by
  fun_induction continuedBlanks text with
  | case1 => exact h
  | case2 text ih => exact .separated Nat.two_pos (ih h)
  | case3 text ih => exact .separated (Nat.succ_pos 2) (ih h)
  | case4 ch text _ _ hch ih => exact (ih h).blank hch
  | case5 => exact h

theorem insignificant_true (text : List Char) :
    insignificant true text =
      (text.takeWhile (· ≠ '\n')).length + insignificant false (text.dropWhile (· ≠ '\n')) := by
  induction text with
  | nil => rfl
  | cons ch text ih =>
    by_cases hch : ch = '\n'
    · simp [insignificant, hch]
    · simp [insignificant, hch, ih]
      omega

theorem lexes_insignificant {text : List Char} {toks : List Token}
    (h : Lexes (text.drop (insignificant false text)) toks) : Lexes text toks := by
  induction hn : text.length using Nat.strongRecOn generalizing text with
  | ind n ih =>
    subst hn
    cases text with
    | nil => exact h
    | cons ch text =>
      rw [insignificant] at h
      split at h
      · next hch =>
        subst hch
        exact (ih _ (Nat.lt_succ_self _) h rfl).newline
      split at h
      · next hch =>
        exact (ih _ (Nat.lt_succ_self _) h rfl).blank (by simpa using hch)
      split at h
      · next hch =>
        subst hch
        rw [List.drop_succ_cons, insignificant_true, ← List.drop_drop, drop_length_takeWhile] at h
        have hle := (List.dropWhile_suffix (l := text) (· ≠ '\n')).length_le
        exact (ih _ (Nat.lt_succ_of_le hle) h rfl).comment
      · exact h

def Cursor.LexesTo (c : Cursor) (toks : List Token) (e : Cursor) : Prop :=
  ∀ more, Lexes e.rest more → Lexes c.rest (toks ++ more)

namespace Cursor.LexesTo

variable {c d e : Cursor} {toks toks' : List Token}

theorem refl (c : Cursor) : c.LexesTo [] c := fun _ h => h

theorem append (h : c.LexesTo toks d) (h' : d.LexesTo toks' e) : c.LexesTo (toks ++ toks') e := by
  intro more hmore
  rw [List.append_assoc]
  exact h _ (h' _ hmore)

theorem token {tok : Token} {word : List Char} (h : tok.Munched word c.rest) :
    c.LexesTo [tok] (c.drop word.length) := fun _ hmore => .token h hmore

theorem colon (h : c.current? = some ':') : c.LexesTo [.mark ':'] c.next := by
  intro more hmore
  rw [rest_of_current? h]
  exact .colon hmore

theorem mark {ch : Char} (h : c.current? = some ch) (hm : isMark ch) :
    c.LexesTo [.mark ch] c.next :=
  token (rest_of_current? h ▸ Token.munched_mark hm c.next.rest)

theorem skipBlanks (c : Cursor) : c.LexesTo [] c.skipBlanks := by
  intro more hmore
  rw [rest_skipBlanks] at hmore
  generalize c.rest = text at hmore
  induction text with
  | nil => exact hmore
  | cons ch text ih =>
    by_cases hch : isBlank ch
    · rw [List.dropWhile_cons_of_pos hch] at hmore
      exact (ih hmore).blank hch
    · rwa [List.dropWhile_cons_of_neg hch] at hmore

theorem skipContinuedBlanks (c : Cursor) : c.LexesTo [] c.skipContinuedBlanks :=
  fun _ hmore => lexes_continuedBlanks hmore

theorem skipInsignificant (c : Cursor) : c.LexesTo [] c.skipInsignificant :=
  fun _ hmore => lexes_insignificant hmore

theorem skipComment (c : Cursor) : c.LexesTo [] c.skipComment := by
  intro more hmore
  rw [Cursor.skipComment] at hmore
  split at hmore
  · next hhash =>
    rw [skipLine_of_ne hhash (by decide), rest_skipLine] at hmore
    rw [rest_of_current? hhash]
    exact hmore.comment
  · exact hmore

theorem skipGap (src : Source) (margin : Nat) (c : Cursor) :
    c.LexesTo [] (c.skipGap src margin) := by
  fun_induction Cursor.skipGap src margin c with
  | case1 c d h ih =>
    have hd : c.LexesTo [] d := (LexesTo.skipContinuedBlanks c).append (skipComment _)
    exact hd.append ((skipInsignificant d).append ih)
  | case2 c d h => exact (LexesTo.skipContinuedBlanks c).append (skipComment _)

theorem scans {src : Source} {margin : Nat} (h : Scans src margin c toks d) :
    c.LexesTo toks d := by
  induction h with
  | one hm => exact token hm
  | more hm _ _ ih => exact (token hm).append ((skipGap src margin _).append ih)

end Cursor.LexesTo

end IndentedGrammar
