import IndentedGrammar.Proofs.Source.Layout
import IndentedGrammar.Term.Reader
import IndentedGrammar.Term.WellFormed

namespace IndentedGrammar

inductive Token where
  | reference : List Char → Token
  | literal : List Char → Token
  | characterClass : List Char → Token
  | mark : Char → Token
  deriving DecidableEq

def isMark (ch : Char) : Bool := ch ∈ ['.', '(', ')', '|', '&', '!', '?', '*', '+']

theorem not_isNameChar_of_isMark {ch : Char} (h : isMark ch) : ¬ isNameChar ch := by
  simp [isMark] at h
  rcases h with rfl | rfl | rfl | rfl | rfl | rfl | rfl | rfl | rfl <;> decide

/-- What may stand between two delimiters on one line. A backslash takes the next character along,
so that the closing delimiter can be a part of it. -/
def isEnclosed (close : Char) : List Char → Bool
  | [] => true
  | ['\\'] => false
  | '\\' :: taken :: text => taken ≠ '\n' && isEnclosed close text
  | ch :: text => ch ≠ close && ch ≠ '\n' && isEnclosed close text

namespace Token

def isRepetition : Token → Bool
  | .mark ch => (Repetition.ofSymbol? ch).isSome
  | _ => false

def IsQuote (ch : Char) : Prop := ch = '"' ∨ ch = '\''

theorem IsQuote.ne_backslash {ch : Char} (h : IsQuote ch) : ch ≠ '\\' := by
  rcases h with rfl | rfl <;> decide

theorem IsQuote.ne_newline {ch : Char} (h : IsQuote ch) : ch ≠ '\n' := by
  rcases h with rfl | rfl <;> decide

inductive Spelled : Token → List Char → Prop
  | reference {name : List Char} : isDottedName name → Spelled (.reference name) name
  | literal {q : Char} {body : List Char} : IsQuote q → isEnclosed q body → unescape body ≠ [] →
      Spelled (.literal (unescape body)) (q :: (body ++ [q]))
  | characterClass {body : List Char} : isClassBody body → body ≠ [] →
      Spelled (.characterClass body) ('[' :: (body ++ [']']))
  | mark {ch : Char} : isMark ch → Spelled (.mark ch) [ch]

/-- `word` is the longest text in front of `text` that spells a token, and it spells `tok`. -/
structure Munched (tok : Token) (word text : List Char) : Prop where
  spelled : tok.Spelled word
  front : word <+: text
  longest : ∀ tok' word', Spelled tok' word' → word' <+: text → word'.length ≤ word.length

end Token

theorem isClassBody_eq_isEnclosed (body : List Char) : isClassBody body = isEnclosed ']' body := by
  fun_induction isClassBody body with
  | case1 => rfl
  | case2 => rfl
  | case3 taken text ih => rw [isEnclosed, ih]
  | case4 ch text h₁ h₂ ih => rw [isEnclosed, ih] <;> assumption

theorem delimited?_close {close : Char} (hn : close ≠ '\n') (more : List Char) :
    delimited? close (close :: more) = some [] := by
  unfold delimited?
  simp [hn]

theorem delimited?_escape {close taken : Char} (hs : close ≠ '\\') (ht : taken ≠ '\n')
    (text : List Char) :
    delimited? close ('\\' :: taken :: text) =
      (delimited? close text).map fun body => '\\' :: taken :: body := by
  conv => lhs; unfold delimited?
  simp [Ne.symm hs, ht]

theorem delimited?_plain {close ch : Char} (hc : ch ≠ close) (hn : ch ≠ '\n') (hs : ch ≠ '\\')
    (text : List Char) : delimited? close (ch :: text) = (delimited? close text).map (ch :: ·) := by
  conv => lhs; unfold delimited?
  simp [hc, hn, hs]

theorem delimited?_append {close : Char} (hs : close ≠ '\\') (hn : close ≠ '\n') {body : List Char}
    (h : isEnclosed close body) (more : List Char) :
    delimited? close (body ++ close :: more) = some body := by
  fun_induction isEnclosed close body with
  | case1 => exact delimited?_close hn more
  | case2 => simp at h
  | case3 taken text ih =>
    simp only [Bool.and_eq_true, decide_eq_true_eq] at h
    rw [List.cons_append, List.cons_append, delimited?_escape hs h.1, ih h.2]
    rfl
  | case4 ch text h₁ h₂ ih =>
    simp only [Bool.and_eq_true, decide_eq_true_eq] at h
    have hch : ch ≠ '\\' := by
      intro e
      cases text with
      | nil => exact h₁ e rfl
      | cons taken text => exact h₂ taken text e rfl
    rw [List.cons_append, delimited?_plain h.1.1 h.1.2 hch, ih h.2]
    rfl

theorem isEnclosed_plain {close ch : Char} (hc : ch ≠ close) (hn : ch ≠ '\n') (hs : ch ≠ '\\')
    (text : List Char) : isEnclosed close (ch :: text) = isEnclosed close text := by
  cases text with
  | nil => simp [isEnclosed, hc, hn, hs]
  | cons taken text => rw [isEnclosed] <;> simp [hc, hn, hs]

theorem enclosed_of_delimited? {close : Char} {text body : List Char}
    (h : delimited? close text = some body) :
    isEnclosed close body ∧ ∃ more, text = body ++ close :: more := by
  induction text using delimited?.induct close generalizing body with
  | case1 => simp [delimited?] at h
  | case2 text => simp [delimited?.eq_def] at h
  | case3 text hn =>
    obtain rfl : [] = body := by simpa [delimited?_close hn] using h
    exact ⟨rfl, text, rfl⟩
  | case4 hn hc => simp [delimited?, hn, hc] at h
  | case5 text hn hc => simp [delimited?.eq_def, hn, hc] at h
  | case6 taken text ht hn hc ih =>
    rw [delimited?_escape (Ne.symm hc) ht] at h
    obtain ⟨body, hb, rfl⟩ := Option.map_eq_some_iff.1 h
    obtain ⟨he, more, rfl⟩ := ih hb
    exact ⟨by simp [isEnclosed, ht, he], more, rfl⟩
  | case7 ch text hn hc hs ih =>
    rw [delimited?_plain hc hn hs] at h
    obtain ⟨body, hb, rfl⟩ := Option.map_eq_some_iff.1 h
    obtain ⟨he, more, rfl⟩ := ih hb
    exact ⟨by rw [isEnclosed_plain hc hn hs, he], more, rfl⟩

theorem newline_not_mem_of_isEnclosed {close : Char} {body : List Char}
    (h : isEnclosed close body) : '\n' ∉ body := by
  fun_induction isEnclosed close body with
  | case1 => simp
  | case2 => simp
  | case3 taken text ih =>
    simp only [Bool.and_eq_true, decide_eq_true_eq] at h
    simp [Ne.symm h.1, ih h.2]
  | case4 ch text h₁ h₂ ih =>
    simp only [Bool.and_eq_true, decide_eq_true_eq] at h
    simp [Ne.symm h.1.2, ih h.2]

theorem exists_cons_of_head {text : List Char} (h : text.head?.any isNameChar) :
    ∃ ch more, text = ch :: more ∧ isNameChar ch := by
  obtain ⟨ch, hhead, hch⟩ := (Option.any_eq_true _ _).1 h
  obtain ⟨more, rfl⟩ := List.head?_eq_some_iff.1 hhead
  exact ⟨ch, more, rfl, hch⟩

theorem dottedName_le (text : List Char) : dottedName text ≤ text.length := by
  induction text with
  | nil => exact Nat.le_refl 0
  | cons ch text ih =>
    rw [dottedName]
    split
    · exact Nat.succ_le_succ ih
    · exact Nat.zero_le _

theorem newline_not_mem_take_dottedName (text : List Char) :
    '\n' ∉ text.take (dottedName text) := by
  induction text with
  | nil => simp
  | cons ch text ih =>
    rw [dottedName]
    split
    · next h =>
      have hn : '\n' ≠ ch := by
        rintro rfl
        exact absurd h (by simp [isNameChar])
      simp [hn, ih]
    · simp

theorem dottedName_pos_of_head {text : List Char} (h : text.head?.any isNameChar) :
    0 < dottedName text := by
  obtain ⟨ch, more, rfl, hch⟩ := exists_cons_of_head h
  simp [dottedName, hch]

theorem head?_take_dottedName (text : List Char) :
    (text.take (dottedName text)).head?.any isNameChar = text.head?.any isNameChar := by
  rw [List.head?_take]
  split
  · next h =>
    by_cases hh : text.head?.any isNameChar
    · exact absurd h (Nat.ne_of_gt (dottedName_pos_of_head hh))
    · rw [Bool.not_eq_true] at hh
      rw [hh]
      rfl
  · rfl

theorem dottedName_take (text : List Char) :
    dottedName (text.take (dottedName text)) = dottedName text := by
  induction text with
  | nil => rfl
  | cons ch text ih =>
    have hcons : dottedName (ch :: text) =
        if isNameChar ch || (ch = '.' && text.head?.any isNameChar) then dottedName text + 1
        else 0 := rfl
    rw [hcons]
    split
    · next h => rw [List.take_succ_cons, dottedName, head?_take_dottedName, if_pos h, ih]
    · rfl

theorem not_isNameChar_drop_dottedName (text : List Char) :
    ¬ (text.drop (dottedName text)).head?.any isNameChar := by
  induction text with
  | nil => simp
  | cons ch text ih =>
    rw [dottedName]
    split
    · exact ih
    · next h => simp_all

theorem dottedName_append_le (text more : List Char) :
    dottedName text ≤ dottedName (text ++ more) := by
  induction text with
  | nil => exact Nat.zero_le _
  | cons ch text ih =>
    by_cases h : isNameChar ch || (ch = '.' && text.head?.any isNameChar)
    · have h' : isNameChar ch || (ch = '.' && (text ++ more).head?.any isNameChar) := by
        cases text <;> simp_all
      rw [List.cons_append, dottedName, if_pos h, dottedName, if_pos h']
      exact Nat.succ_le_succ ih
    · rw [dottedName, if_neg h]
      exact Nat.zero_le _

theorem dottedName_append {word : List Char} (h : dottedName word = word.length) (text : List Char) :
    dottedName (word ++ text) = word.length + dottedName text := by
  induction word with
  | nil => simp
  | cons ch word ih =>
    rw [dottedName, List.length_cons] at h
    split at h
    · next hch =>
      have hch' : isNameChar ch || (ch = '.' && (word ++ text).head?.any isNameChar) := by
        cases word <;> simp_all
      rw [List.cons_append, dottedName, if_pos hch', ih (by omega), List.length_cons]
      omega
    · omega

theorem isName_eq (text : List Char) :
    isName text = (text.head?.any isNameChar && text.all isNameChar) := by
  cases text with
  | nil => rfl
  | cons ch text => cases h : isNameChar ch <;> simp [isName, h]

theorem head?_of_cutAt {text piece : List Char} {pieces : List (List Char)}
    (h : cutAt '.' text = piece :: pieces) :
    piece.head?.any isNameChar = text.head?.any isNameChar := by
  cases text with
  | nil =>
    obtain ⟨rfl, -⟩ := List.cons.inj h
    rfl
  | cons ch text =>
    obtain ⟨first, others, hcut⟩ := exists_cutAt '.' text
    rw [cutAt_cons, hcut] at h
    by_cases hch : ch = '.'
    · rw [if_pos hch] at h
      obtain ⟨rfl, -⟩ := List.cons.inj h
      simp [hch, isNameChar]
    · rw [if_neg hch] at h
      obtain ⟨rfl, -⟩ := List.cons.inj h
      rfl

theorem dottedName_eq_length_iff {text piece : List Char} {pieces : List (List Char)}
    (h : cutAt '.' text = piece :: pieces) :
    dottedName text = text.length ↔ piece.all isNameChar ∧ pieces.all isName := by
  induction text generalizing piece pieces with
  | nil =>
    obtain ⟨rfl, rfl⟩ := List.cons.inj h
    simp [dottedName]
  | cons ch text ih =>
    obtain ⟨first, others, hcut⟩ := exists_cutAt '.' text
    have ih := ih hcut
    have hhead := head?_of_cutAt hcut
    rw [cutAt_cons, hcut] at h
    by_cases hdot : ch = '.'
    · rw [if_pos hdot] at h
      obtain ⟨rfl, rfl⟩ := List.cons.inj h
      have hd : isNameChar '.' = false := by decide
      rw [List.all_cons, isName_eq, hhead, dottedName, hdot, hd]
      cases text.head?.any isNameChar <;> simp [ih]
    · rw [if_neg hdot] at h
      obtain ⟨rfl, rfl⟩ := List.cons.inj h
      by_cases hch : isNameChar ch
      · simp [dottedName, hch, ih]
      · simp [dottedName, hch, hdot]

theorem isDottedName_iff (text : List Char) :
    isDottedName text ↔ text.head?.any isNameChar ∧ dottedName text = text.length := by
  obtain ⟨first, others, hcut⟩ := exists_cutAt '.' text
  rw [isDottedName, hcut, dottedName_eq_length_iff hcut, List.all_cons, isName_eq,
    head?_of_cutAt hcut]
  simp only [Bool.and_eq_true, and_assoc]

theorem isDottedName_take {text : List Char} (h : text.head?.any isNameChar) :
    isDottedName (text.take (dottedName text)) := by
  rw [isDottedName_iff, head?_take_dottedName, dottedName_take,
    List.length_take_of_le (dottedName_le text)]
  exact ⟨h, rfl⟩

namespace Token

def BeginsWith (ch : Char) : Token → Prop
  | .reference _ => isNameChar ch
  | .literal _ => IsQuote ch
  | .characterClass _ => ch = '['
  | .mark symbol => symbol = ch ∧ isMark ch

theorem Spelled.beginsWith {tok : Token} {word text : List Char} {ch : Char} (h : tok.Spelled word)
    (hfront : word <+: ch :: text) : tok.BeginsWith ch := by
  cases h with
  | reference hname =>
    obtain ⟨first, more, rfl, hfirst⟩ := exists_cons_of_head ((isDottedName_iff word).1 hname).1
    obtain ⟨rfl, -⟩ := List.cons_prefix_cons.1 hfront
    exact hfirst
  | literal hquote _ _ =>
    obtain ⟨rfl, -⟩ := List.cons_prefix_cons.1 hfront
    exact hquote
  | characterClass _ _ =>
    obtain ⟨rfl, -⟩ := List.cons_prefix_cons.1 hfront
    rfl
  | mark hmark =>
    obtain ⟨rfl, -⟩ := List.cons_prefix_cons.1 hfront
    exact ⟨rfl, hmark⟩

theorem Spelled.solid {tok : Token} {word : List Char} (h : tok.Spelled word) :
    ∃ ch text, word = ch :: text ∧ Cursor.isSolid ch := by
  cases h with
  | reference hname =>
    obtain ⟨ch, text, rfl, hch⟩ := exists_cons_of_head ((isDottedName_iff word).1 hname).1
    exact ⟨ch, text, rfl, Cursor.isSolid_of_isNameChar hch⟩
  | literal hq _ _ => exact ⟨_, _, rfl, by rcases hq with rfl | rfl <;> decide⟩
  | characterClass _ _ => exact ⟨_, _, rfl, rfl⟩
  | mark hmark =>
    refine ⟨_, _, rfl, ?_⟩
    simp [isMark] at hmark
    rcases hmark with rfl | rfl | rfl | rfl | rfl | rfl | rfl | rfl | rfl <;> rfl

theorem length_pos_of_spelled {tok : Token} {word : List Char} (h : tok.Spelled word) :
    0 < word.length := by
  obtain ⟨ch, text, rfl, -⟩ := h.solid
  exact Nat.succ_pos _

theorem delimited?_of_front {close : Char} (hs : close ≠ '\\') (hn : close ≠ '\n')
    {text body : List Char} (hb : isEnclosed close body) (h : body ++ [close] <+: text) :
    delimited? close text = some body := by
  obtain ⟨more, rfl⟩ := h
  rw [List.append_assoc]
  exact delimited?_append hs hn hb more

theorem unescape_ne_nil {body : List Char} (h : body ≠ []) : unescape body ≠ [] := by
  fun_cases unescape body <;> simp_all

theorem munched_reference (text : List Char) (h : text.head?.any isNameChar) :
    Munched (.reference (text.take (dottedName text))) (text.take (dottedName text)) text := by
  refine ⟨.reference (isDottedName_take h), List.take_prefix _ _, ?_⟩
  intro tok' word' hspelled hfront
  rw [List.length_take_of_le (dottedName_le text)]
  obtain ⟨ch, rest, rfl, hch⟩ := exists_cons_of_head h
  -- no other kind of token begins with such a character
  have hbegin := hspelled.beginsWith hfront
  cases hspelled with
  | reference hname =>
    obtain ⟨more, hmore⟩ := hfront
    rw [← ((isDottedName_iff word').1 hname).2, ← hmore]
    exact dottedName_append_le word' more
  | literal _ _ _ => rcases hbegin with rfl | rfl <;> simp [isNameChar] at hch
  | characterClass _ _ =>
    rw [BeginsWith] at hbegin
    simp [hbegin, isNameChar] at hch
  | mark hmark => exact dottedName_pos_of_head h

theorem munched_literal {q : Char} (hq : IsQuote q) {text body : List Char}
    (h : delimited? q text = some body) (hne : body ≠ []) :
    Munched (.literal (unescape body)) (q :: (body ++ [q])) (q :: text) := by
  obtain ⟨hb, more, rfl⟩ := enclosed_of_delimited? h
  refine ⟨.literal hq hb (unescape_ne_nil hne), ⟨more, by simp⟩, ?_⟩
  intro tok' word' hspelled hfront
  have hbegin := hspelled.beginsWith hfront
  cases hspelled with
  | reference hname => rcases hq with rfl | rfl <;> simp [BeginsWith, isNameChar] at hbegin
  | literal hq' hb' hne' =>
    obtain ⟨rfl, hfront⟩ := List.cons_prefix_cons.1 hfront
    have hbody := delimited?_of_front hq'.ne_backslash hq'.ne_newline hb' hfront
    rw [h, Option.some.injEq] at hbody
    simp [hbody]
  | characterClass hb' hne' => rcases hq with rfl | rfl <;> simp [BeginsWith] at hbegin
  | mark hmark => simp

theorem munched_characterClass {text body : List Char} (h : delimited? ']' text = some body)
    (hne : body ≠ []) : Munched (.characterClass body) ('[' :: (body ++ [']'])) ('[' :: text) := by
  obtain ⟨hb, more, rfl⟩ := enclosed_of_delimited? h
  refine ⟨.characterClass (by rw [isClassBody_eq_isEnclosed, hb]) hne, ⟨more, by simp⟩, ?_⟩
  intro tok' word' hspelled hfront
  have hbegin := hspelled.beginsWith hfront
  cases hspelled with
  | reference hname => simp [BeginsWith, isNameChar] at hbegin
  | literal hq' hb' hne' => simp [BeginsWith, IsQuote] at hbegin
  | characterClass hb' hne' =>
    rw [isClassBody_eq_isEnclosed] at hb'
    obtain ⟨-, hfront⟩ := List.cons_prefix_cons.1 hfront
    have hbody := (delimited?_of_front (by decide) (by decide) hb' hfront).symm.trans h
    simp [Option.some.inj hbody]
  | mark hmark => simp

theorem munched_mark {ch : Char} (h : isMark ch) (text : List Char) :
    Munched (.mark ch) [ch] (ch :: text) := by
  refine ⟨.mark h, ⟨text, rfl⟩, ?_⟩
  intro tok' word' hspelled hfront
  have hbegin := hspelled.beginsWith hfront
  cases hspelled with
  | reference hname => exact absurd hbegin (not_isNameChar_of_isMark h)
  | literal hq' hb' hne' => rcases hbegin with rfl | rfl <;> simp [isMark] at h
  | characterClass hb' hne' =>
    simp only [BeginsWith] at hbegin
    simp [hbegin, isMark] at h
  | mark hmark => simp

namespace Munched

variable {word text value : List Char}

theorem reference_eq {name : List Char} (h : Munched (.reference name) word text) :
    text.head?.any isNameChar ∧ word.length = dottedName text ∧
      name = text.take (dottedName text) := by
  obtain ⟨hspelled, hfront, hlongest⟩ := h
  cases hspelled with
  | reference hname =>
    obtain ⟨hhead, hlength⟩ := (isDottedName_iff word).1 hname
    obtain ⟨more, rfl⟩ := hfront
    have htext : (word ++ more).head?.any isNameChar := by cases word <;> simp_all
    have hle : dottedName (word ++ more) ≤ word.length := by
      have hmunched := munched_reference _ htext
      have := hlongest _ _ hmunched.spelled hmunched.front
      rwa [List.length_take_of_le (dottedName_le _)] at this
    have hge := dottedName_append_le word more
    have hall : word.length = dottedName (word ++ more) := by omega
    exact ⟨htext, hall, by rw [← hall, List.take_left]⟩

theorem literal_eq (h : Munched (.literal value) word text) :
    ∃ q body more, IsQuote q ∧ text = q :: more ∧ delimited? q more = some body ∧ body ≠ [] ∧
      value = unescape body ∧ word.length = body.length + 2 := by
  obtain ⟨hspelled, hfront, -⟩ := h
  cases hspelled with
  | @literal q body hq hb hne =>
    obtain ⟨more, rfl⟩ := hfront
    have hd := delimited?_of_front hq.ne_backslash hq.ne_newline hb (List.prefix_append _ more)
    refine ⟨q, body, body ++ [q] ++ more, hq, rfl, hd, ?_, rfl, by simp⟩
    rintro rfl
    exact hne rfl

theorem characterClass_eq {body : List Char} (h : Munched (.characterClass body) word text) :
    ∃ more, text = '[' :: more ∧ delimited? ']' more = some body ∧ body ≠ [] ∧
      word.length = body.length + 2 := by
  obtain ⟨hspelled, hfront, -⟩ := h
  cases hspelled with
  | characterClass hb hne =>
    rw [isClassBody_eq_isEnclosed] at hb
    obtain ⟨more, rfl⟩ := hfront
    have hd := delimited?_of_front (by decide) (by decide) hb (List.prefix_append _ more)
    exact ⟨body ++ [']'] ++ more, rfl, hd, hne, by simp⟩

theorem mark_eq {ch : Char} (h : Munched (.mark ch) word text) :
    ∃ more, text = ch :: more ∧ word = [ch] := by
  obtain ⟨hspelled, ⟨more, rfl⟩, -⟩ := h
  cases hspelled with
  | mark hmark => exact ⟨more, rfl, rfl⟩

end Munched

end Token

end IndentedGrammar
