import IndentedGrammar.Proofs.Source.Alignment
import IndentedGrammar.Proofs.Term.Soundness

namespace IndentedGrammar

open Cursor

inductive SameLine : List Char → List Char → Prop
  | nil : SameLine [] []
  | newline {text text'} : SameLine ('\n' :: text) ('\n' :: text')
  | returned {text text'} : SameLine ('\n' :: text) ('\r' :: '\n' :: text')
  | char {ch text text'} : ch ≠ '\n' → SameLine text text' → SameLine (ch :: text) (ch :: text')

namespace SameLine

variable {text text' : List Char}

theorem any_head? (p : Char → Bool) (hp : p '\r' = p '\n') (h : SameLine text text') :
    text'.head?.any p = text.head?.any p := by
  cases h <;> simp [hp]

theorem dottedName_eq (h : SameLine text text') : dottedName text' = dottedName text := by
  induction h with
  | nil => rfl
  | newline => rfl
  | returned => rfl
  | char _ hmore ih => rw [dottedName, dottedName, ih, hmore.any_head? _ rfl]

theorem takeWhile_isNameChar_eq (h : SameLine text text') :
    text'.takeWhile isNameChar = text.takeWhile isNameChar := by
  induction h with
  | nil => rfl
  | newline => rfl
  | returned => rfl
  | char _ _ ih => rw [List.takeWhile_cons, List.takeWhile_cons, ih]

theorem take_eq {n : Nat} (h : SameLine text text') (hn : '\n' ∉ text.take n) :
    text'.take n = text.take n := by
  induction n generalizing text text' with
  | zero => rfl
  | succ n ih =>
    cases h with
    | nil => rfl
    | newline => simp at hn
    | returned => simp at hn
    | char _ hmore =>
      rw [List.take_succ_cons, List.mem_cons, not_or] at hn
      rw [List.take_succ_cons, List.take_succ_cons, ih hmore hn.2]

theorem isPrefixOf_eq {word : List Char} (hn : '\n' ∉ word) (hr : '\r' ∉ word)
    (h : SameLine text text') :
    word.isPrefixOf text' = word.isPrefixOf text := by
  induction word generalizing text text' with
  | nil => simp
  | cons ch word ih =>
    rw [List.mem_cons, not_or] at hn hr
    have hn' : (ch == '\n') = false := beq_false_of_ne (Ne.symm hn.1)
    have hr' : (ch == '\r') = false := beq_false_of_ne (Ne.symm hr.1)
    cases h with
    | nil => rfl
    | newline => simp [List.isPrefixOf, hn']
    | returned => simp [List.isPrefixOf, hn', hr']
    | char _ hmore => rw [List.isPrefixOf, List.isPrefixOf, ih hn.2 hr.2 hmore]

theorem delimited?_eq {close : Char} (hn : close ≠ '\n') (hr : close ≠ '\r') (hs : close ≠ '\\')
    (h : SameLine text text') : delimited? close text' = delimited? close text := by
  have hline (more : List Char) : delimited? close ('\n' :: more) = none := by
    rw [delimited?.eq_def]
    rfl
  have hescape (more : List Char) : delimited? close ('\\' :: '\n' :: more) = none := by
    rw [delimited?.eq_def]
    simp [hs.symm]
  -- not on the texts themselves, because a backslash takes a second character along
  induction hlength : text.length using Nat.strongRecOn generalizing text text' with
  | ind n ih =>
    subst hlength
    cases h with
    | nil => rfl
    | newline => rw [hline, hline]
    | returned => rw [hline, delimited?_plain hr.symm (by decide) (by decide), hline]; rfl
    | @char ch text text' hch hmore =>
      by_cases hclose : ch = close
      · rw [hclose, delimited?_close hn, delimited?_close hn]
      by_cases hslash : ch = '\\'
      · subst hslash
        cases hmore with
        | nil => rfl
        | newline => rw [hescape, hescape]
        | returned => rw [hescape, delimited?_escape hs (by decide), hline]; rfl
        | char htaken hmore =>
          rw [delimited?_escape hs htaken, delimited?_escape hs htaken, ih _ _ hmore rfl]
          exact Nat.lt_succ_of_lt (Nat.lt_succ_self _)
      · rw [delimited?_plain hclose hch hslash, delimited?_plain hclose hch hslash,
          ih _ _ hmore rfl]
        exact Nat.lt_succ_self _

end SameLine

theorem Alignment.Beside.sameLine {src src' : Source} {s : Alignment src src'} {c c' : Cursor}
    (h : s.Beside c c') : SameLine c.rest c'.rest := by
  induction h with
  | @lineEnd e e' h =>
    have hend := s.atLineEnd h
    cases he : e.current? with
    | none =>
      have he' := (s.current?_eq h).trans he
      rw [List.head?_eq_none_iff.1 he, List.head?_eq_none_iff.1 he']
      exact .nil
    | some ch =>
      have hch : ch = '\n' := by
        apply Decidable.byContradiction
        exact fun hn => not_atLineEnd he hn hend
      rw [rest_of_current? he, rest_of_current? ((s.current?_eq h).trans he), hch]
      exact .newline
  | returned _ hc hc' _ h =>
    have hn := (s.current?_eq h).trans hc
    rw [rest_of_current? hc, rest_of_current? hc', rest_of_current? hn]
    exact .returned
  | char hc hc' hn _ _ _ _ _ ih =>
    rw [rest_of_current? hc, rest_of_current? hc']
    exact .char hn ih

def Diagnostic.mapPosition (f : Position → Position) (d : Diagnostic) : Diagnostic :=
  { d with position := f d.position }

inductive Reading.Aligned {src src' : Source} (s : Alignment src src') {α : Type} (f : α → α)
    (together : Cursor → Cursor → Prop) : Reading α → Reading α → Prop
  | done {x c c'} : together c c' → Aligned s f together (.done x c) (.done (f x) c')
  | failed {d c c'} : s.Beside c c' →
    Aligned s f together (.failed d c) (.failed (d.mapPosition s.move) c')

namespace Term

variable {src src' : Source} {s : Alignment src src'} {c c' : Cursor}

theorem mapPosition_collapse (f : Position → Position) (kind : Kind) (p : Position)
    (ts : List Term) :
    (collapse kind p ts).mapPosition f = collapse kind (f p) (mapPositionAll f ts) := by
  match ts with
  | [] => rfl
  | [t] => rfl
  | t :: t' :: ts => rfl

theorem failed_aligned {α : Type} {f : α → α} {together : Cursor → Cursor → Prop}
    (problem : Problem) (h : s.Settled c c') :
    Reading.Aligned s f together (.failed ⟨c.position, problem⟩ c)
      (.failed ⟨c'.position, problem⟩ c') := by
  rw [h.position_eq]
  exact .failed h.beside

theorem choiceWithin_of_nil (src : Source) (margin : Nat) (limit : Int) (levels : Nat)
    (hc : c.rest = []) :
    choiceWithin src margin limit levels c = .failed ⟨c.position, .expectedTerm⟩ c := by
  have hparts (group : Cursor → Reading Term) : readParts src margin group c = .done [] c := by
    rw [readParts, current?, hc]
    rfl
  cases levels with
  | zero => rw [choiceWithin, readChoice, readAlternatives, readSequence, hparts]
  | succ levels => rw [choiceWithin, readChoice, readAlternatives, readSequence, hparts]

theorem read_of_nil (src : Source) (limit : Int) (newlineFirst : Bool) (hc : c.rest = []) :
    read src limit newlineFirst c = .failed ⟨c.position, .expectedTerm⟩ c := by
  have hend : c.atLineEnd := by simp [atLineEnd, hc]
  have hcurrent : c.current? = none := by simp [current?, hc]
  have hfirst : c.skipContinuedBlanks.skipComment = c := by
    rw [skipContinuedBlanks_eq_self (continuedBlanks_of_atLineEnd hend),
      skipComment_of_atLineEnd hend]
  have hgap (margin : Nat) : c.skipGap src margin = c := by
    rw [skipGap, hfirst, dif_neg (by simp [hcurrent])]
  rw [read, hfirst]
  dsimp only
  split
  · rfl
  · rw [hgap, if_neg (by simp [hcurrent]), choiceWithin_of_nil _ _ _ _ hc]

theorem readReference_aligned (h : s.Settled c c') :
    Reading.Aligned s (mapPosition s.move) s.Beside (readReference c) (readReference c') := by
  have hn := newline_not_mem_take_dottedName c.rest
  have hline := h.beside.sameLine
  have hdrop := h.beside.drop _ (List.take_append_drop (dottedName c.rest) c.rest).symm hn
  rw [List.length_take_of_le (dottedName_le c.rest)] at hdrop
  rw [readReference, readReference, hline.dottedName_eq, hline.take_eq hn, h.position_eq]
  exact .done hdrop

theorem readDelimited_aligned {close : Char} (hn : close ≠ '\n') (hr : close ≠ '\r')
    (hs : close ≠ '\\') (kind : Kind) (value : List Char → List Char) (unterminated empty : Problem)
    (h : s.Settled c c') {ch : Char} (hc : c.current? = some ch) (hch : ch ≠ '\n') :
    Reading.Aligned s (mapPosition s.move) s.Beside
      (readDelimited close kind value unterminated empty c)
      (readDelimited close kind value unterminated empty c') := by
  have hnext := h.beside.next hc hch
  rw [readDelimited, readDelimited, hnext.sameLine.delimited?_eq hn hr hs, h.position_eq]
  cases hbody : delimited? close c.next.rest with
  | none => exact .failed h.beside.settled_skipLine.beside
  | some body =>
    have hdrop : s.Beside (c.drop (body.length + 2)) (c'.drop (body.length + 2)) := by
      obtain ⟨henclosed, more, hmore⟩ := enclosed_of_delimited? hbody
      have hrest : c.rest = (ch :: (body ++ [close])) ++ more := by
        rw [rest_of_current? hc, hmore]
        simp
      have hword : '\n' ∉ ch :: (body ++ [close]) := by
        simp [Ne.symm hch, Ne.symm hn, newline_not_mem_of_isEnclosed henclosed]
      simpa using h.beside.drop _ hrest hword
    cases body with
    | nil => exact .failed hdrop
    | cons first body => exact .done hdrop

variable {margin levels : Nat} {group group' : Cursor → Reading Term}

structure GroupsAligned (s : Alignment src src') (margin levels : Nat)
    (group group' : Cursor → Reading Term) :
    Prop where
  reads : ReadsGroups src margin levels group
  reads' : ReadsGroups src' (margin + 4 * s.levels) levels group'
  aligned : ∀ {c c'}, s.Settled c c' → c.current? = some '(' →
    Reading.Aligned s (mapPosition s.move) s.Beside (group c) (group' c')

theorem readAtom_aligned (hg : GroupsAligned s margin levels group group') (h : s.Settled c c') :
    Reading.Aligned s (mapPosition s.move) s.Beside (readAtom group c) (readAtom group' c') := by
  rw [readAtom, readAtom, h.current?_eq]
  cases hc : c.current? with
  | none => exact failed_aligned _ h
  | some ch =>
    dsimp only
    split
    · exact readReference_aligned h
    split
    · next hquote =>
      rcases hquote with rfl | rfl
      · exact readDelimited_aligned (by decide) (by decide) (by decide) _ _ _ _ h hc (by decide)
      · exact readDelimited_aligned (by decide) (by decide) (by decide) _ _ _ _ h hc (by decide)
    split
    · next hbracket =>
      subst hbracket
      exact readDelimited_aligned (by decide) (by decide) (by decide) _ _ _ _ h hc (by decide)
    split
    · next hdot =>
      subst hdot
      rw [h.position_eq]
      exact .done (h.beside.next hc (by decide))
    split
    · next hparen =>
      subst hparen
      exact hg.aligned h hc
    · exact failed_aligned _ h

variable (hs : s.Connected)

include hs

theorem readRepeated_aligned (hg : GroupsAligned s margin levels group group')
    (h : s.Settled c c') :
    Reading.Aligned s (mapPosition s.move) s.Settled (readRepeated src margin group c)
      (readRepeated src' (margin + 4 * s.levels) group' c') := by
  have hatom := readAtom_aligned hg h
  rw [readRepeated, readRepeated]
  generalize readAtom group c = r at hatom ⊢
  generalize readAtom group' c' = r' at hatom ⊢
  cases hatom with
  | failed hd => exact .failed hd
  | @done t d d' hd =>
    dsimp only
    rw [hd.current?_congr (·.bind Repetition.ofSymbol?) rfl]
    cases hr : d.current?.bind Repetition.ofSymbol? with
    | none => exact .done (hs.skipGap hd margin)
    | some r =>
      have hnext := hd.next (current?_of_bind symbol_of_repetition hr) (by cases r <;> decide)
      rw [h.position_eq]
      exact .done (hs.skipGap hnext margin)

theorem readPart_aligned (hg : GroupsAligned s margin levels group group') (h : s.Settled c c') :
    Reading.Aligned s (mapPosition s.move) s.Settled (readPart src margin group c)
      (readPart src' (margin + 4 * s.levels) group' c') := by
  rw [readPart, readPart, h.current?_eq]
  cases hp : c.current?.bind Predicate.ofSymbol? with
  | none => exact readRepeated_aligned hs hg h
  | some p =>
    have hnext := h.beside.next (current?_of_bind symbol_of_predicate hp) (by cases p <;> decide)
    have hrepeated := readRepeated_aligned hs hg (hs.skipGap hnext margin)
    dsimp only
    generalize readRepeated src margin group _ = r at hrepeated ⊢
    generalize readRepeated src' _ group' _ = r' at hrepeated ⊢
    cases hrepeated with
    | failed hd => exact .failed hd
    | done hd =>
      rw [h.position_eq]
      exact .done hd

theorem readParts_aligned (hg : GroupsAligned s margin levels group group') (h : s.Settled c c') :
    Reading.Aligned s (mapPositionAll s.move) s.Settled (readParts src margin group c)
      (readParts src' (margin + 4 * s.levels) group' c') := by
  induction hn : c.rest.length using Nat.strongRecOn generalizing c c' with
  | ind n ih =>
    subst hn
    rw [readParts_eq hg.reads, readParts_eq hg.reads', h.current?_eq]
    split
    · have hpart := readPart_aligned hs hg h
      have hlt {t d} (hd : readPart src margin group c = .done t d) :=
        (part_of_readPart hg.reads hd).length_lt
      generalize readPart src margin group c = r at hpart hlt ⊢
      generalize readPart src' _ group' c' = r' at hpart ⊢
      cases hpart with
      | failed hd => exact .failed hd
      | @done t d d' hd =>
        have hparts := ih _ (hlt rfl) hd rfl
        dsimp only
        generalize readParts src margin group d = q at hparts ⊢
        generalize readParts src' _ group' d' = q' at hparts ⊢
        cases hparts with
        | failed he => exact .failed he
        | done he => exact .done he
    · exact .done h

theorem readSequence_aligned (hg : GroupsAligned s margin levels group group')
    (h : s.Settled c c') :
    Reading.Aligned s (mapPosition s.move) s.Settled (readSequence src margin group c)
      (readSequence src' (margin + 4 * s.levels) group' c') := by
  have hparts := readParts_aligned hs hg h
  rw [readSequence, readSequence]
  generalize readParts src margin group c = r at hparts ⊢
  generalize readParts src' _ group' c' = r' at hparts ⊢
  cases hparts with
  | failed hd => exact .failed hd
  | @done ts d d' hd =>
    cases ts with
    | nil => exact failed_aligned _ hd
    | cons t ts =>
      rw [h.position_eq]
      dsimp only [mapPositionAll]
      rw [← mapPositionAll, ← mapPosition_collapse]
      exact .done hd

theorem readAlternatives_aligned (hg : GroupsAligned s margin levels group group')
    (h : s.Settled c c') :
    Reading.Aligned s (mapPositionAll s.move) s.Settled (readAlternatives src margin group c)
      (readAlternatives src' (margin + 4 * s.levels) group' c') := by
  induction hn : c.rest.length using Nat.strongRecOn generalizing c c' with
  | ind n ih =>
    subst hn
    rw [readAlternatives_eq hg.reads, readAlternatives_eq hg.reads']
    have hsequence := readSequence_aligned hs hg h
    have hlt {t d} (hd : readSequence src margin group c = .done t d) :=
      (sequence_of_readSequence hg.reads hd).length_lt
    generalize readSequence src margin group c = r at hsequence hlt ⊢
    generalize readSequence src' _ group' c' = r' at hsequence ⊢
    cases hsequence with
    | failed hd => exact .failed hd
    | @done t d d' hd =>
      dsimp only
      rw [hd.current?_eq]
      split
      · next hbar =>
        have hgap := hs.skipGap (hd.beside.next hbar (by decide)) margin
        have hmore :=
          ih _ (Nat.lt_trans (length_skipGap_next_lt src margin hbar) (hlt rfl)) hgap rfl
        generalize readAlternatives src margin group _ = q at hmore ⊢
        generalize readAlternatives src' _ group' _ = q' at hmore ⊢
        cases hmore with
        | failed he => exact .failed he
        | done he => exact .done he
      · exact .done hd

theorem readChoice_aligned (hg : GroupsAligned s margin levels group group') (h : s.Settled c c') :
    Reading.Aligned s (mapPosition s.move) s.Settled (readChoice src margin group c)
      (readChoice src' (margin + 4 * s.levels) group' c') := by
  have halternatives := readAlternatives_aligned hs hg h
  rw [readChoice, readChoice]
  generalize readAlternatives src margin group c = r at halternatives ⊢
  generalize readAlternatives src' _ group' c' = r' at halternatives ⊢
  cases halternatives with
  | failed hd => exact .failed hd
  | done hd =>
    dsimp only
    rw [h.position_eq, ← mapPosition_collapse]
    exact .done hd

theorem readGroup_aligned {inner inner' : Cursor → Reading Term}
    (hi : ∀ {c c'}, s.Settled c c' →
      Reading.Aligned s (mapPosition s.move) s.Settled (inner c) (inner' c'))
    (h : s.Settled c c') (hc : c.current? = some '(') :
    Reading.Aligned s (mapPosition s.move) s.Beside (readGroup src margin inner c)
      (readGroup src' (margin + 4 * s.levels) inner' c') := by
  have hinner := hi (hs.skipGap (h.beside.next hc (by decide)) margin)
  rw [readGroup, readGroup]
  generalize inner _ = r at hinner ⊢
  generalize inner' _ = r' at hinner ⊢
  cases hinner with
  | failed hd => exact .failed hd
  | done hd =>
    dsimp only
    rw [hd.current?_eq]
    split
    · next hclose => exact .done (hd.beside.next hclose (by decide))
    · exact failed_aligned _ hd

theorem choiceWithin_aligned (limit : Int) (levels : Nat) (h : s.Settled c c') :
    Reading.Aligned s (mapPosition s.move) s.Settled (choiceWithin src margin limit levels c)
      (choiceWithin src' (margin + 4 * s.levels) limit levels c') := by
  induction levels generalizing c c' with
  | zero =>
    have hg : GroupsAligned s margin 0 (fun c => .failed ⟨c.position, .tooDeep limit⟩ c)
        (fun c => .failed ⟨c.position, .tooDeep limit⟩ c) := by
      refine ⟨?_, ?_, fun h _ => failed_aligned (.tooDeep limit) h⟩
      · intro c t d _ hd
        simp at hd
      · intro c t d _ hd
        simp at hd
    exact readChoice_aligned hs hg h
  | succ levels ih =>
    have hg : GroupsAligned s margin (levels + 1)
        (readGroup src margin (choiceWithin src margin limit levels))
        (readGroup src' (margin + 4 * s.levels)
          (choiceWithin src' (margin + 4 * s.levels) limit levels)) := by
      refine ⟨?_, ?_, fun h hc => readGroup_aligned hs ih h hc⟩
      · exact readsGroups_readGroup fun _ _ _ => choice_of_choiceWithin limit levels
      · exact readsGroups_readGroup fun _ _ _ => choice_of_choiceWithin limit levels
    exact readChoice_aligned hs hg h

theorem read_aligned (limit : Int) (newlineFirst : Bool) (h : s.Beside c c') :
    Reading.Aligned s (mapPosition s.move) s.Settled (read src limit newlineFirst c)
      (read src' limit newlineFirst c') := by
  -- at the end of the sources the lines need not be indented alike, but nothing is read there
  by_cases hnil : c.rest = []
  · have hsettled := h.settled_of_ne (by simp [current?, hnil])
    have hnil' : c'.rest = [] := by
      rw [← List.head?_eq_none_iff, ← current?, hsettled.current?_eq, current?, hnil]
      rfl
    rw [read_of_nil src limit newlineFirst hnil, read_of_nil src' limit newlineFirst hnil']
    exact failed_aligned _ hsettled
  have hfirst := (hs.skipContinuedBlanks h).skipComment
  rw [read, read, h.indentation_eq hnil, hfirst.atLineEnd_eq]
  dsimp only
  split
  · exact failed_aligned _ hfirst
  have hgap := hs.skipGap hfirst.beside (src.indentation c.position.line)
  generalize c.skipContinuedBlanks.skipComment.skipGap _ _ = d at hgap ⊢
  generalize c'.skipContinuedBlanks.skipComment.skipGap _ _ = d' at hgap ⊢
  have hchoice : Reading.Aligned s (mapPosition s.move) s.Settled
      (choiceWithin src (src.indentation c.position.line) limit limit.toNat
        (if d.current? = some '|' then d.next.skipGap src (src.indentation c.position.line) else d))
      (choiceWithin src' (src.indentation c.position.line + 4 * s.levels) limit limit.toNat
        (if d'.current? = some '|' then
          d'.next.skipGap src' (src.indentation c.position.line + 4 * s.levels)
          else d')) := by
    rw [hgap.current?_eq]
    split
    · next hbar =>
      exact choiceWithin_aligned hs _ _ (hs.skipGap (hgap.beside.next hbar (by decide)) _)
    · exact choiceWithin_aligned hs _ _ hgap
  generalize choiceWithin src _ limit _ _ = r at hchoice ⊢
  generalize choiceWithin src' _ limit _ _ = r' at hchoice ⊢
  cases hchoice with
  | failed he => exact .failed he
  | @done t e e' he =>
    dsimp only
    rw [he.current?_eq]
    split
    · exact .done he
    · exact .done he
    · exact failed_aligned _ he

end Term

end IndentedGrammar
