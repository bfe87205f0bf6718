import IndentedGrammar.Proofs.Source.Block
import IndentedGrammar.Proofs.Source.Gap
import Mathlib.Logic.Relation

namespace IndentedGrammar.Cursor

/-- One piece of a gap: a blank, the end of a continued line, a comment up to the end of its line, or a
newline below which the first content line is indented deeper than the given line. -/
inductive Crosses (src : Source) (line : Int) (c : Cursor) : Cursor → Prop
  | blank {ch} : c.current? = some ch → isBlank ch → Crosses src line c c.next
  | continued {text} : c.rest = '\\' :: '\n' :: text → Crosses src line c (c.drop 2)
  | returned {text} : c.rest = '\\' :: '\r' :: '\n' :: text → Crosses src line c (c.drop 3)
  | comment : c.current? = some '#' → Crosses src line c c.skipLine
  | newline {n} : c.current? = some '\n' → src.FirstContent c.position.line n →
      src.indentation line < src.indentation n → Crosses src line c c.next

structure AtGapEnd (src : Source) (line : Int) (c : Cursor) : Prop where
  not_blank : ∀ ch, c.current? = some ch → ¬ isBlank ch
  not_continued : ¬ c.continuesLine
  not_comment : c.current? ≠ some '#'
  shallow : c.current? = some '\n' → c.Shallow src (src.indentation line)

variable {src : Source} {line : Int} {c d : Cursor}

namespace Crosses

theorem exists_of_continuesLine (h : c.continuesLine) : ∃ d, c.Crosses src line d := by
  rcases rest_of_continuesLine h with hc | hc
  · exact ⟨_, .continued hc⟩
  · exact ⟨_, .returned hc⟩

theorem reaches (h : c.Crosses src line d) : c.Reaches d := by
  cases h with
  | blank | newline => exact c.reaches_next
  | continued | returned => exact .drop c _
  | comment => exact c.reaches_skipLine

theorem length_lt (h : c.Crosses src line d) : d.rest.length < c.rest.length := by
  cases h with
  | blank hc | newline hc => exact length_next_lt hc
  | continued hc => exact length_drop_lt (Nat.succ_pos 1) (hc ▸ List.cons_ne_nil _ _)
  | returned hc => exact length_drop_lt (Nat.succ_pos 2) (hc ▸ List.cons_ne_nil _ _)
  | comment hc =>
    rw [skipLine_of_ne hc (by decide)]
    exact Nat.lt_of_le_of_lt (reaches_skipLine _).length_le (length_next_lt hc)

theorem skipGap_eq (h : c.Crosses src line d) (hin : c.IsIn src) :
    c.skipGap src (src.indentation line) = d.skipGap src (src.indentation line) := by
  cases h with
  | blank hc hb => exact skipGap_blank hc hb
  | continued hc => exact skipGap_continued (.inl rfl) hc
  | returned hc => exact skipGap_continued (.inr rfl) hc
  | comment hc => exact skipGap_comment hc
  | newline hc hfirst hdeep =>
    have hrest := rest_of_current? hc
    have hahead := mt (shallow_iff hin _).2 (not_shallow_iff.2 ⟨_, hfirst, hdeep⟩)
    rw [hrest] at hahead
    exact skipGap_newline hin hrest (Nat.not_le.1 hahead)

end Crosses

theorem atGapEnd_or_crosses (src : Source) (line : Int) (c : Cursor) :
    c.AtGapEnd src line ∨ ∃ d, c.Crosses src line d := by
  by_cases hb : ∃ ch, c.current? = some ch ∧ isBlank ch
  · obtain ⟨ch, hc, hb⟩ := hb
    exact .inr ⟨_, .blank hc hb⟩
  by_cases hs : c.continuesLine
  · exact .inr (Crosses.exists_of_continuesLine hs)
  by_cases hcomment : c.current? = some '#'
  · exact .inr ⟨_, .comment hcomment⟩
  by_cases hshallow : c.current? = some '\n' → c.Shallow src (src.indentation line)
  · exact .inl ⟨fun ch hc hblank => hb ⟨ch, hc, hblank⟩, hs, hcomment, hshallow⟩
  · obtain ⟨hn, hdeep⟩ := Classical.not_imp.1 hshallow
    obtain ⟨n, hfirst, hlt⟩ := not_shallow_iff.1 hdeep
    exact .inr ⟨_, .newline hn hfirst hlt⟩

theorem AtGapEnd.skipGap_eq (h : c.AtGapEnd src line) (hin : c.IsIn src) :
    c.skipGap src (src.indentation line) = c := by
  have hblanks : c.skipContinuedBlanks = c :=
    skipContinuedBlanks_eq_self (continuedBlanks_eq_zero h.not_blank h.not_continued)
  have hcomment : c.skipComment = c := if_neg h.not_comment
  rw [Cursor.skipGap_eq hin, hblanks, hcomment, if_neg]
  rintro ⟨hn, hdeep⟩
  exact Nat.not_le.2 hdeep ((shallow_iff hin _).1 (h.shallow hn))

theorem exists_crossing (src : Source) (line : Int) (c : Cursor) :
    ∃ d, Relation.ReflTransGen (Crosses src line) c d ∧ d.AtGapEnd src line := by
  induction hlength : c.rest.length using Nat.strongRecOn generalizing c with
  | ind length ih =>
    subst hlength
    rcases atGapEnd_or_crosses src line c with hend | ⟨d, hcross⟩
    · exact ⟨c, .refl, hend⟩
    · obtain ⟨e, hmore, hend⟩ := ih _ hcross.length_lt d rfl
      exact ⟨e, .head hcross hmore, hend⟩

theorem isIn_of_crossing (hin : c.IsIn src) (h : Relation.ReflTransGen (Crosses src line) c d) :
    d.IsIn src := by
  induction h with
  | refl => exact hin
  | tail _ hcross ih => exact ih.reaches hcross.reaches

theorem skipGap_eq_of_crossing (hin : c.IsIn src)
    (h : Relation.ReflTransGen (Crosses src line) c d) :
    c.skipGap src (src.indentation line) = d.skipGap src (src.indentation line) := by
  induction h with
  | refl => rfl
  | tail hcross hlast ih => exact ih.trans (hlast.skipGap_eq (isIn_of_crossing hin hcross))

theorem skipGap_eq_of_atGapEnd (hin : c.IsIn src)
    (hcross : Relation.ReflTransGen (Crosses src line) c d) (hend : d.AtGapEnd src line) :
    c.skipGap src (src.indentation line) = d :=
  (skipGap_eq_of_crossing hin hcross).trans (hend.skipGap_eq (isIn_of_crossing hin hcross))

/-- The end of a gap is where its pieces lead, and there nothing is left to skip. -/
theorem skipGap_endsGap (hin : c.IsIn src) (line : Int) :
    let skip (c : Cursor) := c.skipGap src (src.indentation line)
    (∀ d, skip c = d ↔
      Relation.ReflTransGen (Crosses src line) c d ∧ d.AtGapEnd src line) ∧
    skip (skip c) = skip c := by
  intro skip
  obtain ⟨e, hcross, hend⟩ := exists_crossing src line c
  have he : skip c = e := skipGap_eq_of_atGapEnd hin hcross hend
  rw [he]
  refine ⟨fun d => ⟨?_, fun h => ?_⟩, hend.skipGap_eq (isIn_of_crossing hin hcross)⟩
  · rintro rfl
    exact ⟨hcross, hend⟩
  · exact he.symm.trans (skipGap_eq_of_atGapEnd hin h.1 h.2)

theorem skipGap_endsGap_continued :
    let src := Source.ofText
      ['b', '\\', '\n', '#', 'c', '\n', '\n', '\t', '\\', '\r', '\n', ' ', '|'] none
    let c := (start src.text).next
    c.IsIn src ∧ c.skipGap src (src.indentation 1) = c.drop 11 ∧ (c.drop 11).current? = some '|' := by
  intro src c
  have hin : c.IsIn src := (IsIn.start src).drop 1
  obtain ⟨hends, -⟩ := skipGap_endsGap hin 1
  have hcontent {m : Int} (h : src.nextContentLine m = some 4) : src.FirstContent m 4 :=
    Source.nextContentLine_eq_some_iff.1 h
  refine ⟨hin, (hends (c.drop 11)).2 ⟨?_, ?_⟩, rfl⟩
  · calc Relation.ReflTransGen (Crosses src 1) c (c.drop 2) := .single (.continued rfl)
      Relation.ReflTransGen (Crosses src 1) _ (c.drop 4) := .single (.comment rfl)
      Relation.ReflTransGen (Crosses src 1) _ (c.drop 5) :=
        .single (.newline rfl (hcontent rfl) (by decide))
      Relation.ReflTransGen (Crosses src 1) _ (c.drop 6) :=
        .single (.newline rfl (hcontent rfl) (by decide))
      Relation.ReflTransGen (Crosses src 1) _ (c.drop 7) := .single (.blank rfl rfl)
      Relation.ReflTransGen (Crosses src 1) _ (c.drop 10) := .single (.returned rfl)
      Relation.ReflTransGen (Crosses src 1) _ (c.drop 11) := .single (.blank rfl rfl)
  · refine ⟨?_, ?_, by decide, ?_⟩
    · rintro ch ⟨⟩
      decide
    · rintro ⟨⟨⟩, -⟩
    · rintro ⟨⟩

end IndentedGrammar.Cursor
