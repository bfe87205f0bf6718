import IndentedGrammar.Proofs.Source.Content

namespace IndentedGrammar

open Cursor

/-- Blanks, continued line ends, comments with the newline behind them, and newlines below which the
first content line is deeper than `margin`. Behind the gap the source goes on with `behind`. -/
inductive Gap (margin : Nat) (behind : List Char) : List Char → Prop
  | nil : Gap margin behind []
  | blank {ch gap} : isBlank ch → Gap margin behind gap → Gap margin behind (ch :: gap)
  | continued {gap} : Gap margin behind gap → Gap margin behind ('\\' :: '\n' :: gap)
  | returned {gap} : Gap margin behind gap → Gap margin behind ('\\' :: '\r' :: '\n' :: gap)
  | comment {text gap} : '\n' ∉ text → Gap margin behind ('\n' :: gap) →
      Gap margin behind ('#' :: (text ++ '\n' :: gap))
  | newline {gap} : margin < contentIndentation (splitLines (gap ++ behind)) →
      Gap margin behind gap → Gap margin behind ('\n' :: gap)

theorem Gap.head {margin : Nat} {behind gap : List Char} (h : Gap margin behind gap) (hne : gap ≠ []) :
    ∃ ch text, gap = ch :: text ∧ isSolid ch = false := by
  cases h with
  | nil => exact absurd rfl hne
  | blank hch => exact ⟨_, _, rfl, by simp [isSolid, hch]⟩
  | continued | returned | comment | newline => exact ⟨_, _, rfl, rfl⟩

namespace Cursor

variable {src : Source} {margin : Nat} {c d : Cursor}

theorem skipGap_congr (h : c.skipContinuedBlanks = d.skipContinuedBlanks) :
    c.skipGap src margin = d.skipGap src margin := by
  rw [← skipGap_skipComment, h, skipGap_skipComment]

theorem skipGap_skipBlanks (src : Source) (margin : Nat) (c : Cursor) :
    c.skipBlanks.skipGap src margin = c.skipGap src margin :=
  skipGap_congr (skipContinuedBlanks_skipBlanks c)

theorem skipGap_blank {ch : Char} (h : c.current? = some ch) (hb : isBlank ch) :
    c.skipGap src margin = c.next.skipGap src margin := by
  rw [← skipGap_skipBlanks, skipBlanks_of_isBlank h hb, skipGap_skipBlanks]

theorem skipGap_continued {mark : List Char} (hmark : mark = ['\\', '\n'] ∨ mark = ['\\', '\r', '\n'])
    {text : List Char} (hc : c.rest = mark ++ text) :
    c.skipGap src margin = (c.drop mark.length).skipGap src margin := by
  apply skipGap_congr
  rw [skipContinuedBlanks, skipContinuedBlanks, rest_drop, hc, List.drop_left, drop_drop]
  rcases hmark with rfl | rfl
  · exact congrArg c.drop (Nat.add_comm ..)
  · exact congrArg c.drop (Nat.add_comm ..)

theorem skipGap_comment (h : c.current? = some '#') :
    c.skipGap src margin = c.skipLine.skipGap src margin := by
  have hself : c.skipContinuedBlanks = c := by
    rw [skipContinuedBlanks, rest_of_current? h]
    exact c.drop_zero
  rw [← skipGap_skipComment, hself, skipComment, if_pos h]

theorem skipComment_of_isBlankLine (h : isBlankLine (c.rest.takeWhile (· ≠ '\n'))) :
    c.skipContinuedBlanks.skipComment = c.skipLine := by
  have hcurrent {ch : Char} (hch : c.skipBlanks.current? = some ch) (hn : ch ≠ '\n') : ch = '#' := by
    have hrest : c.rest = c.rest.takeWhile isBlank ++ ch :: c.skipBlanks.next.rest := by
      rw [← rest_of_current? hch, rest_skipBlanks, List.takeWhile_append_dropWhile]
    rw [hrest, List.takeWhile_append_of_pos, List.takeWhile_cons_of_pos (by simpa using hn),
      isBlankLine_blanks List.all_takeWhile (not_isBlank_skipBlanks hch)] at h
    · exact h
    · intro b hb
      have hblank := List.all_eq_true.1 List.all_takeWhile b hb
      simpa using fun e : b = '\n' => absurd (e ▸ hblank) (by decide)
  have hcontinued : ¬ c.skipBlanks.continuesLine :=
    fun hcont => absurd (hcurrent hcont.1 (by decide)) (by decide)
  rw [skipContinuedBlanks_of_not_continuesLine hcontinued, ← skipLine_skipBlanks]
  by_cases hend : c.skipBlanks.atLineEnd
  · rw [skipComment_of_atLineEnd hend, skipLine_of_atLineEnd hend]
  · obtain ⟨ch, hch, hn⟩ := exists_of_not_atLineEnd hend
    rw [skipComment, if_pos (hcurrent hch hn ▸ hch)]

theorem skipGap_of_isBlankLine (hin : c.IsIn src) {line text : List Char} (hline : '\n' ∉ line)
    (hblank : isBlankLine line) (hc : c.rest = line ++ '\n' :: text)
    (h : contentIndentation (splitLines text) ≤ margin) :
    c.skipGap src margin = c.drop line.length := by
  have htake : c.rest.takeWhile (· ≠ '\n') = line := by
    have hall : ∀ b ∈ line, b ≠ '\n' := fun b hb e => hline (e ▸ hb)
    rw [hc, List.takeWhile_append_of_pos (by simpa using hall), List.takeWhile_cons_of_neg (by simp),
      List.append_nil]
  have hskip : c.skipLine = c.drop line.length := by rw [skipLine, htake]
  rw [skipGap_eq hin, skipComment_of_isBlankLine (htake.symm ▸ hblank), hskip, rest_drop, hc,
    List.drop_left, if_neg]
  rintro ⟨-, hdeep⟩
  exact Nat.not_lt_of_le h hdeep

theorem skipGap_skipInsignificant (hin : c.IsIn src)
    (h : margin < contentIndentation (splitLines c.rest)) :
    c.skipInsignificant.skipGap src margin = c.skipGap src margin := by
  have hline := newline_not_mem_takeWhile c.rest
  have hsplit : c.rest = c.rest.takeWhile (· ≠ '\n') ++ c.skipLine.rest := by
    rw [rest_skipLine, List.takeWhile_append_dropWhile]
  by_cases hblank : isBlankLine (c.rest.takeWhile (· ≠ '\n'))
  · rcases rest_of_atLineEnd c.atLineEnd_skipLine with hnil | ⟨text, htext⟩
    · rw [hnil, List.append_nil] at hsplit
      rw [hsplit, splitLines_of_not_mem hline, contentIndentation, if_pos hblank] at h
      exact absurd h (Nat.not_lt_zero _)
    · rw [htext] at hsplit
      rw [hsplit, splitLines_line hline, contentIndentation, if_pos hblank] at h
      have hskip : c.skipInsignificant = c.skipLine.skipInsignificant := by
        have hlength := insignificant_blankLine hblank hline text
        rw [← hsplit] at hlength
        rw [skipInsignificant, hlength, skipInsignificant, htext, skipLine, drop_drop, insignificant,
          if_pos rfl, Nat.add_right_comm, Nat.add_assoc]
      have hcurrent : c.skipLine.current? = some '\n' := by rw [current?, htext]; rfl
      rw [skipGap_eq hin, skipComment_of_isBlankLine hblank, if_pos ⟨hcurrent, by rwa [htext]⟩, hskip]
  · have hskip : c.skipInsignificant = c.skipBlanks := by
      have hlength := insignificant_contentLine hblank hline c.skipLine.rest
      rw [← hsplit] at hlength
      rw [skipInsignificant, hlength, skipBlanks]
    rw [hskip, skipGap_skipBlanks]

theorem skipGap_newline (hin : c.IsIn src) {text : List Char} (hc : c.rest = '\n' :: text)
    (h : margin < contentIndentation (splitLines text)) :
    c.skipGap src margin = c.next.skipGap src margin := by
  have hcurrent : c.current? = some '\n' := by rw [current?, hc]; rfl
  have hend := atLineEnd_of_newline hcurrent
  have hnext : c.next.rest = text := by rw [next, rest_drop, hc]; rfl
  have hahead : margin < aheadIndentation c.rest := by rwa [hc, aheadIndentation]
  have hskip : c.skipInsignificant = c.next.skipInsignificant := by
    rw [skipInsignificant, hc, insignificant, if_pos rfl, drop_add_one, ← hnext]
    rfl
  have hin' : c.next.IsIn src := hin.drop 1
  rw [skipGap_eq hin, skipContinuedBlanks_eq_self (continuedBlanks_of_atLineEnd hend),
    skipComment_of_atLineEnd hend, if_pos ⟨hcurrent, hahead⟩, hskip,
    skipGap_skipInsignificant hin' (hnext.symm ▸ h)]

theorem skipGap_of_gap {gap text : List Char} {ch : Char} (h : Gap margin (ch :: text) gap)
    (hin : c.IsIn src) (hc : c.rest = gap ++ ch :: text) (hch : isSolid ch) :
    c.skipGap src margin = c.drop gap.length := by
  -- each piece of the gap is passed over by itself
  have hpiece {c : Cursor} {gap : List Char} (piece : List Char) (hin : c.IsIn src)
      (hc : c.rest = piece ++ (gap ++ ch :: text))
      (hskip : c.skipGap src margin = (c.drop piece.length).skipGap src margin)
      (ih : ∀ {d : Cursor}, d.IsIn src → d.rest = gap ++ ch :: text →
        d.skipGap src margin = d.drop gap.length) :
      c.skipGap src margin = c.drop (piece ++ gap).length := by
    rw [hskip, ih (hin.drop _) (by rw [rest_drop, hc, List.drop_left]), drop_drop, List.length_append]
  induction h generalizing c with
  | nil => rw [skipGap_of_solid src margin hc hch, List.length_nil, drop_zero]
  | @blank b gap hb _ ih =>
    exact hpiece [b] hin hc (skipGap_blank (by rw [current?, hc]; rfl) hb) ih
  | continued _ ih => exact hpiece ['\\', '\n'] hin hc (skipGap_continued (.inl rfl) hc) ih
  | returned _ ih => exact hpiece ['\\', '\r', '\n'] hin hc (skipGap_continued (.inr rfl) hc) ih
  | @comment line gap hline _ ih =>
    have hc' : c.rest = '#' :: line ++ ('\n' :: gap ++ ch :: text) := by simp [hc]
    have hskip : c.skipLine = c.drop ('#' :: line).length := by
      have hline' : ∀ b ∈ '#' :: line, b ≠ '\n' := by
        rintro b hb rfl
        simp [hline] at hb
      rw [skipLine, hc', List.takeWhile_append_of_pos (by simpa using hline')]
      simp
    exact hpiece ('#' :: line) hin hc'
      (hskip ▸ skipGap_comment (by rw [current?, hc]; rfl)) ih
  | newline hdeep _ ih => exact hpiece ['\n'] hin hc (skipGap_newline hin hc hdeep) ih

end Cursor

end IndentedGrammar
