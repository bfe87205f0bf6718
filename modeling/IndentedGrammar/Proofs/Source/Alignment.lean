import IndentedGrammar.Proofs.Source.Layout

/-! Two sources whose lines go on alike. An alignment says which line ends belong together;
two cursors are beside each other if they have the same characters before them up to such
line ends. All movements of cursors keep them so, however differently the lines around them
are indented or counted. -/

namespace IndentedGrammar

open Cursor

structure Alignment (src src' : Source) where
  move : Position → Position
  levels : Nat
  /-- Whether lines of the second source have a carriage return at their end. No line of the first
  has any carriage returns then. -/
  returns : Bool
  Ends : Cursor → Cursor → Prop
  isIn : ∀ {e e'}, Ends e e' → e.IsIn src ∧ e'.IsIn src'
  atLineEnd : ∀ {e e'}, Ends e e' → e.atLineEnd
  current?_eq : ∀ {e e'}, Ends e e' → e'.current? = e.current?
  position_eq : ∀ {e e'}, Ends e e' → e'.position = move e.position
  /-- An empty line at the end of the second source need not be indented. -/
  indentation_eq : ∀ {e e'}, Ends e e' → e.rest ≠ [] ∨ src.line e.position.line ≠ [] →
    src'.indentation e'.position.line = src.indentation e.position.line + 4 * levels
  ahead : ∀ {e e'}, Ends e e' → ∀ margin,
    margin + 4 * levels < aheadIndentation e'.rest ↔ margin < aheadIndentation e.rest

namespace Alignment

variable {src src' : Source} (s : Alignment src src')

inductive Beside : Cursor → Cursor → Prop
  | lineEnd {e e'} : s.Ends e e' → Beside e e'
  | returned {c c'} : s.returns → c.current? = some '\n' → c'.current? = some '\r' → c'.IsIn src' →
      s.Ends c c'.next → Beside c c'
  | char {c c' ch} : c.current? = some ch → c'.current? = some ch → ch ≠ '\n' →
      (s.returns → ch ≠ '\r') → c.IsIn src → c'.IsIn src' → c'.position = s.move c.position →
      Beside c.next c'.next → Beside c c'

/-- Beside each other, and not in front of a carriage return that only one of the sources has. -/
structure Settled (c c' : Cursor) : Prop where
  beside : s.Beside c c'
  current?_eq : c'.current? = c.current?
  position_eq : c'.position = s.move c.position

def Resumes (resume c c' : Cursor) : Prop := s.Settled c c' ∧ ¬ c.atLineEnd ∨ c.atEnd ∧ c' = resume

structure Connected : Prop where
  content : ∀ {e e'}, s.Ends e e' → 0 < aheadIndentation e.rest →
    s.Settled e.skipInsignificant e'.skipInsignificant
  continued : ∀ {c c'}, s.Beside c c' → c.continuesLine →
    s.Beside c.skipLine.next.skipBlanks c'.skipLine.next.skipBlanks

structure Relates (R : Cursor → Cursor → Prop) : Prop where
  ends : ∀ {c c'}, R c c' → c.atLineEnd → s.Ends c c'
  next : ∀ {c c' ch}, R c c' → c.current? = some ch → ch ≠ '\n' →
    c'.current? = some ch ∧ R c.next c'.next
  isIn : ∀ {c c'}, R c c' → c.IsIn src ∧ c'.IsIn src'
  position_eq : ∀ {c c'}, R c c' → c'.position = s.move c.position

variable {s} {c c' : Cursor}

theorem atLineEnd' {e e' : Cursor} (h : s.Ends e e') : e'.atLineEnd := by
  have hend := s.atLineEnd h
  rw [Cursor.atLineEnd, ← current?, s.current?_eq h]
  exact hend

namespace Beside

theorem isIn (h : s.Beside c c') : c.IsIn src ∧ c'.IsIn src' := by
  cases h with
  | lineEnd h => exact s.isIn h
  | returned _ hc _ hin' h => exact ⟨(s.isIn h).1, hin'⟩
  | char _ _ _ _ hin hin' _ _ => exact ⟨hin, hin'⟩

theorem ends_skipLine (h : s.Beside c c') : s.Ends c.skipLine c'.skipLine := by
  induction h with
  | lineEnd h =>
    rw [skipLine_of_atLineEnd (s.atLineEnd h), skipLine_of_atLineEnd (atLineEnd' h)]
    exact h
  | returned _ _ hc' _ h =>
    rw [skipLine_of_atLineEnd (s.atLineEnd h), skipLine_of_ne hc' (by decide),
      skipLine_of_atLineEnd (atLineEnd' h)]
    exact h
  | char hc hc' hn _ _ _ _ _ ih =>
    rw [skipLine_of_ne hc hn, skipLine_of_ne hc' hn]
    exact ih

theorem indentation_eq (h : s.Beside c c') (hc : c.rest ≠ []) :
    src'.indentation c'.position.line = src.indentation c.position.line + 4 * s.levels := by
  rw [← line_skipLine c, ← line_skipLine c', s.indentation_eq h.ends_skipLine]
  apply Decidable.or_iff_not_imp_left.2
  intro hlast
  have hrest := List.takeWhile_append_dropWhile (p := (· ≠ '\n')) (l := c.rest)
  rw [← rest_skipLine, Decidable.not_not.1 hlast, List.append_nil] at hrest
  obtain ⟨before, ht, hp⟩ := h.isIn.1.before
  rw [line_skipLine, IsIn.line_eq src c before ht hp, hrest]
  exact List.append_ne_nil_of_right_ne_nil _ hc

theorem current?_congr {α : Type} (f : Option Char → α) (hf : f (some '\r') = f (some '\n'))
    (h : s.Beside c c') : f c'.current? = f c.current? := by
  cases h with
  | lineEnd h => rw [s.current?_eq h]
  | returned _ hc hc' _ _ => rw [hc, hc', hf]
  | char hc hc' => rw [hc, hc']

theorem drop (h : s.Beside c c') (word : List Char) {more : List Char} (hc : c.rest = word ++ more)
    (hn : '\n' ∉ word) : s.Beside (c.drop word.length) (c'.drop word.length) := by
  induction word generalizing c c' with
  | nil => simpa using h
  | cons ch word ih =>
    rw [List.mem_cons, not_or] at hn
    have hcurrent : c.current? = some ch := by rw [current?, hc]; rfl
    rw [List.length_cons, drop_add_one, drop_add_one]
    cases h with
    | lineEnd h => exact absurd (s.atLineEnd h) (not_atLineEnd hcurrent (Ne.symm hn.1))
    | returned _ _ _ _ h => exact absurd (s.atLineEnd h) (not_atLineEnd hcurrent (Ne.symm hn.1))
    | char _ _ _ _ _ _ _ hnext =>
      apply ih hnext _ hn.2
      rw [Cursor.next, rest_drop, hc]
      rfl

theorem next {ch : Char} (h : s.Beside c c') (hc : c.current? = some ch) (hn : ch ≠ '\n') :
    s.Beside c.next c'.next :=
  h.drop [ch] (rest_of_current? hc) (by simpa using hn.symm)

theorem current?_eq (h : s.Beside c c') (hr : ¬ s.returns) : c'.current? = c.current? := by
  cases h with
  | lineEnd h => exact s.current?_eq h
  | returned hr' => exact absurd hr' hr
  | char hc hc' => rw [hc, hc']

theorem settled (h : s.Beside c c') (hc : c'.current? = c.current?) : s.Settled c c' := by
  refine ⟨h, hc, ?_⟩
  cases h with
  | lineEnd h => exact s.position_eq h
  | returned _ hn hr => simp [hn, hr] at hc
  | char _ _ _ _ _ _ hp _ => exact hp

theorem settled_of_ne (h : s.Beside c c') (hn : c.current? ≠ some '\n') : s.Settled c c' := by
  cases h with
  | lineEnd h => exact (Beside.lineEnd h).settled (s.current?_eq h)
  | returned _ hc => exact absurd hc hn
  | char hc hc' hn hr hin hin' hp hnext =>
    exact (Beside.char hc hc' hn hr hin hin' hp hnext).settled (hc'.trans hc.symm)

theorem endsLine_iff (h : s.Beside c c') : c'.endsLine ↔ c.endsLine := by
  cases h with
  | lineEnd h =>
    have hreturn {e : Cursor} (he : e.atLineEnd) : e.current? ≠ some '\r' :=
      fun h => not_atLineEnd h (by decide) he
    simp [endsLine, hreturn (s.atLineEnd h), s.current?_eq h]
  | returned _ hc hc' _ h => simp [endsLine, hc, hc', s.current?_eq h]
  | @char _ _ ch hc hc' hn hr _ _ _ hnext =>
    by_cases hch : ch = '\r'
    · simp [endsLine, hc, hc', hnext.current?_eq fun h => hr h hch]
    · simp [endsLine, hc, hc', hch]

theorem continuesLine_iff (h : s.Beside c c') : c'.continuesLine ↔ c.continuesLine := by
  have hcurrent := h.current?_congr (· = some '\\') (by simp)
  rw [continuesLine, continuesLine]
  constructor
  · rintro ⟨hc', hend⟩
    have hc : c.current? = some '\\' := hcurrent.mp hc'
    exact ⟨hc, (h.next hc (by decide)).endsLine_iff.1 hend⟩
  · rintro ⟨hc, hend⟩
    exact ⟨hcurrent.mpr hc, (h.next hc (by decide)).endsLine_iff.2 hend⟩

end Beside

theorem settled_of_ends {e e' : Cursor} (h : s.Ends e e') : s.Settled e e' :=
  ⟨.lineEnd h, s.current?_eq h, s.position_eq h⟩

theorem Relates.settled {R : Cursor → Cursor → Prop} (hR : s.Relates R) (hreturns : s.returns = false)
    (h : R c c') : s.Settled c c' := by
  induction hn : c.rest.length using Nat.strongRecOn generalizing c c' with
  | ind n ih =>
    subst hn
    by_cases hend : c.atLineEnd
    · exact settled_of_ends (hR.ends h hend)
    · obtain ⟨ch, hc, hch⟩ := exists_of_not_atLineEnd hend
      obtain ⟨hc', hnext⟩ := hR.next h hc hch
      obtain ⟨hin, hin'⟩ := hR.isIn h
      have hbeside := (ih _ (length_next_lt hc) hnext rfl).beside
      exact ⟨.char hc hc' hch (by simp [hreturns]) hin hin' (hR.position_eq h) hbeside,
        hc'.trans hc.symm, hR.position_eq h⟩

theorem Beside.settled_skipLine (h : s.Beside c c') : s.Settled c.skipLine c'.skipLine :=
  settled_of_ends h.ends_skipLine

namespace Settled

theorem ends (h : s.Settled c c') (hend : c.atLineEnd) : s.Ends c c' := by
  cases h.beside with
  | lineEnd h => exact h
  | returned _ hc hc' => simpa [hc, hc'] using h.current?_eq
  | char hc _ hn => exact absurd hend (not_atLineEnd hc hn)

theorem atLineEnd_eq (h : s.Settled c c') : c'.atLineEnd = c.atLineEnd := by
  rw [Cursor.atLineEnd, Cursor.atLineEnd, ← current?, ← current?, h.current?_eq]

theorem skipComment (h : s.Settled c c') : s.Settled c.skipComment c'.skipComment := by
  rw [Cursor.skipComment, Cursor.skipComment, h.current?_eq]
  split
  · exact h.beside.settled_skipLine
  · exact h

end Settled

theorem resumes_of_settled (h : s.Settled c.skipInsignificant c'.skipInsignificant) :
    s.Resumes ((Cursor.start src'.text).drop src'.text.length) c.skipInsignificant
      c'.skipInsignificant := by
  by_cases hend : c.skipInsignificant.atLineEnd
  · have hnil' := rest_skipInsignificant_eq_nil (h.atLineEnd_eq.trans hend)
    have hnil := rest_skipInsignificant_eq_nil hend
    exact .inr ⟨by rw [atEnd, hnil]; rfl, h.beside.isIn.2.eq_of_rest_nil hnil'⟩
  · exact .inl ⟨h, hend⟩

theorem ahead_eq {e e' : Cursor} (h : s.Ends e e') (hpos : 0 < aheadIndentation e.rest) :
    aheadIndentation e'.rest = aheadIndentation e.rest + 4 * s.levels := by
  have hbelow := (s.ahead h (aheadIndentation e.rest - 1)).2 (Nat.sub_one_lt_of_lt hpos)
  have hat := mt (s.ahead h (aheadIndentation e.rest)).1 (Nat.lt_irrefl _)
  omega

theorem Beside.skipBlanks (h : s.Beside c c') : s.Settled c.skipBlanks c'.skipBlanks := by
  induction h with
  | lineEnd h =>
    rw [skipBlanks_of_atLineEnd (s.atLineEnd h), skipBlanks_of_atLineEnd (atLineEnd' h)]
    exact settled_of_ends h
  | returned _ _ hc' _ h =>
    rw [skipBlanks_of_atLineEnd (s.atLineEnd h), skipBlanks_of_isBlank hc' (by decide),
      skipBlanks_of_atLineEnd (atLineEnd' h)]
    exact settled_of_ends h
  | @char c c' ch hc hc' hn hr hin hin' hp hnext ih =>
    by_cases hb : isBlank ch
    · rw [skipBlanks_of_isBlank hc hb, skipBlanks_of_isBlank hc' hb]
      exact ih
    · rw [skipBlanks_eq_self (by simpa [hc] using hb), skipBlanks_eq_self (by simpa [hc'] using hb)]
      exact ⟨.char hc hc' hn hr hin hin' hp hnext, hc'.trans hc.symm, hp⟩

namespace Connected

variable (hs : s.Connected)

include hs

theorem skipContinuedBlanks (h : s.Beside c c') :
    s.Settled c.skipContinuedBlanks c'.skipContinuedBlanks := by
  induction hn : c.rest.length using Nat.strongRecOn generalizing c c' with
  | ind n ih =>
    subst hn
    have hblanks := h.skipBlanks
    by_cases hcont : c.skipBlanks.continuesLine
    · have hcont' := hblanks.beside.continuesLine_iff.2 hcont
      rw [skipContinuedBlanks_of_continuesLine hcont, skipContinuedBlanks_of_continuesLine hcont',
        ← skipContinuedBlanks_skipBlanks,
        ← c'.skipBlanks.skipLine.next.skipContinuedBlanks_skipBlanks]
      exact ih _ (length_continued_lt hcont) (hs.continued hblanks.beside hcont) rfl
    · have hcont' := mt hblanks.beside.continuesLine_iff.1 hcont
      rw [skipContinuedBlanks_of_not_continuesLine hcont,
        skipContinuedBlanks_of_not_continuesLine hcont']
      exact hblanks

theorem skipGap (h : s.Beside c c') (margin : Nat) :
    s.Settled (c.skipGap src margin) (c'.skipGap src' (margin + 4 * s.levels)) := by
  induction hn : c.rest.length using Nat.strongRecOn generalizing c c' with
  | ind n ih =>
    subst hn
    have hd := (hs.skipContinuedBlanks h).skipComment
    have hle := (c.reaches_skipContinuedBlanks.trans (reaches_skipComment _)).length_le
    rw [skipGap_eq h.isIn.1, skipGap_eq h.isIn.2, hd.current?_eq]
    generalize c.skipContinuedBlanks.skipComment = d at hd hle
    generalize c'.skipContinuedBlanks.skipComment = d' at hd
    have hends (hline : d.current? = some '\n') := hd.ends (atLineEnd_of_newline hline)
    -- whether the gap goes on below is decided alike, by `s.ahead`
    by_cases hdeep : d.current? = some '\n' ∧ margin < aheadIndentation d.rest
    · have hpos := Nat.zero_lt_of_lt hdeep.2
      have hlt := length_skipInsignificant_lt (atLineEnd_of_newline hdeep.1) hpos
      rw [if_pos hdeep, if_pos ⟨hdeep.1, (s.ahead (hends hdeep.1) margin).2 hdeep.2⟩]
      exact ih _ (Nat.lt_of_lt_of_le hlt hle) (hs.content (hends hdeep.1) hpos).beside rfl
    · rw [if_neg hdeep, if_neg fun h => hdeep ⟨h.1, (s.ahead (hends h.1) margin).1 h.2⟩]
      exact hd

theorem skipBlock (h : s.Beside c c') (margin : Nat) :
    s.Settled (c.skipBlock src margin) (c'.skipBlock src' (margin + 4 * s.levels : Nat)) := by
  induction hn : c.rest.length using Nat.strongRecOn generalizing c c' with
  | ind n ih =>
    subst hn
    have hends := h.ends_skipLine
    rw [skipBlock_eq h.isIn.1, skipBlock_eq h.isIn.2]
    by_cases hm : margin < aheadIndentation c.skipLine.rest
    · rw [if_pos hm, if_pos ((s.ahead hends margin).2 hm)]
      have hpos : 0 < aheadIndentation c.skipLine.rest := Nat.zero_lt_of_lt hm
      have hlt := length_skipInsignificant_lt c.atLineEnd_skipLine hpos
      exact ih _ (Nat.lt_of_lt_of_le hlt (c.reaches_skipLine.length_le))
        (hs.content hends hpos).beside rfl
    · rw [if_neg hm, if_neg (mt (s.ahead hends margin).1 hm)]
      exact settled_of_ends hends

end Connected

end Alignment

end IndentedGrammar
