import IndentedGrammar.Proofs.Source.Places

/-! The end of a block. Skipping a block stops at a line end that is told by lines alone: what is passed
over is deeper than the margin, and what comes next is not. There is only one such line end, so to skip
once more with the same margin, or with a wider one, leads nowhere. -/

namespace IndentedGrammar

namespace Source

variable {src : Source} {m n : Int}

structure FirstContent (src : Source) (m n : Int) : Prop where
  lt : m < n
  content : isBlankLine (src.line n) = false
  blank : ∀ k, m < k → k < n → isBlankLine (src.line k) = true

theorem line_eq_getD {k : Int} (hk : 1 ≤ k) (hm : m < k) :
    src.line k = (src.lines.drop m.toNat)[(k - 1).toNat - m.toNat]?.getD [] := by
  rw [← line_add_one]
  congr 1
  omega

theorem blank_of_lt_one {k : Int} (hk : k < 1) : isBlankLine (src.line k) = true := by
  rw [line, if_pos hk]
  rfl

theorem firstContent_of_nextContentLine {n : Nat} (h : src.nextContentLine m = some n) :
    src.FirstContent m n := by
  obtain ⟨i, hi, rfl⟩ := Option.map_eq_some_iff.1 h
  obtain ⟨hlt, hcontent, hblank⟩ := List.findIdx?_eq_some_iff_getElem.1 hi
  refine ⟨lt_nextContentLine h, ?_, ?_⟩
  · rw [line_add_one, List.getElem?_eq_getElem hlt]
    simpa using hcontent
  · intro k hm hk
    by_cases hone : 1 ≤ k
    · have hj : (k - 1).toNat - m.toNat < i := by omega
      have hline := hblank _ hj
      rw [line_eq_getD hone hm, List.getElem?_eq_getElem (Nat.lt_trans hj hlt)]
      simpa using hline
    · exact blank_of_lt_one (Int.not_le.1 hone)

theorem blank_of_nextContentLine (h : src.nextContentLine m = none) {k : Int} (hk : m < k) :
    isBlankLine (src.line k) = true := by
  have hblank := List.findIdx?_eq_none_iff.1 (Option.map_eq_none_iff.1 h)
  by_cases hone : 1 ≤ k
  · rw [line_eq_getD hone hk]
    cases hline : (src.lines.drop m.toNat)[(k - 1).toNat - m.toNat]? with
    | none => rfl
    | some line => simpa using hblank line (List.mem_of_getElem? hline)
  · exact blank_of_lt_one (Int.not_le.1 hone)

theorem FirstContent.le (h : src.FirstContent m n) {k : Int} (hk : m < k)
    (hcontent : isBlankLine (src.line k) = false) : n ≤ k := by
  apply Int.not_lt.1
  intro hlt
  exact absurd (h.blank k hk hlt) (by simp [hcontent])

theorem exists_nextContentLine {k : Int} (hk : m < k) (hcontent : isBlankLine (src.line k) = false) :
    ∃ n : Nat, src.nextContentLine m = some n := by
  apply Option.ne_none_iff_exists'.1
  intro hnone
  exact absurd (blank_of_nextContentLine hnone hk) (by simp [hcontent])

theorem nextContentLine_eq_some_iff {n : Nat} :
    src.nextContentLine m = some n ↔ src.FirstContent m n := by
  constructor
  · exact firstContent_of_nextContentLine
  · intro h
    obtain ⟨n', hn'⟩ := exists_nextContentLine h.lt h.content
    have h' := firstContent_of_nextContentLine hn'
    have hle := h.le h'.lt h'.content
    have hle' := h'.le h.lt h.content
    rw [hn', Int.ofNat_inj.1 (Int.le_antisymm hle' hle)]

end Source

namespace Cursor

variable {src : Source} {margin : Int} {c d e : Cursor}

def Shallow (src : Source) (margin : Int) (c : Cursor) : Prop :=
  ∀ n, src.FirstContent c.position.line n → src.indentation n ≤ margin

theorem shallow_of_none (hn : src.nextContentLine c.position.line = none) : c.Shallow src margin := by
  intro n h
  obtain ⟨n', hn'⟩ := Source.exists_nextContentLine h.lt h.content
  simp [hn] at hn'

theorem shallow_iff_of_some {n : Nat} (hn : src.nextContentLine c.position.line = some n) :
    c.Shallow src margin ↔ src.indentation n ≤ margin := by
  have hfirst := Source.firstContent_of_nextContentLine hn
  refine ⟨fun h => h n hfirst, fun hle n' h => ?_⟩
  rwa [Int.le_antisymm (h.le hfirst.lt hfirst.content) (hfirst.le h.lt h.content)]

theorem shallow_iff (h : c.IsIn src) (margin : Nat) :
    c.Shallow src margin ↔ aheadIndentation c.rest ≤ margin := by
  rw [← h.nextIndentation_eq, Source.nextIndentation]
  cases hn : src.nextContentLine c.position.line with
  | none => exact iff_of_true (shallow_of_none hn) (Nat.zero_le _)
  | some n => rw [shallow_iff_of_some hn, Int.ofNat_le]

theorem not_shallow_iff {margin : Nat} : ¬ c.Shallow src margin ↔
    ∃ n, src.FirstContent c.position.line n ∧ margin < src.indentation n := by
  simp [Shallow]

structure AtBlockEnd (src : Source) (margin : Int) (d : Cursor) : Prop where
  atLineEnd : d.atLineEnd
  shallow : d.Shallow src margin

structure EndsBlock (src : Source) (margin : Int) (c d : Cursor) : Prop
    extends AtBlockEnd src margin d where
  line_le : c.position.line ≤ d.position.line
  content : d.position.line = c.position.line ∨ isBlankLine (src.line d.position.line) = false
  deeper : ∀ n, c.position.line < n → n ≤ d.position.line → isBlankLine (src.line n) = false →
    margin < src.indentation n

namespace EndsBlock

theorem refl (h : c.AtBlockEnd src margin) : c.EndsBlock src margin c :=
  ⟨h, Int.le_refl _, .inl rfl, fun _ hn hle => absurd hle (Int.not_le.2 hn)⟩

theorem skipLine (c : Cursor) (h : c.skipLine.Shallow src margin) :
    c.EndsBlock src margin c.skipLine := by
  have hline := c.line_skipLine
  exact ⟨⟨c.atLineEnd_skipLine, h⟩, Int.le_of_eq hline.symm, .inl hline, fun n hn hle => by omega⟩

theorem through {n : Int} (h : d.EndsBlock src margin e) (hd : d.position.line = n)
    (hfirst : src.FirstContent c.position.line n) (hdeep : margin < src.indentation n) :
    c.EndsBlock src margin e := by
  have hlt := hfirst.lt
  have hle := h.line_le
  refine ⟨h.toAtBlockEnd, by omega, .inr ?_, ?_⟩
  · rcases h.content with he | he
    · rw [he, hd]
      exact hfirst.content
    · exact he
  · intro k hk hke hcontent
    rcases Int.lt_or_eq_of_le (hfirst.le hk hcontent) with hnk | rfl
    · exact h.deeper k (by omega) hke hcontent
    · exact hdeep

theorem line_le_of_endsBlock (h : c.EndsBlock src margin d) (h' : c.EndsBlock src margin e) :
    e.position.line ≤ d.position.line := by
  apply Int.not_lt.1
  intro hlt
  have hle := h.line_le
  have hcontent := h'.content.resolve_left (by omega)
  obtain ⟨n, hn⟩ := Source.exists_nextContentLine hlt hcontent
  have hfirst := Source.firstContent_of_nextContentLine hn
  have hbehind := hfirst.lt
  have hdeeper := h'.deeper n (by omega) (hfirst.le hlt hcontent) hfirst.content
  exact absurd (h.shallow n hfirst) (Int.not_le.2 hdeeper)

theorem indentation_le (h : c.EndsBlock src (src.indentation c.position.line) d) :
    (src.indentation c.position.line : Int) ≤ src.indentation d.position.line := by
  rcases Int.lt_or_eq_of_le h.line_le with hlt | heq
  · have hcontent := h.content.resolve_left (Ne.symm (Int.ne_of_lt hlt))
    exact Int.le_of_lt (h.deeper _ hlt (Int.le_refl _) hcontent)
  · exact Int.le_of_eq (congrArg (fun n => (src.indentation n : Int)) heq)

end EndsBlock

theorem endsBlock_skipBlock (h : c.IsIn src) (margin : Int) :
    c.EndsBlock src margin (c.skipBlock src margin) := by
  fun_induction skipBlock src margin c with
  | case1 c d hn => exact .skipLine c (shallow_of_none hn)
  | case2 c d n hn hle =>
    have hne := (h.reaches c.reaches_skipLine).rest_ne_nil hn
    exact .skipLine c ((shallow_iff_of_some hn).2 (hle.resolve_right hne))
  | case3 c d n hn hdeep ih =>
    have hd : d.IsIn src := h.reaches c.reaches_skipLine
    have hfirst := Source.firstContent_of_nextContentLine hn
    rw [c.line_skipLine] at hfirst
    exact (ih (hd.drop _)).through (line_toLine hd hn) hfirst
      (Int.not_le.1 fun hle => hdeep (.inl hle))

theorem atBlockEnd_skipBlock (h : c.IsIn src) (margin : Int) :
    (c.skipBlock src margin).AtBlockEnd src margin := (endsBlock_skipBlock h margin).toAtBlockEnd

theorem IsIn.eq_of_line_eq (h : c.IsIn src) (h' : d.IsIn src) (hc : c.atLineEnd) (hd : d.atLineEnd)
    (hline : c.position.line = d.position.line) : c = d := by
  have hsame {c d : Cursor} (hc : c.atLineEnd) (hreach : c.Reaches d)
      (hline : c.position.line = d.position.line) : c = d := by
    obtain ⟨n, rfl⟩ := hreach
    rw [position_drop, line_afterAll] at hline
    rcases rest_of_atLineEnd hc with hnil | ⟨text, hrest⟩
    · exact Cursor.ext (by simp [hnil]) (by simp [hnil])
    · cases n with
      | zero => exact c.drop_zero.symm
      | succ n =>
        rw [hrest, List.take_succ_cons, List.count_cons_self] at hline
        omega
  rcases h.reaches_or_reaches h' with hreach | hreach
  · exact hsame hc hreach hline
  · exact (hsame hd hreach hline.symm).symm

theorem skipBlock_eq_iff (h : c.IsIn src) (hd : d.IsIn src) :
    c.skipBlock src margin = d ↔ c.EndsBlock src margin d := by
  have hends := endsBlock_skipBlock h margin
  constructor
  · rintro rfl
    exact hends
  · intro hd'
    apply (h.reaches (reaches_skipBlock src margin c)).eq_of_line_eq hd hends.atLineEnd hd'.atLineEnd
    exact Int.le_antisymm (hd'.line_le_of_endsBlock hends) (hends.line_le_of_endsBlock hd')

theorem skipBlock_skipBlock (h : c.IsIn src) {more : Int} (hle : margin ≤ more) :
    (c.skipBlock src margin).skipBlock src more = c.skipBlock src margin := by
  have hends := endsBlock_skipBlock h margin
  have hin := h.reaches (reaches_skipBlock src margin c)
  rw [skipBlock_eq_iff hin hin]
  exact .refl ⟨hends.atLineEnd, fun n hn => Int.le_trans (hends.shallow n hn) hle⟩

end Cursor

end IndentedGrammar
