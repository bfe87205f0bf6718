import IndentedGrammar.Proofs.Source.Places

namespace IndentedGrammar.Cursor

/-- A loop that begins at one cursor is left at another. Its body gives the cursor of the next
iteration, or nothing where the loop is left, and the list has the cursors where it did go on. -/
inductive Leaves (pass : Cursor → Option Cursor) : Cursor → List Cursor → Cursor → Prop
  | left {c} : pass c = none → Leaves pass c [] c
  | again {c d cs e} : pass c = some d → c.position.offset < d.position.offset →
      Leaves pass d cs e → Leaves pass c (c :: cs) e

theorem Leaves.pass_eq_none {pass : Cursor → Option Cursor} {c e : Cursor} {cs : List Cursor}
    (h : Leaves pass c cs e) : pass e = none := by
  induction h with
  | left hpass => exact hpass
  | again _ _ _ ih => exact ih

theorem Leaves.unique {pass : Cursor → Option Cursor} {c e e' : Cursor} {cs cs' : List Cursor}
    (h : Leaves pass c cs e) (h' : Leaves pass c cs' e') : cs = cs' ∧ e = e' := by
  induction h generalizing cs' with
  | left hpass =>
    cases h' with
    | left => exact ⟨rfl, rfl⟩
    | again hpass' => exact nomatch hpass.symm.trans hpass'
  | again hpass _ _ ih =>
    cases h' with
    | left hpass' => exact nomatch hpass.symm.trans hpass'
    | again hpass' _ h' =>
      obtain rfl := Option.some.inj (hpass.symm.trans hpass')
      obtain ⟨rfl, rfl⟩ := ih h'
      exact ⟨rfl, rfl⟩

theorem Reaches.offset_lt {c d : Cursor} (h : c.Reaches d) (hlt : d.rest.length < c.rest.length) :
    c.position.offset < d.position.offset := by
  obtain ⟨n, rfl⟩ := h
  rw [rest_drop, List.length_drop] at hlt
  rw [position_drop, Position.offset_afterAll, List.length_take]
  omega

variable (src : Source)

def gapPass (margin : Nat) (c : Cursor) : Option Cursor :=
  let d := c.skipContinuedBlanks.skipComment
  if d.current? = some '\n' ∧ margin < src.nextIndentation d.position.line then
    some d.skipInsignificant
  else none

theorem leaves_skipGap (margin : Nat) (c : Cursor) :
    ∃ cs e, Leaves (gapPass src margin) c cs e ∧
      c.skipGap src margin = e.skipContinuedBlanks.skipComment := by
  fun_induction skipGap src margin c with
  | case1 c d h ih =>
    obtain ⟨cs, e, hleaves, he⟩ := ih
    have hreach : c.Reaches d := c.reaches_skipContinuedBlanks.trans (reaches_skipComment _)
    have hlt : d.skipInsignificant.rest.length < d.rest.length :=
      length_drop_lt (insignificant_pos h.1) (rest_ne_nil_of_current? h.1)
    refine ⟨c :: cs, e, .again (if_pos h) ?_ hleaves, he⟩
    exact (hreach.trans d.reaches_skipInsignificant).offset_lt
      (Nat.lt_of_lt_of_le hlt hreach.length_le)
  | case2 c d h => exact ⟨[], c, .left (if_neg h), rfl⟩

def linePass (n : Int) (c : Cursor) : Option Cursor :=
  if c.position.line < n then some c.next else none

def blockPass (margin : Int) (c : Cursor) : Option Cursor :=
  match src.nextContentLine c.position.line with
  | none => none
  | some n => if (src.indentation n : Int) ≤ margin then none else some (c.toLine n).skipLine

variable {src} {c : Cursor}

theorem IsIn.line_of_rest_nil (h : c.IsIn src) (hc : c.rest = []) :
    c.position.line = src.lineCount := by
  obtain ⟨before, ht, hp⟩ := h.before
  rw [hc, List.append_nil] at ht
  rw [Source.lineCount, src.lines_eq, length_splitLines, ht, hp, line_afterAll]
  simp only [Position.start]
  omega

theorem toLine_next {n : Int} {ch : Char} (h : c.current? = some ch) (hlt : c.position.line < n) :
    c.toLine n = c.next.toLine n := by
  obtain ⟨k, hk⟩ : ∃ k : Nat, (n - c.position.line).toNat = k + 1 :=
    ⟨(n - c.position.line).toNat - 1, by omega⟩
  rw [toLine, toLine, hk, rest_of_current? h, throughLines, drop_add_one, position_next h,
    Position.after]
  split
  · have hk' : (n - (c.position.line + 1)).toNat = k := by omega
    rw [hk']
  · rw [hk]

theorem leaves_toLine (h : c.IsIn src) {n : Int} (hn : n ≤ src.lineCount) :
    ∃ cs, Leaves (linePass n) c cs (c.toLine n) := by
  induction hlength : c.rest.length using Nat.strongRecOn generalizing c with
  | ind length ih =>
    subst hlength
    by_cases hlt : c.position.line < n
    · cases hc : c.current? with
      | none =>
        have hline := h.line_of_rest_nil (List.head?_eq_none_iff.1 hc)
        omega
      | some ch =>
        have hshort := length_next_lt hc
        obtain ⟨cs, hleaves⟩ := ih _ hshort (h.drop 1) rfl
        rw [toLine_next hc hlt]
        exact ⟨c :: cs, .again (if_pos hlt) (c.reaches_next.offset_lt hshort) hleaves⟩
    · have hstay : c.toLine n = c := by
        rw [toLine, Int.toNat_of_nonpos (by omega), throughLines, drop_zero]
      rw [hstay]
      exact ⟨[], .left (if_neg hlt)⟩

theorem leaves_skipBlock (h : c.IsIn src) (margin : Int) :
    ∃ cs, Leaves (blockPass src margin) c.skipLine cs (c.skipBlock src margin) := by
  fun_induction skipBlock src margin c with
  | case1 c d hn => exact ⟨[], .left (by rw [blockPass, hn])⟩
  | case2 c d n hn hstop =>
    have hshallow := hstop.resolve_right ((h.reaches c.reaches_skipLine).rest_ne_nil hn)
    exact ⟨[], .left (by rw [blockPass, hn]; exact if_pos hshallow)⟩
  | case3 c d n hn hstop ih =>
    obtain ⟨hdeep, hne⟩ := not_or.1 hstop
    have hreach : d.Reaches (d.toLine n) := .drop d _
    obtain ⟨cs, hleaves⟩ := ih ((h.reaches c.reaches_skipLine).reaches hreach)
    have hline := Source.lt_nextContentLine hn
    have hlt : (d.toLine n).rest.length < d.rest.length :=
      length_drop_lt (throughLines_pos (by omega) hne) hne
    refine ⟨d :: cs, .again (by rw [blockPass, hn]; exact if_neg hdeep) ?_ hleaves⟩
    exact (hreach.trans (reaches_skipLine _)).offset_lt
      (Nat.lt_of_le_of_lt (reaches_skipLine _).length_le hlt)

end IndentedGrammar.Cursor
