import IndentedGrammar.Proofs.Source.Nesting

namespace IndentedGrammar

open Cursor

/-- Whether the next character still belongs to the lead of a line, which is made of spaces and tabs,
if `ch` does or does not. -/
def leadBehind (lead : Bool) (ch : Char) : Bool :=
  ch = '\n' || lead && (ch = ' ' || ch = '\t')

def withoutTabs (lead : Bool) : List Char → List Char
  | [] => []
  | ch :: text =>
    (if lead && ch = '\t' then levelBlanks else [ch]) ++ withoutTabs (leadBehind lead ch) text

/-- Where the character at a place of `text` is if there are no tabs in the leads of its lines; a tab
of those is found where its blanks begin. -/
def Position.amongSpaces (text : List Char) (p : Position) : Position :=
  Position.start.afterAll (withoutTabs true (text.take p.offset))

def Cursor.amongSpaces (text : List Char) (c : Cursor) : Cursor :=
  (Cursor.start (withoutTabs true text)).drop (withoutTabs true (text.take c.position.offset)).length

section withoutTabs

@[simp] theorem withoutTabs_nil (lead : Bool) : withoutTabs lead [] = [] := rfl

@[simp] theorem withoutTabs_newline (lead : Bool) (text : List Char) :
    withoutTabs lead ('\n' :: text) = '\n' :: withoutTabs true text := by
  simp [withoutTabs, leadBehind]

theorem withoutTabs_tab (text : List Char) :
    withoutTabs true ('\t' :: text) = levelBlanks ++ withoutTabs true text := rfl

theorem withoutTabs_cons {lead : Bool} {ch : Char} (h : ¬ (lead ∧ ch = '\t')) (text : List Char) :
    withoutTabs lead (ch :: text) = ch :: withoutTabs (leadBehind lead ch) text := by
  rw [withoutTabs, if_neg (by simpa using h)]
  rfl

theorem withoutTabs_append (lead : Bool) (text more : List Char) :
    withoutTabs lead (text ++ more) =
      withoutTabs lead text ++ withoutTabs (text.foldl leadBehind lead) more := by
  induction text generalizing lead with
  | nil => rfl
  | cons ch text ih => simp [withoutTabs, ih]

theorem withoutTabs_of_head? {text : List Char}
    (h : ∀ ch, text.head? = some ch → ch ≠ ' ' ∧ ch ≠ '\t') (lead : Bool) :
    withoutTabs lead text = withoutTabs false text := by
  cases text with
  | nil => rfl
  | cons ch text =>
    obtain ⟨hspace, htab⟩ := h ch rfl
    rw [withoutTabs_cons (by simp [htab]), withoutTabs_cons (by simp)]
    simp [leadBehind, hspace, htab]

theorem newline_not_mem_withoutTabs {text : List Char} (h : '\n' ∉ text) (lead : Bool) :
    '\n' ∉ withoutTabs lead text := by
  induction text generalizing lead with
  | nil => exact h
  | cons ch text ih =>
    rw [List.mem_cons, not_or] at h
    rw [withoutTabs, List.mem_append, not_or]
    refine ⟨?_, ih h.2 _⟩
    split
    · decide
    · simpa using h.1

theorem splitLines_withoutTabs (text : List Char) :
    splitLines (withoutTabs true text) = (splitLines text).map (withoutTabs true) := by
  induction text using lines_induction with
  | last line hline =>
    rw [splitLines_of_not_mem hline, splitLines_of_not_mem (newline_not_mem_withoutTabs hline true)]
    rfl
  | more line text hline ih =>
    rw [withoutTabs_append, withoutTabs_newline, splitLines_line hline,
      splitLines_line (newline_not_mem_withoutTabs hline true), ih]
    rfl

theorem count_newline_withoutTabs (lead : Bool) (text : List Char) :
    (withoutTabs lead text).count '\n' = text.count '\n' := by
  induction text generalizing lead with
  | nil => rfl
  | cons ch text ih =>
    rw [withoutTabs, List.count_append, ih, List.count_cons]
    split
    · next h => simp_all [levelBlanks]
    · simp [List.count_cons, Nat.add_comm]

theorem isBlankLine_withoutTabs (lead : Bool) (line : List Char) :
    isBlankLine (withoutTabs lead line) = isBlankLine line := by
  induction line generalizing lead with
  | nil => rfl
  | cons ch line ih =>
    by_cases htab : lead ∧ ch = '\t'
    · obtain ⟨rfl, rfl⟩ := htab
      exact ih true
    · rw [withoutTabs_cons htab]
      by_cases hch : isBlank ch
      · simpa [isBlankLine, hch] using ih (leadBehind lead ch)
      · simp [isBlankLine, hch]

theorem indentWidth_withoutTabs (line : List Char) :
    indentWidth (withoutTabs true line) = indentWidth line := by
  induction line with
  | nil => rfl
  | cons ch line ih =>
    by_cases htab : ch = '\t'
    · subst htab
      exact congrArg (· + 4) ih
    rw [withoutTabs_cons (fun h => htab h.2)]
    by_cases hspace : ch = ' '
    · subst hspace
      exact congrArg (· + 1) ih
    · rw [indentWidth_of_ne hspace htab, indentWidth_of_ne hspace htab]

theorem contentIndentation_withoutTabs (lines : List (List Char)) :
    contentIndentation (lines.map (withoutTabs true)) = contentIndentation lines := by
  induction lines with
  | nil => rfl
  | cons line lines ih =>
    rw [List.map_cons, contentIndentation, contentIndentation, isBlankLine_withoutTabs,
      indentWidth_withoutTabs, ih]

theorem aheadIndentation_withoutTabs {rest : List Char} (h : rest = [] ∨ ∃ text, rest = '\n' :: text)
    (lead : Bool) : aheadIndentation (withoutTabs lead rest) = aheadIndentation rest := by
  obtain rfl | ⟨text, rfl⟩ := h
  · rfl
  · rw [withoutTabs_newline, aheadIndentation, aheadIndentation, splitLines_newline,
      splitLines_newline, List.tail_cons, List.tail_cons, splitLines_withoutTabs,
      contentIndentation_withoutTabs]

theorem takeWhile_isBlank_withoutTabs (lead : Bool) (text : List Char) :
    ((withoutTabs lead text).takeWhile isBlank).length =
      (withoutTabs lead (text.take (text.takeWhile isBlank).length)).length := by
  induction text generalizing lead with
  | nil => rfl
  | cons ch text ih =>
    by_cases htab : lead ∧ ch = '\t'
    · obtain ⟨rfl, rfl⟩ := htab
      have := ih true
      simpa [withoutTabs_tab, levelBlanks, isBlank] using this
    · rw [withoutTabs_cons htab]
      by_cases hch : isBlank ch
      · simp [hch, withoutTabs_cons htab, ih]
      · simp [hch]

theorem insignificant_withoutTabs (lead inComment : Bool) (text : List Char) :
    insignificant inComment (withoutTabs lead text) =
      (withoutTabs lead (text.take (insignificant inComment text))).length := by
  induction text generalizing lead inComment with
  | nil => rfl
  | cons ch text ih =>
    by_cases htab : lead ∧ ch = '\t'
    · obtain ⟨rfl, rfl⟩ := htab
      simp [withoutTabs_tab, levelBlanks, insignificant, isBlank, ih]
    · rw [withoutTabs_cons htab, insignificant, insignificant]
      split
      · rw [ih, List.take_succ_cons, withoutTabs_cons htab, List.length_cons]
      split
      · rw [ih, List.take_succ_cons, withoutTabs_cons htab, List.length_cons]
      split
      · rw [ih, List.take_succ_cons, withoutTabs_cons htab, List.length_cons]
      · rfl

end withoutTabs

namespace Cursor

variable {src whole : Source} {c : Cursor}

theorem IsIn.amongSpaces_eq {before : List Char} (ht : src.text = before ++ c.rest)
    (hp : c.position = Position.start.afterAll before) :
    c.amongSpaces src.text = ⟨withoutTabs (before.foldl leadBehind true) c.rest,
      Position.start.afterAll (withoutTabs true before)⟩ ∧
    c.position.amongSpaces src.text = Position.start.afterAll (withoutTabs true before) := by
  have htake : src.text.take c.position.offset = before := by
    rw [hp, Position.offset_afterAll, ht]
    simp [Position.start]
  rw [Cursor.amongSpaces, Position.amongSpaces, htake, ht, withoutTabs_append]
  simp [Cursor.start, Cursor.drop]

theorem IsIn.position_amongSpaces (h : c.IsIn src) :
    (c.amongSpaces src.text).position = c.position.amongSpaces src.text := by
  obtain ⟨before, ht, hp⟩ := h.before
  obtain ⟨hcursor, hposition⟩ := amongSpaces_eq ht hp
  rw [hcursor, hposition]

theorem IsIn.line_amongSpaces (h : c.IsIn src) :
    (c.amongSpaces src.text).position.line = c.position.line := by
  obtain ⟨before, ht, hp⟩ := h.before
  rw [(amongSpaces_eq ht hp).1, hp, line_afterAll, line_afterAll, count_newline_withoutTabs]

theorem IsIn.exists_lead (h : c.IsIn src) :
    ∃ lead, (c.amongSpaces src.text).rest = withoutTabs lead c.rest := by
  obtain ⟨before, ht, hp⟩ := h.before
  exact ⟨_, congrArg Cursor.rest (amongSpaces_eq ht hp).1⟩

theorem isIn_amongSpaces (hwhole : whole.text = withoutTabs true src.text) (c : Cursor) :
    (c.amongSpaces src.text).IsIn whole := by
  rw [Cursor.amongSpaces, ← hwhole]
  exact (IsIn.start whole).drop _

theorem amongSpaces_start (hwhole : whole.text = withoutTabs true src.text) :
    (Cursor.start src.text).amongSpaces src.text = .start whole.text := by
  rw [Cursor.amongSpaces, hwhole]
  exact drop_zero _

theorem IsIn.drop_amongSpaces (h : c.IsIn src) (passed : List Char → Nat)
    (hpassed : ∀ lead, (c.amongSpaces src.text).rest = withoutTabs lead c.rest →
      passed (withoutTabs lead c.rest) =
        (withoutTabs lead (c.rest.take (passed c.rest))).length) :
    (c.amongSpaces src.text).drop (passed (c.amongSpaces src.text).rest) =
      (c.drop (passed c.rest)).amongSpaces src.text := by
  obtain ⟨before, ht, hp⟩ := h.before
  have hlead := hpassed _ (congrArg Cursor.rest (amongSpaces_eq ht hp).1)
  have hsplit := List.take_append_drop (passed c.rest) c.rest
  have ht' : src.text =
      (before ++ c.rest.take (passed c.rest)) ++ (c.drop (passed c.rest)).rest := by
    rw [rest_drop, List.append_assoc, hsplit, ht]
  have hp' : (c.drop (passed c.rest)).position =
      Position.start.afterAll (before ++ c.rest.take (passed c.rest)) := by
    rw [position_drop, Position.afterAll_append, hp]
  rw [(amongSpaces_eq ht hp).1, (amongSpaces_eq ht' hp').1, hlead, List.foldl_append,
    withoutTabs_append, Position.afterAll_append]
  have hrest := withoutTabs_append (before.foldl leadBehind true) (c.rest.take (passed c.rest))
    (c.rest.drop (passed c.rest))
  rw [hsplit] at hrest
  rw [Cursor.drop, hrest, List.drop_left, List.take_left]
  rfl

theorem IsIn.skipInsignificant_amongSpaces (h : c.IsIn src) :
    (c.amongSpaces src.text).skipInsignificant = c.skipInsignificant.amongSpaces src.text :=
  h.drop_amongSpaces (insignificant false) fun lead _ => insignificant_withoutTabs lead false c.rest

theorem IsIn.skipBlanks_amongSpaces (h : c.IsIn src) :
    (c.amongSpaces src.text).skipBlanks = c.skipBlanks.amongSpaces src.text :=
  h.drop_amongSpaces (fun text => (text.takeWhile isBlank).length)
    fun lead _ => takeWhile_isBlank_withoutTabs lead c.rest

theorem IsIn.next_amongSpaces {ch : Char} (h : c.IsIn src) (hc : c.current? = some ch)
    (hc' : (c.amongSpaces src.text).current? = some ch) :
    (c.amongSpaces src.text).next = c.next.amongSpaces src.text := by
  apply h.drop_amongSpaces fun _ => 1
  intro lead hlead
  have hkept : ¬ (lead ∧ ch = '\t') := by
    rintro ⟨rfl, rfl⟩
    rw [current?, hlead, rest_of_current? hc, withoutTabs_tab] at hc'
    simp [levelBlanks] at hc'
  rw [rest_of_current? hc, List.take_succ_cons, List.take_zero, withoutTabs_cons hkept]
  rfl

end Cursor

structure Cursor.BehindLead (src whole : Source) (c c' : Cursor) : Prop where
  isIn : c.IsIn src
  isIn' : c'.IsIn whole
  eq_amongSpaces : c' = c.amongSpaces src.text
  rest_eq : c'.rest = withoutTabs false c.rest

namespace Cursor.BehindLead

variable {src whole : Source} {c c' : Cursor}

theorem of_current? (hwhole : whole.text = withoutTabs true src.text) (h : c.IsIn src)
    (hc : ∀ ch, c.current? = some ch → ch ≠ ' ' ∧ ch ≠ '\t') :
    BehindLead src whole c (c.amongSpaces src.text) := by
  obtain ⟨lead, hlead⟩ := h.exists_lead
  exact ⟨h, isIn_amongSpaces hwhole c, rfl, hlead.trans (withoutTabs_of_head? hc lead)⟩

theorem current?_eq (h : BehindLead src whole c c') : c'.current? = c.current? := by
  rw [current?, h.rest_eq, current?]
  cases c.rest with
  | nil => rfl
  | cons ch text => rw [withoutTabs_cons (by simp)]; rfl

theorem position_eq (h : BehindLead src whole c c') :
    c'.position = c.position.amongSpaces src.text := by
  rw [h.eq_amongSpaces, h.isIn.position_amongSpaces]

theorem next {ch : Char} (h : BehindLead src whole c c') (hc : c.current? = some ch)
    (hch : ch ≠ '\n') : BehindLead src whole c.next c'.next := by
  have hc' := h.current?_eq.trans hc
  have hnext : c'.next = c.next.amongSpaces src.text := by
    rw [h.eq_amongSpaces] at hc' ⊢
    exact h.isIn.next_amongSpaces hc hc'
  refine ⟨h.isIn.reaches c.reaches_next, h.isIn'.reaches c'.reaches_next, hnext, ?_⟩
  have hrest := h.rest_eq
  rw [rest_of_current? hc, rest_of_current? hc', withoutTabs_cons (by simp)] at hrest
  simpa [leadBehind, hch] using hrest

end Cursor.BehindLead

section

variable {src whole : Source} (hwhole : whole.text = withoutTabs true src.text)

include hwhole

theorem line_withoutTabs (n : Int) : whole.line n = withoutTabs true (src.line n) := by
  rw [Source.line, Source.line, whole.lines_eq, hwhole, splitLines_withoutTabs, ← src.lines_eq]
  split
  · rfl
  · rw [List.getElem?_map]
    cases src.lines[(n - 1).toNat]? <;> rfl

def Alignment.ofTabs : Alignment src whole where
  move := .amongSpaces src.text
  levels := 0
  returns := false
  Ends e e' := BehindLead src whole e e' ∧ e.atLineEnd
  isIn h := ⟨h.1.isIn, h.1.isIn'⟩
  atLineEnd h := h.2
  current?_eq h := h.1.current?_eq
  position_eq h := h.1.position_eq
  indentation_eq := by
    rintro e e' ⟨h, -⟩ -
    rw [h.eq_amongSpaces, h.isIn.line_amongSpaces, Source.indentation, line_withoutTabs hwhole,
      indentWidth_withoutTabs]
    rfl
  ahead := by
    rintro e e' ⟨h, hend⟩ margin
    rw [h.rest_eq, aheadIndentation_withoutTabs (rest_of_atLineEnd hend)]
    rfl

variable {c c' : Cursor}

theorem settled_behindLead (h : BehindLead src whole c c') :
    (Alignment.ofTabs hwhole).Settled c c' := by
  have hrelates : (Alignment.ofTabs hwhole).Relates (BehindLead src whole) :=
    ⟨fun h hend => ⟨h, hend⟩, fun h hc hch => ⟨h.current?_eq.trans hc, h.next hc hch⟩,
      fun h => ⟨h.isIn, h.isIn'⟩, fun h => h.position_eq⟩
  exact hrelates.settled rfl h

theorem settled_skipInsignificant_amongSpaces (h : c.IsIn src) :
    (Alignment.ofTabs hwhole).Settled c.skipInsignificant
      (c.amongSpaces src.text).skipInsignificant := by
  rw [h.skipInsignificant_amongSpaces]
  apply settled_behindLead hwhole
  apply BehindLead.of_current? hwhole (h.reaches c.reaches_skipInsignificant)
  intro ch hch
  obtain ⟨-, hblank, -⟩ := of_head?_drop_insignificant hch
  constructor <;> rintro rfl <;> exact absurd hblank (by decide)

theorem connected_ofTabs : (Alignment.ofTabs hwhole).Connected := by
  constructor
  · rintro e e' ⟨h, -⟩ -
    rw [h.eq_amongSpaces]
    exact settled_skipInsignificant_amongSpaces hwhole h.isIn
  · intro c c' h hc
    obtain ⟨hends, -⟩ := h.ends_skipLine
    have hnewline := current?_skipLine_of_continuesLine hc
    have hin := hends.isIn.reaches (reaches_next _)
    have hnewline' := hends.current?_eq.trans hnewline
    rw [hends.eq_amongSpaces] at hnewline' ⊢
    rw [hends.isIn.next_amongSpaces hnewline hnewline', hin.skipBlanks_amongSpaces]
    apply Alignment.Settled.beside
    apply settled_behindLead hwhole
    apply BehindLead.of_current? hwhole (hin.reaches (reaches_skipBlanks _))
    intro ch hch
    have hblank := not_isBlank_skipBlanks hch
    constructor <;> rintro rfl <;> exact absurd hblank (by decide)

end

end IndentedGrammar
