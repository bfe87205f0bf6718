import IndentedGrammar.Proofs.Rule.Outcome
import IndentedGrammar.Proofs.Rule.Progress
import IndentedGrammar.Proofs.Term.Alignment

namespace IndentedGrammar

open Cursor

variable {src src' : Source} {s : Alignment src src'} {c c' : Cursor}

structure Attempt.Aligned {α : Type} (s : Alignment src src') (f : α → α)
    (a a' : Attempt α) : Prop where
  result : ∃ x, a.result = .ok x ∧ a'.result = .ok (x.map f)
  diagnostics : a'.diagnostics = a.diagnostics.map (Diagnostic.mapPosition s.move)
  cursor : s.Settled a.cursor a'.cursor

namespace Attempt

variable {α : Type} {f : α → α}

theorem done_aligned {x : α} (h : s.Settled c c') : (done x c).Aligned s f (done (f x) c') :=
  ⟨⟨some x, rfl, rfl⟩, rfl, h⟩

theorem fail_aligned (problem : Problem) (h : s.Settled c c') {d d' : Cursor}
    (hd : s.Settled d d') :
    (fail c.position problem d : Attempt α).Aligned s f (fail c'.position problem d') := by
  rw [h.position_eq]
  exact ⟨⟨none, rfl, rfl⟩, rfl, hd⟩

theorem misplaced_aligned (h : s.Settled c c') {d d' : Cursor} (hd : s.Settled d d') :
    (misplaced c.position d : Attempt α).Aligned s f (misplaced c'.position d') :=
  { fail_aligned .unexpectedIndentation h hd with }

theorem cons_aligned {a a' : Attempt α} {more more' : Cursor → Attempt (List α)}
    (ha : a.Aligned s f a') (hmore : (more a.cursor).Aligned s (List.map f) (more' a'.cursor)) :
    (a.cons more).Aligned s (List.map f) (a'.cons more') := by
  obtain ⟨x, hx, hx'⟩ := ha.result
  obtain ⟨xs, hxs, hxs'⟩ := hmore.result
  rw [cons_eq hx, cons_eq hx']
  dsimp only
  refine ⟨⟨x.bind fun x => xs.map (x :: ·), ?_, ?_⟩, ?_, hmore.cursor⟩
  · rw [hxs]
    rfl
  · rw [hxs']
    cases x <;> cases xs <;> rfl
  · rw [List.map_append, ha.diagnostics, hmore.diagnostics]

end Attempt

theorem Alignment.Beside.accept? (h : s.Beside c c') (word : List Char) (hn : '\n' ∉ word)
    (hr : '\r' ∉ word) :
    c.accept? word = none ∧ c'.accept? word = none ∨
      ∃ d d', c.accept? word = some d ∧ c'.accept? word = some d' ∧ s.Beside d d' := by
  rw [Cursor.accept?, Cursor.accept?, h.sameLine.isPrefixOf_eq hn hr]
  split
  · next hprefix =>
    obtain ⟨more, hmore⟩ := List.isPrefixOf_iff_prefix.1 hprefix
    exact .inr ⟨_, _, rfl, rfl, h.drop word hmore.symm hn⟩
  · exact .inl ⟨rfl, rfl⟩

namespace Rule

mutual

theorem mapPosition_within (f : Position → Position) (parent : String) :
    (r : Rule) → (r.within parent).mapPosition f = (r.mapPosition f).within parent
  | .terminal heading term => rfl
  | .group heading children => by
    rw [within, mapPosition, mapPosition, within, mapPositionAll_withinAll f parent children]

theorem mapPositionAll_withinAll (f : Position → Position) (parent : String) :
    (rs : List Rule) →
      mapPositionAll f (withinAll parent rs) = withinAll parent (mapPositionAll f rs)
  | [] => rfl
  | r :: rs => by
    rw [withinAll, mapPositionAll, mapPositionAll, withinAll, mapPosition_within f parent r,
      mapPositionAll_withinAll f parent rs]

end

theorem not_mem_name (c : Cursor) : '\n' ∉ c.name := by
  intro h
  have hname := List.all_eq_true.1 List.all_takeWhile _ h
  exact absurd hname (by decide)

open Attempt

structure RulesAligned (s : Alignment src src') (p : Rule → Prop)
    (read read' : Cursor → Attempt Rule) :
    Prop where
  satisfies : ∀ c, c.startsName → (read c).Satisfies p
  satisfies' : ∀ c, c.startsName → (read' c).Satisfies p
  reaches : ∀ c : Cursor, c.Reaches (read c).cursor
  reaches' : ∀ c : Cursor, c.Reaches (read' c).cursor
  aligned : ∀ {c c'}, s.Settled c c' → c.startsName →
    (read c).Aligned s (mapPosition s.move) (read' c')

variable {p : Rule → Prop} {read read' : Cursor → Attempt Rule}

theorem readDeclaration_aligned (hr : RulesAligned s p read read') (h : s.Settled c c') :
    (readDeclaration src read c).Aligned s (mapPosition s.move)
      (readDeclaration src' read' c') := by
  have hstarts : c'.startsName = c.startsName := congrArg (·.any isNameChar) h.current?_eq
  have ha : Attempt.Aligned s (mapPosition s.move)
      (if c.startsName then read c else .fail c.position .expectedRuleName c)
      (if c'.startsName then read' c' else .fail c'.position .expectedRuleName c') := by
    rw [hstarts]
    split
    · next hc => exact hr.aligned h hc
    · exact fail_aligned _ h h
  rw [readDeclaration_eq src hr.satisfies, readDeclaration_eq src' hr.satisfies']
  exact ⟨ha.result, ha.diagnostics, ha.cursor⟩

theorem misalignment_add (width levels : Nat) (depth : Nat) :
    misalignment (width + 4 * levels) (depth + levels : Nat) = misalignment width depth := by
  have hmod : (width + 4 * levels) % 4 = width % 4 := Nat.add_mul_mod_self_left ..
  have hdepth : ((width + 4 * levels : Nat) : Int) ≠ 4 * (depth + levels : Nat) ↔
      (width : Int) ≠ 4 * depth := by
    omega
  rw [misalignment, misalignment, hmod]
  simp only [hdepth]

variable (hs : s.Connected)

include hs

theorem skipBlock_aligned (depth : Nat) (h : s.Beside c c') :
    s.Settled (c.skipBlock src (4 * depth)) (c'.skipBlock src' (4 * (depth + s.levels : Nat))) := by
  have hblock := hs.skipBlock h (4 * depth)
  rw [← Nat.mul_add] at hblock
  simpa using hblock

theorem readChild_aligned (hr : RulesAligned s p read read') (parent : String) (depth : Nat)
    (h : s.Settled c c') :
    (readChild src parent depth read c).Aligned s (mapPosition s.move)
      (readChild src' parent (depth + s.levels) read' c') := by
  have ha := readDeclaration_aligned hr h
  obtain ⟨x, hx, hx'⟩ := ha.result
  rw [readChild, readChild]
  dsimp only
  rw [hx, hx']
  cases x with
  | none =>
    refine ⟨⟨none, hx, hx'⟩, ha.diagnostics, ?_⟩
    have hblock := skipBlock_aligned hs (depth + 1) ha.cursor.beside
    rw [Nat.add_right_comm] at hblock
    exact hblock
  | some r =>
    refine ⟨⟨some (r.within parent), rfl, ?_⟩, ha.diagnostics, ha.cursor⟩
    exact congrArg (fun r => Except.ok (some r)) (mapPosition_within s.move parent r).symm

theorem readChildren_aligned (hr : RulesAligned s p read read') (parent : String) (depth : Nat)
    (h : s.Ends c c') :
    (readChildren src parent depth read c).Aligned s (List.map (mapPosition s.move))
      (readChildren src' parent (depth + s.levels) read' c') := by
  induction hn : c.rest.length using Nat.strongRecOn generalizing c c' with
  | ind n ih =>
    subst hn
    have hahead := s.ahead h (4 * depth)
    rw [← Nat.mul_add] at hahead
    rw [readChildren, readChildren, (s.isIn h).1.nextIndentation_eq,
      (s.isIn h).2.nextIndentation_eq]
    dsimp only
    -- the next content line is deeper by the same number of levels, so both loops branch alike
    by_cases hdeep : 4 * depth < aheadIndentation c.rest
    · rw [if_neg (Nat.not_le.2 hdeep), if_neg (Nat.not_le.2 (hahead.2 hdeep))]
      have hpos := Nat.zero_lt_of_lt hdeep
      have hd := hs.content h hpos
      have hlt := length_skipInsignificant_lt (s.atLineEnd h) hpos
      have hlt' :=
        length_skipInsignificant_lt (Alignment.atLineEnd' h) (Nat.zero_lt_of_lt (hahead.2 hdeep))
      have hwidth := Alignment.ahead_eq h hpos
      by_cases hchild : aheadIndentation c.rest = 4 * (depth + 1)
      · rw [if_neg (by simpa using hchild), if_neg (by omega)]
        have ha := readChild_aligned hs hr parent depth hd
        apply cons_aligned ha
        have hend := (readChild_ends src parent depth hr.satisfies c.skipInsignificant).2
        have hle := (reaches_readChild src hr.reaches parent depth c.skipInsignificant).length_le
        have hle' :=
          (reaches_readChild src' hr.reaches' parent (depth + s.levels) c'.skipInsignificant).length_le
        rw [dif_pos (Nat.lt_of_le_of_lt hle hlt), dif_pos (Nat.lt_of_le_of_lt hle' hlt')]
        exact ih _ (Nat.lt_of_le_of_lt hle hlt) (ha.cursor.ends hend) rfl
      · rw [if_pos hchild, if_pos (by omega)]
        exact misplaced_aligned hd (skipBlock_aligned hs depth hd.beside)
    · rw [if_pos (Nat.not_lt.1 hdeep), if_pos (Nat.not_lt.1 (mt hahead.1 hdeep))]
      exact done_aligned (Alignment.settled_of_ends h)

theorem readTerminal_aligned (limit : Int) (heading : Heading) (hname : isName heading.name.toList)
    (depth : Nat) (h : s.Beside c c') :
    (readTerminal src limit heading depth c).Aligned s (mapPosition s.move)
      (readTerminal src' limit { heading with position := s.move heading.position }
        (depth + s.levels) c') := by
  have hseparated : separated c' = separated c :=
    h.current?_congr (·.all fun ch => isBlank ch || ch = '\n' || ch = '\\') rfl
  have hread := Term.read_aligned hs limit true (hs.skipContinuedBlanks h).beside
  rw [readTerminal, readTerminal, hseparated]
  split
  · generalize Term.read src limit true _ = r at hread ⊢
    generalize Term.read src' limit true _ = r' at hread ⊢
    cases hread with
    | failed hd => exact ⟨⟨none, rfl, rfl⟩, rfl, skipBlock_aligned hs depth hd⟩
    | done hd =>
      dsimp only
      rw [ofTerm?, if_pos (isRuleName_of_isName hname), ofTerm?,
        if_pos (isRuleName_of_isName hname)]
      exact done_aligned hd
  · next hnone =>
    have hn : c.current? ≠ some '\n' := by
      intro hn
      simp [separated, rest_of_current? hn] at hnone
    exact fail_aligned _ (h.settled_of_ne hn) (skipBlock_aligned hs depth h)

theorem readGroup_aligned (hr : RulesAligned s p read read') (heading : Heading)
    (hname : isName heading.name.toList) (depth : Nat) (h : s.Beside c c') :
    (readGroup src read heading depth c).Aligned s (mapPosition s.move)
      (readGroup src' read' { heading with position := s.move heading.position }
        (depth + s.levels) c') := by
  have hd := h.skipBlanks.skipComment
  have ha := readChildren_aligned hs hr heading.name depth hd.beside.ends_skipLine
  have htrailing : (if c'.skipBlanks.skipComment.atLineEnd then ([] : List Diagnostic)
        else [⟨c'.skipBlanks.skipComment.position, .trailingCharacters⟩]) =
      (if c.skipBlanks.skipComment.atLineEnd then [] else
        [⟨c.skipBlanks.skipComment.position, .trailingCharacters⟩]).map
          (Diagnostic.mapPosition s.move) := by
    rw [hd.atLineEnd_eq, hd.position_eq]
    split <;> rfl
  rw [readGroup, readGroup]
  dsimp only
  rw [htrailing]
  generalize (if c.skipBlanks.skipComment.atLineEnd then [] else _ : List Diagnostic) = trailing
  obtain ⟨x, hx, hx'⟩ := ha.result
  rw [hx, hx']
  cases x with
  | none => exact ⟨⟨none, rfl, rfl⟩, by simp [ha.diagnostics], ha.cursor⟩
  | some rs =>
    dsimp only [Option.map_some]
    rw [List.isEmpty_map, List.isEmpty_map]
    split
    · exact ⟨⟨none, rfl, rfl⟩, by simp [ha.diagnostics], ha.cursor⟩
    split
    · exact ⟨⟨none, rfl, rfl⟩, by simp [ha.diagnostics, Diagnostic.mapPosition], ha.cursor⟩
    · next hne =>
      have hne : rs ≠ [] := by simpa using hne
      have hrules := ofChildren?_eq (isRuleName_of_isName hname) hne
      have hrules' : ofChildren? { heading with position := s.move heading.position }
          (rs.map (mapPosition s.move)) = .ok (group _ _) :=
        ofChildren?_eq (isRuleName_of_isName hname) (by simpa using hne)
      rw [hrules, hrules']
      refine ⟨⟨some _, rfl, ?_⟩, by simp [ha.diagnostics], ha.cursor⟩
      rw [Option.map_some, mapPosition, mapPositionAll_eq_map]

theorem read_aligned (limit : Int) (levels depth : Nat) (h : s.Settled c c') (hc : c.startsName) :
    (Rule.read src limit levels depth c).Aligned s (mapPosition s.move)
      (Rule.read src' limit levels (depth + s.levels) c') := by
  induction levels generalizing depth c c' with
  | zero =>
    rw [Rule.read, Rule.read, h.beside.indentation_eq (rest_ne_nil_of_startsName hc),
      misalignment_add]
    split
    · exact fail_aligned _ h h
    · exact fail_aligned _ h (skipBlock_aligned hs depth h.beside)
  | succ levels ih =>
    have hr : RulesAligned s (Fits limit [] levels) (Rule.read src limit levels (depth + 1))
        (Rule.read src' limit levels (depth + s.levels + 1)) := by
      refine ⟨fun c => read_satisfies src limit levels _,
        fun c => read_satisfies src' limit levels _,
        reaches_read src limit levels _, reaches_read src' limit levels _, ?_⟩
      intro c c' h hc
      rw [Nat.add_right_comm]
      exact ih (depth + 1) h hc
    have hname : c'.name = c.name := h.beside.sameLine.takeWhile_isNameChar_eq
    have hheading := isName_ofList_name hc
    have hd :=
      (h.beside.drop c.name List.takeWhile_append_dropWhile.symm (not_mem_name c)).skipBlanks
    have hcolon := hd.beside.accept? [':'] (by decide) (by decide)
    have hdots := hd.beside.accept? ['.', '.', '.'] (by decide) (by decide)
    rw [Rule.read, Rule.read, h.beside.indentation_eq (rest_ne_nil_of_startsName hc),
      misalignment_add, hname, h.position_eq]
    split
    · rw [← h.position_eq]
      exact fail_aligned _ h h
    dsimp only
    rw [if_neg (not_isEmpty_name hc), if_neg (not_isEmpty_name hc)]
    rcases hcolon with ⟨hnone, hnone'⟩ | ⟨e, e', he, he', hbeside⟩
    · rcases hdots with ⟨hnone₂, hnone₂'⟩ | ⟨e, e', he, he', hbeside⟩
      · rw [hnone, hnone', hnone₂, hnone₂']
        exact fail_aligned _ hd (skipBlock_aligned hs depth hd.beside)
      · rw [hnone, hnone', he, he']
        exact readGroup_aligned hs hr ⟨String.ofList c.name, c.position, []⟩ hheading depth hbeside
    · rw [he, he']
      exact readTerminal_aligned hs limit ⟨String.ofList c.name, c.position, []⟩ hheading depth
        hbeside

end Rule

end IndentedGrammar
