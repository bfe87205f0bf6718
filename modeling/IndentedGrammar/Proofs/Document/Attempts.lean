import IndentedGrammar.Proofs.Document.Run
import IndentedGrammar.Proofs.Rule.Attempts
import Mathlib.Data.List.Perm.Subperm

namespace IndentedGrammar

open Cursor Attempt

theorem map_sublist_flatMap {α β : Type} {f : α → List β} {g : α → β}
    (h : ∀ x, ∃ ys, f x = g x :: ys) (xs : List α) : (xs.map g).Sublist (xs.flatMap f) := by
  induction xs with
  | nil => exact .slnil
  | cons x xs ih =>
    obtain ⟨ys, hx⟩ := h x
    rw [List.map_cons, List.flatMap_cons, hx]
    exact (ih.trans (List.sublist_append_right ys _)).cons_cons _

def Source.contentLines (src : Source) : List Int :=
  ((List.range src.lineCount).map fun n : Nat => (n + 1 : Int)).filter fun n =>
    !isBlankLine (src.line n)

theorem Cursor.IsIn.mem_contentLines {src : Source} {c : Cursor} (h : c.IsIn src)
    (hcontent : isBlankLine (src.line c.position.line) = false) :
    c.position.line ∈ src.contentLines := by
  have hfirst := h.one_le_line
  have hlast := h.line_le_lineCount
  rw [Source.contentLines, List.mem_filter, List.mem_map, hcontent]
  exact ⟨⟨(c.position.line - 1).toNat, List.mem_range.2 (by omega), by omega⟩, rfl⟩

theorem Source.length_le_contentLines {src : Source} {ps : List Position}
    (hlines : (ps.map Position.line).Pairwise (· < ·)) (h : ∀ p ∈ ps, p.line ∈ src.contentLines) :
    ps.length ≤ src.contentLines.length := by
  have hsub : ps.map Position.line ⊆ src.contentLines := by
    intro n hn
    obtain ⟨p, hp, rfl⟩ := List.mem_map.1 hn
    exact h p hp
  have hle := (List.Nodup.subperm (hlines.imp Int.ne_of_lt) hsub).length_le
  rwa [List.length_map] at hle

namespace Document

variable {src : Source} {limit : Int} {c : Cursor} {doc : Document}

theorem advances_readTopLevel (hin : c.IsIn src)
    (hcontent : isBlankLine (src.line c.position.line) = false) :
    (readTopLevel src limit c).Advances src c := by
  have ha := Rule.advances_readDeclaration (Rule.readsRules_readAt src limit 0)
    (Rule.readsBelow_readAt 0) hin hcontent
  rw [readTopLevel]
  dsimp only
  split
  · exact ha
  · exact ⟨ha.passes, ha.content⟩
  · exact ⟨ha.passes.widen (.refl c) (reaches_skipBlock ..), ha.content⟩

theorem starts_readTopLevel (src : Source) (limit : Int) (c : Cursor) :
    (readTopLevel src limit c).starts =
      c.position :: if c.startsName then (Rule.readAt src limit 0 c).starts else [] := by
  have h := Rule.starts_readDeclaration src (Rule.readAt src limit 0) c
  rw [readTopLevel]
  dsimp only
  split
  · exact h
  · exact h
  · exact h

def topLevelPass (src : Source) (limit : Int) (c : Cursor) : Option Cursor :=
  if c.atEnd then none else some (readTopLevel src limit c).cursor.skipInsignificant

/-- A declaration is looked for at the cursor, inside of `depth` groups: by an iteration of the loop over the
declarations of the source, or by one of the loop over the children of a group that was looked for. The last
iteration of that one looks for a child, but does not read it, if the line is too deep. -/
inductive Attempted (src : Source) (limit : Int) : Nat → Cursor → Prop
  | declaration {cs c e} :
      Leaves (topLevelPass src limit) (Cursor.start src.text).skipInsignificant cs e → c ∈ cs →
      Attempted src limit 0 c
  | child {depth c name e cs d e'} : Attempted src limit depth c →
      Rule.OpensGroup src limit depth c name e →
      Leaves (Rule.childPass src name depth (Rule.read src limit (limit - depth).toNat (depth + 1))) e cs e' →
      d ∈ cs ∨ d = e' ∧ 4 * depth < src.nextIndentation e'.position.line →
      Attempted src limit (depth + 1) d.skipInsignificant

namespace Run

theorem advances (h : Run src limit c doc)
    (hcontent : c.rest ≠ [] → isBlankLine (src.line c.position.line) = false) :
    c.Passes doc.cursor doc.starts ∧ ∀ p ∈ doc.starts, isBlankLine (src.line p.line) = false := by
  induction h with
  | ended => exact ⟨.nil .., nofun⟩
  | @declaration c first more hin hc hfirst hrun ih =>
    have hne : c.rest ≠ [] := fun hnil => hc (atLineEnd_of_rest_nil hnil)
    have ha : (readTopLevel src limit c).Advances src c := advances_readTopLevel hin (hcontent hne)
    have hreach := reaches_readTopLevel src limit c
    have hend := atLineEnd_readTopLevel src limit c
    have hskip := reaches_skipInsignificant (readTopLevel src limit c).cursor
    obtain ⟨hpasses, hall⟩ := ih fun hne =>
      ((hin.reaches hreach).opensLine hend hne).not_isBlankLine_skipInsignificant hne
    have hbelow : ∀ q ∈ more.starts, (readTopLevel src limit c).cursor.position.line < q.line := by
      intro q hq
      have hne : (readTopLevel src limit c).cursor.skipInsignificant.rest ≠ [] := by
        intro hnil
        rw [hrun.eq_of_rest_nil hnil] at hq
        exact absurd hq List.not_mem_nil
      exact Int.lt_of_lt_of_le (line_lt_skipInsignificant (hin.reaches hreach) hend hne)
        (hpasses.line_le hq).1
    exact ⟨ha.passes.append (hpasses.widen hskip (.refl _)) hbelow hreach (hskip.trans hrun.reaches),
      List.forall_mem_append.2 ⟨ha.content, hall⟩⟩

theorem leaves (h : Run src limit c doc) :
    ∃ cs, Leaves (topLevelPass src limit) c cs doc.cursor ∧
      doc.starts = cs.flatMap (fun c => (readTopLevel src limit c).starts) ∧ ∀ c ∈ cs, c.IsIn src := by
  induction h with
  | @ended c _ hc =>
    exact ⟨[], .left (if_pos (List.isEmpty_iff.2 hc)), rfl, List.forall_mem_nil _⟩
  | @declaration c first more hin hc hfirst hrun ih =>
    obtain ⟨cs, hleaves, hstarts, hplaces⟩ := ih
    have hend : ¬ c.atEnd := fun h => hc (atLineEnd_of_rest_nil (List.isEmpty_iff.1 h))
    have hreach := (reaches_readTopLevel src limit c).trans (reaches_skipInsignificant _)
    have hoffset := hreach.offset_lt (length_readTopLevel_lt src limit hc)
    refine ⟨c :: cs, .again (if_neg hend) hoffset hleaves, ?_, List.forall_mem_cons.2 ⟨hin, hplaces⟩⟩
    dsimp only
    rw [hstarts, List.flatMap_cons]

theorem starts_of_attempted (h : Run src limit (Cursor.start src.text).skipInsignificant doc) {depth : Nat}
    (hattempted : Attempted src limit depth c) : c.IsIn src ∧ c.position ∈ doc.starts ∧
      ∀ name e, Rule.OpensGroup src limit depth c name e →
        (Rule.readChildren src name depth (Rule.read src limit (limit - depth).toNat (depth + 1)) e).starts ⊆
          doc.starts := by
  -- What is looked for in a group is claimed along with the group itself, so that its children are reached.
  induction hattempted with
  | @declaration cs c e hleaves hc =>
    obtain ⟨cs', hleaves', hstarts, hplaces⟩ := h.leaves
    obtain ⟨rfl, -⟩ := hleaves.unique hleaves'
    have hsub : (readTopLevel src limit c).starts ⊆ doc.starts :=
      fun p hp => hstarts ▸ List.mem_flatMap.2 ⟨c, hc, hp⟩
    rw [starts_readTopLevel, List.cons_subset] at hsub
    refine ⟨hplaces c hc, hsub.1, fun name e hopens => ?_⟩
    rw [← hopens.starts_readAt]
    rw [if_pos hopens.startsName] at hsub
    exact hsub.2
  | @child depth c name e cs d e' _ hopens hleaves hd ih =>
    obtain ⟨hin, -, hgroup⟩ := ih
    have hsub := hgroup name e hopens
    have hreads := Rule.readsRules_read src limit (limit - depth).toNat (depth + 1)
    obtain ⟨hin', hend'⟩ := hopens.isIn hin
    have hblock : Rule.Block src name depth _ e _ := Rule.block_readChildren hreads hin' hend'
    obtain ⟨cs', e₁, hleaves', -, hstarts, hplaces⟩ := hblock.leaves hreads
    obtain ⟨rfl, rfl⟩ := hleaves.unique hleaves'
    rw [hstarts, List.append_subset] at hsub
    rw [List.forall_mem_cons] at hplaces
    rcases hd with hd | ⟨rfl, hdeep⟩
    · have hchild : (Rule.readChild src name depth (Rule.read src limit (limit - depth).toNat (depth + 1))
          d.skipInsignificant).starts ⊆ doc.starts :=
        fun p hp => hsub.1 (List.mem_flatMap.2 ⟨d, hd, hp⟩)
      rw [Rule.starts_readChild, List.cons_subset] at hchild
      refine ⟨(hplaces.2 d hd).1.reaches d.reaches_skipInsignificant, hchild.1, fun name e hopens => ?_⟩
      rw [if_pos hopens.startsName] at hchild
      have hlevels : (limit + 1 - (depth + 1 : Nat)).toNat = (limit - depth).toNat := by omega
      rw [← hopens.starts_readAt, Rule.readAt_aligned src limit (depth + 1) hopens.indentation_eq, hlevels]
      exact hchild.2
    -- The last iteration, if the line is too deep, is all that is left to look at.
    · obtain ⟨hmisplaced, hwidth⟩ := Rule.starts_readChildren_of_misplaced name hreads
        hplaces.1.1 hplaces.1.2 hleaves.pass_eq_none hdeep
      rw [hmisplaced, List.cons_subset] at hsub
      exact ⟨hplaces.1.1.reaches (reaches_skipInsignificant _), hsub.2.1,
        fun name e hopens => absurd hopens.indentation_eq hwidth⟩

end Run

/-- Declarations are looked for on content lines, one below the other. The loops over declarations
and over children, the one between two tokens, and those over the lines of a block are all left, for
each iteration that goes on moves the cursor. -/
theorem attempts_advance (src : Source) (limit : Int) :
    (∃ doc, read src limit = .ok doc ∧ (doc.starts.map Position.line).Pairwise (· < ·) ∧
      (∀ p ∈ doc.starts, p.line ∈ src.contentLines) ∧
      doc.starts.length ≤ src.contentLines.length ∧
      (∀ depth c, Attempted src limit depth c → c.position ∈ doc.starts) ∧
      ∃ cs, Leaves (topLevelPass src limit) (Cursor.start src.text).skipInsignificant cs doc.cursor ∧
        (cs.map Cursor.position).Sublist doc.starts) ∧
    (∀ c : Cursor, c.IsIn src → c.atLineEnd → ∀ parent levels depth, ∃ cs e,
      let child := Rule.read src limit levels (depth + 1)
      Leaves (Rule.childPass src parent depth child) c cs e ∧
        (Rule.readChildren src parent depth child c).cursor =
          (Rule.readChildren src parent depth child e).cursor ∧
        (cs.map fun d => d.skipInsignificant.position).Sublist
          (Rule.readChildren src parent depth child c).starts) ∧
    (∀ (c : Cursor) margin, ∃ cs e, Leaves (gapPass src margin) c cs e ∧
      c.skipGap src margin = e.skipContinuedBlanks.skipComment) ∧
    (∀ c : Cursor, c.IsIn src → ∀ margin, ∃ cs,
      Leaves (blockPass src margin) c.skipLine cs (c.skipBlock src margin)) ∧
    ∀ c : Cursor, c.IsIn src → ∀ n : Int, n ≤ src.lineCount →
      ∃ cs, Leaves (linePass n) c cs (c.toLine n) := by
  refine ⟨?_, ?_, ?_, ?_, ?_⟩
  · obtain ⟨doc, hrun, hread⟩ := run_read src limit
    obtain ⟨hpasses, hcontent⟩ := hrun.advances fun hne =>
      (opensLine_start src hne).not_isBlankLine_skipInsignificant hne
    have hlines := List.pairwise_map.2 hpasses.lines
    have hmem : ∀ p ∈ doc.starts, p.line ∈ src.contentLines := by
      intro p hp
      obtain ⟨b, hb, -, rfl⟩ := hpasses.between p hp
      exact (hrun.isIn.reaches hb).mem_contentLines (hcontent _ hp)
    obtain ⟨cs, hleaves, hstarts, -⟩ := hrun.leaves
    refine ⟨_, hread, hlines, hmem, Source.length_le_contentLines hlines hmem,
      fun depth c hattempted => (hrun.starts_of_attempted hattempted).2.1, cs, hleaves, ?_⟩
    exact hstarts ▸ map_sublist_flatMap (fun c => ⟨_, starts_readTopLevel src limit c⟩) cs
  · intro c hin hend parent levels depth
    have hreads := Rule.readsRules_read src limit levels (depth + 1)
    obtain ⟨cs, e, hleaves, hcursor, hstarts, -⟩ := (Rule.block_readChildren hreads hin hend).leaves hreads
    refine ⟨cs, e, hleaves, hcursor, ?_⟩
    rw [hstarts]
    refine (map_sublist_flatMap (fun d => ?_) cs).trans (List.sublist_append_left _ _)
    exact ⟨_, Rule.starts_readChild src parent depth _ d.skipInsignificant⟩
  · exact fun c margin => leaves_skipGap src margin c
  · exact fun c hin margin => leaves_skipBlock hin margin
  · exact fun c hin n hn => leaves_toLine hin hn

end Document

end IndentedGrammar
