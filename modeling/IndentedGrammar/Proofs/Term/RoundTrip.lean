import IndentedGrammar.Proofs.Term.Printing
import IndentedGrammar.Proofs.Term.SingleLine

namespace IndentedGrammar.Term

open Cursor Token

theorem skipGap_of_atLineEnd {src : Source} {margin : Nat} {c : Cursor} (hin : c.IsIn src)
    (hc : c.atLineEnd) (h : aheadIndentation c.rest ≤ margin) : c.skipGap src margin = c := by
  rw [skipGap, skipContinuedBlanks_eq_self (continuedBlanks_of_atLineEnd hc),
    skipComment_of_atLineEnd hc, dif_neg]
  rw [hin.nextIndentation_eq]
  omega

variable {t : Term} {limit : Int} {src : Source} {c : Cursor}

theorem exists_solid_chars (h : t.WellFormed) : ∃ ch text, t.chars 0 = ch :: text ∧ isSolid ch := by
  obtain ⟨toks, hs, -, -⟩ :=
    (written t h 0 (by decide)).scans (.ofText [] none) 0 (.start (t.chars 0)) []
      (List.append_nil _).symm rfl
  exact hs.exists_solid

/-- What follows may not be indented deeper than the line that the term is on. -/
theorem read_chars (h : t.WellFormed) (hn : t.nesting 0 ≤ limit.toNat) (newlineFirst : Bool)
    {tail : List Char} (hin : c.IsIn src) (hc : c.rest = t.chars 0 ++ '\n' :: tail)
    (htail : aheadIndentation ('\n' :: tail) ≤ src.indentation c.position.line) :
    ∃ t', read src limit newlineFirst c = .done t' (c.drop (t.chars 0).length) ∧
      t'.bare = t.bare := by
  obtain ⟨toks, hs, hd, ho⟩ :=
    (written t h 0 (by decide)).scans src (src.indentation c.position.line) c ('\n' :: tail) hc rfl
  have hrest : (c.drop (t.chars 0).length).rest = '\n' :: tail := by
    rw [rest_drop, hc, List.drop_left]
  have hend : (c.drop (t.chars 0).length).atLineEnd := by simp [atLineEnd, hc]
  have hgap := skipGap_of_atLineEnd (hin.drop (t.chars 0).length) hend (hrest ▸ htail)
  obtain ⟨ch, text, hch, hsolid⟩ := hs.exists_solid
  have hne : ch ≠ '\n' ∧ ch ≠ '#' := by
    constructor <;> rintro rfl <;> exact absurd hsolid (by decide)
  have hfirst : ¬ (c.skipContinuedBlanks.skipComment.atLineEnd && !newlineFirst) := by
    rw [skipContinuedBlanks_of_solid hch hsolid, skipComment_of_ne hch hne.2]
    simp [atLineEnd, hch, hne.1]
  have hs' : Scans src (src.indentation c.position.line)
    (c.skipGap src (src.indentation c.position.line)) toks
      (c.drop (t.chars 0).length) := by rwa [hs.skipGap_eq]
  obtain ⟨t', hread, ht⟩ :=
    read_of_derives limit newlineFirst hfirst hs' (.term hd) (ho.mono hn) (by rwa [hgap])
  rw [hgap] at hread
  exact ⟨t', hread, ht⟩

theorem exists_tokens (h : t.WellFormed) :
    ∃ toks, Splits (t.chars 0) toks ∧ Derives .choice toks [t.bare] ∧
      ∀ n, OpenAtMost n toks ↔ t.nesting 0 ≤ n := by
  have hwritten := written t h 0 (by decide)
  obtain ⟨toks, hs, hd, ho⟩ := hwritten.scans (.ofText (t.chars 0) none) 0 (.start (t.chars 0)) []
    (List.append_nil _).symm rfl
  refine ⟨toks, splits_of_scans hs hwritten.singleLine ?_, hd, fun n => ⟨fun hn => ?_, ho.mono⟩⟩
  · have hnil : ((start (t.chars 0)).drop (t.chars 0).length).rest = [] := by simp [start]
    exact (rest_skipGap_eq_nil_iff (by rw [hnil]; simp)).2 (by rw [hnil]; rfl)
  · rw [← nesting_bare]
    exact hd.nesting_le hn _ (List.mem_singleton_self _)

end IndentedGrammar.Term
