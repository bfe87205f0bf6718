import IndentedGrammar.Proofs.Document.Totality
import IndentedGrammar.Proofs.Rule.Limit
import IndentedGrammar.Proofs.Term.Lexing
import Mathlib.Data.List.Basic

namespace IndentedGrammar

open Cursor

variable {src : Source} {limit limit' : Int}

theorem Rule.readAt_relaxed (src : Source) (h : limit ≤ limit') (depth : Int) (c : Cursor) :
    (readAt src limit depth c).Relaxed (readAt src limit' depth c) := by
  rw [readAt, readAt]
  split
  · exact .refl _
  · exact read_relaxed src h (by omega) _ c

theorem Diagnostic.AboutLimit.message_eq {d : Diagnostic} (h : d.AboutLimit) :
    ∃ n, d.message = (Problem.tooDeep n).message := by
  obtain ⟨n, hd⟩ := h
  exact ⟨n, congrArg Problem.message hd⟩

namespace Document

theorem readTopLevel_relaxed (src : Source) (h : limit ≤ limit') (c : Cursor) :
    (readTopLevel src limit c).Relaxed (readTopLevel src limit' c) := by
  rw [readTopLevel, readTopLevel]
  rcases Rule.readDeclaration_relaxed src (Rule.readAt_relaxed src h 0) c with h | ⟨d, hmem, hd⟩
  · rw [h]
    exact .refl _
  · right
    dsimp only
    split
    · exact ⟨d, hmem, hd⟩
    · exact ⟨d, hmem, hd⟩
    · exact ⟨d, hmem, hd⟩

namespace Run

variable {c : Cursor} {doc : Document}

theorem readFrom_eq (h : Run src limit c doc) : readFrom src limit c = .ok doc := by
  induction h with
  | ended _ hc => exact readFrom_of_rest_nil src limit hc
  | declaration _ hc hfirst _ ih =>
    rw [Document.readFrom_eq src limit hc, hfirst, ih]

theorem relaxed (h : Run src limit c doc) (hle : limit ≤ limit')
    (hd : ∀ d ∈ doc.diagnostics, ¬ d.AboutLimit) : Run src limit' c doc := by
  induction h with
  | ended hin hc => exact .ended hin hc
  | @declaration c first more hin hc hfirst _ ih =>
    rcases readTopLevel_relaxed src hle c with h | ⟨d, hmem, hlimit⟩
    · rw [← h] at hfirst hd ih ⊢
      exact .declaration hin hc hfirst (ih fun d hmem => hd d (List.mem_append_right _ hmem))
    · exact absurd hlimit (hd d (List.mem_append_left _ hmem))

end Run

end Document

theorem lexes_blanks {gap text : List Char} {toks : List Token} (hgap : gap.all isBlank)
    (h : Lexes text toks) : Lexes (gap ++ text) toks := by
  induction gap with
  | nil => exact h
  | cons ch gap ih =>
    simp only [List.all_cons, Bool.and_eq_true] at hgap
    exact (ih hgap.2).blank hgap.1

theorem lexes_blankLine {line : List Char} (hblank : isBlankLine line) (hn : '\n' ∉ line) :
    Lexes line [] := by
  induction line with
  | nil => exact .ended
  | cons ch line ih =>
    rw [List.mem_cons, not_or] at hn
    by_cases hch : isBlank ch
    · have hline : isBlankLine line := by simpa [isBlankLine, hch] using hblank
      exact (ih hline hn.2).blank hch
    · obtain rfl : ch = '#' := by simpa [isBlankLine, hch] using hblank
      have hend : (line ++ []).dropWhile (· ≠ '\n') = [] :=
        List.dropWhile_append_of_pos fun b hb => by simpa using fun e : b = '\n' => hn.2 (e ▸ hb)
      rw [List.append_nil] at hend
      apply Lexes.comment
      rw [hend]
      exact .ended

theorem Splits.lexes {text : List Char} {toks : List Token} (h : Splits text toks)
    (hn : '\n' ∉ text) : Lexes text toks := by
  induction h with
  | ending hblank => exact lexes_blankLine hblank hn
  | token hgap hm _ _ ih =>
    simp only [List.mem_append, not_or] at hn
    exact lexes_blanks hgap (.token hm (by rw [List.drop_left]; exact ih hn.2.2))

def NestsWithin (n : Nat) (text : List Char) : Prop :=
  ∃ toks, Lexes text toks ∧ Token.OpenAtMost n toks

namespace Term

theorem nestsWithin_chars {t : Term} (h : t.WellFormed) {n : Nat} (hn : t.nesting 0 ≤ n) :
    NestsWithin n (t.chars 0) := by
  obtain ⟨toks, hsplits, -, hopen⟩ := exists_tokens h
  exact ⟨toks, hsplits.lexes (written t h 0 (by decide)).singleLine, (hopen n).2 hn⟩

mutual

theorem nesting_le_of_mem_walk : (t : Term) → ∀ u ∈ t.walk, u.nesting 0 ≤ t.nesting 0
  | ⟨kind, position, text, children⟩, u, hu => by
    rcases List.mem_cons.1 hu with rfl | hu
    · exact Nat.le_refl _
    · have hall : nestingAll 0 children ≤ nestingAll (kind.precedence + 1) children :=
        nestingAll_le_iff.2 fun t ht => Nat.le_trans (nesting_mono (Nat.zero_le _) t)
          (nestingAll_le_iff.1 (Nat.le_refl _) t ht)
      have := nesting_le_of_mem_walkAll children u hu
      rw [nesting]
      omega

theorem nesting_le_of_mem_walkAll : (ts : List Term) → ∀ u ∈ walkAll ts, u.nesting 0 ≤ nestingAll 0 ts
  | [], u, hu => absurd hu List.not_mem_nil
  | t :: ts, u, hu => by
    rw [nestingAll]
    rcases List.mem_append.1 hu with hu | hu
    · have := nesting_le_of_mem_walk t u hu
      omega
    · have := nesting_le_of_mem_walkAll ts u hu
      omega

end

end Term

namespace Document

/-- Every larger limit gives the same document if nothing was too deep. No rule is inside of more
groups than the limit allows, and no term is written with more parentheses open at once. -/
theorem read_within_limit (src : Source) (limit : Int) :
    ∃ doc, read src limit = .ok doc ∧
      (∀ limit', limit ≤ limit' →
        (∀ d ∈ doc.diagnostics, ∀ n, d.message ≠ (Problem.tooDeep n).message) →
          read src limit' = .ok doc) ∧
      ∀ r ∈ Rule.walkAll doc.rules, (r.scope.length : Int) ≤ limit ∧
        ∀ t ∈ r.term?, ∀ u ∈ t.walk, ∃ text, u.render? = some text ∧
          NestsWithin limit.toNat text.toList := by
  obtain ⟨run, hrun, hread⟩ := run_read src limit
  obtain ⟨doc, hdoc, hfits⟩ := read_ok src limit
  obtain rfl := Except.ok.inj (hread.symm.trans hdoc)
  refine ⟨_, hdoc, ?_, ?_⟩
  · intro limit' hle hdeep
    have hrun' := hrun.relaxed hle fun d hd hlimit => by
      obtain ⟨n, hn⟩ := hlimit.message_eq
      exact hdeep d hd n hn
    rw [read, hrun'.readFrom_eq]
  · intro r hr
    obtain ⟨scope, hwf⟩ := Rule.wellFormed_of_mem_walkAll run.rules
      (Rule.allWellFormed_iff.2 fun u hu => (hfits u hu).wellFormed) r hr
    obtain ⟨top, htop, hmem⟩ := Rule.mem_walkAll.1 hr
    have hscope := (hfits top htop).scopes r hmem
    refine ⟨by omega, ?_⟩
    intro t ht u hu
    have hu' := Term.wellFormed_of_mem_walk t (hwf.term ht) u hu
    have hnesting := Nat.le_trans (Term.nesting_le_of_mem_walk t u hu)
      ((hfits top htop).nesting r hmem t ht)
    refine ⟨_, Term.render?_of_wellFormed hu', ?_⟩
    rw [String.toList_ofList]
    exact Term.nestsWithin_chars hu' hnesting

theorem read_within_limit_group :
    let src := Source.ofText ['a', ':', ' ', '(', 'b', ')', '\n'] none
    ∃ doc, read src 1 = .ok doc ∧
      (∀ d ∈ doc.diagnostics, ∀ n, d.message ≠ (Problem.tooDeep n).message) ∧
      read src 5 = .ok doc := by
  intro src
  obtain ⟨doc, hdoc, hlimit, -⟩ := read_within_limit src 1
  have hsilent : (read src 1).toOption.all (·.diagnostics.isEmpty) := by cbv
  rw [hdoc] at hsilent
  have hdeep : ∀ d ∈ doc.diagnostics, ∀ n, d.message ≠ (Problem.tooDeep n).message := by
    rw [List.isEmpty_iff.1 hsilent]
    simp
  exact ⟨doc, hdoc, hdeep, hlimit 5 (by decide) hdeep⟩

end Document

end IndentedGrammar
