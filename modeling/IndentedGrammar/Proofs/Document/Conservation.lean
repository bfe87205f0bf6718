import IndentedGrammar.Proofs.Document.Silence
import IndentedGrammar.Proofs.Rule.Conservation

namespace IndentedGrammar

open Cursor Token

namespace Document

variable {src : Source} {limit : Int} {c : Cursor} {rs : List Rule} {doc : Document}

theorem Declares.conserves (h : Declares src limit c rs) :
    ∃ e, Rule.Conserves c (Rule.walkAll rs) e ∧ e.rest = [] := by
  induction h with
  | ended hin hc => exact ⟨_, .of_gap (.refl _), hc⟩
  | @declaration c r rs e hin hc hwidth hread hend hmore ih =>
    obtain ⟨d, hconserves, hd⟩ := ih
    have hfirst := Rule.conserves_read src limit _ 0 hin hc hread
    exact ⟨d, hfirst.append ((Rule.Conserves.of_gap (.skipInsignificant e)).append hconserves), hd⟩

/-- The source of a document without diagnostics is one sequence of tokens. But for parentheses and for
bars right behind a colon, they are the tokens of the rules, each rule before its children. -/
theorem tokens_conserved (hread : read src limit = .ok doc) (hsilent : doc.diagnostics = []) :
    ∃ toks, (∀ toks', Lexes src.text toks' ↔ toks' = toks) ∧
      significant toks = (Rule.walkAll doc.rules).flatMap Rule.tokens := by
  obtain ⟨e, hconserves, he⟩ := (declares_of_read hread hsilent).conserves
  obtain ⟨toks, hlexes, hsignificant⟩ :=
    (Rule.Conserves.of_gap (.skipInsignificant (.start src.text))).append hconserves
  have hnothing : Lexes e.rest [] := by
    rw [he]
    exact .ended
  have hwhole := hlexes [] hnothing
  have hcount := hsignificant []
  rw [List.append_nil] at hwhole hcount
  refine ⟨toks, fun toks' => ⟨fun h => h.unique hwhole, fun h => h ▸ hwhole⟩, ?_⟩
  rw [hcount, significant, List.append_nil, List.nil_append]

theorem tokens_conserved_barred :
    let text := ['a', ':', ' ', '|', '(', 'b', '|', '\\', '\n', '\'', 'c', '\'', ')', '#', '(']
    ∃ doc, read (.ofText text none) 1 = .ok doc ∧ doc.diagnostics = [] ∧
      ∃ toks, (∀ toks', Lexes text toks' ↔ toks' = toks) ∧
        significant toks = (Rule.walkAll doc.rules).flatMap Rule.tokens := by
  intro text
  have hread : (read (.ofText text none) 1).toOption.any fun doc => doc.diagnostics.isEmpty := by
    decide +kernel
  cases hdoc : read (.ofText text none) 1 with
  | error f => simp [hdoc, Except.toOption] at hread
  | ok doc =>
    have hsilent : doc.diagnostics = [] := by simpa [hdoc, Except.toOption] using hread
    exact ⟨doc, rfl, hsilent, tokens_conserved hdoc hsilent⟩

end Document

end IndentedGrammar
