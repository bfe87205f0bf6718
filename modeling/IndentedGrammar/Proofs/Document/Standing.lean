import IndentedGrammar.Proofs.Document.Silence
import IndentedGrammar.Proofs.Rule.Standing

namespace IndentedGrammar

open Cursor

namespace Document

variable {src : Source} {limit : Int} {c : Cursor} {doc : Document}

theorem stands_readTopLevel (hin : c.IsIn src) (hopens : c.rest ≠ [] → c.OpensLine src) {r : Rule}
    (hr : (readTopLevel src limit c).result = .ok (some r)) :
    r.Stands src 0 ∧ r.position = c.position := by
  have hsilent := (orderly_readTopLevel hin).reports.silent hr
  obtain ⟨hc, -, hread, -⟩ := yields_of_readTopLevel ⟨hr, hsilent, rfl⟩
  exact Rule.stands_read src limit _ 0 hin (hopens (rest_ne_nil_of_startsName hc)) hc hread

theorem opensLine_readTopLevel (hin : c.IsIn src)
    (hne : (readTopLevel src limit c).cursor.skipInsignificant.rest ≠ []) :
    (readTopLevel src limit c).cursor.skipInsignificant.OpensLine src :=
  (hin.reaches (reaches_readTopLevel src limit c)).opensLine (atLineEnd_readTopLevel src limit c) hne

theorem Run.stands (h : Run src limit c doc) (hopens : c.rest ≠ [] → c.OpensLine src) :
    ∀ r ∈ doc.rules, r.Stands src 0 := by
  induction h with
  | ended => exact fun _ hr => absurd hr List.not_mem_nil
  | declaration hin hend hfirst hrun ih =>
    intro r hr
    rcases List.mem_append.1 hr with hr | hr
    · obtain rfl := Option.mem_toList.1 hr
      exact (stands_readTopLevel hin hopens hfirst).1
    · exact ih (opensLine_readTopLevel hin) r hr

/-- Every rule in a document has the names of the groups around it as its scope, and is declared on a
line of its own with the indentation that belongs to them. The lines go up as the rules are walked. -/
theorem rules_declared (src : Source) (limit : Int) :
    ∃ doc, read src limit = .ok doc ∧
      (∀ r, r ∈ Rule.walkAll doc.rules ↔ ∃ above, Rule.Below doc.rules above r) ∧
      (∀ above r, Rule.Below doc.rules above r →
        r.scope = above.map Rule.name ∧ r.DeclaredIn src above.length) ∧
      (Rule.walkAll doc.rules).Pairwise fun r u => r.position.line < u.position.line := by
  obtain ⟨doc, hrun, hread⟩ := run_read src limit
  obtain ⟨doc', hread', hfits⟩ := read_ok src limit
  obtain rfl := Except.ok.inj (hread.symm.trans hread')
  obtain ⟨ps, hps, -, hsub, -⟩ := hrun.passes
  have hwf : Rule.AllWellFormed [] doc.rules :=
    Rule.allWellFormed_iff.2 fun r hr => (hfits r hr).wellFormed
  refine ⟨_, hread, fun r => Rule.mem_walkAll_iff, ?_, ?_⟩
  · intro above r hr
    obtain ⟨hdeclared, -⟩ := hr.stands (hrun.stands (opensLine_start src))
    exact ⟨(hr.wellFormed hwf).scope_eq, hdeclared⟩
  · have hlines := List.pairwise_map.1 (hps.lines.sublist hsub)
    exact hlines

end Document

end IndentedGrammar
