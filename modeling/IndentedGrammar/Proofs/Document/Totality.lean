import IndentedGrammar.Proofs.Document.RoundTrip
import IndentedGrammar.Proofs.Document.Run

namespace IndentedGrammar

namespace Term

theorem render?_of_wellFormed {t : Term} (h : t.WellFormed) :
    t.render? = some (String.ofList (t.chars 0)) :=
  if_pos (printable_of_wellFormed t h)

end Term

namespace Rule

theorem render?_of_wellFormed {r : Rule} {scope : List String} (h : r.WellFormed scope) :
    r.render? = some (String.ofList r.chars) := by
  have hall : AllWellFormed scope [r] := ⟨h, trivial⟩
  exact if_pos (allPrintable_of_wellFormed hall)

theorem WellFormed.term {r : Rule} {scope : List String} (h : r.WellFormed scope) {t : Term}
    (ht : t ∈ r.term?) : t.WellFormed := by
  cases r with
  | terminal heading term =>
    obtain rfl := Option.some.inj ht
    exact h.2.2
  | group heading rs => simp [term?] at ht

end Rule

namespace Document

/-- Reading never comes to a fault and never stops short of the end of the source. -/
theorem read_total (text : List Char) (file : Option String) (limit : Int) :
    ∃ doc, read (.ofText text file) limit = .ok doc ∧ doc.source = .ofText text file ∧
      doc.cursor.atEnd ∧ ∀ r ∈ Rule.walkAll doc.rules, r.render? = some (String.ofList r.chars) ∧
        ∀ t ∈ r.term?, ∀ u ∈ t.walk, u.render? = some (String.ofList (u.chars 0)) := by
  obtain ⟨run, hrun, hread⟩ := run_read (.ofText text file) limit
  obtain ⟨doc, hdoc, hfits⟩ := read_ok (.ofText text file) limit
  obtain rfl := Except.ok.inj (hread.symm.trans hdoc)
  refine ⟨_, hdoc, hrun.source_eq, List.isEmpty_iff.2 hrun.atEnd, ?_⟩
  intro r hr
  obtain ⟨scope, hwf⟩ := Rule.wellFormed_of_mem_walkAll run.rules
    (Rule.allWellFormed_iff.2 fun u hu => (hfits u hu).wellFormed) r hr
  refine ⟨Rule.render?_of_wellFormed hwf, ?_⟩
  intro t ht u hu
  exact Term.render?_of_wellFormed (Term.wellFormed_of_mem_walk t (hwf.term ht) u hu)

end Document

end IndentedGrammar
