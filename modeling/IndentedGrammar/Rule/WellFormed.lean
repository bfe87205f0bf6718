import IndentedGrammar.Rule.Basic
import IndentedGrammar.Term.WellFormed

namespace IndentedGrammar.Rule

mutual

def WellFormed (scope : List String) : Rule → Prop
  | .terminal heading term => isName heading.name.toList ∧ heading.scope = scope ∧ term.WellFormed
  | .group heading children =>
    isName heading.name.toList ∧ heading.scope = scope ∧ children ≠ [] ∧
      AllWellFormed (scope ++ [heading.name]) children

def AllWellFormed (scope : List String) : List Rule → Prop
  | [] => True
  | r :: rs => r.WellFormed scope ∧ AllWellFormed scope rs

end

theorem allWellFormed_iff {scope : List String} {rs : List Rule} :
    AllWellFormed scope rs ↔ ∀ r ∈ rs, r.WellFormed scope := by
  induction rs with
  | nil => simp [AllWellFormed]
  | cons r rs ih => simp [AllWellFormed, ih]

end IndentedGrammar.Rule
