import IndentedGrammar.Proofs.Rule.Outcome
import IndentedGrammar.Proofs.Term.RoundTrip
import IndentedGrammar.Rule.Printer

namespace IndentedGrammar.Rule

open Cursor

def bare (r : Rule) : Rule := r.mapPosition fun _ => .start

def enclosed (scope : List String) (r : Rule) : Rule := scope.foldr within r

mutual

def declaration : Rule → List Char
  | .terminal heading term => heading.name.toList ++ ':' :: ' ' :: term.chars 0
  | .group heading children => heading.name.toList ++ '.' :: '.' :: '.' :: declarations children

def declarations : List Rule → List Char
  | [] => []
  | r :: rs => '\n' :: (List.replicate (4 * r.scope.length)
    ' ' ++ (declaration r ++ declarations rs))

end

mutual

theorem flatMap_walk : (r : Rule) →
    r.walk.flatMap (fun u => u.line ++ ['\n']) =
      List.replicate (4 * r.scope.length) ' ' ++ (declaration r ++ ['\n'])
  | .terminal heading term => by simp [walk, line, declaration, name, Rule.heading]
  | .group heading children => by
    have hchildren := newline_charsAll children
    have hline : (group heading children).line =
        List.replicate (4 * heading.scope.length) ' ' ++ heading.name.toList ++ ['.', '.',
          '.'] := rfl
    rw [charsAll] at hchildren
    rw [walk, List.flatMap_cons, hline, declaration]
    simp [scope, Rule.heading, hchildren]

theorem newline_charsAll : (rs : List Rule) → '\n' :: charsAll rs = declarations rs ++ ['\n']
  | [] => rfl
  | r :: rs => by
    have hrest := newline_charsAll rs
    rw [charsAll] at hrest ⊢
    simp [walkAll, declarations, flatMap_walk r, hrest]

end

theorem bare_terminal (heading : Heading) (t : Term) :
    (terminal heading t).bare = terminal { heading with position := .start } t.bare := rfl

theorem bare_group (heading : Heading) (rs : List Rule) :
    (group heading rs).bare = group { heading with position := .start } (rs.map bare) := by
  rw [bare, mapPosition, mapPositionAll_eq_map]
  rfl

theorem enclosed_terminal (scope : List String) (heading : Heading) (t : Term) :
    (terminal heading t).enclosed scope =
      terminal { heading with scope := scope ++ heading.scope } t := by
  induction scope with
  | nil => rfl
  | cons parent scope ih => rw [enclosed, List.foldr_cons, ← enclosed, ih, within, List.cons_append]

theorem enclosed_group (scope : List String) (heading : Heading) (rs : List Rule) :
    (group heading rs).enclosed scope =
      group { heading with scope := scope ++ heading.scope } (rs.map (enclosed scope)) := by
  induction scope with
  | nil =>
    rw [show enclosed [] = id from rfl, List.map_id]
    rfl
  | cons parent scope ih =>
    rw [enclosed, List.foldr_cons, ← enclosed, ih, within, withinAll_eq_map, List.map_map]
    rfl

theorem enclosed_within (scope : List String) (parent : String) (r : Rule) :
    (r.within parent).enclosed scope = r.enclosed (scope ++ [parent]) := by
  rw [enclosed, enclosed, List.foldr_append]
  rfl

@[simp] theorem position_within (parent : String) (r : Rule) :
    (r.within parent).position = r.position := by
  cases r <;> rfl

mutual

theorem walk_bare : (r : Rule) → r.bare.walk = r.walk.map bare
  | .terminal heading t => rfl
  | .group heading rs => by rw [bare_group, walk, walk, List.map_cons, bare_group, walkAll_bare rs]

theorem walkAll_bare : (rs : List Rule) → walkAll (rs.map bare) = (walkAll rs).map bare
  | [] => rfl
  | r :: rs => by
    rw [List.map_cons, walkAll, walkAll, walk_bare r, walkAll_bare rs, List.map_append]

end

theorem line_bare (r : Rule) : r.bare.line = r.line := by
  cases r with
  | terminal heading t =>
    rw [bare_terminal, line, line]
    simp only [Term.chars_bare]
    rfl
  | group heading rs =>
    rw [bare_group]
    rfl

theorem charsAll_bare (rs : List Rule) : charsAll (rs.map bare) = charsAll rs := by
  rw [charsAll, charsAll, walkAll_bare, List.flatMap_map]
  simp only [line_bare]

theorem allPrintable_bare (rs : List Rule) : allPrintable (rs.map bare) = allPrintable rs := by
  rw [allPrintable, allPrintable, walkAll_bare, List.all_map]
  congr 1
  funext r
  cases r with
  | terminal heading t => exact Term.printable_bare t
  | group heading rs => rfl

theorem renderAll?_congr {rs rs' : List Rule} (h : rs.map bare = rs'.map bare) :
    renderAll? rs = renderAll? rs' := by
  rw [renderAll?, renderAll?, ← allPrintable_bare rs, ← charsAll_bare rs, h, allPrintable_bare,
    charsAll_bare]

def Placed (line : Int) (depth : Nat) (rs : List Rule) : Prop :=
  ∀ (k : Nat) (r : Rule), rs[k]? = some r →
    r.position.line = line + k ∧ r.position.column = 4 * (depth + r.scope.length) + 1

namespace Placed

variable {line : Int} {depth : Nat} {r : Rule} {rs rs' : List Rule}

theorem nil : Placed line depth [] := nofun

theorem cons (hline : r.position.line = line)
    (hcolumn : r.position.column = 4 * (depth + r.scope.length) + 1)
    (h : Placed (line + 1) depth rs) : Placed line depth (r :: rs) := by
  intro k u hu
  cases k with
  | zero =>
    obtain rfl := Option.some.inj hu
    exact ⟨by simp [hline], hcolumn⟩
  | succ k =>
    obtain ⟨hl, hc⟩ := h k u hu
    refine ⟨?_, hc⟩
    rw [hl]
    omega

theorem append (h : Placed line depth rs) (h' : Placed (line + rs.length) depth rs') :
    Placed line depth (rs ++ rs') := by
  induction rs generalizing line with
  | nil => simpa using h'
  | cons r rs ih =>
    obtain ⟨hl, hc⟩ := h 0 r rfl
    refine cons (by simpa using hl) hc (ih ?_ ?_)
    · intro k u hu
      obtain ⟨hl, hc⟩ := h (k + 1) u hu
      refine ⟨?_, hc⟩
      rw [hl]
      omega
    · rwa [List.length_cons, Int.natCast_add, Int.add_comm (rs.length : Int), ← Int.add_assoc] at h'

theorem within (h : Placed line (depth + 1) rs) (parent : String) :
    Placed line depth (rs.map (within parent)) := by
  intro k u hu
  rw [List.getElem?_map] at hu
  obtain ⟨r, hr, rfl⟩ := Option.map_eq_some_iff.1 hu
  obtain ⟨hl, hc⟩ := h k r hr
  rw [position_within, scope_within, List.length_cons]
  refine ⟨hl, ?_⟩
  rw [hc]
  omega

end Placed

end IndentedGrammar.Rule
