import IndentedGrammar.Proofs.Rule.Printing

namespace IndentedGrammar

def indentLine (n : Nat) (line : List Char) : List Char :=
  if line = [] then [] else List.replicate n ' ' ++ line

def indentLines (n : Nat) (text : List Char) : List Char :=
  List.intercalate ['\n'] ((splitLines text).map (indentLine n))

namespace Rule

mutual

def mapScope (f : List String → List String) : Rule → Rule
  | .terminal heading term => .terminal { heading with scope := f heading.scope } term
  | .group heading children =>
    .group { heading with scope := f heading.scope } (mapScopeAll f children)

def mapScopeAll (f : List String → List String) : List Rule → List Rule
  | [] => []
  | r :: rs => r.mapScope f :: mapScopeAll f rs

end

mutual

theorem enclosed_eq_mapScope (scope : List String) :
    (r : Rule) → r.enclosed scope = r.mapScope (scope ++ ·)
  | .terminal heading term => by rw [enclosed_terminal, mapScope]
  | .group heading children => by
    rw [enclosed_group, mapScope, map_enclosed_eq_mapScopeAll scope children]

theorem map_enclosed_eq_mapScopeAll (scope : List String) :
    (rs : List Rule) → rs.map (enclosed scope) = mapScopeAll (scope ++ ·) rs
  | [] => rfl
  | r :: rs => by
    rw [List.map_cons, mapScopeAll, enclosed_eq_mapScope scope r,
      map_enclosed_eq_mapScopeAll scope rs]

end

mutual

theorem walk_mapScope (f : List String → List String) :
    (r : Rule) → (r.mapScope f).walk = r.walk.map (mapScope f)
  | .terminal heading term => rfl
  | .group heading children => by
    rw [mapScope, walk, walk, List.map_cons, mapScope, walkAll_mapScopeAll f children]

theorem walkAll_mapScopeAll (f : List String → List String) :
    (rs : List Rule) → walkAll (mapScopeAll f rs) = (walkAll rs).map (mapScope f)
  | [] => rfl
  | r :: rs => by
    rw [mapScopeAll, walkAll, walkAll, List.map_append, walk_mapScope f r, walkAll_mapScopeAll f rs]

end

@[simp] theorem term?_mapScope (f : List String → List String) (r : Rule) :
    (r.mapScope f).term? = r.term? := by
  cases r <;> rfl

theorem allPrintable_mapScope (f : List String → List String) (r : Rule) :
    allPrintable [r.mapScope f] = allPrintable [r] := by
  simp [allPrintable, walkAll, walk_mapScope, Function.comp_def]

theorem line_mapScope (outer : List String) (r : Rule) :
    (r.mapScope (outer ++ ·)).line = List.replicate (4 * outer.length) ' ' ++ r.line := by
  cases r <;>
    simp [mapScope, line, scope, name, Rule.heading, Nat.mul_add,
      ← List.replicate_append_replicate]

theorem line_ne_nil (r : Rule) : r.line ≠ [] := by
  cases r <;> simp [line]

theorem newline_not_mem_line {r : Rule} (hname : '\n' ∉ r.name.toList)
    (hterm : ∀ t ∈ r.term?, '\n' ∉ t.chars 0) : '\n' ∉ r.line := by
  cases r with
  | terminal heading term => simpa [line, hname] using hterm term rfl
  | group heading children => simp [line, hname]

theorem splitLines_flatMap_line {rules : List Rule} (h : ∀ r ∈ rules, '\n' ∉ r.line) :
    splitLines (rules.flatMap fun r => r.line ++ ['\n']) = rules.map line ++ [[]] := by
  induction rules with
  | nil => rfl
  | cons r rules ih =>
    rw [List.forall_mem_cons] at h
    rw [List.flatMap_cons, List.append_assoc, List.singleton_append, splitLines_line h.1, ih h.2]
    rfl

theorem splitLines_chars {r : Rule} (h : ∀ u ∈ r.walk, '\n' ∉ u.line) :
    splitLines r.chars = r.walk.map line ++ if r.isTerminal then [] else [[]] := by
  cases r with
  | terminal heading term => exact splitLines_of_not_mem (h _ List.mem_cons_self)
  | group heading children =>
    have hwalk : walkAll [group heading children] = (group heading children).walk := List.append_nil _
    rw [chars, charsAll, hwalk, splitLines_flatMap_line h]
    rfl

theorem chars_mapScope (outer : List String) {r : Rule} (h : ∀ u ∈ r.walk, '\n' ∉ u.line) :
    (r.mapScope (outer ++ ·)).chars = indentLines (4 * outer.length) r.chars := by
  have hmoved (u : Rule) : (u.mapScope (outer ++ ·)).line = indentLine (4 * outer.length) u.line := by
    rw [line_mapScope, indentLine, if_neg u.line_ne_nil]
  have hlines : ∀ u ∈ (r.mapScope (outer ++ ·)).walk, '\n' ∉ u.line := by
    rw [walk_mapScope, List.forall_mem_map]
    intro u hu
    rw [line_mapScope]
    simpa using h u hu
  have hterminal : (r.mapScope (outer ++ ·)).isTerminal = r.isTerminal := by
    cases r <;> rfl
  rw [indentLines, splitLines_chars h, ← intercalate_cutAt '\n' (chars _), ← splitLines,
    splitLines_chars hlines, hterminal, walk_mapScope]
  cases r.isTerminal <;> simp [hmoved, indentLine, Function.comp_def]

/-- Rules whose names and terms are written on one line each. Put inside of one group after the other, all
their scopes begin with the names of these groups, the last one first. Nothing else changes, and in the
written form each line that is not empty moves to the right. -/
theorem render_within (parents : List String) {r : Rule} (hprintable : allPrintable [r])
    (hname : ∀ u ∈ r.walk, '\n' ∉ u.name.toList)
    (hterm : ∀ u ∈ r.walk, ∀ t ∈ u.term?, '\n' ∉ t.chars 0) :
    let inner := parents.foldl (fun r parent => r.within parent) r
    inner = r.mapScope (parents.reverse ++ ·) ∧
      ∃ text, r.render? = some text ∧
        inner.render? = some (String.ofList (indentLines (4 * parents.length) text.toList)) := by
  intro inner
  have hscope : inner = r.mapScope (parents.reverse ++ ·) := by
    rw [← enclosed_eq_mapScope, enclosed, List.foldr_reverse]
  have hline : ∀ u ∈ r.walk, '\n' ∉ u.line :=
    fun u hu => newline_not_mem_line (hname u hu) (hterm u hu)
  refine ⟨hscope, String.ofList r.chars, if_pos hprintable, ?_⟩
  rw [hscope, render?, if_pos (by rwa [allPrintable_mapScope]), chars_mapScope _ hline,
    List.length_reverse, String.toList_ofList]

def sampleGroup : Rule :=
  .group ⟨"a", .start, ["x", "y"]⟩
    [.terminal ⟨"b", .start, []⟩ ⟨.literal, .start, some "c", []⟩]

theorem render_within_sampleGroup :
    let inner := (sampleGroup.within "p").within "q"
    inner = sampleGroup.mapScope (["q", "p"] ++ ·) ∧
      ∃ text, sampleGroup.render? = some text ∧
        inner.render? = some (String.ofList (indentLines 8 text.toList)) :=
  render_within (r := sampleGroup) ["p", "q"] (by decide) (by decide) (by decide)

end Rule

end IndentedGrammar
