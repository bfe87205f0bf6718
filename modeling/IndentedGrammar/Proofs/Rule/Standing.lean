import IndentedGrammar.Proofs.Rule.Silence
import IndentedGrammar.Proofs.Source.Margin

namespace IndentedGrammar

open Cursor

namespace Rule

def mark : Rule → List Char
  | .terminal _ _ => [':']
  | .group _ _ => ['.', '.', '.']

structure DeclaredIn (src : Source) (depth : Nat) (r : Rule) : Prop where
  name : isName r.name.toList
  text : ∃ lines blanks gap more,
    src.text = lines ++ (blanks ++ (r.name.toList ++ (gap ++ (r.mark ++ more)))) ∧
      WholeLines lines ∧ blanks.all isBlank ∧ gap.all isBlank ∧
      r.position = Position.start.afterAll (lines ++ blanks)
  indentation : src.indentation r.position.line = 4 * depth
  children : r.isTerminal ∨ r.children ≠ []

inductive Stands (src : Source) : Nat → Rule → Prop
  | declared {depth r} : r.DeclaredIn src depth → (∀ u ∈ r.children, Stands src (depth + 1) u) →
      Stands src depth r

/-- `r` is one of `rs`, or it is in one of them inside of the groups `above`, outermost first. -/
inductive Below (rs : List Rule) : List Rule → Rule → Prop
  | top {r} : r ∈ rs → Below rs [] r
  | child {above g r} : Below rs above g → r ∈ g.children → Below rs (above ++ [g]) r

section

variable {src : Source} {depth : Nat} {r : Rule}

theorem DeclaredIn.not_isBlankLine (h : r.DeclaredIn src depth) :
    isBlankLine (src.line r.position.line) = false := by
  obtain ⟨lines, blanks, gap, more, htext, hlines, hblanks, -, hp⟩ := h.text
  obtain ⟨ch, name, hname, hch⟩ := exists_cons_of_isName h.name
  have hopens : Cursor.OpensLine src ⟨_, r.position⟩ := ⟨lines, blanks, htext, hlines, hblanks, hp⟩
  have hsolid := isSolid_of_isNameChar hch
  apply hopens.not_isBlankLine _ (ne_newline_of_isSolid hsolid) (isBlank_of_isSolid hsolid)
    (ne_hash_of_isSolid hsolid)
  rw [hname]
  rfl

theorem children_within (parent : String) (r : Rule) :
    (r.within parent).children = r.children.map (within parent) := by
  cases r with
  | terminal heading t => rfl
  | group heading rs => exact withinAll_eq_map parent rs

theorem DeclaredIn.within (h : r.DeclaredIn src depth) (parent : String) :
    (r.within parent).DeclaredIn src depth := by
  obtain ⟨hname, htext, hwidth, hchildren⟩ := h
  cases r with
  | terminal heading t => exact ⟨hname, htext, hwidth, .inl rfl⟩
  | group heading rs =>
    refine ⟨hname, htext, hwidth, hchildren.imp id ?_⟩
    rw [children_within]
    exact fun hne => mt List.map_eq_nil_iff.1 hne

theorem Stands.within (h : r.Stands src depth) (parent : String) :
    (r.within parent).Stands src depth := by
  induction h with
  | declared hr _ ih =>
    refine .declared (hr.within parent) ?_
    rw [children_within]
    intro u hu
    obtain ⟨v, hv, rfl⟩ := List.mem_map.1 hu
    exact ih v hv

end

section

variable {src : Source} {rs above : List Rule} {r : Rule}

mutual

theorem mem_walk_of_mem_children {u : Rule} (hu : u ∈ r.children) :
    (v : Rule) → r ∈ v.walk → u ∈ v.walk
  | .terminal heading t, hr => by
    obtain rfl := List.mem_singleton.1 hr
    exact absurd hu List.not_mem_nil
  | .group heading vs, hr => by
    apply List.mem_cons_of_mem
    rcases List.mem_cons.1 hr with rfl | hr
    · exact mem_walkAll.2 ⟨u, hu, mem_walk_self u⟩
    · exact mem_walkAll_of_mem_children hu vs hr

theorem mem_walkAll_of_mem_children {u : Rule} (hu : u ∈ r.children) :
    (vs : List Rule) → r ∈ walkAll vs → u ∈ walkAll vs
  | [], hr => absurd hr List.not_mem_nil
  | v :: vs, hr => by
    rcases List.mem_append.1 hr with hr | hr
    · exact List.mem_append_left _ (mem_walk_of_mem_children hu v hr)
    · exact List.mem_append_right _ (mem_walkAll_of_mem_children hu vs hr)

end

theorem Below.mem_walkAll (h : Below rs above r) : r ∈ walkAll rs := by
  induction h with
  | top hr => exact Rule.mem_walkAll.2 ⟨_, hr, mem_walk_self _⟩
  | child _ hr ih => exact mem_walkAll_of_mem_children hr rs ih

mutual

theorem exists_below_of_mem_walk :
    (u : Rule) → ∀ {above}, Below rs above u → r ∈ u.walk → ∃ above, Below rs above r
  | .terminal heading t, above, hu, hr => by
    obtain rfl := List.mem_singleton.1 hr
    exact ⟨above, hu⟩
  | .group heading us, above, hu, hr => by
    rcases List.mem_cons.1 hr with rfl | hr
    · exact ⟨above, hu⟩
    · exact exists_below_of_mem_walkAll us (fun u hus => hu.child hus) hr

theorem exists_below_of_mem_walkAll :
    (us : List Rule) → ∀ {above}, (∀ u ∈ us, Below rs above u) → r ∈ walkAll us →
      ∃ above, Below rs above r
  | [], _, _, hr => absurd hr List.not_mem_nil
  | u :: us, above, hus, hr => by
    rcases List.mem_append.1 hr with hr | hr
    · exact exists_below_of_mem_walk u (hus u List.mem_cons_self) hr
    · exact exists_below_of_mem_walkAll us (fun v hv => hus v (List.mem_cons_of_mem u hv)) hr

end

theorem mem_walkAll_iff : r ∈ walkAll rs ↔ ∃ above, Below rs above r :=
  ⟨exists_below_of_mem_walkAll rs fun _ => .top, fun ⟨_, h⟩ => h.mem_walkAll⟩

theorem WellFormed.children {scope : List String} (h : r.WellFormed scope) :
    ∀ u ∈ r.children, u.WellFormed (scope ++ [r.name]) := by
  cases r with
  | terminal heading t => exact fun _ hu => absurd hu List.not_mem_nil
  | group heading rs => exact allWellFormed_iff.1 h.2.2.2

theorem Below.wellFormed (h : Below rs above r) (hrs : AllWellFormed [] rs) :
    r.WellFormed (above.map name) := by
  induction h with
  | top hr => exact allWellFormed_iff.1 hrs _ hr
  | child _ hr ih =>
    rw [List.map_append]
    exact ih.children _ hr

theorem Below.stands (h : Below rs above r) (hrs : ∀ r ∈ rs, r.Stands src 0) :
    r.Stands src above.length := by
  induction h with
  | top hr => exact hrs _ hr
  | child _ hr ih =>
    obtain ⟨-, hchildren⟩ := ih
    rw [List.length_append]
    exact hchildren _ hr

end

section

variable {src : Source} {limit : Int} {c d e : Cursor} {r : Rule} {rs : List Rule} {depth : Nat}

structure HeadedAt (src : Source) (depth : Nat) (c : Cursor) (heading : Heading) : Prop where
  opensLine : c.OpensLine src
  startsName : c.startsName
  indentation : src.indentation c.position.line = 4 * depth
  name : heading.name.toList = c.name
  position : heading.position = c.position

theorem HeadedAt.isName {heading : Heading} (h : HeadedAt src depth c heading) :
    isName heading.name.toList := by
  rw [h.name]
  exact isName_name h.startsName

theorem HeadedAt.declaredIn (h : HeadedAt src depth c r.heading)
    (hfront : r.mark <+: (c.drop c.name.length).skipBlanks.rest)
    (hchildren : r.isTerminal ∨ r.children ≠ []) : r.DeclaredIn src depth := by
  obtain ⟨lines, blanks, htext, hlines, hblanks, hp⟩ := h.opensLine
  obtain ⟨more, hmore⟩ := hfront
  have hname : r.name.toList = c.name := h.name
  have hposition : r.position = c.position := h.position
  refine ⟨h.isName, ⟨lines, blanks, (c.drop c.name.length).rest.takeWhile isBlank, more, ?_, hlines,
    hblanks, List.all_takeWhile, ?_⟩, ?_, hchildren⟩
  · rw [hmore, rest_skipBlanks, List.takeWhile_append_dropWhile, hname, rest_drop, Cursor.name,
      drop_length_takeWhile, List.takeWhile_append_dropWhile, htext]
  · rw [hposition, hp]
  · rw [hposition, h.indentation]

theorem stands_readTerminal (heading : Heading) (hheaded : HeadedAt src depth c heading)
    (hfront : [':'] <+: (c.drop c.name.length).skipBlanks.rest)
    (h : (readTerminal src limit heading depth d).Yields r e) :
    r.Stands src depth ∧ r.position = c.position := by
  obtain ⟨-, t, -, rfl⟩ := yields_of_readTerminal hheaded.isName h
  refine ⟨.declared (hheaded.declaredIn hfront (.inl rfl)) ?_, hheaded.position⟩
  exact fun _ hu => absurd hu List.not_mem_nil

section

variable {child : Cursor → Attempt Rule} {p : Rule → Prop} (hread : ReadsRules p child)
  (hchild : ∀ {c r e}, c.IsIn src → c.OpensLine src → c.startsName → (child c).Yields r e →
    r.Stands src (depth + 1))

include hread hchild

theorem Block.stands {parent : String} {a : Attempt (List Rule)}
    (hblock : Block src parent depth child c a) (h : a.Yields rs e) :
    ∀ r ∈ rs, r.Stands src (depth + 1) := by
  induction hblock generalizing rs with
  | ended =>
    obtain ⟨hresult, -, -⟩ := h
    obtain rfl : [] = rs := by simpa [Attempt.done] using hresult
    exact fun _ hr => absurd hr List.not_mem_nil
  | misplaced => exact absurd h.result (by simp [Attempt.misplaced, Attempt.fail])
  | @child c b hin hend hwidth hmore ih =>
    obtain ⟨r, rs, rfl, hfirst, hrest⟩ := Attempt.yields_of_cons h
    obtain ⟨r', rfl, hstart, hyields, -⟩ := yields_of_readChild hread.satisfies hfirst
    have hopens := hin.opensLine hend (rest_ne_nil_of_startsName hstart)
    have hstands := hchild (hin.reaches c.reaches_skipInsignificant) hopens hstart hyields
    exact List.forall_mem_cons.2 ⟨hstands.within parent, ih hrest⟩

theorem stands_readGroup (heading : Heading) (hheaded : HeadedAt src depth c heading)
    (hin : d.IsIn src) (hfront : ['.', '.', '.'] <+: (c.drop c.name.length).skipBlanks.rest)
    (h : (readGroup src child heading depth d).Yields r e) :
    r.Stands src depth ∧ r.position = c.position := by
  obtain ⟨hend, rs, hne, rfl, hchildren⟩ := yields_of_readGroup hheaded.isName h
  have hline := d.reaches_skipBlanks.trans (reaches_skipComment _)
  have hstands := (block_readChildren hread (hin.reaches hline) hend).stands hread hchild hchildren
  exact ⟨.declared (hheaded.declaredIn hfront (.inr hne)) hstands, hheaded.position⟩

end

end

theorem stands_read (src : Source) (limit : Int) (levels depth : Nat) {c e : Cursor} {r : Rule}
    (hin : c.IsIn src) (hopens : c.OpensLine src) (hc : c.startsName)
    (h : (read src limit levels depth c).Yields r e) :
    r.Stands src depth ∧ r.position = c.position := by
  induction levels generalizing depth c r e with
  | zero =>
    obtain ⟨-, levels, hlevels, -⟩ := yields_of_read hc h
    exact absurd hlevels (by simp)
  | succ levels ih =>
    have hreach := (Reaches.drop c c.name.length).trans (reaches_skipBlanks _)
    obtain ⟨hwidth, levels', hlevels, ⟨d, hd, hterminal⟩ | ⟨d, hd, hgroup⟩⟩ := yields_of_read hc h
    · exact stands_readTerminal ⟨String.ofList c.name, c.position, []⟩
        ⟨hopens, hc, hwidth, String.toList_ofList, rfl⟩ (accept?_eq_some hd).1 hterminal
    · obtain rfl := Nat.succ.inj hlevels
      have hin' := hin.reaches (hreach.trans (reaches_of_accept? hd))
      exact stands_readGroup (readsRules_read src limit levels (depth + 1))
        (fun hin hopens hc h => (ih (depth + 1) hin hopens hc h).1)
        ⟨String.ofList c.name, c.position, []⟩ ⟨hopens, hc, hwidth, String.toList_ofList, rfl⟩ hin'
        (accept?_eq_some hd).1 hgroup

end Rule

end IndentedGrammar
