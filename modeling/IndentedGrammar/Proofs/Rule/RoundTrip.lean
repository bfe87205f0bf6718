import IndentedGrammar.Proofs.Rule.Printing

namespace IndentedGrammar

open Cursor

structure Cursor.AtContent (src : Source) (n : Nat) (c : Cursor) : Prop where
  isIn : c.IsIn src
  indentation : src.indentation c.position.line = n
  column : c.position.column = n + 1

namespace Cursor.AtContent

variable {src : Source} {c : Cursor} {n : Nat} {ch : Char} {text : List Char}

theorem line (hin : c.IsIn src) (hc : c.rest = '\n' :: (List.replicate n ' ' ++ ch :: text))
    (h : isSolid ch) : AtContent src n (c.drop (n + 1)) :=
  ⟨hin.drop _, hin.indentation_line hc h, (position_line hc).2⟩

theorem start (src : Source) (hc : src.text = ch :: text) (h : isSolid ch) :
    AtContent src 0 (.start src.text) := by
  have hline := IsIn.line_eq src (.start src.text) [] rfl rfl
  refine ⟨.start src, ?_, rfl⟩
  rw [Source.indentation, hline]
  change indentWidth (lastLine [] ++ src.text.takeWhile (· ≠ '\n')) = 0
  rw [hc, takeWhile_solid h]
  exact indentWidth_spaces 0 h _

end Cursor.AtContent

structure Attempt.Yields {α : Type} (a : Attempt α) (x : α) (e : Cursor) : Prop where
  result : a.result = .ok (some x)
  diagnostics : a.diagnostics = []
  cursor : a.cursor = e

theorem Attempt.cons_yields {α : Type} {a : Attempt α} {more : Cursor → Attempt (List α)} {x : α}
    {xs : List α} {d e : Cursor} (ha : a.Yields x d) (hmore : (more d).Yields xs e) :
    (a.cons more).Yields (x :: xs) e := by
  obtain ⟨hresult, hdiagnostics, rfl⟩ := ha
  rw [cons_eq hresult]
  refine ⟨?_, ?_, hmore.cursor⟩
  · dsimp only
    rw [hmore.result]
    rfl
  · dsimp only
    rw [hdiagnostics, hmore.diagnostics]
    rfl

namespace Rule

variable {src : Source} {limit : Int} {levels depth : Nat} {c : Cursor} {name tail : List Char}

theorem newline_not_mem_of_isName (hname : isName name) : '\n' ∉ name := by
  intro hmem
  exact absurd ((isName_iff.1 hname).2 _ hmem) (by decide)

theorem name_eq (hname : isName name) {ch : Char} (hch : isNameChar ch = false)
    (hc : c.rest = name ++ ch :: tail) : c.name = name := by
  rw [Cursor.name, hc, List.takeWhile_append_of_pos (isName_iff.1 hname).2]
  simp [hch]

theorem skipBlanks_drop_length {ch : Char} (hch : isBlank ch = false)
    (hc : c.rest = name ++ ch :: tail) :
    (c.drop name.length).skipBlanks = c.drop name.length := by
  rw [skipBlanks, rest_drop, hc, List.drop_left, List.takeWhile_cons_of_neg (by simp [hch])]
  exact drop_zero _

theorem accept?_drop_length (mark : List Char) (hc : c.rest = name ++ (mark ++ tail)) :
    (c.drop name.length).accept? mark = some (c.drop (name.length + mark.length)) := by
  rw [accept?, rest_drop, hc, List.drop_left, if_pos (by simp), drop_drop, Nat.add_comm]

theorem line_drop_heading (hname : isName name) (mark : List Char) (hmark : '\n' ∉ mark)
    (hc : c.rest = name ++ (mark ++ tail)) :
    (c.drop (name.length + mark.length)).position.line = c.position.line := by
  rw [← List.length_append]
  refine line_drop_length (name ++ mark) (by rw [hc, List.append_assoc]) ?_
  rw [List.mem_append]
  exact not_or.2 ⟨newline_not_mem_of_isName hname, hmark⟩

theorem read_terminal (hname : isName name) (hdepth : src.indentation c.position.line = 4 * depth)
    (hc : c.rest = name ++ ':' :: tail) :
    read src limit (levels + 1) depth c =
      readTerminal src limit ⟨String.ofList name, c.position, []⟩ depth
        (c.drop (name.length + 1)) := by
  have hne := (isName_iff.1 hname).1
  rw [read, misalignment_eq_none_iff.2 hdepth]
  dsimp only
  rw [name_eq hname (by decide) hc, if_neg (by simpa using hne),
    skipBlanks_drop_length (by decide) hc, accept?_drop_length [':'] hc]
  rfl

theorem read_group (hname : isName name) (hdepth : src.indentation c.position.line = 4 * depth)
    (hc : c.rest = name ++ '.' :: '.' :: '.' :: tail) :
    read src limit (levels + 1) depth c =
      readGroup src (read src limit levels (depth + 1)) ⟨String.ofList name, c.position, []⟩ depth
        (c.drop (name.length + 3)) := by
  have hne := (isName_iff.1 hname).1
  have hcolon : (c.drop name.length).accept? [':'] = none := by
    rw [accept?, rest_drop, hc, List.drop_left]
    rfl
  rw [read, misalignment_eq_none_iff.2 hdepth]
  dsimp only
  rw [name_eq hname (by decide) hc, if_neg (by simpa using hne),
    skipBlanks_drop_length (by decide) hc, hcolon, accept?_drop_length ['.', '.', '.'] hc]
  rfl

theorem readTerminal_chars (depth : Nat) (heading : Heading) {t : Term}
    (hname : isName heading.name.toList) (ht : t.WellFormed) (hn : t.nesting 0 ≤ limit.toNat)
    (hin : c.IsIn src) (hc : c.rest = ' ' :: (t.chars 0 ++ '\n' :: tail))
    (htail : aheadIndentation ('\n' :: tail) ≤ src.indentation c.position.line) :
    ∃ t', (readTerminal src limit heading depth c).Yields (terminal heading t')
      (c.drop ((t.chars 0).length + 1)) ∧ t'.bare = t.bare := by
  have hspace : c.skipContinuedBlanks = c.drop 1 := by
    obtain ⟨ch, text, hchars, hsolid⟩ := Term.exists_solid_chars ht
    have hblanks : continuedBlanks ([' '] ++ ch :: (text ++ '\n' :: tail)) = _ :=
      continuedBlanks_append rfl _
    rw [continuedBlanks_of_solid hsolid] at hblanks
    rw [skipContinuedBlanks, hc, hchars]
    exact congrArg c.drop hblanks
  have hline : (c.drop 1).position.line = c.position.line :=
    line_drop_length [' '] hc (by decide)
  have hrest : (c.drop 1).rest = t.chars 0 ++ '\n' :: tail := by
    rw [rest_drop, hc, List.drop_one, List.tail_cons]
  obtain ⟨t', hread, ht'⟩ := Term.read_chars ht hn true (hin.drop 1) hrest (by rwa [hline])
  have hseparated : separated c := by simp [separated, hc, isBlank]
  refine ⟨t', ?_, ht'⟩
  rw [readTerminal, if_pos hseparated, hspace, hread]
  dsimp only
  rw [ofTerm?, if_pos (isRuleName_of_isName hname), drop_drop, Nat.add_comm]
  exact ⟨rfl, rfl, rfl⟩

theorem Fits.exists_level {r : Rule} {scope : List String}
    (h : r.Fits limit scope (scope.length + levels)) : ∃ n, levels = n + 1 := by
  have hscope := h.scopes r (mem_walk_self r)
  rw [h.wellFormed.scope_eq] at hscope
  exact ⟨levels - 1, by omega⟩

def ReadsBack (src : Source) (limit : Int) (r : Rule) : Prop :=
  ∀ (scope : List String) (levels : Nat) (c : Cursor) (tail : List Char),
    r.Fits limit scope (scope.length + levels) → c.AtContent src (4 * scope.length) →
    c.rest = r.declaration ++ '\n' :: tail → aheadIndentation ('\n' :: tail) ≤ 4 * scope.length →
    ∃ r', (read src limit levels scope.length c).Yields r' (c.drop r.declaration.length) ∧
      (r'.enclosed scope).bare = r.bare ∧ Placed c.position.line scope.length r'.walk ∧
      (c.drop r.declaration.length).position.line + 1 = c.position.line + r'.walk.length

theorem readsBack_terminal (heading : Heading) (t : Term) :
    ReadsBack src limit (.terminal heading t) := by
  intro scope levels c tail hfits hat hc htail
  obtain ⟨hname, hscope, ht⟩ := hfits.wellFormed
  obtain ⟨levels, rfl⟩ := hfits.exists_level
  have hc' : c.rest = heading.name.toList ++ ':' :: (' ' :: (t.chars 0 ++ '\n' :: tail)) := by
    rw [hc, declaration]
    simp
  have hline : (c.drop (heading.name.toList.length + 1)).position.line = c.position.line :=
    line_drop_heading hname [':'] (by decide) hc'
  have hrest : (c.drop (heading.name.toList.length + 1)).rest =
      ' ' :: (t.chars 0 ++ '\n' :: tail) := by
    rw [rest_drop, hc', List.drop_length_add_append]
    rfl
  obtain ⟨t', hread, ht'⟩ := readTerminal_chars scope.length ⟨heading.name, c.position, []⟩ hname ht
    (hfits.nesting _ (mem_walk_self _) t rfl) (hat.isIn.drop _) hrest
    (by rw [hline, hat.indentation]; exact htail)
  have hlength : heading.name.toList.length + 1 + ((t.chars 0).length + 1) =
      (declaration (.terminal heading t)).length := by
    rw [declaration]
    simp
    omega
  refine ⟨.terminal ⟨heading.name, c.position, []⟩ t', ?_, ?_, ?_, ?_⟩
  · rw [read_terminal hname hat.indentation hc', String.ofList_toList, ← hlength]
    rwa [drop_drop] at hread
  · rw [enclosed_terminal, bare_terminal, bare_terminal, ht']
    simp [hscope]
  · exact .cons rfl (by simp [Rule.position, Rule.scope, Rule.heading, hat.column]) .nil
  · have hmem : '\n' ∉ declaration (.terminal heading t) := by
      have hchars := (Term.written t ht 0 (by decide)).singleLine
      simpa [declaration, newline_not_mem_of_isName hname] using hchars
    rw [line_drop_length _ hc hmem]
    rfl

theorem readDeclaration_yields (src : Source) {child : Cursor → Attempt Rule} {r : Rule}
    {e : Cursor} (hc : c.startsName) (h : (child c).Yields r e) (he : e.atLineEnd) :
    (readDeclaration src child c).Yields r e := by
  obtain ⟨hresult, hdiagnostics, rfl⟩ := h
  rw [readDeclaration, if_pos hc]
  dsimp only
  rw [hresult]
  dsimp only
  rw [if_pos he]
  exact ⟨rfl, hdiagnostics, rfl⟩

theorem readChild_yields (parent : String) {child : Cursor → Attempt Rule} {r : Rule} {e : Cursor}
    (hc : c.startsName) (h : (child c).Yields r e) (he : e.atLineEnd) :
    (readChild src parent depth child c).Yields (r.within parent) e := by
  obtain ⟨hresult, hdiagnostics, hcursor⟩ := readDeclaration_yields src hc h he
  rw [readChild]
  dsimp only
  rw [hresult]
  exact ⟨rfl, hdiagnostics, hcursor⟩

theorem readGroup_yields {child : Cursor → Attempt Rule} {heading : Heading} {rs : List Rule}
    {e : Cursor} (hname : isName heading.name.toList) (hc : c.rest = '\n' :: tail)
    (h : (readChildren src heading.name depth child c).Yields rs e) (hne : rs ≠ []) :
    (readGroup src child heading depth c).Yields (group heading rs) e := by
  have hend : c.atLineEnd := by simp [atLineEnd, hc]
  have hblanks : c.skipBlanks = c := by simp [skipBlanks, hc, isBlank]
  obtain ⟨hresult, hdiagnostics, hcursor⟩ := h
  rw [readGroup]
  dsimp only
  rw [hblanks, skipComment_of_atLineEnd hend, if_pos hend, skipLine_of_atLineEnd hend, hresult]
  dsimp only
  rw [if_neg (by simp), if_neg (by simpa using hne),
    ofChildren?_eq (isRuleName_of_isName hname) hne]
  exact ⟨rfl, by simp [hdiagnostics], hcursor⟩

theorem exists_declaration {r : Rule} {scope : List String} (h : r.WellFormed scope) :
    ∃ ch text, r.declaration = ch :: text ∧ isNameChar ch := by
  have hname {name : List Char} (h : isName name) (more : List Char) :
      ∃ ch text, name ++ more = ch :: text ∧ isNameChar ch := by
    obtain ⟨ch, text, rfl, hch⟩ := exists_cons_of_isName h
    exact ⟨ch, text ++ more, rfl, hch⟩
  cases r with
  | terminal heading t => exact hname h.1 _
  | group heading rs => exact hname h.1 _

theorem exists_tail (scope : List String) {rs : List Rule} (hrs : ∀ r ∈ rs, r.WellFormed scope)
    (htail : aheadIndentation ('\n' :: tail) ≤ 4 * scope.length) :
    ∃ tail', declarations rs ++ '\n' :: tail = '\n' :: tail' ∧
      aheadIndentation ('\n' :: tail') ≤ 4 * scope.length := by
  cases rs with
  | nil => exact ⟨tail, rfl, htail⟩
  | cons r rs =>
    have hr := hrs r (by simp)
    obtain ⟨ch, text, hch, hname⟩ := exists_declaration hr
    refine ⟨_, by rw [declarations, List.cons_append], ?_⟩
    apply Nat.le_of_eq
    rw [hr.scope_eq, hch, List.append_assoc, List.cons_append, List.cons_append,
      aheadIndentation_line (isSolid_of_isNameChar hname)]

structure Leads (src : Source) (n : Nat) (c : Cursor) (r : Rule) (tail : List Char) : Prop where
  width : src.nextIndentation c.position.line = n
  atContent : c.skipInsignificant.AtContent src n
  rest : c.skipInsignificant.rest = r.declaration ++ '\n' :: tail
  startsName : c.skipInsignificant.startsName
  line : c.skipInsignificant.position.line = c.position.line + 1
  skip : c.skipInsignificant = c.drop (n + 1)

namespace Leads

variable {n : Nat} {r : Rule}

theorem rest_drop (h : Leads src n c r tail) :
    (c.skipInsignificant.drop r.declaration.length).rest = '\n' :: tail := by
  rw [Cursor.rest_drop, h.rest, List.drop_left]

theorem drop_drop (h : Leads src n c r tail) (k : Nat) :
    (c.skipInsignificant.drop r.declaration.length).drop k =
      c.drop (n + 1 + r.declaration.length + k) := by
  rw [h.skip, Cursor.drop_drop, Cursor.drop_drop]
  congr 1
  omega

theorem length_lt (h : Leads src n c r tail) :
    (c.skipInsignificant.drop r.declaration.length).rest.length < c.rest.length := by
  have hpos : 0 < (c.skipInsignificant.drop r.declaration.length).rest.length := by
    rw [h.rest_drop]
    exact Nat.succ_pos _
  rw [h.skip, Cursor.drop_drop, Cursor.rest_drop, List.length_drop] at hpos ⊢
  omega

end Leads

theorem leads_declarations (scope : List String) {r : Rule} {rs : List Rule}
    (hr : r.WellFormed scope) (hrs : ∀ u ∈ rs, u.WellFormed scope) (hin : c.IsIn src)
    (hc : c.rest = declarations (r :: rs) ++ '\n' :: tail)
    (htail : aheadIndentation ('\n' :: tail) ≤ 4 * scope.length) :
    ∃ tail', Leads src (4 * scope.length) c r tail' ∧
      declarations rs ++ '\n' :: tail = '\n' :: tail' ∧
      aheadIndentation ('\n' :: tail') ≤ 4 * scope.length := by
  obtain ⟨ch, text, hch, hname⟩ := exists_declaration hr
  have hsolid := isSolid_of_isNameChar hname
  obtain ⟨tail', htail', hahead⟩ := exists_tail scope hrs htail
  have hline : c.rest =
      '\n' :: (List.replicate (4 * scope.length) ' ' ++ ch :: (text ++ '\n' :: tail')) := by
    rw [hc, declarations, hr.scope_eq, hch, ← htail']
    simp
  have hskip := skipInsignificant_line hline hsolid
  have hrest : c.skipInsignificant.rest = r.declaration ++ '\n' :: tail' := by
    rw [hskip, rest_drop, hline, List.drop_succ_cons, List.drop_left' List.length_replicate, hch]
    rfl
  refine ⟨tail', ⟨?_, ?_, hrest, ?_, ?_, hskip⟩, htail', hahead⟩
  · rw [hin.nextIndentation_eq, hline, aheadIndentation_line hsolid]
  · rw [hskip]
    exact .line hin hline hsolid
  · rw [Cursor.startsName, hrest, hch]
    simpa using hname
  · rw [hskip]
    exact (position_line hline).1

theorem readChildren_declarations {rs : List Rule} (h : ∀ r ∈ rs, ReadsBack src limit r)
    {scope : List String} {parent : String}
    (hfits : ∀ r ∈ rs, r.Fits limit (scope ++ [parent]) (scope.length + 1 + levels))
    (hin : c.IsIn src) (hc : c.rest = declarations rs ++ '\n' :: tail)
    (htail : aheadIndentation ('\n' :: tail) ≤ 4 * scope.length) :
    ∃ rs', (readChildren src parent scope.length (read src limit levels (scope.length + 1))
      c).Yields rs'
      (c.drop (declarations rs).length) ∧ (rs'.map (enclosed scope)).map bare = rs.map bare ∧
      Placed (c.position.line + 1) scope.length (walkAll rs') ∧
      (c.drop (declarations rs).length).position.line = c.position.line + (walkAll rs').length := by
  induction rs generalizing c with
  | nil =>
    have hwidth : src.nextIndentation c.position.line ≤ 4 * scope.length := by
      rw [hin.nextIndentation_eq, hc]
      exact htail
    refine ⟨[], ?_, rfl, .nil, by simp [declarations, walkAll]⟩
    rw [readChildren]
    dsimp only
    rw [if_pos hwidth]
    exact ⟨rfl, rfl, (drop_zero c).symm⟩
  | cons r rs ih =>
    have hlength : (scope ++ [parent]).length = scope.length + 1 := List.length_append
    obtain ⟨tail', hleads, htail', hahead⟩ :=
      leads_declarations (scope ++ [parent]) (hfits r (by simp)).wellFormed
        (fun u hu => (hfits u (by simp [hu])).wellFormed) hin hc (Nat.le_trans htail (by omega))
    -- the first rule is read where it stands, the others from the end of its last line
    have hfirst := h r (by simp) (scope ++ [parent]) levels c.skipInsignificant tail'
    rw [hlength] at hleads hahead hfirst
    obtain ⟨r', hread, hbare, hplaced, hlast⟩ :=
      hfirst (hfits r (by simp)) hleads.atContent hleads.rest hahead
    obtain ⟨rs', hread', hbare', hplaced', hlast'⟩ := ih (fun u hu => h u (by simp [hu]))
      (fun u hu => hfits u (by simp [hu])) (hleads.atContent.isIn.drop r.declaration.length)
      (hleads.rest_drop.trans htail'.symm)
    have hdrop : (c.skipInsignificant.drop r.declaration.length).drop (declarations rs).length =
        c.drop (declarations (r :: rs)).length := by
      rw [hleads.drop_drop, declarations, (hfits r (by simp)).wellFormed.scope_eq, hlength]
      congr 1
      simp
      omega
    rw [hdrop] at hread' hlast'
    have hwalk : walkAll (r'.within parent :: rs') =
        r'.walk.map (within parent) ++ walkAll rs' := by
      rw [walkAll, walk_within]
    have hline : (c.skipInsignificant.drop r.declaration.length).position.line + 1 =
        c.position.line + 1 + r'.walk.length := by rw [hlast, hleads.line]
    refine ⟨r'.within parent :: rs', ?_, ?_, ?_, ?_⟩
    · rw [readChildren]
      dsimp only
      rw [hleads.width, if_neg (by omega), if_neg (by omega)]
      refine Attempt.cons_yields (readChild_yields parent hleads.startsName hread ?_) ?_
      · rw [atLineEnd, hleads.rest_drop]
        rfl
      · rwa [dif_pos hleads.length_lt]
    · rw [List.map_cons, List.map_cons, List.map_cons, enclosed_within, hbare, hbare']
    · rw [hwalk]
      rw [hleads.line] at hplaced
      refine (hplaced.within parent).append ?_
      rwa [List.length_map, ← hline]
    · rw [hwalk, List.length_append, List.length_map, hlast']
      omega

theorem readsBack_group (heading : Heading) {rs : List Rule} (h : ∀ r ∈ rs, ReadsBack src limit r) :
    ReadsBack src limit (.group heading rs) := by
  intro scope levels c tail hfits hat hc htail
  obtain ⟨hname, hscope, hne, hall⟩ := hfits.wellFormed
  obtain ⟨levels, rfl⟩ := hfits.exists_level
  have hc' : c.rest = heading.name.toList ++ '.' :: '.' :: '.' :: (declarations
      rs ++ '\n' :: tail) := by
    rw [hc, declaration]
    simp
  have hrest : (c.drop (heading.name.toList.length + 3)).rest =
      declarations rs ++ '\n' :: tail := by
    rw [rest_drop, hc', List.drop_length_add_append]
    rfl
  have hline : (c.drop (heading.name.toList.length + 3)).position.line = c.position.line :=
    line_drop_heading hname ['.', '.', '.'] (by decide) hc'
  rw [show scope.length + (levels + 1) = scope.length + 1 + levels by omega] at hfits
  obtain ⟨rs', hread, hbare, hplaced, hlast⟩ := readChildren_declarations h
    (fun r hr => hfits.child hr) (hat.isIn.drop _) hrest htail
  have hne' : rs' ≠ [] := by
    rintro rfl
    exact hne (List.map_eq_nil_iff.1 hbare.symm)
  obtain ⟨tail', htail'⟩ : ∃ tail', declarations rs ++ '\n' :: tail = '\n' :: tail' := by
    obtain ⟨tail', htail', -⟩ := exists_tail (scope ++ [heading.name]) (allWellFormed_iff.1 hall)
      (Nat.le_trans htail (by rw [List.length_append]; omega))
    exact ⟨tail', htail'⟩
  have hlength : heading.name.toList.length + 3 + (declarations rs).length =
      (declaration (.group heading rs)).length := by
    rw [declaration]
    simp
    omega
  rw [drop_drop, hlength] at hread hlast
  refine ⟨.group ⟨heading.name, c.position, []⟩ rs', ?_, ?_, ?_, ?_⟩
  · rw [read_group hname hat.indentation hc', String.ofList_toList]
    exact readGroup_yields hname (hrest.trans htail') hread hne'
  · rw [enclosed_group, bare_group, bare_group, hbare]
    simp [hscope]
  · rw [walk]
    refine .cons rfl (by simp [Rule.position, Rule.scope, Rule.heading, hat.column]) ?_
    rwa [hline] at hplaced
  · rw [walk, List.length_cons, hlast, hline]
    omega

mutual

theorem readsBack (src : Source) (limit : Int) : (r : Rule) → ReadsBack src limit r
  | .terminal heading t => readsBack_terminal heading t
  | .group heading rs => readsBack_group heading (allReadBack src limit rs)

theorem allReadBack (src : Source) (limit : Int) :
    (rs : List Rule) → ∀ r ∈ rs, ReadsBack src limit r
  | [] => nofun
  | r :: rs => List.forall_mem_cons.2 ⟨readsBack src limit r, allReadBack src limit rs⟩

end

end Rule

end IndentedGrammar