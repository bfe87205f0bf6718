import IndentedGrammar.Proofs.Rule.RoundTrip

namespace IndentedGrammar

open Cursor

namespace Document

variable {src : Source} {limit : Int} {r : Rule} {rs : List Rule} {c : Cursor} {tail : List Char}

theorem readAt_zero (h : src.indentation c.position.line = 0) :
    Rule.readAt src limit 0 c = Rule.read src limit (limit + 1).toNat 0 c := by
  have haligned := Rule.readAt_aligned src limit 0 h
  rwa [Int.natCast_zero, Int.sub_zero] at haligned

theorem readTopLevel_yields {e : Cursor} (hc : c.startsName)
    (hwidth : src.indentation c.position.line = 0)
    (h : (Rule.read src limit (limit + 1).toNat 0 c).Yields r e) (he : e.atLineEnd) :
    (readTopLevel src limit c).Yields r e := by
  have hdeclaration := Rule.readDeclaration_yields src hc ((readAt_zero hwidth).symm ▸ h) he
  rw [readTopLevel]
  dsimp only
  rw [hdeclaration.result]
  exact ⟨hdeclaration.result, hdeclaration.diagnostics, hdeclaration.cursor⟩

theorem readTopLevel_declaration (hfits : r.Fits limit [] (limit + 1).toNat)
    (hat : c.AtContent src 0) (hc : c.rest = r.declaration ++ '\n' :: tail)
    (htail : aheadIndentation ('\n' :: tail) ≤ 0) :
    ∃ r', (readTopLevel src limit c).Yields r' (c.drop r.declaration.length) ∧ r'.bare = r.bare ∧
      Rule.Placed c.position.line 0 r'.walk ∧
      (c.drop r.declaration.length).position.line + 1 = c.position.line + r'.walk.length := by
  obtain ⟨r', hread, hbare, hplaced, hline⟩ :=
    Rule.readsBack src limit r [] (limit + 1).toNat c tail (by simpa using hfits) hat hc htail
  refine ⟨r', ?_, hbare, hplaced, hline⟩
  obtain ⟨ch, text, hch, hname⟩ := Rule.exists_declaration hfits.wellFormed
  have hstart : c.startsName := by
    rw [Cursor.startsName, hc, hch]
    simpa using hname
  have hend : (c.drop r.declaration.length).atLineEnd := by
    rw [atLineEnd, rest_drop, hc, List.drop_left]
    rfl
  exact readTopLevel_yields hstart hat.indentation hread hend

theorem readFrom_yields {r : Rule} {e : Cursor} {more : Document}
    (h : (readTopLevel src limit c).Yields r e)
    (hlt : e.skipInsignificant.rest.length < c.rest.length)
    (hmore : readFrom src limit e.skipInsignificant = .ok more) :
    ∃ doc, readFrom src limit c = .ok doc ∧ doc.rules = r :: more.rules ∧
      doc.diagnostics = more.diagnostics := by
  obtain ⟨hresult, hdiagnostics, rfl⟩ := h
  have hne : ¬ c.atEnd := by
    rw [atEnd, List.isEmpty_iff]
    intro hnil
    simp [hnil] at hlt
  rw [readFrom, if_neg hne]
  dsimp only
  rw [hresult]
  dsimp only
  rw [dif_pos hlt, hmore]
  exact ⟨_, rfl, rfl, by simp [hdiagnostics]⟩

theorem length_skipInsignificant_lt {scope : List String} {more : List Char}
    (hr : r.WellFormed scope) (hc : c.rest = r.declaration ++ more) :
    (c.drop r.declaration.length).skipInsignificant.rest.length < c.rest.length := by
  obtain ⟨ch, text, hch, -⟩ := Rule.exists_declaration hr
  have hle := (reaches_skipInsignificant (c.drop r.declaration.length)).length_le
  refine Nat.lt_of_le_of_lt hle (length_drop_lt ?_ ?_)
  · rw [hch]
    exact Nat.succ_pos _
  · rw [hc, hch]
    nofun

theorem readFrom_declarations (hfits : ∀ u ∈ r :: rs, u.Fits limit [] (limit + 1).toNat)
    (hat : c.AtContent src 0) (hc : c.rest = r.declaration ++ (Rule.declarations rs ++ ['\n'])) :
    ∃ doc, readFrom src limit c = .ok doc ∧ doc.diagnostics = [] ∧
      doc.rules.map Rule.bare = (r :: rs).map Rule.bare ∧
      Rule.Placed c.position.line 0 (Rule.walkAll doc.rules) := by
  induction rs generalizing r c with
  | nil =>
    obtain ⟨r', hread, hbare, hplaced, -⟩ :=
      readTopLevel_declaration (hfits r (by simp)) hat hc (Nat.le_refl 0)
    have hend : (c.drop r.declaration.length).skipInsignificant.rest = [] := by
      rw [skipInsignificant, rest_drop, rest_drop, hc, List.drop_left]
      rfl
    obtain ⟨doc, hdoc, hrules, hdiagnostics⟩ :=
      readFrom_yields hread (length_skipInsignificant_lt (hfits r (by simp)).wellFormed hc)
        (readFrom_of_rest_nil src limit hend)
    refine ⟨doc, hdoc, hdiagnostics, ?_, ?_⟩
    · rw [hrules, List.map_singleton, List.map_singleton, hbare]
    · rw [hrules, Rule.walkAll, Rule.walkAll, List.append_nil]
      exact hplaced
  | cons u rs ih =>
    have hrs : ∀ v ∈ u :: rs, v.WellFormed [] :=
      fun v hv => (hfits v (List.mem_cons_of_mem r hv)).wellFormed
    have hnothing : aheadIndentation ['\n'] ≤ 4 * ([] : List String).length := Nat.le_refl 0
    obtain ⟨tail, htail, hahead⟩ := Rule.exists_tail [] hrs hnothing
    obtain ⟨r', hread, hbare, hplaced, hline⟩ :=
      readTopLevel_declaration (hfits r (by simp)) hat (hc.trans (by rw [htail])) hahead
    have hrest : (c.drop r.declaration.length).rest = Rule.declarations (u :: rs) ++ ['\n'] := by
      rw [rest_drop, hc, List.drop_left]
    obtain ⟨tail', hleads, htail', -⟩ := Rule.leads_declarations [] (hrs u (by simp))
      (fun v hv => hrs v (by simp [hv])) (hat.isIn.drop r.declaration.length) hrest hnothing
    obtain ⟨more, hmore, hnone, hbares, hplaces⟩ :=
      ih (fun v hv => hfits v (List.mem_cons_of_mem r hv))
      hleads.atContent (hleads.rest.trans (by rw [htail']))
    obtain ⟨doc, hdoc, hrules, hdiagnostics⟩ :=
      readFrom_yields hread (length_skipInsignificant_lt (hfits r (by simp)).wellFormed hc) hmore
    refine ⟨doc, hdoc, hdiagnostics.trans hnone, ?_, ?_⟩
    · rw [hrules, List.map_cons, hbare, hbares]
      rfl
    · rw [hrules, Rule.walkAll]
      refine hplaced.append ?_
      rwa [← hline, ← hleads.line]

theorem read_charsAll {rs : List Rule} (hfits : ∀ r ∈ rs, r.Fits limit [] (limit + 1).toNat)
    (file : Option String) :
    ∃ doc, read (.ofText (Rule.charsAll rs) file) limit = .ok doc ∧ doc.diagnostics = [] ∧
      doc.rules.map Rule.bare = rs.map Rule.bare ∧ Rule.Placed 1 0 (Rule.walkAll doc.rules) := by
  have hchars := Rule.newline_charsAll rs
  cases rs with
  | nil =>
    refine ⟨⟨.ofText [] file, [], [], [.finished 0 0 (Source.ofText [] file).shownFile], [],
      .start []⟩, ?_, rfl, rfl, .nil⟩
    rw [read, readFrom]
    rfl
  | cons r rs =>
    obtain ⟨ch, text, hch, hname⟩ := Rule.exists_declaration (hfits r (by simp)).wellFormed
    have htext : Rule.charsAll (r :: rs) = r.declaration ++ (Rule.declarations rs ++ ['\n']) := by
      rw [Rule.declarations, (hfits r (by simp)).wellFormed.scope_eq] at hchars
      simpa using hchars
    have hsolid := isSolid_of_isNameChar hname
    have hstart : Rule.charsAll (r :: rs) = ch :: (text ++ (Rule.declarations rs ++ ['\n'])) := by
      rw [htext, hch]
      rfl
    have hat := AtContent.start (.ofText (Rule.charsAll (r :: rs)) file) hstart hsolid
    obtain ⟨doc, hdoc, hdiagnostics, hbare, hplaced⟩ := readFrom_declarations hfits hat htext
    rw [read, skipInsignificant_of_solid hstart hsolid, hdoc]
    exact ⟨_, rfl, hdiagnostics, hbare, hplaced⟩

end Document

namespace Rule

mutual

theorem wellFormed_of_mem_walk {scope : List String} :
    (r : Rule) → r.WellFormed scope → ∀ u ∈ r.walk, ∃ scope', u.WellFormed scope'
  | .terminal heading t, h, u, hu => by
    obtain rfl := List.mem_singleton.1 hu
    exact ⟨scope, h⟩
  | .group heading rs, h, u, hu => by
    rcases List.mem_cons.1 hu with rfl | hu
    · exact ⟨scope, h⟩
    · exact wellFormed_of_mem_walkAll rs h.2.2.2 u hu

theorem wellFormed_of_mem_walkAll {scope : List String} :
    (rs : List Rule) → AllWellFormed scope rs → ∀ u ∈ walkAll rs, ∃ scope', u.WellFormed scope'
  | [], _, u, hu => absurd hu (List.not_mem_nil)
  | r :: rs, h, u, hu => by
    rcases List.mem_append.1 hu with hu | hu
    · exact wellFormed_of_mem_walk r h.1 u hu
    · exact wellFormed_of_mem_walkAll rs h.2 u hu

end

theorem allPrintable_of_wellFormed {scope : List String} {rs : List Rule}
    (h : AllWellFormed scope rs) : allPrintable rs := by
  rw [allPrintable, List.all_eq_true]
  intro u hu
  obtain ⟨scope', hwf⟩ := wellFormed_of_mem_walkAll rs h u hu
  cases u with
  | terminal heading t => exact Term.printable_of_wellFormed t hwf.2.2
  | group heading rs => rfl

theorem renderAll?_of_wellFormed {rs : List Rule} (h : AllWellFormed [] rs) :
    renderAll? rs = some (String.ofList (charsAll rs)) :=
  if_pos (allPrintable_of_wellFormed h)

end Rule

namespace Document

/-- A document that is written out and read again has the rules that it had, each on the line that
its place in the document tells. -/
theorem read_render (rules : List Rule) (limit : Int) (file : Option String)
    (hwf : Rule.AllWellFormed [] rules)
    (hdepth : ∀ r ∈ Rule.walkAll rules, (r.scope.length : Int) ≤ limit)
    (hnesting : ∀ r ∈ Rule.walkAll rules, ∀ t ∈ r.term?, (t.nesting 0 : Int) ≤ limit) :
    ∃ text doc, Rule.renderAll? rules = some text ∧
      read (.ofText text.toList file) limit = .ok doc ∧
      doc.diagnostics = [] ∧ doc.rules.map Rule.bare = rules.map Rule.bare ∧
      ∀ (k : Nat) (r : Rule), (Rule.walkAll doc.rules)[k]? = some r →
        r.position.line = k + 1 ∧ r.position.column = 4 * r.scope.length + 1 := by
  have hfits : ∀ r ∈ rules, r.Fits limit [] (limit + 1).toNat := by
    intro r hr
    have hmem {u : Rule} (hu : u ∈ r.walk) : u ∈ Rule.walkAll rules :=
      Rule.mem_walkAll.2 ⟨r, hr, hu⟩
    refine ⟨Rule.allWellFormed_iff.1 hwf r hr, ?_, ?_⟩
    · intro u hu
      have := hdepth u (hmem hu)
      omega
    · intro u hu t ht
      have := hnesting u (hmem hu) t ht
      omega
  obtain ⟨doc, hdoc, hdiagnostics, hbare, hplaced⟩ := read_charsAll hfits file
  refine ⟨_, doc, Rule.renderAll?_of_wellFormed hwf, by rwa [String.toList_ofList], hdiagnostics,
    hbare, ?_⟩
  intro k r hr
  obtain ⟨hline, hcolumn⟩ := hplaced k r hr
  exact ⟨by omega, by simpa using hcolumn⟩

theorem read_render_nested :
    let rules := [Rule.group ⟨"a", .start, []⟩ [.terminal ⟨"b", .start, ["a"]⟩ (.node
      (.repetition .optional) [.node .choice [.leaf .reference ['c'], .leaf .literal ['d']]])]]
    Rule.AllWellFormed [] rules ∧ ∃ text doc, Rule.renderAll? rules = some text ∧
      read (.ofText text.toList none) 1 = .ok doc ∧ doc.diagnostics = [] ∧
      doc.rules.map Rule.bare = rules.map Rule.bare ∧
      ∀ (k : Nat) (r : Rule), (Rule.walkAll doc.rules)[k]? = some r →
        r.position.line = k + 1 ∧ r.position.column = 4 * r.scope.length + 1 := by
  intro rules
  have hchoice : (Term.node .choice [.leaf .reference ['c'], .leaf .literal ['d']]).WellFormed :=
    ⟨rfl, rfl, ⟨by decide, rfl, trivial⟩, ⟨by decide, rfl, trivial⟩, trivial⟩
  have hwf : Rule.AllWellFormed [] rules :=
    ⟨⟨by decide, rfl, nofun, ⟨by decide, rfl, rfl, rfl, hchoice, trivial⟩, trivial⟩, trivial⟩
  exact ⟨hwf, read_render rules 1 none hwf (by decide) (by decide)⟩

/-- Whatever was read from a source, with errors in it or not, can be written, and what is written
is read back under the same limit. -/
theorem read_render_read (src : Source) (limit : Int) (file : Option String) :
    ∃ doc text doc', read src limit = .ok doc ∧ Rule.renderAll? doc.rules = some text ∧
      read (.ofText text.toList file) limit = .ok doc' ∧ doc'.diagnostics = [] ∧
      doc'.rules.map Rule.bare = doc.rules.map Rule.bare ∧
        Rule.renderAll? doc'.rules = some text := by
  obtain ⟨doc, hdoc, hfits⟩ := read_ok src limit
  obtain ⟨doc', hdoc', hdiagnostics, hbare, -⟩ := read_charsAll hfits file
  have htext :=
    Rule.renderAll?_of_wellFormed (Rule.allWellFormed_iff.2 fun r hr => (hfits r hr).wellFormed)
  refine ⟨doc, _, doc', hdoc, htext, by rwa [String.toList_ofList], hdiagnostics, hbare, ?_⟩
  rw [Rule.renderAll?_congr hbare, htext]

end Document

end IndentedGrammar
