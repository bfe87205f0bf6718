import IndentedGrammar.Proofs.Rule.Alignment

namespace IndentedGrammar

open Cursor

namespace Document

variable {src src' : Source} {s : Alignment src src'} {c c' : Cursor}

theorem length_readTopLevel_lt (src : Source) (limit : Int) (h : ¬ c.atLineEnd) :
    (readTopLevel src limit c).cursor.skipInsignificant.rest.length < c.rest.length := by
  have hend := atLineEnd_readTopLevel src limit c
  obtain ⟨n, hn⟩ := reaches_readTopLevel src limit c
  rw [hn] at hend ⊢
  have hpos : 0 < n := by
    apply Nat.pos_of_ne_zero
    rintro rfl
    exact h (by simpa using hend)
  have hne : c.rest ≠ [] := fun hnil => h (atLineEnd_of_rest_nil hnil)
  exact Nat.lt_of_le_of_lt (reaches_skipInsignificant _).length_le (length_drop_lt hpos hne)

theorem readFrom_eq (src : Source) (limit : Int) (h : ¬ c.atLineEnd) :
    readFrom src limit c =
      match (readTopLevel src limit c).result with
      | .error f => .error f
      | .ok first =>
        match readFrom src limit (readTopLevel src limit c).cursor.skipInsignificant with
        | .error f => .error f
        | .ok more =>
          .ok ⟨src, first.toList ++ more.rules,
            (readTopLevel src limit c).diagnostics ++ more.diagnostics,
            (readTopLevel src limit c).notes ++ more.notes,
            (readTopLevel src limit c).starts ++ more.starts, more.cursor⟩ := by
  have hne : ¬ c.atEnd := fun hend => h (atLineEnd_of_rest_nil (List.isEmpty_iff.1 hend))
  rw [readFrom, if_neg hne]
  dsimp only
  cases (readTopLevel src limit c).result with
  | error f => rfl
  -- a declaration passes over something, so the check of that never fails
  | ok first => exact dif_pos (length_readTopLevel_lt src limit h)

theorem read_eq {src : Source} {limit : Int} {doc : Document}
    (h : readFrom src limit (Cursor.start src.text).skipInsignificant = .ok doc) :
    ∃ doc', read src limit = .ok doc' ∧ doc'.rules = doc.rules ∧
      doc'.diagnostics = doc.diagnostics := by
  rw [read, h]
  exact ⟨_, rfl, rfl, rfl⟩

variable (hs : s.Connected) (hlevels : s.levels = 0)

include hs hlevels

theorem rulesAligned_readAt (limit : Int) :
    Rule.RulesAligned s (Rule.Fits limit [] (limit + 1).toNat) (Rule.readAt src limit 0)
      (Rule.readAt src' limit 0) := by
  refine ⟨fun c hc => ?_, fun c hc => ?_, Rule.reaches_readAt src limit 0,
    Rule.reaches_readAt src' limit 0, ?_⟩
  · simpa using Rule.readAt_satisfies src limit 0 hc
  · simpa using Rule.readAt_satisfies src' limit 0 hc
  · intro c c' h hc
    have hread := Rule.read_aligned hs limit (limit + 1 - 0).toNat 0 h hc
    rw [Rule.readAt, Rule.readAt, h.beside.indentation_eq (rest_ne_nil_of_startsName hc), hlevels,
      Nat.mul_zero, Nat.add_zero]
    rw [hlevels] at hread
    split
    · exact Attempt.fail_aligned _ h h
    · exact hread

theorem readTopLevel_aligned (limit : Int) (h : s.Settled c c') :
    (readTopLevel src limit c).Aligned s (Rule.mapPosition s.move)
      (readTopLevel src' limit c') := by
  have ha := Rule.readDeclaration_aligned (rulesAligned_readAt hs hlevels limit) h
  obtain ⟨x, hx, hx'⟩ := ha.result
  rw [readTopLevel, readTopLevel]
  dsimp only
  rw [hx, hx']
  cases x with
  | none =>
    have hblock := Rule.skipBlock_aligned hs 0 ha.cursor.beside
    rw [hlevels] at hblock
    exact ⟨⟨none, hx, hx'⟩, ha.diagnostics, hblock⟩
  | some r => exact ⟨⟨some r, hx, hx'⟩, ha.diagnostics, ha.cursor⟩

theorem readFrom_aligned (limit : Int) {resume : Cursor} {more : Document}
    (hresume : ∀ e e', s.Ends e e' → s.Resumes resume e.skipInsignificant e'.skipInsignificant)
    (hmore : readFrom src' limit resume = .ok more) (h : s.Resumes resume c c') :
    ∃ doc doc', readFrom src limit c = .ok doc ∧ readFrom src' limit c' = .ok doc' ∧
      doc'.rules = doc.rules.map (Rule.mapPosition s.move) ++ more.rules ∧
      doc'.diagnostics =
        doc.diagnostics.map (Diagnostic.mapPosition s.move) ++ more.diagnostics := by
  -- on what is left of the first source: each declaration passes over some of it
  induction hn : c.rest.length using Nat.strongRecOn generalizing c c' with
  | ind n ih =>
    subst hn
    rcases h with ⟨h, hc⟩ | ⟨hend, rfl⟩
    · have ha := readTopLevel_aligned hs hlevels limit h
      obtain ⟨first, hx, hx'⟩ := ha.result
      have hends := ha.cursor.ends (atLineEnd_readTopLevel src limit c)
      obtain ⟨doc, doc', hdoc, hdoc', hrules, hdiagnostics⟩ :=
        ih _ (length_readTopLevel_lt src limit hc) (hresume _ _ hends) rfl
      rw [readFrom_eq src limit hc, readFrom_eq src' limit (by rwa [h.atLineEnd_eq]), hx, hx', hdoc,
        hdoc']
      refine ⟨_, _, rfl, rfl, ?_, ?_⟩
      · dsimp only
        rw [hrules]
        cases first <;> simp
      · dsimp only
        rw [hdiagnostics, ha.diagnostics]
        simp
    · rw [readFrom, if_pos hend]
      exact ⟨_, more, rfl, hmore, rfl, rfl⟩

theorem read_aligned (limit : Int)
    (hends : ∀ e e', s.Ends e e' → s.Settled e.skipInsignificant e'.skipInsignificant)
    (hstart : s.Settled (Cursor.start src.text).skipInsignificant
      (Cursor.start src'.text).skipInsignificant) :
    ∃ doc doc', read src limit = .ok doc ∧ read src' limit = .ok doc' ∧
      doc'.rules = doc.rules.map (Rule.mapPosition s.move) ∧
      doc'.diagnostics = doc.diagnostics.map (Diagnostic.mapPosition s.move) := by
  have hnothing : ((Cursor.start src'.text).drop src'.text.length).rest = [] := List.drop_length
  obtain ⟨doc, doc', hdoc, hdoc', hrules, hdiagnostics⟩ :=
    readFrom_aligned hs hlevels limit (fun e e' h => Alignment.resumes_of_settled (hends e e' h))
      (readFrom_of_rest_nil src' limit hnothing) (Alignment.resumes_of_settled hstart)
  obtain ⟨d, hread, hr, hd⟩ := read_eq hdoc
  obtain ⟨d', hread', hr', hd'⟩ := read_eq hdoc'
  refine ⟨d, d', hread, hread', ?_, ?_⟩
  · rw [hr', hrules, hr, List.append_nil]
  · rw [hd', hdiagnostics, hd, List.append_nil]

end Document

end IndentedGrammar
