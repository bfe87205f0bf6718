import IndentedGrammar.Proofs.Rule.Outcome

namespace IndentedGrammar

theorem isRuleName_iff {name : String} :
    isRuleName name ↔ ∃ run, isName run ∧ (name.toList = run ∨ name.toList = run ++ ['\n']) := by
  constructor
  · intro h
    obtain ⟨hrun, hrest⟩ : name.toList.takeWhile isNameChar ≠ [] ∧
        (name.toList.dropWhile isNameChar = [] ∨ name.toList.dropWhile isNameChar = ['\n']) := by
      simpa [isRuleName] using h
    have hsplit : name.toList.takeWhile isNameChar ++ name.toList.dropWhile isNameChar = name.toList :=
      List.takeWhile_append_dropWhile
    refine ⟨_, isName_iff.2 ⟨hrun, List.all_eq_true.1 List.all_takeWhile⟩, ?_⟩
    rcases hrest with hrest | hrest
    · rw [hrest, List.append_nil] at hsplit
      exact .inl hsplit.symm
    · rw [hrest] at hsplit
      exact .inr hsplit.symm
  · rintro ⟨run, hrun, hname | hname⟩
    · exact isRuleName_of_isName (hname ▸ hrun)
    · obtain ⟨hne, hall⟩ := isName_iff.1 hrun
      have htake : name.toList.takeWhile isNameChar = run := by
        rw [hname, List.takeWhile_append_of_pos hall]
        exact List.append_nil run
      have hdrop : name.toList.dropWhile isNameChar = ['\n'] := by
        rw [hname, List.dropWhile_append_of_pos hall]
        rfl
      simpa [isRuleName, htake, hdrop] using hne

namespace Rule

namespace Record

def heading : Record → Heading
  | .withTerm _ heading _ => heading
  | .withRules _ heading _ => heading

mutual

def nodes : Record → List Record
  | .withTerm isTerminal heading term => [.withTerm isTerminal heading term]
  | .withRules isTerminal heading records =>
    nodesAll records ++ [.withRules isTerminal heading records]

def nodesAll : List Record → List Record
  | [] => []
  | record :: records => record.nodes ++ nodesAll records

end

mutual

def ofRule : Rule → Record
  | .terminal heading term => .withTerm true heading term
  | .group heading children => .withRules false heading (ofRules children)

def ofRules : List Rule → List Record
  | [] => []
  | r :: rs => ofRule r :: ofRules rs

end

inductive Sound (named : String → Prop) : Record → Prop
  | term {heading term} : named heading.name → Sound named (.withTerm true heading term)
  | rules {heading records} : named heading.name → records ≠ [] →
      Sound named (.withRules false heading records)

/-- What is wrong with the record by itself. What it holds only counts if its name is in order. -/
inductive Offends (named : String → Prop) : Record → Flaw → Prop
  | name {record} : ¬ named record.heading.name →
      Offends named record (.badName record.heading.name)
  | rulesMissing {heading term} : named heading.name →
      Offends named (.withTerm false heading term) (.rulesMissing heading.name)
  | termMissing {heading records} : named heading.name →
      Offends named (.withRules true heading records) (.termMissing heading.name)
  | noChildren {heading} : named heading.name →
      Offends named (.withRules false heading []) (.noChildren heading.name)

/-- What building the record comes to where the names that meet `named` are let through: it describes a
rule if nothing in it offends, and otherwise the first flaw is told. -/
structure BuildsBy (named : String → Prop) (record : Record) : Prop where
  accepted : (∃ r, record.build = .ok r) ↔ ∀ node ∈ record.nodes, node.Sound named
  described : ∀ r, record.build = .ok r → ofRule r = record
  refused : ∀ before node after, record.nodes = before ++ node :: after →
    (∀ earlier ∈ before, earlier.Sound named) → ¬ node.Sound named →
      ∃ flaw, node.Offends named flaw ∧ record.build = .error flaw

section

variable {named named' : String → Prop} {record : Record}

theorem Sound.name (h : record.Sound named) : named record.heading.name := by
  cases h with
  | term hname => exact hname
  | rules hname => exact hname

theorem Offends.not_sound {flaw : Flaw} (h : record.Offends named flaw) : ¬ record.Sound named := by
  intro hsound
  cases h with
  | name hname => exact hname hsound.name
  | rulesMissing => nomatch hsound
  | termMissing => nomatch hsound
  | noChildren =>
    cases hsound with
    | rules _ hne => exact hne rfl

theorem Sound.imp (h : named record.heading.name → named' record.heading.name)
    (hsound : record.Sound named) : record.Sound named' := by
  cases hsound with
  | term hname => exact .term (h hname)
  | rules hname hne => exact .rules (h hname) hne

theorem Sound.congr (h : named record.heading.name ↔ named' record.heading.name) :
    record.Sound named ↔ record.Sound named' :=
  ⟨.imp h.1, .imp h.2⟩

theorem Offends.congr (h : named record.heading.name ↔ named' record.heading.name) {flaw : Flaw}
    (hoffends : record.Offends named flaw) : record.Offends named' flaw := by
  cases hoffends with
  | name hname => exact .name (mt h.2 hname)
  | rulesMissing hname => exact .rulesMissing (h.1 hname)
  | termMissing hname => exact .termMissing (h.1 hname)
  | noChildren hname => exact .noChildren (h.1 hname)

theorem BuildsBy.congr (h : ∀ node ∈ record.nodes, named node.heading.name ↔ named' node.heading.name)
    (hbuilds : record.BuildsBy named) : record.BuildsBy named' := by
  refine ⟨?_, hbuilds.described, ?_⟩
  · rw [hbuilds.accepted]
    exact forall₂_congr fun node hnode => Sound.congr (h node hnode)
  · intro before node after hnodes hbefore hnode
    have hmem : node ∈ record.nodes := hnodes ▸ List.mem_append_right before List.mem_cons_self
    have hearlier : ∀ u ∈ before, u.Sound named := fun u hu =>
      (Sound.congr (h u (hnodes ▸ List.mem_append_left _ hu))).2 (hbefore u hu)
    obtain ⟨flaw, hflaw, hbuild⟩ := hbuilds.refused before node after hnodes hearlier
      (mt (Sound.congr (h node hmem)).1 hnode)
    exact ⟨flaw, hflaw.congr (h node hmem), hbuild⟩

end

def contentFlaw? : Record → Option Flaw
  | .withTerm true _ _ => none
  | .withTerm false heading _ => some (.rulesMissing heading.name)
  | .withRules true heading _ => some (.termMissing heading.name)
  | .withRules false heading [] => some (.noChildren heading.name)
  | .withRules false _ (_ :: _) => none

def flaw? (record : Record) : Option Flaw :=
  if isRuleName record.heading.name then record.contentFlaw? else some (.badName record.heading.name)

theorem flaw?_cases (record : Record) :
    record.flaw? = none ∧ record.Sound (isRuleName ·) ∨
      ∃ flaw, record.flaw? = some flaw ∧ record.Offends (isRuleName ·) flaw := by
  by_cases hname : isRuleName record.heading.name
  · rw [flaw?, if_pos hname]
    match record, hname with
    | .withTerm true _ _, hname => exact .inl ⟨rfl, .term hname⟩
    | .withTerm false _ _, hname => exact .inr ⟨_, rfl, .rulesMissing hname⟩
    | .withRules true _ _, hname => exact .inr ⟨_, rfl, .termMissing hname⟩
    | .withRules false _ [], hname => exact .inr ⟨_, rfl, .noChildren hname⟩
    | .withRules false _ (_ :: _), hname => exact .inl ⟨rfl, .rules hname (List.cons_ne_nil _ _)⟩
  · exact .inr ⟨_, if_neg hname, .name hname⟩

theorem flaw?_eq_none_iff {record : Record} :
    record.flaw? = none ↔ record.Sound (isRuleName ·) := by
  rcases record.flaw?_cases with ⟨hnone, hsound⟩ | ⟨flaw, hflaw, hoffends⟩
  · exact iff_of_true hnone hsound
  · exact iff_of_false (hflaw ▸ Option.some_ne_none flaw) hoffends.not_sound

theorem offends_of_flaw? {record : Record} {flaw : Flaw} (h : record.flaw? = some flaw) :
    record.Offends (isRuleName ·) flaw := by
  rcases record.flaw?_cases with ⟨hnone, -⟩ | ⟨first, hfirst, hoffends⟩
  · exact nomatch hnone.symm.trans h
  · exact Option.some.inj (hfirst.symm.trans h) ▸ hoffends

mutual

theorem exists_build : (record : Record) → record.nodes.findSome? flaw? = none →
    ∃ r, record.build = .ok r ∧ ofRule r = record
  | .withTerm isTerminal heading term, h => by
    have hsound := flaw?_eq_none_iff.1 (List.findSome?_eq_none_iff.1 h _ List.mem_cons_self)
    cases hsound with
    | term hname =>
      refine ⟨.terminal heading term, ?_, rfl⟩
      rw [build, ofTerm?, if_pos hname]
      rfl
  | .withRules isTerminal heading records, h => by
    obtain ⟨hparts, hself⟩ : (nodesAll records).findSome? flaw? = none ∧
        (withRules isTerminal heading records).flaw? = none := by
      simpa [nodes, List.findSome?_append] using h
    obtain ⟨rs, hbuild, hrs⟩ := exists_buildAll records hparts
    cases flaw?_eq_none_iff.1 hself with
    | rules hname hne =>
      have hchildren : rs ≠ [] := by
        rintro rfl
        exact hne hrs.symm
      refine ⟨.group heading rs, ?_, by rw [ofRule, hrs]⟩
      rw [build, hbuild]
      simp [hname, ofChildren?, hchildren]

theorem exists_buildAll : (records : List Record) → (nodesAll records).findSome? flaw? = none →
    ∃ rs, buildAll records = .ok rs ∧ ofRules rs = records
  | [], _ => ⟨[], rfl, rfl⟩
  | record :: records, h => by
    obtain ⟨hfirst, hmore⟩ : record.nodes.findSome? flaw? = none ∧
        (nodesAll records).findSome? flaw? = none := by
      simpa only [nodesAll, List.findSome?_append, Option.or_eq_none_iff] using h
    obtain ⟨r, hr, heq⟩ := exists_build record hfirst
    obtain ⟨rs, hrs, heqs⟩ := exists_buildAll records hmore
    refine ⟨r :: rs, ?_, by rw [ofRules, heq, heqs]⟩
    rw [buildAll, hr]
    dsimp only
    rw [hrs]

end

mutual

theorem build_eq_error : (record : Record) → (flaw : Flaw) →
    record.nodes.findSome? flaw? = some flaw → record.build = .error flaw
  | .withTerm isTerminal heading term, flaw, h => by
    have hself : (withTerm isTerminal heading term).flaw? = some flaw := by
      simpa [nodes] using h
    cases offends_of_flaw? hself with
    | name hname =>
      change ¬ isRuleName heading.name at hname
      rw [build, ofTerm?, if_neg hname]
      rfl
    | rulesMissing hname =>
      rw [build, ofTerm?, if_pos hname]
      rfl
  | .withRules isTerminal heading records, flaw, h => by
    rw [nodes, List.findSome?_append] at h
    cases hparts : (nodesAll records).findSome? flaw? with
    | some first =>
      rw [hparts] at h
      obtain rfl : first = flaw := Option.some.inj h
      rw [build, buildAll_eq_error records first hparts]
    | none =>
      obtain ⟨rs, hbuild, hrs⟩ := exists_buildAll records hparts
      have hself : (withRules isTerminal heading records).flaw? = some flaw := by
        simpa [hparts] using h
      cases offends_of_flaw? hself with
      | name hname =>
        change ¬ isRuleName heading.name at hname
        rw [build, hbuild]
        exact if_pos (by simpa using hname)
      | termMissing hname =>
        rw [build, hbuild]
        simp [hname]
      | noChildren hname =>
        obtain rfl : rs = [] := by
          cases rs with
          | nil => rfl
          | cons r rs => exact nomatch hrs
        rw [build, hbuild]
        simp [hname, ofChildren?]

theorem buildAll_eq_error : (records : List Record) → (flaw : Flaw) →
    (nodesAll records).findSome? flaw? = some flaw → buildAll records = .error flaw
  | [], _, h => nomatch h
  | record :: records, flaw, h => by
    rw [nodesAll, List.findSome?_append] at h
    cases hfirst : record.nodes.findSome? flaw? with
    | some first =>
      rw [hfirst] at h
      obtain rfl : first = flaw := Option.some.inj h
      rw [buildAll, build_eq_error record first hfirst]
    | none =>
      obtain ⟨r, hr, -⟩ := exists_build record hfirst
      rw [hfirst, Option.none_or] at h
      rw [buildAll, hr]
      dsimp only
      rw [buildAll_eq_error records flaw h]

end

theorem buildsBy_isRuleName (record : Record) : record.BuildsBy (isRuleName ·) := by
  have hnone : record.nodes.findSome? flaw? = none ↔
      ∀ node ∈ record.nodes, node.Sound (isRuleName ·) := by
    simp only [List.findSome?_eq_none_iff, flaw?_eq_none_iff]
  refine ⟨?_, ?_, ?_⟩
  · rw [← hnone]
    constructor
    · rintro ⟨r, hr⟩
      cases hfirst : record.nodes.findSome? flaw? with
      | none => rfl
      | some flaw => exact nomatch hr.symm.trans (build_eq_error record flaw hfirst)
    · intro h
      obtain ⟨r, hr, -⟩ := exists_build record h
      exact ⟨r, hr⟩
  · intro r hr
    cases hfirst : record.nodes.findSome? flaw? with
    | none =>
      obtain ⟨r', hr', heq⟩ := exists_build record hfirst
      obtain rfl := Except.ok.inj (hr.symm.trans hr')
      exact heq
    | some flaw => exact nomatch hr.symm.trans (build_eq_error record flaw hfirst)
  · intro before node after hnodes hbefore hnode
    obtain ⟨flaw, hflaw⟩ := Option.ne_none_iff_exists'.1 (mt flaw?_eq_none_iff.1 hnode)
    refine ⟨flaw, offends_of_flaw? hflaw, build_eq_error record flaw ?_⟩
    rw [List.findSome?_eq_some_iff]
    exact ⟨before, node, after, hnodes, hflaw, fun u hu => flaw?_eq_none_iff.2 (hbefore u hu)⟩

/-- A name is let through if it is a run of name characters, or such a run with a newline behind it. Where
no name holds a newline, just the records of rules are accepted. -/
theorem buildsBy_names (record : Record) :
    record.BuildsBy (fun name => ∃ run, isName run ∧
      (name.toList = run ∨ name.toList = run ++ ['\n'])) ∧
    ((∀ node ∈ record.nodes, '\n' ∉ node.heading.name.toList) →
      record.BuildsBy fun name => isName name.toList) := by
  have hbuilds := buildsBy_isRuleName record
  refine ⟨hbuilds.congr fun node _ => isRuleName_iff, fun hnewline => hbuilds.congr ?_⟩
  intro node hnode
  refine ⟨fun h => ?_, isRuleName_of_isName⟩
  obtain ⟨run, hrun, hname | hname⟩ := isRuleName_iff.1 h
  · exact hname ▸ hrun
  · exact absurd (by simp [hname]) (hnewline node hnode)

def sampleRecord : Record :=
  .withRules false ⟨"a", .start, []⟩
    [.withTerm true ⟨"b", .start, ["a"]⟩ ⟨.any, .start, none, []⟩,
      .withRules true ⟨"c", .start, ["a"]⟩ []]

theorem buildsBy_names_sampleRecord :
    (∀ node ∈ sampleRecord.nodes, '\n' ∉ node.heading.name.toList) ∧
      sampleRecord.BuildsBy fun name => isName name.toList := by
  have hnewline : ∀ node ∈ sampleRecord.nodes, '\n' ∉ node.heading.name.toList := by decide
  exact ⟨hnewline, (buildsBy_names sampleRecord).2 hnewline⟩

theorem not_buildsBy_name :
    let record := withTerm true ⟨"a\n", .start, []⟩ ⟨.any, .start, none, []⟩
    record.build = .ok (.terminal ⟨"a\n", .start, []⟩ ⟨.any, .start, none, []⟩) ∧
      ¬ record.Sound (fun name => isName name.toList) ∧
      ¬ record.BuildsBy fun name => isName name.toList := by
  intro record
  have hbuild : record.build = .ok (.terminal ⟨"a\n", .start, []⟩ ⟨.any, .start, none, []⟩) := rfl
  have hsound : ¬ record.Sound fun name => isName name.toList := by
    intro hsound
    exact absurd hsound.name (by decide)
  refine ⟨hbuild, hsound, fun hbuilds => hsound ?_⟩
  exact hbuilds.accepted.1 ⟨_, hbuild⟩ record List.mem_cons_self

end Record

end Rule

end IndentedGrammar
