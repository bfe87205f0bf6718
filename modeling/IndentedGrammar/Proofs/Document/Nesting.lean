import IndentedGrammar.Proofs.Document.Append
import IndentedGrammar.Proofs.Document.Places
import IndentedGrammar.Proofs.Document.RoundTrip
import IndentedGrammar.Proofs.Document.Silence
import IndentedGrammar.Proofs.Rule.Limit
import IndentedGrammar.Proofs.Source.Nesting

namespace IndentedGrammar

open Cursor Attempt

namespace Term

variable {f g : Position → Position}

mutual

theorem mapPosition_congr :
    (t : Term) → (∀ u ∈ t.walk, f u.position = g u.position) → t.mapPosition f = t.mapPosition g
  | ⟨kind, p, text, children⟩, h => by
    have hp : f p = g p := h _ List.mem_cons_self
    rw [mapPosition, mapPosition, hp,
      mapPositionAll_congr children fun u hu => h u (List.mem_cons_of_mem _ hu)]

theorem mapPositionAll_congr :
    (ts : List Term) → (∀ u ∈ walkAll ts, f u.position = g u.position) →
      mapPositionAll f ts = mapPositionAll g ts
  | [], _ => rfl
  | t :: ts, h => by
    rw [mapPositionAll, mapPositionAll,
      mapPosition_congr t fun u hu => h u (List.mem_append_left _ hu),
      mapPositionAll_congr ts fun u hu => h u (List.mem_append_right _ hu)]

end

end Term

namespace Rule

variable {f g : Position → Position}

def AgreeOn (f g : Position → Position) (r : Rule) : Prop :=
  f r.position = g r.position ∧ ∀ t ∈ r.term?, ∀ u ∈ t.walk, f u.position = g u.position

mutual

theorem mapPosition_congr :
    (r : Rule) → (∀ u ∈ r.walk, u.AgreeOn f g) → r.mapPosition f = r.mapPosition g
  | .terminal heading term, h => by
    obtain ⟨hp, hterm⟩ := h _ List.mem_cons_self
    have hp : f heading.position = g heading.position := hp
    rw [mapPosition, mapPosition, hp, Term.mapPosition_congr term (hterm term rfl)]
  | .group heading children, h => by
    have hp : f heading.position = g heading.position := (h _ List.mem_cons_self).1
    rw [mapPosition, mapPosition, hp,
      mapPositionAll_congr children fun u hu => h u (List.mem_cons_of_mem _ hu)]

theorem mapPositionAll_congr :
    (rs : List Rule) → (∀ u ∈ walkAll rs, u.AgreeOn f g) → mapPositionAll f rs = mapPositionAll g rs
  | [], _ => rfl
  | r :: rs, h => by
    rw [mapPositionAll, mapPositionAll,
      mapPosition_congr r fun u hu => h u (List.mem_append_left _ hu),
      mapPositionAll_congr rs fun u hu => h u (List.mem_append_right _ hu)]

end

end Rule

theorem Attempt.Aligned.yields {src src' : Source} {s : Alignment src src'} {α : Type} {f : α → α}
    {a a' : Attempt α} {x : α} {e : Cursor} (h : a.Aligned s f a') (hy : a.Yields x e) :
    ∃ e', a'.Yields (f x) e' ∧ s.Settled e e' := by
  obtain ⟨y, hy', hresult⟩ := h.result
  obtain rfl := Except.ok.inj (hy.result.symm.trans hy')
  refine ⟨a'.cursor, ⟨hresult, ?_, rfl⟩, hy.cursor ▸ h.cursor⟩
  rw [h.diagnostics, hy.diagnostics]
  rfl

namespace Document

theorem Declares.limit_nonneg {src : Source} {limit : Int} {c : Cursor} {rs : List Rule}
    (h : Declares src limit c rs) (hne : rs ≠ []) : 0 ≤ limit := by
  cases h with
  | ended => exact absurd rfl hne
  | declaration _ hc _ hread =>
    obtain ⟨-, levels, hlevels, -⟩ := Rule.yields_of_read hc hread
    omega

variable {src whole : Source} {name body : List Char} {limit : Int} {c : Cursor} {rs : List Rule}
  {doc : Document}

section

variable (hname : '\n' ∉ name)
  (htext : whole.text = name ++ '.' :: '.' :: '.' :: '\n' :: body) (hbody : Indents src.text body)

include hname htext hbody

theorem readChildren_nested (parent : String) (h : Declares src limit c rs) {e' : Cursor}
    (hin : e'.IsIn whole) (hend : e'.atLineEnd)
    (hnests : Nests src whole name c e'.skipInsignificant) :
    ∃ e'', (Rule.readChildren whole parent 0 (Rule.read whole (limit + 1) (limit + 1).toNat 1)
        e').Yields
        (rs.map fun r => (r.mapPosition (Nests.move src whole name)).within parent) e'' ∧
      e''.skipInsignificant.rest = [] := by
  induction h generalizing e' with
  | ended hc hnil =>
    have hnil' := hnests.rest_eq_nil hnil
    have hahead : aheadIndentation e'.rest ≤ 4 * 0 := by
      apply Nat.not_lt.1
      intro hpos
      exact rest_skipInsignificant_ne_nil hend hpos hnil'
    rw [Rule.readChildren_eq (Rule.reaches_read whole _ _ _) hin hend, if_pos hahead]
    exact ⟨e', ⟨rfl, rfl, rfl⟩, hnil'⟩
  | @declaration c r rs e hc hstart hwidth hread hline hmore ih =>
    have hsettled := settled_nested hname htext hbody hnests
    have hne := rest_ne_nil_of_startsName hstart
    -- the rule is read alike under the larger limit, and then alike one level deeper
    have hlimit : limit ≤ limit + 1 := Int.le_add_one (Int.le_refl limit)
    have hrelaxed := (Rule.read_relaxed src hlimit (Nat.le_refl (limit + 1).toNat) 0
      c).eq_of_silent hread.diagnostics
    have haligned := Rule.read_aligned (connected_ofNested hname htext hbody) (limit + 1)
      (limit + 1).toNat 0 hsettled hstart
    rw [hrelaxed] at haligned
    obtain ⟨d, hyields, hd⟩ := haligned.yields hread
    obtain ⟨hnests', -⟩ := hd.ends hline
    have hline' : d.atLineEnd := by rwa [hd.atLineEnd_eq]
    have hstart' : e'.skipInsignificant.startsName := by
      rwa [startsName, ← current?, hsettled.current?_eq]
    have hahead : aheadIndentation e'.rest = 4 * (0 + 1) := by
      rw [← indentation_skipInsignificant hin hend (rest_ne_nil_of_startsName hstart'),
        hsettled.beside.indentation_eq hne, hwidth]
      rfl
    obtain ⟨e'', hmore', hend''⟩ := ih hnests'.isIn' hline' hnests'.skipInsignificant
    refine ⟨e'', ?_, hend''⟩
    rw [Rule.readChildren_eq (Rule.reaches_read whole _ _ _) hin hend, if_neg (by omega),
      if_neg (by omega)]
    exact Attempt.cons_yields (Rule.readChild_yields parent hstart' hyields hline') hmore'

end

theorem agreeOn_of_read (hread : read src limit = .ok doc) {r : Rule} (hr : r ∈ doc.rules) :
    ∀ u ∈ r.walk, u.AgreeOn (Nests.move src whole name) (.nested name) := by
  obtain ⟨run, hrun, hread'⟩ := run_read src limit
  obtain rfl := Except.ok.inj (hread'.symm.trans hread)
  -- whatever was read is at characters, so the place of the end of the source does not matter
  intro u hu
  have hheld := hrun.heldBy u (Rule.mem_walkAll.2 ⟨r, hr, hu⟩)
  exact ⟨Nests.move_of_holds hrun.isIn hheld.heading,
    fun t ht v hv => Nests.move_of_holds hrun.isIn (hheld.term t ht v hv)⟩

section

variable {levels : Nat} {children : List Rule} {tail : List Char} {e : Cursor} (hname : isName name)
  (htext : whole.text = name ++ '.' :: '.' :: '.' :: '\n' :: tail)

include hname htext

theorem exists_solid_heading :
    ∃ ch more, whole.text = ch :: more ∧ isSolid ch ∧ (Cursor.start whole.text).startsName := by
  obtain ⟨ch, more, rfl, hch⟩ := exists_cons_of_isName hname
  refine ⟨ch, more ++ '.' :: '.' :: '.' :: '\n' :: tail, htext, isSolid_of_isNameChar hch, ?_⟩
  rw [startsName, Cursor.start, htext]
  exact hch

variable (hlevels : (limit + 1).toNat = levels + 1)
  (hchildren : (Rule.readChildren whole (String.ofList name) 0 (Rule.read whole limit levels 1)
    ((Cursor.start whole.text).drop (name.length + 3))).Yields children e) (hne : children ≠ [])

include hlevels hchildren hne

theorem readTopLevel_heading : (readTopLevel whole limit (.start whole.text)).Yields
    (.group ⟨String.ofList name, .start, []⟩ children) e := by
  obtain ⟨ch, more, hstart, hsolid, hstarts⟩ := exists_solid_heading hname htext
  have hwidth := (AtContent.start whole hstart hsolid).indentation
  have hend : e.atLineEnd := by
    have hblock := Rule.readChildren_satisfies whole (String.ofList name) 0 (q := fun _ => True)
      (fun _ hd => Rule.read_satisfies whole limit levels 1 hd) (fun _ _ => trivial)
      (atLineEnd_heading htext)
    exact hchildren.cursor ▸ (hblock.holds _ hchildren.result).2
  refine readTopLevel_yields hstarts hwidth ?_ hend
  rw [hlevels, Rule.read_group hname hwidth htext]
  exact Rule.readGroup_yields (by rwa [String.toList_ofList]) (rest_heading htext) hchildren hne

theorem read_heading (hlast : e.skipInsignificant.rest = []) :
    ∃ doc, read whole limit = .ok doc ∧ doc.diagnostics = [] ∧
      doc.rules = [.group ⟨String.ofList name, .start, []⟩ children] := by
  obtain ⟨ch, more, hstart, hsolid, -⟩ := exists_solid_heading hname htext
  have hskip : (Cursor.start whole.text).skipInsignificant = .start whole.text :=
    skipInsignificant_of_solid hstart hsolid
  have hlt : e.skipInsignificant.rest.length < (Cursor.start whole.text).rest.length := by
    rw [hlast, Cursor.start, hstart]
    exact Nat.succ_pos _
  obtain ⟨doc, hdoc, hrules, hdiagnostics⟩ :=
    readFrom_yields (readTopLevel_heading hname htext hlevels hchildren hne) hlt
      (readFrom_of_rest_nil whole limit hlast)
  obtain ⟨doc', hdoc', hrules', hdiagnostics'⟩ := read_eq (hskip.symm ▸ hdoc)
  exact ⟨doc', hdoc', hdiagnostics'.trans hdiagnostics, hrules'.trans hrules⟩

end

/-- A document without diagnostics, indented below the heading of `name`, is read as the group `name`
with its rules, each of them at the same characters. -/
theorem read_nested (hname : isName name)
    (htext : whole.text = name ++ '.' :: '.' :: '.' :: '\n' :: body)
    (hbody : Indents src.text body) (hread : read src limit = .ok doc)
    (hsilent : doc.diagnostics = []) (hne : doc.rules ≠ []) :
    ∃ doc', read whole (limit + 1) = .ok doc' ∧ doc'.diagnostics = [] ∧
      doc'.rules = [.group ⟨String.ofList name, .start, []⟩
        (doc.rules.map fun r => (r.mapPosition (.nested name)).within (String.ofList name))] ∧
      ∀ c : Cursor, c.IsIn src → c.rest ≠ [] → ∃ c' : Cursor, c'.IsIn whole ∧
        c'.position = c.position.nested name ∧ c'.current? = c.current? := by
  have hnewline := Rule.newline_not_mem_of_isName hname
  have hdeclares := declares_of_read hread hsilent
  obtain ⟨d, hopens, hd⟩ := exists_opensAt hnewline htext hbody
  have hin := (IsIn.start whole).drop (name.length + 3)
  have hskip := hopens.insignificant false
  rw [← skipInsignificant] at hskip
  obtain ⟨e, hchildren, hlast⟩ := readChildren_nested hnewline htext hbody (String.ofList name)
    hdeclares hin (atLineEnd_heading htext) (hskip ▸ hd.skipInsignificant)
  have hlimit := hdeclares.limit_nonneg hne
  have hlevels : (limit + 1 + 1).toNat = (limit + 1).toNat + 1 := by omega
  obtain ⟨doc', hdoc', hsilent', hrules⟩ :=
    read_heading hname htext hlevels hchildren (mt List.map_eq_nil_iff.1 hne) hlast
  refine ⟨doc', hdoc', hsilent', ?_, ?_⟩
  · rw [hrules]
    congr 2
    exact List.map_congr_left fun r hr => congrArg (Rule.within _)
      (Rule.mapPosition_congr r (agreeOn_of_read hread hr))
  · intro c hc hne
    obtain ⟨c', hnests⟩ := exists_nests hnewline htext hbody hc
    exact ⟨c', hnests.isIn', hnests.position_eq hne, hnests.current?_eq⟩

theorem read_nested_terminal :
    let src := Source.ofText ['a', ':', ' ', 'b', '\n', '#', '\n'] none
    let body := levelBlanks ++ (['a', ':', ' ', 'b'] ++ '\n' :: (levelBlanks ++ (['#'] ++ ['\n'])))
    let whole := Source.ofText (['g'] ++ '.' :: '.' :: '.' :: '\n' :: body) none
    isName ['g'] ∧ Indents src.text body ∧ ∃ doc, read src 0 = .ok doc ∧ doc.diagnostics = [] ∧
      doc.rules ≠ [] ∧ ∃ doc', read whole (0 + 1) = .ok doc' ∧ doc'.diagnostics = [] ∧
        doc'.rules = [.group ⟨String.ofList ['g'], .start, []⟩
          (doc.rules.map fun r => (r.mapPosition (.nested ['g'])).within (String.ofList ['g']))] ∧
        ∀ c : Cursor, c.IsIn src → c.rest ≠ [] → ∃ c' : Cursor, c'.IsIn whole ∧
          c'.position = c.position.nested ['g'] ∧ c'.current? = c.current? := by
  intro src body whole
  have hname : isName ['g'] := by decide
  have hlast : Indents (['#'] ++ ['\n']) (levelBlanks ++ (['#'] ++ ['\n'])) :=
    .more (by decide) .ended
  have hline : '\n' ∉ ['a', ':', ' ', 'b'] := by decide
  have hbody : Indents src.text body := .more hline hlast
  have hread : (read src 0).toOption.any fun doc =>
      doc.diagnostics.isEmpty && !doc.rules.isEmpty := by decide +kernel
  cases hdoc : read src 0 with
  | error f => simp [hdoc, Except.toOption] at hread
  | ok doc =>
    obtain ⟨hsilent, hne⟩ : doc.diagnostics = [] ∧ doc.rules ≠ [] := by
      simpa [hdoc, Except.toOption] using hread
    exact ⟨hname, hbody, doc, rfl, hsilent, hne, read_nested hname rfl hbody hdoc hsilent hne⟩

end Document

end IndentedGrammar
