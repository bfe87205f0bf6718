import IndentedGrammar.Proofs.Document.Append
import IndentedGrammar.Proofs.Document.Standing
import IndentedGrammar.Proofs.Source.Division

namespace IndentedGrammar

open Cursor Attempt

namespace Document

variable {src : Source} {limit : Int} {c : Cursor} {doc : Document} {n : Int}

theorem line_readTopLevel_lt (limit : Int) (hanew : src.StartsAnew n) (hin : c.IsIn src)
    (hlt : c.position.line < n) : (readTopLevel src limit c).cursor.position.line < n := by
  obtain ⟨first, second, hdivided⟩ := hanew.exists_dividedAt
  obtain ⟨d, hd, hne, rfl⟩ := hdivided.exists_extend hin hlt
  have hsettled := settled_extend hdivided.text hdivided.lines
    (hdivided.nextIndentation_second hanew) hd hne
  have ha := readTopLevel_aligned (hdivided.connected hanew) rfl limit hsettled
  obtain ⟨hin', -, hne', he⟩ := ha.cursor.ends (atLineEnd_readTopLevel first limit d)
  rw [he]
  exact hdivided.line_extend_lt hin' hne'

theorem exists_run_at (limit : Int) (hanew : src.StartsAnew n)
    (hdoc : readFrom src limit (Cursor.start src.text).skipInsignificant = .ok doc) :
    ∃ c more, Run src limit c more ∧ c.position.line = n ∧ ¬ c.atLineEnd ∧ c.OpensLine src ∧
      (∀ r ∈ more.rules, r ∈ doc.rules) ∧ ∀ d ∈ more.diagnostics, d ∈ doc.diagnostics := by
  obtain ⟨first, second, hdivided⟩ := hanew.exists_dividedAt
  obtain ⟨hline, hcontent⟩ := hdivided.skipInsignificant_second hanew
  have hnext := hdivided.nextIndentation_second hanew
  have hresume {c : Cursor} (hin : c.IsIn first) := resumes_extend hdivided.text hdivided.lines hnext hin
  have hin := ((IsIn.start second).behind hdivided.text hdivided.lines).reaches
    (reaches_skipInsignificant _)
  obtain ⟨more, hmore, hrun⟩ := run_readFrom src limit hin rest_skipInsignificant_eq_nil
  obtain ⟨doc₁, doc', hdoc₁, hdoc', hrules, hdiagnostics⟩ :=
    readFrom_aligned (hdivided.connected hanew) rfl limit
      (fun e _ h => h.2.2.2 ▸ hresume h.1) hmore (hresume (.start first))
  have hstart : (Cursor.start first.text).extend second.text = .start src.text :=
    Cursor.ext hdivided.text.symm rfl
  rw [hstart] at hdoc'
  obtain rfl := Except.ok.inj (hdoc.symm.trans hdoc')
  have hopens := opensLine_of_wholeLines hdivided.text hdivided.start_behind hdivided.lines
    fun hnil => hcontent (atLineEnd_of_rest_nil hnil)
  refine ⟨_, more, hrun, hline, hcontent, hopens, ?_, ?_⟩
  · intro r hr
    rw [hrules]
    exact List.mem_append_right _ hr
  · intro d hd
    rw [hdiagnostics]
    exact List.mem_append_right _ hd

theorem Run.answers (h : Run src limit c doc) (hc : ¬ c.atLineEnd) (hopens : c.OpensLine src) :
    (∃ r ∈ doc.rules, r.position = c.position) ∨
      ∃ d ∈ doc.diagnostics, c.position.line ≤ d.line ∧
        d.line ≤ (readTopLevel src limit c).cursor.position.line := by
  cases h with
  | ended _ hnil => exact absurd (atLineEnd_of_rest_nil hnil) hc
  | @declaration _ first more hin _ hfirst hrun =>
    have ha : (readTopLevel src limit c).Orderly Rule.walk c := orderly_readTopLevel hin
    cases first with
    | some r =>
      have hr := (stands_readTopLevel hin (fun _ => hopens) hfirst).2
      exact .inl ⟨r, List.mem_cons_self, hr⟩
    | none =>
      obtain ⟨x, hx, hiff⟩ := ha.reports
      obtain rfl := Except.ok.inj (hfirst.symm.trans hx)
      obtain ⟨d, ds, hds⟩ := List.exists_cons_of_ne_nil (hiff.1 rfl)
      have hd : d ∈ (readTopLevel src limit c).diagnostics := hds ▸ List.mem_cons_self
      have hplace : d.position ∈ (readTopLevel src limit c).places Rule.walk :=
        List.mem_append_left _ (List.mem_map_of_mem hd)
      exact .inr ⟨d, List.mem_append_left _ hd, ha.passes.line_le hplace⟩

/-- Every line with content and without indentation, unless a backslash joins it to the one before it,
has a rule of the document or a diagnostic above the next such line. All rules of the document are on
lines with content and without indentation. -/
theorem unindented_answered (src : Source) (limit : Int) :
    ∃ doc, read src limit = .ok doc ∧
      (∀ n, src.StartsAnew n →
        (∃ r ∈ doc.rules, r.position.line = n) ∨
          ∃ d ∈ doc.diagnostics, n ≤ d.line ∧ d.line ≤ src.lineCount ∧
            ∀ m, n < m → src.StartsAnew m → d.line < m) ∧
      ∀ r ∈ doc.rules, isBlankLine (src.line r.position.line) = false ∧
        src.indentation r.position.line = 0 := by
  obtain ⟨doc, hdoc, hrun⟩ := run_readFrom src limit
    ((IsIn.start src).reaches (reaches_skipInsignificant _)) rest_skipInsignificant_eq_nil
  obtain ⟨doc', hread, hrules, hdiagnostics⟩ := read_eq hdoc
  refine ⟨doc', hread, ?_, ?_⟩
  · intro n hanew
    obtain ⟨c, more, hmore, hline, hc, hopens, hrules', hdiagnostics'⟩ :=
      exists_run_at limit hanew hdoc
    rw [hrules, hdiagnostics]
    rcases hmore.answers hc hopens with ⟨r, hr, hp⟩ | ⟨d, hd, hle, hend⟩
    · exact .inl ⟨r, hrules' r hr, by rw [hp, hline]⟩
    · right
      have hlast := (hmore.isIn.reaches (reaches_readTopLevel src limit c)).line_le_lineCount
      refine ⟨d, hdiagnostics' d hd, hline ▸ hle, Int.le_trans hend hlast, ?_⟩
      intro m hm hanew'
      exact Int.lt_of_le_of_lt hend
        (line_readTopLevel_lt limit hanew' hmore.isIn (by rwa [hline]))
  · intro r hr
    rw [hrules] at hr
    obtain ⟨hdeclared, -⟩ := hrun.stands (opensLine_start src) r hr
    exact ⟨hdeclared.not_isBlankLine, hdeclared.indentation⟩

end Document

end IndentedGrammar
