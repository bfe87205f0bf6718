import IndentedGrammar.Command.Dump
import IndentedGrammar.Proofs.Document.File
import IndentedGrammar.Proofs.Document.Printing
import IndentedGrammar.Proofs.Files.Text

namespace IndentedGrammar

theorem withoutSequencesFrom_sublist (covered : Nat) (text : List Char) :
    (withoutSequencesFrom covered text).Sublist text := by
  fun_induction withoutSequencesFrom covered text with
  | case1 => exact .slnil
  | case2 ch text covered ih => exact ih.cons ch
  | case3 ch text length _ ih => exact ih.cons ch
  | case4 ch text _ ih => exact ih.cons_cons ch

def Document.ShownWhole (doc : Document) : Prop :=
  withoutSequences (String.ofList (Rule.charsAll doc.rules)) = String.ofList (Rule.charsAll doc.rules)

instance (doc : Document) : Decidable doc.ShownWhole := inferInstanceAs (Decidable (_ = _))

namespace Command

def DumpRequest.IsText (request : DumpRequest) : Prop :=
  request.format ≠ "json" ∧ request.format ≠ "tree"

theorem Printed.on_out_notes (verbose : Bool) (notes : List Note) (text : String) :
    Printed.on .out (printNotes verbose notes ++ [(.out, text)]) = text := by
  have hnotes : (printNotes verbose notes).filter (fun piece => piece.1 = .out) = [] := by
    cases verbose <;> simp [printNotes]
  simp [Printed.on, hnotes]

variable {w : Workspace} {request : DumpRequest} {doc : Document}

theorem render_of_isText (h : request.IsText) (p : Path) (doc : Document) :
    render request.format p doc = withoutSequences (String.ofList (Rule.charsAll doc.rules)) := by
  rw [render, if_neg h.1, if_neg h.2]

theorem dump_of_ofFile (hfile : Document.ofFile w request.limit (.ofString request.file) = .ok doc)
    (hsilent : doc.diagnostics = []) :
    dump w request = ⟨printNotes request.verbose doc.notes ++
      [(.out, render request.format (.ofString request.file) doc)], .exit 0⟩ := by
  have hok : doc.ok := by rw [Document.ok, hsilent]; rfl
  unfold dump
  dsimp only
  rw [hfile]
  dsimp only
  rw [if_pos hok]
  rfl

theorem exists_of_dump (h : (dump w request).ending = .exit 0) :
    ∃ text doc, w.readText (.ofString request.file) = .ok text ∧
      Document.read (.ofText text (some (Path.ofString request.file).toString)) request.limit =
        .ok doc ∧
      Document.ofFile w request.limit (.ofString request.file) = .ok doc ∧ doc.diagnostics = [] := by
  unfold dump at h
  dsimp only at h
  cases htext : w.readText (.ofString request.file) with
  | error e =>
    cases e with
    | file e =>
      rw [Document.ofFile_of_unreadable request.limit htext] at h
      simp [Report.fail] at h
    | notText =>
      rw [Document.ofFile_of_notText request.limit htext] at h
      simp at h
  | ok text =>
    obtain ⟨doc, hread, hfile⟩ := Document.ofFile_of_readText request.limit htext
    refine ⟨text, doc, rfl, hread, hfile, ?_⟩
    rw [hfile] at h
    dsimp only [Report.after] at h
    split at h
    next hok => exact List.isEmpty_iff.1 hok
    · simp [Report.fail] at h

theorem on_out_dump (htext : request.IsText)
    (hfile : Document.ofFile w request.limit (.ofString request.file) = .ok doc)
    (hsilent : doc.diagnostics = []) :
    (dump w request).printed.on .out =
      withoutSequences (String.ofList (Rule.charsAll doc.rules)) := by
  rw [dump_of_ofFile hfile hsilent, Printed.on_out_notes, render_of_isText htext]

/-- There is no carriage return in what is printed, whatever ends the lines of the file. Stored in a file it
is printed again, unless control sequences were taken out of it. -/
theorem dump_again (htext : request.IsText) (hexit : (dump w request).ending = .exit 0) :
    let output := (dump w request).printed.on .out
    '\r' ∉ output.toList ∧
      ∀ (w' : Workspace) (request' : DumpRequest), request'.IsText → request'.limit = request.limit →
        w'.readBytes (.ofString request'.file) = .ok output.toUTF8 →
        (∀ doc, Document.ofFile w request.limit (.ofString request.file) = .ok doc →
          doc.ShownWhole) →
        (dump w' request').ending = .exit 0 ∧ (dump w' request').printed.on .out = output := by
  intro output
  obtain ⟨text, doc, hreadText, hread, hfile, hsilent⟩ := exists_of_dump hexit
  have houtput : output = withoutSequences (String.ofList (Rule.charsAll doc.rules)) :=
    on_out_dump htext hfile hsilent
  have hreturn : '\r' ∉ output.toList := by
    have hrules := Document.return_not_mem_charsAll hread hsilent
      (Workspace.return_not_mem_of_readText hreadText)
    rw [houtput, withoutSequences, String.toList_ofList, String.toList_ofList]
    exact fun hmem => hrules ((withoutSequencesFrom_sublist 0 _).subset hmem)
  refine ⟨hreturn, fun w' request' htext' hlimit hbytes hwhole => ?_⟩
  rw [hwhole doc hfile] at houtput
  have hreadText' : w'.readText (.ofString request'.file) = .ok (Rule.charsAll doc.rules) := by
    rw [Workspace.readText_of_readBytes hbytes, unifyLineEnds_of_not_mem hreturn, houtput,
      String.toList_ofList]
  obtain ⟨doc', hdoc', hsilent', hrules⟩ :=
    Document.exists_read_charsAll hread (some (Path.ofString request'.file).toString)
  have hfile' : Document.ofFile w' request'.limit (.ofString request'.file) = .ok doc' := by
    rw [hlimit]
    exact Document.ofFile_of_read _ hreadText' hdoc'
  constructor
  · rw [dump_of_ofFile hfile' hsilent']
  · rw [on_out_dump htext' hfile' hsilent', hrules, hwhole doc hfile, houtput]

def fileAlone (text : String) : Workspace := ⟨.directory [("g", .file text.toUTF8)], []⟩

def dumpAlone : DumpRequest := ⟨"g", "text", 100, false⟩

theorem isText_dumpAlone : dumpAlone.IsText := ⟨by decide, by decide⟩

theorem ending_dump (h : (Document.ofFile w request.limit (.ofString request.file)).toOption.any
    fun doc => doc.ok) : (dump w request).ending = .exit 0 := by
  cases hfile : Document.ofFile w request.limit (.ofString request.file) with
  | error e => simp [hfile, Except.toOption] at h
  | ok doc =>
    have hsilent : doc.diagnostics = [] := by simpa [hfile, Except.toOption, Document.ok] using h
    rw [dump_of_ofFile hfile hsilent]

theorem dump_again_returns :
    let w := fileAlone "a: b\r\n"
    let w' := fileAlone "a: b\n"
    (dump w dumpAlone).ending = .exit 0 ∧ '\r' ∉ ((dump w dumpAlone).printed.on .out).toList ∧
      (dump w' dumpAlone).ending = .exit 0 ∧
        (dump w' dumpAlone).printed.on .out = (dump w dumpAlone).printed.on .out := by
  intro w w'
  have hexit : (dump w dumpAlone).ending = .exit 0 := ending_dump (by decide +kernel)
  have hprinted : (dump w dumpAlone).printed.on .out = "a: b\n" := by decide +kernel
  have hbytes : w'.readBytes (.ofString dumpAlone.file) =
      .ok ((dump w dumpAlone).printed.on .out).toUTF8 := by
    rw [hprinted]
    rfl
  have hwhole : ∀ doc, Document.ofFile w dumpAlone.limit (.ofString dumpAlone.file) = .ok doc →
      doc.ShownWhole := by
    have hall : (Document.ofFile (fileAlone "a: b\r\n") dumpAlone.limit
        (.ofString dumpAlone.file)).toOption.all fun doc => decide doc.ShownWhole := by
      decide +kernel
    intro doc hfile
    rw [hfile] at hall
    exact of_decide_eq_true hall
  obtain ⟨hreturn, hagain⟩ := dump_again isText_dumpAlone hexit
  obtain ⟨hexit', hprinted'⟩ := hagain w' dumpAlone isText_dumpAlone rfl hbytes hwhole
  exact ⟨hexit, hreturn, hexit', hprinted'⟩

theorem dump_again_cut :
    let w := fileAlone "a: \"\x1b[\x1b[0mm\"\n"
    let w' := fileAlone "a: \"\x1b[m\"\n"
    (dump w dumpAlone).ending = .exit 0 ∧
      w'.readBytes (.ofString dumpAlone.file) = .ok ((dump w dumpAlone).printed.on .out).toUTF8 ∧
      (dump w' dumpAlone).printed.on .out ≠ (dump w dumpAlone).printed.on .out := by
  intro w w'
  have hexit : (dump w dumpAlone).ending = .exit 0 := ending_dump (by decide +kernel)
  have hprinted : (dump w dumpAlone).printed.on .out = "a: \"\x1b[m\"\n" := by decide +kernel
  have hprinted' : (dump w' dumpAlone).printed.on .out = "a: \"\"\n" := by decide +kernel
  rw [hprinted, hprinted']
  exact ⟨hexit, rfl, by decide⟩

end Command

end IndentedGrammar
