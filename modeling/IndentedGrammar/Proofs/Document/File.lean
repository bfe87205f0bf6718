import IndentedGrammar.Document.File
import IndentedGrammar.Proofs.Rule.RoundTrip

namespace IndentedGrammar.Document

variable {w : Workspace} {p : Path} (limit : Int)

theorem ofFile_of_read {text : List Char} {doc : Document} (htext : w.readText p = .ok text)
    (hread : read (.ofText text (some p.toString)) limit = .ok doc) :
    ofFile w limit p = .ok doc := by
  rw [ofFile, htext]
  dsimp only
  rw [hread]

theorem ofFile_of_readText {text : List Char} (h : w.readText p = .ok text) :
    ∃ doc, read (.ofText text (some p.toString)) limit = .ok doc ∧ ofFile w limit p = .ok doc := by
  obtain ⟨doc, hdoc, -⟩ := read_ok (.ofText text (some p.toString)) limit
  exact ⟨doc, hdoc, ofFile_of_read limit h hdoc⟩

theorem ofFile_of_unreadable {e : FileError} (h : w.readText p = .error (.file e)) :
    ofFile w limit p = .error (.unreadable e) := by
  rw [ofFile, h]

theorem ofFile_of_notText (h : w.readText p = .error .notText) :
    ofFile w limit p = .error .notText := by
  rw [ofFile, h]

end IndentedGrammar.Document
