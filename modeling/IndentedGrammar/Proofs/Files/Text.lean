import IndentedGrammar.Files.Tree
import IndentedGrammar.Proofs.Files.Path

namespace IndentedGrammar

theorem return_not_mem_unifyLineEnds (text : List Char) : '\r' ∉ unifyLineEnds text := by
  fun_induction unifyLineEnds text with
  | case1 => exact List.not_mem_nil
  | case2 text ih => simpa using ih
  | case3 text _ ih => simpa using ih
  | case4 ch text _ hch ih => simpa using ⟨fun h => hch h.symm, ih⟩

theorem unifyLineEnds_of_not_mem {text : List Char} (h : '\r' ∉ text) : unifyLineEnds text = text := by
  induction text with
  | nil => rfl
  | cons ch text ih =>
    rw [List.mem_cons, not_or] at h
    rw [unifyLineEnds, ih h.2]
    · exact fun _ hch => absurd hch.symm h.1
    · exact fun hch => absurd hch.symm h.1

structure Workspace.IsText (w : Workspace) (p : Path) : Prop where
  noNull : ∀ part ∈ p.parts, NoNull part
  ne_notText : w.readText p ≠ .error .notText

namespace Workspace

variable {w : Workspace} {p : Path}

theorem readText_of_readBytes {text : String} (h : w.readBytes p = .ok text.toUTF8) :
    w.readText p = .ok (unifyLineEnds text.toList) := by
  have hdecoded : String.fromUTF8? text.toUTF8 = some text := dif_pos text.isValidUTF8
  rw [readText, h]
  dsimp only
  rw [hdecoded]

theorem readText_of_error {e : FileError} (h : w.find p = .error e) :
    w.readText p = .error (.file e) := by
  rw [readText, readBytes, h]

theorem readText_eq_error_iff {there : FileTree} {e : FileError} (h : w.find p = .ok there) :
    w.readText p = .error (.file e) ↔ there.contents = .error e := by
  rw [readText, readBytes, h]
  dsimp only
  cases there.contents with
  | error e' => simp
  | ok bytes =>
    dsimp only
    split
    · simp
    · simp

theorem return_not_mem_of_readText {text : List Char} (h : w.readText p = .ok text) :
    '\r' ∉ text := by
  rw [readText] at h
  split at h
  · simp at h
  split at h
  · simp at h
  · next decoded _ =>
    obtain rfl := Except.ok.inj h
    exact return_not_mem_unifyLineEnds _

end Workspace

end IndentedGrammar
