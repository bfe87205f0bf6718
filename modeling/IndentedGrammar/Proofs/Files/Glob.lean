import IndentedGrammar.Files.Glob
import Mathlib.Data.List.Basic

namespace IndentedGrammar

def IsLiteral (text : List Char) : Prop := ∀ ch ∈ text, ch ≠ '*' ∧ ch ≠ '?' ∧ ch ≠ '['

namespace Glob

theorem ofChars_of_isLiteral {text : List Char} (h : IsLiteral text) :
    ofChars text = text.map .char := by
  induction text with
  | nil => rw [ofChars, List.map_nil]
  | cons ch text ih =>
    obtain ⟨⟨hstar, hmark, hbracket⟩, hmore⟩ := List.forall_mem_cons.1 h
    rw [ofChars, ih hmore, List.map_cons]
    · exact hstar
    · exact hmark
    · exact hbracket

theorem fits_char {pattern text : List Char} : fits (pattern.map .char) text ↔ text = pattern := by
  induction pattern generalizing text with
  | nil => simp [fits]
  | cons ch pattern ih =>
    cases text with
    | nil => simp [fits]
    | cons first text =>
      rw [List.map_cons, fits, Bool.and_eq_true, ih, List.cons.injEq, Piece.admits, decide_eq_true_eq,
        eq_comm (a := ch)]
      simp

theorem fits_run {pieces : List Piece} {text : List Char} :
    fits (.run :: pieces) text ↔ ∃ tail, tail <:+ text ∧ fits pieces tail := by
  induction text with
  | nil => simp [fits]
  | cons ch text ih =>
    rw [fits, Bool.or_eq_true, ih]
    constructor
    · rintro (h | ⟨tail, htail, h⟩)
      · exact ⟨_, List.suffix_refl _, h⟩
      · exact ⟨tail, htail.trans (List.suffix_cons ch text), h⟩
    · rintro ⟨tail, htail, h⟩
      rcases List.suffix_cons_iff.1 htail with rfl | htail
      · exact .inl h
      · exact .inr ⟨tail, htail, h⟩

end Glob

section

variable {text : String}

theorem globMatches_star (h : IsLiteral text.toList) {name : String} :
    globMatches ("*" ++ text) name ↔ text.toList <:+ name.toList := by
  have hpieces : Glob.ofChars ("*" ++ text).toList = .run :: text.toList.map .char := by
    rw [← Glob.ofChars_of_isLiteral h, String.toList_append]
    change Glob.ofChars ('*' :: text.toList) = _
    rw [Glob.ofChars]
  rw [globMatches, hpieces, Glob.fits_run]
  simp [Glob.fits_char]

theorem hasDoubled_of_not_mem {mark : Char} {chars : List Char} (h : mark ∉ chars) :
    hasDoubled mark chars = false := by
  induction chars with
  | nil => rfl
  | cons ch chars ih =>
    rw [List.mem_cons, not_or] at h
    simp [hasDoubled, Ne.symm h.1, ih h.2]

theorem star_not_mem (h : IsLiteral text.toList) : '*' ∉ text.toList := fun hmem => (h _ hmem).1 rfl

theorem isPattern_star (h : IsLiteral text.toList) : isPattern ("*" ++ text) := by
  have hmem := star_not_mem h
  have hhead : text.toList.head? ≠ some '*' := fun hhead => hmem (List.mem_of_mem_head? hhead)
  simp [isPattern, hasDoubled, hasDoubled_of_not_mem hmem, hhead]

theorem star_append_ne (h : IsLiteral text.toList) : "*" ++ text ≠ "**" := by
  intro heq
  have hchars : '*' :: text.toList = ['*', '*'] := by
    simpa [String.toList_append] using congrArg String.toList heq
  exact star_not_mem h ((List.cons.inj hchars).2 ▸ List.mem_cons_self)

theorem isWild_star (text : String) : isWild ("*" ++ text) := by
  rw [isWild, String.toList_append]
  rfl

end

end IndentedGrammar
