namespace IndentedGrammar

/-- A place in a source: how many characters stand before it, and its line and column, both counted
from one. -/
structure Position where
  offset : Nat
  line : Int
  column : Int
  deriving DecidableEq

namespace Position

def start : Position := ⟨0, 1, 1⟩

def after (p : Position) (ch : Char) : Position :=
  if ch = '\n' then ⟨p.offset + 1, p.line + 1, 1⟩ else ⟨p.offset + 1, p.line, p.column + 1⟩

def afterAll (p : Position) (text : List Char) : Position := text.foldl after p

def render (p : Position) : String := toString p.line ++ ":" ++ toString p.column

@[simp] theorem afterAll_nil (p : Position) : p.afterAll [] = p := rfl

@[simp] theorem afterAll_cons (p : Position) (ch : Char) (text : List Char) :
    p.afterAll (ch :: text) = (p.after ch).afterAll text := rfl

@[simp] theorem afterAll_append (p : Position) (text more : List Char) :
    p.afterAll (text ++ more) = (p.afterAll text).afterAll more := by
  simp [afterAll]

@[simp] theorem offset_after (p : Position) (ch : Char) : (p.after ch).offset = p.offset + 1 := by
  unfold after; split <;> rfl

@[simp] theorem offset_afterAll (p : Position) (text : List Char) :
    (p.afterAll text).offset = p.offset + text.length := by
  induction text generalizing p with
  | nil => rfl
  | cons ch text ih => simp [ih]; omega

end Position

end IndentedGrammar
