import IndentedGrammar.Source.Cursor
import IndentedGrammar.Term.Basic

namespace IndentedGrammar

/-- What the first line of a declaration says. `scope` holds the names of the enclosing groups,
outermost first. -/
structure Heading where
  name : String
  position : Position
  scope : List String
  deriving DecidableEq

inductive Rule where
  | terminal : Heading → Term → Rule
  | group : Heading → List Rule → Rule

namespace Rule

def heading : Rule → Heading
  | .terminal heading _ => heading
  | .group heading _ => heading

def name (r : Rule) : String := r.heading.name

def position (r : Rule) : Position := r.heading.position

def scope (r : Rule) : List String := r.heading.scope

def isTerminal : Rule → Bool
  | .terminal _ _ => true
  | .group _ _ => false

def term? : Rule → Option Term
  | .terminal _ term => some term
  | .group _ _ => none

def children : Rule → List Rule
  | .terminal _ _ => []
  | .group _ children => children

def path (r : Rule) : List String := r.scope ++ [r.name]

def qualifiedName (r : Rule) : String := ".".intercalate r.path

mutual

def walk : Rule → List Rule
  | .terminal heading term => [.terminal heading term]
  | .group heading children => .group heading children :: walkAll children

def walkAll : List Rule → List Rule
  | [] => []
  | r :: rs => r.walk ++ walkAll rs

end

mutual

/-- The rule as a part of the group `parent`: the new ancestor is outside of every name that is in a
scope already. -/
def within (parent : String) : Rule → Rule
  | .terminal heading term => .terminal { heading with scope := parent :: heading.scope } term
  | .group heading children =>
    .group { heading with scope := parent :: heading.scope } (withinAll parent children)

def withinAll (parent : String) : List Rule → List Rule
  | [] => []
  | r :: rs => r.within parent :: withinAll parent rs

end

mutual

def mapPosition (f : Position → Position) : Rule → Rule
  | .terminal heading term =>
    .terminal { heading with position := f heading.position } (term.mapPosition f)
  | .group heading children =>
    .group { heading with position := f heading.position } (mapPositionAll f children)

def mapPositionAll (f : Position → Position) : List Rule → List Rule
  | [] => []
  | r :: rs => r.mapPosition f :: mapPositionAll f rs

end

theorem walkAll_eq_flatMap (rs : List Rule) : walkAll rs = rs.flatMap walk := by
  induction rs with
  | nil => rfl
  | cons r rs ih => simp [walkAll, ih]

theorem withinAll_eq_map (parent : String) (rs : List Rule) :
    withinAll parent rs = rs.map (within parent) := by
  induction rs with
  | nil => rfl
  | cons r rs ih => simp [withinAll, ih]

theorem mapPositionAll_eq_map (f : Position → Position) (rs : List Rule) :
    mapPositionAll f rs = rs.map (mapPosition f) := by
  induction rs with
  | nil => rfl
  | cons r rs ih => simp [mapPositionAll, ih]

def find? (rules : List Rule) (name : String) : Option Rule :=
  (walkAll rules).find? fun r => r.qualifiedName = name

end Rule

end IndentedGrammar
