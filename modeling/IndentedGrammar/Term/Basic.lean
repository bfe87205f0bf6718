import IndentedGrammar.Source.Position

namespace IndentedGrammar

inductive Predicate where
  | and : Predicate
  | not : Predicate
  deriving DecidableEq

inductive Repetition where
  | optional : Repetition
  | zeroOrMore : Repetition
  | oneOrMore : Repetition
  deriving DecidableEq

def Predicate.symbol : Predicate → Char
  | .and => '&'
  | .not => '!'

def Predicate.ofSymbol? : Char → Option Predicate
  | '&' => some .and
  | '!' => some .not
  | _ => none

def Repetition.symbol : Repetition → Char
  | .optional => '?'
  | .zeroOrMore => '*'
  | .oneOrMore => '+'

def Repetition.ofSymbol? : Char → Option Repetition
  | '?' => some .optional
  | '*' => some .zeroOrMore
  | '+' => some .oneOrMore
  | _ => none

@[simp] theorem Predicate.ofSymbol?_symbol (p : Predicate) : ofSymbol? p.symbol = some p := by
  cases p <;> rfl

@[simp] theorem Repetition.ofSymbol?_symbol (r : Repetition) : ofSymbol? r.symbol = some r := by
  cases r <;> rfl

inductive Kind where
  | choice : Kind
  | sequence : Kind
  | repetition : Repetition → Kind
  | predicate : Predicate → Kind
  | reference : Kind
  | literal : Kind
  | characterClass : Kind
  | any : Kind
  deriving DecidableEq

namespace Kind

def name : Kind → String
  | .choice => "choice"
  | .sequence => "sequence"
  | .repetition .optional => "optional"
  | .repetition .zeroOrMore => "zero_or_more"
  | .repetition .oneOrMore => "one_or_more"
  | .predicate .and => "and_predicate"
  | .predicate .not => "not_predicate"
  | .reference => "reference"
  | .literal => "literal"
  | .characterClass => "character_class"
  | .any => "any"

def all : List Kind :=
  [.choice, .sequence, .repetition .optional, .repetition .zeroOrMore, .repetition .oneOrMore,
    .predicate .and, .predicate .not, .reference, .literal, .characterClass, .any]

def ofName? (name : String) : Option Kind := all.find? fun kind => kind.name = name

@[simp] theorem ofName?_name (kind : Kind) : ofName? kind.name = some kind := by
  revert kind
  rintro (_ | _ | (_ | _ | _) | (_ | _) | _ | _ | _ | _) <;> decide

def precedence : Kind → Nat
  | .choice => 0
  | .sequence => 1
  | .predicate _ => 2
  | .repetition _ => 3
  | .reference | .literal | .characterClass | .any => 4

end Kind

/-- A node of a term. `text` is the value of a literal, the name of a reference or the body of a
character class as it was written. -/
structure Term where
  kind : Kind
  position : Position
  text : Option String
  children : List Term

namespace Term

mutual

def walk : Term → List Term
  | ⟨kind, position, text, children⟩ => ⟨kind, position, text, children⟩ :: walkAll children

def walkAll : List Term → List Term
  | [] => []
  | t :: ts => t.walk ++ walkAll ts

end

theorem walkAll_eq_flatMap (ts : List Term) : walkAll ts = ts.flatMap walk := by
  induction ts with
  | nil => rfl
  | cons t ts ih => simp [walkAll, ih]

mutual

def mapPosition (f : Position → Position) : Term → Term
  | ⟨kind, position, text, children⟩ => ⟨kind, f position, text, mapPositionAll f children⟩

def mapPositionAll (f : Position → Position) : List Term → List Term
  | [] => []
  | t :: ts => t.mapPosition f :: mapPositionAll f ts

end

theorem mapPositionAll_eq_map (f : Position → Position) (ts : List Term) :
    mapPositionAll f ts = ts.map (mapPosition f) := by
  induction ts with
  | nil => rfl
  | cons t ts ih => simp [mapPositionAll, ih]

def references (t : Term) : List String :=
  t.walk.filterMap fun u =>
    match u.kind, u.text with
    | .reference, some name => if name = "" then none else some name
    | _, _ => none

end Term

end IndentedGrammar
