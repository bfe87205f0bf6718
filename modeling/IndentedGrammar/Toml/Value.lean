import IndentedGrammar.Toml.Moment

namespace IndentedGrammar.Toml

inductive Value where
  | string : String → Value
  | integer : Int → Value
  | float : String → Value
  | bool : Bool → Value
  | moment : MomentKind → String → Value
  | array : List Value → Value
  | table : List (String × Value) → Value

namespace Value

mutual

def decEq : (v w : Value) → Decidable (v = w)
  | .string s, w =>
    match w with
    | .string t => decidable_of_iff (s = t) (by simp)
    | .integer _ | .float _ | .bool _ | .moment _ _ | .array _ | .table _ => .isFalse nofun
  | .integer m, w =>
    match w with
    | .integer n => decidable_of_iff (m = n) (by simp)
    | .string _ | .float _ | .bool _ | .moment _ _ | .array _ | .table _ => .isFalse nofun
  | .float s, w =>
    match w with
    | .float t => decidable_of_iff (s = t) (by simp)
    | .string _ | .integer _ | .bool _ | .moment _ _ | .array _ | .table _ => .isFalse nofun
  | .bool b, w =>
    match w with
    | .bool c => decidable_of_iff (b = c) (by simp)
    | .string _ | .integer _ | .float _ | .moment _ _ | .array _ | .table _ => .isFalse nofun
  | .moment kind s, w =>
    match w with
    | .moment kind' t => decidable_of_iff (kind = kind' ∧ s = t) (by simp)
    | .string _ | .integer _ | .float _ | .bool _ | .array _ | .table _ => .isFalse nofun
  | .array vs, w =>
    match w with
    | .array ws =>
      have := decEqAll vs ws
      decidable_of_iff (vs = ws) (by simp)
    | .string _ | .integer _ | .float _ | .bool _ | .moment _ _ | .table _ => .isFalse nofun
  | .table fields, w =>
    match w with
    | .table fields' =>
      have := decEqFields fields fields'
      decidable_of_iff (fields = fields') (by simp)
    | .string _ | .integer _ | .float _ | .bool _ | .moment _ _ | .array _ => .isFalse nofun

def decEqAll : (vs ws : List Value) → Decidable (vs = ws)
  | [], [] => .isTrue rfl
  | v :: vs, w :: ws =>
    have := decEq v w
    have := decEqAll vs ws
    decidable_of_iff (v = w ∧ vs = ws) (by simp)
  | [], _ :: _ => .isFalse nofun
  | _ :: _, [] => .isFalse nofun

def decEqFields : (fields fields' : List (String × Value)) → Decidable (fields = fields')
  | [], [] => .isTrue rfl
  | (key, v) :: fields, (key', w) :: fields' =>
    have := decEq v w
    have := decEqFields fields fields'
    decidable_of_iff ((key = key' ∧ v = w) ∧ fields = fields') (by simp)
  | [], _ :: _ => .isFalse nofun
  | _ :: _, [] => .isFalse nofun

end

instance : DecidableEq Value := decEq

end Value

/-- `passed` tables were only named on the way to another one, `dotted` ones by a key with dots, and
`headed` ones by a header of their own. -/
inductive Origin where
  | passed : Origin
  | dotted : Origin
  | headed : Origin
  deriving DecidableEq

/-- What a key of an open table leads to: a finished value, a table, or an array of tables with the
latest one first. -/
inductive Entry where
  | value : Value → Entry
  | table : Origin → List (String × Entry) → Entry
  | tables : List (List (String × Entry)) → Entry

abbrev Entries := List (String × Entry)

namespace Entry

mutual

def toValue : Entry → Value
  | .value v => v
  | .table _ entries => .table (toFields entries)
  | .tables elements => .array (toElements elements).reverse

def toFields : List (String × Entry) → List (String × Value)
  | [] => []
  | (key, entry) :: entries => (key, entry.toValue) :: toFields entries

def toElements : List (List (String × Entry)) → List Value
  | [] => []
  | entries :: elements => .table (toFields entries) :: toElements elements

end

end Entry

namespace Entries

def replace (key : String) (entry : Entry) (entries : Entries) : Entries :=
  entries.map fun other => if other.1 = key then (key, entry) else other

def add (key : String) (entry : Entry) (entries : Entries) : Entries := entries ++ [(key, entry)]

/-- Changes the table that the keys of a header lead to. In an array of tables they lead to its latest
table; a finished value cannot be entered. -/
def alter (change : Entries → Option Entries) : List String → Entries → Option Entries
  | [], entries => change entries
  | key :: keys, entries =>
    match entries.lookup key with
    | none => (alter change keys []).map fun inner => add key (.table .passed inner) entries
    | some (.table origin inner) =>
      (alter change keys inner).map fun inner => replace key (.table origin inner) entries
    | some (.tables (latest :: earlier)) =>
      (alter change keys latest).map fun inner => replace key (.tables (inner :: earlier)) entries
    | some (.tables []) => none
    | some (.value _) => none

def openTable (key : String) (entries : Entries) : Option Entries :=
  match entries.lookup key with
  | none => some (add key (.table .headed []) entries)
  | some (.table .passed inner) => some (replace key (.table .headed inner) entries)
  | some _ => none

def openElement (key : String) (entries : Entries) : Option Entries :=
  match entries.lookup key with
  | none => some (add key (.tables [[]]) entries)
  | some (.tables elements) => some (replace key (.tables ([] :: elements)) entries)
  | some _ => none

/-- Gives a value to a key with dots. The tables on the way must not have a header of their own. -/
def assign (v : Value) : List String → Entries → Option Entries
  | [], _ => none
  | [key], entries =>
    match entries.lookup key with
    | none => some (add key (.value v) entries)
    | some _ => none
  | key :: keys, entries =>
    match entries.lookup key with
    | none => (assign v keys []).map fun inner => add key (.table .dotted inner) entries
    | some (.table .headed _) => none
    | some (.table _ inner) =>
      (assign v keys inner).map fun inner => replace key (.table .dotted inner) entries
    | some _ => none

end Entries

end IndentedGrammar.Toml
