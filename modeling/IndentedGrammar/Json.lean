import IndentedGrammar.Rule.Basic
import IndentedGrammar.Text.Quoted

namespace IndentedGrammar

inductive Json where
  | null : Json
  | bool : Bool → Json
  | number : Int → Json
  | string : String → Json
  | array : List Json → Json
  | object : List (String × Json) → Json

namespace Json

def escapeChar (ch : Char) : List Char :=
  let n := ch.toNat
  if ch = '"' || ch = '\\' then ['\\', ch]
  else if ch = '\n' then ['\\', 'n']
  else if ch = '\r' then ['\\', 'r']
  else if ch = '\t' then ['\\', 't']
  else if ch = '\x08' then ['\\', 'b']
  else if ch = '\x0c' then ['\\', 'f']
  else if 0x20 ≤ n && n < 0x80 then [ch]
  else if n < 0x10000 then '\\' :: 'u' :: hexadecimal 4 n
  else
    let high := 0xD800 + (n - 0x10000) / 0x400
    let low := 0xDC00 + (n - 0x10000) % 0x400
    '\\' :: 'u' :: hexadecimal 4 high ++ '\\' :: 'u' :: hexadecimal 4 low

def quoteText (text : String) : String :=
  String.ofList ('"' :: text.toList.flatMap escapeChar ++ ['"'])

def block (level : Nat) (opening closing : String) (items : List String) : String :=
  let margin (n : Nat) := "\n" ++ String.ofList (List.replicate (2 * n) ' ')
  match items with
  | [] => opening ++ closing
  | items => opening ++ ",".intercalate (items.map fun item => margin (level + 1) ++ item) ++
      margin level ++ closing

mutual

def renderAt (level : Nat) : Json → String
  | .null => "null"
  | .bool b => if b then "true" else "false"
  | .number n => toString n
  | .string text => quoteText text
  | .array items => block level "[" "]" (renderItems (level + 1) items)
  | .object fields => block level "\x7b" "\x7d" (renderFields (level + 1) fields)

def renderItems (level : Nat) : List Json → List String
  | [] => []
  | item :: items => renderAt level item :: renderItems level items

def renderFields (level : Nat) : List (String × Json) → List String
  | [] => []
  | (key, value) :: fields =>
    (quoteText key ++ ": " ++ renderAt level value) :: renderFields level fields

end

def render (json : Json) : String := renderAt 0 json

end Json

def Position.toJson (p : Position) : Json :=
  .object [("offset", .number p.offset), ("line", .number p.line), ("column", .number p.column)]

mutual

def Term.toJson : Term → Json
  | ⟨kind, position, text, children⟩ =>
    .object [("kind", .string kind.name), ("position", position.toJson),
      ("text", (text.map Json.string).getD .null), ("children", .array (Term.allToJson children))]

def Term.allToJson : List Term → List Json
  | [] => []
  | t :: ts => t.toJson :: Term.allToJson ts

end

def Heading.toJson (heading : Heading) (isTerminal : Bool) (value : Json) : Json :=
  .object [("name", .string heading.name), ("position", heading.position.toJson),
    ("terminal", .bool isTerminal), ("value", value),
    ("scope", .array (heading.scope.map Json.string))]

mutual

def Rule.toJson : Rule → Json
  | .terminal heading term => heading.toJson true term.toJson
  | .group heading children => heading.toJson false (.array (Rule.allToJson children))

def Rule.allToJson : List Rule → List Json
  | [] => []
  | r :: rs => r.toJson :: Rule.allToJson rs

end

end IndentedGrammar
