import IndentedGrammar.Rule.Basic
import IndentedGrammar.Term.Printer
import IndentedGrammar.Text.Cut
import IndentedGrammar.Text.Width

namespace IndentedGrammar

inductive Outline where
  | node : String → List Outline → Outline

namespace Outline

/-- Characters that would move the cursor backwards or to another line. -/
def movesCursor (ch : Char) : Bool := ['\x07', '\x08', '\x0b', '\x0c', '\r'].contains ch

def fillTab (part : List Char) : List Char :=
  let width := cells (part ++ [' '])
  part ++ List.replicate ((8 - width % 8) % 8 + 1) ' '

def fillTabs (line : List Char) : List Char :=
  let parts := cutAt '\t' line
  parts.dropLast.flatMap fillTab ++ parts.getLastD []

def visible (label : List Char) : List Char :=
  List.intercalate ['\n'] ((cutAt '\n' (label.filter (!movesCursor ·))).map fillTabs)

mutual

def lines : Outline → List String
  | .node label children => String.ofList (visible label.toList) :: childLines children

def childLines : List Outline → List String
  | [] => []
  | child :: children =>
    let (first, others) := if children.isEmpty then ("└── ", "    ") else ("├── ", "│   ")
    let own := match lines child with
      | [] => []
      | head :: tail => (first ++ head) :: tail.map (others ++ ·)
    own ++ childLines children

end

def render (outline : Outline) : String := String.join (outline.lines.map (· ++ "\n"))

end Outline

mutual

def Rule.outline : Rule → Outline
  | .terminal heading term => .node (heading.name ++ ": " ++ String.ofList (term.chars 0)) []
  | .group heading children => .node (heading.name ++ "...") (Rule.outlines children)

def Rule.outlines : List Rule → List Outline
  | [] => []
  | r :: rs => r.outline :: Rule.outlines rs

end

end IndentedGrammar
