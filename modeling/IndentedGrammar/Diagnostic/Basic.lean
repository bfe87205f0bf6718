import IndentedGrammar.Source.Lines

namespace IndentedGrammar

inductive Problem where
  | invalidIndentation : Problem
  | unexpectedIndentation : Problem
  | tooDeep : Int → Problem
  | expectedRuleName : Problem
  | expectedHeading : Problem
  | expectedSpace : Problem
  | trailingCharacters : Problem
  | noChildren : String → Problem
  | expectedTerm : Problem
  | unexpectedCharacter : Char → Problem
  | unclosedGroup : Problem
  | unterminatedLiteral : Problem
  | emptyLiteral : Problem
  | unterminatedClass : Problem
  | emptyClass : Problem
  | other : String → Problem
  deriving DecidableEq

def Problem.message : Problem → String
  | .invalidIndentation => "invalid indentation level"
  | .unexpectedIndentation => "unexpected indentation increase"
  | .tooDeep limit => "maximum nesting depth of " ++ toString limit ++ " exceeded"
  | .expectedRuleName => "expected rule name"
  | .expectedHeading => "expected ':' or '...'"
  | .expectedSpace => "expected space after ':'"
  | .trailingCharacters => "trailing characters after '...'"
  | .noChildren name => "no children found for name-extended rule '" ++ name ++ "'"
  | .expectedTerm => "expected term"
  | .unexpectedCharacter ch => "unexpected character '" ++ String.singleton ch ++ "' in term"
  | .unclosedGroup => "expected ')'"
  | .unterminatedLiteral => "unterminated string literal"
  | .emptyLiteral => "empty string literal"
  | .unterminatedClass => "unterminated character class"
  | .emptyClass => "empty character class"
  | .other message => message

structure Diagnostic where
  position : Position
  problem : Problem
  deriving DecidableEq

def padLeft (width : Nat) (text : String) : String := String.ofList (text.toList.leftpad width ' ')

def numberedLine (n : Int) (text : String) : String := padLeft 4 (toString n) ++ " | " ++ text

def markerLine (n column : Int) : String :=
  let width := ((numberedLine n "").length : Int) + column - 1
  String.ofList (List.replicate width.toNat ' ') ++ "^^^"

namespace Diagnostic

def message (d : Diagnostic) : String := d.problem.message

def line (d : Diagnostic) : Int := d.position.line

def column (d : Diagnostic) : Int := d.position.column

def render (d : Diagnostic) : String := d.position.render ++ ": " ++ d.message

/-- The diagnostic with the file it is about, and the source line with a marker if that is given. A
file with an empty name is no file. -/
def format (d : Diagnostic) (file snippet : Option String) : String :=
  let place := match file with
    | none | some "" => d.position.render
    | some file => file ++ ":" ++ d.position.render
  let head := place ++ ": error: " ++ d.message
  match snippet with
  | none => head
  | some text => head ++ "\n" ++ numberedLine d.line text ++ "\n" ++ markerLine d.line d.column

def formatAll (file : Option String) (source : Option Source) (ds : List Diagnostic) : List String :=
  ds.map fun d => d.format file (source.map fun src => String.ofList (src.lineText d.line))

end Diagnostic

end IndentedGrammar
