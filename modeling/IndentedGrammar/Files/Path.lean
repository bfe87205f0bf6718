import IndentedGrammar.Text.Cut

/-! Paths by their components. Repeated slashes, components `.` and a slash at the end say nothing and
are dropped; `..` stays, because only the files can tell where it leads. -/

namespace IndentedGrammar

/-- No null character stands in the text. File systems take no other paths. -/
def NoNull (text : String) : Prop := '\x00' ∉ text.toList

instance : DecidablePred NoNull := fun _ => inferInstanceAs (Decidable (_ ∉ _))

/-- `root` is empty for a relative path and `/` for an absolute one. Exactly two slashes at the start
are kept. -/
structure Path where
  root : String
  parts : List String
  deriving DecidableEq

namespace Path

def ofString (text : String) : Path :=
  let chars := text.toList
  let root := match (chars.takeWhile (· = '/')).length with
    | 0 => ""
    | 2 => "//"
    | _ => "/"
  ⟨root, ((cutAt '/' chars).filter fun part => part ≠ [] && part ≠ ['.']).map String.ofList⟩

def toString (p : Path) : String :=
  if p.root = "" && p.parts.isEmpty then "." else p.root ++ "/".intercalate p.parts

def isAbsolute (p : Path) : Bool := p.root ≠ ""

def parent (p : Path) : Path := { p with parts := p.parts.dropLast }

def name (p : Path) : String := p.parts.getLast?.getD ""

def below (p : Path) (parts : List String) : Path := { p with parts := p.parts ++ parts }

def join (p q : Path) : Path := if q.isAbsolute then q else p.below q.parts

def descend (above : List String) (part : String) : List String :=
  if part = ".." then above.tail else part :: above

def normalize (parts : List String) : List String := (parts.foldl descend []).reverse

def resolve (here : List String) (p : Path) : Path :=
  ⟨"/", normalize (if p.isAbsolute then p.parts else here ++ p.parts)⟩

def relativeTo? (p base : Path) : Option Path :=
  if p.root = base.root && base.parts.isPrefixOf p.parts then
    some ⟨"", p.parts.drop base.parts.length⟩
  else none

end Path

end IndentedGrammar
