import IndentedGrammar.Diagnostic.Basic

namespace IndentedGrammar

structure Context where
  file : Option String
  line : Int
  column : Int
  snippet : Option String
  deriving DecidableEq

namespace Context

def numberedFrom (line column : Int) : Int → List (List Char) → List String
  | _, [] => []
  | n, text :: more =>
    let shown := numberedLine n (String.ofList text)
    if n = line then shown :: markerLine n column :: numberedFrom line column (n + 1) more
    else shown :: numberedFrom line column (n + 1) more

/-- The place, then the snippet if it is not empty. A snippet starts two lines before the place, or at
the first line of the source. -/
def format (ctx : Context) : String :=
  let place := ctx.file.getD "<string>" ++ ":" ++ toString ctx.line ++ ":" ++ toString ctx.column
  match ctx.snippet with
  | none | some "" => place
  | some text =>
    "\n".intercalate
      (place :: numberedFrom ctx.line ctx.column (max 1 (ctx.line - 2)) (splitLines text.toList))

def describe (ctx : Option Context) (message : String) : String :=
  match ctx with
  | none => message
  | some ctx => ctx.format ++ "\n" ++ message

end Context

def Source.contextAt (src : Source) (c : Cursor) : Context :=
  ⟨src.file, c.position.line, c.position.column,
    some (String.ofList (src.snippet c.position.line 2))⟩

end IndentedGrammar
