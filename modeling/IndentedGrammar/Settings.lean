import IndentedGrammar.Document
import IndentedGrammar.Files.Search
import IndentedGrammar.Toml.Reader

namespace IndentedGrammar

structure Settings where
  /-- Whatever the file gives as the project's name. -/
  name : Toml.Value
  root : Path
  paths : List String
  extension : String
  limit : Nat

namespace Settings

inductive Failure where
  | unreadable : FileError → Failure
  | notText : Failure
  | malformed : String → Failure
  | notTable : Toml.Value → Failure
  | wrongType : (key expected : String) → Failure
  | negativeLimit : Failure

/-- What is told about the failure, for the settings file `p`. A file that is no text, and a section
that is no table, are not handled as wrong settings. -/
def Failure.message? (p : Path) : Failure → Option String
  | .unreadable e => some ("Cannot read " ++ p.toString ++ ": " ++ e.message p)
  | .malformed explanation => some ("Invalid TOML in " ++ p.toString ++ ": " ++ explanation)
  | .wrongType key expected =>
    some (p.toString ++ ": '" ++ key ++ "' must be of type " ++ expected)
  | .negativeLimit => some (p.toString ++ ": 'grammar.max_depth' must not be negative")
  | .notText => none
  | .notTable _ => none

def section? (name : String) (fields : List (String × Toml.Value)) :
    Except Failure (List (String × Toml.Value)) :=
  match fields.lookup name with
  | none => .ok []
  | some (.table inner) => .ok inner
  | some other => .error (.notTable other)

def readStrings : List Toml.Value → Except Failure (List String)
  | [] => .ok []
  | .string text :: values => (readStrings values).map (text :: ·)
  | _ :: _ => .error (.wrongType "grammar.paths" "str")

def readPaths (grammar : List (String × Toml.Value)) : Except Failure (List String) :=
  match grammar.lookup "paths" with
  | none => .ok ["./grammar"]
  | some (.array values) => readStrings values
  | some _ => .error (.wrongType "grammar.paths" "list")

def readExtension (grammar : List (String × Toml.Value)) : Except Failure String :=
  match grammar.lookup "extension" with
  | none => .ok ".grammar"
  | some (.string text) => .ok (if text.toList.head? = some '.' then text else "." ++ text)
  | some _ => .error (.wrongType "grammar.extension" "str")

def readLimit (grammar : List (String × Toml.Value)) : Except Failure Nat :=
  match grammar.lookup "max_depth" with
  | none => .ok Document.defaultLimit.toNat
  | some (.integer (.ofNat n)) => .ok n
  | some (.integer (.negSucc _)) => .error .negativeLimit
  | some _ => .error (.wrongType "grammar.max_depth" "int")

def readName (p : Path) (project : List (String × Toml.Value)) : Toml.Value :=
  let directory := p.parent.name
  (project.lookup "name").getD (.string (if directory = "" then "unnamed" else directory))

def ofFields (p : Path) (fields : List (String × Toml.Value)) : Except Failure Settings := do
  let grammar ← section? "grammar" fields
  let paths ← readPaths grammar
  let extension ← readExtension grammar
  let limit ← readLimit grammar
  let project ← section? "project" fields
  return ⟨readName p project, p.parent, paths, extension, limit⟩

/-- The settings in the file `p`. What there is to say about a text that is no TOML document is told by
`explain`. -/
def load (explain : List Char → String) (w : Workspace) (p : Path) : Except Failure Settings :=
  match w.readText p with
  | .error (.file e) => .error (.unreadable e)
  | .error .notText => .error .notText
  | .ok text =>
    match Toml.read text with
    | none => .error (.malformed (explain text))
    | some fields => ofFields p fields

/-- Patterns for the components of a path that ends in the extension: just one, unless there are slashes in
it. -/
def patterns (extension : String) : List String :=
  (Path.ofString ("*" ++ extension)).parts ++
    if extension.toList.getLast? = some '/' then [""] else []

def filesOf (s : Settings) (w : Workspace) (entry : String) : Except SearchError (List Path) :=
  let named := s.root.join (.ofString entry)
  if ¬ ∀ part ∈ named.parts, NoNull part then .error .nullCharacter
  else
    let base := w.resolve named
    match w.find? base with
    | .error e => .error (.unreachable base e)
    | .ok none => .ok []
    | .ok (some (.file _)) => .ok [base]
    | .ok (some _) =>
      if (patterns s.extension).all isPattern then w.select ("**" :: patterns s.extension) base
      else .error .badPattern

def files (s : Settings) (w : Workspace) : Except SearchError (List Path) := do
  let found ← s.paths.mapM (s.filesOf w)
  return found.flatten.eraseDups.mergeSort fun p q => (compare p.parts q.parts).isLE

end Settings

end IndentedGrammar
