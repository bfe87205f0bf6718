import IndentedGrammar.Command.Run

/-! The program: it takes the files that a command may look at from the disk, runs the command on them,
and prints its report. -/

namespace IndentedGrammar

def fetch (place : String) : IO (Option FileTree) := do
  let path := (← IO.currentDir) / place
  if !(← path.pathExists) then return none
  if ← path.isDir then return some .empty
  let bytes ← try some <$> IO.FS.readBinFile path catch _ => pure none
  match (← path.metadata).type, bytes with
  | .file, some bytes => return some (.file bytes)
  | .file, none => return none
  | _, bytes => return some (.special bytes)

partial def addPlace (deep : Bool) (w : Workspace) (parts : List String) : IO Workspace := do
  let place := "/" ++ "/".intercalate parts
  let some found ← fetch place | return w
  let mut w := { w with tree := FileTree.insert found parts (some w.tree) }
  if deep && found.isDirectory then
    for entry in ← ((← IO.currentDir) / place).readDir do
      w ← addPlace true w (parts ++ [entry.fileName])
  return w

def addPath (deep : Bool) (w : Workspace) (p : Path) : IO Workspace := do
  let parts := if p.isAbsolute then p.parts else w.here ++ p.parts
  let mut w := w
  for n in List.range (parts.length + 1) do
    w ← addPlace (deep && n == parts.length) w (Path.normalize (parts.take n))
  return w

/-- A stand-in: the reader here only tells that a text is no TOML document, not why. -/
def explain (_ : List Char) : String := "the text is no TOML document"

def addSearched (w : Workspace) (settings : Settings) (entry : String) : IO Workspace := do
  let base := w.resolve (settings.root.join (.ofString entry))
  let ups := (Settings.patterns settings.extension).count ".."
  addPath true (← addPath true w base) { base with parts := base.parts.take (base.parts.length - ups) }

def gather (w : Workspace) : Command.Request → IO Workspace
  | .version => return w
  | .dump request => addPath false w (.ofString request.file)
  | .check request => do
    let mut w ← addPath false w (w.resolve (.ofString request.config))
    for file in request.files do
      w ← addPath false w (.ofString file)
    if request.files.isEmpty then
      if let .ok (some settings) := Command.findSettings explain w request.config then
        for entry in settings.paths do
          w ← addSearched w settings entry
    return w

def printReport (report : Command.Report) : IO UInt32 := do
  for (stream, text) in report.printed do
    match stream with
    | .out => IO.print text
    | .err => IO.eprint text
  match report.ending with
  | .exit code => return code.toUInt32
  | .crash .notText =>
    IO.eprintln "Error: a file is not encoded in UTF-8"
    return 1
  | .crash (.notTable _) =>
    IO.eprintln "Error: a section of the settings is not a table"
    return 1
  | .crash (.unreachable _) =>
    IO.eprintln "Error: a path is too long"
    return 1
  | .crash .nullCharacter =>
    IO.eprintln "Error: a path in the settings holds a null character"
    return 1
  | .crash .badPattern =>
    IO.eprintln "Error: the extension in the settings is no pattern"
    return 1
  | .misused =>
    IO.eprintln "Usage: check [FILES] | dump FILE | --version"
    return 2

def start (args : List String) : IO UInt32 := do
  let here := (Path.ofString (← IO.currentDir).toString).parts
  let bare : Workspace := ⟨.empty, here⟩
  let w ← match Command.readRequest Document.defaultLimit args with
    | .error _ => pure bare
    | .ok request => gather bare request
  printReport (Command.run explain w args)

end IndentedGrammar

def main (args : List String) : IO UInt32 := IndentedGrammar.start args
