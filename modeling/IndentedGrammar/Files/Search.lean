import IndentedGrammar.Files.Glob
import IndentedGrammar.Files.Tree

namespace IndentedGrammar

inductive SearchError where
  | unreachable : Path → FileError → SearchError
  | nullCharacter : SearchError
  | badPattern : SearchError
  deriving DecidableEq

namespace Workspace

variable (w : Workspace)

def scan (p : Path) : Except SearchError (List (String × FileTree)) :=
  match w.find p with
  | .ok (.directory entries) => .ok entries
  | .ok _ => .error (.unreachable p .notDirectory)
  | .error e => .error (.unreachable p e)

/-- What is found from the directory `p` on, with one pattern for each component. Two stars stand for any
number of directories, and an empty pattern at the end asks for a directory. Only directories that are
scanned and names that are not wild have to be followed by the file system. -/
def select : List String → Path → Except SearchError (List Path)
  | [], p => .ok [p]
  | pattern :: patterns, p =>
    if pattern = "" then .ok [p]
    else if pattern = "**" then
      match w.find p with
      | .ok here => do
        let found ← here.directories.mapM fun parts => do
          let found ← select patterns (p.below parts)
          let _ ← w.scan (p.below parts)
          return found
        return found.flatten
      | .error e => do
        let _ ← select patterns p
        .error (.unreachable p e)
    else if isWild pattern then do
      let entries ← w.scan p
      let fitting := entries.filter fun (name, there) =>
        globMatches pattern name && (patterns.isEmpty || there.isDirectory)
      let found ← fitting.mapM fun (name, _) => select patterns (p.below [name])
      return found.flatten
    else if ¬ NoNull pattern then .ok []
    else
      let q := p.below [pattern]
      match w.find? q with
      | .error e => .error (.unreachable q e)
      | .ok none => .ok []
      | .ok (some there) => if patterns.isEmpty || there.isDirectory then select patterns q else .ok []

end Workspace

end IndentedGrammar
