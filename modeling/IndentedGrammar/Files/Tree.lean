import IndentedGrammar.Files.Path
import IndentedGrammar.Text.Quoted

namespace IndentedGrammar

inductive FileTree where
  | file : ByteArray → FileTree
  | directory : List (String × FileTree) → FileTree
  /-- A pipe, a socket or a device, with what comes out of it if it can be opened. -/
  | special : Option ByteArray → FileTree

inductive FileError where
  | missing : FileError
  | noDevice : FileError
  | notDirectory : FileError
  | isDirectory : FileError
  | tooLong : FileError
  deriving DecidableEq

def FileError.message (p : Path) : FileError → String
  | .missing => "[Errno 2] No such file or directory: " ++ quoted p.toString
  | .noDevice => "[Errno 6] No such device or address: " ++ quoted p.toString
  | .notDirectory => "[Errno 20] Not a directory: " ++ quoted p.toString
  | .isDirectory => "[Errno 21] Is a directory: " ++ quoted p.toString
  | .tooLong => "[Errno 36] File name too long: " ++ quoted p.toString

namespace FileTree

def empty : FileTree := .directory []

def isDirectory : FileTree → Bool
  | .directory _ => true
  | .file _ => false
  | .special _ => false

def contents : FileTree → Except FileError ByteArray
  | .file bytes => .ok bytes
  | .directory _ => .error .isDirectory
  | .special (some bytes) => .ok bytes
  | .special none => .error .noDevice

def longestName : Nat := 255

/-- Follows components from `here`; `above` holds the directories on the way to it, nearest first. Every
step, also one back up, needs a directory to start from. -/
def follow (above : List FileTree) (here : FileTree) : List String → Except FileError FileTree
  | [] => .ok here
  | part :: parts =>
    match here with
    | .file _ => .error .notDirectory
    | .special _ => .error .notDirectory
    | .directory entries =>
      if part = ".." then
        match above with
        | [] => follow [] here parts
        | up :: above => follow above up parts
      else if longestName < part.utf8ByteSize then .error .tooLong
      else
        match entries.lookup part with
        | none => .error .missing
        | some there => follow (here :: above) there parts

mutual

def directories : FileTree → List (List String)
  | .directory entries => [] :: directoriesAll entries
  | .file _ => []
  | .special _ => []

def directoriesAll : List (String × FileTree) → List (List String)
  | [] => []
  | (name, there) :: entries => there.directories.map (name :: ·) ++ directoriesAll entries

end

def update (name : String) (change : Option FileTree → FileTree) :
    List (String × FileTree) → List (String × FileTree)
  | [] => [(name, change none)]
  | (other, there) :: entries =>
    if other = name then (name, change (some there)) :: entries
    else (other, there) :: update name change entries

def insert (added : FileTree) : List String → Option FileTree → FileTree
  | [], some (.directory entries) =>
    match added with
    | .directory _ => .directory entries
    | other => other
  | [], _ => added
  | part :: parts, some (.directory entries) => .directory (update part (insert added parts) entries)
  | part :: parts, _ => .directory [(part, insert added parts none)]

end FileTree

structure Workspace where
  tree : FileTree
  here : List String

namespace Workspace

variable (w : Workspace)

def resolve (p : Path) : Path := p.resolve w.here

def longestPath : Nat := 4095

def find (p : Path) : Except FileError FileTree :=
  if longestPath < p.toString.utf8ByteSize then .error .tooLong
  else w.tree.follow [] (if p.isAbsolute then p.parts else w.here ++ p.parts)

def find? (p : Path) : Except FileError (Option FileTree) :=
  match w.find p with
  | .ok there => .ok (some there)
  | .error .tooLong => .error .tooLong
  | .error _ => .ok none

def readBytes (p : Path) : Except FileError ByteArray :=
  match w.find p with
  | .error e => .error e
  | .ok there => there.contents

end Workspace

inductive ReadError where
  | file : FileError → ReadError
  | notText : ReadError
  deriving DecidableEq

def unifyLineEnds : List Char → List Char
  | [] => []
  | '\r' :: '\n' :: text => '\n' :: unifyLineEnds text
  | '\r' :: text => '\n' :: unifyLineEnds text
  | ch :: text => ch :: unifyLineEnds text

def Workspace.readText (w : Workspace) (p : Path) : Except ReadError (List Char) :=
  match w.readBytes p with
  | .error e => .error (.file e)
  | .ok bytes =>
    match String.fromUTF8? bytes with
    | none => .error .notText
    | some text => .ok (unifyLineEnds text.toList)

end IndentedGrammar
