import IndentedGrammar.Document
import IndentedGrammar.Files.Tree

namespace IndentedGrammar.Document

inductive Error where
  | unreadable : FileError → Error
  | notText : Error
  | fault : Fault → Error

def ofFile (w : Workspace) (limit : Int) (p : Path) : Except Error Document :=
  match w.readText p with
  | .error (.file e) => .error (.unreadable e)
  | .error .notText => .error .notText
  | .ok text =>
    match read (Source.ofText text (some p.toString)) limit with
    | .error f => .error (.fault f)
    | .ok doc => .ok doc

inductive LoadError where
  | notRead : Error → LoadError
  | rejected : Rejection → LoadError

def load (w : Workspace) (limit : Int) (p : Path) : Except LoadError (List Rule) :=
  match ofFile w limit p with
  | .error e => .error (.notRead e)
  | .ok doc => if doc.ok then .ok doc.rules else .error (.rejected (.ofDocument doc))

end IndentedGrammar.Document
