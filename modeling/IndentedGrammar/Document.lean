import IndentedGrammar.Rule.Printer
import IndentedGrammar.Rule.Reader

namespace IndentedGrammar

structure Document where
  source : Source
  rules : List Rule
  diagnostics : List Diagnostic
  notes : List Note
  /-- Where declarations were looked for, in order. -/
  starts : List Position
  cursor : Cursor

namespace Document

def defaultLimit : Int := 100

variable (src : Source) (limit : Int)

/-- Reads one rule that no group encloses. After a failure everything is skipped up to the next line
without indentation. -/
def readTopLevel (c : Cursor) : Attempt Rule :=
  let a := Rule.readDeclaration src (Rule.readAt src limit 0) c
  match a.result with
  | .error _ => a
  | .ok (some r) => a.note (.ruleRead r.name c.position.line)
  | .ok none =>
    let b := a.note (.resynchronised c.position.line)
    { b with cursor := b.cursor.skipBlock src 0 }

def readFrom (c : Cursor) : Except Fault Document :=
  if c.atEnd then .ok ⟨src, [], [], [], [], c⟩
  else
    let a := readTopLevel src limit c
    match a.result with
    | .error f => .error f
    | .ok first =>
      let d := a.cursor.skipInsignificant
      if _h : d.rest.length < c.rest.length then
        match readFrom d with
        | .error f => .error f
        | .ok more => .ok ⟨src, first.toList ++ more.rules, a.diagnostics ++ more.diagnostics,
            a.notes ++ more.notes, a.starts ++ more.starts, more.cursor⟩
      else .ok ⟨src, first.toList, a.diagnostics, a.notes, a.starts, d⟩
termination_by c.rest.length

def read : Except Fault Document :=
  match readFrom src limit (Cursor.start src.text).skipInsignificant with
  | .error f => .error f
  | .ok doc => .ok { doc with
      notes := doc.notes ++ [.finished doc.rules.length doc.diagnostics.length src.shownFile] }

def ok (doc : Document) : Bool := doc.diagnostics.isEmpty

def rule? (doc : Document) (qualifiedName : String) : Option Rule :=
  Rule.find? doc.rules qualifiedName

def formatDiagnostics (doc : Document) (withSnippets : Bool) : List String :=
  Diagnostic.formatAll doc.source.file (if withSnippets then some doc.source else none)
    doc.diagnostics

end Document

structure Rejection where
  summary : String
  diagnostics : List Diagnostic
  file : Option String

namespace Rejection

def context? (rejection : Rejection) : Option Context :=
  match rejection.diagnostics, rejection.file with
  | d :: _, some file => some ⟨some file, d.line, d.column, none⟩
  | _, _ => none

def message (rejection : Rejection) : String :=
  Context.describe rejection.context? rejection.summary

def ofDocument (doc : Document) : Rejection :=
  let count := doc.diagnostics.length
  ⟨toString count ++ " syntax error" ++ (if count = 1 then "" else "s") ++ " in " ++
    doc.source.shownFile, doc.diagnostics, doc.source.file⟩

end Rejection

end IndentedGrammar
