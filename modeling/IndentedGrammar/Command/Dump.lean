import IndentedGrammar.Command.Arguments
import IndentedGrammar.Command.Report
import IndentedGrammar.Json
import IndentedGrammar.Outline

namespace IndentedGrammar.Command

def render (format : String) (p : Path) (doc : Document) : String :=
  if format = "json" then (Json.array (Rule.allToJson doc.rules)).render ++ "\n"
  else if format = "tree" then (Outline.node p.name (Rule.outlines doc.rules)).render
  else withoutSequences (String.ofList (Rule.charsAll doc.rules))

def dump (w : Workspace) (request : DumpRequest) : Report :=
  let p := Path.ofString request.file
  match Document.ofFile w request.limit p with
  | .error (.fault f) => ⟨printFault f, .exit 2⟩
  | .error (.unreadable e) => .fail (printUnreadable p e)
  | .error .notText => ⟨[], .crash .notText⟩
  | .ok doc =>
    Report.after (printNotes request.verbose doc.notes)
      (if doc.ok then ⟨[(.out, render request.format p doc)], .exit 0⟩
      else .fail (printHuman (shownPath w (.ofString ".") p) doc))

end IndentedGrammar.Command
