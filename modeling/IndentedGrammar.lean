import IndentedGrammar.Main
import IndentedGrammar.Rule.WellFormed
import IndentedGrammar.Session
import IndentedGrammar.Proofs.Term.SingleLine
import IndentedGrammar.Proofs.Document.RoundTrip
import IndentedGrammar.Proofs.Document.Append
import IndentedGrammar.Proofs.Source.Places
import IndentedGrammar.Proofs.Rule.Block
import IndentedGrammar.Proofs.Document.Totality
import IndentedGrammar.Proofs.Term.Places
import IndentedGrammar.Proofs.Rule.Order
import IndentedGrammar.Proofs.Document.Order
import IndentedGrammar.Proofs.Document.Places
import IndentedGrammar.Proofs.Rule.Limit
import IndentedGrammar.Proofs.Document.Nesting
import IndentedGrammar.Proofs.Rule.Silence
import IndentedGrammar.Proofs.Document.Silence
import IndentedGrammar.Proofs.Term.Lexing
import IndentedGrammar.Proofs.Rule.Conservation
import IndentedGrammar.Proofs.Document.Conservation
import IndentedGrammar.Proofs.Source.Returns
import IndentedGrammar.Proofs.Document.Returns
import IndentedGrammar.Proofs.Source.Insertion
import IndentedGrammar.Proofs.Document.Insertion
import IndentedGrammar.Proofs.Rule.Standing
import IndentedGrammar.Proofs.Document.Standing
import IndentedGrammar.Proofs.Source.Division
import IndentedGrammar.Proofs.Document.Resynchronisation
import IndentedGrammar.Proofs.Term.Spacing
import IndentedGrammar.Proofs.Session
import IndentedGrammar.Proofs.Document.Limit
import IndentedGrammar.Proofs.Source.Loop
import IndentedGrammar.Proofs.Document.Attempts
import IndentedGrammar.Proofs.Source.Tabs
import IndentedGrammar.Proofs.Document.Tabs
import IndentedGrammar.Proofs.Command.Composition
import IndentedGrammar.Proofs.Command.Dump
import IndentedGrammar.Proofs.Source.Block
import IndentedGrammar.Proofs.Rule.Ending
import IndentedGrammar.Proofs.Session.Steps
import IndentedGrammar.Proofs.Term.Leaves
import IndentedGrammar.Proofs.Document.Shown
import IndentedGrammar.Proofs.Diagnostic.Context
import IndentedGrammar.Proofs.Document.Lookup
import IndentedGrammar.Proofs.Rule.Scope
import IndentedGrammar.Proofs.Rule.Record
import IndentedGrammar.Proofs.Settings.Outcome
import IndentedGrammar.Proofs.Command.Fallback
import IndentedGrammar.Proofs.Files.Glob
import IndentedGrammar.Proofs.Files.Order
import IndentedGrammar.Proofs.Files.Place
import IndentedGrammar.Proofs.Settings.Discovery
import IndentedGrammar.Proofs.Source.Crossing
import IndentedGrammar.Proofs.Command.Discovered
import IndentedGrammar.Proofs.Files.Search
