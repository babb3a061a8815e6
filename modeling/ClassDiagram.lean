import ClassDiagram.Document
import ClassDiagram.Text.Unprintable
import ClassDiagram.Decimal.Layout
import ClassDiagram.Text.Quoted
import ClassDiagram.Text.Utf8
import ClassDiagram.Json.Fault
import ClassDiagram.Json.Number
import ClassDiagram.Json.Record
import ClassDiagram.Descriptor.Adapter
import ClassDiagram.LogFormat
import ClassDiagram.Command.Arguments
import ClassDiagram.Command.Directory
import ClassDiagram.Command.Invocation
import ClassDiagram.Command.Run
import ClassDiagram.Main
import ClassDiagram.Proofs.Grammar.Reading
import ClassDiagram.Proofs.Grammar.Syntax
import ClassDiagram.Proofs.Grammar.Soundness
import ClassDiagram.Proofs.Grammar.Unrolling
import ClassDiagram.Proofs.Grammar.TypeNames
import ClassDiagram.Proofs.Grammar.Members
import ClassDiagram.Proofs.Grammar.Statements
import ClassDiagram.Proofs.Grammar.Agreement
import ClassDiagram.Proofs.Grammar.Locality
import ClassDiagram.Proofs.Grammar.Completion
import ClassDiagram.Proofs.Grammar.Refusal
import ClassDiagram.Proofs.Token.Symbols
import ClassDiagram.Proofs.Layout.Spelling
import ClassDiagram.Proofs.Layout.TypeNames
import ClassDiagram.Proofs.Layout.Members
import ClassDiagram.Proofs.Layout.Lines
import ClassDiagram.Proofs.Model.Collections
import ClassDiagram.Proofs.Model.Building
import ClassDiagram.Proofs.Model.WellFormed
import ClassDiagram.Proofs.Layout.RoundTrip
import ClassDiagram.Proofs.Layout.Lexemes
import ClassDiagram.Proofs.Layout.Canonical
import ClassDiagram.Proofs.Layout.Reformat
import ClassDiagram.Proofs.Model.Contents
import ClassDiagram.Proofs.Layout.Settling
import ClassDiagram.Proofs.Model.Merging
import ClassDiagram.Proofs.Token.LineFeeds
import ClassDiagram.Proofs.Grammar.Matching
import ClassDiagram.Proofs.Grammar.Seams
import ClassDiagram.Proofs.Parts
import ClassDiagram.Proofs.Model.Visits
import ClassDiagram.Proofs.Text.Trimming
import ClassDiagram.Proofs.Descriptor.Names
import ClassDiagram.Proofs.Descriptor.Classes
import ClassDiagram.Proofs.Descriptor.Notation
import ClassDiagram.Proofs.Descriptor.Unresolved
import ClassDiagram.Proofs.Json.Texts
import ClassDiagram.Proofs.Json.Reading
import ClassDiagram.Proofs.Json.Numbers
import ClassDiagram.Proofs.Json.Values
import ClassDiagram.Proofs.Json.Skipping
import ClassDiagram.Proofs.Json.Records
import ClassDiagram.Proofs.Json.Writing
import ClassDiagram.Proofs.Descriptor.Loading
import ClassDiagram.Proofs.Token.Tokenization
import ClassDiagram.Proofs.Token.Fillers
import ClassDiagram.Proofs.Token.Gist
import ClassDiagram.Proofs.Grammar.Unlabelled
import ClassDiagram.Proofs.Token.LexemeLines
import ClassDiagram.Proofs.Spacing
import ClassDiagram.Proofs.Model.Histories
import ClassDiagram.Proofs.Descriptor.Lookup
import ClassDiagram.Proofs.Descriptor.Contributions
import ClassDiagram.Proofs.Model.SameContent
import ClassDiagram.Proofs.Recognition
import ClassDiagram.Proofs.Accepted
import ClassDiagram.Proofs.Layout.Skeletons
import ClassDiagram.Proofs.Text.Places
import ClassDiagram.Proofs.Descriptor.TypeArguments
import ClassDiagram.Proofs.Descriptor.Normalization
import ClassDiagram.Proofs.Layout.Chains
import ClassDiagram.Proofs.Model.Edges
import ClassDiagram.Proofs.Token.Alone
import ClassDiagram.Proofs.Token.Identifiers
import ClassDiagram.Proofs.Token.LineByLine
import ClassDiagram.Proofs.Layout.TypeTokens
