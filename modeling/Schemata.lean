import Schemata.Main
import Schemata.Proofs.Resolution.Ownership
import Schemata.Proofs.Resolution.WellFormed
import Schemata.Proofs.Resolution.Precedence
import Schemata.Proofs.Resolution.Appending
import Schemata.Proofs.Resolution.Reordering
import Schemata.Proofs.Resolution.Plain
import Schemata.Proofs.Document.Node
import Schemata.Proofs.Document.Undocumented
import Schemata.Proofs.Schema.Undocumented
import Schemata.Proofs.Documentation
import Schemata.Proofs.Document.Pointer
import Schemata.Proofs.Document.Loaded
import Schemata.Proofs.Schema.Subschemas
import Schemata.Proofs.Document.Section
import Schemata.Proofs.Designation
import Schemata.Proofs.Naming.Suffix
import Schemata.Proofs.PureScript.Constructor
import Schemata.Proofs.Text.CaseMapping
import Schemata.Proofs.Text.Casing
import Schemata.Proofs.Naming.TypeName
import Schemata.Proofs.PureScript.TypeWord
import Schemata.Proofs.PureScript.Import
import Schemata.Proofs.PureScript.Synonym
import Schemata.Proofs.Resolution.Alternative
import Schemata.Proofs.TypeScript.Alias
import Schemata.Proofs.Schema.Blame
import Schemata.Proofs.Schema.Place
import Schemata.Proofs.Resolution.Blame
import Schemata.Proofs.Placement
import Schemata.Proofs.Model.Way
import Schemata.Proofs.Text.PascalCase
import Schemata.Proofs.Resolution.Context
import Schemata.Proofs.TypeScript.TypeWord
import Schemata.Proofs.Emission.Scope
import Schemata.Proofs.TypeScript.Scope
import Schemata.Proofs.PureScript.Scope
import Schemata.Proofs.Hygiene
import Schemata.Proofs.Document.RoundTrip
import Schemata.Proofs.Naming.History
import Schemata.Proofs.Schema.Shaped
import Schemata.Proofs.WellShaped
import Schemata.Proofs.Resolution.Termination
import Schemata.Proofs.Emission.Layout
import Schemata.Proofs.Json.Printer
import Schemata.Proofs.Json.Quoted
import Schemata.Proofs.Text.Lines
import Schemata.Proofs.TypeScript.Scan
import Schemata.Proofs.TypeScript.Cut
import Schemata.Proofs.TypeScript.Comment
import Schemata.Proofs.PureScript.Comment
import Schemata.Proofs.PureScript.Label
import Schemata.Proofs.Text.ProperName
import Schemata.Proofs.PureScript.ModulePath
import Schemata.Proofs.Workspace.Path
import Schemata.Proofs.Workspace.Effect
import Schemata.Proofs.CommandLine.Spelling
import Schemata.Proofs.CommandLine.Arguments
import Schemata.Proofs.CommandLine.Plan
import Schemata.Proofs.CommandLine.Steps
import Schemata.Proofs.CommandLine.Generation
import Schemata.Proofs.Naming.Identifier
import Schemata.Proofs.Schema.Wrapper
import Schemata.Proofs.Schema.Reference
import Schemata.Proofs.Emission.Vocabulary
import Schemata.Proofs.Text.Lexeme
import Schemata.Proofs.TypeScript.TypeGrammar
import Schemata.Proofs.TypeScript.TypeReading
import Schemata.Proofs.PureScript.TypeGrammar
import Schemata.Proofs.PureScript.TypeReading
import Schemata.Proofs.TypeScript.Code
import Schemata.Proofs.TypeScript.TopLevel
import Schemata.Proofs.TypeScript.LiteralUnion
import Schemata.Proofs.TypeScript.Member
import Schemata.Proofs.TypeScript.Null
import Schemata.Proofs.Number.Binary64
import Schemata.Proofs.Number.Decimal
import Schemata.Proofs.Naming.ValueName
import Schemata.Proofs.Schema.Enumeration
import Schemata.Proofs.TypeScript.EnumMember
import Schemata.Proofs.PureScript.Piece
import Schemata.Proofs.TypeScript.Piece
