import Folio.Build
import Folio.Cause
import Folio.Check
import Folio.CommandLine.Execute
import Folio.CommandLine.Invocation
import Folio.CommandLine.Option
import Folio.Data.Json
import Folio.Data.Value
import Folio.Data.Yaml.Load
import Folio.Data.Yaml.Node
import Folio.Data.Yaml.Token
import Folio.Decimal.Number
import Folio.Decimal.Shortest
import Folio.FileTree
import Folio.Layout
import Folio.Main
import Folio.Manifest
import Folio.Markup.Formatter
import Folio.Markup.Prettify
import Folio.Markup.Reader
import Folio.Markup.StartTag
import Folio.Markup.Token
import Folio.Metadata
import Folio.Output.Document
import Folio.Output.Page
import Folio.Output.Preview
import Folio.Output.Stage
import Folio.Output.Write
import Folio.Path
import Folio.Proofs.Data.JsonMembers
import Folio.Proofs.Data.YamlTokens
import Folio.Proofs.Data.YamlValues
import Folio.Proofs.FileTree.Copying
import Folio.Proofs.FileTree.Following
import Folio.Proofs.FileTree.Listing
import Folio.Proofs.FileTree.Making
import Folio.Proofs.FileTree.Reading
import Folio.Proofs.FileTree.Twins
import Folio.Proofs.FileTree.WellFormed
import Folio.Proofs.FileTree.Writing
import Folio.Proofs.Markup.Content
import Folio.Proofs.Markup.Document
import Folio.Proofs.Markup.Echo
import Folio.Proofs.Markup.Flow
import Folio.Proofs.Markup.Forest
import Folio.Proofs.Markup.Marks
import Folio.Proofs.Markup.Openings
import Folio.Proofs.Markup.Parts
import Folio.Proofs.Markup.Pieces
import Folio.Proofs.Markup.PlainText
import Folio.Proofs.Markup.Printed
import Folio.Proofs.Markup.RawText
import Folio.Proofs.Markup.Regions
import Folio.Proofs.Markup.Reindent
import Folio.Proofs.Markup.Remarks
import Folio.Proofs.Markup.Reprint
import Folio.Proofs.Markup.ScriptBodies
import Folio.Proofs.Markup.Shape
import Folio.Proofs.Markup.Spread
import Folio.Proofs.Markup.TagText
import Folio.Proofs.Markup.Tags
import Folio.Proofs.Markup.Typeset
import Folio.Proofs.Markup.Wrapping
import Folio.Proofs.Markup.Writing
import Folio.Proofs.Output.Accounts
import Folio.Proofs.Output.Building
import Folio.Proofs.Output.Canvas
import Folio.Proofs.Output.Clashes
import Folio.Proofs.Output.Clearing
import Folio.Proofs.Output.Comparison
import Folio.Proofs.Output.Contained
import Folio.Proofs.Output.Disk
import Folio.Proofs.Output.Edits
import Folio.Proofs.Output.Endpoints
import Folio.Proofs.Output.Faults
import Folio.Proofs.Output.Frame
import Folio.Proofs.Output.Inventory
import Folio.Proofs.Output.Jobs
import Folio.Proofs.Output.Keys
import Folio.Proofs.Output.Listings
import Folio.Proofs.Output.Manifest
import Folio.Proofs.Output.Neighbours
import Folio.Proofs.Output.Outline
import Folio.Proofs.Output.Pages
import Folio.Proofs.Output.Precedence
import Folio.Proofs.Output.Previews
import Folio.Proofs.Output.Printing
import Folio.Proofs.Output.Rebuilding
import Folio.Proofs.Output.Relationships
import Folio.Proofs.Output.Rendering
import Folio.Proofs.Output.Renderings
import Folio.Proofs.Output.SideBySide
import Folio.Proofs.Output.Statics
import Folio.Proofs.Output.Steps
import Folio.Proofs.Output.Stylesheet
import Folio.Proofs.Output.Tally
import Folio.Proofs.Output.Targets
import Folio.Proofs.Output.Templates
import Folio.Proofs.Output.Whole
import Folio.Proofs.Output.Writes
import Folio.Proofs.Path.Canonical
import Folio.Proofs.Path.Links
import Folio.Proofs.Path.Names
import Folio.Proofs.Scan.Agreement
import Folio.Proofs.Scan.Checking
import Folio.Proofs.Scan.Closure
import Folio.Proofs.Scan.Inside
import Folio.Proofs.Scan.Lookup
import Folio.Proofs.Scan.Provenance
import Folio.Proofs.Scan.Reports
import Folio.Proofs.Scan.Step
import Folio.Proofs.Session.Ends
import Folio.Proofs.Session.Faults
import Folio.Proofs.Session.Frontmatter
import Folio.Proofs.Session.Parallel
import Folio.Proofs.Session.Reads
import Folio.Proofs.Session.StateNames
import Folio.Proofs.Session.States
import Folio.Proofs.Source.Annotations
import Folio.Proofs.Source.Blanking
import Folio.Proofs.Source.Block
import Folio.Proofs.Source.BlockLines
import Folio.Proofs.Source.Delimiters
import Folio.Proofs.Source.FlatDefinitions
import Folio.Proofs.Source.Merging
import Folio.Proofs.Source.Pairing
import Folio.Proofs.Source.Statements
import Folio.Proofs.Source.TagSpellings
import Folio.Proofs.Source.Tagged
import Folio.Proofs.Source.Written
import Folio.Proofs.Text.AnyCase
import Folio.Proofs.Text.Cutting
import Folio.Proofs.Text.Distinct
import Folio.Proofs.Text.Finding
import Folio.Proofs.Text.Ink
import Folio.Proofs.Text.Leftmost
import Folio.Proofs.Text.Lines
import Folio.Proofs.Workspace.ConfigErrors
import Folio.Proofs.Workspace.Configured
import Folio.Proofs.Workspace.Declared
import Folio.Proofs.Workspace.Deepest
import Folio.Proofs.Workspace.Independence
import Folio.Proofs.Workspace.Mirror
import Folio.Proofs.Workspace.Mirrored
import Folio.Proofs.Workspace.Sources
import Folio.Proofs.Workspace.Undisturbed
import Folio.Resolve
import Folio.Scan
import Folio.Session
import Folio.Source.Frontmatter
import Folio.Source.Reference
import Folio.Source.Relationship
import Folio.Source.Tags
import Folio.Space
import Folio.States
import Folio.Template.Bindings
import Folio.Template.Compare
import Folio.Template.Compute
import Folio.Template.Engine
import Folio.Template.Escape
import Folio.Template.Evaluate
import Folio.Template.Expr
import Folio.Template.ExprReader
import Folio.Template.Fault
import Folio.Template.Field
import Folio.Template.Filter
import Folio.Template.Filter.Json
import Folio.Template.Filter.Number
import Folio.Template.Filter.Sequence
import Folio.Template.Filter.Text
import Folio.Template.Format.Brace
import Folio.Template.Format.Layout
import Folio.Template.Format.Percent
import Folio.Template.Function
import Folio.Template.Given
import Folio.Template.Lexeme
import Folio.Template.Machine
import Folio.Template.Method
import Folio.Template.Names
import Folio.Template.Number
import Folio.Template.Perform
import Folio.Template.Reader
import Folio.Template.Sequence
import Folio.Template.Show
import Folio.Template.StatementReader
import Folio.Template.Test
import Folio.Template.Time
import Folio.Template.Value
import Folio.Template.WellFormed
import Folio.TemplateSource
import Folio.Text.Blank
import Folio.Text.CharSet
import Folio.Text.LetterCase
import Folio.Text.Numeral
import Folio.Text.Occurrence
import Folio.Text.Printable
import Folio.Text.Search
import Folio.Text.WordChar
