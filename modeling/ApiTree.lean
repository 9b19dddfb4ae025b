import ApiTree.Binary64.Basic
import ApiTree.Binary64.Shortest
import ApiTree.Calendar
import ApiTree.Catalog.Session
import ApiTree.Catalog.Shared
import ApiTree.Catalog.Static
import ApiTree.Catalog.Table
import ApiTree.Command.Argument
import ApiTree.Command.Line
import ApiTree.Command.Run
import ApiTree.Console.Basic
import ApiTree.Console.Table
import ApiTree.Disk.Basic
import ApiTree.Disk.FilePath
import ApiTree.Document.Build
import ApiTree.Document.Compile
import ApiTree.Document.Format
import ApiTree.Document.Validation
import ApiTree.Entries
import ApiTree.Failure
import ApiTree.Fault
import ApiTree.Fragment.Load
import ApiTree.Fragment.Place
import ApiTree.Fragment.Transform
import ApiTree.Json.Reader
import ApiTree.Json.Writer
import ApiTree.Main
import ApiTree.Operation.Key
import ApiTree.Operation.View.Basic
import ApiTree.Operation.View.Body
import ApiTree.Operation.View.Lookup
import ApiTree.Operation.View.Parameter
import ApiTree.Operation.View.Rendered
import ApiTree.Operation.View.Response
import ApiTree.Reference.Expand
import ApiTree.Reference.Place
import ApiTree.Schema.Basic
import ApiTree.Schema.Check
import ApiTree.Schema.Literal
import ApiTree.Schema.OpenApi
import ApiTree.Schema.Pattern
import ApiTree.Schema.Pointer
import ApiTree.Schema.Violation
import ApiTree.Settings.Basic
import ApiTree.Settings.Resolve
import ApiTree.Text.Blank
import ApiTree.Text.Case
import ApiTree.Text.Lines
import ApiTree.Text.Literal
import ApiTree.Text.Numeral
import ApiTree.Text.Table
import ApiTree.Text.Width
import ApiTree.Text.Wrap
import ApiTree.Value.Basic
import ApiTree.Value.Convert
import ApiTree.Value.Merge
import ApiTree.Value.Text
import ApiTree.Yaml.Cursor
import ApiTree.Yaml.Error
import ApiTree.Yaml.Layout
import ApiTree.Yaml.Meaning.Node
import ApiTree.Yaml.Meaning.Scalar
import ApiTree.Yaml.Node
import ApiTree.Yaml.Style
import ApiTree.Yaml.Tag
import ApiTree.Yaml.Token
import ApiTree.Yaml.Token.Lexer
import ApiTree.Yaml.Token.Property
import ApiTree.Yaml.Token.Scalar
import ApiTree.Yaml.Writer
import ApiTree.Proofs.Text.Cut
import ApiTree.Proofs.Reference.Idempotence
import ApiTree.Proofs.Entries
import ApiTree.Proofs.Except
import ApiTree.Proofs.Catalog.Step
import ApiTree.Proofs.Catalog.Versions
import ApiTree.Proofs.Catalog.History
import ApiTree.Proofs.Catalog.Snapshot
import ApiTree.Proofs.Text.Case
import ApiTree.Proofs.Text.Trim
import ApiTree.Proofs.Operation.Slug
import ApiTree.Proofs.Value.Merge
import ApiTree.Proofs.Fragment.Place
import ApiTree.Proofs.Catalog.Table
import ApiTree.Proofs.Operation.View
import ApiTree.Proofs.Document.Static
import ApiTree.Proofs.Document.Build
import ApiTree.Proofs.Yaml.Cursor
import ApiTree.Proofs.Yaml.Token
import ApiTree.Proofs.Yaml.Node
import ApiTree.Proofs.Yaml.Trouble
import ApiTree.Proofs.Fragment.Read
import ApiTree.Proofs.Reference.Expansion
import ApiTree.Proofs.Sorted
import ApiTree.Proofs.Value.Agree
import ApiTree.Proofs.Reference.Place
import ApiTree.Proofs.Reference.Merge
import ApiTree.Proofs.Fragment.Transform
import ApiTree.Proofs.Document.Compile
import ApiTree.Proofs.Disk.FilePath
import ApiTree.Proofs.Disk.Tree
import ApiTree.Proofs.Disk.Write
import ApiTree.Proofs.Fragment.Discover
import ApiTree.Proofs.Catalog.Reading
import ApiTree.Proofs.Catalog.StaticFiles
import ApiTree.Proofs.Catalog.Lookup
import ApiTree.Proofs.Catalog.Publish
import ApiTree.Proofs.Catalog.SameAnswers
import ApiTree.Proofs.Catalog.Origin
import ApiTree.Proofs.Operation.Rendered
import ApiTree.Proofs.Document.Isolation
import ApiTree.Proofs.Document.Save
import ApiTree.Proofs.Document.Write
import ApiTree.Proofs.Command.Run
import ApiTree.Proofs.Command.Strict
import ApiTree.Proofs.Command.Display
import ApiTree.Proofs.Catalog.Resolution
import ApiTree.Proofs.Catalog.Shadowing
import ApiTree.Proofs.Value.Compatible
import ApiTree.Proofs.Document.Order
import ApiTree.Proofs.Disk.Relocation
import ApiTree.Proofs.Catalog.TwoRuns
import ApiTree.Proofs.Catalog.Relocation
import ApiTree.Proofs.Operation.Notation
import ApiTree.Proofs.Operation.Context
import ApiTree.Proofs.Fragment.Spoiled
import ApiTree.Proofs.Fragment.Hereditary
import ApiTree.Proofs.Document.Loaded
import ApiTree.Proofs.Document.Notes
import ApiTree.Proofs.Operation.Description
import ApiTree.Proofs.Operation.Examples
import ApiTree.Proofs.Operation.Identifier
import ApiTree.Proofs.Operation.Body
import ApiTree.Proofs.Operation.Parameter
import ApiTree.Proofs.Schema.Pointer
import ApiTree.Proofs.Operation.Linked
import ApiTree.Proofs.Operation.Tests
import ApiTree.Proofs.Operation.ResponseList
import ApiTree.Proofs.Catalog.Precedence
import ApiTree.Proofs.Value.Follow
import ApiTree.Proofs.Value.Regroup
import ApiTree.Proofs.Fragment.Nested
import ApiTree.Proofs.Catalog.Range
import ApiTree.Proofs.Reference.Rewording
import ApiTree.Proofs.Fragment.TextKeys
import ApiTree.Proofs.Json.Digits
import ApiTree.Proofs.Settings.Project
import ApiTree.Proofs.Settings.Layers
import ApiTree.Proofs.Operation.InlineParameter
import ApiTree.Proofs.Text.Numeral
import ApiTree.Proofs.Json.RoundTrip
import ApiTree.Proofs.Document.Format
import ApiTree.Proofs.Document.Violations
import ApiTree.Proofs.Reference.Pattern
