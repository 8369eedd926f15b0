import Pagesmith.Build
import Pagesmith.Command.Flag
import Pagesmith.Command.Line
import Pagesmith.Command.Run
import Pagesmith.Compiler
import Pagesmith.Css.Token
import Pagesmith.Decimal.Layout
import Pagesmith.Decimal.Power
import Pagesmith.Decimal.Reader
import Pagesmith.Decimal.Shortest
import Pagesmith.Decimal.Word
import Pagesmith.Expr.Builtin
import Pagesmith.Expr.Eval
import Pagesmith.Expr.Operator
import Pagesmith.Expr.Parser
import Pagesmith.Expr.Place
import Pagesmith.Expr.Printer
import Pagesmith.Expr.Program
import Pagesmith.Expr.Simplify
import Pagesmith.Expr.Syntax
import Pagesmith.Expr.Token
import Pagesmith.Expr.Type
import Pagesmith.Expr.Typing
import Pagesmith.File.Glob
import Pagesmith.File.Ignore
import Pagesmith.File.Path
import Pagesmith.File.Scan
import Pagesmith.File.Tree
import Pagesmith.Html.Entity.Table
import Pagesmith.Html.Policy
import Pagesmith.Html.Reference
import Pagesmith.Html.Sanitize
import Pagesmith.Html.Token
import Pagesmith.Http.Client
import Pagesmith.Http.MediaType
import Pagesmith.Http.Url
import Pagesmith.Json.Outline
import Pagesmith.Json.Reader
import Pagesmith.Json.Writer
import Pagesmith.Lint.Check
import Pagesmith.Lint.Column
import Pagesmith.Lint.Suggestion
import Pagesmith.Lint.Verdict
import Pagesmith.Log
import Pagesmith.Logic.Evaluate
import Pagesmith.Logic.Run
import Pagesmith.Logic.Statement
import Pagesmith.Logic.Surface
import Pagesmith.Logic.Token
import Pagesmith.Main
import Pagesmith.Page.Config
import Pagesmith.Page.Document
import Pagesmith.Page.Reference
import Pagesmith.Page.Render
import Pagesmith.Page.Section
import Pagesmith.Page.Shell
import Pagesmith.Page.Template
import Pagesmith.Proofs.Command.Agreement
import Pagesmith.Proofs.Command.Flag
import Pagesmith.Proofs.Css.Boundary
import Pagesmith.Proofs.Css.Measure
import Pagesmith.Proofs.Css.Plain
import Pagesmith.Proofs.Css.Quoted
import Pagesmith.Proofs.Css.SelfDelimiting
import Pagesmith.Proofs.Emission.Basic
import Pagesmith.Proofs.Emission.Inline
import Pagesmith.Proofs.Emission.Invariant
import Pagesmith.Proofs.Emission.Site
import Pagesmith.Proofs.Emission.Source
import Pagesmith.Proofs.Expr.Names
import Pagesmith.Proofs.Line.Break
import Pagesmith.Proofs.Line.Comment
import Pagesmith.Proofs.Line.Insert
import Pagesmith.Proofs.Lint.Counts
import Pagesmith.Proofs.Lint.Limits
import Pagesmith.Proofs.Logic.Execution
import Pagesmith.Proofs.Logic.Layout
import Pagesmith.Proofs.Logic.Reading
import Pagesmith.Proofs.Outcome
import Pagesmith.Proofs.Page.Decomposition
import Pagesmith.Proofs.Page.Dependence
import Pagesmith.Proofs.Page.Escaping
import Pagesmith.Proofs.Page.Lexer
import Pagesmith.Proofs.Page.Region
import Pagesmith.Proofs.Page.Section
import Pagesmith.Proofs.Page.Truncation
import Pagesmith.Proofs.Preset.Cascade
import Pagesmith.Proofs.Preset.Catalog
import Pagesmith.Proofs.Preset.Class
import Pagesmith.Proofs.Preset.Expansion
import Pagesmith.Proofs.Rule.Extraction
import Pagesmith.Proofs.Rule.Flat
import Pagesmith.Proofs.Rule.Head
import Pagesmith.Proofs.Rule.Structure
import Pagesmith.Proofs.Selector.List
import Pagesmith.Proofs.Selector.Nesting
import Pagesmith.Proofs.Selector.Plain
import Pagesmith.Proofs.Settings.Layer
import Pagesmith.Proofs.Sheet.Content
import Pagesmith.Proofs.Sheet.Keyframes
import Pagesmith.Proofs.Sheet.Mention
import Pagesmith.Proofs.Sheet.Plain
import Pagesmith.Proofs.Sheet.Reading
import Pagesmith.Proofs.Sheet.Shape
import Pagesmith.Proofs.Sheet.Stats
import Pagesmith.Proofs.Text.Basic
import Pagesmith.Proofs.Tree.Body
import Pagesmith.Proofs.Tree.Inert
import Pagesmith.Proofs.Tree.Keep
import Pagesmith.Proofs.Tree.Line
import Pagesmith.Proofs.Tree.Lookup
import Pagesmith.Proofs.Tree.Merge
import Pagesmith.Proofs.Tree.Print
import Pagesmith.Proofs.Tree.Sequence
import Pagesmith.Proofs.Value.Field
import Pagesmith.Regex.Basic
import Pagesmith.Regex.Parser
import Pagesmith.Report.Color
import Pagesmith.Report.Format
import Pagesmith.Report.Issue
import Pagesmith.Report.Markdown
import Pagesmith.Report.Plain
import Pagesmith.Report.Structured
import Pagesmith.Settings.Basic
import Pagesmith.Settings.Site
import Pagesmith.Settings.Source
import Pagesmith.Settings.Variable
import Pagesmith.Style.Block
import Pagesmith.Style.Body
import Pagesmith.Style.Catalog
import Pagesmith.Style.Catalog.Builtin
import Pagesmith.Style.Declaration
import Pagesmith.Style.Line
import Pagesmith.Style.Property
import Pagesmith.Style.Rule
import Pagesmith.Style.Selector
import Pagesmith.Style.Sheet
import Pagesmith.Style.Stats
import Pagesmith.Style.Tree
import Pagesmith.Text.Base64
import Pagesmith.Text.Basic
import Pagesmith.Text.Blank
import Pagesmith.Text.Position
import Pagesmith.Text.Quoted
import Pagesmith.Text.Record
import Pagesmith.Text.Scan
import Pagesmith.Text.Unicode.Case
import Pagesmith.Text.Unicode.Number
import Pagesmith.Text.Unicode.Printable
import Pagesmith.Text.Unicode.Word
import Pagesmith.Text.Utf8
import Pagesmith.Time.Duration
import Pagesmith.Time.Moment
import Pagesmith.Value.Basic
import Pagesmith.Value.Markup
import Pagesmith.Yaml.Cursor
import Pagesmith.Yaml.Error
import Pagesmith.Yaml.Fault
import Pagesmith.Yaml.Load
import Pagesmith.Yaml.Node
import Pagesmith.Yaml.Resolve
import Pagesmith.Yaml.Scalar
import Pagesmith.Yaml.Tag
import Pagesmith.Yaml.Token
import Pagesmith.Proofs.Html.Lexeme
import Pagesmith.Proofs.Marker.Pass
import Pagesmith.Proofs.Html.Value
import Pagesmith.Proofs.Lint.Dynamic
import Pagesmith.Proofs.Lint.Place
import Pagesmith.Proofs.Marker.Report
import Pagesmith.Proofs.Lint.Column
import Pagesmith.Proofs.Report.Limit
import Pagesmith.Proofs.Page.Provenance
import Pagesmith.Proofs.Logic.Grouping
import Pagesmith.Proofs.Lint.Distance
import Pagesmith.Proofs.Lint.Suggestion
import Pagesmith.Proofs.Lint.Word
import Pagesmith.Proofs.Text.Translation
import Pagesmith.Proofs.Page.Reading
import Pagesmith.Proofs.Tree.Index
