import NumericPython.Ast.Expr
import NumericPython.Ast.Feed
import NumericPython.Ast.Intrinsic
import NumericPython.Ast.Kind
import NumericPython.Ast.Malformed
import NumericPython.Ast.Name
import NumericPython.Ast.Node
import NumericPython.Ast.Operator
import NumericPython.Ast.Resolve
import NumericPython.Ast.Same
import NumericPython.Ast.Stmt
import NumericPython.Ast.Table
import NumericPython.Binary64.Basic
import NumericPython.Binary64.Read
import NumericPython.Binary64.Shortest
import NumericPython.Binary64.Text
import NumericPython.Command.Arguments
import NumericPython.Command.Help
import NumericPython.Command.Host
import NumericPython.Command.Run
import NumericPython.Directive
import NumericPython.Dump.Json
import NumericPython.Dump.Node
import NumericPython.Files.Fault
import NumericPython.Files.Path
import NumericPython.Files.Store
import NumericPython.FrontEnd
import NumericPython.Layout.BlankRows
import NumericPython.Layout.Comments
import NumericPython.Layout.Convert
import NumericPython.Literal.Number
import NumericPython.Literal.Quoted
import NumericPython.Lowering.Comment
import NumericPython.Lowering.Error
import NumericPython.Lowering.Expr
import NumericPython.Lowering.Import
import NumericPython.Lowering.Session
import NumericPython.Lowering.Stmt
import NumericPython.Main
import NumericPython.Pipeline
import NumericPython.Printing.Error
import NumericPython.Printing.Expr
import NumericPython.Printing.Foreign
import NumericPython.Printing.Line
import NumericPython.Printing.Node
import NumericPython.Printing.Precedence
import NumericPython.Printing.Stmt
import NumericPython.Problem.Basic
import NumericPython.Problem.Find
import NumericPython.Settings.Basic
import NumericPython.Settings.Read
import NumericPython.Span
import NumericPython.Text.Blank
import NumericPython.Text.Bytes
import NumericPython.Text.Row
import NumericPython.Toml.Document
import NumericPython.Toml.Scalar
import NumericPython.Tree.Basic
import NumericPython.Tree.Kind
import NumericPython.Tree.Listing
import NumericPython.Tree.Raw
import NumericPython.Proofs.Lowering.CanonicalExpr
import NumericPython.Proofs.Ast.Table
import NumericPython.Proofs.Lowering.CanonicalStmt
import NumericPython.Proofs.Lowering.Printable
import NumericPython.Proofs.Layout.Hoisting
import NumericPython.Proofs.Text.Rows
import NumericPython.Proofs.Layout.BlankRows
import NumericPython.Proofs.Layout.SourceOrder
import NumericPython.Proofs.Binary64.Nearest
import NumericPython.Proofs.Binary64.Shortest
import NumericPython.Proofs.Binary64.Text
import NumericPython.Proofs.Grammar.Expressions
import NumericPython.Proofs.Grammar.Parser
import NumericPython.Proofs.Grammar.Reading
import NumericPython.Proofs.Grammar.Series
import NumericPython.Proofs.RoundTrip.Expressions
import NumericPython.Proofs.Grammar.Statements
import NumericPython.Proofs.Layout.Contents
import NumericPython.Proofs.Layout.Faithful
import NumericPython.Proofs.Lowering.ImportTable
import NumericPython.Proofs.Printing.FilledLines
import NumericPython.Proofs.Printing.Levels
import NumericPython.Proofs.Printing.Stateful
import NumericPython.Proofs.Printing.Indentation
import NumericPython.Proofs.Lowering.Understood
import NumericPython.Proofs.Lowering.Overlooked
import NumericPython.Proofs.Grammar.Unambiguous
import NumericPython.Proofs.Grammar.Places
import NumericPython.Proofs.Grammar.SimpleReading
import NumericPython.Proofs.Grammar.CommentReading
import NumericPython.Proofs.Printing.Sheet
import NumericPython.Proofs.Layout.Bodies
import NumericPython.Proofs.Layout.Interleaving
import NumericPython.Proofs.Grammar.ClauseReading
import NumericPython.Proofs.Grammar.Wording
import NumericPython.Proofs.Grammar.PrintedForms
import NumericPython.Proofs.Grammar.PrintedBodies
import NumericPython.Proofs.Grammar.PrintedClauses
import NumericPython.Proofs.RoundTrip.Lines
import NumericPython.Proofs.RoundTrip.Headers
import NumericPython.Proofs.RoundTrip.Bodies
import NumericPython.Proofs.RoundTrip.Definitions
import NumericPython.Proofs.RoundTrip.Modules
import NumericPython.Proofs.Ast.Sites
import NumericPython.Proofs.Printing.Faults
import NumericPython.Proofs.Printing.StaticHeader
import NumericPython.Proofs.Dump.Numbers
import NumericPython.Proofs.Dump.Texts
import NumericPython.Proofs.Dump.Nodes
import NumericPython.Proofs.Lowering.Canonical
import NumericPython.Proofs.Lowering.History
import NumericPython.Proofs.Text.OneLine
import NumericPython.Proofs.Problem.Reports
import NumericPython.Proofs.Problem.ShortForm
import NumericPython.Proofs.Command.Check
import NumericPython.Proofs.Command.Outputs
import NumericPython.Proofs.Ast.Normal
import NumericPython.Proofs.Ast.Definitions
import NumericPython.Proofs.Ast.Equality
import NumericPython.Proofs.Printing.Reordered
import NumericPython.Proofs.Printing.EqualNodes
import NumericPython.Proofs.Lowering.Decorators
import NumericPython.Proofs.RoundTrip.Strings
import NumericPython.Proofs.Printing.WrapperParameters
import NumericPython.Proofs.Printing.BodyBlocks
import NumericPython.Proofs.Text.Slices
import NumericPython.Proofs.Directive.Parentheses
import NumericPython.Proofs.Directive.Words
import NumericPython.Proofs.Lowering.CommentLines
import NumericPython.Proofs.Problem.Brackets
import NumericPython.Proofs.Layout.Spans
import NumericPython.Proofs.Lowering.Refusals
import NumericPython.Proofs.Lowering.StatementRefusals
import NumericPython.Proofs.Lowering.Locations
import NumericPython.Proofs.Lowering.ComparisonChains
import NumericPython.Proofs.Lowering.PragmaPlaces
import NumericPython.Proofs.Literal.WholeNumbers
import NumericPython.Proofs.Lowering.WholeNumbers
import NumericPython.Proofs.Layout.Gaps
