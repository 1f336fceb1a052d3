import Soul.Text.Ansi
import Soul.Text.Blank
import Soul.Text.Digit
import Soul.Text.Printable
import Soul.Text.Quoted
import Soul.Text.Similarity
import Soul.Number.Double
import Soul.Number.Shortest
import Soul.Number.Reading
import Soul.Location
import Soul.Fault
import Soul.Diagnostic
import Soul.Problem
import Soul.Diagnostics
import Soul.Journal
import Soul.Register
import Soul.Operator
import Soul.Token.Kind
import Soul.Token.Payload
import Soul.Token.Record
import Soul.Token
import Soul.Token.Scanner
import Soul.Token.Lexer
import Soul.Token.Stream
import Soul.Feed
import Soul.Expr
import Soul.Program
import Soul.Outline
import Soul.Cursor
import Soul.Expr.Read
import Soul.Item.Read
import Soul.Program.Read
import Soul.Tree
import Soul.Tree.Text
import Soul.Tree.Outline
import Soul.Tree.Program
import Soul.Tree.Walk
import Soul.File.Utf8
import Soul.File.Lines
import Soul.File.Path
import Soul.File.Store
import Soul.FrontEnd
import Soul.Command.Arguments
import Soul.Command.Output
import Soul.Command
import Soul.Main
import Soul.Proofs.Lexeme
import Soul.Proofs.Segment
import Soul.Proofs.LineFeed
import Soul.Proofs.Reading
import Soul.Proofs.Grammar
import Soul.Proofs.Sound
import Soul.Proofs.Complete
import Soul.Proofs.Run
import Soul.Proofs.Accept
import Soul.Proofs.Alongside
import Soul.Proofs.Recovery
import Soul.Proofs.Fetch
import Soul.Proofs.Report
import Soul.Proofs.Mirror
import Soul.Proofs.CommentFree
import Soul.Proofs.Content
import Soul.Proofs.Budget
import Soul.Proofs.Canonical
import Soul.Proofs.RoundTrip
import Soul.Proofs.Supply
import Soul.Proofs.Line
import Soul.Proofs.Yield
import Soul.Proofs.WellFormed
import Soul.Proofs.Course
import Soul.Proofs.Identity
import Soul.Proofs.Result
import Soul.Proofs.Path
import Soul.Proofs.Depth
import Soul.Proofs.Onward
import Soul.Proofs.Grouping
import Soul.Proofs.Foresight
import Soul.Proofs.Viable
import Soul.Proofs.Faithful
import Soul.Proofs.ReadBack
import Soul.Proofs.Nesting
import Soul.Proofs.Stream
import Soul.Proofs.LineEnd
import Soul.Proofs.Feed
import Soul.Proofs.Lexer
import Soul.Proofs.Loop
import Soul.Proofs.Congruence
import Soul.Proofs.Stack
import Soul.Proofs.ExitCode
