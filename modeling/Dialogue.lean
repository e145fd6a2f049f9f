import Dialogue.Parser.Checkpoint
import Dialogue.Parser.Term
import Dialogue.Settings
import Dialogue.Story.InPlace
import Dialogue.Proofs.Expr.Folding
import Dialogue.Proofs.Expr.Mention
import Dialogue.Proofs.Compile.Log
import Dialogue.Proofs.Parser.Triple
import Dialogue.Proofs.Grammar.Expression
import Dialogue.Proofs.Compile.Agreement
import Dialogue.Proofs.Compile.Categories
import Dialogue.Proofs.Expr.Soundness
import Dialogue.Proofs.Story.Soundness
import Dialogue.Proofs.Compile.Resolution
import Dialogue.Proofs.Story.Course
import Dialogue.Proofs.Story.Invariant
import Dialogue.Proofs.Story.Nesting
import Dialogue.Proofs.Number.Elapsed
import Dialogue.Proofs.Story.Transparency
import Dialogue.Proofs.Parser.Plan
import Dialogue.Proofs.Parser.Run
import Dialogue.Proofs.Parser.Fatal
import Dialogue.Proofs.Parser.Writer
import Dialogue.Proofs.Parser.Path
import Dialogue.Proofs.Cursor.Place
import Dialogue.Proofs.Parser.Walk
import Dialogue.Proofs.Parser.Pace
import Dialogue.Proofs.Grammar.Walk
import Dialogue.Proofs.Grammar.Plan
import Dialogue.Proofs.Parser.Reach
import Dialogue.Proofs.Parser.Discipline
import Dialogue.Proofs.Grammar.Discipline
import Dialogue.Proofs.Parser.Journal
import Dialogue.Proofs.Compile.Failure
import Dialogue.Proofs.Graph.Flattening
import Dialogue.Proofs.Cursor.Line
import Dialogue.Proofs.Parser.Scan
import Dialogue.Proofs.Grammar.Region
import Dialogue.Proofs.Grammar.Margin
import Dialogue.Proofs.Parser.Agree
import Dialogue.Proofs.Parser.Line
import Dialogue.Proofs.Parser.Blank
import Dialogue.Proofs.Parser.Follow
import Dialogue.Proofs.Grammar.Agree
import Dialogue.Proofs.Grammar.Lines
import Dialogue.Proofs.Grammar.Shift
import Dialogue.Proofs.Grammar.Follow
import Dialogue.Proofs.Cursor.Layout
import Dialogue.Proofs.Grammar.Layout
import Dialogue.Proofs.Grammar.Source
import Dialogue.Proofs.Compile.Outline
import Dialogue.Proofs.Compile.Layout
import Dialogue.Proofs.Story.InPlace
import Dialogue.Proofs.Story.Limit
import Dialogue.Proofs.Expr.Normal
import Dialogue.Proofs.Compile.Normal
import Dialogue.Proofs.Parser.Misses
import Dialogue.Proofs.Parser.Copy
import Dialogue.Proofs.Grammar.Written
import Dialogue.Proofs.Number.Numeral
import Dialogue.Proofs.Grammar.Token
import Dialogue.Proofs.Grammar.Arithmetic
import Dialogue.Proofs.Cursor.Extend
import Dialogue.Proofs.Grammar.Extend
import Dialogue.Proofs.Grammar.Heading
import Dialogue.Proofs.Grammar.Amount
import Dialogue.Proofs.Grammar.Opening
import Dialogue.Proofs.Grammar.Sequel
import Dialogue.Proofs.Grammar.Append
import Dialogue.Proofs.Compile.Compose
import Dialogue.Proofs.Expr.Concatenation
import Dialogue.Proofs.Grammar.Attempt
import Dialogue.Proofs.Grammar.Comparison
import Dialogue.Proofs.Grammar.Logic
import Dialogue.Proofs.Expr.Linked
import Dialogue.Proofs.Compile.BlankLine
import Dialogue.Proofs.Grammar.Segment
import Dialogue.Proofs.Grammar.Broken
import Dialogue.Proofs.Expr.Form
import Dialogue.Proofs.Number.Shortest
import Dialogue.Proofs.Number.Text
import Dialogue.Proofs.Expr.AsWritten
import Dialogue.Proofs.Grammar.Trace
import Dialogue.Proofs.Grammar.Offer
import Dialogue.Proofs.Parser.Items
import Dialogue.Proofs.Number.Difference
import Dialogue.Proofs.Story.Pause
import Dialogue.Proofs.Cursor.SourceMap
import Dialogue.Proofs.Cursor.Location
import Dialogue.Proofs.Grammar.Quote
import Dialogue.Proofs.Parser.Search
import Dialogue.Proofs.Parser.Block
import Dialogue.Proofs.Parser.Growth
import Dialogue.Proofs.View.History
import Dialogue.Proofs.Parser.Transaction
import Dialogue.Proofs.Graph.Merge
import Dialogue.Proofs.Number.LongestMatch
