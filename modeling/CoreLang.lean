import CoreLang.Analysis
import CoreLang.Command.Arguments
import CoreLang.Command.Files
import CoreLang.Command.Host
import CoreLang.Command.Path
import CoreLang.Command.Request
import CoreLang.Command.Run
import CoreLang.Grammar.Cause
import CoreLang.Grammar.Declaration
import CoreLang.Grammar.Derivation
import CoreLang.Grammar.Expression
import CoreLang.Grammar.Form
import CoreLang.Grammar.Look
import CoreLang.Grammar.Statement
import CoreLang.Limits
import CoreLang.Main
import CoreLang.Parse
import CoreLang.Parse.Run
import CoreLang.Parse.State
import CoreLang.Position
import CoreLang.Proofs.Parse.Passes
import CoreLang.Proofs.Parse.Runs
import CoreLang.Report.Diagnostic
import CoreLang.Report.Outline
import CoreLang.Report.SymbolTable
import CoreLang.Source.Cursor
import CoreLang.Source.Fault
import CoreLang.Source.Gap
import CoreLang.Source.Lexed
import CoreLang.Source.Literal
import CoreLang.Source.Numeral
import CoreLang.Source.Pull
import CoreLang.Source.Scan
import CoreLang.Source.Session
import CoreLang.Source.Supply
import CoreLang.Source.Tiling
import CoreLang.Source.Word
import CoreLang.Text.Alphabetic
import CoreLang.Text.Blank
import CoreLang.Text.Class
import CoreLang.Text.Extending
import CoreLang.Text.Ignorable
import CoreLang.Text.Numeric
import CoreLang.Text.Quoted
import CoreLang.Text.Ranges
import CoreLang.Text.Unprintable
import CoreLang.Text.Visible
import CoreLang.Token
import CoreLang.Token.Keyword
import CoreLang.Token.Kind
import CoreLang.Token.Symbol
import CoreLang.Tree
import CoreLang.Tree.Production
import CoreLang.Proofs.Parse.Adequacy
import CoreLang.Proofs.Grammar.Shape
import CoreLang.Proofs.Parse.Soundness
import CoreLang.Proofs.Parse.Loss
import CoreLang.Proofs.Parse.Predictive
import CoreLang.Proofs.Grammar.Lookahead
import CoreLang.Proofs.Parse.Completeness
import CoreLang.Proofs.Grammar.Viable
import CoreLang.Proofs.Parse.Faults
import CoreLang.Proofs.Parse.Foresight
import CoreLang.Proofs.Parse.FirstError
import CoreLang.Proofs.Source.Stretch
import CoreLang.Proofs.Source.Gap
import CoreLang.Proofs.Source.Numeral
import CoreLang.Proofs.Source.Literal
import CoreLang.Proofs.Source.Lookahead
import CoreLang.Proofs.Source.Spelling
import CoreLang.Proofs.Source.Tiles
import CoreLang.Proofs.Source.Lines
import CoreLang.Proofs.Source.Places
import CoreLang.Proofs.Source.Found
import CoreLang.Proofs.Source.Positions
import CoreLang.Proofs.Source.Explained
import CoreLang.Proofs.Source.Respelling
import CoreLang.Proofs.Source.RoundTrip
import CoreLang.Proofs.Grammar.Alike
import CoreLang.Proofs.Parse.Sentence
import CoreLang.Proofs.Parse.Reread
import CoreLang.Proofs.Command.Effects
import CoreLang.Proofs.Command.Faulty
import CoreLang.Proofs.Command.Ways
import CoreLang.Proofs.Command.Keeps
import CoreLang.Proofs.Command.Directories
import CoreLang.Proofs.Command.Artifacts
import CoreLang.Proofs.Grammar.Nesting
import CoreLang.Proofs.Parse.Resumption
import CoreLang.Proofs.Parse.Panic
import CoreLang.Proofs.Parse.Later
import CoreLang.Proofs.Parse.Independence
import CoreLang.Proofs.Parse.Depth
import CoreLang.Proofs.Parse.Order
import CoreLang.Proofs.Parse.BracketScan
import CoreLang.Proofs.Parse.Carried
import CoreLang.Proofs.Expression.Syntax
import CoreLang.Proofs.Expression.Fold
import CoreLang.Proofs.Expression.Concrete
import CoreLang.Proofs.Expression.WellShaped
import CoreLang.Proofs.Expression.Precedence
import CoreLang.Proofs.Grammar.Sites
import CoreLang.Proofs.Parse.AtEnd
import CoreLang.Proofs.Parse.Severed
import CoreLang.Proofs.Parse.SeveredLooks
import CoreLang.Proofs.Parse.SeveredExpression
import CoreLang.Proofs.Parse.SeveredItems
import CoreLang.Proofs.Parse.Truncated
import CoreLang.Proofs.Parse.Marker
import CoreLang.Proofs.Parse.Sight
import CoreLang.Proofs.Parse.Height
import CoreLang.Proofs.Parse.Trace
import CoreLang.Proofs.Parse.Session
import CoreLang.Proofs.Source.Sequence
import CoreLang.Proofs.Source.Cursor
import CoreLang.Proofs.Source.Pull
import CoreLang.Proofs.Source.Session
import CoreLang.Proofs.Source.Grouping
import CoreLang.Proofs.Source.Units
import CoreLang.Proofs.Source.Written
import CoreLang.Proofs.Source.Extension
import CoreLang.Proofs.Source.Kinds
import CoreLang.Proofs.Grammar.Strings
import CoreLang.Proofs.Text.Control
import CoreLang.Proofs.Report.Outline
import CoreLang.Proofs.Report.Diagnostic
import CoreLang.Proofs.Parse.Counter
import CoreLang.Proofs.Parse.Recast
import CoreLang.Proofs.Report.SymbolTable
import CoreLang.Proofs.Tree.Search
