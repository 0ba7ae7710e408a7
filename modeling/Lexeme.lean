import Lexeme.Batch.Basic
import Lexeme.Batch.Run
import Lexeme.CommandLine
import Lexeme.Duration
import Lexeme.Engine
import Lexeme.Files.Path
import Lexeme.Files.Source
import Lexeme.Files.Table
import Lexeme.Files.Tree
import Lexeme.Grammar.Basic
import Lexeme.Grammar.Body
import Lexeme.Grammar.Error
import Lexeme.Grammar.Expand
import Lexeme.Grammar.Lexer
import Lexeme.Grammar.Rule
import Lexeme.Grammar.Source
import Lexeme.Grammar.Symbol
import Lexeme.Json.Basic
import Lexeme.Json.Quoted
import Lexeme.Json.Value
import Lexeme.Log.Basic
import Lexeme.Log.Code
import Lexeme.Log.Event
import Lexeme.Log.Preferences
import Lexeme.Main
import Lexeme.Matcher
import Lexeme.Number.Rounding
import Lexeme.Pattern.Basic
import Lexeme.Pattern.Factored
import Lexeme.Pattern.Footprint
import Lexeme.Pattern.Layout
import Lexeme.Pattern.Machine
import Lexeme.Pattern.Program
import Lexeme.Position
import Lexeme.Proofs.Batch.Artifacts
import Lexeme.Proofs.Batch.Attribution
import Lexeme.Proofs.Batch.Failures
import Lexeme.Proofs.Batch.Isolation
import Lexeme.Proofs.Batch.Outputs
import Lexeme.Proofs.Batch.Reruns
import Lexeme.Proofs.Batch.Run
import Lexeme.Proofs.Coverage
import Lexeme.Proofs.Engine
import Lexeme.Proofs.Files.Entries
import Lexeme.Proofs.Files.Reach
import Lexeme.Proofs.Files.Rewriting
import Lexeme.Proofs.Files.Source
import Lexeme.Proofs.Files.Tree
import Lexeme.Proofs.Files.Without
import Lexeme.Proofs.Grammar.Declarations
import Lexeme.Proofs.Grammar.Expand
import Lexeme.Proofs.Grammar.Expander
import Lexeme.Proofs.Grammar.Lexer
import Lexeme.Proofs.Grammar.Meaning
import Lexeme.Proofs.Grammar.Memory
import Lexeme.Proofs.Grammar.Numbering
import Lexeme.Proofs.Grammar.Printed
import Lexeme.Proofs.Grammar.Printing
import Lexeme.Proofs.Grammar.References
import Lexeme.Proofs.Grammar.Rules
import Lexeme.Proofs.Grammar.Spelling
import Lexeme.Proofs.Grammar.Symbol
import Lexeme.Proofs.Grammar.Trivia
import Lexeme.Proofs.Grammar.Unplaced
import Lexeme.Proofs.Grammar.Vocabulary
import Lexeme.Proofs.Grammar.WellFormed
import Lexeme.Proofs.Json.Entries
import Lexeme.Proofs.Json.Grammar
import Lexeme.Proofs.Json.Layout
import Lexeme.Proofs.Json.Scalars
import Lexeme.Proofs.Log.Attribution
import Lexeme.Proofs.Log.Messages
import Lexeme.Proofs.Matcher
import Lexeme.Proofs.Outcome
import Lexeme.Proofs.Pattern.Literal
import Lexeme.Proofs.Pattern.Reading
import Lexeme.Proofs.Pattern.Rests
import Lexeme.Proofs.Position
import Lexeme.Proofs.Python.Blocks
import Lexeme.Proofs.Python.CarriageReturns
import Lexeme.Proofs.Python.FinalLineBreak
import Lexeme.Proofs.Python.InsertedLines
import Lexeme.Proofs.Python.Lengths
import Lexeme.Proofs.Python.LineEndings
import Lexeme.Proofs.Python.LogicalLines
import Lexeme.Proofs.Python.Lookahead
import Lexeme.Proofs.Python.Lossless
import Lexeme.Proofs.Python.Refusals
import Lexeme.Proofs.Python.Run
import Lexeme.Proofs.Python.Scanner
import Lexeme.Proofs.Python.SilentLines
import Lexeme.Proofs.Python.Steps
import Lexeme.Proofs.Python.Strings
import Lexeme.Proofs.Python.Symbols
import Lexeme.Proofs.Python.Terminals
import Lexeme.Proofs.Python.Words
import Lexeme.Proofs.Record
import Lexeme.Proofs.Segment
import Lexeme.Proofs.Substitutions
import Lexeme.Proofs.Substitutions.Documents
import Lexeme.Proofs.Substitutions.Standard
import Lexeme.Proofs.Terminal
import Lexeme.Proofs.Text.Bytes
import Lexeme.Proofs.Text.Letters
import Lexeme.Proofs.Tokenizer
import Lexeme.Python.Lengths
import Lexeme.Python.Lexer
import Lexeme.Python.Scanner
import Lexeme.Python.Vocabulary
import Lexeme.Record
import Lexeme.Segment
import Lexeme.Substitutions
import Lexeme.Substitutions.Standard
import Lexeme.Terminal
import Lexeme.Text.Alphabetic
import Lexeme.Text.Blank
import Lexeme.Text.ByteRanges
import Lexeme.Text.Bytes
import Lexeme.Text.CodePoints
import Lexeme.Text.Lines
import Lexeme.Text.Numeric
import Lexeme.Text.Printable
import Lexeme.Text.Quoted
import Lexeme.Text.Uppercase
import Lexeme.Token
import Lexeme.Tokenizer
import Lexeme.Vocabulary
