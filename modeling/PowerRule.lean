import PowerRule.Binary64
import PowerRule.Decimal
import PowerRule.Declaration.Generated
import PowerRule.Declaration.Grammar.IdentifierTable
import PowerRule.Declaration.Grammar.Lexeme
import PowerRule.Declaration.Grammar.Operand
import PowerRule.Declaration.Grammar.Standard
import PowerRule.Declaration.Grammar.Symbol
import PowerRule.Declaration.Grammar.Types
import PowerRule.Declaration.Parser
import PowerRule.Declaration.Target
import PowerRule.Derivative
import PowerRule.Error
import PowerRule.Expression
import PowerRule.Format
import PowerRule.Main
import PowerRule.Polynomial
import PowerRule.Proofs.Accumulation
import PowerRule.Proofs.Aggregation
import PowerRule.Proofs.Appending
import PowerRule.Proofs.ArgumentScan
import PowerRule.Proofs.Boundaries
import PowerRule.Proofs.Braces
import PowerRule.Proofs.DecimalText
import PowerRule.Proofs.DeclaredTarget
import PowerRule.Proofs.Derivative
import PowerRule.Proofs.Differentiation
import PowerRule.Proofs.ErrorPlaces
import PowerRule.Proofs.Evaluation
import PowerRule.Proofs.Flags
import PowerRule.Proofs.FractionalExponent
import PowerRule.Proofs.GeneratedCode
import PowerRule.Proofs.Growth
import PowerRule.Proofs.Joining
import PowerRule.Proofs.KeyedSum
import PowerRule.Proofs.LongestMatch
import PowerRule.Proofs.Lookahead
import PowerRule.Proofs.Misreading
import PowerRule.Proofs.MonomialText
import PowerRule.Proofs.Nearest
import PowerRule.Proofs.Negation
import PowerRule.Proofs.NegativeZero
import PowerRule.Proofs.Neighbours
import PowerRule.Proofs.NumberText
import PowerRule.Proofs.Numeral
import PowerRule.Proofs.Offsets
import PowerRule.Proofs.OneShot
import PowerRule.Proofs.Pieces
import PowerRule.Proofs.PipedSession
import PowerRule.Proofs.Places
import PowerRule.Proofs.PromptSession
import PowerRule.Proofs.Pruning
import PowerRule.Proofs.Reading
import PowerRule.Proofs.RecordedSteps
import PowerRule.Proofs.Renaming
import PowerRule.Proofs.RoundTrip
import PowerRule.Proofs.Rounding
import PowerRule.Proofs.SessionRun
import PowerRule.Proofs.Splitting
import PowerRule.Proofs.StableText
import PowerRule.Proofs.StepText
import PowerRule.Proofs.Sum
import PowerRule.Proofs.SymbolActions
import PowerRule.Proofs.SymbolStack
import PowerRule.Proofs.TagList
import PowerRule.Proofs.TermGrammar
import PowerRule.Proofs.TermOrder
import PowerRule.Proofs.Trace
import PowerRule.Proofs.Trimming
import PowerRule.Proofs.Whole
import PowerRule.Proofs.WholeDerivative
import PowerRule.Proofs.WholeExponent
import PowerRule.Proofs.WrittenDerivative
import PowerRule.Scale
import PowerRule.Session.Basic
import PowerRule.Session.Evaluation
import PowerRule.Session.Settings
import PowerRule.Text
