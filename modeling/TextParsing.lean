import TextParsing.Fault
import TextParsing.Text
import TextParsing.Text.Class
import TextParsing.Text.Plain
import TextParsing.Text.Quoted
import TextParsing.Cursor
import TextParsing.Failure
import TextParsing.Numeral.Kind
import TextParsing.Numeral.Integer
import TextParsing.Numeral.Decimal
import TextParsing.Numeral.Literal
import TextParsing.Numeral.Binary64
import TextParsing.Run
import TextParsing.Primitive
import TextParsing.Parser
import TextParsing.Parser.Grammar
import TextParsing.Parser.Description
import TextParsing.Proofs.Text.Split
import TextParsing.Proofs.Text.Bytes
import TextParsing.Proofs.Numeral.Integer
import TextParsing.Proofs.Numeral.Denotation
import TextParsing.Proofs.Numeral.Calculation
import TextParsing.Proofs.Numeral.Literal
import TextParsing.Proofs.Numeral.Words
import TextParsing.Proofs.Numeral.Longest
import TextParsing.Proofs.Numeral.Binary64
import TextParsing.Proofs.Numeral.Rounding
import TextParsing.Proofs.Numeral.Decimal
import TextParsing.Proofs.Numeral.Reading
import TextParsing.Proofs.Numeral.Double
import TextParsing.Proofs.Cursor
import TextParsing.Proofs.Walk
import TextParsing.Proofs.Primitive
import TextParsing.Proofs.Run
import TextParsing.Proofs.Prefixes
import TextParsing.Proofs.Counts
import TextParsing.Proofs.Scanners
import TextParsing.Proofs.Integers
import TextParsing.Proofs.Doubles
import TextParsing.Proofs.Numbers
import TextParsing.Proofs.Parser.Law
import TextParsing.Proofs.Repetition
import TextParsing.Proofs.Forward
import TextParsing.Proofs.Position
import TextParsing.Proofs.Lossless
import TextParsing.Proofs.Notes
import TextParsing.Proofs.Spans
import TextParsing.Proofs.Lists
import TextParsing.Proofs.Views
import TextParsing.Proofs.Observation
import TextParsing.Proofs.Visits
import TextParsing.Proofs.Choice
import TextParsing.Proofs.Factoring
import TextParsing.Proofs.Provenance
import TextParsing.Proofs.Desugar
import TextParsing.Proofs.Faultless
import TextParsing.Proofs.Cycle
import TextParsing.Proofs.Halting
