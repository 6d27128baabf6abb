import StackScript.Location
import StackScript.Text.Quoted
import StackScript.Number.Digits
import StackScript.Number.Shortest
import StackScript.Number.DecimalText
import StackScript.Token.Scan
import StackScript.Tree.Outline
import StackScript.Parse.Expression
import StackScript.Parse.Statement
import StackScript.Code.Listing
import StackScript.Code.Literal
import StackScript.Proofs.Emission.Ahead
import StackScript.Proofs.Emission.Size
import StackScript.Proofs.Emission.Drafting
import StackScript.Proofs.Emission.Standing
import StackScript.Proofs.Emission.Patching
import StackScript.Value.Convert
import StackScript.Value.Dump
import StackScript.Machine.Arithmetic
import StackScript.Machine.Scopes
import StackScript.Builtin.Registry
import StackScript.Machine.Session
import StackScript.Json.Escape
import StackScript.Json.Reader
import StackScript.Cache.Decode
import StackScript.Cache.Store
import StackScript.Command.Perform
import StackScript.Main
import StackScript.Proofs.Emission.Derivation
import StackScript.Proofs.Stream.Position
import StackScript.Proofs.Stream.WellFormed
import StackScript.Proofs.Machine.Stepping
import StackScript.Proofs.Meaning.Evaluate
import StackScript.Proofs.Machine.Shape
import StackScript.Proofs.Meaning.Frame
import StackScript.Proofs.Machine.Reaching
import StackScript.Proofs.Meaning.Follow
import StackScript.Proofs.Meaning.Expression
import StackScript.Proofs.Meaning.Control
import StackScript.Proofs.Meaning.Numbering
import StackScript.Proofs.Meaning.Statement
import StackScript.Proofs.Meaning.Call
import StackScript.Proofs.Meaning.Library
import StackScript.Proofs.Meaning.Correctness
import StackScript.Proofs.Meaning.Safety
import StackScript.Proofs.Number.Numerals
import StackScript.Proofs.Number.StoredDecimal
import StackScript.Proofs.Number.StoredBinary
import StackScript.Proofs.Cache.Leaves
import StackScript.Proofs.Cache.Codec
import StackScript.Proofs.Cache.Compiled
import StackScript.Proofs.Files.Places
import StackScript.Proofs.Cache.Directory
import StackScript.Proofs.Cache.Transparency
import StackScript.Proofs.Cache.RoundTrip
import StackScript.Proofs.Grammar.Derivation
import StackScript.Proofs.Grammar.Taking
import StackScript.Proofs.Grammar.Expression
import StackScript.Proofs.Grammar.Statement
import StackScript.Proofs.Token.Lexemes
import StackScript.Proofs.Grammar.Forms
import StackScript.Proofs.Emission.Exits
import StackScript.Proofs.Emission.Outcome
import StackScript.Proofs.Token.Spacing
import StackScript.Proofs.Grammar.Giving
import StackScript.Proofs.Printed.Words
import StackScript.Proofs.Printed.Expression
import StackScript.Proofs.Printed.Statement
import StackScript.Proofs.Twin.Paired
import StackScript.Proofs.Twin.Value
import StackScript.Proofs.Twin.Machine
import StackScript.Proofs.Twin.Same
import StackScript.Proofs.Machine.Visiting
import StackScript.Proofs.Meaning.CallFrame
import StackScript.Proofs.Machine.Raising
import StackScript.Proofs.Meaning.Halting
import StackScript.Proofs.Token.Breaks
import StackScript.Proofs.Token.Layout
import StackScript.Proofs.Twin.Reading
import StackScript.Proofs.Twin.Expression
import StackScript.Proofs.Twin.Statement
import StackScript.Proofs.Twin.Rows
import StackScript.Proofs.Twin.Emission
import StackScript.Proofs.Twin.Streams
import StackScript.Proofs.Twin.Labels
import StackScript.Proofs.Twin.Building
import StackScript.Proofs.Machine.Landing
import StackScript.Proofs.Twin.Outcome
import StackScript.Proofs.Twin.Abreast
import StackScript.Proofs.Grammar.Known
import StackScript.Proofs.Grammar.Naming
import StackScript.Proofs.Joined.Reading
import StackScript.Proofs.Joined.Making
import StackScript.Proofs.Joined.Running
import StackScript.Proofs.Token.Coverage
import StackScript.Proofs.Machine.Moving
import StackScript.Proofs.Machine.Reuse
import StackScript.Proofs.Machine.Closing
import StackScript.Proofs.Grammar.Bound
import StackScript.Proofs.Grammar.Climbing
import StackScript.Proofs.Grammar.Descent
import StackScript.Proofs.Number.Significant
import StackScript.Proofs.Number.Counting
import StackScript.Proofs.Number.Rational
import StackScript.Proofs.Number.Rounding
import StackScript.Proofs.Number.Quotient
import StackScript.Proofs.Number.NearestBinary
import StackScript.Proofs.Number.WholeBinary
import StackScript.Proofs.Number.ShortestOrder
import StackScript.Proofs.Arithmetic.Precision
import StackScript.Proofs.Arithmetic.Promotion
import StackScript.Proofs.Arithmetic.Outcome
import StackScript.Proofs.Arithmetic.Order
import StackScript.Proofs.Token.Quoting
import StackScript.Proofs.Number.NumericText
import StackScript.Proofs.Number.DisplayedDecimal
import StackScript.Proofs.Discarded.Making
import StackScript.Proofs.Discarded.Running
import StackScript.Proofs.Grammar.Pointing
import StackScript.Proofs.Grammar.Placed
import StackScript.Proofs.Grammar.Located
import StackScript.Proofs.Machine.Bindings
import StackScript.Proofs.Number.Power
import StackScript.Proofs.Number.ScaleRange
import StackScript.Proofs.Builtin.Arguments
import StackScript.Proofs.Builtin.Raise
import StackScript.Proofs.Number.Closeness
import StackScript.Proofs.Number.Newton
import StackScript.Proofs.Number.Convergence
import StackScript.Proofs.Number.Root
import StackScript.Proofs.Builtin.Root
import StackScript.Proofs.Number.Sign
import StackScript.Proofs.Builtin.Division
import StackScript.Proofs.Walk.Reading
import StackScript.Proofs.Walk.Matching
import StackScript.Proofs.Walk.Expression
import StackScript.Proofs.Walk.Statement
