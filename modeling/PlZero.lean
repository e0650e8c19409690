import PlZero.Main
import PlZero.Scope.Register
import PlZero.Proofs.Stream.Operations
import PlZero.Proofs.Contract.Expressions
import PlZero.Proofs.Acceptance.Blocks
import PlZero.Proofs.Completeness.Yields
import PlZero.Proofs.Contract.Outcome
import PlZero.Proofs.Derivation.Complaints
import PlZero.Proofs.Completeness.Blocks
import PlZero.Proofs.Acceptance.Outcome
import PlZero.Proofs.Diagnostic.Absorbed
import PlZero.Proofs.Token.Lexeme
import PlZero.Proofs.Token.Munch
import PlZero.Proofs.Compilation.Options
import PlZero.Proofs.Scope.InScope
import PlZero.Proofs.Scope.Registered
import PlZero.Proofs.Reading.Leaves
import PlZero.Proofs.Scope.Readers
import PlZero.Proofs.Scope.Outcome
import PlZero.Proofs.Diagnostic.Sorted
import PlZero.Proofs.Stream.Alike
import PlZero.Proofs.Agreement.Rules
import PlZero.Proofs.Agreement.Readers
import PlZero.Proofs.Agreement.Outcome
import PlZero.Proofs.Token.Spelling
import PlZero.Proofs.Scope.Path
import PlZero.Proofs.Scope.History
import PlZero.Proofs.Scope.Linked
import PlZero.Proofs.Diagnostic.Calls
import PlZero.Proofs.Stream.Course
import PlZero.Proofs.Reading.Steady
import PlZero.Proofs.Trace.Readers
import PlZero.Proofs.Trace.Bracketed
import PlZero.Proofs.Trace.Outcome
import PlZero.Proofs.Diagnostic.ContextLines
import PlZero.Proofs.Progress.Turns
import PlZero.Proofs.Progress.Loops
import PlZero.Proofs.Progress.Reentry
import PlZero.Proofs.Progress.Ending
import PlZero.Proofs.Progress.Weight
import PlZero.Proofs.Progress.Costs
import PlZero.Proofs.Progress.Prices
import PlZero.Proofs.Progress.Outcome
import PlZero.Proofs.Folding.Base
import PlZero.Proofs.Folding.Numbers
import PlZero.Proofs.Folding.Stored
import PlZero.Proofs.Folding.Recorded
import PlZero.Proofs.Folding.Outcome
import PlZero.Proofs.Recovery.Twins
import PlZero.Proofs.Recovery.Lockstep
import PlZero.Proofs.Recovery.Shape
import PlZero.Proofs.Recovery.Rules
import PlZero.Proofs.Recovery.Readers
import PlZero.Proofs.Recovery.Outcome
import PlZero.Proofs.Stream.Past
import PlZero.Proofs.Completeness.Surrounded
import PlZero.Proofs.Text.Encoding
import PlZero.Proofs.Command.ExitCode
import PlZero.Proofs.Tree.Alike
import PlZero.Proofs.Scope.Alike
import PlZero.Proofs.Derivation.Kinds
import PlZero.Proofs.Derivation.Lead
import PlZero.Proofs.Slips.Script
import PlZero.Proofs.Slips.Strays
import PlZero.Proofs.Slips.Beside
import PlZero.Proofs.Slips.Mends
import PlZero.Proofs.Slips.Rules
import PlZero.Proofs.Slips.Readers
import PlZero.Proofs.Slips.Outcome
import PlZero.Proofs.Printing.Derived
import PlZero.Proofs.Printing.Collected
import PlZero.Proofs.Printing.Outcome
import PlZero.Proofs.Quote.Gathers
import PlZero.Proofs.Derivation.Overdeep
import PlZero.Proofs.Limits.Parentheses
import PlZero.Proofs.Derivation.Redrawn
import PlZero.Proofs.Folding.Lost
import PlZero.Proofs.Derivation.Respelled
import PlZero.Proofs.Limits.Signs
import PlZero.Proofs.Printing.Distinct
import PlZero.Proofs.Diagnostic.Rows
import PlZero.Proofs.Scope.Closed
import PlZero.Proofs.Token.FirstFault
import PlZero.Proofs.Scope.Declaring
import PlZero.Proofs.Stream.Brackets
import PlZero.Proofs.Stream.Closure
import PlZero.Proofs.Stream.Assertions
import PlZero.Proofs.Compilation.LineEnds
import PlZero.Proofs.Scope.Declarations
import PlZero.Proofs.Scope.Growth
import PlZero.Proofs.Contract.Rules
