import Packrat.Main
import Packrat.Proofs.Calculator.Answers
import Packrat.Proofs.Calculator.Language
import Packrat.Proofs.Calculator.Lexemes
import Packrat.Proofs.Calculator.Longest
import Packrat.Proofs.Calculator.Overflow
import Packrat.Proofs.Calculator.Reading
import Packrat.Proofs.Calculator.Terminals
import Packrat.Proofs.CharClass.Coverage
import Packrat.Proofs.CharClass.Spans
import Packrat.Proofs.Expr.Paths
import Packrat.Proofs.Failures
import Packrat.Proofs.Fold
import Packrat.Proofs.Grammar.Acceptance
import Packrat.Proofs.Grammar.Bodies
import Packrat.Proofs.Grammar.Certainty
import Packrat.Proofs.Grammar.Declarations
import Packrat.Proofs.Grammar.LeftEdges
import Packrat.Proofs.Grammar.LeftLoops
import Packrat.Proofs.Grammar.Survey
import Packrat.Proofs.Grammar.Survey.Returns
import Packrat.Proofs.Journal
import Packrat.Proofs.Literal.Shadowing
import Packrat.Proofs.Misses
import Packrat.Proofs.Parser
import Packrat.Proofs.Parser.Acceptance
import Packrat.Proofs.Parser.Diagnostics
import Packrat.Proofs.Parser.Positions
import Packrat.Proofs.Parser.Recognition
import Packrat.Proofs.Parser.Refusal
import Packrat.Proofs.Parser.Reuse
import Packrat.Proofs.Parser.Rules
import Packrat.Proofs.Places
import Packrat.Proofs.Semantics
import Packrat.Proofs.Semantics.Aborts
import Packrat.Proofs.Semantics.Extent
import Packrat.Proofs.Semantics.Likeness
import Packrat.Proofs.Semantics.Runs
import Packrat.Proofs.Semantics.Uniqueness
import Packrat.Proofs.Session.Bracketing
import Packrat.Proofs.Session.Certainty
import Packrat.Proofs.Session.Consumption
import Packrat.Proofs.Session.Ending
import Packrat.Proofs.Session.Factoring
import Packrat.Proofs.Session.Following
import Packrat.Proofs.Session.Furthest
import Packrat.Proofs.Session.Heredity
import Packrat.Proofs.Session.Lookahead
import Packrat.Proofs.Session.Motion
import Packrat.Proofs.Session.Placement
import Packrat.Proofs.Session.Recording
import Packrat.Proofs.Session.Recurrence
import Packrat.Proofs.Session.Refusal
import Packrat.Proofs.Session.Relocation
import Packrat.Proofs.Session.Reuse
import Packrat.Proofs.Session.Sequencing
import Packrat.Proofs.Session.Soundness
import Packrat.Proofs.Session.Steps
import Packrat.Proofs.Session.Termination
import Packrat.Proofs.Session.Tiling
import Packrat.Proofs.Session.Unrolling
import Packrat.Proofs.Source
import Packrat.Proofs.Text.Lowercase
import Packrat.Rule.Listing
