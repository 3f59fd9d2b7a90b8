import TaskNetwork.Text.Letter
import TaskNetwork.Text.Numeral
import TaskNetwork.Text.Blank
import TaskNetwork.Text.Hidden
import TaskNetwork.Value.Format
import TaskNetwork.Decimal.Fixed
import TaskNetwork.Decimal.Read
import TaskNetwork.World
import TaskNetwork.Counters
import TaskNetwork.Domain.Draft
import TaskNetwork.Domain.Build
import TaskNetwork.Source.Lexer
import TaskNetwork.Source.Domain
import TaskNetwork.Source.World
import TaskNetwork.Solver.Condition
import TaskNetwork.Planner
import TaskNetwork.Main
import TaskNetwork.Proofs.Value.Equality
import TaskNetwork.Proofs.Environment.Region
import TaskNetwork.Proofs.Domain.Nodes
import TaskNetwork.Proofs.Solver.Answers
import TaskNetwork.Proofs.Solver.Delivery
import TaskNetwork.Proofs.Solver.Enumeration
import TaskNetwork.Proofs.Solver.Restoration
import TaskNetwork.Proofs.Solver.Guard
import TaskNetwork.Proofs.Domain.Lookup
import TaskNetwork.Proofs.Domain.Built
import TaskNetwork.Proofs.Domain.Identities
import TaskNetwork.Proofs.Domain.Validity
import TaskNetwork.Proofs.Domain.Start
import TaskNetwork.Proofs.Source.Numbering
import TaskNetwork.Proofs.Source.Grammar
import TaskNetwork.Proofs.Source.Reading
import TaskNetwork.Proofs.Source.Terms
import TaskNetwork.Proofs.Source.Conditions
import TaskNetwork.Proofs.Source.Declarations
import TaskNetwork.Proofs.Decimal.Packing
import TaskNetwork.Proofs.Decimal.Rounding
import TaskNetwork.Proofs.Decimal.Scientific
import TaskNetwork.Proofs.Decimal.Shortest
import TaskNetwork.Proofs.Decimal.Reading
import TaskNetwork.Proofs.World.Entries
import TaskNetwork.Proofs.World.Matching
import TaskNetwork.Proofs.World.Log
import TaskNetwork.Proofs.Source.Cutting
import TaskNetwork.Proofs.Source.Facts
import TaskNetwork.Proofs.Source.Rendering
import TaskNetwork.Proofs.Solver.Refinement
import TaskNetwork.Proofs.Solver.Steadiness
import TaskNetwork.Proofs.Solver.Limits
import TaskNetwork.Proofs.Solver.Termination
import TaskNetwork.Proofs.Solver.Extension
import TaskNetwork.Proofs.Solver.Substitution
import TaskNetwork.Proofs.Solver.Demands
import TaskNetwork.Proofs.Solver.Reordering
import TaskNetwork.Proofs.Solver.Reach
import TaskNetwork.Proofs.Solver.Comparison
import TaskNetwork.Proofs.Solver.Counting
import TaskNetwork.Proofs.Decomposition.Limits
import TaskNetwork.Proofs.Decomposition.Boundary
import TaskNetwork.Proofs.Decomposition.Choosing
import TaskNetwork.Proofs.Decomposition.Leftmost
import TaskNetwork.Proofs.Decomposition.Errors
import TaskNetwork.Proofs.Decomposition.Resumption
import TaskNetwork.Proofs.Decomposition.Alternatives
import TaskNetwork.Proofs.Decomposition.Balance
import TaskNetwork.Proofs.Decomposition.Termination
import TaskNetwork.Proofs.Decomposition.Reach
import TaskNetwork.Proofs.Decomposition.Existence
import TaskNetwork.Proofs.Decomposition.Exploration
import TaskNetwork.Proofs.Decomposition.Repetition
import TaskNetwork.Proofs.Environment.Rollback
import TaskNetwork.Proofs.Source.NodeCount
import TaskNetwork.Proofs.Source.Pieces
import TaskNetwork.Proofs.Source.Places
import TaskNetwork.Proofs.Source.Noting
import TaskNetwork.Proofs.Source.Forward
import TaskNetwork.Proofs.Source.Progress
