import Dice.Expression.Bounds
import Dice.Face.Listed
import Dice.Face.Stepping
import Dice.Main
import Dice.Word.Listed
import Dice.Proofs.Region
import Dice.Proofs.Decomposition
import Dice.Proofs.Checked
import Dice.Proofs.Lexing
import Dice.Proofs.Partition
import Dice.Proofs.Reading
import Dice.Proofs.Grammar
import Dice.Proofs.Viability
import Dice.Proofs.Expectation
import Dice.Proofs.Bounds
import Dice.Proofs.Substitution
import Dice.Proofs.Canonical
import Dice.Proofs.Handful
import Dice.Proofs.Supply
import Dice.Proofs.Dealing
import Dice.Proofs.Attainment
import Dice.Proofs.Uniformity
import Dice.Proofs.Streams
import Dice.Proofs.Positions
import Dice.Proofs.Looking
import Dice.Proofs.Scanning
import Dice.Proofs.Lines
import Dice.Proofs.Accounting
import Dice.Proofs.Drawing
import Dice.Proofs.Shielding
import Dice.Proofs.Overflow
import Dice.Proofs.Skeleton
import Dice.Proofs.Spacing
import Dice.Proofs.Embedding
import Dice.Proofs.Joining
import Dice.Proofs.Sampling
import Dice.Proofs.Samplers
import Dice.Proofs.Splitting
import Dice.Proofs.Refusal
import Dice.Proofs.Specs
import Dice.Proofs.Breakdown
import Dice.Proofs.Messages
import Dice.Proofs.Entries
import Dice.Proofs.Unreadable
import Dice.Proofs.Clamping
import Dice.Proofs.Extremes
import Dice.Proofs.Rejection
