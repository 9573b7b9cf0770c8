import ScriptLang.Syntax.Printer
import ScriptLang.Main
import ScriptLang.Proofs.Bisimulation
import ScriptLang.Proofs.PartialEquivalence
import ScriptLang.Proofs.Unfolding
import ScriptLang.Proofs.Contract
import ScriptLang.Proofs.Domain
import ScriptLang.Proofs.Trail
import ScriptLang.Proofs.Site
import ScriptLang.Proofs.Rules
import ScriptLang.Proofs.Evaluation
import ScriptLang.Proofs.Reachable
import ScriptLang.Proofs.Termination
import ScriptLang.Proofs.Frame
import ScriptLang.Proofs.Reading
import ScriptLang.Proofs.Binary
import ScriptLang.Proofs.Nearest
import ScriptLang.Proofs.Decimal
import ScriptLang.Proofs.Literal
import ScriptLang.Proofs.Shortest
import ScriptLang.Proofs.Spelling
import ScriptLang.Proofs.Operand
import ScriptLang.Proofs.ReadBack
import ScriptLang.Proofs.Construct
import ScriptLang.Proofs.Command
import ScriptLang.Proofs.RoundTrip
import ScriptLang.Proofs.Soundness
import ScriptLang.Proofs.Layout
import ScriptLang.Proofs.Intake
import ScriptLang.Proofs.Image
import ScriptLang.Proofs.Pattern
import ScriptLang.Proofs.Munch
import ScriptLang.Proofs.Segmentation
import ScriptLang.Proofs.Steady
import ScriptLang.Proofs.Uniform
import ScriptLang.Proofs.Moment
import ScriptLang.Proofs.Depth
import ScriptLang.Proofs.Raising
import ScriptLang.Proofs.Positional
import ScriptLang.Proofs.Datum
import ScriptLang.Proofs.DatumReading
import ScriptLang.Proofs.DatumText
import ScriptLang.Proofs.DatumRunning
import ScriptLang.Proofs.Located
import ScriptLang.Proofs.Norm
import ScriptLang.Proofs.Progress
import ScriptLang.Proofs.Spot
import ScriptLang.Proofs.Conduct
import ScriptLang.Proofs.LoopControl
import ScriptLang.Proofs.Unwinding
import ScriptLang.Proofs.Session
import ScriptLang.Proofs.Lexical
import ScriptLang.Proofs.Tidy
import ScriptLang.Proofs.Relabelling
import ScriptLang.Proofs.Seam
import ScriptLang.Proofs.Boundary
import ScriptLang.Proofs.Concatenation
import ScriptLang.Proofs.Marks
import ScriptLang.Proofs.Numbering
import ScriptLang.Proofs.Origin
import ScriptLang.Proofs.Descent
import ScriptLang.Proofs.ErrorLine
import ScriptLang.Proofs.Charge
import ScriptLang.Proofs.Conservation
import ScriptLang.Proofs.Occurrence
import ScriptLang.Proofs.History
import ScriptLang.Proofs.Precedence
import ScriptLang.Proofs.Storing
import ScriptLang.Proofs.Course
import ScriptLang.Proofs.Parameters
import ScriptLang.Proofs.Logic
import ScriptLang.Proofs.Iteration
import ScriptLang.Proofs.Ternary
import ScriptLang.Proofs.Edits
import ScriptLang.Proofs.Forest
import ScriptLang.Proofs.Naming
import ScriptLang.Proofs.Selection
import ScriptLang.Proofs.Spacing
import ScriptLang.Proofs.Halting
import ScriptLang.Proofs.Likeness
