import SmallCpp.Main
import SmallCpp.Proofs.CallCheck
import SmallCpp.Proofs.Confinement
import SmallCpp.Proofs.ParameterNames
import SmallCpp.Proofs.RoundTrip
import SmallCpp.Proofs.Scoping
import SmallCpp.Proofs.Typing.Run
import SmallCpp.Proofs.Visibility
import SmallCpp.Proofs.Cutoff
import SmallCpp.Proofs.Sinks
import SmallCpp.Proofs.CallDepth
import SmallCpp.Proofs.Termination
import SmallCpp.Proofs.FaultSpan
import SmallCpp.Proofs.CallCheck.FalseAlarms
import SmallCpp.Proofs.FunctionOrder
import SmallCpp.Proofs.Regular
import SmallCpp.Proofs.Regular.Run
import SmallCpp.Proofs.Tiling
import SmallCpp.Proofs.ExpectationFile
import SmallCpp.Proofs.Separator
import SmallCpp.Proofs.Parser.Moves
import SmallCpp.Proofs.Progress
import SmallCpp.Proofs.Outline
import SmallCpp.Proofs.Outline.Parsed
import SmallCpp.Proofs.ReadingEnds
import SmallCpp.Proofs.Restoration
import SmallCpp.Proofs.Lens
import SmallCpp.Proofs.ErrorOrder
import SmallCpp.Proofs.Layout
import SmallCpp.Proofs.Quiet
import SmallCpp.Proofs.Assignment
import SmallCpp.Proofs.Initialization
import SmallCpp.Proofs.Dimensions
import SmallCpp.Proofs.Scalar
import SmallCpp.Proofs.Folding
import SmallCpp.Proofs.Division
import SmallCpp.Proofs.Conversion
