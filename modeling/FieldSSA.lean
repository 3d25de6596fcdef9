import FieldSSA.Assembly.Function
import FieldSSA.Assembly.Helper
import FieldSSA.Assembly.Meaning
import FieldSSA.Assembly.Program
import FieldSSA.Binary.Basic
import FieldSSA.Binary.Felt
import FieldSSA.Binary.Function
import FieldSSA.Builder
import FieldSSA.Config
import FieldSSA.Digest
import FieldSSA.Error
import FieldSSA.Felt.Basic
import FieldSSA.Felt.Decimal
import FieldSSA.Function.Basic
import FieldSSA.Function.Bytes
import FieldSSA.Function.Verify
import FieldSSA.Function.Walk
import FieldSSA.Instruction
import FieldSSA.Intrinsic
import FieldSSA.Libfunc.Basic
import FieldSSA.Libfunc.Builtin
import FieldSSA.Libfunc.Extra
import FieldSSA.Libfunc.Registry
import FieldSSA.Lowering.Arena
import FieldSSA.Lowering.Emitter
import FieldSSA.Lowering.Error
import FieldSSA.Lowering.Lower
import FieldSSA.Lowering.Program
import FieldSSA.Machine.Compute
import FieldSSA.Machine.Frame
import FieldSSA.Machine.Run
import FieldSSA.Program
import FieldSSA.Scalar
import FieldSSA.Source.Basic
import FieldSSA.Source.Draft
import FieldSSA.Source.Machine
import FieldSSA.Source.Term
import FieldSSA.Source.ZeroTest
import FieldSSA.Text.Quoted
import FieldSSA.Text.Shapeless
import FieldSSA.Ty
import FieldSSA.Proofs.Execution
import FieldSSA.Proofs.TypeSafety
import FieldSSA.Proofs.LowerOutcome
import FieldSSA.Proofs.BuilderSteps
import FieldSSA.Proofs.Stream
import FieldSSA.Proofs.Code
import FieldSSA.Proofs.LowerScope
import FieldSSA.Proofs.LowerVariables
import FieldSSA.Proofs.LowerOps
import FieldSSA.Proofs.LowerTerminators
import FieldSSA.Proofs.LowerStream
import FieldSSA.Proofs.LowerBody
import FieldSSA.Proofs.Emission
import FieldSSA.Proofs.Reachability
import FieldSSA.Proofs.Segments
import FieldSSA.Proofs.Acceptance
import FieldSSA.Proofs.Evaluation
import FieldSSA.Proofs.Runs
import FieldSSA.Proofs.Simulation
import FieldSSA.Proofs.Decoding
import FieldSSA.Proofs.FeltDecoding
import FieldSSA.Proofs.BinaryRoundTrip
import FieldSSA.Proofs.Indexing
import FieldSSA.Proofs.FieldArithmetic
import FieldSSA.Proofs.FieldWords
import FieldSSA.Proofs.HelperBodies
import FieldSSA.Proofs.SegmentCode
import FieldSSA.Proofs.LinearUse
import FieldSSA.Proofs.StoredValues
import FieldSSA.Proofs.BlockLocality
import FieldSSA.Proofs.BuilderHistory
import FieldSSA.Proofs.Legibility
import FieldSSA.Proofs.Listing
import FieldSSA.Proofs.FunctionText
import FieldSSA.Proofs.Effects
import FieldSSA.Proofs.HandleCalls
import FieldSSA.Proofs.HandleHistory
import FieldSSA.Proofs.BuilderInvariants
import FieldSSA.Proofs.LowerCalls
import FieldSSA.Proofs.ProgramEmission
import FieldSSA.Proofs.LoweringContract
import FieldSSA.Proofs.UnusedValues
import FieldSSA.Proofs.ConditionalTransform
import FieldSSA.Proofs.DepthFirst
import FieldSSA.Proofs.Budget
import FieldSSA.Proofs.Trace
import FieldSSA.Proofs.AcyclicRuns
import FieldSSA.Proofs.Drafting
import FieldSSA.Proofs.StreamPoints
import FieldSSA.Proofs.FeltTerms
import FieldSSA.Proofs.InputErrors
import FieldSSA.Proofs.LabelPass
import FieldSSA.Proofs.ErrorLocality
import FieldSSA.Proofs.BlockLayout
import FieldSSA.Proofs.HandleTrades
import FieldSSA.Proofs.Bookkeeping
import FieldSSA.Proofs.HelperSymbols
import FieldSSA.Proofs.Literals
import FieldSSA.Proofs.FieldOrder
import FieldSSA.Proofs.NameScopes
import FieldSSA.Proofs.DraftNames
