import BoundedZlib.Engine.Playback
import BoundedZlib.FileSystem
import BoundedZlib.Main
import BoundedZlib.Proofs.Slicing
import BoundedZlib.Proofs.RoundTrip
import BoundedZlib.Proofs.FlushPoints
import BoundedZlib.Proofs.Capacity
import BoundedZlib.Proofs.Layers
import BoundedZlib.Proofs.WrongSize
import BoundedZlib.Proofs.Packing
import BoundedZlib.Proofs.LastStep
import BoundedZlib.Proofs.StepBounds
import BoundedZlib.Proofs.SessionTotals
import BoundedZlib.Proofs.FinishingAtOnce
import BoundedZlib.Proofs.Oversize
import BoundedZlib.Proofs.Truncation
import BoundedZlib.Proofs.MalformedInput
import BoundedZlib.Proofs.DetectedCorruption
import BoundedZlib.Proofs.DeflatedFiles
import BoundedZlib.Proofs.GivenArguments
import BoundedZlib.Proofs.RestoredFiles
import BoundedZlib.Proofs.GrowingTables
import BoundedZlib.Proofs.Registrations
import BoundedZlib.Proofs.SingleFileCommands
import BoundedZlib.Proofs.DeflatingInAnyOrder
import BoundedZlib.Proofs.StreamHeaders
import BoundedZlib.Proofs.DerivedPaths
