import LaneBoost.Session
import LaneBoost.Tolerance
import LaneBoost.VectorProgram
import LaneBoost.Proofs.PackedReading
import LaneBoost.Proofs.CellChanges
import LaneBoost.Proofs.BinPlaces
import LaneBoost.Proofs.SampleSums
import LaneBoost.Proofs.LayoutSlots
import LaneBoost.Proofs.Refill
import LaneBoost.Proofs.SoftmaxLanes
import LaneBoost.Proofs.UpdateLoop
import LaneBoost.Proofs.UpdateSlots
import LaneBoost.Proofs.PackCodec
import LaneBoost.Proofs.Unpacking
import LaneBoost.Proofs.PackRoundTrip
import LaneBoost.Proofs.TableSums
import LaneBoost.Proofs.TablePlaces
import LaneBoost.Proofs.SingleZones
import LaneBoost.Proofs.UpdateAgreement
import LaneBoost.Proofs.SumAgreement
import LaneBoost.Proofs.ZoneAgreement
import LaneBoost.Proofs.KernelCalls
import LaneBoost.Proofs.NameLanguage
import LaneBoost.Proofs.FactoryCalls
import LaneBoost.Proofs.HandleLifecycle
import LaneBoost.Proofs.BackendChoice
import LaneBoost.Proofs.BinCounts
import LaneBoost.Proofs.CountConservation
import LaneBoost.Proofs.SpecialNumbers
import LaneBoost.Proofs.Closeness
import LaneBoost.Proofs.MetricSums
import LaneBoost.Proofs.UnindexedCalls
import LaneBoost.Proofs.TableDigits
import LaneBoost.Proofs.SlotPartition
import LaneBoost.Proofs.Rearrangement
import LaneBoost.Proofs.BinEdits
import LaneBoost.Proofs.Representation
import LaneBoost.Proofs.UnitData
import LaneBoost.Proofs.BinGuard
import LaneBoost.Proofs.ServedHandles
import LaneBoost.Proofs.ClassSelection
import LaneBoost.Proofs.ExactSoftmax
import LaneBoost.Proofs.FirstPeak
import LaneBoost.Proofs.ScatterGather
import LaneBoost.Proofs.SessionSums
