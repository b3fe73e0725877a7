import PlanWire.Main
import PlanWire.Proofs.AttributeType.Canonical
import PlanWire.Proofs.AttributeType.OnePass
import PlanWire.Proofs.Change.Unknown
import PlanWire.Proofs.Config.FirstFault
import PlanWire.Proofs.Dump.FixedPoint
import PlanWire.Proofs.Expression.WellFormed
import PlanWire.Proofs.FormatVersion.Order
import PlanWire.Proofs.Function.Parameters
import PlanWire.Proofs.Log.Members
import PlanWire.Proofs.Plan.Kept
import PlanWire.Proofs.Plan.PriorState
import PlanWire.Proofs.Redact.Agreement
import PlanWire.Proofs.Redact.OwnMasks
import PlanWire.Proofs.Redact.Spans
import PlanWire.UnknownValue
