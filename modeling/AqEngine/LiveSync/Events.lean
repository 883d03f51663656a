import AqEngine.Lib.Uuid
import Mathlib.Algebra.GroupWithZero.Nat
import Mathlib.Algebra.Ring.Int.Defs

namespace AqEngine.LiveSync

open Lib

inductive EventPriority where
  | critical | telemetry | audit | reconciliation
  deriving DecidableEq, Repr

inductive EventKind where
  | strategyLifecycle | insightProjection | insightStateHistory | executionEvidenceChunk
  | executionFillPage | positionMarkPage | brokerOrderLifecycle | strategyActionAcknowledgement
  | accountProjection | liveMetricsProjection | equityProjection | heartbeat | strategyEvent | log
  | reconciliationStart | reconciliationChunk | reconciliationComplete
  | reconciliationLifecycleRequest | reconciliationLifecycleResult | reconciliationSnapshot
  | reconciliationProgress | syncHealth | control
  | custom (value : String)
  deriving DecidableEq, Repr

def EventKind.asStr : EventKind → String
  | strategyLifecycle => "strategy_lifecycle"
  | insightProjection => "insight_projection"
  | insightStateHistory => "insight_state_history"
  | executionEvidenceChunk => "execution_evidence_chunk"
  | executionFillPage => "execution_fill_page"
  | positionMarkPage => "position_mark_page"
  | brokerOrderLifecycle => "broker_order_lifecycle"
  | strategyActionAcknowledgement => "strategy_action_acknowledgement"
  | accountProjection => "account_projection"
  | liveMetricsProjection => "live_metrics_projection"
  | equityProjection => "equity_projection"
  | heartbeat => "heartbeat"
  | strategyEvent => "strategy_event"
  | log => "log"
  | reconciliationStart => "reconciliation_start"
  | reconciliationChunk => "reconciliation_chunk"
  | reconciliationComplete => "reconciliation_complete"
  | reconciliationLifecycleRequest => "reconciliation_lifecycle_request"
  | reconciliationLifecycleResult => "reconciliation_lifecycle_result"
  | reconciliationSnapshot => "reconciliation_snapshot"
  | reconciliationProgress => "reconciliation_progress"
  | syncHealth => "sync_health"
  | control => "control"
  | custom value => value

structure LatencyTrace where
  (sourceOccurredAtUs adapterQueuedAtUs runtimeReceivedAtUs : Option Int64 := none)
  (localBusPublishedAtUs localOutboxCommittedAtUs persistenceRequestSentAtUs : Option Int64 := none)
  (persistenceCommittedAtUs persistenceAckReceivedAtUs clientAppliedAtUs : Option Int64 := none)
  clockOffsetUs : Option Int64 := none
  clockUncertaintyUs : Option UInt64 := none
  deriving DecidableEq

/-- An event with a payload of type `V`, created at an instant of type `D`. -/
structure CloudEvent (V D : Type) where
  protocolVersion : UInt16
  eventId : Uuid
  (runtimeId strategyId liveSessionId : String)
  runId : Option String
  entityId : String
  entityRevision : UInt64
  criticalSequence : Option UInt64
  priority : EventPriority
  kind : EventKind
  payload : V
  latency : LatencyTrace
  createdAt : D

structure LiveSyncBatch (V D : Type) where
  protocolVersion : UInt16
  (runtimeId strategyId liveSessionId : String)
  (firstCriticalSequence lastCriticalSequence : Option UInt64)
  (criticalEvents telemetry : List (CloudEvent V D))

def LiveSyncBatch.events {V D : Type} (b : LiveSyncBatch V D) : List (CloudEvent V D) :=
  b.criticalEvents ++ b.telemetry

/-- A serializer that restores every value from its own output. -/
structure Json (α : Type) where
  toVec : α → Except String (List UInt8)
  fromSlice : List UInt8 → Except String α
  lossless : ∀ a, ∃ json, toVec a = .ok json ∧ fromSlice json = .ok a

/-- Instants in UTC. Within a leap second the nanoseconds exceed a whole
second, and an instant is restored from its two numbers only if that second
is the last of a minute. -/
structure UtcTime (D : Type) where
  timestamp : D → Int64
  timestampSubsecNanos : D → UInt32
  fromTimestamp : Int64 → UInt32 → Option D
  fromTimestamp_timestamp : ∀ t, fromTimestamp (timestamp t) (timestampSubsecNanos t) =
    if (timestampSubsecNanos t).toNat < 10 ^ 9 ∨ (timestamp t).toInt % 60 = 59 then some t
    else none

/-- An instant outside leap seconds, or within one that ends a minute. -/
def UtcTime.EndsMinute {D : Type} (time : UtcTime D) (t : D) : Prop :=
  (time.timestampSubsecNanos t).toNat < 10 ^ 9 ∨ (time.timestamp t).toInt % 60 = 59

instance {D : Type} (time : UtcTime D) (t : D) : Decidable (time.EndsMinute t) :=
  inferInstanceAs (Decidable (_ ∨ _))

/-- The libraries that the wire format of a batch rests on. -/
structure Platform (V D : Type) where
  kindJson : Json EventKind
  payloadJson : Json V
  time : UtcTime D

end AqEngine.LiveSync
