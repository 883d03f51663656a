import AqEngine.Lib.ProtoWire
import AqEngine.LiveSync.Events

namespace AqEngine.LiveSync

open Lib

structure Trace where
  (source adapter runtime bus outbox request committed ack applied offset : Option Int64 := none)
  uncertainty : Option UInt64 := none
  deriving DecidableEq

namespace Trace

def ofLatency (t : LatencyTrace) : Trace where
  source := t.sourceOccurredAtUs
  adapter := t.adapterQueuedAtUs
  runtime := t.runtimeReceivedAtUs
  bus := t.localBusPublishedAtUs
  outbox := t.localOutboxCommittedAtUs
  request := t.persistenceRequestSentAtUs
  committed := t.persistenceCommittedAtUs
  ack := t.persistenceAckReceivedAtUs
  applied := t.clientAppliedAtUs
  offset := t.clockOffsetUs
  uncertainty := t.clockUncertaintyUs

def toLatency (t : Trace) : LatencyTrace where
  sourceOccurredAtUs := t.source
  adapterQueuedAtUs := t.adapter
  runtimeReceivedAtUs := t.runtime
  localBusPublishedAtUs := t.bus
  localOutboxCommittedAtUs := t.outbox
  persistenceRequestSentAtUs := t.request
  persistenceCommittedAtUs := t.committed
  persistenceAckReceivedAtUs := t.ack
  clientAppliedAtUs := t.applied
  clockOffsetUs := t.offset
  clockUncertaintyUs := t.uncertainty

def encodeRaw (t : Trace) : List UInt8 :=
  optionally t.source (sint64.encode 1) ++ (optionally t.adapter (sint64.encode 2) ++
  (optionally t.runtime (sint64.encode 3) ++ (optionally t.bus (sint64.encode 4) ++
  (optionally t.outbox (sint64.encode 5) ++ (optionally t.request (sint64.encode 6) ++
  (optionally t.committed (sint64.encode 7) ++ (optionally t.ack (sint64.encode 8) ++
  (optionally t.applied (sint64.encode 9) ++ (optionally t.offset (sint64.encode 10) ++
  optionally t.uncertainty (uint64.encode 11))))))))))

def encodedLen (t : Trace) : Nat :=
  optionalLen t.source (sint64.encodedLen 1) + (optionalLen t.adapter (sint64.encodedLen 2) +
  (optionalLen t.runtime (sint64.encodedLen 3) + (optionalLen t.bus (sint64.encodedLen 4) +
  (optionalLen t.outbox (sint64.encodedLen 5) + (optionalLen t.request (sint64.encodedLen 6) +
  (optionalLen t.committed (sint64.encodedLen 7) + (optionalLen t.ack (sint64.encodedLen 8) +
  (optionalLen t.applied (sint64.encodedLen 9) + (optionalLen t.offset (sint64.encodedLen 10) +
  optionalLen t.uncertainty (uint64.encodedLen 11))))))))))

def mergeField : MergeField Trace
  | _, m, 1, wire, buf => sint64.merge (fun v => { m with source := some v }) wire buf
  | _, m, 2, wire, buf => sint64.merge (fun v => { m with adapter := some v }) wire buf
  | _, m, 3, wire, buf => sint64.merge (fun v => { m with runtime := some v }) wire buf
  | _, m, 4, wire, buf => sint64.merge (fun v => { m with bus := some v }) wire buf
  | _, m, 5, wire, buf => sint64.merge (fun v => { m with outbox := some v }) wire buf
  | _, m, 6, wire, buf => sint64.merge (fun v => { m with request := some v }) wire buf
  | _, m, 7, wire, buf => sint64.merge (fun v => { m with committed := some v }) wire buf
  | _, m, 8, wire, buf => sint64.merge (fun v => { m with ack := some v }) wire buf
  | _, m, 9, wire, buf => sint64.merge (fun v => { m with applied := some v }) wire buf
  | _, m, 10, wire, buf => sint64.merge (fun v => { m with offset := some v }) wire buf
  | _, m, 11, wire, buf => uint64.merge (fun v => { m with uncertainty := some v }) wire buf
  | depth, m, tag, wire, buf => (skip depth wire tag buf).map fun buf => (m, buf)

end Trace

structure Event where
  version : UInt32 := 0
  id : List UInt8 := []
  (runtime strategy session : String := "")
  run : Option String := none
  entity : String := ""
  revision : UInt64 := 0
  sequence : Option UInt64 := none
  priority : UInt32 := 0
  (kindJson payloadJson : List UInt8 := [])
  latency : Option Trace := none
  seconds : Int64 := 0
  nanos : UInt32 := 0
  deriving DecidableEq

namespace Event

def encodeRaw (e : Event) : List UInt8 :=
  unlessDefault 0 e.version (uint32.encode 1) ++ (unlessDefault [] e.id (bytes.encode 2) ++
  (unlessDefault "" e.runtime (string.encode 3) ++ (unlessDefault "" e.strategy (string.encode 4) ++
  (unlessDefault "" e.session (string.encode 5) ++ (optionally e.run (string.encode 6) ++
  (unlessDefault "" e.entity (string.encode 7) ++ (unlessDefault 0 e.revision (uint64.encode 8) ++
  (optionally e.sequence (uint64.encode 9) ++ (unlessDefault 0 e.priority (uint32.encode 10) ++
  (unlessDefault [] e.kindJson (bytes.encode 11) ++
  (unlessDefault [] e.payloadJson (bytes.encode 12) ++
  (optionally e.latency (fun t => delimited 13 t.encodedLen t.encodeRaw) ++
  (unlessDefault 0 e.seconds (sint64.encode 14) ++
  unlessDefault 0 e.nanos (uint32.encode 15))))))))))))))

def encodedLen (e : Event) : Nat :=
  defaultLen 0 e.version (uint32.encodedLen 1) + (defaultLen [] e.id (bytes.encodedLen 2) +
  (defaultLen "" e.runtime (string.encodedLen 3) + (defaultLen "" e.strategy (string.encodedLen 4) +
  (defaultLen "" e.session (string.encodedLen 5) + (optionalLen e.run (string.encodedLen 6) +
  (defaultLen "" e.entity (string.encodedLen 7) + (defaultLen 0 e.revision (uint64.encodedLen 8) +
  (optionalLen e.sequence (uint64.encodedLen 9) + (defaultLen 0 e.priority (uint32.encodedLen 10) +
  (defaultLen [] e.kindJson (bytes.encodedLen 11) +
  (defaultLen [] e.payloadJson (bytes.encodedLen 12) +
  (optionalLen e.latency (fun t => delimitedLen 13 t.encodedLen) +
  (defaultLen 0 e.seconds (sint64.encodedLen 14) +
  defaultLen 0 e.nanos (uint32.encodedLen 15))))))))))))))

/-- A second trace in one event is merged into the first. -/
def mergeField : MergeField Event
  | _, m, 1, wire, buf => uint32.merge (fun v => { m with version := v }) wire buf
  | _, m, 2, wire, buf => bytes.merge (fun v => { m with id := v }) wire buf
  | _, m, 3, wire, buf => string.merge (fun v => { m with runtime := v }) wire buf
  | _, m, 4, wire, buf => string.merge (fun v => { m with strategy := v }) wire buf
  | _, m, 5, wire, buf => string.merge (fun v => { m with session := v }) wire buf
  | _, m, 6, wire, buf => string.merge (fun v => { m with run := some v }) wire buf
  | _, m, 7, wire, buf => string.merge (fun v => { m with entity := v }) wire buf
  | _, m, 8, wire, buf => uint64.merge (fun v => { m with revision := v }) wire buf
  | _, m, 9, wire, buf => uint64.merge (fun v => { m with sequence := some v }) wire buf
  | _, m, 10, wire, buf => uint32.merge (fun v => { m with priority := v }) wire buf
  | _, m, 11, wire, buf => bytes.merge (fun v => { m with kindJson := v }) wire buf
  | _, m, 12, wire, buf => bytes.merge (fun v => { m with payloadJson := v }) wire buf
  | depth, m, 13, wire, buf =>
    (mergeMessage Trace.mergeField depth (m.latency.getD {}) wire buf).map fun (t, buf) =>
      ({ m with latency := some t }, buf)
  | _, m, 14, wire, buf => sint64.merge (fun v => { m with seconds := v }) wire buf
  | _, m, 15, wire, buf => uint32.merge (fun v => { m with nanos := v }) wire buf
  | depth, m, tag, wire, buf => (skip depth wire tag buf).map fun buf => (m, buf)

end Event

structure Batch where
  version : UInt32 := 0
  (runtime strategy session : String := "")
  (first last : Option UInt64 := none)
  (critical telemetry : List Event := [])
  deriving DecidableEq

namespace Batch

def encodeRaw (b : Batch) : List UInt8 :=
  unlessDefault 0 b.version (uint32.encode 1) ++ (unlessDefault "" b.runtime (string.encode 2) ++
  (unlessDefault "" b.strategy (string.encode 3) ++ (unlessDefault "" b.session (string.encode 4) ++
  (optionally b.first (uint64.encode 5) ++ (optionally b.last (uint64.encode 6) ++
  (b.critical.flatMap (fun e => delimited 7 e.encodedLen e.encodeRaw) ++
  b.telemetry.flatMap (fun e => delimited 8 e.encodedLen e.encodeRaw)))))))

/-- Each occurrence of an event field appends a new event. -/
def mergeField : MergeField Batch
  | _, m, 1, wire, buf => uint32.merge (fun v => { m with version := v }) wire buf
  | _, m, 2, wire, buf => string.merge (fun v => { m with runtime := v }) wire buf
  | _, m, 3, wire, buf => string.merge (fun v => { m with strategy := v }) wire buf
  | _, m, 4, wire, buf => string.merge (fun v => { m with session := v }) wire buf
  | _, m, 5, wire, buf => uint64.merge (fun v => { m with first := some v }) wire buf
  | _, m, 6, wire, buf => uint64.merge (fun v => { m with last := some v }) wire buf
  | depth, m, 7, wire, buf =>
    (mergeMessage Event.mergeField depth {} wire buf).map fun (e, buf) =>
      ({ m with critical := m.critical ++ [e] }, buf)
  | depth, m, 8, wire, buf =>
    (mergeMessage Event.mergeField depth {} wire buf).map fun (e, buf) =>
      ({ m with telemetry := m.telemetry ++ [e] }, buf)
  | depth, m, tag, wire, buf => (skip depth wire tag buf).map fun buf => (m, buf)

def decode (buf : List UInt8) : Except WireError Batch := decodeMessage mergeField {} buf

end Batch

inductive BatchError where
  | wire (error : WireError)
  | message (text : String)
  deriving DecidableEq, Repr

variable {V D : Type} (p : Platform V D)

/-- The checked conversion to the protocol's sixteen bit version. -/
def restoreVersion (version : UInt32) : Except BatchError UInt16 :=
  if version.toNat < 2 ^ 16 then .ok version.toUInt16 else .error (.message "invalid version")

def restorePriority (priority : UInt32) : Except BatchError EventPriority :=
  match priority.toNat with
  | 0 => .ok .critical
  | 1 => .ok .telemetry
  | 2 => .ok .audit
  | 3 => .ok .reconciliation
  | _ => .error (.message "invalid priority")

def orMessage {α : Type} (value : Option α) (text : String) : Except BatchError α :=
  match value with
  | some a => .ok a
  | none => .error (.message text)

def restore (e : Event) : Except BatchError (CloudEvent V D) := do
  let protocolVersion ← restoreVersion e.version
  let eventId ← orMessage (Uuid.fromSlice e.id) "invalid UUID"
  let priority ← restorePriority e.priority
  let kind ← (p.kindJson.fromSlice e.kindJson).mapError .message
  let payload ← (p.payloadJson.fromSlice e.payloadJson).mapError .message
  let latency ← orMessage e.latency "missing latency"
  let createdAt ← orMessage (p.time.fromTimestamp e.seconds e.nanos) "invalid timestamp"
  .ok
    { protocolVersion, eventId, runtimeId := e.runtime, strategyId := e.strategy
      liveSessionId := e.session, runId := e.run, entityId := e.entity
      entityRevision := e.revision, criticalSequence := e.sequence, priority, kind, payload
      latency := latency.toLatency, createdAt }

def maxBatchBytes : Nat := 256 * 1024

def maxBatchEvents : Nat := 100

/-- Counts the events of a batch before any of them is built. -/
def countEvent (events : Nat) (buf : List UInt8) : Except BatchError (Nat × List UInt8) := do
  let ((tag, wire), buf) ← (decodeKey buf).mapError .wire
  let events := if tag = 7 ∨ tag = 8 then events + 1 else events
  if maxBatchEvents < events then .error (.message "too many events")
  else
    let buf ← (skip recursionLimit wire tag buf).mapError .wire
    .ok (events, buf)

def decodeBytes (buf : List UInt8) : Except BatchError (LiveSyncBatch V D) :=
  if maxBatchBytes < buf.length then .error (.message "oversized protobuf batch")
  else do
    let _ ← readWhile countEvent 0 buf.length 0 buf
    let b ← (Batch.decode buf).mapError .wire
    let protocolVersion ← restoreVersion b.version
    let criticalEvents ← b.critical.mapM (restore p)
    let telemetry ← b.telemetry.mapM (restore p)
    .ok
      { protocolVersion, runtimeId := b.runtime, strategyId := b.strategy
        liveSessionId := b.session, firstCriticalSequence := b.first
        lastCriticalSequence := b.last, criticalEvents, telemetry }

end AqEngine.LiveSync
