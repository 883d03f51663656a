import AqEngine.LiveSync.Protobuf

namespace AqEngine.LiveSync

open Lib

variable {V D : Type}

/-- An event with its serialized parts, ready to be written. -/
structure RefEvent (V D : Type) where
  event : CloudEvent V D
  (kind payload : List UInt8)
  trace : Trace

def EventPriority.code : EventPriority → UInt32
  | critical => 0
  | telemetry => 1
  | audit => 2
  | reconciliation => 3

namespace RefEvent

variable (time : UtcTime D)

/-- The entity precedes the run here, against the order of their tags. -/
def encodeRaw (r : RefEvent V D) : List UInt8 :=
  let e := r.event
  uint32.encode 1 e.protocolVersion.toUInt32 ++ (delimited 2 16 e.eventId.bytes ++
  (unlessDefault "" e.runtimeId (string.encode 3) ++
  (unlessDefault "" e.strategyId (string.encode 4) ++
  (unlessDefault "" e.liveSessionId (string.encode 5) ++
  (unlessDefault "" e.entityId (string.encode 7) ++ (optionally e.runId (string.encode 6) ++
  (unlessDefault 0 e.entityRevision (uint64.encode 8) ++
  (optionally e.criticalSequence (uint64.encode 9) ++
  (unlessDefault 0 e.priority.code (uint32.encode 10) ++ (bytes.encode 11 r.kind ++
  (bytes.encode 12 r.payload ++ (delimited 13 r.trace.encodedLen r.trace.encodeRaw ++
  (unlessDefault 0 (time.timestamp e.createdAt) (sint64.encode 14) ++
  unlessDefault 0 (time.timestampSubsecNanos e.createdAt) (uint32.encode 15))))))))))))))

def encodedLen (r : RefEvent V D) : Nat :=
  let e := r.event
  uint32.encodedLen 1 e.protocolVersion.toUInt32 + (keyLen 2 + 1 + 16) +
  (defaultLen "" e.runtimeId (string.encodedLen 3) +
  (defaultLen "" e.strategyId (string.encodedLen 4) +
  (defaultLen "" e.liveSessionId (string.encodedLen 5) +
  (defaultLen "" e.entityId (string.encodedLen 7) + (optionalLen e.runId (string.encodedLen 6) +
  (defaultLen 0 e.entityRevision (uint64.encodedLen 8) +
  (optionalLen e.criticalSequence (uint64.encodedLen 9) +
  (defaultLen 0 e.priority.code (uint32.encodedLen 10) + (bytes.encodedLen 11 r.kind +
  bytes.encodedLen 12 r.payload + delimitedLen 13 r.trace.encodedLen +
  (defaultLen 0 (time.timestamp e.createdAt) (sint64.encodedLen 14) +
  defaultLen 0 (time.timestampSubsecNanos e.createdAt) (uint32.encodedLen 15)))))))))))

end RefEvent

variable (p : Platform V D)

def refEvent (e : CloudEvent V D) : Except String (RefEvent V D) := do
  let kind ← p.kindJson.toVec e.kind
  let payload ← p.payloadJson.toVec e.payload
  .ok { event := e, kind, payload, trace := .ofLatency e.latency }

variable (b : LiveSyncBatch V D)

/-- The critical events come first, so the position decides the tag. -/
def eventTag (i : Nat) : Nat :=
  if i < b.criticalEvents.length then 7 else 8

def encodeWith (events : List (RefEvent V D)) : List UInt8 :=
  uint32.encode 1 b.protocolVersion.toUInt32 ++
  (unlessDefault "" b.runtimeId (string.encode 2) ++
  (unlessDefault "" b.strategyId (string.encode 3) ++
  (unlessDefault "" b.liveSessionId (string.encode 4) ++
  (optionally b.firstCriticalSequence (uint64.encode 5) ++
  (optionally b.lastCriticalSequence (uint64.encode 6) ++
  (events.mapIdx fun i r =>
    delimited (eventTag b i) (r.encodedLen p.time) (r.encodeRaw p.time)).flatten)))))

def encodedLenWith (events : List (RefEvent V D)) : Nat :=
  uint32.encodedLen 1 b.protocolVersion.toUInt32 +
  (defaultLen "" b.runtimeId (string.encodedLen 2) +
  (defaultLen "" b.strategyId (string.encodedLen 3) +
  (defaultLen "" b.liveSessionId (string.encodedLen 4) +
  (optionalLen b.firstCriticalSequence (uint64.encodedLen 5) +
  (optionalLen b.lastCriticalSequence (uint64.encodedLen 6) +
  (events.mapIdx fun i r => delimitedLen (eventTag b i) (r.encodedLen p.time)).sum)))))

def encode : Except String (List UInt8) := do
  let events ← b.events.mapM (refEvent p)
  .ok (encodeWith p b events)

end AqEngine.LiveSync
