import AqEngine.LiveSync.Events
import AqEngine.Lib.Fallible
import AqEngine.Lib.Table

namespace AqEngine.LiveSync

open Lib

deriving instance DecidableEq for CloudEvent

instance decidableEqExcept {ε α : Type} [DecidableEq ε] [DecidableEq α] : DecidableEq (Except ε α)
  | .error e, .error e' => decidable_of_iff (e = e') (by simp)
  | .ok a, .ok a' => decidable_of_iff (a = a') (by simp)
  | .error _, .ok _ => isFalse nofun
  | .ok _, .error _ => isFalse nofun

structure Scope where
  (runtimeId strategyId liveSessionId : String)
  deriving DecidableEq, Repr

def CloudEvent.scope {V D : Type} (e : CloudEvent V D) : Scope :=
  ⟨e.runtimeId, e.strategyId, e.liveSessionId⟩

inductive SafetyKind where
  | lifecycle | action
  deriving DecidableEq, Repr

/-- A bounded operational fact about the stop of a strategy. -/
structure SafetyObservation (D : Type) where
  version : UInt16
  (strategyId liveSessionId runtimeId runId : String)
  eventId : Uuid
  revision : UInt64
  createdAt : D
  kind : SafetyKind
  state : String
  (actionId message : Option String)
  deriving DecidableEq

/-- What the outbox takes from the serialisation, time and hash libraries:
the size of an encoded event, the instants it restores, the digest of its
content and the texts in its payload. -/
structure EventCodec (V D : Type) where
  timestampMicros : D → Int
  ofMicros : Int → D
  wireLen : CloudEvent V D → Except String Nat
  digest : CloudEvent V Int → List UInt8
  field : V → String → Option (Option String)
  safetyLen : SafetyObservation D → Option Nat

/-- The bytes of an encoded event, by the event they are read back as and
their number. -/
structure WirePayload (V D : Type) where
  event : CloudEvent V D
  length : Nat
  deriving DecidableEq

structure PhysicalCaptureUsage where
  (projectedCommitBytes limitBytes operationalHeadroomBytes : Nat)
  deriving DecidableEq, Repr

structure CaptureCapacity where
  (retainedBytes requestedBytes limitBytes : Nat)
  physical : Option PhysicalCaptureUsage
  deriving DecidableEq, Repr

inductive OutboxStoreError where
  | database (message : String)
  | codec (message : String)
  | invalidRecord (message : String)
  | capturePaused (capacity : CaptureCapacity)
  deriving DecidableEq, Repr

def i64MaxNat : Nat := 2 ^ 63 - 1

namespace EventCodec

variable {V D : Type} (c : EventCodec V D)

def liveSyncProtocolVersion : UInt16 := 2

variable (e : CloudEvent V D)

/-- The envelope as it is read back: instants have whole microseconds. -/
def restored : CloudEvent V D := { e with createdAt := c.ofMicros (c.timestampMicros e.createdAt) }

def encode : Except OutboxStoreError (WirePayload V D) :=
  match c.wireLen e with
  | .error message => .error (.codec message)
  | .ok length => .ok ⟨c.restored e, length⟩

def withLocalCommit (atUs : Int) : CloudEvent V D :=
  { e with latency := { e.latency with localOutboxCommittedAtUs := some (Int64.ofInt atUs) } }

def encodeWithLocalCommit (atUs : Int) : Except OutboxStoreError (WirePayload V D) :=
  c.encode (withLocalCommit e atUs)

def decode (payload : WirePayload V D) : Except OutboxStoreError (CloudEvent V D) :=
  let version := payload.event.protocolVersion
  if version = 0 ∨ liveSyncProtocolVersion < version then
    .error (.codec ("unsupported live-sync protocol version: " ++ toString version))
  else .ok payload.event

/-- What makes an event the same one when it is sent again: neither its
trace, nor the sequence it is given, nor fractions of a microsecond. -/
def content : CloudEvent V Int where
  protocolVersion := e.protocolVersion
  eventId := e.eventId
  runtimeId := e.runtimeId
  strategyId := e.strategyId
  liveSessionId := e.liveSessionId
  runId := e.runId
  entityId := e.entityId
  entityRevision := e.entityRevision
  criticalSequence := none
  priority := e.priority
  kind := e.kind
  payload := e.payload
  latency := {}
  createdAt := c.timestampMicros e.createdAt

def fingerprint : List UInt8 := c.digest (c.content e)

def sameAcceptedPayload [DecidableEq V] [DecidableEq D] (left right : CloudEvent V D) : Bool :=
  let right := { right with latency := {} }
  let left := { left with latency := {} }
  left == if c.timestampMicros left.createdAt = c.timestampMicros right.createdAt then
    { right with createdAt := left.createdAt } else right

end EventCodec

end AqEngine.LiveSync
