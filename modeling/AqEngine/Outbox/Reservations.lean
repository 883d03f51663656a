import AqEngine.Outbox.Edits

namespace AqEngine.LiveSync

open Lib Fallible

variable {V D : Type}

def CloudEvent.sequence (e : CloudEvent V D) : Nat := (e.criticalSequence.getD 0).toNat

def CloudEvent.sequenced (e : CloudEvent V D) (sequence : Nat) : CloudEvent V D :=
  { e with criticalSequence := some (UInt64.ofNat sequence) }

def CloudEvent.reservation (e : CloudEvent V D) (c : EventCodec V D) : Reservation :=
  ⟨e.scope, e.sequence, c.fingerprint e⟩

def sequences (scope : Scope) (events : List (CloudEvent V D)) : List Nat :=
  (events.filter fun e => e.scope = scope).map (·.sequence)

namespace OutboxStore

variable (c : EventCodec V D) (s : OutboxStore V D)

def publisherCursor (scope : Scope) : Nat :=
  let columns := (s.events.entries.filter fun row => row.2.payload.event.scope = scope).filterMap
    fun row => row.2.payload.event.sequenceColumn
  max ((s.publisherCursors.lookup scope).getD 0) (columns.max?.getD 0).toNat

def nextSequence (initial : UInt64) (scope : Scope) : Except OutboxStoreError Nat := do
  refuseIf (i64MaxNat < initial.toNat)
    (OutboxStoreError.invalidRecord "publisher sequence exhausted")
  let next := max (s.publisherCursor scope) initial.toNat + 1
  refuseIf (i64MaxNat < next) (OutboxStoreError.invalidRecord "publisher sequence exhausted")
  .ok next

def grantSequence (e : CloudEvent V D) (sequence : Nat) : OutboxStore V D :=
  { s with
    reservations := s.reservations.insert e.eventId ⟨e.scope, sequence, c.fingerprint e⟩
    publisherCursors := s.publisherCursors.insert e.scope
      (max ((s.publisherCursors.lookup e.scope).getD sequence) sequence) }

def reserveEvent (initial : UInt64) (s : OutboxStore V D) (e : CloudEvent V D) :
    Except OutboxStoreError (OutboxStore V D × Option (CloudEvent V D)) := do
  refuseIf (e.priority ≠ .critical ∨ e.kind = .log) (OutboxStoreError.invalidRecord
      "publisher sequence reservations require critical lifecycle events")
  match s.reservations.lookup e.eventId with
  | some saved => do
    refuseIf (saved.fingerprint ≠ c.fingerprint e ∨
        e.criticalSequence.any (fun n => n != UInt64.ofNat saved.sequence) = true)
      (OutboxStoreError.invalidRecord ("publisher event " ++ e.eventId.toString ++
        " conflicts with its durable reservation"))
    .ok (s, none)
  | none => do
    refuseIf (s.events.lookup e.eventId).isSome (OutboxStoreError.invalidRecord
        "unsupported unreserved publisher payload; source retained")
    let sequence ← s.nextSequence initial e.scope
    refuseIf (e.criticalSequence.any (fun n => n != UInt64.ofNat sequence) = true)
      (OutboxStoreError.invalidRecord ("publisher event " ++ e.eventId.toString ++
        " would introduce a sequence gap or reuse"))
    refuseIf (s.reservations.entries.any fun row =>
        row.2.scope == e.scope && row.2.sequence == sequence)
      (OutboxStoreError.database "UNIQUE constraint failed: publisher_event_reservations")
    .ok (s.grantSequence c e sequence, some (e.sequenced sequence))

def reserveEach (initial : UInt64) : OutboxStore V D → List (CloudEvent V D) →
    Except OutboxStoreError (OutboxStore V D × List (CloudEvent V D))
  | s, [] => .ok (s, [])
  | s, e :: rest => do
    let (s, granted) ← reserveEvent c initial s e
    let (s, fresh) ← reserveEach initial s rest
    .ok (s, granted.toList ++ fresh)

/-- A rejected event becomes a dead letter under an identity of its own, which
its content determines. -/
def rejectPublisherEvent (m : Moment) (e : CloudEvent V D) (reason : String) (id : Uuid) :
    OutboxStore V D × Except OutboxStoreError Unit :=
  match c.encode e with
  | .error error => (s, .error error)
  | .ok payload =>
    let text := "publisher event " ++ e.eventId.toString ++ " rejected: " ++ reason
    s.conclude c m [e] (fun _ => true) (match s.deadLetters.lookup id with
        | some _ => .ok (s, ())
        | none => do
          let s := s.putDeadLetter id ⟨e.strategyId, text, payload, m.nowUs⟩
          s.checkPhysicalCapture m
          .ok (s, ()))

variable [DecidableEq V] [DecidableEq D]

/-- The new events of a batch get their sequences and are stored with them. -/
def reservePublisherEventsInTransaction (m : Moment) (events : List (CloudEvent V D))
    (initial : UInt64) (capacity : Option Nat) :
    Except OutboxStoreError (OutboxStore V D × List (CloudEvent V D)) := do
  let (s, fresh) ← reserveEach c initial s events
  let (s, _) ← s.admitEvents c m fresh capacity false
  .ok (s, fresh)

/-- A batch under an optional limit. The database may fail before the commit. -/
def reservePublisherEventsWithOptionalCapacity (m : Moment) (events : List (CloudEvent V D))
    (initial : UInt64) (capacity : Option Nat) (fault : Option String) :
    OutboxStore V D × Except OutboxStoreError (List (CloudEvent V D)) :=
  let capacity := s.effectiveLimit capacity
  if events.isEmpty then (s, .ok [])
  else if capacity.isSome ∧ 256 < events.length then
    (s, .error (.invalidRecord "capture batch exceeds 256 events"))
  else
    s.conclude c m events (fun capacity => 0 < capacity.requestedBytes ∨ capacity.physical.isNone)
      (match fault with
        | some message => .error (.database message)
        | none => s.reservePublisherEventsInTransaction c m events initial capacity)

def reservePublisherEvents (m : Moment) (events : List (CloudEvent V D)) (initial : UInt64)
    (fault : Option String) : OutboxStore V D × Except OutboxStoreError (List (CloudEvent V D)) :=
  s.reservePublisherEventsWithOptionalCapacity c m events initial none fault

def reservePublisherEventsWithCapacity (m : Moment) (events : List (CloudEvent V D))
    (initial : UInt64) (limit : Nat) (fault : Option String) :
    OutboxStore V D × Except OutboxStoreError (List (CloudEvent V D)) :=
  s.ensureCaptureCapacitySchema.reservePublisherEventsWithOptionalCapacity c m events initial
    (some limit) fault

end OutboxStore

end AqEngine.LiveSync
