import Mathlib.Data.List.Sort
import Mathlib.Data.Prod.Lex
import Mathlib.Data.String.Basic
import AqEngine.Outbox.Edits

namespace AqEngine.LiveSync

open Lib

variable {V D : Type}

structure OutboxEventRecord (V D : Type) where
  event : CloudEvent V D
  attemptCount : Nat
  (nextAttemptAtUs localCommittedAtUs : Int)
  lastError : Option String

def LiveSyncBatch.fromEvents (first : CloudEvent V D) (events : List (CloudEvent V D)) :
    LiveSyncBatch V D :=
  let critical := events.filter fun e => e.priority == .critical || e.priority == .reconciliation
  { protocolVersion := first.protocolVersion
    runtimeId := first.runtimeId
    strategyId := first.strategyId
    liveSessionId := first.liveSessionId
    firstCriticalSequence := (critical.filterMap (·.criticalSequence)).min?
    lastCriticalSequence := (critical.filterMap (·.criticalSequence)).max?
    criticalEvents := critical
    telemetry := events.filter fun e => e.priority == .telemetry || e.priority == .audit }

namespace OutboxStore

variable (c : EventCodec V D) (s : OutboxStore V D) (nowUs : Int)

/-- A critical row that waits for its retry and comes before another one. -/
def blocks (blocked row : OutboxRow V D) : Bool :=
  blocked.state == .pending && blocked.payload.event.priority == .critical &&
    decide (nowUs < blocked.nextAttemptAtUs) &&
    blocked.payload.event.scope == row.payload.event.scope &&
    blocked.payload.event.sequenceColumn.any fun m =>
      row.payload.event.sequenceColumn.any fun n => decide (m < n)

variable (priority : EventPriority)

def due (scope : Scope) (row : OutboxRow V D) : Bool :=
  row.state == .pending && row.payload.event.priority == priority &&
    decide (row.nextAttemptAtUs ≤ nowUs) && row.payload.event.scope == scope &&
    (priority != .critical || s.events.entries.all fun other => !blocks nowUs other.2 row)

/-- Rows with a sequence come first, in the order of the sequences. -/
def sortKey (row : OutboxRow V D) : Bool ×ₗ Int ×ₗ Int ×ₗ String :=
  let e := row.payload.event
  toLex (e.sequenceColumn.isNone, toLex (e.sequenceColumn.getD 0,
    toLex (c.timestampMicros e.createdAt, e.eventId.toString)))

def dueRows (scope : Scope) : List (OutboxRow V D) :=
  ((s.events.entries.map (·.2)).filter (s.due nowUs priority scope)).insertionSort fun a b =>
    sortKey c a ≤ sortKey c b

/-- The first rows whose payloads have so many bytes; the first one is always
among them. -/
def withinBytes (maxBytes : Nat) : Option Nat → List (OutboxRow V D) → List (OutboxRow V D)
  | _, [] => []
  | none, row :: rest => row :: withinBytes maxBytes (some row.payload.length) rest
  | some bytes, row :: rest =>
    if maxBytes < bytes + row.payload.length then []
    else row :: withinBytes maxBytes (some (bytes + row.payload.length)) rest

def record (row : OutboxRow V D) : Except OutboxStoreError (OutboxEventRecord V D) := do
  let event ← EventCodec.decode row.payload
  .ok ⟨event, row.attemptCount, row.nextAttemptAtUs, row.localCommittedAtUs, row.lastError⟩

def pendingBatchForRuntimeScope (scope : Scope)
    (maxEvents maxBytes : Nat) : Except OutboxStoreError (List (OutboxEventRecord V D)) :=
  (withinBytes maxBytes none ((s.dueRows c nowUs priority scope).take (max maxEvents 1))).mapM
    record

/-- Deferred rows of a lane whose last error is given are due at once. -/
def wakeRetryEvents (scope : Scope) (ids : List Uuid) (error : String) : OutboxStore V D :=
  ids.foldl (fun s id => s.updateEvent id fun row =>
    if row.payload.event.scope = scope ∧ row.payload.event.priority = priority ∧
        row.lastError = some error ∧ row.state = .pending ∧ nowUs < row.nextAttemptAtUs then
      { row with nextAttemptAtUs := nowUs }
    else row) s

end OutboxStore

/-- The answers of the remote sink to a batch. An authentication error comes
with whether the credentials could be refreshed, a conflict with the cursor
that was fetched after it. -/
inductive RemoteAnswer where
  | accepted (through : UInt64)
  | authentication (refreshed : Bool) (message : String)
  | invalidBatch (message : String)
  | sequenceConflict (cursor : Option UInt64) (message : String)
  | terminal (message : String)
  | transient (message : String)
  | cloudPaused (message : String)

/-- The critical worker of an agent: its store, the parts of the batch it is
delivering, and whether the first of them is with the sink. -/
structure CriticalWorker (V D : Type) where
  store : OutboxStore V D := {}
  pending : List (List (OutboxEventRecord V D)) := []
  (offered authenticationRefreshed cloudPaused : Bool := false)

structure SyncAgentConfig where
  scope : Scope
  (criticalBatchEvents criticalBatchBytes : Nat)

namespace CriticalWorker

def identities (records : List (OutboxEventRecord V D)) : List Uuid := records.map (·.event.eventId)

def saturatingSucc (n : UInt64) : UInt64 := if n = UInt64.ofNat (2 ^ 64 - 1) then n else n + 1

/-- The first sequence of critical records that does not follow the one before. -/
def firstInternalCriticalGap : Option UInt64 → List (OutboxEventRecord V D) →
    Option (UInt64 × UInt64)
  | _, [] => none
  | previous, record :: rest =>
    if record.event.priority = .critical then
      match record.event.criticalSequence, previous with
      | none, _ => firstInternalCriticalGap previous rest
      | some sequence, none => firstInternalCriticalGap (some sequence) rest
      | some sequence, some previous =>
        if sequence ≠ saturatingSucc previous then some (saturatingSucc previous, sequence)
        else firstInternalCriticalGap (some sequence) rest
    else firstInternalCriticalGap previous rest

def sameRun (records : List (OutboxEventRecord V D)) : List (OutboxEventRecord V D) :=
  records.takeWhile fun record => record.event.runId = (records.head?.bind (·.event.runId))

def retryDelaySeconds (attempt : Nat) : Nat :=
  [1, 2, 5, 15, 30, 60, 300].getD (min (attempt - 1) 6) 300

variable (c : EventCodec V D) (w : CriticalWorker V D)

def flush (config : SyncAgentConfig) (m : Moment) : CriticalWorker V D :=
  if w.cloudPaused then w
  else
    match w.store.pendingBatchForRuntimeScope c m.readAtUs .critical config.scope
        config.criticalBatchEvents config.criticalBatchBytes with
    | .error _ => w
    | .ok [] => w
    | .ok records =>
      let records := sameRun records
      match firstInternalCriticalGap none records with
      | some (expected, actual) =>
        let detail := "local critical batch is non-contiguous: expected sequence " ++
          toString expected ++ ", found " ++ toString actual ++
          "; remote persistence paused for authoritative reconciliation"
        { w with store := (w.store.scheduleRetry m (identities records) 300 detail).1 }
      | none => { w with pending := [records], authenticationRefreshed := false }

def batch (sentAtUs : Int) (records : List (OutboxEventRecord V D)) : Option (LiveSyncBatch V D) :=
  let events := records.map fun record =>
    { record.event with
      latency := { record.event.latency with
        persistenceRequestSentAtUs := some (Int64.ofInt sentAtUs) } }
  events.head?.map fun first => LiveSyncBatch.fromEvents first events

/-- The first part goes to the sink unless delivery is paused. -/
def offer : CriticalWorker V D :=
  if w.cloudPaused then { w with pending := [] }
  else { w with offered := true }

def proceed (rest : List (List (OutboxEventRecord V D)))
    (result : OutboxStore V D × Except OutboxStoreError Unit) : CriticalWorker V D :=
  match result with
  | (store, .ok ()) => { w with store := store, pending := rest, offered := false }
  | (store, .error _) => { w with store := store, pending := [], offered := false }

def scheduleBatchRetry (m : Moment) (records : List (OutboxEventRecord V D))
    (delaySeconds : Option Nat) (message : String) :
    OutboxStore V D × Except OutboxStoreError Unit :=
  if records.isEmpty then (w.store, .ok ())
  else
    let attempt := (records.map (·.attemptCount)).max?.getD 0 + 1
    w.store.scheduleRetry m (identities records) (delaySeconds.getD (retryDelaySeconds attempt))
      message

def deadLetterEach (m : Moment) (message : String) : OutboxStore V D → List Uuid →
    OutboxStore V D × Except OutboxStoreError Unit
  | s, [] => (s, .ok ())
  | s, id :: rest =>
    match s.moveToDeadLetter { m with nowUs := m.writtenAtUs id } id message with
    | (s, .error error) => (s, .error error)
    | (s, .ok ()) => deadLetterEach m message s rest

/-- After a conflict the records below the remote cursor are committed and the
others wait. -/
def resolveConflict (m : Moment) (part : List (OutboxEventRecord V D))
    (rest : List (List (OutboxEventRecord V D))) (cursor : UInt64) : CriticalWorker V D :=
  let persisted (record : OutboxEventRecord V D) :=
    record.event.criticalSequence.any fun n => decide (n ≤ cursor)
  let done := part.filter persisted
  let left := part.filter fun record => !persisted record
  let detail := "remote critical cursor is " ++ toString cursor ++
    "; local lifecycle sequence has a gap and is waiting for authoritative reconciliation"
  match w.store.markRemoteCommitted m (identities done) (some cursor) with
  | (store, .error error) => w.proceed rest (store, .error error)
  | (store, .ok ()) =>
    let w := { w with store := store }
    w.proceed rest (w.scheduleBatchRetry m left none detail)

def answer (m : Moment) (reply : RemoteAnswer) : CriticalWorker V D :=
  match w.pending with
  | [] => w
  | part :: rest =>
    let ids := identities part
    match reply with
    | .accepted through => w.proceed rest (w.store.markRemoteCommitted m ids (some through))
    | .authentication refreshed message =>
      if w.authenticationRefreshed then
        w.proceed rest (w.scheduleBatchRetry m part none message)
      else
        let w := { w with authenticationRefreshed := true }
        if refreshed then { w with offered := false }
        else w.proceed rest (w.scheduleBatchRetry m part none message)
    | .invalidBatch message =>
      if 1 < part.length then
        let midpoint := part.length / 2
        { w with
          pending := part.take midpoint :: part.drop midpoint :: rest
          offered := false }
      else w.proceed rest (deadLetterEach m message w.store ids)
    | .sequenceConflict (some cursor) _ => w.resolveConflict m part rest cursor
    | .sequenceConflict none message => w.proceed rest (w.scheduleBatchRetry m part none message)
    | .terminal message => w.proceed rest (deadLetterEach m message w.store ids)
    | .transient message => w.proceed rest (w.scheduleBatchRetry m part none message)
    | .cloudPaused message =>
      let w := { w with cloudPaused := true }
      w.proceed rest (w.scheduleBatchRetry m part (some 60) message)

end CriticalWorker

end AqEngine.LiveSync
