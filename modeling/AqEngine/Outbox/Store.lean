import AqEngine.Outbox.Pauses
import AqEngine.Outbox.SafetyFacts

namespace AqEngine.LiveSync

open Lib Fallible

inductive RowState where
  | pending | committed | deadLetter
  deriving DecidableEq, Repr

structure OutboxRow (V D : Type) where
  payload : WirePayload V D
  state : RowState
  attemptCount : Nat
  (nextAttemptAtUs localCommittedAtUs : Int)
  remoteCommittedAtUs : Option Int
  lastError : Option String
  deriving DecidableEq

structure DeadLetter (V D : Type) where
  (strategyId reason : String)
  payload : WirePayload V D
  failedAtUs : Int
  deriving DecidableEq

/-- The sequence that an event got for ever, with the digest of its content. -/
structure Reservation where
  scope : Scope
  sequence : Nat
  fingerprint : List UInt8
  deriving DecidableEq

structure PhysicalCaptureBudget where
  (payloadLimitBytes physicalLimitBytes operationalHeadroomBytes : Nat)
  deriving DecidableEq

/-- The tables of a store. The number of retained bytes is there once the
capture schema was installed. -/
structure OutboxStore (V D : Type) where
  events : Table Uuid (OutboxRow V D) := ∅
  deadLetters : Table Uuid (DeadLetter V D) := ∅
  reservations : Table Uuid Reservation := ∅
  publisherCursors : Table Scope Nat := ∅
  syncCursors : Table Scope Int := ∅
  retained : Option Int := none
  gaps : CaptureGaps := {}
  safety : SafetyTable D := ∅
  physicalBudget : Option PhysicalCaptureBudget := none

/-- What a transaction reads outside its tables: the clock when it sizes each
event, when it writes it, when it looks for rows and when it is done, and the
size its files would have. -/
structure Moment where
  (sizedAtUs writtenAtUs : Uuid → Int)
  (readAtUs nowUs : Int)
  projectedCommitBytes : Nat

def localEventHardLimitBytes : Nat := 256 * 1024

/-- The column of a sequence: a signed number of 64 bits. -/
def CloudEvent.sequenceColumn {V D : Type} (e : CloudEvent V D) : Option Int :=
  e.criticalSequence.map fun n => n.toInt64.toInt

namespace OutboxStore

variable {V D : Type} (c : EventCodec V D) (s : OutboxStore V D)

/-! Rows come and go with the number of retained bytes. A replaced dead letter
was not deleted as far as its trigger is concerned. -/

def addEvent (id : Uuid) (row : OutboxRow V D) : OutboxStore V D :=
  { s with
    events := s.events.insert id row
    retained := s.retained.map (· + row.payload.length) }

def deleteEvent (id : Uuid) : OutboxStore V D :=
  match s.events.lookup id with
  | none => s
  | some row =>
    { s with
      events := s.events.erase id
      retained := s.retained.map (· - row.payload.length) }

def putDeadLetter (id : Uuid) (letter : DeadLetter V D) : OutboxStore V D :=
  { s with
    deadLetters := s.deadLetters.insert id letter
    retained := s.retained.map (· + letter.payload.length) }

def deleteDeadLetter (id : Uuid) : OutboxStore V D :=
  match s.deadLetters.lookup id with
  | none => s
  | some letter =>
    { s with
      deadLetters := s.deadLetters.erase id
      retained := s.retained.map (· - letter.payload.length) }

def updateEvent (id : Uuid) (f : OutboxRow V D → OutboxRow V D) : OutboxStore V D :=
  { s with events := s.events.modify id fun row => { f row with payload := row.payload } }

def inventory : Int :=
  ((s.events.entries.map fun row => (row.2.payload.length : Int)).sum) +
    (s.deadLetters.entries.map fun row => (row.2.payload.length : Int)).sum

def ensureCaptureCapacitySchema : OutboxStore V D :=
  match s.retained with
  | some _ => s
  | none => { s with retained := some s.inventory }

def captureRetainedBytes : Except OutboxStoreError Nat :=
  match s.retained with
  | none => .error (.database "capture capacity aggregate missing")
  | some value =>
    if value < 0 then .error (.database "out of range integral type conversion attempted")
    else .ok value.toNat

def checkPhysicalCapture (m : Moment) : Except OutboxStoreError Unit :=
  match s.physicalBudget with
  | none => .ok ()
  | some budget => do
    let retained ← s.captureRetainedBytes
    let usage : PhysicalCaptureUsage :=
      ⟨m.projectedCommitBytes, budget.physicalLimitBytes, budget.operationalHeadroomBytes⟩
    refuseIf (budget.payloadLimitBytes < retained ∨
        usage.limitBytes - usage.operationalHeadroomBytes < usage.projectedCommitBytes)
      (OutboxStoreError.capturePaused ⟨retained, 0, budget.payloadLimitBytes, some usage⟩)

def checkOperationalPhysical (m : Moment) : Except OutboxStoreError Unit :=
  match s.physicalBudget with
  | none => .ok ()
  | some budget =>
    if budget.physicalLimitBytes < m.projectedCommitBytes then do
      let retained ← s.ensureCaptureCapacitySchema.captureRetainedBytes
      .error (.capturePaused ⟨retained, 0, budget.payloadLimitBytes,
        some ⟨m.projectedCommitBytes, budget.physicalLimitBytes, budget.operationalHeadroomBytes⟩⟩)
    else .ok ()

/-- The figures of a refusal after the transaction was rolled back. -/
def normalizePhysicalRefusal (capacity : CaptureCapacity) :
    Except OutboxStoreError CaptureCapacity :=
  if capacity.physical.isNone then .ok capacity
  else do
    let retained ← s.captureRetainedBytes
    .ok { capacity with
      requestedBytes := capacity.retainedBytes - retained
      retainedBytes := retained }

/-- What a refused batch says about its scopes, each once. -/
def blockedSpans (nowUs : Int) (events : List (CloudEvent V D)) : Table Scope BlockedSpan :=
  events.foldl (fun spans e =>
    if e.kind = .log then spans
    else
      let at_ := min (c.timestampMicros e.createdAt) nowUs
      spans.insert e.scope (match spans.lookup e.scope with
          | none => ⟨at_, e.runId, e.runId⟩
          | some span =>
            if at_ < span.startedAtUs then ⟨at_, e.runId, e.runId⟩
            else { span with lastRun := e.runId })) ∅

def recordCapturePause (nowUs : Int) (events : List (CloudEvent V D))
    (capacity : CaptureCapacity) : OutboxStore V D :=
  let block (gaps : CaptureGaps) (span : Sigma fun _ : Scope => BlockedSpan) :=
    gaps.recordCapturePauseLocked span.1 span.2 capacity nowUs
  { s with gaps := (blockedSpans c nowUs events).entries.foldl block s.gaps }

/-- The answer of a transaction: its tables when it commits; after a refusal
those from before with the pauses that `pauses` asks for; and nothing else. -/
def conclude {α : Type} (m : Moment) (events : List (CloudEvent V D))
    (pauses : CaptureCapacity → Bool) (result : Except OutboxStoreError (OutboxStore V D × α)) :
    OutboxStore V D × Except OutboxStoreError α :=
  match result with
  | .ok (s', a) => (s', .ok a)
  | .error (.capturePaused capacity) =>
    match s.normalizePhysicalRefusal capacity with
    | .error error => (s, .error error)
    | .ok capacity =>
      (if pauses capacity then s.recordCapturePause c m.nowUs events capacity else s,
        .error (.capturePaused capacity))
  | .error error => (s, .error error)

section

variable [DecidableEq V] [DecidableEq D]

def sameColumns (row e : CloudEvent V D) : Bool :=
  row.runtimeId == e.runtimeId && row.priority == e.priority && row.strategyId == e.strategyId &&
    row.liveSessionId == e.liveSessionId && row.entityId == e.entityId &&
    row.entityRevision == e.entityRevision && row.criticalSequence == e.criticalSequence &&
    row.kind.asStr == e.kind.asStr

def checkDuplicate (exact : Bool) (row : OutboxRow V D) (e : CloudEvent V D) :
    Except OutboxStoreError Unit := do
  refuseIf (!sameColumns row.payload.event e)
    (OutboxStoreError.invalidRecord ("event " ++ e.eventId.toString ++
      " was reused with a different runtime, sequence, or entity revision"))
  if exact then do
    let saved ← EventCodec.decode row.payload
    refuseIf (!c.sameAcceptedPayload saved e)
      (OutboxStoreError.invalidRecord "accepted handoff event identity has a different payload")
  else .ok ()

/-- One event is inserted, or it is there already; and whether it is new. -/
def insertEvent (exact : Bool) (nowUs : Int) (s : OutboxStore V D) (e : CloudEvent V D) :
    Except OutboxStoreError (OutboxStore V D × Bool) := do
  let payload ← c.encodeWithLocalCommit e nowUs
  match s.events.lookup e.eventId with
  | some row => do
    checkDuplicate c exact row e
    .ok (s, false)
  | none => do
    let safety ← s.safety.recordSafetyInTransaction c e nowUs
    let s := s.addEvent e.eventId ⟨payload, .pending, 0, nowUs, nowUs, none, none⟩
    .ok ({ s with safety := safety }, true)

def insertEach (exact : Bool) (clock : Uuid → Int) : OutboxStore V D → List (CloudEvent V D) →
    Except OutboxStoreError (OutboxStore V D × Nat)
  | s, [] => .ok (s, 0)
  | s, e :: rest => do
    let (s, isNew) ← insertEvent c exact (clock e.eventId) s e
    let (s, inserted) ← insertEach exact clock s rest
    .ok (s, inserted + isNew.toNat)

variable (m : Moment) (events : List (CloudEvent V D))

def insertEventsWithPayloadCheck (exact : Bool) :
    Except OutboxStoreError (OutboxStore V D × Nat) := do
  let (s, inserted) ← insertEach c exact m.writtenAtUs s events
  if 0 < inserted then do
    s.checkPhysicalCapture m
    .ok (s, inserted)
  else .ok (s, inserted)

def requestedBytes (m : Moment) : List Uuid → List (CloudEvent V D) → Except OutboxStoreError Nat
  | _, [] => .ok 0
  | seen, e :: rest =>
    if e.kind = .log ∨ e.eventId ∈ seen then requestedBytes m seen rest
    else if (s.events.lookup e.eventId).isSome then requestedBytes m (e.eventId :: seen) rest
    else do
      let payload ← c.encodeWithLocalCommit e (m.sizedAtUs e.eventId)
      refuseIf (localEventHardLimitBytes < payload.length)
        (OutboxStoreError.invalidRecord "capture event exceeds wire limit")
      let bytes ← requestedBytes m (e.eventId :: seen) rest
      .ok (payload.length + bytes)

variable (limit : Nat)

def checkCaptureCapacity : Except OutboxStoreError CaptureCapacity := do
  refuseIf (limit = 0 ∨ i64MaxNat < limit)
    (OutboxStoreError.invalidRecord "invalid capture byte limit")
  refuseIf (256 < events.length) (OutboxStoreError.invalidRecord "capture batch exceeds 256 events")
  let requested ← s.requestedBytes c m [] events
  let retained ← s.captureRetainedBytes
  let capacity : CaptureCapacity := ⟨retained, requested, limit, none⟩
  refuseIf (0 < requested ∧ limit - retained < requested) (OutboxStoreError.capturePaused capacity)
  .ok capacity

def effectiveLimit (limit : Option Nat) : Option Nat :=
  match s.physicalBudget with
  | some budget => some (min (limit.getD budget.payloadLimitBytes) budget.payloadLimitBytes)
  | none => limit

def withoutLogs : List (CloudEvent V D) := events.filter fun e => e.kind != .log

def admitEvents (limit : Option Nat) (exact : Bool) :
    Except OutboxStoreError (OutboxStore V D × Nat) :=
  match limit with
  | none => s.insertEventsWithPayloadCheck c m events exact
  | some limit => do
    let _ ← s.checkCaptureCapacity c m events limit
    s.insertEventsWithPayloadCheck c m events exact

def insertEvents : OutboxStore V D × Except OutboxStoreError Nat :=
  let events := withoutLogs events
  if events.isEmpty then (s, .ok 0)
  else if s.physicalBudget.isSome ∧ 256 < events.length then
    (s, .error (.invalidRecord "capture batch exceeds 256 events"))
  else
    s.conclude c m events (fun _ => false)
      (s.admitEvents c m events (s.physicalBudget.map (·.payloadLimitBytes)) false)

/-- New capture and the hand-off of accepted events, under a limit or not. -/
def insertBoundedEvents (limit : Option Nat)
    (newCapture : Bool) : OutboxStore V D × Except OutboxStoreError Nat :=
  let limit := s.effectiveLimit limit
  let events := withoutLogs events
  if 256 < events.length then (s, .error (.invalidRecord "capture batch exceeds 256 events"))
  else if events.isEmpty then (s, .ok 0)
  else
    let s := if limit.isSome then s.ensureCaptureCapacitySchema else s
    s.conclude c m events (fun _ => newCapture) (s.admitEvents c m events limit true)

def captureEventsWithCapacity : OutboxStore V D × Except OutboxStoreError Nat :=
  s.insertBoundedEvents c m events (some limit) true

def handoffAcceptedEventsWithCapacity : OutboxStore V D × Except OutboxStoreError Nat :=
  s.insertBoundedEvents c m events (some limit) false

def handoffAcceptedEvents : OutboxStore V D × Except OutboxStoreError Nat :=
  s.insertBoundedEvents c m events none false

/-- How many of the events fit one after another, the bytes they take and the
figures of the first that does not. -/
def fittingPrefix (m : Moment) (retained limit : Nat) : Nat → List Uuid → List (CloudEvent V D) →
    Except OutboxStoreError (Nat × Nat × Option CaptureCapacity)
  | requested, _, [] => .ok (0, requested, none)
  | requested, seen, e :: rest =>
    let onward (requested : Nat) (seen : List Uuid) :=
      (fittingPrefix m retained limit requested seen rest).map fun r => (r.1 + 1, r.2)
    if e.eventId ∈ seen then onward requested seen
    else if (s.events.lookup e.eventId).isSome then onward requested (e.eventId :: seen)
    else do
      let payload ← c.encodeWithLocalCommit e (m.sizedAtUs e.eventId)
      refuseIf (localEventHardLimitBytes < payload.length)
        (OutboxStoreError.invalidRecord "accepted handoff event exceeds wire limit")
      let next := requested + payload.length
      if limit - retained < next then .ok (0, requested, some ⟨retained, next, limit, none⟩)
      else onward next (e.eventId :: seen)

def insertAccepted (accepted : Nat) : Except OutboxStoreError (OutboxStore V D × Nat) :=
  if 0 < accepted then s.insertEventsWithPayloadCheck c m (events.take accepted) true
  else .ok (s, 0)

def handoffPrefix : Except OutboxStoreError (OutboxStore V D × Nat × Option CaptureCapacity) := do
  let retained ← s.captureRetainedBytes
  let (accepted, requested, deferred) ← s.fittingPrefix c m retained limit 0 [] events
  let (s, _) ← s.insertAccepted c m events accepted
  let actual ← s.captureRetainedBytes
  refuseIf (0 < requested ∧ limit < actual)
    (OutboxStoreError.capturePaused ⟨retained, actual - retained, limit, none⟩)
  .ok (s, accepted, deferred)

/-- The longest prefix of accepted events that fits is taken over. -/
def handoffAcceptedPrefixWithCapacity :
    OutboxStore V D × Except OutboxStoreError (Nat × Option CaptureCapacity) :=
  let limit := (s.physicalBudget.map fun budget => min limit budget.payloadLimitBytes).getD limit
  if events.isEmpty then (s, .ok (0, none))
  else if 256 < events.length ∨ (events.any fun e => e.kind == .log) ∨ limit = 0 ∨
      i64MaxNat < limit then
    (s, .error (.invalidRecord "invalid accepted-work prefix bounds"))
  else
    let s := s.ensureCaptureCapacitySchema
    match s.handoffPrefix c m events limit with
    | .ok (s', answer) => (s', .ok answer)
    | .error (.capturePaused capacity) =>
      (s, (s.normalizePhysicalRefusal capacity).map fun capacity => (0, some capacity))
    | .error error => (s, .error error)

variable (e : CloudEvent V D)

def sameTelemetry (row : OutboxRow V D) : Bool :=
  let saved := row.payload.event
  row.state == .pending && saved.priority == .telemetry && saved.scope == e.scope &&
    saved.entityId == e.entityId

def revisionColumn : Int := e.entityRevision.toInt64.toInt

def staleTelemetry : Bool :=
  match s.events.entries.filter fun row => sameTelemetry e row.2 with
  | [] => decide (revisionColumn e ≤ -1)
  | rows => rows.any fun row => decide (revisionColumn e ≤ revisionColumn row.2.payload.event)

def dropOlderTelemetry : OutboxStore V D :=
  ((s.events.entries.filter fun row =>
      sameTelemetry e row.2 && decide (revisionColumn row.2.payload.event < revisionColumn e)).map
    (·.1)).foldl deleteEvent s

/-- Telemetry of an entity takes the place of the older one. -/
def insertTelemetryLatest (limit : Option Nat) : OutboxStore V D × Except OutboxStoreError Unit :=
  let s := if limit.isSome then s.ensureCaptureCapacitySchema else s
  let limit := s.effectiveLimit limit
  if e.kind = .log then (s, .ok ())
  else
    s.conclude c m [e] (fun _ => true) (if s.staleTelemetry e then .ok (s, ())
      else ((s.dropOlderTelemetry e).admitEvents c m [e] limit false).map fun r => (r.1, ()))

end

variable (m : Moment)

/-- A change of rows is kept when the files stay within their limit. -/
def commitBoundedMetadata (changed : OutboxStore V D) :
    OutboxStore V D × Except OutboxStoreError Unit :=
  match changed.checkOperationalPhysical m with
  | .error error => (s, .error error)
  | .ok () => (changed, .ok ())

/-- Rows are marked as committed remotely, and the cursor of the first one's
scope moves on. -/
def markRemoteCommitted (ids : List Uuid) (through : Option UInt64) :
    OutboxStore V D × Except OutboxStoreError Unit :=
  if ids.isEmpty then (s, .ok ())
  else if s.physicalBudget.isSome ∧ 256 < ids.length then
    (s, .error (.invalidRecord "cloud commit receipt exceeds its batch bound"))
  else
    let marked := ids.foldl (fun s id => s.updateEvent id fun row =>
      { row with state := .committed, remoteCommittedAtUs := some m.nowUs, lastError := none }) s
    let marked :=
      match through, ids.head?.bind marked.events.lookup with
      | some through, some row =>
        let scope := row.payload.event.scope
        let value := through.toInt64.toInt
        let next := max ((marked.syncCursors.lookup scope).getD value) value
        { marked with syncCursors := marked.syncCursors.insert scope next }
      | _, _ => marked
    s.commitBoundedMetadata m marked

def scheduleRetry (ids : List Uuid) (delaySeconds : Nat) (error : String) :
    OutboxStore V D × Except OutboxStoreError Unit :=
  if s.physicalBudget.isSome ∧ (256 < ids.length ∨ 4096 < error.utf8ByteSize) then
    (s, .error (.invalidRecord "cloud retry metadata exceeds its bound"))
  else
    let retried := ids.foldl (fun s id => s.updateEvent id fun row =>
      if row.state = .pending then
        { row with
          attemptCount := row.attemptCount + 1
          nextAttemptAtUs := m.nowUs + delaySeconds * 1000000
          lastError := some error }
      else row) s
    s.commitBoundedMetadata m retried

def moveToDeadLetter (id : Uuid) (reason : String) :
    OutboxStore V D × Except OutboxStoreError Unit :=
  let moved :=
    match s.events.lookup id with
    | none => s
    | some row =>
      (s.putDeadLetter id ⟨row.payload.event.strategyId, reason, row.payload, m.nowUs⟩).updateEvent
        id fun row => { row with state := .deadLetter, lastError := some reason }
  s.commitBoundedMetadata m moved

/-- A committed row from before the cutoff whose fact, if it has one, was
delivered. -/
def prunable (cutoffUs : Int) (id : Uuid) : Bool :=
  (s.events.lookup id).any (fun row =>
    row.state == .committed && row.remoteCommittedAtUs.any (fun at_ => decide (at_ < cutoffUs))) &&
  s.safety.entries.all fun fact => fact.2.observation.eventId != id || fact.2.delivered

def prunableFact (cutoffUs : Int) (fact : SafetyRow D) : Bool :=
  fact.delivered && ((s.events.lookup fact.observation.eventId).any (fun row =>
        row.state == .committed &&
          row.remoteCommittedAtUs.any (fun at_ => decide (at_ < cutoffUs))) ||
      (!fact.fullEvidenceRequired && decide (fact.updatedAtUs < cutoffUs)))

/-- At most 256 rows of each kind go; which of them, the store chooses. -/
def pruneCommitted (retentionUs : Int) (facts : List SafetyKey) (ids : List Uuid) :
    OutboxStore V D × Except OutboxStoreError Unit :=
  let cutoff := m.nowUs - max retentionUs 0
  let swept := { s with safety := s.safety.retain fun key =>
    !(facts.contains key && (s.safety.lookup key).any (s.prunableFact cutoff)) }
  let pruned := ((ids.filter (swept.prunable cutoff)).take 256).foldl deleteEvent swept
  s.commitBoundedMetadata m pruned

/-! What opening a store does with the rows it finds. -/

def discardTerminalLogEvents : OutboxStore V D :=
  ((s.events.entries.filter fun row => row.2.payload.event.kind.asStr == "log").map (·.1)).foldl
    deleteEvent s

def mentions (text part : String) : Bool :=
  text.toLower.toList.tails.any fun rest => part.toList.isPrefixOf rest

def isRetryable (reason : String) : Bool :=
  ["transaction conflict", "resource busy", "database is locked",
    "this transaction can be retried"].any (mentions reason)

def requeueRetryableDeadLetters (nowUs : Int) : OutboxStore V D :=
  ((s.events.entries.filter fun row =>
      row.2.state == .deadLetter && row.2.payload.event.priority != .reconciliation &&
        (s.deadLetters.lookup row.1).any fun letter => isRetryable letter.reason).map
    (·.1)).foldl (fun s id => s.updateEvent id fun row =>
      { row with
        state := .pending
        attemptCount := 0
        nextAttemptAtUs := nowUs
        lastError := none }) s

def dropRequeuedDeadLetters : OutboxStore V D :=
  ((s.deadLetters.entries.filter fun letter => isRetryable letter.2.reason &&
      (s.events.lookup letter.1).any fun row =>
        row.state == .pending && row.payload.event.priority != .reconciliation).map
    (·.1)).foldl deleteDeadLetter s

def resetPendingContentionBackoff (nowUs : Int) : OutboxStore V D :=
  ((s.events.entries.filter fun row =>
      row.2.state == .pending && row.2.payload.event.priority != .reconciliation &&
        row.2.lastError.any isRetryable).map
    (·.1)).foldl (fun s id => s.updateEvent id fun row =>
      { row with
        attemptCount := 0
        nextAttemptAtUs := nowUs
        lastError := none }) s

end OutboxStore

end AqEngine.LiveSync
