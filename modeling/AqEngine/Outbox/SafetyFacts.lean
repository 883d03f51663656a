import AqEngine.Outbox.Types

namespace AqEngine.LiveSync

open Lib Fallible

def safetyObservationVersion : UInt16 := 1

def maxSafetyObservationBytes : Nat := 8192

/-- One lifecycle and 256 stop actions. -/
def maxSafetyEntitiesPerRun : Nat := 257

namespace SafetyObservation

variable {V D : Type} (c : EventCodec V D) (o : SafetyObservation D)

def malformed : Bool :=
  o.version != safetyObservationVersion || o.revision == 0 ||
    decide (i64MaxNat < o.revision.toNat) ||
    [o.strategyId, o.liveSessionId, o.runtimeId, o.runId].any
      (fun id => id.isEmpty || decide (128 < id.utf8ByteSize)) ||
    o.message.any (fun m => decide (1024 < m.length))

/-- The states of a stop and of an action that asks for one. -/
def supported : Bool :=
  match o.kind with
  | .lifecycle => o.actionId.isNone && ["stopping", "stopped", "failed"].contains o.state
  | .action =>
    ["acknowledged", "processing", "completed", "failed"].contains o.state &&
      o.actionId.any (fun id =>
        "strategy_actions:".toList.isPrefixOf id.toList && decide (id.utf8ByteSize ≤ 256))

def validate : Except String Unit := do
  refuseIf o.malformed "invalid safety observation"
  refuseIf (!o.supported) "unsupported safety capability"
  match c.safetyLen o with
  | none => .error "invalid safety encoding"
  | some length => refuseIf (maxSafetyObservationBytes < length) "safety observation too large"

def entityKey : String := o.actionId.getD "lifecycle"

def terminal : Bool := o.state == "stopped" || o.state == "completed" || o.state == "failed"

def stateRank : Nat :=
  if o.terminal then 3 else if o.state == "processing" then 2 else 1

def sameRun (other : SafetyObservation D) : Bool :=
  o.runtimeId == other.runtimeId && o.strategyId == other.strategyId &&
    o.liveSessionId == other.liveSessionId && o.runId == other.runId

/-- A terminal stop dominates a later retry; otherwise a later revision that
does not go back dominates an earlier one. -/
def covers [DecidableEq D] (o other : SafetyObservation D) : Bool :=
  o.sameRun other && o.entityKey == other.entityKey && (o == other ||
      (o.eventId != other.eventId && ((o.terminal && !other.terminal) ||
          (decide (other.revision < o.revision) && decide (other.stateRank ≤ o.stateRank) &&
            (!other.terminal || o.state == other.state)))))

def reported (e : CloudEvent V D) : Option (SafetyKind × String × Option String) :=
  match e.kind with
  | .strategyLifecycle => do
    let state ← (← c.field e.payload "state")
    some (SafetyKind.lifecycle, state.toLower, none)
  | .strategyActionAcknowledgement => do
    guard (c.field e.payload "action" = some (some "stop"))
    let status ← (← c.field e.payload "status")
    let actionId ← (← c.field e.payload "action_id")
    some (SafetyKind.action, status, some actionId)
  | _ => none

def fromEvent (e : CloudEvent V D) : Option (SafetyObservation D) := do
  guard (e.priority = .critical)
  let (kind, state, actionId) ← reported c e
  let runId ← e.runId
  let o : SafetyObservation D :=
    { version := safetyObservationVersion
      strategyId := e.strategyId
      liveSessionId := e.liveSessionId
      runtimeId := e.runtimeId
      runId := runId
      eventId := e.eventId
      revision := e.entityRevision
      createdAt := e.createdAt
      kind := kind
      state := state
      actionId := actionId
      message :=
        (((c.field e.payload "message").or (c.field e.payload "reason")).bind id).map fun text =>
          String.ofList (text.toList.take 1024) }
  guard ((o.validate c).isOk)
  some o

end SafetyObservation

/-- One retained fact for each entity of a run. -/
structure SafetyKey where
  scope : Scope
  (runId entityKey : String)
  deriving DecidableEq

structure SafetyRow (D : Type) where
  observation : SafetyObservation D
  delivered : Bool
  nextAttemptAtUs : Int
  fullEvidenceRequired : Bool
  updatedAtUs : Int
  deriving DecidableEq

abbrev SafetyTable (D : Type) := Table SafetyKey (SafetyRow D)

def SafetyObservation.key {D : Type} (o : SafetyObservation D) : SafetyKey :=
  ⟨⟨o.runtimeId, o.strategyId, o.liveSessionId⟩, o.runId, o.entityKey⟩

namespace SafetyTable

variable {V D : Type} [DecidableEq D] (c : EventCodec V D) (t : SafetyTable D)

/-- The rows that a new fact takes the place of. -/
def yields (row : SafetyRow D) (o : SafetyObservation D) : Bool :=
  (row.observation.eventId == o.eventId && row.observation == o) ||
    (!row.observation.terminal && decide (row.observation.revision < o.revision) &&
      decide (row.observation.stateRank ≤ o.stateRank))

/-- The row of an entity after a fact was recorded. Its delivery starts anew
unless it is the same event. -/
def upserted (row : SafetyRow D) (o : SafetyObservation D) (fullEvidence : Bool) (nowUs : Int) :
    SafetyRow D :=
  if !yields row o then row
  else if row.observation.eventId = o.eventId then
    { row with
      observation := o
      fullEvidenceRequired := row.fullEvidenceRequired || fullEvidence
      updatedAtUs := nowUs }
  else ⟨o, false, 0, fullEvidence, nowUs⟩

variable (o : SafetyObservation D)

def upsert (fullEvidence : Bool) (nowUs : Int) : SafetyTable D :=
  t.insert o.key (match t.lookup o.key with
      | none => ⟨o, false, 0, fullEvidence, nowUs⟩
      | some row => upserted row o fullEvidence nowUs)

/-- The identity of the event stands for another fact. -/
def reused : Bool :=
  t.entries.any fun row => row.2.observation.eventId == o.eventId && row.2.observation != o

def orInvalidRecord {α : Type} : Except String α → Except OutboxStoreError α
  | .ok a => .ok a
  | .error message => .error (.invalidRecord message)

def recordSafetyObservationLocked (fullEvidence : Bool) (nowUs : Int) :
    Except OutboxStoreError (SafetyTable D × SafetyObservation D) := do
  orInvalidRecord (o.validate c)
  refuseIf (reused t o)
    (OutboxStoreError.invalidRecord "safety event identity was reused for a different fact")
  let t := upsert t o fullEvidence nowUs
  match t.lookup o.key with
  | none => .error (.database "safety write missing")
  | some row => .ok (t, row.observation)

def recordSafetyInTransaction (e : CloudEvent V D) (nowUs : Int) :
    Except OutboxStoreError (SafetyTable D) :=
  match SafetyObservation.fromEvent c e with
  | none => .ok t
  | some o => do
    let (t, _) ← recordSafetyObservationLocked c t o true nowUs
    .ok t

variable (first : SafetyObservation D)

def entitiesOfRun : List String :=
  (t.keys.filter fun key => key.scope == first.key.scope && key.runId == first.runId).map
    (·.entityKey)

variable (batch : List (SafetyObservation D))

def entitiesWith : List String :=
  (entitiesOfRun t first ++ batch.map (·.entityKey)).dedup

def checkBatch : Except OutboxStoreError Unit :=
  batch.forM fun o => do
    orInvalidRecord (o.validate c)
    refuseIf (!o.sameRun first)
      (OutboxStoreError.invalidRecord "safety batch crosses run ownership")

def recordEach (nowUs : Int) : SafetyTable D → List (SafetyObservation D) →
    Except OutboxStoreError (SafetyTable D × List (SafetyObservation D))
  | t, [] => .ok (t, [])
  | t, o :: rest => do
    let (t, stored) ← recordSafetyObservationLocked c t o false nowUs
    refuseIf (!stored.covers o)
      (OutboxStoreError.invalidRecord "safety fact conflicts with retained terminal state")
    let (t, receipts) ← recordEach nowUs t rest
    .ok (t, stored :: receipts)

def recordBody (nowUs : Int) :
    Except OutboxStoreError (SafetyTable D × List (SafetyObservation D)) := do
  refuseIf (maxSafetyEntitiesPerRun < batch.length)
    (OutboxStoreError.invalidRecord "safety batch exceeds reserved headroom")
  checkBatch c first batch
  let entities := entitiesWith t first batch
  refuseIf (maxSafetyEntitiesPerRun < entities.length ∨
      256 < (entities.filter (· != "lifecycle")).length)
    (OutboxStoreError.invalidRecord "stop-action headroom exhausted")
  recordEach c nowUs t batch

def recordSafetyOnly (nowUs : Int) :
    SafetyTable D × Except OutboxStoreError (List (SafetyObservation D)) :=
  match batch with
  | [] => (t, .ok [])
  | first :: _ =>
    match recordBody c t first batch nowUs with
    | .error error => (t, .error error)
    | .ok (t, receipts) => (t, .ok receipts)

/-- A delivery is settled for the exact event only. -/
def settleSafetyObservation (delivered : Bool) (nowUs : Int) : SafetyTable D :=
  t.modify o.key fun row =>
    if row.observation.eventId = o.eventId then
      { row with delivered := row.delivered || delivered, nextAttemptAtUs := nowUs + 5000000 }
    else row

end SafetyTable

end AqEngine.LiveSync
