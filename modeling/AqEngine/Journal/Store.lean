import AqEngine.Journal.Batch
import AqEngine.Lib.Table

namespace AqEngine.Broker

open Lib Fallible

inductive JournalCommandState where
  | queued | dispatching | completed | applied
  deriving DecidableEq, Repr

structure CommandRow where
  sequence : Nat
  commandJson : String
  state : JournalCommandState
  queuedAtUs : Int
  dispatchedAtUs : Option Int
  completionJson : Option String
  deriving DecidableEq

structure CheckpointRow where
  revision : Nat
  checkpointJson : String
  executionEpoch : Nat
  orderId : Option String
  symbol : String
  materialized : Bool
  deriving DecidableEq

structure GraphRow where
  revision : Nat
  recoverySeed : Bool
  metadataJson : String
  deriving DecidableEq

structure CancelRecoveryAttempt where
  attemptedAtUs : Int
  (pendingEvidenceJson previousCompletionJson : String)
  resultJson : Option String
  deriving DecidableEq

inductive ExecutionPhase where
  | running | stopping | stopped
  deriving DecidableEq, Repr

structure ExecutionLifecycle where
  epoch : Nat := 1
  phase : ExecutionPhase := .running
  stopRequestedAtUs : Option Int := none
  deriving DecidableEq, Repr

structure BrokerCommandJournal where
  (strategyId accountId : String)
  lifecycle : ExecutionLifecycle := {}
  nextSequence : Nat := 1
  commands : Table BrokerCommandId CommandRow := ∅
  admission : Table BrokerCommandId Nat := ∅
  checkpoints : Table String CheckpointRow := ∅
  graph : Table String GraphRow := ∅
  attempts : Table (BrokerCommandId × Nat) CancelRecoveryAttempt := ∅

structure JournalCommandRecord where
  sequence : Nat
  command : BrokerCommand
  state : JournalCommandState
  queuedAtUs : Int
  dispatchedAtUs : Option Int
  completion : Option BrokerCommandCompletion
  deriving DecidableEq

def JournalCommandState.isComplete : JournalCommandState → Bool
  | .completed | .applied => true
  | .queued | .dispatching => false

/-- The journal after an operation, and the answer to its caller. -/
abbrev JournalResult (α : Type) := BrokerCommandJournal × Except BrokerCommandError α

namespace BrokerCommandJournal

variable (e : Encoding) (j : BrokerCommandJournal)

def ofCommands (commands : Table BrokerCommandId CommandRow) : BrokerCommandJournal :=
  { j with commands := commands }

def parseStored (json : Option String) :
    Except BrokerCommandError (Option BrokerCommandCompletion) :=
  match json with
  | none => .ok none
  | some json => do
    let completion ← orJournal (e.parseCompletion json)
    .ok (some completion)

def decode (row : CommandRow) : Except BrokerCommandError JournalCommandRecord := do
  let command ← orJournal (e.parseCommand row.commandJson)
  command.validate e
  let completion ← parseStored e row.completionJson
  refuseIf (row.state.isComplete ≠ completion.isSome)
    (journalError "inconsistent journal completion")
  .ok ⟨row.sequence, command, row.state, row.queuedAtUs, row.dispatchedAtUs, completion⟩

variable (id : BrokerCommandId)

def get : Except BrokerCommandError (Option JournalCommandRecord) :=
  match j.commands.lookup id with
  | none => .ok none
  | some row => do
    let record ← decode e row
    .ok (some record)

def require (missing : BrokerCommandError) : Except BrokerCommandError JournalCommandRecord := do
  match ← get e j id with
  | none => .error missing
  | some record => .ok record

def inScope (c : BrokerCommand) : Bool := c.strategyId == j.strategyId && c.accountId == j.accountId

def queuedRow (json : String) (atUs : Int) : CommandRow :=
  ⟨j.nextSequence, json, .queued, atUs, none, none⟩

def insertQueued (json : String) (atUs : Int) : BrokerCommandJournal :=
  { j with
    commands := j.commands.insert id (j.queuedRow json atUs)
    nextSequence := j.nextSequence + 1 }

def prepare (c : BrokerCommand) (queuedAtUs : Int) : JournalResult JournalCommandRecord :=
  if !j.inScope c then (j, .error (journalError "command does not match journal scope"))
  else match c.encode e with
  | .error error => (j, .error error)
  | .ok json =>
    match j.commands.lookup c.id with
    | none =>
      (j.insertQueued c.id json queuedAtUs,
        .ok ⟨j.nextSequence, c, .queued, queuedAtUs, none, none⟩)
    | some _ =>
      -- An identical retry returns the durable disposition.
      (j, do
        let record ← require e j c.id (journalError "prepared intent not found")
        refuseIf (record.command ≠ c) BrokerCommandError.identityConflict
        .ok record)

/-- One update of a command's row; `error` when no row is changed. -/
def updateCommand (f : CommandRow → Option CommandRow)
    (error : BrokerCommandError) : JournalResult Unit :=
  match j.commands.update id f with
  | none => (j, .error error)
  | some commands => (j.ofCommands commands, .ok ())

def dispatched (atUs : Int) (row : CommandRow) : Option CommandRow :=
  if row.state = .queued then
    some { row with state := .dispatching, dispatchedAtUs := some atUs }
  else none

def markDispatched (atUs : Int) : JournalResult Unit :=
  j.updateCommand id (dispatched atUs) (journalError "dispatch requires a queued durable intent")

def deferred (atUs : Int) (row : CommandRow) : Option CommandRow :=
  if row.state = .dispatching ∧ row.dispatchedAtUs = some atUs ∧ row.completionJson = none then
    some { row with state := .queued, dispatchedAtUs := none }
  else none

def deferUnpolledDispatch (atUs : Int) : JournalResult Unit :=
  j.updateCommand id (deferred atUs) (journalError "deferral lost unpolled dispatch ownership")

variable (c : BrokerCommandCompletion)

def cancelledWithoutDispatch : Bool :=
  c.outcome == .cancelledBeforeDispatch && c.dispatchedAtUs.isNone

def completed (c : BrokerCommandCompletion) (row : CommandRow) : Option CommandRow :=
  if row.state = .queued ∨ row.state = .dispatching then
    some { row with
      state := .completed
      completionJson := some (e.completionText c)
      dispatchedAtUs := c.dispatchedAtUs }
  else none

def completing : Except BrokerCommandError JournalCommandRecord := do
  let record ← require e j c.receipt.id (journalError "completion without intent")
  refuseIf (record.command.receipt ≠ c.receipt ∨ record.queuedAtUs ≠ c.queuedAtUs ∨
      (record.dispatchedAtUs ≠ c.dispatchedAtUs ∧ cancelledWithoutDispatch c = false))
    BrokerCommandError.identityConflict
  .ok record

def complete : JournalResult Unit :=
  match completing e j c with
  | .error error => (j, .error error)
  | .ok record =>
    match record.completion with
    | some existing =>
      (j, if e.completionText existing = e.completionText c then .ok ()
        else .error .identityConflict)
    | none =>
      j.updateCommand c.receipt.id (completed e c)
        (journalError "completion lost journal ownership")

def replaced (before after : String) (row : CommandRow) : Option CommandRow :=
  if row.state = .completed ∧ row.completionJson = some before then
    some { row with completionJson := some after }
  else none

def replaceCompletion (before after : BrokerCommandCompletion) :
    JournalResult BrokerCommandCompletion :=
  let r := j.updateCommand id (replaced (e.completionText before) (e.completionText after))
    .identityConflict
  (r.1, r.2.map fun _ => after)

variable (expected : BrokerCommand)

def confirming (order : Order) : Except BrokerCommandError JournalCommandRecord := do
  let record ← require e j expected.id .identityConflict
  match expected.action with
  | .submit request =>
    refuseIf (record.command ≠ expected ∨ j.inScope expected = false ∨ isBlank order.orderId ∨
        order.insightId ≠ some request.insightId ∨ order.asset.symbol ≠ request.symbol ∨
        order.side ≠ request.side)
      BrokerCommandError.identityConflict
    .ok record
  | _ => .error .identityConflict

def answeredBy (order : Order) (c : BrokerCommandCompletion) : Bool :=
  match c.outcome with
  | .orderResponse saved => e.orderText saved == e.orderText order
  | _ => false

def confirmed (order : Order) (nowUs : Int) :
    BrokerCommandCompletion :=
  { c with completedAtUs := max nowUs c.completedAtUs, outcome := .orderResponse order }

def confirmAmbiguousSubmission (order : Order) (nowUs : Int) :
    JournalResult BrokerCommandCompletion :=
  match confirming e j expected order with
  | .error error => (j, .error error)
  | .ok record =>
    match record.completion with
    | none => (j, .error .identityConflict)
    | some existing =>
      if answeredBy e order existing then (j, .ok existing)
      else if record.state ≠ .completed ∨ existing.outcome.isAmbiguous = false then
        (j, .error .identityConflict)
      else j.replaceCompletion e expected.id existing (confirmed existing order nowUs)

def lastAttempt : Nat := ((j.attempts.keys.filter (·.1 = id)).map (·.2)).foldr max 0

def retrying (proof : OrderLifecycleSnapshot) : Except BrokerCommandError JournalCommandRecord := do
  let record ← require e j expected.id .identityConflict
  match expected.action with
  | .cancel orderId =>
    refuseIf (record.command ≠ expected ∨ j.inScope expected = false ∨ orderId.isEmpty ∨
        proof.orderId ≠ orderId ∨ proof.status ≠ .pending ∨ proof.positionId.isSome ∨
        proof.positionQty.isSome ∨ proof.symbol.all isBlank)
      BrokerCommandError.identityConflict
    .ok record
  | _ => .error .identityConflict

def beginCancellationRecovery (proof : OrderLifecycleSnapshot)
    (atUs : Int) : JournalResult (Option Nat) :=
  match retrying e j expected proof with
  | .error error => (j, .error error)
  | .ok record =>
    if record.state = .applied then (j, .ok none)
    else match record.completion with
    | none => (j, .error .identityConflict)
    | some old =>
      if record.state ≠ .completed ∨ old.outcome.isAmbiguous = false then (j, .ok none)
      else
        let attempt := j.lastAttempt expected.id + 1
        let row := ⟨atUs, e.snapshotText proof, e.completionText old, none⟩
        ({ j with attempts := j.attempts.insert (expected.id, attempt) row }, .ok (some attempt))

def finishing (result : BrokerCommandCompletion) :
    Except BrokerCommandError JournalCommandRecord := do
  let record ← require e j expected.id .identityConflict
  refuseIf (record.command ≠ expected ∨ ¬ (expected.action matches .cancel _) ∨
      j.inScope expected = false ∨ result.receipt ≠ expected.receipt ∨
      result.queuedAtUs ≠ record.queuedAtUs ∨ result.dispatchedAtUs ≠ record.dispatchedAtUs)
    BrokerCommandError.identityConflict
  .ok record

/-- A native terminal event may have settled the command while the retry was
waiting; its result is then never overwritten. -/
def settleCancellation (record : JournalCommandRecord)
    (result : BrokerCommandCompletion) : JournalResult (Option BrokerCommandCompletion) :=
  if record.state = .applied then (j, .ok none)
  else match record.completion with
  | none => (j, .error .identityConflict)
  | some old =>
    if record.state ≠ .completed ∨ old.outcome.isAmbiguous = false then
      (j, .error .identityConflict)
    else if result.outcome ≠ .acknowledged then (j, .ok (some old))
    else
      let r := j.replaceCompletion e expected.id old result
      (r.1, r.2.map some)

def answered (result : String) (attempt : CancelRecoveryAttempt) : Option CancelRecoveryAttempt :=
  if attempt.resultJson = none then some { attempt with resultJson := some result } else none

def finishCancellationRecovery (attempt : Nat)
    (result : BrokerCommandCompletion) : JournalResult (Option BrokerCommandCompletion) :=
  match finishing e j expected result with
  | .error error => (j, .error error)
  | .ok record =>
    match j.attempts.update (expected.id, attempt) (answered (e.completionText result)) with
    | none => (j, .error .identityConflict)
    | some attempts => settleCancellation e { j with attempts := attempts } expected record result

/-- The command's row of an intent. An identical replay never resets it. -/
def insertIntent (intent : EncodedIntent) : Except BrokerCommandError BrokerCommandJournal :=
  match j.commands.lookup intent.command.id with
  | none => .ok (j.insertQueued intent.command.id intent.json intent.queuedAtUs)
  | some row => do
    let existing ← orJournal (e.parseCommand row.commandJson)
    refuseIf (existing ≠ intent.command) BrokerCommandError.identityConflict
    .ok j

def admitIntent (intent : EncodedIntent) : Except BrokerCommandError BrokerCommandJournal :=
  match j.admission.lookup intent.command.id with
  | some order => do
    refuseIf (order ≠ intent.admissionOrder) BrokerCommandError.identityConflict
    insertIntent e j intent
  | none => do
    -- The orders are unique in their table.
    refuseIf (j.admission.entries.any (fun row => row.2 == intent.admissionOrder))
      (journalError "UNIQUE constraint failed: broker_command_admission.admission_order")
    insertIntent e
      { j with admission := j.admission.insert intent.command.id intent.admissionOrder } intent

/-- The epoch of a row is the one in which it was first materialized. -/
def checkpointRow (c : EncodedCheckpoint) : CheckpointRow where
  revision := c.revision
  checkpointJson := c.json
  executionEpoch :=
    let saved := (j.checkpoints.lookup c.id).elim 0 (·.executionEpoch)
    if 0 < saved then saved else if c.materialized then j.lifecycle.epoch else 0
  orderId := c.orderId
  symbol := c.symbol
  materialized := c.materialized

def isSaved (c : EncodedCheckpoint) : Bool :=
  (j.checkpoints.lookup c.id).any fun row =>
    row.revision == c.revision && row.checkpointJson == c.json

def saveCheckpoint (c : EncodedCheckpoint) : Except BrokerCommandError BrokerCommandJournal :=
  if j.isSaved c then .ok j
  else if (j.checkpoints.lookup c.id).elim 0 (·.revision) + 1 ≠ c.revision then
    .error (journalError "stale/conflicting execution checkpoint revision")
  else .ok { j with
    checkpoints := j.checkpoints.insert c.id (j.checkpointRow c)
    graph := j.graph.insert c.id ⟨c.revision, c.recoverySeed, c.metadataJson⟩ }

variable (rows : List EncodedCheckpoint) (receipt : BrokerCommandReceipt)

/-- The row saved with the batch shows that the broker has settled the
order of an uncertain command. -/
def terminalSettlement (action : BrokerCommandAction) : Except BrokerCommandError Bool :=
  match rows.find? (fun row => row.id == receipt.insightId) with
  | none => .ok false
  | some row => do
    let saved ← orJournal (e.parseCheckpoint row.json)
    .ok (action.settledByTerminal saved.orderId saved.state)

def markApplied (row : CommandRow) : Option CommandRow :=
  if row.state = .completed then some { row with state := .applied } else none

def settles (record : JournalCommandRecord) : Except BrokerCommandError Unit :=
  match record.completion with
  | none => .error (journalError "unresolved broker command cannot be marked applied")
  | some completion =>
    if completion.outcome.isAmbiguous then do
      let settled ← terminalSettlement e rows receipt record.command.action
      refuseIf (settled = false)
        (journalError "unresolved broker command cannot be marked applied")
    else .ok ()

def applyReceipt : Except BrokerCommandError BrokerCommandJournal := do
  let record ← require e j receipt.id (journalError "cannot apply an unknown command")
  refuseIf (record.command.receipt ≠ receipt) BrokerCommandError.identityConflict
  settles e rows receipt record
  -- A receipt that is applied already leaves its row as it is.
  .ok (((j.commands.update receipt.id markApplied).map j.ofCommands).getD j)

def persistBody (batch : ExecutionCheckpointBatch) :
    Except BrokerCommandError BrokerCommandJournal := do
  let j ← batch.intents.foldlM (admitIntent e) j
  let j ← batch.rows.foldlM saveCheckpoint j
  batch.applied.foldlM (fun j receipt => applyReceipt e j batch.rows receipt) j

/-- All of a batch is committed, or none of it. -/
def persistExecutionBatch (batch : ExecutionCheckpointBatch) : JournalResult Unit :=
  if !batch.intents.all (fun intent => j.inScope intent.command) then
    (j, .error (journalError "checkpoint intent does not match journal scope"))
  else match persistBody e j batch with
  | .error error => (j, .error error)
  | .ok saved => (saved, .ok ())

end BrokerCommandJournal

end AqEngine.Broker
