import AqEngine.Insights.State
import AqEngine.Lib.Fallible

namespace AqEngine.Broker

open Lib

inductive OrderLifecycleStatus where
  | pending | filled | positionOpen | closed | cancelled | rejected | expired | unknown
  deriving DecidableEq, Repr

structure OrderLifecycleSnapshot where
  orderId : String
  status : OrderLifecycleStatus
  positionId : Option String
  positionQty : Option F64
  (symbol detail : Option String)
  deriving DecidableEq

end AqEngine.Broker

namespace AqEngine.Insights

open Lib Broker

inductive InsightPipeDeferral where
  | brokerCommand (receipt : BrokerCommandReceipt)
  | brokerOperationGroup (group : BrokerOperationGroup)
  | brokerQueueCapacity | accountSnapshot | positionSnapshot
  | quoteSnapshot (symbol : String)
  deriving DecidableEq, Repr

/-- The place at which a composite pipe was left, and that of the composite
inside it if there is one. -/
inductive PipeContinuationCheckpoint where
  | innermost (state : InsightState) (index : Nat)
  | outer (state : InsightState) (index : Nat) (nested : PipeContinuationCheckpoint)
  deriving DecidableEq, Repr

structure InsightPipelineCheckpoint where
  state : InsightState
  index : Nat
  dependency : InsightPipeDeferral
  layout : List String
  nested : Option PipeContinuationCheckpoint
  deriving DecidableEq, Repr

/-- The private component data of an insight: encoded values by key. -/
abbrev ExecutionData := List (String × String)

/-- The saved execution state of one insight. Its children are named by
their ids and saved in rows of their own. -/
structure InsightExecutionCheckpoint where
  (version revision : Nat)
  materialized : Bool
  ownerReceipts : List BrokerCommandReceipt
  sourceFingerprint : Nat
  childIds : List Uuid
  pipeline : Option InsightPipelineCheckpoint
  parentId : Option Uuid
  isSplitInsight : Bool
  contracts : Option F64
  executionData : ExecutionData
  insight : Insight
  deriving DecidableEq

structure InsightRecoveryMetadata where
  id : Uuid
  revision : Nat
  parent : Option Uuid
  children : List Uuid
  (materialized recoverySeed : Bool)
  dependencies : List Uuid
  deriving DecidableEq

end AqEngine.Insights

namespace AqEngine.Broker

open Lib Fallible Insights

/-- The text formats of the journal's columns and the name-based identity of
an entry, as the serialisation and identifier libraries compute them. -/
structure Encoding where
  entryId : String → String → String → String
  commandText : BrokerCommand → String
  parseCommand : String → Except String BrokerCommand
  completionText : BrokerCommandCompletion → String
  parseCompletion : String → Except String BrokerCommandCompletion
  orderText : Order → String
  snapshotText : OrderLifecycleSnapshot → String
  receiptsText : List BrokerCommandReceipt → String
  checkpointText : InsightExecutionCheckpoint → String
  parseCheckpoint : String → Except String InsightExecutionCheckpoint
  metadataText : InsightRecoveryMetadata → String
  parseMetadata : String → Except String InsightRecoveryMetadata
  parseIds : String → Except String (List Uuid)
  parseValue : String → Except String Unit
  /-- The tag of an outcome is written as it is and read back as it is. -/
  parse_isAmbiguous : ∀ {c c'}, parseCompletion (completionText c) = .ok c' →
    c'.outcome.isAmbiguous = c.outcome.isAmbiguous

namespace Encoding

/-- The text of a known value is its position written in strokes. -/
def strokes (n : Nat) : String := String.ofList (List.replicate n '|')

def nameOf {α : Type} [DecidableEq α] (known : List α) (a : α) : String := strokes (known.idxOf a)

def valueOf {α : Type} (known : List α) (text : String) : Except String α :=
  match known[text.length]? with
  | some a => .ok a
  | none => .error "expected value"

theorem valueOf_nameOf {α : Type} [DecidableEq α] {known : List α} {a b : α}
    (h : valueOf known (nameOf known a) = .ok b) : b = a := by
  have hl : (nameOf known a).length = known.idxOf a := by simp [nameOf, strokes]
  unfold valueOf at h
  rw [hl] at h
  split at h
  · next found =>
    cases h
    obtain ⟨hlt, heq⟩ := List.getElem?_eq_some_iff.1 found
    rw [List.getElem_idxOf] at heq
    exact heq.symm
  · cases h

def ofSamples (entry : String) (commands : List BrokerCommand)
    (completions : List BrokerCommandCompletion) (rows : List InsightExecutionCheckpoint)
    (metadata : List InsightRecoveryMetadata) : Encoding where
  entryId _ _ _ := entry
  commandText := nameOf commands
  parseCommand := valueOf commands
  completionText := nameOf completions
  parseCompletion := valueOf completions
  orderText order := order.orderId
  snapshotText snapshot := snapshot.orderId
  receiptsText receipts := strokes receipts.length
  checkpointText := nameOf rows
  parseCheckpoint := valueOf rows
  metadataText := nameOf metadata
  parseMetadata := valueOf metadata
  parseIds _ := .ok []
  parseValue _ := .ok ()
  parse_isAmbiguous h := by rw [valueOf_nameOf h]

end Encoding

def journalError (reason : String) : BrokerCommandError := .journal reason

def invalidError (reason : String) : BrokerCommandError := .invalid (.text reason)

def orJournal {α : Type} : Except String α → Except BrokerCommandError α
  | .ok a => .ok a
  | .error reason => .error (journalError reason)

theorem orJournal_eq_ok {α : Type} {x : Except String α} {a : α} :
    orJournal x = .ok a ↔ x = .ok a := by
  cases x <;> simp [orJournal]

def brokerCommandVersion : Nat := 1

def maxBrokerCommandBytes : Nat := 16 * 1024

def positive (v : F64) : Bool := v.isFinite && decide (0 < v)

namespace BrokerCommand

variable (e : Encoding)

def requestTooLarge (r : BrokerOrderRequest) : Bool :=
  decide (512 < r.clientOrderId.utf8ByteSize) || decide (512 < r.strategyType.utf8ByteSize) ||
    decide (128 < r.symbol.utf8ByteSize) ||
    r.takeProfitLevels.any (fun levels => decide (256 < levels.length)) ||
    r.stopLossLevels.any (fun levels => decide (256 < levels.length))

def validRequest (insightId : String) (r : BrokerOrderRequest) : Bool :=
  r.insightId == insightId && !isBlank r.clientOrderId && !isBlank r.symbol &&
    r.quantity.any positive &&
    ([r.limitPrice, r.stopPrice, r.trailingStopPrice].filterMap
      (fun price => price)).all positive &&
    (r.takeProfitLevels.getD [] ++ r.stopLossLevels.getD []).all positive

def validAction (insightId : String) : BrokerCommandAction → Bool
  | .submit request => validRequest insightId request
  | .cancel _ => true
  | .amendEntry _ limitPrice stopPrice =>
    (limitPrice.isSome || stopPrice.isSome) && limitPrice.all positive && stopPrice.all positive
  | .close _ quantity price => positive quantity && price.all positive
  | .replace _ price quantity => positive quantity && positive price
  | .takeProfit _ price quantity => positive quantity && positive price
  | .stopLoss _ price quantity => positive quantity && positive price

/-- The checks that only an entry has: its sizes, and an identity that is
derived from its scope and the client's order id. -/
def validateEntry (c : BrokerCommand) : Except BrokerCommandError Unit :=
  match c.action with
  | .submit request =>
    if requestTooLarge request then .error .tooLarge
    else if c.id.value ≠ e.entryId c.strategyId c.accountId request.clientOrderId then
      .error (invalidError "submit command identity must be stable")
    else .ok ()
  | _ => .ok ()

def validate (c : BrokerCommand) : Except BrokerCommandError Unit := do
  refuseIf (c.version ≠ brokerCommandVersion) (invalidError "unsupported command version")
  refuseIf ([c.id.value, c.strategyId, c.accountId, c.insightId].any
      (fun value => value.isEmpty || !isTrimmed value || decide (512 < value.utf8ByteSize)))
    (invalidError "invalid command identity")
  refuseIf (c.group.any (fun g => isBlank g.id || decide (512 < g.id.utf8ByteSize)))
    (invalidError "invalid operation group")
  refuseIf (c.dispatchConstraints.maxTotalSymbolQuantity.any (!positive ·) ||
      (c.dispatchConstraints.maxTotalSymbolQuantity.isSome && !c.action.isEntry))
    (invalidError "invalid dispatch quantity constraint")
  validateEntry e c
  refuseIf (!validAction c.insightId c.action ||
      c.action.orderId.any (fun id => isBlank id || decide (512 < id.utf8ByteSize)))
    (invalidError "invalid broker command payload")

def encode (c : BrokerCommand) : Except BrokerCommandError String := do
  validate e c
  refuseIf (maxBrokerCommandBytes < (e.commandText c).utf8ByteSize) BrokerCommandError.tooLarge
  .ok (e.commandText c)

end BrokerCommand

end AqEngine.Broker

namespace AqEngine.Insights

open Lib Fallible Broker

namespace ExecutionData

variable (e : Encoding)

def recoveryDependenciesKey : String := "aqe:recovery-dependencies:v1"

def maxRecoveryDependencies : Nat := 16

def maxBytes : Nat := 16 * 1024

def maxKeys : Nat := 16

def maxKeyBytes : Nat := 128

def orInvalid {α : Type} : Except String α → Except BrokerCommandError α
  | .ok a => .ok a
  | .error reason => .error (invalidError reason)

def precedes (a b : Uuid) : Bool := decide (a.bytes < b.bytes)

def decodeDependencies (encoded : String) : Except BrokerCommandError (List Uuid) := do
  let ids ← orInvalid (e.parseIds encoded)
  refuseIf (maxRecoveryDependencies < ids.length ∨
      !(ids.zip ids.tail).all fun p => precedes p.1 p.2)
    (invalidError "recovery dependencies must be at most 16 sorted unique UUIDs")
  .ok ids

def recoveryDependencies (data : ExecutionData) : Except BrokerCommandError (List Uuid) :=
  match data.lookup recoveryDependenciesKey with
  | some encoded => decodeDependencies e encoded
  | none => .ok []

def validateKey (key : String) : Except BrokerCommandError Unit :=
  refuseIf (isBlank key || decide (maxKeyBytes < key.utf8ByteSize))
    (invalidError "custom execution data key must contain 1..=128 bytes")

def validate (data : ExecutionData) : Except BrokerCommandError Unit := do
  refuseIf (maxKeys < data.length ∨
      maxBytes < (data.map fun kv => kv.1.utf8ByteSize + kv.2.utf8ByteSize).sum)
    (invalidError "custom execution data exceeds its per-insight bound")
  data.forM fun kv => do
    validateKey kv.1
    orInvalid (e.parseValue kv.2)
  let _ ← recoveryDependencies e data

end ExecutionData

def executionCheckpointVersion : Nat := 6

def maxRevision : Nat := 2 ^ 63 - 1

def PendingInsightMutation.matches (p : PendingInsightMutation) : Bool :=
  match p.kind, p.effect with
  | .submit, .submit | .cancel, .cancel | .close, .close _ | .takeProfit, .takeProfit _
  | .stopLoss, .stopLoss _ | .replace, .replace .. | .amendEntry, .amendEntry .. => true
  | _, _ => false

def MutationEffect.isFinite : MutationEffect → Bool
  | .amendEntry limitPrice stopPrice =>
    (limitPrice.isSome || stopPrice.isSome) && limitPrice.all positive && stopPrice.all positive
  | .close price => price.all F64.isFinite
  | .replace price quantity => price.isFinite && quantity.isFinite
  | .takeProfit levels | .stopLoss levels => (levels.getD []).all F64.isFinite
  | .submit | .cancel => true

namespace InsightExecutionCheckpoint

variable (e : Encoding)

def insightId (row : InsightExecutionCheckpoint) : Uuid := row.insight.insightId

def state (row : InsightExecutionCheckpoint) : InsightState := row.insight.state

def orderId (row : InsightExecutionCheckpoint) : Option String := row.insight.orderId

def pendingMutations (row : InsightExecutionCheckpoint) : List PendingInsightMutation :=
  row.insight.pendingMutations

variable (row : InsightExecutionCheckpoint)

def retains (receipt : BrokerCommandReceipt) : Bool :=
  row.pendingMutations.any (fun pending => pending.receipt.id == receipt.id) ||
    row.ownerReceipts.any (fun owned => owned.id == receipt.id)

def numbers : List F64 :=
  let i := row.insight
  [i.quantity, row.contracts, i.limitPrice, i.stopPrice, i.trailingStopPrice, i.filledPrice,
    i.closePrice, i.brokerRealizedPnl, i.commission, i.swap, i.entryFilledQuantity,
    i.partialFilledQuantity].filterMap (fun number => number) ++
  i.takeProfitLevels.getD [] ++ i.stopLossLevels.getD [] ++
  i.partialCloses.flatMap (fun close =>
    close.quantity :: close.entryPrice :: close.filledPrice.toList) ++
  [i.legs.takeProfit, i.legs.stopLoss, i.legs.trailingStop].flatMap (fun leg =>
    leg.toList.flatMap fun leg =>
      leg.limitPrice.toList ++ leg.trailPrice.toList ++ leg.filledPrice.toList)

def validateAccounting : Except BrokerCommandError Unit :=
  match row.insight.positionAccounting with
  | none => .ok ()
  | some accounting =>
    match accounting.validate with
    | .error error => .error (invalidError error.message)
    | .ok _ =>
      refuseIf (row.state ≠ .closed ∨ !row.orderId.any accounting.ownsOrder)
        (invalidError "position accounting must belong to this closed insight")

def validatePending (row : InsightExecutionCheckpoint) :
    List BrokerCommandId → List PendingInsightMutation → Except BrokerCommandError Unit
  | _, [] => .ok ()
  | seen, pending :: rest => do
    refuseIf (!pending.matches) (invalidError "pending mutation kind/effect mismatch")
    refuseIf (!pending.effect.isFinite)
      (invalidError "pending mutation contains a non-finite number")
    refuseIf (pending.receipt.insightId ≠ row.insightId.toString ∨ pending.receipt.id ∈ seen ∨
        row.ownerReceipts.any (fun owned =>
          owned.id == pending.receipt.id && owned != pending.receipt))
      (invalidError "execution checkpoint contains a mismatched/duplicate receipt")
    validatePending row (pending.receipt.id :: seen) rest

def validate (row : InsightExecutionCheckpoint) : Except BrokerCommandError Unit := do
  refuseIf (row.version ≠ executionCheckpointVersion ∨ row.revision = 0 ∨
      maxRevision < row.revision)
    (invalidError "unsupported execution checkpoint version/revision")
  ExecutionData.validate e row.executionData
  validateAccounting row
  refuseIf (row.parentId = some row.insightId ∨ row.insightId ∈ row.childIds)
    (invalidError "execution checkpoint contains a self-parent/child")
  refuseIf (¬ row.childIds.Nodup) (invalidError "execution checkpoint contains duplicate children")
  refuseIf (isBlank row.insight.symbol) (invalidError "execution checkpoint is missing its symbol")
  refuseIf (!row.numbers.all F64.isFinite)
    (invalidError "execution checkpoint contains a non-finite number")
  refuseIf (256 < row.ownerReceipts.length ∨ 256 < row.pendingMutations.length)
    (invalidError "execution checkpoint exceeds receipt limit")
  refuseIf (row.ownerReceipts.any (fun receipt =>
      !row.materialized || receipt.insightId != row.insightId.toString) ∨
      ¬ (row.ownerReceipts.map (·.id)).Nodup)
    (invalidError "execution checkpoint contains an invalid owner receipt")
  validatePending row [] row.pendingMutations

end InsightExecutionCheckpoint

/-- What the graph index keeps of a row. The dependencies of an insight are
followed while it is active. -/
def InsightRecoveryMetadata.fromRow (e : Encoding) (row : InsightExecutionCheckpoint) :
    InsightRecoveryMetadata where
  id := row.insightId
  revision := row.revision
  parent := row.parentId
  children := row.childIds
  materialized := row.materialized
  dependencies :=
    if row.state.isActive then
      (ExecutionData.recoveryDependencies e row.executionData).toOption.getD []
    else []
  recoverySeed := row.materialized &&
    (row.state.isActive || !row.ownerReceipts.isEmpty || !row.pendingMutations.isEmpty)

end AqEngine.Insights
