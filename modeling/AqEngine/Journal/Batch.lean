import AqEngine.Journal.Encoding

namespace AqEngine.Broker

open Lib Fallible Insights List

def maxCheckpointRows : Nat := 32

def maxCheckpointBytes : Nat := 1024 * 1024

structure EncodedCheckpoint where
  id : String
  revision : Nat
  (json metadataJson : String)
  (recoverySeed materialized : Bool)
  orderId : Option String
  symbol : String
  deriving DecidableEq

/-- An intent and the state of the insight that owns it share one commit. -/
structure ExecutionIntent where
  command : BrokerCommand
  queuedAtUs : Int
  admissionOrder : Nat
  deriving DecidableEq

structure EncodedIntent where
  command : BrokerCommand
  queuedAtUs : Int
  admissionOrder : Nat
  json : String
  deriving DecidableEq

/-- Rows, consumed receipts and new intents of one transaction. A batch has
one row for each insight. -/
structure ExecutionCheckpointBatch where
  rows : List EncodedCheckpoint
  applied : List BrokerCommandReceipt
  intents : List EncodedIntent
  nodup_rows : (rows.map (·.id)).Nodup
  deriving DecidableEq

namespace ExecutionCheckpointBatch

variable (e : Encoding) (rows : List InsightExecutionCheckpoint)

def rowOf (receipt : BrokerCommandReceipt) : Option InsightExecutionCheckpoint :=
  rows.find? (fun row => row.insightId.toString == receipt.insightId)

def checkApplied : List BrokerCommandId → List BrokerCommandReceipt →
    Except BrokerCommandError (List BrokerCommandId)
  | seen, [] => .ok seen
  | seen, receipt :: rest =>
    match rowOf rows receipt with
    | none => .error (journalError "applied receipt is missing its reduced insight checkpoint")
    | some row => do
      refuseIf (row.retains receipt ∨ receipt.id ∈ seen ∨ row.materialized = false)
        (journalError "applied receipt is still pending, duplicated, or unmaterialized")
      checkApplied (receipt.id :: seen) rest

def checkIntent (seen : List BrokerCommandId) (intent : ExecutionIntent) :
    Except BrokerCommandError Unit := do
  let receipt := intent.command.receipt
  refuseIf (maxRevision < intent.admissionOrder)
    (journalError "out of range integral type conversion attempted")
  refuseIf (intent.admissionOrder = 0) (journalError "invalid owner admission order")
  refuseIf (receipt.id ∈ seen) (journalError "duplicate or already applied checkpoint intent")
  match rowOf rows receipt with
  | none => .error (journalError "intent is missing its pending insight checkpoint")
  | some row =>
    refuseIf (row.materialized = false ∨
        ¬ (row.pendingMutations.any (fun pending => pending.receipt == receipt) ∨
          receipt ∈ row.ownerReceipts))
      (journalError "intent is not retained by its insight checkpoint")

def encodeIntent (seen : List BrokerCommandId) (remaining : Nat) (intent : ExecutionIntent) :
    Except BrokerCommandError (EncodedIntent × Nat) := do
  checkIntent rows seen intent
  let json ← intent.command.encode e
  refuseIf (remaining < json.utf8ByteSize) (journalError "execution checkpoint exceeds byte limit")
  .ok (⟨intent.command, intent.queuedAtUs, intent.admissionOrder, json⟩,
    remaining - json.utf8ByteSize)

def encodeIntents : List BrokerCommandId → Nat → List ExecutionIntent →
    Except BrokerCommandError (List EncodedIntent × Nat)
  | _, remaining, [] => .ok ([], remaining)
  | seen, remaining, intent :: rest => do
    let (encoded, remaining) ← encodeIntent e rows seen remaining intent
    let (tail, remaining) ← encodeIntents (intent.command.id :: seen) remaining rest
    .ok (encoded :: tail, remaining)

def encodeRow (seen : List String) (remaining : Nat) (row : InsightExecutionCheckpoint) :
    Except BrokerCommandError (EncodedCheckpoint × Nat) := do
  let metadata := InsightRecoveryMetadata.fromRow e row
  let metadataJson := e.metadataText metadata
  let json := e.checkpointText row
  row.validate e
  refuseIf (row.insightId.toString ∈ seen) (journalError "duplicate checkpoint row")
  refuseIf (remaining < metadataJson.utf8ByteSize)
    (journalError "execution checkpoint metadata exceeds byte limit")
  refuseIf (remaining - metadataJson.utf8ByteSize < json.utf8ByteSize)
    (journalError "execution checkpoint exceeds byte limit")
  .ok (⟨row.insightId.toString, row.revision, json, metadataJson, metadata.recoverySeed,
    row.materialized, row.orderId, row.insight.symbol⟩,
    remaining - metadataJson.utf8ByteSize - json.utf8ByteSize)

def encodeRows : List String → Nat → List InsightExecutionCheckpoint →
    Except BrokerCommandError (List EncodedCheckpoint)
  | _, _, [] => .ok []
  | seen, remaining, row :: rest => do
    let (encoded, remaining) ← encodeRow e seen remaining row
    let tail ← encodeRows (encoded.id :: seen) remaining rest
    .ok (encoded :: tail)

variable {e rows}

theorem id_encodeRow {seen : List String} {remaining : Nat} {row : InsightExecutionCheckpoint}
    {encoded : EncodedCheckpoint × Nat} (h : encodeRow e seen remaining row = .ok encoded) :
    encoded.1.id ∉ seen ∧ encoded.1.id = row.insightId.toString := by
  obtain ⟨-, -, h⟩ := bind_eq_ok.1 h
  obtain ⟨hs, h⟩ := refuseIf_bind_eq_ok.1 h
  obtain ⟨-, h⟩ := refuseIf_bind_eq_ok.1 h
  obtain ⟨-, h⟩ := refuseIf_bind_eq_ok.1 h
  cases h
  exact ⟨hs, rfl⟩

theorem nodup_encodeRows :
    ∀ {seen : List String} {remaining : Nat} {rows : List InsightExecutionCheckpoint}
      {out : List EncodedCheckpoint}, encodeRows e seen remaining rows = .ok out →
      (out.map (·.id)).Nodup ∧ ∀ row ∈ out, row.id ∉ seen := by
  intro seen remaining rows
  induction rows generalizing seen remaining with
  | nil =>
    intro out h
    cases h
    simp
  | cons row _ ih =>
    intro out h
    obtain ⟨encoded, hrow, h⟩ := bind_eq_ok.1 h
    obtain ⟨tail, ht, h⟩ := bind_eq_ok.1 h
    cases h
    obtain ⟨hn, hs⟩ := ih ht
    have hid := (id_encodeRow hrow).1
    refine ⟨?_, ?_⟩
    · refine nodup_cons.2 ⟨fun hm => ?_, hn⟩
      obtain ⟨other, ho, heq⟩ := mem_map.1 hm
      exact hs other ho (heq ▸ mem_cons_self)
    · intro other ho
      rcases mem_cons.1 ho with rfl | ho
      · exact hid
      · exact fun hm => hs other ho (mem_cons_of_mem _ hm)

variable (e)

def encodeParts (rows : List InsightExecutionCheckpoint) (applied : List BrokerCommandReceipt)
    (intents : List ExecutionIntent) : Except BrokerCommandError (List EncodedIntent × Nat) := do
  let receiptBytes := (e.receiptsText applied).utf8ByteSize
  refuseIf (rows = [] ∨ maxCheckpointRows < rows.length ∨ 256 < applied.length)
    (invalidError "execution checkpoint batch exceeds row/receipt limit")
  let seen ← checkApplied rows [] applied
  refuseIf (maxCheckpointBytes < receiptBytes)
    (journalError "execution checkpoint exceeds byte limit")
  refuseIf (256 < intents.length) (journalError "too many checkpoint intents")
  encodeIntents e rows seen (maxCheckpointBytes - receiptBytes) intents

def withIntents (rows : List InsightExecutionCheckpoint) (applied : List BrokerCommandReceipt)
    (intents : List ExecutionIntent) : Except BrokerCommandError ExecutionCheckpointBatch := do
  let (intents, remaining) ← encodeParts e rows applied intents
  match h : encodeRows e [] remaining rows with
  | .error error => .error error
  | .ok encoded => .ok ⟨encoded, applied, intents, (nodup_encodeRows h).1⟩

end ExecutionCheckpointBatch

end AqEngine.Broker
