import AqEngine.Journal.FillEffects

namespace AqEngine.LiveSync

open Lib Fallible

def executionFillTransferBytes : Nat := 32 * 1024

/-- The JSON of pages and saved rows, and the checksum of a text. A page that
passed its check is read back as it was written. -/
structure FillCodec (S : Type) where
  toJson : ExecutionFillPage → Except String String
  fromJson : String → Except String ExecutionFillPage
  checksum : String → String
  savedBytes : S → Nat
  toJson_ne : ∀ page text, toJson page = .ok text → text ≠ ""
  fromJson_toJson : ∀ page text, toJson page = .ok text → validateExecutionFillPage page = .ok () →
    fromJson text = .ok page

structure ExecutionFillTransfer where
  schemaVersion : UInt16
  (sourceId strategyId accountId : String)
  (afterSequence nextSequence : UInt64)
  (transferId body : String)
  deriving DecidableEq

structure ExecutionFillExportReceipt where
  (sourceId transferId : String)
  (afterSequence nextSequence : UInt64)
  deriving DecidableEq

namespace ExecutionFillTransfer

variable {S : Type} (c : FillCodec S)

def ofBody (page : ExecutionFillPage) (transferId body : String) : ExecutionFillTransfer where
  schemaVersion := page.version
  sourceId := page.sourceId
  strategyId := page.strategyId
  accountId := page.accountId
  afterSequence := page.afterSequence
  nextSequence := page.nextSequence
  transferId
  body

def fromPage (page : ExecutionFillPage) : Except String ExecutionFillTransfer := do
  validateExecutionFillPage page
  let body ← c.toJson page
  refuseIf (executionFillTransferBytes < body.utf8ByteSize)
    "execution fill transfer exceeds byte limit"
  .ok (ofBody page (c.checksum body) body)

def page (t : ExecutionFillTransfer) : Except String ExecutionFillPage := do
  refuseIf (t.body = "" ∨ executionFillTransferBytes < t.body.utf8ByteSize ∨
      t.schemaVersion ∉ [executionFillVersion, executionFillPageVersion,
        executionPositionCheckPageVersion] ∨
      t.transferId ≠ c.checksum t.body)
    "invalid execution fill transfer size/checksum/version"
  let page ← c.fromJson t.body
  validateExecutionFillPage page
  refuseIf (t.schemaVersion ≠ page.version) "execution fill envelope version mismatch"
  refuseIf (t.sourceId ≠ page.sourceId ∨ t.strategyId ≠ page.strategyId ∨
      t.accountId ≠ page.accountId ∨ t.afterSequence ≠ page.afterSequence ∨
      t.nextSequence ≠ page.nextSequence)
    "execution fill envelope scope mismatch"
  .ok page

def receipt (t : ExecutionFillTransfer) : ExecutionFillExportReceipt :=
  ⟨t.sourceId, t.transferId, t.afterSequence, t.nextSequence⟩

end ExecutionFillTransfer

end AqEngine.LiveSync

namespace AqEngine.Broker

open Lib Fallible LiveSync

def maxFillBytes : Nat := 512 * 1024
def maxFillPageRows : Nat := 128
def retirementRows : Nat := 128

/-- Whose ledger is exported, and whether it has a database of its own. -/
structure FillScope where
  (evidenceSourceId strategyId accountId : String)
  cloudHistory : Bool
  deriving DecidableEq

structure PageDraft where
  records : List ExecutionFillRecord := []
  positionChecks : List PositionQuantityRecord := []
  bytes : Nat := 0
  next : Nat
  hasMore : Bool := false

def PageDraft.rows (d : PageDraft) : Nat := d.records.length + d.positionChecks.length

namespace FillLedger

variable (c : FillCodec SavedFill) (l : FillLedger)

def positionRecord (n : Nat) (row : FillRow) (o : PositionQuantityObservation) :
    PositionQuantityRecord :=
  ⟨UInt64.ofNat n, UInt64.ofNat row.executionEpoch, row.recordedAtUs, o⟩

def fillRecord (n : Nat) (row : FillRow) (input : ExecutionFillInput)
    (invalidation : Option ExecutionFillInvalidation) : ExecutionFillRecord :=
  ⟨UInt64.ofNat n, UInt64.ofNat row.executionEpoch, row.recordedAtUs, input, invalidation⟩

def draftRow (d : PageDraft) (n : Nat) (row : FillRow) : Except BrokerCommandError PageDraft :=
  let bytes := d.bytes + c.savedBytes row.saved
  match row.saved with
  | .positionCheck o => do
    let record := positionRecord n row o
    orJournal record.validate
    .ok { d with positionChecks := d.positionChecks ++ [record], bytes := bytes, next := n }
  | saved => do
    let (input, invalidation) ← saved.intoParts
    let record := fillRecord n row input invalidation
    orJournal record.validate
    .ok { d with records := d.records ++ [record], bytes := bytes, next := n }

/-- The loop stops at the row limit, or before the row that exceeds the bytes. -/
def draftRows (limit : Nat) (d : PageDraft) :
    List (Nat × FillRow) → Except BrokerCommandError PageDraft
  | [] => .ok d
  | (n, row) :: rest => do
    refuseIf (maxFillBytes < c.savedBytes row.saved) (journalError "oversized saved execution fill")
    if d.rows = limit ∨ maxFillBytes < d.bytes + c.savedBytes row.saved then
      .ok { d with hasMore := true }
    else do
      let d ← draftRow c d n row
      draftRows limit d rest

def rowsBetween (after through : Nat) : List (Nat × FillRow) :=
  (Lib.segment after through).filterMap fun n => (l.fills.lookup n).map fun row => (n, row)

def historyClocksUpTo (through : Nat) : List String :=
  (((l.historyClocks.entries.filter fun e => e.2 ≤ through).insertionSort
    fun e e' => e.2 ≤ e'.2).map (·.1)).take 2

def coverage (through : Nat) : String :=
  match l.historyClocksUpTo through with
  | [] => "observed_broker_fills_since_ledger_installation"
  | [clock] => "observed_fills_and_bounded_owned_history;clock=" ++ clock
  | _ => "observed_fills_and_bounded_owned_history;multiple_explicit_clock_windows;" ++
    "recovery_not_reconciled"

def draftVersion (d : PageDraft) : UInt16 :=
  if d.positionChecks ≠ [] then executionPositionCheckPageVersion
  else if d.records.any (·.invalidation.isSome) then executionFillPageVersion
  else executionFillVersion

/-- A page of the rows after `after`. The sequences are signed numbers of 64
bits. -/
def executionFillPage (scope : FillScope) (nowUs : Int) (after : Nat) (through : Option Nat)
    (limit : Nat) : Except BrokerCommandError ExecutionFillPage := do
  let head := l.maxSequence
  refuseIf (i64Max.toNat < head) (journalError "out of range integral type conversion attempted")
  let through := through.getD head
  refuseIf (through < after ∨ head < through)
    (journalError "execution fill cursor exceeds retained watermark")
  let limit := max 1 (min limit maxFillPageRows)
  let d ← draftRows c limit { next := after } ((l.rowsBetween after through).take (limit + 1))
  .ok {
    version := draftVersion d
    sourceId := scope.evidenceSourceId
    strategyId := scope.strategyId
    accountId := scope.accountId
    afterSequence := UInt64.ofNat after
    throughSequence := UInt64.ofNat through
    nextSequence := UInt64.ofNat d.next
    hasMore := d.hasMore
    records := d.records
    positionChecks := d.positionChecks
    generatedAtUs := nowUs
    coverage := l.coverage through
    valuationBasis := "broker_reported_cash_no_inferred_notional_multiplier_or_fx"
    recoveryComplete := none }

def halve (page : ExecutionFillPage) : ExecutionFillPage :=
  let next := page.afterSequence + UInt64.ofNat page.rows / 2
  { page with
    nextSequence := next
    records := page.records.filter (·.sequence ≤ next)
    positionChecks := page.positionChecks.filter (·.sequence ≤ next)
    hasMore := true }

/-- The loop that halves a page until its text fits. It is out of fuel only if
a page of more than one row did not get smaller. -/
def fit : Nat → ExecutionFillPage → Except BrokerCommandError ExecutionFillTransfer
  | 0, _ => .error (journalError "a page does not get smaller")
  | fuel + 1, page => do
    let text ← orJournal (c.toJson page)
    if text.utf8ByteSize ≤ executionFillTransferBytes then
      orJournal (ExecutionFillTransfer.fromPage c page)
    else if page.rows ≤ 1 then .error (journalError "individual fill exceeds transfer limit")
    else fit fuel (halve page)

end FillLedger

structure ExportRow where
  cursor : Nat := 0
  (lastTransferId pendingTransferId : Option String := none)
  pendingNext : Option Nat := none
  pendingJson : Option String := none
  deriving DecidableEq

structure FillExport where
  store : FillStore := {}
  row : ExportRow := {}
  fillCursor : Nat := 0

/-- How a transaction ends for its caller. The last two are failures and
crashes before and after it is durable. -/
inductive Commit where
  | reported
  | lost (reason : String)
  | unreported (reason : String)
  deriving DecidableEq

/-- The state after a transaction that changes `s` to `s'`, with the answer
`a` for a caller that learns of it. -/
def Commit.finish {σ α : Type} (commit : Commit) (s s' : σ) (a : α) :
    σ × Except BrokerCommandError α :=
  match commit with
  | .reported => (s', .ok a)
  | .lost reason => (s, .error (journalError reason))
  | .unreported reason => (s', .error (journalError reason))

namespace FillExport

variable (c : FillCodec SavedFill) (scope : FillScope) (s : FillExport)

/-- A transfer that was frozen before is read back and checked. -/
def resume (body : String) : Except BrokerCommandError ExecutionFillTransfer := do
  refuseIf (executionFillTransferBytes < body.utf8ByteSize)
    (journalError "oversized saved fill transfer")
  let page ← orJournal (c.fromJson body)
  match s.row.pendingTransferId with
  | none => .error (journalError "missing fill transfer checksum")
  | some id => do
    let transfer := ExecutionFillTransfer.ofBody page id body
    let _ ← orJournal (transfer.page c)
    refuseIf (transfer.sourceId ≠ scope.evidenceSourceId ∨ transfer.strategyId ≠ scope.strategyId ∨
        transfer.accountId ≠ scope.accountId ∨ transfer.afterSequence.toNat ≠ s.row.cursor ∨
        s.row.pendingNext ≠ some transfer.nextSequence.toNat)
      (journalError "saved fill transfer scope mismatch")
    .ok transfer

def nextTransfer (nowUs : Int) : Except BrokerCommandError (Option ExecutionFillTransfer) := do
  let page ← s.store.ledger.executionFillPage c scope nowUs s.row.cursor none
    executionFillTransferRows
  if page.records = [] ∧ page.positionChecks = [] then .ok none
  else do
    let transfer ← FillLedger.fit c (page.rows + 1) page
    .ok (some transfer)

def freeze (t : ExecutionFillTransfer) : FillExport :=
  { s with
    row := { s.row with
      pendingTransferId := some t.transferId
      pendingNext := some t.nextSequence.toNat
      pendingJson := some t.body } }

def prepareExecutionFillExport (nowUs : Int) (commit : Commit) :
    FillExport × Except BrokerCommandError (Option ExecutionFillTransfer) :=
  match s.row.pendingJson with
  | some body => (s, (s.resume c scope body).map some)
  | none =>
    match s.nextTransfer c scope nowUs with
    | .error e => (s, .error e)
    | .ok none => (s, .ok none)
    | .ok (some t) => commit.finish s (s.freeze t) (some t)

def retirementCandidates : List Nat :=
  ((Lib.segment s.fillCursor s.row.cursor).filter fun n =>
    (s.store.ledger.fills.lookup n).isSome).take
    retirementRows

def retired : FillExport :=
  { s with
    store := s.store.retireHandedOff s.retirementCandidates
    fillCursor := s.retirementCandidates.getLast?.getD 0 }

def retireHandedOffCloudHistory (commit : Commit) : FillExport × Except BrokerCommandError Unit :=
  if scope.cloudHistory then commit.finish s s.retired () else (s, .ok ())

def acknowledged (next : Nat) : FillExport :=
  { s with
    row := ⟨next, s.row.pendingTransferId, none, none, none⟩ }

def acknowledgeExecutionFillExport (receipt : ExecutionFillExportReceipt)
    (commit retirement : Commit) : FillExport × Except BrokerCommandError Unit :=
  if receipt.sourceId ≠ scope.evidenceSourceId ∨ receipt.nextSequence ≤ receipt.afterSequence ∨
      i64Max < receipt.nextSequence then
    (s, .error (journalError "invalid fill export receipt"))
  else if s.row.cursor = receipt.nextSequence.toNat ∧
      s.row.lastTransferId = some receipt.transferId then
    s.retireHandedOffCloudHistory scope retirement
  else if s.row.cursor ≠ receipt.afterSequence.toNat ∨
      s.row.pendingTransferId ≠ some receipt.transferId ∨
      s.row.pendingNext ≠ some receipt.nextSequence.toNat then
    (s, .error (journalError "fill export receipt does not match pending page"))
  else
    match commit.finish s (s.acknowledged receipt.nextSequence.toNat) () with
    | (s, .error e) => (s, .error e)
    | (s, .ok ()) => s.retireHandedOffCloudHistory scope retirement

end FillExport

end AqEngine.Broker
