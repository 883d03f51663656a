import AqEngine.Journal.Store
import AqEngine.Lib.Index
import AqEngine.LiveSync.Fills

namespace AqEngine.Broker

open Lib LiveSync

def maxFillBatchRows : Nat := 256

/-- What a row of the ledger keeps. A removed fill keeps its last observation
as evidence, in a form that cannot be taken for an active fill. -/
inductive SavedFill where
  | positionCheck (check : PositionQuantityObservation)
  | invalidated (observation : ExecutionFillInput) (invalidation : ExecutionFillInvalidation)
  | observation (observation : ExecutionFillInput)
  deriving DecidableEq

def SavedFill.intoParts : SavedFill →
    Except BrokerCommandError (ExecutionFillInput × Option ExecutionFillInvalidation)
  | .positionCheck _ => .error (journalError "position check cannot be a fill head")
  | .invalidated input v => .ok (input, some v)
  | .observation input => .ok (input, none)

structure FillRow where
  executionEpoch : Nat
  recordedAtUs : Int
  saved : SavedFill
  deriving DecidableEq

/-- The row that counts for a fill, and the time up to which it was confirmed. -/
structure FillHead where
  sequence : Nat
  asOfUs : Int
  deriving DecidableEq

structure PositionCheckRow where
  insightId : String
  (executionEpoch ledgerSequence : Nat)
  asOfUs : Int
  check : PositionQuantityCheck
  deriving DecidableEq

abbrev FillKey := String × String

/-- The tables of the execution fills. The sequences are never given out
again, also when rows are deleted. -/
structure FillLedger where
  lastSequence : Nat := 0
  fills : Table Nat FillRow := ∅
  heads : Table FillKey FillHead := ∅
  invalidated : Table FillKey ExecutionFillInvalidation := ∅
  positionChecks : Table FillKey PositionCheckRow := ∅
  historyClocks : Table String Nat := ∅

structure FillHistoryOwner where
  insightId : String
  executionEpoch : Nat
  (entryOrderId symbol : String)
  deriving DecidableEq

/-- A batch is built from rows that passed their check, at most
`maxFillBatchRows` of them; the rows of a history belong to its owner. -/
structure ExecutionFillBatch where
  rows : List ExecutionFillInput
  historyOwner : Option (String × FillHistoryOwner) := none
  historyClock : Option String := none
  invalidations : List ExecutionFillInvalidation := []
  positionCheck : Option PositionQuantityCheck := none
  rows_valid : ∀ input ∈ rows, input.validate = .ok ()
  rows_le : rows.length ≤ maxFillBatchRows
  rows_owned : ∀ account o, historyOwner = some (account, o) →
    ∀ input ∈ rows, input.insightId = some o.insightId
  invalidations_valid : ∀ v ∈ invalidations, v.validate = .ok ()
  invalidations_le : invalidations.length ≤ maxFillBatchRows

def ExecutionFillBatch.owner (batch : ExecutionFillBatch) : Option FillHistoryOwner :=
  batch.historyOwner.map (·.2)

end AqEngine.Broker

namespace AqEngine.LiveSync

namespace ExecutionFill

variable (fill : ExecutionFill)

def key : String × String := (fill.provider, fill.fillId)

def facts : ExecutionFill := { fill with asOfUs := 0 }

def sameFacts (other : ExecutionFill) : Bool := decide (fill = { other with asOfUs := fill.asOfUs })

def sameIdentity (other : ExecutionFill) : Bool :=
  fill.orderId == other.orderId && fill.positionId == other.positionId &&
    fill.symbol == other.symbol && fill.side == other.side && fill.effect == other.effect

theorem sameFacts_iff {fill other : ExecutionFill} :
    fill.sameFacts other = true ↔ fill.facts = other.facts := by
  obtain ⟨⟩ := fill
  simp [sameFacts, facts]

end ExecutionFill

/-- An observation that names no owner keeps the one already recorded. -/
def ExecutionFillInput.ownedBy (input : ExecutionFillInput) (recorded : Option String) :
    ExecutionFillInput :=
  { input with insightId := input.insightId <|> recorded }

def ExecutionFillInvalidation.key (v : ExecutionFillInvalidation) : String × String :=
  (v.provider, v.fillId)

end AqEngine.LiveSync

namespace AqEngine.Broker

open Lib Fallible LiveSync

namespace FillLedger

variable (l : FillLedger)

def maxSequence : Nat := l.fills.keys.foldr max 0

def append (epoch : Nat) (nowUs : Int) (saved : SavedFill) : FillLedger :=
  { l with
    lastSequence := l.lastSequence + 1
    fills := l.fills.insert (l.lastSequence + 1) ⟨epoch, nowUs, saved⟩ }

def head (k : FillKey) : Option (FillHead × FillRow) :=
  (l.heads.lookup k).bind fun h => (l.fills.lookup h.sequence).map fun row => (h, row)

def setHead (k : FillKey) (h : FillHead) : FillLedger := { l with heads := l.heads.insert k h }

def setWatermark (k : FillKey) (asOfUs : Int) : FillLedger :=
  { l with heads := l.heads.modify k fun h => { h with asOfUs := asOfUs } }

def noteClock (clock : Option String) : FillLedger :=
  match clock with
  | none => l
  | some c =>
    if (l.historyClocks.lookup c).isSome then l
    else { l with historyClocks := l.historyClocks.insert c l.maxSequence }

/-- Whether a removal hides the fill. A removal that is older than the fill
is taken back. -/
def suppressed (fill : ExecutionFill) : Except BrokerCommandError (Bool × FillLedger) :=
  match l.invalidated.lookup fill.key with
  | none => .ok (false, l)
  | some v => do
    refuseIf (v.matchesFill fill = false) (journalError "invalidated execution identity changed")
    if fill.asOfUs ≤ v.asOfUs then .ok (true, l)
    else .ok (false, { l with invalidated := l.invalidated.erase fill.key })

variable (nowUs : Int)

def appendPositionCheck (epoch : Nat) (o : PositionQuantityObservation) :
    Except BrokerCommandError FillLedger := do
  let record : PositionQuantityRecord :=
    ⟨UInt64.ofNat (l.maxSequence + 1), UInt64.ofNat epoch, nowUs, o⟩
  orJournal record.validate
  .ok (l.append epoch nowUs (.positionCheck o))

def PositionCheckRow.revoked (row : PositionCheckRow) (k : FillKey) (asOfUs : Int) :
    PositionQuantityObservation where
  provider := k.1
  positionId := k.2
  symbol := row.check.snapshot.symbol
  insightId := row.insightId
  ledgerSequence := UInt64.ofNat row.ledgerSequence
  asOfUs := max asOfUs row.asOfUs
  check := none

/-- A change of the position's fills withdraws the comparison made before it. -/
def invalidatePositionCheck (provider : String) (position : Option String)
    (asOfUs : Int) : Except BrokerCommandError FillLedger :=
  match position with
  | none => .ok l
  | some position =>
    match l.positionChecks.lookup (provider, position) with
    | none => .ok l
    | some old => do
      let l ← l.appendPositionCheck nowUs old.executionEpoch
        (PositionCheckRow.revoked old (provider, position) asOfUs)
      .ok { l with positionChecks := l.positionChecks.erase (provider, position) }

def revise (clock : Option String) (nowUs : Int) (epoch : Nat) (input : ExecutionFillInput) :
    Except BrokerCommandError FillLedger := do
  let fill := input.fill
  let appended := l.append epoch nowUs (.observation input)
  let l ← (appended.setHead fill.key ⟨appended.lastSequence, fill.asOfUs⟩).invalidatePositionCheck
    nowUs fill.provider fill.positionId fill.asOfUs
  .ok (l.noteClock clock)

variable (batch : ExecutionFillBatch)

def observeAgain (nowUs : Int) (input : ExecutionFillInput)
    (head : FillHead) (row : FillRow) : Except BrokerCommandError FillLedger := do
  let fill := input.fill
  refuseIf (batch.owner.any (·.executionEpoch ≠ row.executionEpoch))
    (journalError "history fill execution epoch conflict")
  let (old, invalidation) ← row.saved.intoParts
  if fill.asOfUs < head.asOfUs then .ok l
  else do
    let effective := input.ownedBy old.insightId
    refuseIf (old.fill.sameIdentity fill = false ∨
        (old.insightId.isSome ∧ old.insightId ≠ effective.insightId))
      (journalError "execution fill identity/ownership conflict")
    if invalidation.isNone ∧ old.fill.sameFacts fill = true ∧
        old.insightId = effective.insightId then
      .ok (l.setWatermark fill.key fill.asOfUs)
    else do
      refuseIf (fill.asOfUs = head.asOfUs)
        (journalError "conflicting execution fill at same observation watermark")
      l.revise batch.historyClock nowUs row.executionEpoch effective

def recordFill (epoch : Nat) (nowUs : Int)
    (input : ExecutionFillInput) : Except BrokerCommandError FillLedger := do
  let (hidden, l) ← l.suppressed input.fill
  if hidden then .ok l
  else
    match l.head input.fill.key with
    | none =>
      l.revise batch.historyClock nowUs ((batch.owner.map (·.executionEpoch)).getD epoch) input
    | some (head, row) => l.observeAgain batch nowUs input head row

def bury (v : ExecutionFillInvalidation) : Except BrokerCommandError FillLedger := do
  let l ← l.invalidatePositionCheck nowUs v.provider v.positionId v.asOfUs
  .ok { l with invalidated := l.invalidated.insert v.key v }

variable (owner : Option FillHistoryOwner)

/-- A removal of a fill that has a head. The flag says that a row was added. -/
def removeAgain (nowUs : Int) (v : ExecutionFillInvalidation)
    (head : FillHead) (row : FillRow) : Except BrokerCommandError (FillLedger × Bool) := do
  let (observation, invalidation) ← row.saved.intoParts
  refuseIf (v.matchesFill observation.fill = false ∨
      owner.any (fun o => o.executionEpoch != row.executionEpoch ||
        observation.insightId.any (· != o.insightId)))
    (journalError "execution invalidation ownership conflict")
  if v.asOfUs < head.asOfUs then .ok (l, false)
  else
    match invalidation with
    | none => do
      refuseIf (v.asOfUs = head.asOfUs) (journalError "conflicting invalidation at fill watermark")
      let appended := l.append row.executionEpoch nowUs (.invalidated observation v)
      let l ← (appended.setHead v.key ⟨appended.lastSequence, v.asOfUs⟩).bury nowUs v
      .ok (l, true)
    | some _ => do
      let l ← (l.setWatermark v.key v.asOfUs).bury nowUs v
      .ok (l, false)

def removeFill (nowUs : Int) (v : ExecutionFillInvalidation) :
    Except BrokerCommandError (FillLedger × Bool) :=
  match l.head v.key with
  | none => do
    let l ← l.bury nowUs v
    .ok (l, false)
  | some (head, row) => l.removeAgain owner nowUs v head row

def applyInvalidation (nowUs : Int)
    (v : ExecutionFillInvalidation) : Except BrokerCommandError (FillLedger × Bool) := do
  orJournal v.validate
  match l.invalidated.lookup v.key with
  | none => l.removeFill owner nowUs v
  | some old => do
    refuseIf ({ old with asOfUs := v.asOfUs } ≠ v)
      (journalError "execution invalidation identity/reason conflict")
    if v.asOfUs ≤ old.asOfUs then .ok (l, false) else l.removeFill owner nowUs v

variable (provider : String)

def positionHeads (position : String) : List (FillHead × FillRow) :=
  (l.heads.keys.filter fun k => k.1 = provider).filterMap fun k =>
    (l.head k).filter fun entry =>
      match entry.2.saved with
      | .positionCheck _ => false
      | .invalidated observation _ | .observation observation =>
        observation.fill.positionId == some position

def agreesWith : SavedFill → Bool
  | .positionCheck _ => false
  | .invalidated _ invalidation =>
    batch.invalidations.any fun v => { v with asOfUs := invalidation.asOfUs } == invalidation
  | .observation saved => batch.rows.any (·.fill.sameFacts saved.fill)

variable (o : FillHistoryOwner)

def ownedBy : SavedFill → Bool
  | .positionCheck _ => false
  | .invalidated observation _ | .observation observation =>
    observation.insightId == some o.insightId

variable (check : PositionQuantityCheck)

def checkObservation (sequence : Nat) : PositionQuantityObservation where
  provider := provider
  positionId := check.snapshot.positionId
  symbol := check.snapshot.symbol
  insightId := o.insightId
  ledgerSequence := UInt64.ofNat sequence
  asOfUs := check.snapshot.asOfUs
  check := some check

/-- A comparison with the latest row it covers takes the place of an older one. -/
def savePositionCheck (sequence : Nat) : Except BrokerCommandError FillLedger := do
  let l ← l.appendPositionCheck nowUs o.executionEpoch (checkObservation provider o check sequence)
  .ok { l with
    positionChecks := l.positionChecks.insert (provider, check.snapshot.positionId)
      ⟨o.insightId, o.executionEpoch, sequence, check.snapshot.asOfUs, check⟩ }

/-- A fresh poll of unchanged facts is not recorded again. -/
def refreshPositionCheck (sequence : Nat) : Except BrokerCommandError FillLedger :=
  let asOfUs := check.snapshot.asOfUs
  let k := (provider, check.snapshot.positionId)
  match l.positionChecks.lookup k with
  | none => l.savePositionCheck nowUs provider o check sequence
  | some old =>
    if asOfUs < old.asOfUs then .ok l
    else if old.asOfUs = asOfUs then do
      refuseIf (old.check ≠ check)
        (journalError "conflicting position check at same observation watermark")
      .ok l
    else if { old.check with snapshot := { old.check.snapshot with asOfUs := asOfUs } } = check ∧
        old.ledgerSequence = sequence ∧ old.insightId = o.insightId ∧
        old.executionEpoch = o.executionEpoch then
      .ok { l with
        positionChecks := l.positionChecks.insert k { old with asOfUs := asOfUs, check := check } }
    else l.savePositionCheck nowUs provider o check sequence

/-- The comparison is kept only if it covers exactly the ledger's fills of the
position. -/
def comparePosition (nowUs : Int) (provider : String)
    (o : FillHistoryOwner) (check : PositionQuantityCheck) :
    Except BrokerCommandError FillLedger :=
  let found := l.positionHeads provider check.snapshot.positionId
  if maxFillBatchRows < found.length ∨
      found.any (fun entry => decide (check.snapshot.asOfUs < entry.1.asOfUs) ||
        !ownedBy o entry.2.saved || !agreesWith batch entry.2.saved) ∨
      found.length ≠ batch.rows.length + batch.invalidations.length then .ok l
  else
    l.refreshPositionCheck nowUs provider o check ((found.map (·.1.sequence)).foldr max 0)

def persistPositionCheck (nowUs : Int) : Except BrokerCommandError FillLedger :=
  match batch.positionCheck, batch.owner with
  | some check, some o =>
    match (batch.rows.map (·.fill.provider) ++ batch.invalidations.map (·.provider)).head? with
    | none => .error (journalError "position check has no execution provider")
    | some provider => l.comparePosition batch nowUs provider o check
  | _, _ => .ok l

end FillLedger

namespace BrokerCommandJournal

variable (j : BrokerCommandJournal)

/-- The insights whose saved state names the order. -/
def orderOwners (orderId : String) : List String :=
  j.checkpoints.keys.filter fun id =>
    (j.checkpoints.lookup id).any fun row => row.orderId == some orderId

def validateOwner (o : FillHistoryOwner) : Except BrokerCommandError Unit :=
  match j.orderOwners o.entryOrderId with
  | [] => .error (journalError "history order has no saved owner")
  | id :: more => do
    refuseIf (id ≠ o.insightId ∨ more ≠ []) (journalError "ambiguous history order ownership")
    match j.checkpoints.lookup o.insightId with
    | none => .error (journalError "missing history owner checkpoint")
    | some row =>
      refuseIf (row.executionEpoch = 0 ∨ row.executionEpoch ≠ o.executionEpoch ∨
          row.orderId ≠ some o.entryOrderId ∨ row.symbol ≠ o.symbol ∨ row.materialized = false)
        (journalError "history ownership changed before admission")

def validateHistory (batch : ExecutionFillBatch) : Except BrokerCommandError Unit :=
  match batch.historyOwner with
  | none => .ok ()
  | some (account, o) => do
    refuseIf (account ≠ j.accountId) (journalError "history account scope changed")
    j.validateOwner o

end BrokerCommandJournal

namespace FillLedger

variable (l : FillLedger)

def recordFills (batch : ExecutionFillBatch) (epoch : Nat) (nowUs : Int) :
    Except BrokerCommandError FillLedger :=
  batch.rows.foldlM (fun l input => l.recordFill batch epoch nowUs input) l

def applyInvalidations (batch : ExecutionFillBatch) (nowUs : Int) :
    Except BrokerCommandError (FillLedger × Bool) :=
  batch.invalidations.foldlM (fun (l, appended) v => do
    let (l, added) ← l.applyInvalidation batch.owner nowUs v
    .ok (l, appended || added)) (l, false)

def record (j : BrokerCommandJournal) (batch : ExecutionFillBatch) (nowUs : Int) :
    Except BrokerCommandError FillLedger := do
  j.validateHistory batch
  let l ← l.recordFills batch j.lifecycle.epoch nowUs
  let (l, appended) ← l.applyInvalidations batch nowUs
  let l := if appended then l.noteClock batch.historyClock else l
  l.persistPositionCheck batch nowUs

end FillLedger

structure AnalyticsCapture where
  generation : Nat := 0
  paused : Bool := false
  startedAtUs : Option Int := none
  executionEpoch : Option Nat := none
  deriving DecidableEq

/-- How the transaction ends: with the space the batch needs, without it, or
with a failure of the database. -/
inductive FillCommit where
  | committed | overLimit
  | failed (reason : String)
  deriving DecidableEq

structure FillStore where
  ledger : FillLedger := {}
  capture : AnalyticsCapture := {}

namespace FillStore

variable (s : FillStore)

def pause (epoch : Nat) (nowUs : Int) : FillStore :=
  { s with capture := ⟨s.capture.generation + 1, true, some nowUs, some epoch⟩ }

def commitObservations (l : FillLedger) (epoch : Nat) (nowUs : Int) :
    FillCommit → FillStore × Except BrokerCommandError Unit
  | .committed => ({ s with ledger := l }, .ok ())
  | .overLimit => (s.pause epoch nowUs, .error .capturePaused)
  | .failed reason => (s, .error (journalError reason))

def recordExecutionFills (j : BrokerCommandJournal) (batch : ExecutionFillBatch) (nowUs : Int)
    (commit : FillCommit) : FillStore × Except BrokerCommandError Unit :=
  if s.capture.paused then (s, .error .capturePaused)
  else
    match s.ledger.record j batch nowUs with
    | .error e => (s, .error e)
    | .ok l => s.commitObservations l j.lifecycle.epoch nowUs commit

/-- Rows that were handed off are deleted, except the last one and those
that a head or a comparison refers to. -/
def retireHandedOff (candidates : List Nat) : FillStore :=
  let l := s.ledger
  let referred := l.heads.keys.filterMap (fun k => (l.heads.lookup k).map (·.sequence)) ++
    l.positionChecks.keys.filterMap fun k => (l.positionChecks.lookup k).map (·.ledgerSequence)
  { s with
    ledger := { l with
      fills := l.fills.retain fun n =>
        !(candidates.contains n && decide (n < l.maxSequence) && !referred.contains n) } }

end FillStore

end AqEngine.Broker
