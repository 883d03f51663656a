import AqEngine.Lib.Index
import AqEngine.Lib.Text
import AqEngine.Outbox.Types

namespace AqEngine.LiveSync

open Lib Fallible

/-- A gap in the history that one scope captured. -/
structure CapturePause where
  generation : Nat
  (startedAtUs lastBlockedAtUs : Int)
  blockedAttempts : Nat
  resumedAtUs : Option Int
  (retainedBytes requestedBytes limitBytes : Nat)
  (originRuntimeId originRunId lastBlockedRunId ownerRunId : Option String)
  handoffCount : Nat
  originRuntimeUnknown : Bool
  sourceObservationPauseId : Option Uuid
  deriving DecidableEq

structure BlockedSpan where
  startedAtUs : Int
  (originRun lastRun : Option String)
  deriving DecidableEq

structure CaptureOwner where
  matchesPath : Bool
  (runtime strategy session run : String)
  deriving DecidableEq

def CaptureOwner.scope (owner : CaptureOwner) : Scope :=
  ⟨owner.runtime, owner.strategy, owner.session⟩

/-- A pause of the analytics part of an execution journal. -/
structure AnalyticsCapturePause where
  version : UInt16
  (journalSourceId strategyId accountId : String)
  (generation executionEpoch : Nat)
  (startedAtUs lastBlockedAtUs : Int)
  deriving DecidableEq

structure AnalyticsCaptureHandoffReceipt where
  version : UInt16
  pauseId : Uuid
  journalSourceId : String
  sourceGeneration : Nat
  (strategyId accountId targetRuntimeId targetLiveSessionId targetRunId : String)
  targetPauseGeneration : Nat
  deriving DecidableEq

structure JournalGapHandoff where
  (sourceGeneration sourceEpoch : Nat)
  (strategyId accountId : String)
  pauseId : Uuid
  receipt : AnalyticsCaptureHandoffReceipt
  deriving DecidableEq

/-- Name-based identities, encoded sizes and the range of instants. -/
structure PauseCodec where
  stableId : AnalyticsCapturePause → Uuid
  suspensionId : Scope → String → Int → Uuid
  pauseLen : AnalyticsCapturePause → Nat
  receiptLen : AnalyticsCaptureHandoffReceipt → Nat
  isInstant : Int → Bool

/-- The pauses of a store and the journal gaps it took over. -/
structure CaptureGaps where
  pauses : Table Scope CapturePause := ∅
  handoffs : Table String JournalGapHandoff := ∅

def maxJournalGapSources : Nat := 256

def CapturePause.isOpen (pause : CapturePause) : Bool := pause.resumedAtUs.isNone

def unusableId (id : String) : Bool := isBlank id || decide (128 < id.utf8ByteSize)

def CapturePause.blocked (scope : Scope) (span : BlockedSpan) (capacity : CaptureCapacity)
    (nowUs : Int) : Option CapturePause → CapturePause
  | none =>
    { generation := 1
      startedAtUs := span.startedAtUs
      lastBlockedAtUs := nowUs
      blockedAttempts := 1
      resumedAtUs := none
      retainedBytes := capacity.retainedBytes
      requestedBytes := capacity.requestedBytes
      limitBytes := capacity.limitBytes
      originRuntimeId := some scope.runtimeId
      originRunId := span.originRun
      lastBlockedRunId := span.lastRun
      ownerRunId := span.lastRun
      handoffCount := 0
      originRuntimeUnknown := false
      sourceObservationPauseId := none }
  | some row =>
    { generation := row.generation + 1
      startedAtUs := if row.isOpen then min row.startedAtUs span.startedAtUs else span.startedAtUs
      lastBlockedAtUs := nowUs
      blockedAttempts := row.blockedAttempts + 1
      resumedAtUs := none
      retainedBytes := capacity.retainedBytes
      requestedBytes := capacity.requestedBytes
      limitBytes := capacity.limitBytes
      originRuntimeId :=
        if row.isOpen then
          if row.originRuntimeUnknown then none else some (row.originRuntimeId.getD scope.runtimeId)
        else some scope.runtimeId
      originRunId := if row.isOpen then row.originRunId else span.originRun
      lastBlockedRunId := span.lastRun
      ownerRunId := if row.isOpen then row.ownerRunId else span.lastRun
      handoffCount := if row.isOpen then row.handoffCount else 0
      originRuntimeUnknown := row.isOpen && row.originRuntimeUnknown
      sourceObservationPauseId := row.sourceObservationPauseId }

namespace CaptureGaps

variable (s : CaptureGaps)

def recordCapturePauseLocked (scope : Scope) (span : BlockedSpan) (capacity : CaptureCapacity)
    (nowUs : Int) : CaptureGaps :=
  { s with pauses :=
      s.pauses.insert scope (.blocked scope span capacity nowUs (s.pauses.lookup scope)) }

/-- The state of a scope has been reconciled: its pause ends if it is the one
of `generation` and the store has room again. -/
def completeCaptureReconciliation (scope : Scope) (generation : Nat) (retained : Nat)
    (nowUs : Int) : CaptureGaps × Except OutboxStoreError Bool :=
  if i64MaxNat < generation then
    (s, .error (.database "out of range integral type conversion attempted"))
  else
    match s.pauses.lookup scope with
    | none => (s, .ok false)
    | some row =>
      if row.generation = generation ∧ row.isOpen ∧ retained ≤ row.limitBytes / 5 * 4 then
        let pauses := s.pauses.insert scope { row with resumedAtUs := some nowUs }
        ({ s with pauses := pauses }, .ok true)
      else (s, .ok false)

variable (owner : CaptureOwner)

/-- The runtime of the open pause of a strategy's session that was blocked
last; of several any one. -/
def isLatest (runtime : Option String) : Bool :=
  let open? (scope : Scope) (row : CapturePause) : Bool :=
    scope.strategyId == owner.strategy && scope.liveSessionId == owner.session && row.isOpen
  match runtime with
  | none => s.pauses.entries.all fun row => !open? row.1 row.2
  | some runtime =>
    (s.pauses.lookup ⟨runtime, owner.strategy, owner.session⟩).any fun pause =>
      pause.isOpen && s.pauses.entries.all fun row =>
        !open? row.1 row.2 || decide (row.2.lastBlockedAtUs ≤ pause.lastBlockedAtUs)

def begunLike (pause : CapturePause) (currentRuntime : String) (current : CapturePause) :
    CapturePause :=
  { pause with
    startedAtUs := current.startedAtUs
    originRuntimeUnknown := current.originRuntimeUnknown
    originRuntimeId :=
      if current.originRuntimeUnknown then none
      else some (current.originRuntimeId.getD currentRuntime)
    originRunId := current.originRunId }

def earliest (pause : CapturePause) (currentRuntime : String) (current : CapturePause) :
    CapturePause :=
  if current.isOpen && decide (current.startedAtUs < pause.startedAtUs) then
    begunLike pause currentRuntime current
  else pause

/-- The pause of an older runtime with the one of its new owner, of which only
the generation counts when it has ended. -/
def merged (pause : CapturePause) (currentRuntime : String) (current : CapturePause) :
    CapturePause :=
  { earliest pause currentRuntime current with
    generation := max pause.generation current.generation
    blockedAttempts :=
      if current.isOpen then pause.blockedAttempts + current.blockedAttempts
      else pause.blockedAttempts
    handoffCount :=
      if current.isOpen then pause.handoffCount + current.handoffCount else pause.handoffCount
    sourceObservationPauseId := current.sourceObservationPauseId }

def joined (oldRuntime : String) (pause : CapturePause) : CapturePause :=
  if oldRuntime = owner.runtime then pause
  else
    match s.pauses.lookup owner.scope with
    | none => { pause with sourceObservationPauseId := none }
    | some current => merged pause owner.runtime current

def signed (oldRuntime : String) (pause : CapturePause) : CapturePause :=
  { pause with
    generation := pause.generation + 1
    handoffCount := pause.handoffCount + 1
    originRuntimeId :=
      if pause.originRuntimeId.isNone && !pause.originRuntimeUnknown then some oldRuntime
      else pause.originRuntimeId
    ownerRunId := some owner.run }

def handedOver (oldRuntime : String) (pause : CapturePause) :
    CapturePause :=
  signed owner oldRuntime (s.joined owner oldRuntime pause)

/-- Adopt at most one older pause: the open one of the session that was blocked
last, which the index of pauses names. -/
def adoptLatestCapturePause (latest : Option String) :
    CaptureGaps × Except OutboxStoreError (Option CapturePause) :=
  if !owner.matchesPath || owner.run.isEmpty || owner.strategy.isEmpty || owner.session.isEmpty ||
      owner.runtime.isEmpty then
    (s, .error (.invalidRecord "capture lease belongs to another source"))
  else
    match latest with
    | none => (s, .ok none)
    | some oldRuntime =>
      let old : Scope := ⟨oldRuntime, owner.strategy, owner.session⟩
      match s.pauses.lookup old with
      | none => (s, .ok none)
      | some pause =>
        if oldRuntime = owner.runtime ∧ pause.ownerRunId = some owner.run then (s, .ok (some pause))
        else
          let pause := s.handedOver owner oldRuntime pause
          if i64MaxNat < pause.generation then
            (s, .error (.database "capture generation overflow"))
          else if i64MaxNat < pause.handoffCount then
            (s, .error (.database "capture handoff count overflow"))
          else if i64MaxNat < pause.blockedAttempts then
            (s, .error (.database "out of range integral type conversion attempted"))
          else
            let pauses := s.pauses.insert owner.scope pause
            ({ s with pauses := if oldRuntime = owner.runtime then pauses else pauses.erase old },
              .ok (some pause))

end CaptureGaps

namespace AnalyticsCapturePause

def malformed (codec : PauseCodec) (p : AnalyticsCapturePause) : Bool :=
  p.version != 1 || p.generation == 0 || decide (i64MaxNat < p.generation) ||
    p.executionEpoch == 0 || decide (i64MaxNat < p.executionEpoch) ||
    decide (p.startedAtUs ≤ 0) || decide (p.lastBlockedAtUs < p.startedAtUs) ||
    !codec.isInstant p.lastBlockedAtUs ||
    [p.journalSourceId, p.strategyId, p.accountId].any unusableId ||
    decide (2048 < codec.pauseLen p)

end AnalyticsCapturePause

namespace AnalyticsCaptureHandoffReceipt

def malformed (codec : PauseCodec) (r : AnalyticsCaptureHandoffReceipt) : Bool :=
  r.version != 1 || r.sourceGeneration == 0 || decide (i64MaxNat < r.sourceGeneration) ||
    r.targetPauseGeneration == 0 || decide (i64MaxNat < r.targetPauseGeneration) ||
    [r.journalSourceId, r.strategyId, r.accountId, r.targetRuntimeId, r.targetLiveSessionId,
      r.targetRunId].any unusableId ||
    decide (2048 < codec.receiptLen r)

def covers (codec : PauseCodec) (r : AnalyticsCaptureHandoffReceipt) (p : AnalyticsCapturePause) :
    Bool :=
  !r.malformed codec && !p.malformed codec && r.pauseId == codec.stableId p &&
    r.journalSourceId == p.journalSourceId && r.sourceGeneration == p.generation &&
    r.strategyId == p.strategyId && r.accountId == p.accountId

end AnalyticsCaptureHandoffReceipt

/-- The pause of a scope after a journal gap was imported; where the gap
begins earlier the origin is not known. -/
def CapturePause.imported (run : String) (source : AnalyticsCapturePause) (retained limit : Nat) :
    Option CapturePause → CapturePause
  | none =>
    { generation := 1
      startedAtUs := source.startedAtUs
      lastBlockedAtUs := source.lastBlockedAtUs
      blockedAttempts := 1
      resumedAtUs := none
      retainedBytes := retained
      requestedBytes := 0
      limitBytes := limit
      originRuntimeId := none
      originRunId := none
      lastBlockedRunId := none
      ownerRunId := some run
      handoffCount := 0
      originRuntimeUnknown := true
      sourceObservationPauseId := none }
  | some row =>
    let earlier := !row.isOpen || decide (source.startedAtUs ≤ row.startedAtUs)
    let later := !row.isOpen || decide (row.lastBlockedAtUs ≤ source.lastBlockedAtUs)
    { generation := row.generation + 1
      startedAtUs :=
        if row.isOpen then min row.startedAtUs source.startedAtUs else source.startedAtUs
      lastBlockedAtUs :=
        if row.isOpen then max row.lastBlockedAtUs source.lastBlockedAtUs
        else source.lastBlockedAtUs
      blockedAttempts := row.blockedAttempts + 1
      resumedAtUs := none
      retainedBytes := retained
      requestedBytes := 0
      limitBytes := limit
      originRuntimeId := if earlier then none else row.originRuntimeId
      originRunId := if earlier then none else row.originRunId
      lastBlockedRunId := if later then none else row.lastBlockedRunId
      ownerRunId := some run
      handoffCount := if row.isOpen then row.handoffCount else 0
      originRuntimeUnknown := earlier || row.originRuntimeUnknown
      sourceObservationPauseId := row.sourceObservationPauseId }

def CapturePause.suspended (scope : Scope) (run : String) (startedAtUs : Int) (id : Uuid)
    (retained limit : Nat) : Option CapturePause → CapturePause
  | none =>
    { generation := 1
      startedAtUs := startedAtUs
      lastBlockedAtUs := startedAtUs
      blockedAttempts := 1
      resumedAtUs := none
      retainedBytes := retained
      requestedBytes := 0
      limitBytes := limit
      originRuntimeId := some scope.runtimeId
      originRunId := some run
      lastBlockedRunId := some run
      ownerRunId := some run
      handoffCount := 0
      originRuntimeUnknown := false
      sourceObservationPauseId := some id }
  | some row =>
    let earlier := !row.isOpen || decide (startedAtUs < row.startedAtUs)
    let later := !row.isOpen || decide (row.lastBlockedAtUs ≤ startedAtUs)
    { generation := row.generation + 1
      startedAtUs := if row.isOpen then min row.startedAtUs startedAtUs else startedAtUs
      lastBlockedAtUs := if row.isOpen then max row.lastBlockedAtUs startedAtUs else startedAtUs
      blockedAttempts := row.blockedAttempts + 1
      resumedAtUs := none
      retainedBytes := retained
      requestedBytes := 0
      limitBytes := limit
      originRuntimeId := if earlier then some scope.runtimeId else row.originRuntimeId
      originRunId := if earlier then some run else row.originRunId
      lastBlockedRunId := if later then some run else row.lastBlockedRunId
      ownerRunId := some run
      handoffCount := if row.isOpen then row.handoffCount else 0
      originRuntimeUnknown := !earlier && row.originRuntimeUnknown
      sourceObservationPauseId := some id }

namespace CaptureGaps

variable (codec : PauseCodec) (s : CaptureGaps)

def countable (scope : Scope) : Bool :=
  (s.pauses.lookup scope).all fun row =>
    decide (row.generation < i64MaxNat) && decide (row.blockedAttempts < i64MaxNat)

/-- The gap is new, and the scope's pause is opened or goes on with it. -/
def importGap (owner : CaptureOwner) (source : AnalyticsCapturePause) (retained limit : Nat) :
    Except OutboxStoreError (CaptureGaps × Option AnalyticsCaptureHandoffReceipt) := do
  refuseIf (!s.countable owner.scope)
    (OutboxStoreError.database "journal gap target generation or attempt count exhausted")
  let pause := CapturePause.imported owner.run source retained limit (s.pauses.lookup owner.scope)
  let receipt : AnalyticsCaptureHandoffReceipt :=
    { version := 1
      pauseId := codec.stableId source
      journalSourceId := source.journalSourceId
      sourceGeneration := source.generation
      strategyId := source.strategyId
      accountId := source.accountId
      targetRuntimeId := owner.runtime
      targetLiveSessionId := owner.session
      targetRunId := owner.run
      targetPauseGeneration := pause.generation }
  refuseIf (receipt.malformed codec)
    (OutboxStoreError.invalidRecord "invalid analytics capture handoff receipt")
  .ok
    ({ pauses := s.pauses.insert owner.scope pause
       handoffs := s.handoffs.insert source.journalSourceId
         ⟨source.generation, source.executionEpoch, source.strategyId, source.accountId,
           codec.stableId source, receipt⟩ },
      some receipt)

def importNext (owner : CaptureOwner) (source : AnalyticsCapturePause) (retained limit : Nat)
    (saved : JournalGapHandoff) :
    Except OutboxStoreError (CaptureGaps × Option AnalyticsCaptureHandoffReceipt) := do
  refuseIf (saved.strategyId ≠ source.strategyId ∨ saved.accountId ≠ source.accountId ∨
      saved.sourceGeneration = 0 ∨ saved.sourceEpoch = 0 ∨
      source.generation < saved.sourceGeneration ∨ source.executionEpoch < saved.sourceEpoch)
    (OutboxStoreError.invalidRecord "stale or conflicting journal gap lineage")
  if source.generation = saved.sourceGeneration then do
    refuseIf (saved.pauseId ≠ codec.stableId source)
      (OutboxStoreError.invalidRecord "journal gap generation was reused for different facts")
    refuseIf (2048 < codec.receiptLen saved.receipt)
      (OutboxStoreError.database "oversized saved journal gap receipt")
    refuseIf (!saved.receipt.covers codec source)
      (OutboxStoreError.database "saved journal gap receipt is inconsistent")
    .ok (s, some saved.receipt)
  else s.importGap codec owner source retained limit

/-- A journal gap is taken over once for each generation of its source; there
is no answer while the table of sources is full. -/
def handoffJournalPause (owner : CaptureOwner) (source : AnalyticsCapturePause)
    (retained limit : Nat) :
    CaptureGaps × Except OutboxStoreError (Option AnalyticsCaptureHandoffReceipt) :=
  let result : Except OutboxStoreError (CaptureGaps × Option AnalyticsCaptureHandoffReceipt) :=
    if source.malformed codec then .error (.invalidRecord "invalid analytics capture pause")
    else
      match s.handoffs.lookup source.journalSourceId with
      | some saved => s.importNext codec owner source retained limit saved
      | none =>
        if maxJournalGapSources ≤ s.handoffs.entries.length then .ok (s, none)
        else s.importGap codec owner source retained limit
  match result with
  | .error error => (s, .error error)
  | .ok (s, receipt) => (s, .ok receipt)

/-- The observation of a source is suspended; the same suspension is recorded
once while its pause is open. -/
def recordSourceSuspensionLocked (scope : Scope) (run : String) (startedAtUs : Int)
    (retained limit : Nat) : CaptureGaps × Except OutboxStoreError Unit :=
  let id := codec.suspensionId scope run startedAtUs
  if (s.pauses.lookup scope).any fun row =>
      row.sourceObservationPauseId == some id && row.isOpen then
    (s, .ok ())
  else if !s.countable scope then
    (s, .error (.database "source observation suspension fence exhausted"))
  else
    let pause :=
      CapturePause.suspended scope run startedAtUs id retained limit (s.pauses.lookup scope)
    ({ s with pauses := s.pauses.insert scope pause }, .ok ())

end CaptureGaps

end AqEngine.LiveSync
