import AqEngine.Journal.Store
import AqEngine.Lib.Runs

namespace AqEngine.Broker

open Lib Insights Option

structure LifecycleRow where
  (version epoch : Nat)
  phase : ExecutionPhase
  stopRequestedAtUs : Option Int
  deriving DecidableEq, Repr

/-- What is on disk. The tables of commands and of saved insights are
changed by other writers, which leave the lifecycle alone. -/
structure EpochStore where
  row : Option LifecycleRow := none
  journal : BrokerCommandJournal

/-- The owner of the journal: the store, and the lifecycle that the open
journal holds in memory. There is none while the process is down. -/
structure EpochOwner where
  store : EpochStore
  memory : Option ExecutionLifecycle := none

/-- How the database answers a call: it does its work, it fails at one of
the statements, or the process dies before or after the commit. -/
inductive DatabaseAnswer where
  | done
  | failed (error : BrokerCommandError)
  | crashed (committed : Bool)
  deriving DecidableEq

namespace LifecycleRow

def lifecycle (row : LifecycleRow) : ExecutionLifecycle :=
  ⟨row.epoch, row.phase, row.stopRequestedAtUs⟩

/-- `UPDATE … SET phase='stopping' … WHERE … AND phase='running'` -/
def setStopping (epoch : Nat) (time : Int) (row : LifecycleRow) : Option LifecycleRow :=
  if row.version = 1 ∧ row.epoch = epoch ∧ row.phase = .running then
    some { row with phase := .stopping, stopRequestedAtUs := some time }
  else none

/-- `UPDATE … SET phase='stopped' WHERE … AND phase IN ('stopping','stopped')` -/
def setStopped (epoch : Nat) (row : LifecycleRow) : Option LifecycleRow :=
  if row.version = 1 ∧ row.epoch = epoch ∧ (row.phase = .stopping ∨ row.phase = .stopped) then
    some { row with phase := .stopped }
  else none

/-- `UPDATE … SET epoch=?1,phase='running',… WHERE … AND phase='stopped'` -/
def setRunning (next epoch : Nat) (row : LifecycleRow) : Option LifecycleRow :=
  if row.version = 1 ∧ row.epoch = epoch ∧ row.phase = .stopped then
    some { row with epoch := next, phase := .running, stopRequestedAtUs := none }
  else none

end LifecycleRow

/-- What a call wants to do: answer without a write, or write the row that
the conditional update gives and then change the memory. -/
inductive LifecyclePlan (α : Type) where
  | answer (result : Except BrokerCommandError α)
  | write (row : LifecycleRow) (memory : ExecutionLifecycle) (result : α)

def BrokerCommandJournal.isSettled (j : BrokerCommandJournal) : Bool :=
  j.commands.entries.all (fun row => row.2.state == .applied) &&
    j.graph.entries.all (fun row => !row.2.recoverySeed)

namespace EpochStore

variable (store : EpochStore) (memory : ExecutionLifecycle)

def updating {α : Type} (update : LifecycleRow → Option LifecycleRow)
    (memory : ExecutionLifecycle) (result : α) (fence : String) : LifecyclePlan α :=
  match store.row.bind update with
  | none => .answer (.error (journalError fence))
  | some row => .write row memory result

def requestStop (time : Int) : LifecyclePlan Unit :=
  if memory.phase ≠ .running then .answer (.ok ())
  else store.updating (LifecycleRow.setStopping memory.epoch time)
    { memory with phase := .stopping, stopRequestedAtUs := some time } ()
    "execution stop fence changed unexpectedly"

def completeStop : LifecyclePlan Bool :=
  if memory.phase = .running then
    .answer (.error (journalError "execution stop was not durably requested"))
  else if !store.journal.isSettled then .answer (.ok false)
  else store.updating (LifecycleRow.setStopped memory.epoch) { memory with phase := .stopped } true
    "execution stop completion fence changed unexpectedly"

def beginEpoch : LifecyclePlan ExecutionLifecycle :=
  if memory.phase ≠ .stopped then .answer (.ok memory)
  else if maxRevision < memory.epoch + 1 then
    .answer (.error (journalError "execution epoch exhausted"))
  else if !store.journal.isSettled then
    .answer (.error (journalError "stopped execution epoch still owns unresolved work"))
  else
    let lifecycle : ExecutionLifecycle := { epoch := memory.epoch + 1 }
    store.updating (LifecycleRow.setRunning (memory.epoch + 1) memory.epoch) lifecycle lifecycle
      "execution epoch fence changed unexpectedly"

def installed : LifecycleRow := store.row.getD ⟨1, 1, .running, none⟩

def install : Except BrokerCommandError ExecutionLifecycle :=
  let row := store.installed
  if row.version ≠ 1 then .error (journalError "unsupported execution lifecycle version")
  else if row.epoch = 0 ∨ (row.phase == .running) ≠ row.stopRequestedAtUs.isNone then
    .error (journalError "inconsistent execution lifecycle")
  else .ok row.lifecycle

end EpochStore

namespace EpochOwner

variable (s : EpochOwner)

def setRow (row : LifecycleRow) : EpochOwner := { s with store.row := some row }

/-- A call on the open journal. A failed statement changes nothing; a crash
loses the memory, and the write if it was not committed. -/
def call {α : Type} (plan : EpochStore → ExecutionLifecycle → LifecyclePlan α)
    (answer : DatabaseAnswer) : Option (EpochOwner × Except BrokerCommandError α) :=
  match s.memory with
  | none => none
  | some memory =>
    match plan s.store memory, answer with
    | .answer result, .done => some (s, result)
    | .write row memory result, .done =>
      some ({ s.setRow row with memory := some memory }, .ok result)
    | _, .failed error => some (s, .error error)
    | .write row _ _, .crashed true =>
      some ({ s.setRow row with memory := none }, .error (journalError "crashed"))
    | _, .crashed _ => some ({ s with memory := none }, .error (journalError "crashed"))

def restart (answer : DatabaseAnswer) : EpochOwner :=
  match answer with
  | .done =>
    match s.store.install with
    | .ok lifecycle => { s.setRow s.store.installed with memory := some lifecycle }
    | .error _ => { s.setRow s.store.installed with memory := none }
  | .failed _ => { s with memory := none }
  | .crashed true => { s.setRow s.store.installed with memory := none }
  | .crashed false => { s with memory := none }

end EpochOwner

inductive EpochAction where
  | requestStop (time : Int) (answer : DatabaseAnswer)
  | completeStop (answer : DatabaseAnswer)
  | beginEpoch (answer : DatabaseAnswer)
  | crash
  | restart (answer : DatabaseAnswer)
  | write (journal : BrokerCommandJournal)

namespace EpochOwner

def step (s : EpochOwner) : EpochAction → Option EpochOwner
  | .requestStop time answer => (s.call (EpochStore.requestStop · · time) answer).map (·.1)
  | .completeStop answer => (s.call EpochStore.completeStop answer).map (·.1)
  | .beginEpoch answer => (s.call EpochStore.beginEpoch answer).map (·.1)
  | .crash => some { s with memory := none }
  | .restart answer => some (s.restart answer)
  | .write journal => some { s with store.journal := journal }

end EpochOwner

def BrokerCommandJournal.Settled (j : BrokerCommandJournal) : Prop :=
  (∀ id row, j.commands.lookup id = some row → row.state = .applied) ∧
    ∀ key row, j.graph.lookup key = some row → row.recoverySeed = false

theorem BrokerCommandJournal.settled_of_isSettled {j : BrokerCommandJournal}
    (h : j.isSettled = true) : j.Settled := by
  obtain ⟨hc, hg⟩ := Bool.and_eq_true_iff.1 h
  constructor
  · intro id row hrow
    have ha := List.all_eq_true.1 hc ⟨id, row⟩ (AList.mem_lookup_iff.1 hrow)
    exact of_decide_eq_true ha
  · intro key row hrow
    have hs := List.all_eq_true.1 hg ⟨key, row⟩ (AList.mem_lookup_iff.1 hrow)
    simpa using hs

/-- The changes of the row that the three calls can make. -/
inductive LifecycleRow.Advance (j : BrokerCommandJournal) : EpochAction → LifecycleRow →
    LifecycleRow → Prop where
  | stopping {row} {time : Int} {answer} (running : row.phase = .running) :
      Advance j (.requestStop time answer) row
        { row with phase := .stopping, stopRequestedAtUs := some time }
  | stopped {row answer} (requested : row.phase ≠ .running) (settled : j.Settled) :
      Advance j (.completeStop answer) row { row with phase := .stopped }
  | running {row answer} (stopped : row.phase = .stopped) (settled : j.Settled) :
      Advance j (.beginEpoch answer) row
        { row with epoch := row.epoch + 1, phase := .running, stopRequestedAtUs := none }

namespace LifecycleRow

structure Consistent (row : LifecycleRow) : Prop where
  version : row.version = 1
  epoch : 0 < row.epoch
  phase : row.phase = .running ↔ row.stopRequestedAtUs = none

variable {j : BrokerCommandJournal} {a : EpochAction} {row row' : LifecycleRow}

theorem Advance.consistent (h : Advance j a row row') (hrow : row.Consistent) :
    row'.Consistent := by
  cases h with
  | stopping running => exact ⟨hrow.version, hrow.epoch, by simp⟩
  | stopped requested =>
    refine ⟨hrow.version, hrow.epoch, ?_⟩
    have hs : row.stopRequestedAtUs ≠ none := fun hn => requested (hrow.phase.2 hn)
    simp [hs]
  | running stopped => exact ⟨hrow.version, Nat.succ_pos _, by simp⟩

theorem Advance.epoch_le (h : Advance j a row row') : row.epoch ≤ row'.epoch := by
  cases h with
  | stopping | stopped => exact le_rfl
  | running stopped => exact Nat.le_succ _

theorem Advance.begins (h : Advance j a row row') (hc : row'.epoch ≠ row.epoch ∨
      row.stopRequestedAtUs.isSome ∧ row'.stopRequestedAtUs = none) :
    row'.epoch = row.epoch + 1 ∧ (∃ answer, a = .beginEpoch answer) ∧ row.phase = .stopped ∧
      j.Settled := by
  cases h with
  | stopping running => simp at hc
  | stopped _ settled =>
    obtain he | ⟨hs, hn⟩ := hc
    · exact absurd rfl he
    simp only at hn
    simp [hn] at hs
  | @running _ answer stopped settled => exact ⟨rfl, ⟨answer, rfl⟩, stopped, settled⟩

end LifecycleRow

namespace EpochStore

variable {store : EpochStore} {memory : ExecutionLifecycle} {row row' : LifecycleRow} {α : Type}
  {result : α}

theorem updating_write {update : LifecycleRow → Option LifecycleRow} {fence : String}
    {memory' : ExecutionLifecycle} {wanted : α}
    (h : store.updating update memory wanted fence = .write row' memory' result)
    (hrow : store.row = some row) : update row = some row' ∧ memory' = memory := by
  unfold updating at h
  rw [hrow, bind_some] at h
  cases hu : update row with
  | none =>
    rw [hu] at h
    cases h
  | some =>
    rw [hu] at h
    cases h
    exact ⟨rfl, rfl⟩

variable {memory' : ExecutionLifecycle} {answer : DatabaseAnswer}

theorem requestStop_write {time : Int} {result : Unit}
    (h : store.requestStop row.lifecycle time = .write row' memory' result)
    (hrow : store.row = some row) :
    row.Advance store.journal (.requestStop time answer) row' ∧ memory' = row'.lifecycle := by
  unfold requestStop at h
  split at h
  · cases h
  obtain ⟨hu, rfl⟩ := updating_write h hrow
  obtain ⟨hw, hu⟩ := ite_none_right_eq_some.1 hu
  cases hu
  exact ⟨.stopping hw.2.2, rfl⟩

theorem completeStop_write {result : Bool}
    (h : store.completeStop row.lifecycle = .write row' memory' result)
    (hrow : store.row = some row) :
    row.Advance store.journal (.completeStop answer) row' ∧ memory' = row'.lifecycle := by
  unfold completeStop at h
  split at h
  · cases h
  rename_i hphase
  split at h
  · cases h
  rename_i hs
  obtain ⟨hu, rfl⟩ := updating_write h hrow
  obtain ⟨-, hu⟩ := ite_none_right_eq_some.1 hu
  cases hu
  exact ⟨.stopped hphase (BrokerCommandJournal.settled_of_isSettled (by simpa using hs)), rfl⟩

theorem beginEpoch_write {result : ExecutionLifecycle}
    (h : store.beginEpoch row.lifecycle = .write row' memory' result)
    (hrow : store.row = some row) :
    row.Advance store.journal (.beginEpoch answer) row' ∧ memory' = row'.lifecycle := by
  unfold beginEpoch at h
  split at h
  · cases h
  split at h
  · cases h
  split at h
  · cases h
  rename_i hphase _ hs
  obtain ⟨hu, rfl⟩ := updating_write h hrow
  obtain ⟨-, hu⟩ := ite_none_right_eq_some.1 hu
  cases hu
  exact ⟨.running (not_not.1 hphase)
    (BrokerCommandJournal.settled_of_isSettled (by simpa using hs)), rfl⟩

theorem install_ok (h : store.installed.Consistent) :
    store.install = .ok store.installed.lifecycle := by
  have hphase : (store.installed.phase == .running) = store.installed.stopRequestedAtUs.isNone := by
    rw [Bool.eq_iff_iff, beq_iff_eq, isNone_iff_eq_none]
    exact h.phase
  have he : store.installed.epoch ≠ 0 := h.epoch.ne'
  simp [install, h.version, he, hphase]

end EpochStore

namespace EpochOwner

variable {s s' : EpochOwner} {a : EpochAction}

/-- The row on disk passes the checks of a restart, and an open journal
holds the lifecycle of that row. -/
structure Faithful (s : EpochOwner) : Prop where
  consistent : ∀ row, s.store.row = some row → row.Consistent
  memory : ∀ lifecycle, s.memory = some lifecycle →
    ∃ row, s.store.row = some row ∧ lifecycle = row.lifecycle

/-- What an action does to the row: nothing, one of the changes of the
calls, or the creation of the row by the first start. -/
inductive RowStep (s s' : EpochOwner) (a : EpochAction) : Prop where
  | kept (row : s'.store.row = s.store.row)
  | advanced {row row' : LifecycleRow} (hrow : s.store.row = some row)
      (hrow' : s'.store.row = some row') (notRestart : ∀ answer, a ≠ .restart answer)
      (advance : row.Advance s.store.journal a row')
  | created (hrow : s.store.row = none) (hrow' : s'.store.row = some s.store.installed)

theorem installed_consistent (h : s.Faithful) : s.store.installed.Consistent := by
  unfold EpochStore.installed
  cases hrow : s.store.row with
  | none => exact ⟨rfl, Nat.one_pos, by simp⟩
  | some row => exact h.consistent row hrow

theorem faithful_of_kept (h : s.Faithful) (hrow : s'.store.row = s.store.row)
    (hm : s'.memory = s.memory ∨ s'.memory = none) : s'.Faithful := by
  refine ⟨fun row => by rw [hrow]; exact h.consistent row, fun lifecycle hs => ?_⟩
  rw [hrow]
  obtain hk | hn := hm
  · exact h.memory lifecycle (hk ▸ hs)
  rw [hn] at hs
  cases hs

theorem faithful_of_row {row : LifecycleRow} (hrow : s'.store.row = some row) (hc : row.Consistent)
    (hm : s'.memory = some row.lifecycle ∨ s'.memory = none) : s'.Faithful := by
  refine ⟨fun _ ho => ?_, fun _ hs => ?_⟩
  · rw [hrow] at ho
    cases ho
    exact hc
  · obtain hme | hn := hm
    · rw [hme] at hs
      cases hs
      exact ⟨row, hrow, rfl⟩
    · rw [hn] at hs
      cases hs

theorem call_step {α : Type} {plan : EpochStore → ExecutionLifecycle → LifecyclePlan α}
    {answer : DatabaseAnswer}
    (hp : ∀ row row' memory' value, s.store.row = some row →
      plan s.store row.lifecycle = .write row' memory' value →
      row.Advance s.store.journal a row' ∧ memory' = row'.lifecycle)
    (ha : ∀ answer, a ≠ .restart answer)
    (h : s.Faithful) (hc : (s.call plan answer).map (·.1) = some s') :
    s'.Faithful ∧ RowStep s s' a := by
  unfold call at hc
  cases hm : s.memory with
  | none =>
    rw [hm] at hc
    cases hc
  | some memory =>
    obtain ⟨row, hrow, rfl⟩ := h.memory memory hm
    rw [hm] at hc
    simp only at hc
    split at hc
    case h_1 =>
      cases hc
      exact ⟨h, .kept rfl⟩
    case h_2 row' memory' value hw =>
      cases hc
      obtain ⟨had, rfl⟩ := hp row row' memory' value hrow hw
      exact ⟨faithful_of_row rfl (had.consistent (h.consistent row hrow)) (.inl rfl),
        .advanced hrow rfl ha had⟩
    case h_3 =>
      cases hc
      exact ⟨h, .kept rfl⟩
    case h_4 row' memory' value hw =>
      cases hc
      obtain ⟨had, -⟩ := hp row row' memory' value hrow hw
      exact ⟨faithful_of_row rfl (had.consistent (h.consistent row hrow)) (.inr rfl),
        .advanced hrow rfl ha had⟩
    case h_5 =>
      cases hc
      exact ⟨faithful_of_kept h rfl (.inr rfl), .kept rfl⟩

theorem rowStep_installed (hrow : s'.store.row = some s.store.installed) : RowStep s s' a := by
  cases hold : s.store.row with
  | none => exact .created hold hrow
  | some =>
    refine .kept ?_
    rw [hrow]
    simp [EpochStore.installed, hold]

theorem restart_step (h : s.Faithful) (answer : DatabaseAnswer) :
    (s.restart answer).Faithful ∧ RowStep s (s.restart answer) (.restart answer) := by
  have hc := installed_consistent h
  cases answer with
  | done =>
    simp only [restart, EpochStore.install_ok hc]
    exact ⟨faithful_of_row rfl hc (.inl rfl), rowStep_installed rfl⟩
  | failed => exact ⟨faithful_of_kept h rfl (.inr rfl), .kept rfl⟩
  | crashed committed =>
    cases committed with
    | true => exact ⟨faithful_of_row rfl hc (.inr rfl), rowStep_installed rfl⟩
    | false => exact ⟨faithful_of_kept h rfl (.inr rfl), .kept rfl⟩

theorem step_rowStep (h : s.Faithful) (hstep : s.step a = some s') :
    s'.Faithful ∧ RowStep s s' a := by
  cases a with
  | requestStop _ answer =>
    exact call_step (fun _ _ _ _ hrow hw => EpochStore.requestStop_write hw hrow)
      (fun _ => nofun) h hstep
  | completeStop answer =>
    exact call_step (fun _ _ _ _ hrow hw => EpochStore.completeStop_write hw hrow)
      (fun _ => nofun) h hstep
  | beginEpoch answer =>
    exact call_step (fun _ _ _ _ hrow hw => EpochStore.beginEpoch_write hw hrow)
      (fun _ => nofun) h hstep
  | crash =>
    cases hstep
    exact ⟨faithful_of_kept h rfl (.inr rfl), .kept rfl⟩
  | restart answer =>
    cases hstep
    exact restart_step h answer
  | write =>
    cases hstep
    exact ⟨faithful_of_kept h rfl (.inl rfl), .kept rfl⟩

theorem faithful_of_runs {journal : BrokerCommandJournal} {actions : List EpochAction}
    (h : runs step { store.journal := journal } actions = some s) : s.Faithful := by
  refine runs_invariant (fun _ _ _ hs hstep => (step_rowStep hs hstep).1) ?_ h
  exact ⟨fun _ hrow => (nomatch hrow), fun _ hm => (nomatch hm)⟩

/-- An epoch ends only by a begin that finds it stopped on disk and settled,
and only such a begin takes a request to stop back; a restart keeps the row;
and an open journal always holds what is on disk. -/
theorem epochs_of_runs {journal : BrokerCommandJournal} {actions : List EpochAction}
    (hrun : runs step { store.journal := journal } actions = some s)
    (hstep : s.step a = some s') :
    (∀ row, s.store.row = some row → ∃ row', s'.store.row = some row' ∧
      row.epoch ≤ row'.epoch ∧
      ((row'.epoch ≠ row.epoch ∨ row.stopRequestedAtUs.isSome ∧ row'.stopRequestedAtUs = none) →
        row'.epoch = row.epoch + 1 ∧ (∃ answer, a = .beginEpoch answer) ∧
          row.phase = .stopped ∧ s.store.journal.Settled) ∧
      (∀ answer, a = .restart answer → row' = row)) ∧
    (∀ lifecycle, s'.memory = some lifecycle →
      ∃ row', s'.store.row = some row' ∧ lifecycle = row'.lifecycle) ∧
    (a = .restart .done → s'.memory.isSome) := by
  have hfa := faithful_of_runs hrun
  obtain ⟨hfa', hro⟩ := step_rowStep hfa hstep
  refine ⟨?_, hfa'.memory, ?_⟩
  · intro row hrow
    cases hro with
    | kept hke =>
      refine ⟨row, hke.trans hrow, le_rfl, ?_, fun _ _ => rfl⟩
      rintro (hep | ⟨hso, hno⟩)
      · exact absurd rfl hep
      · rw [hno] at hso
        cases hso
    | advanced hrow₁ hrow' notRestart advance =>
      rw [hrow] at hrow₁
      cases hrow₁
      exact ⟨_, hrow', advance.epoch_le, advance.begins,
        fun answer ha => absurd ha (notRestart answer)⟩
    | created hno hrow' =>
      rw [hrow] at hno
      cases hno
  · rintro rfl
    cases hstep
    simp [restart, EpochStore.install_ok (installed_consistent hfa)]

/-- A run of one epoch: it is stopped, the process dies after the commit of
the completion, and the restarted process begins the next epoch. -/
theorem epochs_of_runs_sample : ∃ s s' : EpochOwner,
    runs step { store.journal := { strategyId := "s", accountId := "a" } }
      [.restart .done, .requestStop 5 .done, .completeStop (.crashed true), .restart .done] =
        some s ∧ s.step (.beginEpoch .done) = some s' ∧
    s'.store.row = some ⟨1, 2, .running, none⟩ ∧
    ∀ row, s.store.row = some row → ∃ row', s'.store.row = some row' ∧ row.epoch ≤ row'.epoch := by
  refine ⟨?s, ?s', ?run, ?begin, ?_, fun row hrow =>
    ((epochs_of_runs ?run ?begin).1 row hrow).imp fun _ h => ⟨h.1, h.2.1⟩⟩
  case run => rfl
  case begin => rfl
  rfl

end EpochOwner

end AqEngine.Broker
