import AqEngine.Journal.Repetition

namespace AqEngine.Broker

open Lib Fallible

namespace JournalOp

def beginsRetry : JournalOp → Bool
  | .beginCancellationRecovery .. => true
  | _ => false

def finishesRetry : JournalOp → Bool
  | .finishCancellationRecovery .. => true
  | _ => false

def OtherCommand (e : Encoding) (j : BrokerCommandJournal) (id : BrokerCommandId)
    (c : BrokerCommand) : Prop :=
  ∃ row, j.commands.lookup id = some row ∧ e.parseCommand row.commandJson ≠ .ok c

/-- The last answer about a command, where the journal has one. -/
def Answer (e : Encoding) (row : CommandRow) (completion : BrokerCommandCompletion) : Prop :=
  ∃ text, row.completionJson = some text ∧ e.parseCompletion text = .ok completion

/-- What an operation has to find in the journal: nothing that it names is
stored with other content, and the record is in the state that it starts from. -/
def Fits (e : Encoding) (j : BrokerCommandJournal) : JournalOp → Prop
  | .prepare c _ => ¬ OtherCommand e j c.id c
  | .persistExecutionBatch batch =>
    (∀ intent ∈ batch.intents, ¬ OtherCommand e j intent.command.id intent.command ∧
      ∀ order, j.admission.lookup intent.command.id = some order → order = intent.admissionOrder) ∧
    ∀ c ∈ batch.rows, j.isSaved c = true ∨
      (j.checkpoints.lookup c.id).elim 0 (·.revision) + 1 = c.revision
  | .markDispatched id _ => ∃ row, j.commands.lookup id = some row ∧ row.state = .queued
  | .deferUnpolledDispatch id atUs => ∃ row, j.commands.lookup id = some row ∧
    row.state = .dispatching ∧ row.dispatchedAtUs = some atUs
  | .complete c => ∃ row command, j.commands.lookup c.receipt.id = some row ∧
    e.parseCommand row.commandJson = .ok command ∧ command.receipt = c.receipt ∧
    row.queuedAtUs = c.queuedAtUs ∧
    (row.dispatchedAtUs = c.dispatchedAtUs ∨
      BrokerCommandJournal.cancelledWithoutDispatch c = true) ∧
    (row.completionJson = none ∨
      ∃ stored, Answer e row stored ∧ e.completionText stored = e.completionText c)
  | .confirmAmbiguousSubmission expected order _ => ∃ row request stored,
    j.commands.lookup expected.id = some row ∧ e.parseCommand row.commandJson = .ok expected ∧
    j.inScope expected = true ∧ expected.action = .submit request ∧ request.AnsweredBy order ∧
    Answer e row stored ∧ (BrokerCommandJournal.answeredBy e order stored = true ∨
      row.state = .completed ∧ stored.outcome.isAmbiguous = true)
  | .beginCancellationRecovery expected proof _ => ∃ row orderId,
    j.commands.lookup expected.id = some row ∧ e.parseCommand row.commandJson = .ok expected ∧
    j.inScope expected = true ∧ expected.action = .cancel orderId ∧ ¬ orderId.isEmpty ∧
    proof.orderId = orderId ∧ proof.status = .pending ∧ proof.positionId = none ∧
    proof.positionQty = none ∧ ¬ proof.symbol.all isBlank ∧ row.state.isComplete = true
  | .finishCancellationRecovery expected attempt result => ∃ row orderId answer,
    j.commands.lookup expected.id = some row ∧ e.parseCommand row.commandJson = .ok expected ∧
    j.inScope expected = true ∧ expected.action = .cancel orderId ∧
    result.receipt = expected.receipt ∧ result.queuedAtUs = row.queuedAtUs ∧
    result.dispatchedAtUs = row.dispatchedAtUs ∧
    j.attempts.lookup (expected.id, attempt) = some answer ∧ answer.resultJson = none ∧
    (row.state = .applied ∨ row.state = .completed ∧
      ∃ stored, Answer e row stored ∧ stored.outcome.isAmbiguous = true)

def Conflicts (e : Encoding) (j : BrokerCommandJournal) (op : JournalOp) : Prop := ¬ op.Fits e j

end JournalOp

namespace BrokerCommandJournal

variable {e : Encoding} {j j' : BrokerCommandJournal} {id : BrokerCommandId}
  {error : BrokerCommandError}

theorem updateCommand_error {f : CommandRow → Option CommandRow} {refusal : BrokerCommandError}
    (h : (j.updateCommand id f refusal).2 = .error error) :
    (j.updateCommand id f refusal).1 = j := by
  rcases updateCommand_cases j id f refusal with hu | ⟨row, row', -, -, hu⟩
  · rw [hu]
  rw [hu] at h
  cases h

theorem replaceCompletion_error {before after : BrokerCommandCompletion}
    (h : (j.replaceCompletion e id before after).2 = .error error) :
    (j.replaceCompletion e id before after).1 = j :=
  updateCommand_error (map_eq_error h)

structure SameTables (j j' : BrokerCommandJournal) : Prop where
  commands : j'.commands = j.commands
  admission : j'.admission = j.admission
  checkpoints : j'.checkpoints = j.checkpoints
  graph : j'.graph = j.graph

theorem settleCancellation_error {expected : BrokerCommand} {record : JournalCommandRecord}
    {result : BrokerCommandCompletion}
    (h : (settleCancellation e j expected record result).2 = .error error) :
    (settleCancellation e j expected record result).1 = j := by
  unfold settleCancellation at h ⊢
  split at h
  · cases h
  next hs =>
  rw [if_neg hs]
  split at h
  · rfl
  next _ _ =>
  split at h
  · next ho => rw [if_pos ho]
  next ho =>
  rw [if_neg ho]
  split at h
  · cases h
  next ha =>
  rw [if_neg ha]
  exact replaceCompletion_error (map_eq_error h)

theorem run_error (op : JournalOp) (hop : op.finishesRetry = false)
    (h : (run e j op).2 = .error error) : (run e j op).1 = j := by
  cases op with
  | prepare c =>
    have h := map_eq_error h
    simp only [run, prepare] at h ⊢
    split
    · rfl
    split
    · rfl
    split
    · simp_all
    · rfl
  | persistExecutionBatch batch =>
    rcases persistExecutionBatch_cases (e := e) (j := j) batch with ⟨_, hp⟩ | ⟨saved, -, hp⟩
    · exact congrArg Prod.fst hp
    rw [run, hp] at h
    cases h
  | markDispatched | deferUnpolledDispatch => exact updateCommand_error h
  | complete c =>
    simp only [run, complete] at h ⊢
    split
    · rfl
    next hc =>
    split
    · rfl
    next hn =>
    simp only [hc, hn] at h
    exact updateCommand_error h
  | confirmAmbiguousSubmission =>
    have h := map_eq_error h
    simp only [run, confirmAmbiguousSubmission] at h ⊢
    split
    · rfl
    next hco =>
    split
    · rfl
    next hold =>
    split
    · rfl
    next ha =>
    split
    · rfl
    next ho =>
    simp only [hco, hold, if_neg ha, if_neg ho] at h
    exact replaceCompletion_error h
  | beginCancellationRecovery =>
    have h := map_eq_error h
    simp only [run, beginCancellationRecovery] at h ⊢
    split
    · rfl
    next hr =>
    split
    · rfl
    next hs =>
    split
    · rfl
    next hold =>
    split
    · rfl
    · next ho => simp [hr, hold, if_neg hs, if_neg ho] at h
  | finishCancellationRecovery => cases hop

theorem run_error_tables (op : JournalOp) (h : (run e j op).2 = .error error) :
    SameTables j (run e j op).1 := by
  by_cases hop : op.finishesRetry = true
  · cases op with
    | finishCancellationRecovery =>
      have h := map_eq_error h
      simp only [run, discard, finishCancellationRecovery] at h ⊢
      split
      · exact ⟨rfl, rfl, rfl, rfl⟩
      next hf =>
      split
      · exact ⟨rfl, rfl, rfl, rfl⟩
      next ha =>
      simp only [hf, ha] at h
      rw [settleCancellation_error h]
      exact ⟨rfl, rfl, rfl, rfl⟩
    | _ => cases hop
  · rw [run_error op (by simpa using hop) h]
    exact ⟨rfl, rfl, rfl, rfl⟩

variable {c expected : BrokerCommand} {row : CommandRow} {record : JournalCommandRecord}
  {proof : OrderLifecycleSnapshot}

theorem not_otherCommand (hrow : j.commands.lookup id = some row) (hd : decode e row = .ok record)
    (hc : record.command = c) : ¬ JournalOp.OtherCommand e j id c := by
  rintro ⟨row₀, hr₀, ho⟩
  rw [hrow] at hr₀
  cases hr₀
  exact ho (hc ▸ (decode_eq_ok hd).1)

theorem prepare_fits {queuedAtUs : Int} (h : (run e j (.prepare c queuedAtUs)).2 = .ok ()) :
    ¬ JournalOp.OtherCommand e j c.id c := by
  obtain ⟨record, hok, -⟩ := map_eq_ok h
  rintro ⟨row, hrow, ho⟩
  simp only [prepare, hrow] at hok
  split at hok
  · cases hok
  split at hok
  · cases hok
  obtain ⟨found, hr, hok⟩ := bind_eq_ok.1 hok
  obtain ⟨hs, -⟩ := refuseIf_bind_eq_ok.1 hok
  obtain ⟨row', hrow', hd⟩ := require_eq_ok hr
  exact not_otherCommand hrow' hd (not_not.1 hs) ⟨row, hrow, ho⟩

theorem updateCommand_fits {f : CommandRow → Option CommandRow} {refusal : BrokerCommandError}
    (h : (j.updateCommand id f refusal).2 = .ok ()) :
    ∃ row row', j.commands.lookup id = some row ∧ f row = some row' := by
  rcases updateCommand_cases j id f refusal with hu | ⟨row, row', hrow, hrow', -⟩
  · rw [hu] at h
    cases h
  · exact ⟨row, row', hrow, hrow'⟩

theorem answer_of_decode {stored : BrokerCommandCompletion} (hd : decode e row = .ok record)
    (hs : record.completion = some stored) : JournalOp.Answer e row stored := by
  obtain ⟨-, -, -, -, hc, -⟩ := decode_eq_ok hd
  rw [hs] at hc
  exact parseStored_some hc

theorem complete_fits {completion : BrokerCommandCompletion}
    (h : (run e j (.complete completion)).2 = .ok ()) :
    JournalOp.Fits e j (.complete completion) := by
  simp only [run, complete] at h
  split at h
  · cases h
  next record hc =>
  obtain ⟨row, hrow, hd, hreceipt, hqu, hdi⟩ := completing_eq_ok hc
  obtain ⟨hp, -, hq, hat, hs, -⟩ := decode_eq_ok hd
  refine ⟨row, _, hrow, hp, hreceipt, hq.symm.trans hqu, hdi.imp_left hat.symm.trans, ?_⟩
  split at h
  · next existing he =>
    split at h
    · next heq => exact .inr ⟨existing, answer_of_decode hd he, heq⟩
    · cases h
  · next hn =>
    refine .inl (Option.eq_none_iff_forall_ne_some.2 fun text ht => ?_)
    rw [hn, ht] at hs
    obtain ⟨_, -, hs⟩ := bind_eq_ok.1 hs
    cases hs

theorem confirm_fits {order : Order} {nowUs : Int}
    (h : (run e j (.confirmAmbiguousSubmission expected order nowUs)).2 = .ok ()) :
    JournalOp.Fits e j (.confirmAmbiguousSubmission expected order nowUs) := by
  obtain ⟨completion, hok, -⟩ := map_eq_ok h
  simp only [confirmAmbiguousSubmission] at hok
  split at hok
  · cases hok
  next record hcon =>
  obtain ⟨row, request, hrow, hd, rfl, ha, han, hsc⟩ := confirming_eq_ok hcon
  obtain ⟨hp, hst, -⟩ := decode_eq_ok hd
  split at hok
  · cases hok
  next stored he =>
  refine ⟨row, request, stored, hrow, hp, hsc, ha, han, answer_of_decode hd he, ?_⟩
  split at hok
  · next hanswered => exact .inl hanswered
  split at hok
  · cases hok
  · next hun =>
    simp only [not_or, not_not, Bool.not_eq_false] at hun
    exact .inr ⟨hst.symm.trans hun.1, hun.2⟩

theorem begin_fits {atUs : Int}
    (h : (run e j (.beginCancellationRecovery expected proof atUs)).2 = .ok ()) :
    JournalOp.Fits e j (.beginCancellationRecovery expected proof atUs) := by
  obtain ⟨attempt, hok, -⟩ := map_eq_ok h
  simp only [beginCancellationRecovery] at hok
  split at hok
  · cases hok
  next record hr =>
  obtain ⟨found, hre, hr⟩ := bind_eq_ok.1 hr
  obtain ⟨row, hrow, hd⟩ := require_eq_ok hre
  obtain ⟨hp, hst, -, -, -, hcomplete⟩ := decode_eq_ok hd
  split at hr
  · next orderId ha =>
    obtain ⟨hs, hr⟩ := refuseIf_bind_eq_ok.1 hr
    cases hr
    simp only [not_or, not_not, Bool.not_eq_false, Option.not_isSome_iff_eq_none] at hs
    obtain ⟨rfl, hsc, hne, hid, hpe, hpo, hqt, hsy⟩ := hs
    refine ⟨row, orderId, hrow, hp, hsc, ha, hne, hid, hpe, hpo, hqt, hsy, ?_⟩
    split at hok
    · next happlied =>
      rw [← hst, happlied]
      rfl
    split at hok
    · cases hok
    · next hold =>
      rw [hcomplete, hold]
      rfl
  · cases hr

theorem finish_fits {attempt : Nat} {result : BrokerCommandCompletion}
    (h : (run e j (.finishCancellationRecovery expected attempt result)).2 = .ok ()) :
    JournalOp.Fits e j (.finishCancellationRecovery expected attempt result) := by
  obtain ⟨completion, hok, -⟩ := map_eq_ok h
  simp only [finishCancellationRecovery] at hok
  split at hok
  · cases hok
  next record hf =>
  obtain ⟨row, orderId, hrow, hd, rfl, ha, hre, hqu, hdi, hsc⟩ := finishing_eq_ok hf
  obtain ⟨hp, hst, hq, hat, -, -⟩ := decode_eq_ok hd
  split at hok
  · cases hok
  next attempts hat' =>
  obtain ⟨answer, answer', hanswer, hup, -⟩ := Table.update_eq_some hat'
  refine ⟨row, orderId, answer, hrow, hp, hsc, ha, hre, hqu.trans hq, hdi.trans hat, hanswer,
    (Option.ite_none_right_eq_some.1 hup).1, ?_⟩
  unfold settleCancellation at hok
  split at hok
  · next happlied => exact .inl (hst.symm.trans happlied)
  split at hok
  · cases hok
  next old hold =>
  split at hok
  · cases hok
  next hun =>
  simp only [not_or, not_not, Bool.not_eq_false] at hun
  exact .inr ⟨hst.symm.trans hun.1, old, answer_of_decode hd hold, hun.2⟩

theorem admitIntent_fits {k k' : BrokerCommandJournal} {intent : EncodedIntent}
    (he : Extends j k) (hok : admitIntent e k intent = .ok k') :
    ¬ JournalOp.OtherCommand e j intent.command.id intent.command ∧
      ∀ order, j.admission.lookup intent.command.id = some order →
        order = intent.admissionOrder := by
  refine ⟨fun ⟨row, hrow, hot⟩ => ?_, fun order ho => ?_⟩
  · obtain ⟨row', hrow', hj, -⟩ := he.commands _ row hrow
    obtain ⟨admission, -, -, hok⟩ := admitIntent_cases hok
    simp only [insertIntent, hrow'] at hok
    obtain ⟨existing, hp, hok⟩ := bind_eq_ok.1 hok
    obtain ⟨hs, -⟩ := refuseIf_bind_eq_ok.1 hok
    rw [hj, not_not.1 hs] at hp
    exact hot (orJournal_eq_ok.1 hp)
  · simp only [admitIntent, he.admission _ order ho] at hok
    exact not_not.1 (refuseIf_bind_eq_ok.1 hok).1

theorem persist_fits {batch : ExecutionCheckpointBatch}
    (h : (run e j (.persistExecutionBatch batch)).2 = .ok ()) :
    JournalOp.Fits e j (.persistExecutionBatch batch) := by
  rcases persistExecutionBatch_cases (e := e) (j := j) batch with ⟨error, hp⟩ | ⟨saved, hbo, -⟩
  · rw [run, hp] at h
    cases h
  obtain ⟨j₁, j₂, h₁, h₂, -⟩ := persistBody_eq_ok hbo
  refine ⟨fun intent hm => ?_, fun c hm => ?_⟩
  · obtain ⟨l₁, l₂, k, k', -, hk, hstep⟩ := foldlM_reaches hm h₁
    exact admitIntent_fits (foldlM_rel .refl .trans
      (fun _ _ _ _ h => (writes_admitIntent (.persistExecutionBatch batch) h).extends) hk) hstep
  -- Neither the intents nor the rows before `c` touch the row of `c`.
  have hint : SameRows j j₁ := foldlM_rel .refl .trans (fun _ _ _ _ => sameRows_admitIntent) h₁
  obtain ⟨l₁, l₂, k, k', hl, hk, hstep⟩ := foldlM_reaches hm h₂
  have hr : Untouched j₁ k c.id := by
    refine foldlM_rel (R := (Untouched · · c.id)) (fun _ => ⟨rfl, rfl⟩) (fun _ _ _ => .trans) ?_ hk
    intro s b t hb hs
    have hsu : [b, c].Sublist batch.rows := by
      rw [hl]
      exact (List.singleton_sublist.2 hb).append (List.singleton_sublist.2 List.mem_cons_self)
    exact untouched_saveCheckpoint hs (id_ne_of_sublist hsu).symm
  have hr := hr.row
  rw [hint.checkpoints] at hr
  rcases saveCheckpoint_cases hstep with ⟨-, hs'⟩ | ⟨hr', -⟩
  · rw [isSaved, hr, ← isSaved] at hs'
    exact .inl hs'
  · rw [hr] at hr'
    exact .inr hr'

theorem run_fits (op : JournalOp) (h : (run e j op).2 = .ok ()) : op.Fits e j := by
  cases op with
  | prepare c => exact prepare_fits h
  | persistExecutionBatch => exact persist_fits h
  | markDispatched =>
    obtain ⟨row, row', hrow, hf⟩ := updateCommand_fits h
    exact ⟨row, hrow, (Option.ite_none_right_eq_some.1 hf).1⟩
  | deferUnpolledDispatch =>
    obtain ⟨row, row', hrow, hf⟩ := updateCommand_fits h
    obtain ⟨hs, ho, -⟩ := (Option.ite_none_right_eq_some.1 hf).1
    exact ⟨row, hrow, hs, ho⟩
  | complete c => exact complete_fits h
  | confirmAmbiguousSubmission => exact confirm_fits h
  | beginCancellationRecovery => exact begin_fits h
  | finishCancellationRecovery => exact finish_fits h

theorem run_repeated (op : JournalOp) (hop : op.beginsRetry = false) :
    (run e (run e j op).1 op).1 = (run e j op).1 := by
  cases op with
  | prepare c queuedAtUs => exact prepare_repeated c queuedAtUs
  | persistExecutionBatch batch => exact persistExecutionBatch_repeated batch
  | markDispatched _ atUs => exact markDispatched_repeated atUs
  | deferUnpolledDispatch _ atUs => exact deferUnpolledDispatch_repeated atUs
  | complete c => exact complete_repeated c
  | confirmAmbiguousSubmission expected order nowUs =>
    exact confirmAmbiguousSubmission_repeated expected order nowUs
  | beginCancellationRecovery expected _ atUs => cases hop
  | finishCancellationRecovery expected attempt result =>
    exact finishCancellationRecovery_repeated expected attempt result

/-- The durable record of a command along every sequence of operations. It
moves by record steps only; a stored completion is replaced only while it is
uncertain, by the order of an entry or the acknowledgement of a cancel. -/
theorem command_record_lifecycle (e : Encoding) (strategyId accountId : String)
    (ops : List JournalOp) (op : JournalOp) :
    let j := runAll e { strategyId, accountId } ops
    let r := run e j op
    (∀ id row, j.commands.lookup id = some row → row.Consistent ∧
      ∃ row', r.1.commands.lookup id = some row' ∧ RecordStep e id row op row' ∧
        (row'.state = row.state ∨ row.state.Moves row'.state) ∧
        (row.state = .applied → row' = row) ∧
        ∀ text c, row.completionJson = some text → e.parseCompletion text = .ok c →
          c.outcome.isAmbiguous = false → row'.completionJson = some text) ∧
    (∀ id row, j.commands.lookup id = none → r.1.commands.lookup id = some row → row.Fresh) ∧
    (op.beginsRetry = false → (run e r.1 op).1 = r.1) ∧
    (op.Conflicts e j → ∃ error, r.2 = .error error) ∧
    (∀ error, r.2 = .error error →
      SameTables j r.1 ∧ (op.finishesRetry = false → r.1 = j)) := by
  intro j r
  have hco : j.Consistent := consistent_runAll ops fun id row hrow => by cases hrow
  have hstep : RowsStep e op j r.1 := (writes_run op).rows
  refine ⟨fun id row hrow => ⟨hco id row hrow, ?_⟩, hstep.added, run_repeated op,
    fun hop => error_of_not_ok fun _ h => hop (run_fits op h),
    fun error h => ⟨run_error_tables op h, fun hop => run_error op hop h⟩⟩
  obtain ⟨row', hrow', hrec⟩ := hstep.kept id row hrow
  exact ⟨row', hrow', hrec, hrec.moves, hrec.applied_absorbing, fun text c hte hc =>
    hrec.certain_kept (hco id row hrow) hte hc⟩

def sampleRequest : BrokerOrderRequest where
  clientOrderId := "client-1"
  insightId := "11111111-1111-1111-1111-111111111111"
  strategyType := "manual"
  symbol := "BTCUSD"
  quantity := some 1
  side := .buy
  orderType := .market
  orderClass := .simple
  limitPrice := none
  stopPrice := none
  takeProfitLevels := none
  stopLossLevels := none
  trailingStopPrice := none

def sampleEntry : BrokerCommand where
  version := 1
  id := ⟨"entry-1"⟩
  strategyId := "strategy"
  accountId := "account"
  insightId := "11111111-1111-1111-1111-111111111111"
  group := none
  dispatchConstraints := {}
  action := .submit sampleRequest

def sampleRefusal : BrokerCommandCompletion :=
  ⟨sampleEntry.receipt, 1, none, 2, .cancelledBeforeDispatch⟩

def sampleCancel : BrokerCommand :=
  { sampleEntry with id := ⟨"cancel-1"⟩, action := .cancel "order-1" }

def sampleLost : BrokerCommandCompletion :=
  ⟨sampleCancel.receipt, 2, some 3, 4, .ambiguous "connection reset"⟩

def sampleAcknowledged : BrokerCommandCompletion := { sampleLost with outcome := .acknowledged }

def sampleProof : OrderLifecycleSnapshot := ⟨"order-1", .pending, none, none, some "BTCUSD", none⟩

def sampleEncoding : Encoding :=
  .ofSamples "entry-1" [sampleEntry, sampleCancel] [sampleRefusal, sampleLost, sampleAcknowledged]
    [] []

/-- A cancel is lost, its recovery has begun twice, and the first attempt is
acknowledged. -/
def recovered : List JournalOp :=
  [.prepare sampleCancel 2, .markDispatched sampleCancel.id 3, .complete sampleLost,
    .beginCancellationRecovery sampleCancel sampleProof 5,
    .beginCancellationRecovery sampleCancel sampleProof 5,
    .finishCancellationRecovery sampleCancel 1 sampleAcknowledged]

/-- A record also moves from queued to completed without dispatching. The same
recovery begun again is a further attempt. The answer to an attempt is kept also
where it is refused. -/
theorem refused_record_skips_dispatching :
    (¬ ∀ (e : Encoding) (strategyId accountId : String) (ops : List JournalOp) (op : JournalOp)
        (id : BrokerCommandId) (row row' : CommandRow),
      (runAll e { strategyId, accountId } ops).commands.lookup id = some row →
      (run e (runAll e { strategyId, accountId } ops) op).1.commands.lookup id = some row' →
      row'.state = row.state ∨ (row.state, row'.state) ∈
        [(.queued, .dispatching), (.dispatching, .completed), (.completed, .applied),
          (.dispatching, .queued)]) ∧
    (let start : BrokerCommandJournal := { strategyId := "strategy", accountId := "account" }
    let after n := runAll sampleEncoding start (recovered.take n)
    let r := run sampleEncoding (after 6)
      (.finishCancellationRecovery sampleCancel 2 sampleAcknowledged)
    let answered (j : BrokerCommandJournal) :=
      (j.attempts.lookup (sampleCancel.id, 2)).any (·.resultJson.isSome)
    (after 4).attempts.keys.length = 1 ∧ (after 5).attempts.keys.length = 2 ∧
      r.2 = .error .identityConflict ∧ answered (after 6) = false ∧ answered r.1 = true) := by
  refine ⟨fun h => ?_, by decide +kernel⟩
  have hmo := h sampleEncoding "strategy" "account" [.prepare sampleEntry 1]
    (.complete sampleRefusal) sampleEntry.id ⟨1, "", .queued, 1, none, none⟩
    ⟨1, "", .completed, 1, none, some ""⟩ (by decide +kernel) (by decide +kernel)
  exact absurd hmo (by decide)

end BrokerCommandJournal

end AqEngine.Broker
