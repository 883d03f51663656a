import AqEngine.Journal.Store

namespace AqEngine.Broker

open Lib Fallible Option

/-- The writers of the journal with their arguments. Marking receipts as
applied is part of a batch. -/
inductive JournalOp where
  | prepare (command : BrokerCommand) (queuedAtUs : Int)
  | persistExecutionBatch (batch : ExecutionCheckpointBatch)
  | markDispatched (id : BrokerCommandId) (atUs : Int)
  | deferUnpolledDispatch (id : BrokerCommandId) (dispatchedAtUs : Int)
  | complete (completion : BrokerCommandCompletion)
  | confirmAmbiguousSubmission (expected : BrokerCommand) (order : Order) (nowUs : Int)
  | beginCancellationRecovery (expected : BrokerCommand) (proof : OrderLifecycleSnapshot)
      (atUs : Int)
  | finishCancellationRecovery (expected : BrokerCommand) (attempt : Nat)
      (result : BrokerCommandCompletion)
  deriving DecidableEq

namespace BrokerCommandJournal

variable (e : Encoding)

def discard {α : Type} (r : JournalResult α) : JournalResult Unit := (r.1, r.2.map fun _ => ())

def run (j : BrokerCommandJournal) : JournalOp → JournalResult Unit
  | .prepare c queuedAtUs => discard (prepare e j c queuedAtUs)
  | .persistExecutionBatch batch => persistExecutionBatch e j batch
  | .markDispatched id atUs => markDispatched j id atUs
  | .deferUnpolledDispatch id atUs => deferUnpolledDispatch j id atUs
  | .complete c => complete e j c
  | .confirmAmbiguousSubmission expected order nowUs =>
    discard (confirmAmbiguousSubmission e j expected order nowUs)
  | .beginCancellationRecovery expected proof atUs =>
    discard (beginCancellationRecovery e j expected proof atUs)
  | .finishCancellationRecovery expected attempt result =>
    discard (finishCancellationRecovery e j expected attempt result)

def runAll (j : BrokerCommandJournal) (ops : List JournalOp) : BrokerCommandJournal :=
  ops.foldl (fun j op => (run e j op).1) j

end BrokerCommandJournal

/-- An order that the broker reports for the request of an entry. -/
def BrokerOrderRequest.AnsweredBy (r : BrokerOrderRequest) (order : Order) : Prop :=
  isBlank order.orderId = false ∧ order.insightId = some r.insightId ∧
    order.asset.symbol = r.symbol ∧ order.side = r.side

/-- An uncertain completion that is stored with the row of `c`. -/
structure CommandRow.Uncertain (e : Encoding) (row : CommandRow) (c : BrokerCommand)
    (old : BrokerCommandCompletion) : Prop where
  command : e.parseCommand row.commandJson = .ok c
  state : row.state = .completed
  stored : row.completionJson = some (e.completionText old)
  parsed : e.parseCompletion (e.completionText old) = .ok old
  ambiguous : old.outcome.isAmbiguous = true

structure CommandRow.Fresh (row : CommandRow) : Prop where
  state : row.state = .queued
  dispatched : row.dispatchedAtUs = none
  completion : row.completionJson = none

/-- What one operation may do to the row of the command `id`. -/
inductive RecordStep (e : Encoding) (id : BrokerCommandId) (row : CommandRow) :
    JournalOp → CommandRow → Prop
  | same (op : JournalOp) : RecordStep e id row op row
  | dispatch (atUs : Int) (state : row.state = .queued) :
    RecordStep e id row (.markDispatched id atUs)
      { row with state := .dispatching, dispatchedAtUs := some atUs }
  | defer (atUs : Int) (state : row.state = .dispatching) (own : row.dispatchedAtUs = some atUs) :
    RecordStep e id row (.deferUnpolledDispatch id atUs)
      { row with state := .queued, dispatchedAtUs := none }
  | complete (c : BrokerCommandCompletion) (command : c.receipt.id = id)
      (state : row.state = .queued ∨ row.state = .dispatching)
      (owner : ∃ command, e.parseCommand row.commandJson = .ok command ∧
        command.receipt = c.receipt)
      (queued : c.queuedAtUs = row.queuedAtUs)
      (dispatched : c.dispatchedAtUs = row.dispatchedAtUs ∨
        (c.outcome = .cancelledBeforeDispatch ∧ c.dispatchedAtUs = none)) :
    RecordStep e id row (.complete c)
      { row with
        state := .completed
        completionJson := some (e.completionText c)
        dispatchedAtUs := c.dispatchedAtUs }
  | confirm (c : BrokerCommand) (request : BrokerOrderRequest) (order : Order) (nowUs : Int)
      (old : BrokerCommandCompletion) (command : c.id = id) (action : c.action = .submit request)
      (uncertain : row.Uncertain e c old) (answered : request.AnsweredBy order) :
    RecordStep e id row (.confirmAmbiguousSubmission c order nowUs)
      { row with
        completionJson := some (e.completionText (BrokerCommandJournal.confirmed old order nowUs)) }
  | acknowledge (c : BrokerCommand) (orderId : String) (attempt : Nat)
      (old result : BrokerCommandCompletion) (command : c.id = id)
      (action : c.action = .cancel orderId) (uncertain : row.Uncertain e c old)
      (receipt : result.receipt = c.receipt) (queued : result.queuedAtUs = row.queuedAtUs)
      (dispatched : result.dispatchedAtUs = row.dispatchedAtUs)
      (acknowledged : result.outcome = .acknowledged) :
    RecordStep e id row (.finishCancellationRecovery c attempt result)
      { row with completionJson := some (e.completionText result) }
  | apply (batch : ExecutionCheckpointBatch) (receipt : BrokerCommandReceipt)
      (record : JournalCommandRecord) (mem : receipt ∈ batch.applied) (command : receipt.id = id)
      (state : row.state = .completed) (decoded : BrokerCommandJournal.decode e row = .ok record)
      (settled : BrokerCommandJournal.settles e batch.rows receipt record = .ok ()) :
    RecordStep e id row (.persistExecutionBatch batch) { row with state := .applied }

namespace BrokerCommandJournal

variable {e : Encoding} {j j' : BrokerCommandJournal} {id : BrokerCommandId} {row : CommandRow}
  {record : JournalCommandRecord} {c : BrokerCommandCompletion} {k : BrokerCommandJournal}
  {row' : CommandRow}

theorem parseStored_some {json : Option String} (h : parseStored e json = .ok (some c)) :
    ∃ text, json = some text ∧ e.parseCompletion text = .ok c := by
  cases json with
  | none => cases h
  | some text =>
    obtain ⟨c', hc, h⟩ := bind_eq_ok.1 h
    cases h
    exact ⟨text, rfl, orJournal_eq_ok.1 hc⟩

theorem decode_eq_ok (h : decode e row = .ok record) :
    e.parseCommand row.commandJson = .ok record.command ∧ record.state = row.state ∧
      record.queuedAtUs = row.queuedAtUs ∧ record.dispatchedAtUs = row.dispatchedAtUs ∧
      parseStored e row.completionJson = .ok record.completion ∧
      row.state.isComplete = record.completion.isSome := by
  obtain ⟨command, hc, h⟩ := bind_eq_ok.1 h
  obtain ⟨-, -, h⟩ := bind_eq_ok.1 h
  obtain ⟨completion, hco, h⟩ := bind_eq_ok.1 h
  obtain ⟨hs, h⟩ := refuseIf_bind_eq_ok.1 h
  cases h
  exact ⟨orJournal_eq_ok.1 hc, rfl, rfl, rfl, hco, not_not.1 hs⟩

theorem require_eq_ok {missing : BrokerCommandError} (h : require e j id missing = .ok record) :
    ∃ row, j.commands.lookup id = some row ∧ decode e row = .ok record := by
  obtain ⟨found, hg, h⟩ := bind_eq_ok.1 h
  unfold get at hg
  cases hrow : j.commands.lookup id with
  | none =>
    rw [hrow] at hg
    cases hg
    cases h
  | some row =>
    rw [hrow] at hg
    obtain ⟨decoded, hd, hg⟩ := bind_eq_ok.1 hg
    cases hg
    cases h
    exact ⟨row, rfl, hd⟩

theorem updateCommand_cases (j : BrokerCommandJournal) (id : BrokerCommandId)
    (f : CommandRow → Option CommandRow) (error : BrokerCommandError) :
    (j.updateCommand id f error = (j, .error error)) ∨
      ∃ row row', j.commands.lookup id = some row ∧ f row = some row' ∧
        j.updateCommand id f error = (j.ofCommands (j.commands.insert id row'), .ok ()) := by
  unfold updateCommand
  cases hu : j.commands.update id f with
  | none => exact .inl rfl
  | some =>
    obtain ⟨row, row', hrow, hf, rfl⟩ := Table.update_eq_some hu
    exact .inr ⟨row, row', hrow, hf, rfl⟩

/-- One operation takes every row of the table along by a record step, and
adds fresh rows only. -/
def RowsStep (e : Encoding) (op : JournalOp) (j j' : BrokerCommandJournal) : Prop :=
  Table.Evolves (fun _ => CommandRow.Fresh) (fun id row row' => RecordStep e id row op row')
    j.commands j'.commands

/-- The journal is that of the same account, and no order is taken back. -/
structure Aside (j j' : BrokerCommandJournal) : Prop where
  strategy : j'.strategyId = j.strategyId
  account : j'.accountId = j.accountId
  admission : ∀ id order, j.admission.lookup id = some order →
    j'.admission.lookup id = some order

theorem Aside.refl (j : BrokerCommandJournal) : Aside j j := ⟨rfl, rfl, fun _ _ h => h⟩

theorem Aside.trans {j₁ j₂ j₃ : BrokerCommandJournal} (h : Aside j₁ j₂) (h' : Aside j₂ j₃) :
    Aside j₁ j₃ :=
  ⟨h'.strategy.trans h.strategy, h'.account.trans h.account,
    fun id order hid => h'.admission id order (h.admission id order hid)⟩

structure Writes (e : Encoding) (op : JournalOp) (j j' : BrokerCommandJournal) : Prop
    extends Aside j j' where
  rows : RowsStep e op j j'

theorem Aside.writes (op : JournalOp) (h : Aside j j') (hc : j'.commands = j.commands) :
    Writes e op j j' := by
  refine ⟨h, ?_⟩
  unfold RowsStep
  rw [hc]
  exact Table.Evolves.refl (fun _ _ => .same op) _

theorem Writes.refl (op : JournalOp) (j : BrokerCommandJournal) : Writes e op j j :=
  (Aside.refl j).writes op rfl

theorem Writes.insertQueued (op : JournalOp) (json : String) (atUs : Int)
    (h : j.commands.lookup id = none) : Writes e op j (j.insertQueued id json atUs) := by
  refine ⟨⟨rfl, rfl, fun _ _ h => h⟩, ?_⟩
  refine Table.Evolves.insert (fun _ _ => .same op) (fun _ => ⟨rfl, rfl, rfl⟩) fun _ hrow => ?_
  rw [h] at hrow
  cases hrow

theorem Aside.replace (op : JournalOp)
    (h : Aside j k) (hk : k.commands = j.commands) (hrow : k.commands.lookup id = some row)
    (hstep : RecordStep e id row op row') :
    Writes e op j (k.ofCommands (k.commands.insert id row')) := by
  refine ⟨{ h with }, ?_⟩
  unfold RowsStep
  rw [← hk]
  refine Table.Evolves.insert (fun _ _ => .same op) (fun hn => ?_) fun _ hr₀ => ?_
  · rw [hn] at hrow
    cases hrow
  · rw [hrow] at hr₀
    cases hr₀
    exact hstep

theorem Aside.updateCommand (op : JournalOp)
    {f : CommandRow → Option CommandRow} {error : BrokerCommandError}
    (h : Aside j k) (hk : k.commands = j.commands)
    (hf : ∀ row row', j.commands.lookup id = some row → f row = some row' →
      RecordStep e id row op row') :
    Writes e op j (k.updateCommand id f error).1 := by
  rcases updateCommand_cases k id f error with hu | ⟨row, row', hrow, hrow', hu⟩
  · rw [hu]
    exact h.writes op hk
  rw [hu]
  exact h.replace op hk hrow (hf row row' (hk ▸ hrow) hrow')

theorem writes_prepare (c : BrokerCommand) (queuedAtUs : Int) :
    Writes e (.prepare c queuedAtUs) j (prepare e j c queuedAtUs).1 := by
  unfold prepare
  split
  · exact .refl _ _
  split
  · exact .refl _ _
  split
  · next hn => exact .insertQueued _ _ _ hn
  · exact .refl _ _

theorem writes_markDispatched (atUs : Int) :
    Writes e (.markDispatched id atUs) j (markDispatched j id atUs).1 := by
  refine (Aside.refl j).updateCommand _ rfl fun _ _ _ h => ?_
  obtain ⟨hs, h⟩ := ite_none_right_eq_some.1 h
  cases h
  exact .dispatch atUs hs

theorem writes_deferUnpolledDispatch (atUs : Int) :
    Writes e (.deferUnpolledDispatch id atUs) j (deferUnpolledDispatch j id atUs).1 := by
  refine (Aside.refl j).updateCommand _ rfl fun _ _ _ h => ?_
  obtain ⟨⟨hs, ho, -⟩, h⟩ := ite_none_right_eq_some.1 h
  cases h
  exact .defer atUs hs ho

theorem completing_eq_ok (h : completing e j c = .ok record) :
    ∃ row, j.commands.lookup c.receipt.id = some row ∧ decode e row = .ok record ∧
      record.command.receipt = c.receipt ∧ record.queuedAtUs = c.queuedAtUs ∧
      (record.dispatchedAtUs = c.dispatchedAtUs ∨ cancelledWithoutDispatch c = true) := by
  obtain ⟨found, hr, h⟩ := bind_eq_ok.1 h
  obtain ⟨hs, h⟩ := refuseIf_bind_eq_ok.1 h
  cases h
  obtain ⟨row, hrow, hd⟩ := require_eq_ok hr
  simp only [not_or, not_not, not_and, Bool.not_eq_false] at hs
  refine ⟨row, hrow, hd, hs.1, hs.2.1, ?_⟩
  by_cases hat : record.dispatchedAtUs = c.dispatchedAtUs
  · exact .inl hat
  · exact .inr (hs.2.2 hat)

theorem cancelledWithoutDispatch_iff : cancelledWithoutDispatch c = true ↔
      c.outcome = .cancelledBeforeDispatch ∧ c.dispatchedAtUs = none := by
  simp [cancelledWithoutDispatch]

theorem writes_complete (c : BrokerCommandCompletion) :
    Writes e (.complete c) j (complete e j c).1 := by
  unfold complete
  split
  · exact .refl _ _
  next _ hco =>
  split
  · exact .refl _ _
  obtain ⟨row, hrow, hde, hr, hqu, hdi⟩ := completing_eq_ok hco
  obtain ⟨hp, -, hq, hd, -, -⟩ := decode_eq_ok hde
  refine (Aside.refl j).updateCommand _ rfl fun _ _ hr₀ h => ?_
  rw [hrow] at hr₀
  cases hr₀
  obtain ⟨hs, h⟩ := ite_none_right_eq_some.1 h
  cases h
  refine .complete c rfl hs ⟨_, hp, hr⟩ (hqu.symm.trans hq) ?_
  rcases hdi with hat | hc
  · exact .inl (hat.symm.trans hd)
  · exact .inr (cancelledWithoutDispatch_iff.1 hc)

theorem uncertain_of_replaced {c : BrokerCommand}
    {old after : BrokerCommandCompletion} (hd : decode e row = .ok record)
    (hco : record.command = c) (hold : record.completion = some old)
    (ha : old.outcome.isAmbiguous = true)
    (h : replaced (e.completionText old) (e.completionText after) row = some row') :
    row.Uncertain e c old ∧
      row' = { row with completionJson := some (e.completionText after) } := by
  obtain ⟨⟨hst, hs⟩, h⟩ := ite_none_right_eq_some.1 h
  cases h
  obtain ⟨hp, -, -, -, hc, -⟩ := decode_eq_ok hd
  rw [hold] at hc
  obtain ⟨text, ht, hpa⟩ := parseStored_some hc
  rw [hs] at ht
  cases ht
  exact ⟨⟨hco ▸ hp, hst, hs, hpa, ha⟩, rfl⟩

theorem confirming_eq_ok {expected : BrokerCommand} {order : Order}
    (h : confirming e j expected order = .ok record) :
    ∃ row request, j.commands.lookup expected.id = some row ∧ decode e row = .ok record ∧
      record.command = expected ∧ expected.action = .submit request ∧
      request.AnsweredBy order ∧ j.inScope expected = true := by
  obtain ⟨found, hr, h⟩ := bind_eq_ok.1 h
  obtain ⟨row, hrow, hd⟩ := require_eq_ok hr
  cases ha : expected.action with
  | submit request =>
    rw [ha] at h
    obtain ⟨hs, h⟩ := refuseIf_bind_eq_ok.1 h
    cases h
    simp only [not_or, not_not, Bool.not_eq_true, Bool.not_eq_false] at hs
    obtain ⟨hc, hsc, hb, hi, hsy, hside⟩ := hs
    exact ⟨row, request, hrow, hd, hc, rfl, ⟨hb, hi, hsy, hside⟩, hsc⟩
  | _ =>
    rw [ha] at h
    cases h

variable (expected : BrokerCommand)

theorem writes_confirmAmbiguousSubmission (order : Order) (nowUs : Int) :
    Writes e (.confirmAmbiguousSubmission expected order nowUs) j
      (confirmAmbiguousSubmission e j expected order nowUs).1 := by
  unfold confirmAmbiguousSubmission
  split
  · exact .refl _ _
  next _ hco =>
  obtain ⟨row, request, hrow, hd, hc, ha, han, -⟩ := confirming_eq_ok hco
  split
  · exact .refl _ _
  next old hold =>
  split
  · exact .refl _ _
  split
  · exact .refl _ _
  next hun =>
  refine (Aside.refl j).updateCommand _ rfl fun _ _ hr₀ h => ?_
  rw [hrow] at hr₀
  cases hr₀
  have ham : old.outcome.isAmbiguous = true := by
    simpa using (not_or.1 hun).2
  obtain ⟨hu, rfl⟩ := uncertain_of_replaced hd hc hold ham h
  exact .confirm expected request order nowUs old rfl ha hu han

theorem writes_beginCancellationRecovery (proof : OrderLifecycleSnapshot) (atUs : Int) :
    Writes e (.beginCancellationRecovery expected proof atUs) j
      (beginCancellationRecovery e j expected proof atUs).1 := by
  unfold beginCancellationRecovery
  split
  · exact .refl _ _
  split
  · exact .refl _ _
  split
  · exact .refl _ _
  split
  · exact .refl _ _
  · exact Aside.writes _ ⟨rfl, rfl, fun _ _ h => h⟩ rfl

theorem finishing_eq_ok {expected : BrokerCommand} {result : BrokerCommandCompletion}
    (h : finishing e j expected result = .ok record) :
    ∃ row orderId, j.commands.lookup expected.id = some row ∧ decode e row = .ok record ∧
      record.command = expected ∧ expected.action = .cancel orderId ∧
      result.receipt = expected.receipt ∧ result.queuedAtUs = record.queuedAtUs ∧
      result.dispatchedAtUs = record.dispatchedAtUs ∧ j.inScope expected = true := by
  obtain ⟨found, hre, h⟩ := bind_eq_ok.1 h
  obtain ⟨row, hrow, hd⟩ := require_eq_ok hre
  obtain ⟨hs, h⟩ := refuseIf_bind_eq_ok.1 h
  cases h
  simp only [not_or, not_not, Bool.not_eq_false] at hs
  obtain ⟨hco, ha, hsc, hr, hq, hdi⟩ := hs
  cases hc : expected.action with
  | cancel orderId => exact ⟨row, orderId, hrow, hd, hco, rfl, hr, hq, hdi, hsc⟩
  | _ => simp [hc] at ha

theorem writes_finishCancellationRecovery (attempt : Nat) (result : BrokerCommandCompletion) :
    Writes e (.finishCancellationRecovery expected attempt result) j
      (finishCancellationRecovery e j expected attempt result).1 := by
  unfold finishCancellationRecovery
  split
  · exact .refl _ _
  next _ hf =>
  obtain ⟨row, orderId, hrow, hde, hc, hact, hr, hqu, hdi, -⟩ := finishing_eq_ok hf
  obtain ⟨-, -, hq, hd, -, -⟩ := decode_eq_ok hde
  split
  · exact .refl _ _
  next attempts _ =>
  have ha : Aside j { j with attempts := attempts } := ⟨rfl, rfl, fun _ _ h => h⟩
  unfold settleCancellation
  split
  · exact ha.writes _ rfl
  split
  · exact ha.writes _ rfl
  next old hold =>
  split
  · exact ha.writes _ rfl
  next hun =>
  split
  · exact ha.writes _ rfl
  next hac =>
  have ham : old.outcome.isAmbiguous = true := by
    simpa using (not_or.1 hun).2
  refine ha.updateCommand _ rfl fun _ _ hr₀ h => ?_
  rw [hrow] at hr₀
  cases hr₀
  obtain ⟨hu, rfl⟩ := uncertain_of_replaced hde hc hold ham h
  exact .acknowledge expected orderId attempt old result rfl hact hu hr
    (hqu.trans hq) (hdi.trans hd) (not_not.1 hac)

section

variable {intent : EncodedIntent} {c : EncodedCheckpoint} {receipt : BrokerCommandReceipt}
  {rows : List EncodedCheckpoint} {batch : ExecutionCheckpointBatch}

theorem insertIntent_cases (h : insertIntent e j intent = .ok j') :
    (j' = j ∧ (j.commands.lookup intent.command.id).isSome) ∨
      (j.commands.lookup intent.command.id = none ∧
        j' = j.insertQueued intent.command.id intent.json intent.queuedAtUs) := by
  unfold insertIntent at h
  cases hrow : j.commands.lookup intent.command.id with
  | none =>
    rw [hrow] at h
    cases h
    exact .inr ⟨rfl, rfl⟩
  | some =>
    rw [hrow] at h
    obtain ⟨existing, -, h⟩ := bind_eq_ok.1 h
    obtain ⟨-, h⟩ := refuseIf_bind_eq_ok.1 h
    cases h
    exact .inl ⟨rfl, rfl⟩

theorem admitIntent_cases (h : admitIntent e j intent = .ok j') :
    ∃ admission, intent.command.id ∈ admission ∧ (admission = j.admission ∨
        (j.admission.lookup intent.command.id = none ∧
          admission = j.admission.insert intent.command.id intent.admissionOrder)) ∧
      insertIntent e { j with admission := admission } intent = .ok j' := by
  unfold admitIntent at h
  cases ho : j.admission.lookup intent.command.id with
  | none =>
    rw [ho] at h
    obtain ⟨-, h⟩ := refuseIf_bind_eq_ok.1 h
    exact ⟨_, AList.mem_insert _ |>.2 (.inl rfl), .inr ⟨rfl, rfl⟩, h⟩
  | some =>
    rw [ho] at h
    obtain ⟨-, h⟩ := refuseIf_bind_eq_ok.1 h
    exact ⟨j.admission, AList.lookup_isSome.1 (by rw [ho]; rfl), .inl rfl, h⟩

theorem saveCheckpoint_cases (h : saveCheckpoint j c = .ok j') : (j' = j ∧ j.isSaved c = true) ∨
      ((j.checkpoints.lookup c.id).elim 0 (·.revision) + 1 = c.revision ∧
        j' = { j with
          checkpoints := j.checkpoints.insert c.id (j.checkpointRow c)
          graph := j.graph.insert c.id ⟨c.revision, c.recoverySeed, c.metadataJson⟩ }) := by
  unfold saveCheckpoint at h
  split at h
  · next hs =>
    cases h
    exact .inl ⟨rfl, hs⟩
  obtain ⟨hr, h⟩ := ite_error_eq_ok.1 h
  cases h
  exact .inr ⟨not_not.1 hr, rfl⟩

theorem applyReceipt_cases (h : applyReceipt e j rows receipt = .ok j') :
    ∃ row record, j.commands.lookup receipt.id = some row ∧ decode e row = .ok record ∧
      record.command.receipt = receipt ∧ settles e rows receipt record = .ok () ∧
      ((row.state ≠ .completed ∧ j' = j) ∨ (row.state = .completed ∧
          j' = j.ofCommands (j.commands.insert receipt.id { row with state := .applied }))) := by
  obtain ⟨record, hr, h⟩ := bind_eq_ok.1 h
  obtain ⟨row, hrow, hd⟩ := require_eq_ok hr
  obtain ⟨hsa, h⟩ := refuseIf_bind_eq_ok.1 h
  obtain ⟨⟨⟩, hse, h⟩ := bind_eq_ok.1 h
  cases h
  refine ⟨row, record, hrow, hd, not_not.1 hsa, hse, ?_⟩
  by_cases hs : row.state = .completed
  · exact .inr ⟨hs, by simp [Table.update, hrow, markApplied, hs]⟩
  · exact .inl ⟨hs, by simp [Table.update, hrow, markApplied, hs]⟩

theorem persistBody_eq_ok (h : persistBody e j batch = .ok j') :
    ∃ j₁ j₂, batch.intents.foldlM (admitIntent e) j = .ok j₁ ∧
      batch.rows.foldlM saveCheckpoint j₁ = .ok j₂ ∧
      batch.applied.foldlM (fun j receipt => applyReceipt e j batch.rows receipt) j₂ = .ok j' := by
  obtain ⟨j₁, h₁, h⟩ := bind_eq_ok.1 h
  obtain ⟨j₂, h₂, h⟩ := bind_eq_ok.1 h
  exact ⟨j₁, j₂, h₁, h₂, h⟩

theorem persistExecutionBatch_cases (batch : ExecutionCheckpointBatch) :
    (∃ error, persistExecutionBatch e j batch = (j, .error error)) ∨
      ∃ saved, persistBody e j batch = .ok saved ∧
        persistExecutionBatch e j batch = (saved, .ok ()) := by
  unfold persistExecutionBatch
  split
  · exact .inl ⟨_, rfl⟩
  cases hb : persistBody e j batch with
  | error error => exact .inl ⟨error, rfl⟩
  | ok saved => exact .inr ⟨saved, rfl, rfl⟩

theorem recordStep_persist_trans {a b d : CommandRow}
    (h : RecordStep e id a (.persistExecutionBatch batch) b)
    (h' : RecordStep e id b (.persistExecutionBatch batch) d) :
    RecordStep e id a (.persistExecutionBatch batch) d := by
  cases h with
  | same => exact h'
  | apply _ receipt record mem command state decoded settled =>
    cases h' with
    | same => exact .apply batch receipt record mem command state decoded settled
    | apply _ _ _ _ _ state' => cases state'

theorem fresh_persist {a b : CommandRow} (ha : CommandRow.Fresh a)
    (h : RecordStep e id a (.persistExecutionBatch batch) b) : CommandRow.Fresh b := by
  cases h with
  | same => exact ha
  | apply _ _ _ _ _ state => cases ha.state.symm.trans state

theorem Writes.persist_trans {j₁ j₂ j₃ : BrokerCommandJournal}
    (h : Writes e (.persistExecutionBatch batch) j₁ j₂)
    (h' : Writes e (.persistExecutionBatch batch) j₂ j₃) :
    Writes e (.persistExecutionBatch batch) j₁ j₃ :=
  ⟨h.toAside.trans h'.toAside, Table.Evolves.trans (fun _ _ _ _ => recordStep_persist_trans)
    (fun _ _ _ => fresh_persist) h.rows h'.rows⟩

theorem writes_insertIntent (op : JournalOp) (h : insertIntent e j intent = .ok j') :
    Writes e op j j' := by
  rcases insertIntent_cases h with ⟨rfl, -⟩ | ⟨hn, rfl⟩
  · exact .refl op _
  · exact .insertQueued op _ _ hn

theorem writes_admitIntent (op : JournalOp) (h : admitIntent e j intent = .ok j') :
    Writes e op j j' := by
  obtain ⟨admission, -, ha, h⟩ := admitIntent_cases h
  have hk : ∀ id order, j.admission.lookup id = some order → admission.lookup id = some order := by
    intro id order hid
    rcases ha with rfl | ⟨hn, rfl⟩
    · exact hid
    have hne : id ≠ intent.command.id := by
      rintro rfl
      rw [hn] at hid
      cases hid
    rw [AList.lookup_insert_ne hne, hid]
  have has : Aside j { j with admission := admission } := ⟨rfl, rfl, hk⟩
  have hi := writes_insertIntent op h
  exact ⟨has.trans hi.toAside, hi.rows⟩

theorem writes_saveCheckpoint (op : JournalOp) (h : saveCheckpoint j c = .ok j') :
    Writes e op j j' := by
  rcases saveCheckpoint_cases h with ⟨rfl, -⟩ | ⟨-, rfl⟩
  · exact .refl op _
  · exact Aside.writes op ⟨rfl, rfl, fun _ _ h => h⟩ rfl

theorem writes_applyReceipt (hm : receipt ∈ batch.applied)
    (h : applyReceipt e j batch.rows receipt = .ok j') :
    Writes e (.persistExecutionBatch batch) j j' := by
  obtain ⟨row, record, hrow, hd, -, hs, ⟨-, rfl⟩ | ⟨hst, rfl⟩⟩ := applyReceipt_cases h
  · exact .refl _ _
  · exact (Aside.refl j).replace _ rfl hrow (.apply batch receipt record hm rfl hst hd hs)

theorem writes_persistBody (h : persistBody e j batch = .ok j') :
    Writes e (.persistExecutionBatch batch) j j' := by
  obtain ⟨j₁, j₂, h₁, h₂, h₃⟩ := persistBody_eq_ok h
  have ht : ∀ j₁ j₂ j₃, Writes e (.persistExecutionBatch batch) j₁ j₂ →
      Writes e (.persistExecutionBatch batch) j₂ j₃ →
      Writes e (.persistExecutionBatch batch) j₁ j₃ := fun _ _ _ => .persist_trans
  refine .persist_trans (foldlM_rel (.refl _) ht ?_ h₁)
    (.persist_trans (foldlM_rel (.refl _) ht ?_ h₂) (foldlM_rel (.refl _) ht ?_ h₃))
  · exact fun j _ j' _ => writes_admitIntent _
  · exact fun j c j' _ => writes_saveCheckpoint _
  · exact fun j _ j' hm => writes_applyReceipt hm

theorem writes_persistExecutionBatch (batch : ExecutionCheckpointBatch) :
    Writes e (.persistExecutionBatch batch) j (persistExecutionBatch e j batch).1 := by
  rcases persistExecutionBatch_cases batch with ⟨error, h⟩ | ⟨saved, hb, h⟩
  · rw [h]
    exact .refl _ _
  rw [h]
  exact writes_persistBody hb

end

theorem writes_run (op : JournalOp) : Writes e op j (run e j op).1 := by
  cases op with
  | prepare c queuedAtUs => exact writes_prepare c queuedAtUs
  | persistExecutionBatch batch => exact writes_persistExecutionBatch batch
  | markDispatched _ atUs => exact writes_markDispatched atUs
  | deferUnpolledDispatch _ atUs => exact writes_deferUnpolledDispatch atUs
  | complete c => exact writes_complete c
  | confirmAmbiguousSubmission expected order nowUs =>
    exact writes_confirmAmbiguousSubmission expected order nowUs
  | beginCancellationRecovery expected proof atUs =>
    exact writes_beginCancellationRecovery expected proof atUs
  | finishCancellationRecovery expected attempt result =>
    exact writes_finishCancellationRecovery expected attempt result

end BrokerCommandJournal

end AqEngine.Broker
