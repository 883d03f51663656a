import AqEngine.Journal.Writes

namespace AqEngine.Broker

open Lib

section

variable {e : Encoding} {id : BrokerCommandId} {row row' : CommandRow} {op : JournalOp}

/-- The moves of a record's state. An entry that is refused before it is
dispatched is completed without having been dispatching. -/
inductive JournalCommandState.Moves : JournalCommandState → JournalCommandState → Prop
  | dispatch : Moves .queued .dispatching
  | defer : Moves .dispatching .queued
  | refuse : Moves .queued .completed
  | complete : Moves .dispatching .completed
  | apply : Moves .completed .applied

theorem RecordStep.moves (h : RecordStep e id row op row') :
    row'.state = row.state ∨ row.state.Moves row'.state := by
  cases h with
  | same | confirm | acknowledge => exact .inl rfl
  | dispatch _ state => exact .inr (state ▸ .dispatch)
  | defer _ state => exact .inr (state ▸ .defer)
  | complete c _ state =>
    rcases state with state | state
    · exact .inr (state ▸ .refuse)
    · exact .inr (state ▸ .complete)
  | apply _ _ _ _ _ state => exact .inr (state ▸ .apply)

/-- The state tells whether a completion is stored. -/
def CommandRow.Consistent (row : CommandRow) : Prop :=
  row.completionJson.isSome = row.state.isComplete

theorem RecordStep.consistent (h : RecordStep e id row op row') (hrow : row.Consistent) :
    row'.Consistent := by
  unfold CommandRow.Consistent at *
  cases h with
  | same => exact hrow
  | dispatch _ state | defer _ state
  | apply _ _ _ _ _ state => simpa [state, JournalCommandState.isComplete] using hrow
  | complete => rfl
  | confirm c _ _ _ _ _ _ uncertain
  | acknowledge c _ _ _ _ _ _ uncertain => simp [uncertain.state, JournalCommandState.isComplete]

theorem CommandRow.Fresh.consistent (h : row.Fresh) : row.Consistent := by
  unfold CommandRow.Consistent
  rw [h.completion, h.state]
  rfl

theorem RecordStep.applied_absorbing (h : RecordStep e id row op row')
    (hs : row.state = .applied) : row' = row := by
  cases h with
  | same => rfl
  | dispatch _ state | defer _ state | apply _ _ _ _ _ state => cases hs.symm.trans state
  | complete c _ state => rcases state with state | state <;> cases hs.symm.trans state
  | confirm c _ _ _ _ _ _ uncertain
  | acknowledge c _ _ _ _ _ _ uncertain => cases hs.symm.trans uncertain.state

theorem RecordStep.certain_kept (h : RecordStep e id row op row') (hrow : row.Consistent)
    {text : String} {c : BrokerCommandCompletion} (ht : row.completionJson = some text)
    (hc : e.parseCompletion text = .ok c) (hce : c.outcome.isAmbiguous = false) :
    row'.completionJson = some text := by
  have hun : ∀ {command old}, ¬ row.Uncertain e command old := by
    intro command old hu
    rw [hu.stored] at ht
    cases ht
    rw [hu.parsed] at hc
    cases hc
    cases hce.symm.trans hu.ambiguous
  cases h with
  | same | dispatch | defer | apply => exact ht
  | complete c command state =>
    unfold CommandRow.Consistent at hrow
    rcases state with state | state <;> simp [ht, state, JournalCommandState.isComplete] at hrow
  | confirm c _ _ _ old command _ uncertain
  | acknowledge c _ _ old _ command _ uncertain => exact absurd uncertain hun

theorem RecordStep.commandJson (h : RecordStep e id row op row') :
    row'.commandJson = row.commandJson := by
  cases h <;> rfl

end

namespace BrokerCommandJournal

variable {e : Encoding} {j j' : BrokerCommandJournal} {id : BrokerCommandId}

/-- Nor is the command of a row taken back, nor an applied row changed. -/
structure Extends (j j' : BrokerCommandJournal) : Prop extends Aside j j' where
  commands : ∀ id row, j.commands.lookup id = some row → ∃ row',
    j'.commands.lookup id = some row' ∧ row'.commandJson = row.commandJson ∧
      (row.state = .applied → row' = row)

theorem Extends.refl (j : BrokerCommandJournal) : Extends j j :=
  ⟨.refl j, fun _ row h => ⟨row, h, rfl, fun _ => rfl⟩⟩

theorem Extends.trans (j₁ j₂ j₃ : BrokerCommandJournal) (h : Extends j₁ j₂)
    (h' : Extends j₂ j₃) : Extends j₁ j₃ := by
  refine ⟨h.toAside.trans h'.toAside, fun id row hrow => ?_⟩
  obtain ⟨row', hrow', hj, ha⟩ := h.commands id row hrow
  obtain ⟨row'', hr'', hj', ha'⟩ := h'.commands id row' hrow'
  refine ⟨row'', hr'', hj'.trans hj, fun hst => ?_⟩
  have hs := ha hst
  rw [ha' (hs ▸ hst), hs]

theorem Writes.extends {op : JournalOp} (h : Writes e op j j') : Extends j j' := by
  refine ⟨h.toAside, fun id row hrow => ?_⟩
  obtain ⟨row', hrow', hstep⟩ := h.rows.kept id row hrow
  exact ⟨row', hrow', hstep.commandJson, hstep.applied_absorbing⟩

def Consistent (j : BrokerCommandJournal) : Prop :=
  ∀ id row, j.commands.lookup id = some row → row.Consistent

theorem consistent_run (op : JournalOp) (h : j.Consistent) : (run e j op).1.Consistent := by
  have hstep := (writes_run (e := e) (j := j) op).rows
  intro id row' hrow'
  cases hrow : j.commands.lookup id with
  | none => exact (hstep.added id row' hrow hrow').consistent
  | some row =>
    obtain ⟨row'', hr'', hr⟩ := hstep.kept id row hrow
    rw [hrow'] at hr''
    cases hr''
    exact hr.consistent (h id row hrow)

theorem consistent_runAll (ops : List JournalOp) (h : j.Consistent) :
    (runAll e j ops).Consistent := by
  induction ops generalizing j with
  | nil => exact h
  | cons op ops ih => exact ih (consistent_run op h)

def Has (j : BrokerCommandJournal) (id : BrokerCommandId) (P : CommandRow → Prop) : Prop :=
  ∃ row, j.commands.lookup id = some row ∧ P row

def Applied (j : BrokerCommandJournal) (id : BrokerCommandId) : Prop :=
  j.Has id fun row => row.state = .applied

variable {record : JournalCommandRecord} {done : BrokerCommandCompletion}

/-- The row of a record: its state, and the completion it stores. -/
structure ReadFrom (e : Encoding) (record : JournalCommandRecord) (row : CommandRow) : Prop where
  state : record.state = row.state
  queuedAtUs : record.queuedAtUs = row.queuedAtUs
  dispatchedAtUs : record.dispatchedAtUs = row.dispatchedAtUs
  complete : row.state.isComplete = record.completion.isSome
  stored : ∀ done, record.completion = some done →
    ∃ text, row.completionJson = some text ∧ e.parseCompletion text = .ok done

theorem readFrom_decode {row : CommandRow} (h : decode e row = .ok record) :
    ReadFrom e record row := by
  obtain ⟨-, hst, hq, hdi, hs, hc⟩ := decode_eq_ok h
  refine ⟨hst, hq, hdi, hc, fun _ hd => ?_⟩
  rw [hd] at hs
  exact parseStored_some hs

theorem lookup_insertQueued (json : String) (atUs : Int) :
    (j.insertQueued id json atUs).commands.lookup id = some (j.queuedRow json atUs) :=
  AList.lookup_insert _

theorem applied_applyReceipt {rows : List EncodedCheckpoint} {receipt : BrokerCommandReceipt}
    (h : applyReceipt e j rows receipt = .ok j') : j'.Applied receipt.id := by
  obtain ⟨row, record, hrow, hde, -, hs, ⟨hst, rfl⟩ | ⟨-, rfl⟩⟩ := applyReceipt_cases h
  · refine ⟨row, hrow, ?_⟩
    have hc := (readFrom_decode hde).complete
    cases hd : record.completion with
    | none =>
      unfold settles at hs
      rw [hd] at hs
      cases hs
    | some =>
      rw [hd] at hc
      cases hrow' : row.state with
      | applied => exact hrow'
      | completed => exact absurd hrow' hst
      | queued | dispatching => rw [hrow'] at hc; cases hc
  · exact ⟨_, AList.lookup_insert _, rfl⟩

end BrokerCommandJournal

end AqEngine.Broker
