import AqEngine.Journal.StateMachine

namespace AqEngine.Broker

open Lib Fallible Insights List

namespace ExecutionCheckpointBatch

variable {e : Encoding} {rows : List InsightExecutionCheckpoint} {intents : List ExecutionIntent}

theorem encodeIntents_json {seen : List BrokerCommandId} {remaining : Nat}
    {out : List EncodedIntent × Nat}
    (h : encodeIntents e rows seen remaining intents = .ok out) :
    ∀ intent ∈ out.1, intent.json = e.commandText intent.command := by
  induction intents generalizing seen remaining out with
  | nil =>
    cases h
    simp
  | cons intent _ ih =>
    obtain ⟨⟨encoded, left⟩, he, h⟩ := bind_eq_ok.1 h
    obtain ⟨⟨tail, last⟩, ht, h⟩ := bind_eq_ok.1 h
    cases h
    obtain ⟨-, -, he⟩ := bind_eq_ok.1 he
    obtain ⟨json, hj, he⟩ := bind_eq_ok.1 he
    obtain ⟨-, he⟩ := refuseIf_bind_eq_ok.1 he
    cases he
    obtain ⟨-, -, hj⟩ := bind_eq_ok.1 hj
    obtain ⟨-, hj⟩ := refuseIf_bind_eq_ok.1 hj
    cases hj
    intro other ho
    rcases mem_cons.1 ho with rfl | ho
    · rfl
    · exact ih ht other ho

theorem withIntents_json {applied : List BrokerCommandReceipt}
    {batch : ExecutionCheckpointBatch} (h : withIntents e rows applied intents = .ok batch) :
    ∀ intent ∈ batch.intents, intent.json = e.commandText intent.command := by
  obtain ⟨⟨encoded, remaining⟩, hp, h⟩ := bind_eq_ok.1 h
  obtain ⟨-, hp⟩ := refuseIf_bind_eq_ok.1 hp
  obtain ⟨seen, -, hp⟩ := bind_eq_ok.1 hp
  obtain ⟨-, hp⟩ := refuseIf_bind_eq_ok.1 hp
  obtain ⟨-, hp⟩ := refuseIf_bind_eq_ok.1 hp
  have hj := encodeIntents_json hp
  simp only at h
  split at h
  · cases h
  cases h
  exact hj

end ExecutionCheckpointBatch

namespace BrokerCommandJournal

variable {e : Encoding} {j j' : BrokerCommandJournal} {batch : ExecutionCheckpointBatch}
  {rows : List EncodedCheckpoint} {receipt : BrokerCommandReceipt} {intent : EncodedIntent}

/-- The recorded answer to `record` lets its receipt be applied: it is
certain, or the row of the owner in the batch shows that the broker has
settled the order. -/
def Answered (e : Encoding) (rows : List EncodedCheckpoint) (receipt : BrokerCommandReceipt)
    (record : JournalCommandRecord) : Prop :=
  ∃ done, record.completion = some done ∧ (done.outcome.isAmbiguous = false ∨
      ∃ c ∈ rows, c.id = receipt.insightId ∧ ∃ saved, e.parseCheckpoint c.json = .ok saved ∧
        record.command.action.settledByTerminal saved.orderId saved.state = true)

theorem answered_of_settles {record : JournalCommandRecord}
    (h : settles e rows receipt record = .ok ()) : Answered e rows receipt record := by
  unfold settles at h
  split at h
  · cases h
  next done hd =>
  refine ⟨done, hd, ?_⟩
  split at h
  · obtain ⟨settled, hs, h⟩ := bind_eq_ok.1 h
    have hse : settled = true := by simpa using refuseIf_eq_ok.1 h
    subst hse
    unfold terminalSettlement at hs
    split at hs
    · cases hs
    next c hf =>
    obtain ⟨saved, hp, hs⟩ := bind_eq_ok.1 hs
    have hid : c.id = receipt.insightId := by simpa using find?_some hf
    exact .inr ⟨c, mem_of_find?_eq_some hf, hid, saved, orJournal_eq_ok.1 hp, Except.ok.inj hs⟩
  · next hc => exact .inl (by simpa using hc)

/-- The command of an intent has its order and a row that is read back as
that command. -/
def Admitted (e : Encoding) (j : BrokerCommandJournal) (intent : EncodedIntent) : Prop :=
  j.admission.lookup intent.command.id = some intent.admissionOrder ∧
    j.Has intent.command.id fun row => e.parseCommand row.commandJson = .ok intent.command

/-- The record of a receipt is applied, with an answer that allows it. -/
def Consumed (e : Encoding) (rows : List EncodedCheckpoint) (j : BrokerCommandJournal)
    (receipt : BrokerCommandReceipt) : Prop :=
  j.Has receipt.id fun row => row.state = .applied ∧ ∃ record, decode e row = .ok record ∧
    record.command.receipt = receipt ∧ settles e rows receipt record = .ok ()

structure Holds (e : Encoding) (batch : ExecutionCheckpointBatch) (j : BrokerCommandJournal) :
    Prop where
  admitted : ∀ intent ∈ batch.intents, j.inScope intent.command = true ∧ Admitted e j intent
  saved : ∀ c ∈ batch.rows, j.isSaved c = true
  applied : ∀ receipt ∈ batch.applied, Consumed e batch.rows j receipt

theorem admitIntent_admitted (h : Admitted e j intent) : admitIntent e j intent = .ok j := by
  obtain ⟨ho, row, hrow, hp⟩ := h
  unfold admitIntent
  simp only [ho]
  rw [refuseIf_bind_of_not (by simp)]
  unfold insertIntent
  simp only [hrow, hp, orJournal, bind_ok]
  rw [refuseIf_bind_of_not (by simp)]

theorem applyReceipt_consumed (h : Consumed e rows j receipt) :
    applyReceipt e j rows receipt = .ok j := by
  obtain ⟨row, hrow, hst, record, hd, hr, hs⟩ := h
  have hre : require e j receipt.id (journalError "cannot apply an unknown command") =
      .ok record := by
    simp only [require, get, hrow, hd, bind_ok]
  have hm : j.commands.update receipt.id markApplied = none :=
    Table.update_eq_none hrow (by simp [markApplied, hst])
  unfold applyReceipt
  rw [hre, bind_ok, refuseIf_bind_of_not (by simpa using hr), hs, hm]
  rfl

/-- A batch that the journal holds is accepted again and changes nothing. -/
theorem persistExecutionBatch_holds (h : Holds e batch j) :
    persistExecutionBatch e j batch = (j, .ok ()) := by
  have hs : batch.intents.all (fun intent => j.inScope intent.command) = true :=
    all_eq_true.2 fun intent hm => (h.admitted intent hm).1
  have hint : batch.intents.foldlM (admitIntent e) j = .ok j :=
    foldlM_fixed fun intent hm => admitIntent_admitted (h.admitted intent hm).2
  have hr : batch.rows.foldlM saveCheckpoint j = .ok j :=
    foldlM_fixed fun c hm => if_pos (h.saved c hm)
  have ha : batch.applied.foldlM (fun j receipt => applyReceipt e j batch.rows receipt) j =
      .ok j := foldlM_fixed fun receipt hm => applyReceipt_consumed (h.applied receipt hm)
  unfold persistExecutionBatch persistBody
  rw [hs, hint, bind_ok, hr, bind_ok, ha]
  rfl

theorem extends_runAll (ops : List JournalOp) : Extends j (runAll e j ops) := by
  induction ops generalizing j with
  | nil => exact .refl j
  | cons op ops ih => exact .trans _ _ _ (writes_run (e := e) op).extends ih

theorem Extends.admitted (h : Extends j j') (hj : Admitted e j intent) : Admitted e j' intent := by
  obtain ⟨ho, row, hrow, hp⟩ := hj
  obtain ⟨row', hrow', hjs, -⟩ := h.commands _ row hrow
  exact ⟨h.admission _ _ ho, row', hrow', (congrArg e.parseCommand hjs).trans hp⟩

theorem Extends.consumed (h : Extends j j') (hj : Consumed e rows j receipt) :
    Consumed e rows j' receipt := by
  obtain ⟨row, hrow, hs, hrecord⟩ := hj
  obtain ⟨row', hrow', -, ha⟩ := h.commands _ row hrow
  rw [ha hs] at hrow'
  exact ⟨row, hrow', hs, hrecord⟩

theorem Extends.inScope {c : BrokerCommand} (h : Extends j j') : j'.inScope c = j.inScope c := by
  rw [BrokerCommandJournal.inScope, BrokerCommandJournal.inScope, h.strategy, h.account]

/-- Only a later row of the same insight can make the journal lose a batch. -/
theorem Holds.extends (hj : Holds e batch j) (h : Extends j j')
    (hs : ∀ c ∈ batch.rows, j'.isSaved c = true) : Holds e batch j' where
  admitted intent hm := by
    obtain ⟨hsc, ha⟩ := hj.admitted intent hm
    exact ⟨by rw [h.inScope, hsc], h.admitted ha⟩
  saved := hs
  applied receipt hm := h.consumed (hj.applied receipt hm)

theorem admitted_admitIntent (hj : e.parseCommand intent.json = .ok intent.command)
    (h : admitIntent e j intent = .ok j') : Admitted e j' intent := by
  unfold admitIntent at h
  have hi : ∀ k : BrokerCommandJournal,
      k.admission.lookup intent.command.id = some intent.admissionOrder →
      insertIntent e k intent = .ok j' → Admitted e j' intent := by
    intro k ho h
    unfold insertIntent at h
    split at h
    · cases h
      exact ⟨ho, _, lookup_insertQueued _ _, hj⟩
    next row hrow =>
    obtain ⟨existing, hp, h⟩ := bind_eq_ok.1 h
    obtain ⟨hs, h⟩ := refuseIf_bind_eq_ok.1 h
    cases h
    rw [not_not.1 hs] at hp
    exact ⟨ho, row, hrow, orJournal_eq_ok.1 hp⟩
  split at h
  · next _ ho =>
    obtain ⟨hs, h⟩ := refuseIf_bind_eq_ok.1 h
    rw [not_not.1 hs] at ho
    exact hi j ho h
  · obtain ⟨-, h⟩ := refuseIf_bind_eq_ok.1 h
    exact hi _ (AList.lookup_insert _) h

theorem consumed_applyReceipt (h : applyReceipt e j rows receipt = .ok j') :
    Consumed e rows j' receipt := by
  have ha := applied_applyReceipt h
  obtain ⟨row, record, hrow, hd, hr, hse, ⟨-, rfl⟩ | ⟨hs, rfl⟩⟩ := applyReceipt_cases h
  · obtain ⟨row', hrow', hs⟩ := ha
    rw [hrow] at hrow'
    cases hrow'
    exact ⟨row, hrow, hs, record, hd, hr, hse⟩
  · -- The completion is read from the row as before; only its state differs.
    obtain ⟨command, hc, hd⟩ := bind_eq_ok.1 hd
    obtain ⟨⟨⟩, hvalid, hd⟩ := bind_eq_ok.1 hd
    obtain ⟨completion, hco, hd⟩ := bind_eq_ok.1 hd
    obtain ⟨hso, hd⟩ := refuseIf_bind_eq_ok.1 hd
    cases hd
    rw [hs] at hso
    refine ⟨_, AList.lookup_insert _, rfl,
      ⟨row.sequence, command, .applied, row.queuedAtUs, row.dispatchedAtUs, completion⟩, ?_,
      hr, hse⟩
    simp only [decode, hc, hvalid, hco, bind_ok]
    exact refuseIf_bind_of_not hso

/-- The order of the three loops does not matter for what is left behind:
no later step takes back what an earlier one wrote. -/
theorem holds_of_persistBody
    (hj : ∀ intent ∈ batch.intents, e.parseCommand intent.json = .ok intent.command)
    (hsc : ∀ intent ∈ batch.intents, j.inScope intent.command = true)
    (h : persistBody e j batch = .ok j') : Holds e batch j' := by
  let op := JournalOp.persistExecutionBatch batch
  have hb := writes_persistBody h
  have hsa := (committed_of_persistBody h).saved
  obtain ⟨j₁, j₂, h₁, h₂, h₃⟩ := persistBody_eq_ok h
  have hr : Extends j₁ j₂ :=
    foldlM_rel .refl .trans (fun _ _ _ _ h => (writes_saveCheckpoint (e := e) op h).extends) h₂
  have hap : Extends j₂ j' :=
    foldlM_rel .refl .trans (fun _ _ _ hm h => (writes_applyReceipt hm h).extends) h₃
  refine ⟨fun intent hm => ⟨?_, ?_⟩, hsa, ?_⟩
  · rw [inScope, hb.strategy, hb.account]
    exact hsc intent hm
  · have ha : Admitted e j₁ intent :=
      foldlM_forall (P := fun intent k => Admitted e k intent)
        (fun _ _ _ hm hs => admitted_admitIntent (hj _ hm) hs)
        (fun _ _ _ _ _ hp hs => (writes_admitIntent op hs).extends.admitted hp) h₁ intent hm
    exact hap.admitted (hr.admitted ha)
  · refine foldlM_forall (P := fun receipt k => Consumed e batch.rows k receipt)
      (fun _ _ _ _ hs => consumed_applyReceipt hs) ?_ h₃
    intro k receipt other k' hsu hp hs
    have hm : other ∈ batch.applied := hsu.subset (by simp)
    exact (writes_applyReceipt hm hs).extends.consumed hp

variable {c : EncodedCheckpoint} {k : BrokerCommandJournal}

def revisionOf (j : BrokerCommandJournal) (key : String) : Nat :=
  (j.checkpoints.lookup key).elim 0 (·.revision)

structure Written (j j' : BrokerCommandJournal) (c : EncodedCheckpoint) : Prop where
  unsaved : j.isSaved c = false
  next : j.revisionOf c.id + 1 = c.revision
  row : j'.checkpoints.lookup c.id = some (j.checkpointRow c)
  index : j'.graph.lookup c.id = some ⟨c.revision, c.recoverySeed, c.metadataJson⟩

/-- The rows of a batch in the tables: each was there already or is written
as the next revision, and no other row changes. -/
structure RowsSaved (rows : List EncodedCheckpoint) (j j' : BrokerCommandJournal) : Prop where
  others : ∀ key, key ∉ rows.map (·.id) → Untouched j j' key
  each : ∀ c ∈ rows, (j.isSaved c = true ∧ Untouched j j' c.id) ∨ Written j j' c

theorem lifecycle_saveCheckpoint (h : saveCheckpoint j c = .ok j') :
    j'.lifecycle = j.lifecycle := by
  rcases saveCheckpoint_cases h with ⟨rfl, -⟩ | ⟨-, rfl⟩ <;> rfl

theorem Untouched.isSaved (h : Untouched j k c.id) : k.isSaved c = j.isSaved c := by
  rw [BrokerCommandJournal.isSaved, BrokerCommandJournal.isSaved, h.row]

theorem Untouched.written (h : Untouched j k c.id) (hl : k.lifecycle = j.lifecycle)
    (hw : Written k j' c) : Written j j' c where
  unsaved := by rw [← h.isSaved, hw.unsaved]
  next := by rw [← hw.next, revisionOf, revisionOf, h.row]
  row := by rw [hw.row, checkpointRow, checkpointRow, h.row, hl]
  index := hw.index

theorem saveCheckpoint_written (h : saveCheckpoint j c = .ok j') :
    (j.isSaved c = true ∧ Untouched j j' c.id) ∨ Written j j' c := by
  unfold saveCheckpoint at h
  split at h
  · next hs =>
    cases h
    exact .inl ⟨hs, rfl, rfl⟩
  next hs =>
  obtain ⟨hr, h⟩ := ite_error_eq_ok.1 h
  cases h
  exact .inr ⟨by simpa using hs, not_not.1 hr, AList.lookup_insert _, AList.lookup_insert _⟩

theorem rowsSaved_foldlM (hn : (rows.map (·.id)).Nodup)
    (h : rows.foldlM saveCheckpoint j = .ok j') : RowsSaved rows j j' := by
  induction rows generalizing j with
  | nil =>
    cases h
    exact ⟨fun _ _ => ⟨rfl, rfl⟩, by simp⟩
  | cons c _ ih =>
    obtain ⟨k, hc, hrest⟩ := bind_eq_ok.1 h
    rw [map_cons, nodup_cons] at hn
    obtain ⟨ho, he⟩ := ih hn.2 hrest
    refine ⟨fun key hk => ?_, fun a ha => ?_⟩
    · rw [map_cons, mem_cons, not_or] at hk
      exact (untouched_saveCheckpoint hc hk.1).trans (ho key hk.2)
    · rcases mem_cons.1 ha with rfl | ha
      · have haf := ho a.id hn.1
        rcases saveCheckpoint_written hc with ⟨hsa, hs⟩ | hw
        · exact .inl ⟨hsa, hs.trans haf⟩
        · exact .inr ⟨hw.unsaved, hw.next, haf.row.trans hw.row, haf.index.trans hw.index⟩
      · have hne : a.id ≠ c.id := fun heq => hn.1 (heq ▸ mem_map_of_mem ha)
        have hb := untouched_saveCheckpoint hc hne
        rcases he a ha with ⟨hsa, hs⟩ | hw
        · exact .inl ⟨by rw [← hb.isSaved, hsa], hb.trans hs⟩
        · exact .inr (hb.written (lifecycle_saveCheckpoint hc) hw)

theorem rowsSaved_persistBody (h : persistBody e j batch = .ok j') : RowsSaved batch.rows j j' := by
  obtain ⟨j₁, j₂, h₁, h₂, h₃⟩ := persistBody_eq_ok h
  have hint : SameRows j j₁ := foldlM_rel .refl .trans (fun _ _ _ _ => sameRows_admitIntent) h₁
  have hap : SameRows j₂ j' := foldlM_rel .refl .trans (fun _ _ _ _ => sameRows_applyReceipt) h₃
  obtain ⟨ho, he⟩ := rowsSaved_foldlM batch.nodup_rows h₂
  have hb : ∀ key, Untouched j j₁ key := fun key => ⟨by rw [hint.checkpoints], by rw [hint.graph]⟩
  have ha : ∀ key, Untouched j₂ j' key := fun key => ⟨by rw [hap.checkpoints], by rw [hap.graph]⟩
  refine ⟨fun key hk => (hb key).trans ((ho key hk).trans (ha key)), ?_⟩
  intro c hc
  rcases he c hc with ⟨hsa, hs⟩ | hw
  · exact .inl ⟨by rw [← (hb c.id).isSaved, hsa], (hb c.id).trans (hs.trans (ha c.id))⟩
  refine .inr ((hb c.id).written hint.lifecycle ?_)
  exact ⟨hw.unsaved, hw.next, (ha c.id).row.trans hw.row, (ha c.id).index.trans hw.index⟩

/-- What a batch may do to a record that exists: it is left as it is, or it
becomes applied by a receipt of the batch that its answer allows. -/
def KeptOrApplied (e : Encoding) (batch : ExecutionCheckpointBatch) (id : BrokerCommandId)
    (row row' : CommandRow) : Prop :=
  row' = row ∨ (row.state = .completed ∧ row' = { row with state := .applied } ∧
      ∃ receipt ∈ batch.applied, receipt.id = id ∧ ∃ record, decode e row = .ok record ∧
        Answered e batch.rows receipt record)

theorem keptOrApplied_persist (batch : ExecutionCheckpointBatch) (id : BrokerCommandId)
    (row : CommandRow) (h : j.commands.lookup id = some row) :
    ∃ row', (persistExecutionBatch e j batch).1.commands.lookup id = some row' ∧
      KeptOrApplied e batch id row row' := by
  obtain ⟨row', hrow', hstep⟩ := (writes_persistExecutionBatch (e := e) batch).rows.kept id row h
  refine ⟨row', hrow', ?_⟩
  cases hstep with
  | same => exact .inl rfl
  | apply _ receipt record mem command state decoded settled =>
    exact .inr ⟨state, rfl, receipt, mem, command, record, decoded, answered_of_settles settled⟩

/-- One batch is one transaction. When the JSON library reads back the
commands of the batch, an accepted batch is accepted again as long as no
later row of its insights is saved. -/
theorem checkpoint_batch_transaction (e : Encoding) (rows : List InsightExecutionCheckpoint)
    (applied : List BrokerCommandReceipt) (intents : List ExecutionIntent)
    (batch : ExecutionCheckpointBatch) (j : BrokerCommandJournal)
    (hbatch : ExecutionCheckpointBatch.withIntents e rows applied intents = .ok batch)
    (hjson : ∀ intent ∈ batch.intents,
      e.parseCommand (e.commandText intent.command) = .ok intent.command) :
    let r := persistExecutionBatch e j batch
    ((∃ error, r = (j, .error error)) ∨
      (r.2 = .ok () ∧ Holds e batch r.1 ∧ RowsSaved batch.rows j r.1 ∧
        persistExecutionBatch e r.1 batch = (r.1, .ok ()) ∧
        ∀ ops, (∀ c ∈ batch.rows, (runAll e r.1 ops).isSaved c = true) →
          persistExecutionBatch e (runAll e r.1 ops) batch = (runAll e r.1 ops, .ok ()))) ∧
    ∀ id row, j.commands.lookup id = some row →
      ∃ row', r.1.commands.lookup id = some row' ∧ KeptOrApplied e batch id row row' := by
  intro r
  refine ⟨?_, keptOrApplied_persist batch⟩
  have hte := ExecutionCheckpointBatch.withIntents_json hbatch
  by_cases hsc : ∀ intent ∈ batch.intents, j.inScope intent.command = true
  · rcases persistExecutionBatch_cases (e := e) (j := j) batch with ⟨error, h⟩ | ⟨saved, hbo, h⟩
    · exact .inl ⟨error, h⟩
    · have hr : r = (saved, .ok ()) := h
      rw [hr]
      have hho : Holds e batch saved :=
        holds_of_persistBody (fun intent hmem => by rw [hte intent hmem, hjson intent hmem])
          hsc hbo
      exact .inr ⟨rfl, hho, rowsSaved_persistBody hbo, persistExecutionBatch_holds hho,
        fun ops hsa => persistExecutionBatch_holds (hho.extends (extends_runAll ops) hsa)⟩
  · have hall : batch.intents.all (fun intent => j.inScope intent.command) = false := by
      simpa using hsc
    exact .inl ⟨_, by simp only [r, persistExecutionBatch, hall]; rfl⟩

def cancelledRow : InsightExecutionCheckpoint where
  version := 6
  revision := 1
  materialized := true
  ownerReceipts := [sampleEntry.receipt]
  sourceFingerprint := 1
  childIds := []
  pipeline := none
  parentId := none
  isSplitInsight := false
  contracts := none
  executionData := []
  insight :=
    { insightId := ⟨List.replicate 16 17, rfl⟩, symbol := "BTCUSD", orderId := some "order-1"
      state := .cancelled }

def cancelledMetadata : InsightRecoveryMetadata where
  id := ⟨List.replicate 16 17, rfl⟩
  revision := 1
  parent := none
  children := []
  materialized := true
  recoverySeed := true
  dependencies := []

def settlingEncoding : Encoding :=
  .ofSamples "entry-1" [sampleCancel, sampleEntry] [sampleLost] [cancelledRow] [cancelledMetadata]

def settlingBatch : ExecutionCheckpointBatch where
  rows :=
    [⟨"11111111-1111-1111-1111-111111111111", 1, "", "", true, true, some "order-1", "BTCUSD"⟩]
  applied := [sampleCancel.receipt]
  intents := [⟨sampleEntry, 5, 1, "|"⟩]
  nodup_rows := nodup_singleton _

def lostCancel : BrokerCommandJournal :=
  { strategyId := "strategy", accountId := "account", nextSequence := 2
    commands := (∅ : Table BrokerCommandId CommandRow).insert sampleCancel.id
      ⟨1, "", .completed, 2, some 3, some ""⟩ }

/-- The row of the cancelled order settles the uncertain cancel, and the
batch can be sent again. -/
theorem settling_batch_retried :
    let r := persistExecutionBatch settlingEncoding lostCancel settlingBatch
    r.2 = .ok () ∧ persistExecutionBatch settlingEncoding r.1 settlingBatch = (r.1, .ok ()) := by
  have hba : ExecutionCheckpointBatch.withIntents settlingEncoding [cancelledRow]
      [sampleCancel.receipt] [⟨sampleEntry, 5, 1⟩] = .ok settlingBatch := by decide +kernel
  have hjs : ∀ intent ∈ settlingBatch.intents, settlingEncoding.parseCommand
      (settlingEncoding.commandText intent.command) = .ok intent.command := by decide +kernel
  intro r
  have hac : r.2 = .ok () := by decide +kernel
  rcases (checkpoint_batch_transaction settlingEncoding _ _ _ settlingBatch lostCancel hba
    hjs).1 with ⟨error, h⟩ | ⟨h, -, -, hre, -⟩
  · cases hac.symm.trans (congrArg Prod.snd h)
  · exact ⟨h, hre⟩

end BrokerCommandJournal

end AqEngine.Broker
