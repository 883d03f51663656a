import AqEngine.Journal.Records

namespace AqEngine.Broker.BrokerCommandJournal

open Lib Fallible Option AList

variable {e : Encoding} {j j' : BrokerCommandJournal} {id : BrokerCommandId}

variable {f : CommandRow → Option CommandRow} {error : BrokerCommandError}

theorem updateCommand_stays (h : ∀ row, j.commands.lookup id = some row → f row = none) :
    (j.updateCommand id f error).1 = j := by
  rcases updateCommand_cases j id f error with hu | ⟨row, row', hrow, hrow', -⟩
  · rw [hu]
  rw [h row hrow] at hrow'
  cases hrow'

theorem updateCommand_done (hf : ∀ row row', f row = some row' → f row' = none) :
    (j.updateCommand id f error).1 = j ∨
      ∀ row, (j.updateCommand id f error).1.commands.lookup id = some row → f row = none := by
  rcases updateCommand_cases j id f error with hu | ⟨row, row', hrow, hrow', hu⟩
  · exact .inl (by rw [hu])
  refine .inr fun _ hr₀ => ?_
  rw [hu, ofCommands, lookup_insert] at hr₀
  cases hr₀
  exact hf row _ hrow'

theorem dispatched_dispatched (atUs : Int) (row row' : CommandRow)
    (h : dispatched atUs row = some row') : dispatched atUs row' = none := by
  obtain ⟨-, h⟩ := ite_none_right_eq_some.1 h
  cases h
  rfl

theorem deferred_deferred (atUs : Int) (row row' : CommandRow)
    (h : deferred atUs row = some row') : deferred atUs row' = none := by
  obtain ⟨-, h⟩ := ite_none_right_eq_some.1 h
  cases h
  rfl

theorem completed_completed (c : BrokerCommandCompletion) (row row' : CommandRow)
    (h : completed e c row = some row') : completed e c row' = none := by
  obtain ⟨-, h⟩ := ite_none_right_eq_some.1 h
  cases h
  rfl

/-- An operation is repeated without effect when it either wrote nothing or
left a journal in which it writes nothing. -/
theorem repeated {P : BrokerCommandJournal → Prop} {op : JournalOp}
    (hs : ∀ k, P k → (run e k op).1 = k)
    (hd : (run e j op).1 = j ∨ P (run e j op).1) :
    (run e (run e j op).1 op).1 = (run e j op).1 := by
  rcases hd with h | h
  · rw [h, h]
  · exact hs _ h

theorem prepare_repeated (c : BrokerCommand) (queuedAtUs : Int) :
    (run e (run e j (.prepare c queuedAtUs)).1 (.prepare c queuedAtUs)).1 =
      (run e j (.prepare c queuedAtUs)).1 := by
  refine repeated (P := fun k => (k.commands.lookup c.id).isSome) (fun k hk => ?_) ?_
  · obtain ⟨row, hrow⟩ := isSome_iff_exists.1 hk
    simp only [run, prepare, hrow]
    split
    · rfl
    · split <;> rfl
  · simp only [run, discard, prepare]
    split
    · exact .inl rfl
    split
    · exact .inl rfl
    split
    · exact .inr (by simp [insertQueued])
    · exact .inl rfl

theorem markDispatched_repeated (atUs : Int) :
    (run e (run e j (.markDispatched id atUs)).1 (.markDispatched id atUs)).1 =
      (run e j (.markDispatched id atUs)).1 :=
  repeated (fun _ hk => updateCommand_stays hk) (updateCommand_done (dispatched_dispatched atUs))

theorem deferUnpolledDispatch_repeated (atUs : Int) :
    (run e (run e j (.deferUnpolledDispatch id atUs)).1 (.deferUnpolledDispatch id atUs)).1 =
      (run e j (.deferUnpolledDispatch id atUs)).1 :=
  repeated (fun _ hk => updateCommand_stays hk) (updateCommand_done (deferred_deferred atUs))

theorem complete_repeated (c : BrokerCommandCompletion) :
    (run e (run e j (.complete c)).1 (.complete c)).1 = (run e j (.complete c)).1 := by
  refine repeated (P := fun k => ∀ row, k.commands.lookup c.receipt.id = some row →
    completed e c row = none) (fun k hk => ?_) ?_
  · simp only [run, complete]
    split
    · rfl
    split
    · rfl
    · exact updateCommand_stays hk
  · simp only [run, complete]
    split
    · exact .inl rfl
    split
    · exact .inl rfl
    · exact updateCommand_done (completed_completed c)

def Certain (e : Encoding) (id : BrokerCommandId) (j : BrokerCommandJournal) : Prop :=
  ∀ row record old, j.commands.lookup id = some row → decode e row = .ok record →
    record.completion = some old → old.outcome.isAmbiguous = false

theorem certain_insert {row : CommandRow} {c : BrokerCommandCompletion}
    (hrow : row.completionJson = some (e.completionText c))
    (hc : c.outcome.isAmbiguous = false) :
    Certain e id (j.ofCommands (j.commands.insert id row)) := by
  intro row₀ record old hr₀ hd hold
  rw [ofCommands, lookup_insert] at hr₀
  cases hr₀
  obtain ⟨-, -, -, -, hs, -⟩ := decode_eq_ok hd
  rw [hold] at hs
  obtain ⟨text, ht, hp⟩ := parseStored_some hs
  rw [hrow] at ht
  cases ht
  rw [e.parse_isAmbiguous hp, hc]

variable (expected : BrokerCommand)

theorem confirmAmbiguousSubmission_repeated (order : Order) (nowUs : Int) :
    (run e (run e j (.confirmAmbiguousSubmission expected order nowUs)).1
      (.confirmAmbiguousSubmission expected order nowUs)).1 =
      (run e j (.confirmAmbiguousSubmission expected order nowUs)).1 := by
  refine repeated (P := Certain e expected.id) (fun k hk => ?_) ?_
  · simp only [run, discard, confirmAmbiguousSubmission]
    split
    · rfl
    next record hc =>
    obtain ⟨row, request, hrow, hd, -⟩ := confirming_eq_ok hc
    split
    · rfl
    next old hold =>
    split
    · rfl
    · rw [if_pos (.inr (hk row record old hrow hd hold))]
  · simp only [run, discard, confirmAmbiguousSubmission]
    split
    · exact .inl rfl
    split
    · exact .inl rfl
    split
    · exact .inl rfl
    split
    · exact .inl rfl
    next old hold _ _ =>
    simp only [replaceCompletion]
    rcases updateCommand_cases j expected.id
      (replaced (e.completionText old) (e.completionText (confirmed old order nowUs)))
      .identityConflict with hu | ⟨row, row', hrow, hrow', hu⟩
    · exact .inl (by rw [hu])
    rw [hu]
    obtain ⟨-, hrow'⟩ := ite_none_right_eq_some.1 hrow'
    cases hrow'
    exact .inr (certain_insert rfl rfl)

theorem settleCancellation_attempts (record : JournalCommandRecord)
    (result : BrokerCommandCompletion) :
    (settleCancellation e j expected record result).1.attempts = j.attempts := by
  unfold settleCancellation
  split
  · rfl
  split
  · rfl
  split
  · rfl
  split
  · rfl
  next old _ _ _ =>
  simp only [replaceCompletion]
  rcases updateCommand_cases j expected.id
    (replaced (e.completionText old) (e.completionText result)) .identityConflict with
    hu | ⟨row, row', -, -, hu⟩
  · rw [hu]
  rw [hu]
  rfl

theorem finishCancellationRecovery_repeated (attempt : Nat) (result : BrokerCommandCompletion) :
    (run e (run e j (.finishCancellationRecovery expected attempt result)).1
      (.finishCancellationRecovery expected attempt result)).1 =
      (run e j (.finishCancellationRecovery expected attempt result)).1 := by
  refine repeated (P := fun k =>
    k.attempts.update (expected.id, attempt) (answered (e.completionText result)) = none)
    (fun k hk => ?_) ?_
  · simp only [run, finishCancellationRecovery, hk]
    split <;> rfl
  · simp only [run, discard, finishCancellationRecovery]
    split
    · exact .inl rfl
    split
    · exact .inl rfl
    next _ hat =>
    obtain ⟨a, a', ha, ha', rfl⟩ := Table.update_eq_some hat
    obtain ⟨-, ha'⟩ := ite_none_right_eq_some.1 ha'
    cases ha'
    rw [settleCancellation_attempts]
    exact .inr (Table.update_eq_none (lookup_insert _) rfl)

variable {batch : ExecutionCheckpointBatch}

structure Committed (batch : ExecutionCheckpointBatch) (j : BrokerCommandJournal) : Prop where
  admitted : ∀ intent ∈ batch.intents, (j.admission.lookup intent.command.id).isSome ∧
    (j.commands.lookup intent.command.id).isSome
  saved : ∀ c ∈ batch.rows, j.isSaved c = true
  applied : ∀ receipt ∈ batch.applied, ∀ row, j.commands.lookup receipt.id = some row →
    row.state ≠ .completed

variable {intent : EncodedIntent} {c : EncodedCheckpoint}

theorem insertIntent_stays (h : (j.commands.lookup intent.command.id).isSome) :
    insertIntent e j intent = .ok j ∨ ∃ error, insertIntent e j intent = .error error := by
  cases hr : insertIntent e j intent with
  | error error => exact .inr ⟨error, rfl⟩
  | ok =>
    rcases insertIntent_cases hr with ⟨rfl, -⟩ | ⟨hn, -⟩
    · exact .inl rfl
    rw [hn] at h
    cases h

theorem admitIntent_stays (ha : (j.admission.lookup intent.command.id).isSome)
    (hc : (j.commands.lookup intent.command.id).isSome) :
    admitIntent e j intent = .ok j ∨ ∃ error, admitIntent e j intent = .error error := by
  cases hr : admitIntent e j intent with
  | error error => exact .inr ⟨error, rfl⟩
  | ok =>
    obtain ⟨admission, -, rfl | ⟨hn, -⟩, hr⟩ := admitIntent_cases hr
    · rcases insertIntent_stays (e := e) hc with h | ⟨error, h⟩
      · exact .inl (hr.symm.trans h)
      · cases hr.symm.trans h
    rw [hn] at ha
    cases ha

theorem applyReceipt_stays {rows : List EncodedCheckpoint} {receipt : BrokerCommandReceipt}
    (h : ∀ row, j.commands.lookup receipt.id = some row → row.state ≠ .completed) :
    applyReceipt e j rows receipt = .ok j ∨
      ∃ error, applyReceipt e j rows receipt = .error error := by
  cases hr : applyReceipt e j rows receipt with
  | error error => exact .inr ⟨error, rfl⟩
  | ok =>
    obtain ⟨row, record, hrow, -, -, -, ⟨-, rfl⟩ | ⟨hs, -⟩⟩ := applyReceipt_cases hr
    · exact .inl rfl
    · exact absurd hs (h row hrow)

theorem persistBody_stays (h : Committed batch j) :
    persistBody e j batch = .ok j ∨ ∃ error, persistBody e j batch = .error error := by
  have hint : batch.intents.foldlM (admitIntent e) j = .ok j ∨
      ∃ error, batch.intents.foldlM (admitIntent e) j = .error error :=
    foldlM_stay fun intent hm => admitIntent_stays (h.admitted intent hm).1 (h.admitted intent hm).2
  have hr : batch.rows.foldlM saveCheckpoint j = .ok j ∨
      ∃ error, batch.rows.foldlM saveCheckpoint j = .error error :=
    foldlM_stay fun c hm => .inl (if_pos (h.saved c hm))
  have ha : batch.applied.foldlM (fun j receipt => applyReceipt e j batch.rows receipt) j =
      .ok j ∨ ∃ error, batch.applied.foldlM
        (fun j receipt => applyReceipt e j batch.rows receipt) j = .error error :=
    foldlM_stay fun receipt hm => applyReceipt_stays (h.applied receipt hm)
  unfold persistBody
  rcases hint with h₁ | ⟨error, h₁⟩
  · rcases hr with h₂ | ⟨error, h₂⟩
    · rw [h₁, bind_ok, h₂]
      exact ha
    · exact .inr ⟨error, by rw [h₁, bind_ok, h₂]; rfl⟩
  · exact .inr ⟨error, by rw [h₁]; rfl⟩

theorem Extends.isSome (h : Extends j j') (hj : (j.admission.lookup intent.command.id).isSome ∧
      (j.commands.lookup intent.command.id).isSome) :
    (j'.admission.lookup intent.command.id).isSome ∧
      (j'.commands.lookup intent.command.id).isSome := by
  obtain ⟨order, ho⟩ := isSome_iff_exists.1 hj.1
  obtain ⟨row, hrow⟩ := isSome_iff_exists.1 hj.2
  obtain ⟨row', hrow', -⟩ := h.commands _ row hrow
  rw [h.admission _ order ho, hrow']
  exact ⟨rfl, rfl⟩

theorem isSome_admitIntent (h : admitIntent e j intent = .ok j') :
    (j'.admission.lookup intent.command.id).isSome ∧
      (j'.commands.lookup intent.command.id).isSome := by
  obtain ⟨admission, hm, -, h⟩ := admitIntent_cases h
  have ha := lookup_isSome.2 hm
  rcases insertIntent_cases h with ⟨rfl, hs⟩ | ⟨-, rfl⟩
  · exact ⟨ha, hs⟩
  · exact ⟨ha, by simp [insertQueued]⟩

structure SameRows (j j' : BrokerCommandJournal) : Prop where
  lifecycle : j'.lifecycle = j.lifecycle
  checkpoints : j'.checkpoints = j.checkpoints
  graph : j'.graph = j.graph

theorem SameRows.refl (j : BrokerCommandJournal) : SameRows j j := ⟨rfl, rfl, rfl⟩

theorem SameRows.trans (j₁ j₂ j₃ : BrokerCommandJournal) (h : SameRows j₁ j₂)
    (h' : SameRows j₂ j₃) : SameRows j₁ j₃ :=
  ⟨h'.lifecycle.trans h.lifecycle, h'.checkpoints.trans h.checkpoints, h'.graph.trans h.graph⟩

theorem sameRows_admitIntent (h : admitIntent e j intent = .ok j') : SameRows j j' := by
  obtain ⟨admission, -, -, h⟩ := admitIntent_cases h
  rcases insertIntent_cases h with ⟨rfl, -⟩ | ⟨-, rfl⟩ <;> exact ⟨rfl, rfl, rfl⟩

theorem sameRows_applyReceipt (h : applyReceipt e j rows receipt = .ok j') : SameRows j j' := by
  obtain ⟨-, -, -, -, -, -, ⟨-, rfl⟩ | ⟨-, rfl⟩⟩ := applyReceipt_cases h <;> exact ⟨rfl, rfl, rfl⟩

structure Untouched (j j' : BrokerCommandJournal) (key : String) : Prop where
  row : j'.checkpoints.lookup key = j.checkpoints.lookup key
  index : j'.graph.lookup key = j.graph.lookup key

theorem Untouched.trans {key : String} {j₁ j₂ j₃ : BrokerCommandJournal} (h : Untouched j₁ j₂ key)
    (h' : Untouched j₂ j₃ key) : Untouched j₁ j₃ key :=
  ⟨h'.row.trans h.row, h'.index.trans h.index⟩

theorem untouched_saveCheckpoint {key : String}
    (h : saveCheckpoint j c = .ok j') (hne : key ≠ c.id) : Untouched j j' key := by
  rcases saveCheckpoint_cases h with ⟨rfl, -⟩ | ⟨-, rfl⟩
  · exact ⟨rfl, rfl⟩
  · exact ⟨lookup_insert_ne hne, lookup_insert_ne hne⟩

theorem isSaved_saveCheckpoint (h : saveCheckpoint j c = .ok j') : j'.isSaved c = true := by
  rcases saveCheckpoint_cases h with ⟨rfl, hs⟩ | ⟨-, rfl⟩
  · exact hs
  · simp [isSaved, checkpointRow]

theorem id_ne_of_sublist {a : EncodedCheckpoint} (h : [a, c].Sublist batch.rows) : a.id ≠ c.id := by
  have hn := batch.nodup_rows.sublist (h.map (·.id))
  simpa using hn

theorem committed_of_persistBody (h : persistBody e j batch = .ok j') : Committed batch j' := by
  obtain ⟨j₁, j₂, h₁, h₂, h₃⟩ := persistBody_eq_ok h
  let op := JournalOp.persistExecutionBatch batch
  have hr : Extends j₁ j₂ :=
    foldlM_rel .refl .trans (fun _ _ _ _ h => (writes_saveCheckpoint (e := e) op h).extends) h₂
  have hap : Extends j₂ j' :=
    foldlM_rel .refl .trans (fun _ _ _ hm h => (writes_applyReceipt hm h).extends) h₃
  refine ⟨fun intent hm => ?_, fun c hm => ?_, ?_⟩
  · have ha : (j₁.admission.lookup intent.command.id).isSome ∧
        (j₁.commands.lookup intent.command.id).isSome :=
      foldlM_forall (P := fun (intent : EncodedIntent) (k : BrokerCommandJournal) =>
          (k.admission.lookup intent.command.id).isSome ∧
            (k.commands.lookup intent.command.id).isSome)
        (fun _ _ _ _ hs => isSome_admitIntent hs)
        (fun _ _ _ _ _ hp hs => (writes_admitIntent op hs).extends.isSome hp) h₁ intent hm
    exact (hr.trans _ _ _ hap).isSome ha
  · have hsa : j₂.isSaved c = true := by
      refine foldlM_forall (P := fun c j => j.isSaved c = true)
        (fun _ _ _ _ => isSaved_saveCheckpoint) ?_ h₂ c hm
      intro k a b k' hab hp hs
      rw [isSaved, (untouched_saveCheckpoint hs (id_ne_of_sublist hab)).row]
      exact hp
    have hk : SameRows j₂ j' := foldlM_rel .refl .trans (fun _ _ _ _ => sameRows_applyReceipt) h₃
    rw [isSaved, hk.checkpoints]
    exact hsa
  · refine foldlM_forall (P := fun receipt k => ∀ row, k.commands.lookup receipt.id = some row →
      row.state ≠ .completed) ?_ ?_ h₃
    · intro k receipt k' _ hs row hrow
      obtain ⟨row₀, -, hr₀, -, -, -, ⟨hst, rfl⟩ | ⟨-, rfl⟩⟩ := applyReceipt_cases hs
      · rw [hr₀] at hrow
        cases hrow
        exact hst
      rw [ofCommands, lookup_insert] at hrow
      cases hrow
      simp
    · intro k receipt other k' _ hp hs row hrow
      obtain ⟨row₀, -, hr₀, -, -, -, ⟨-, rfl⟩ | ⟨-, rfl⟩⟩ := applyReceipt_cases hs
      · exact hp row hrow
      rcases Table.lookup_insert_cases hrow with ⟨-, rfl⟩ | ⟨-, hrow⟩
      · simp
      · exact hp row hrow

theorem persistExecutionBatch_repeated (batch : ExecutionCheckpointBatch) :
    (run e (run e j (.persistExecutionBatch batch)).1 (.persistExecutionBatch batch)).1 =
      (run e j (.persistExecutionBatch batch)).1 := by
  refine repeated (P := Committed batch) (fun k hk => ?_) ?_
  · rcases persistExecutionBatch_cases (e := e) (j := k) batch with ⟨error, h⟩ | ⟨saved, hb, h⟩
    · exact congrArg Prod.fst h
    · rcases persistBody_stays (e := e) hk with hs | ⟨error, hs⟩
      · cases hb.symm.trans hs
        exact congrArg Prod.fst h
      · cases hb.symm.trans hs
  · rcases persistExecutionBatch_cases (e := e) (j := j) batch with ⟨error, h⟩ | ⟨saved, hb, h⟩
    · exact .inl (congrArg Prod.fst h)
    · right
      rw [run, h]
      exact committed_of_persistBody hb

end AqEngine.Broker.BrokerCommandJournal
