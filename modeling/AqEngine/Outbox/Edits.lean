import Mathlib.Logic.Relation
import AqEngine.Outbox.Store

namespace AqEngine.LiveSync

open Lib Fallible List

/-- A row that may be deleted: committed remotely, superseded or a log line. -/
def OutboxRow.spent {V D : Type} (row : OutboxRow V D) : Bool :=
  row.state == .committed || row.payload.event.priority == .telemetry ||
    row.payload.event.kind.asStr == "log"

namespace OutboxStore

variable {V D : Type}

/-- The changes of rows that every operation of a store is made of. Events
that come in satisfy `A`, dead letters are replaced only when `R` holds and dead
events come back only when `Q` does; the reservations are left alone. -/
inductive Edit (c : EventCodec V D) (A : CloudEvent V D → Prop) (R Q : Prop)
    (s : OutboxStore V D) : OutboxStore V D → Prop
  | aside (safety : SafetyTable D) (gaps : CaptureGaps) (cursors : Table Scope Int)
      (budget : Option PhysicalCaptureBudget) :
      Edit c A R Q s
        { s with safety := safety, gaps := gaps, syncCursors := cursors, physicalBudget := budget }
  | install : s.retained = none → Edit c A R Q s { s with retained := some s.inventory }
  | add {e : CloudEvent V D} {payload : WirePayload V D} (nowUs : Int) : A e →
      s.events.lookup e.eventId = none → c.encodeWithLocalCommit e nowUs = .ok payload →
      Edit c A R Q s (s.addEvent e.eventId ⟨payload, .pending, 0, nowUs, nowUs, none, none⟩)
  | delete {id : Uuid} {row : OutboxRow V D} : s.events.lookup id = some row →
      row.spent = true → Edit c A R Q s (s.deleteEvent id)
  | commit (id : Uuid) (nowUs : Int) :
      Edit c A R Q s (s.updateEvent id fun row =>
        { row with state := .committed, remoteCommittedAtUs := some nowUs, lastError := none })
  | retry (id : Uuid) {f : OutboxRow V D → OutboxRow V D} : (∀ row, (f row).state = row.state) →
      Edit c A R Q s (s.updateEvent id f)
  | bury {id : Uuid} {row : OutboxRow V D} (reason : String) (nowUs : Int) :
      s.events.lookup id = some row → (R ∨ s.deadLetters.lookup id = none) →
      Edit c A R Q s
        ((s.putDeadLetter id
            ⟨row.payload.event.strategyId, reason, row.payload, nowUs⟩).updateEvent id
          fun row => { row with state := .deadLetter, lastError := some reason })
  | revive {id : Uuid} (nowUs : Int) : Q →
      (∀ row, s.events.lookup id = some row → row.state ≠ .committed) →
      Edit c A R Q s (s.updateEvent id fun row =>
        { row with
          state := .pending
          attemptCount := 0
          nextAttemptAtUs := nowUs
          lastError := none })
  | dropLetter {id : Uuid} {row : OutboxRow V D} : s.events.lookup id = some row →
      row.state = .pending → Edit c A R Q s (s.deleteDeadLetter id)
  | putLetter {id : Uuid} (letter : DeadLetter V D) : s.deadLetters.lookup id = none →
      Edit c A R Q s (s.putDeadLetter id letter)

def Edits (c : EventCodec V D) (A : CloudEvent V D → Prop) (R Q : Prop) :
    OutboxStore V D → OutboxStore V D → Prop :=
  Relation.ReflTransGen (Edit c A R Q)

variable {c : EventCodec V D} {A B : CloudEvent V D → Prop} {R Q : Prop} {s s' : OutboxStore V D}
  {α : Type} {ids : List Uuid} {m : Moment} {events : List (CloudEvent V D)}
  {pauses : CaptureCapacity → Bool}

theorem Edits.refl (s : OutboxStore V D) : Edits c A R Q s s := Relation.ReflTransGen.refl

theorem Edits.trans {s'' : OutboxStore V D} (h : Edits c A R Q s s') (h' : Edits c A R Q s' s'') :
    Edits c A R Q s s'' := Relation.ReflTransGen.trans h h'

theorem Edit.edits (h : Edit c A R Q s s') : Edits c A R Q s s' := Relation.ReflTransGen.single h

theorem Edit.mono (hi : ∀ e, A e → B e) (h : Edit c A R Q s s') : Edit c B R Q s s' := by
  cases h with
  | aside safety gaps cursors budget => exact .aside safety gaps cursors budget
  | install h => exact .install h
  | add nowUs he hn hp => exact .add nowUs (hi _ he) hn hp
  | delete hrow hsp => exact .delete hrow hsp
  | commit id nowUs => exact .commit id nowUs
  | retry id hf => exact .retry id hf
  | bury reason nowUs hrow hl => exact .bury reason nowUs hrow hl
  | revive nowUs hr hs => exact .revive nowUs hr hs
  | dropLetter hrow hs => exact .dropLetter hrow hs
  | putLetter letter hn => exact .putLetter letter hn

theorem Edits.mono (hi : ∀ e, A e → B e) (h : Edits c A R Q s s') : Edits c B R Q s s' :=
  Relation.ReflTransGen.mono (fun _ _ => Edit.mono hi) _ _ h

theorem edits_foldl {step : OutboxStore V D → α → OutboxStore V D}
    (h : ∀ s a, Edits c A R Q s (step s a)) (l : List α) (s : OutboxStore V D) :
    Edits c A R Q s (l.foldl step s) :=
  List.foldlRecOn l step (.refl s) fun t ht a _ => ht.trans (h t a)

theorem lookup_deleteEvent (s : OutboxStore V D) (id other : Uuid) :
    (s.deleteEvent id).events.lookup other =
      if other = id then none else s.events.lookup other := by
  unfold deleteEvent
  split
  · next hn =>
    split
    · next heq => rw [heq, hn]
    · rfl
  · exact Table.lookup_erase_ite s.events id other

theorem edits_deleteEvents
    (h : ∀ id ∈ ids, ∀ row, s.events.lookup id = some row → row.spent = true) :
    Edits c A R Q s (ids.foldl deleteEvent s) := by
  induction ids generalizing s with
  | nil => exact .refl s
  | cons id ids ih =>
    have hf : Edits c A R Q s (s.deleteEvent id) := by
      cases hrow : s.events.lookup id with
      | none =>
        rw [deleteEvent, hrow]
        exact .refl s
      | some row => exact (Edit.delete hrow (h id mem_cons_self row hrow)).edits
    refine hf.trans (ih fun other ho row hrow => ?_)
    rw [lookup_deleteEvent] at hrow
    split at hrow
    · cases hrow
    · exact h other (mem_cons_of_mem _ ho) row hrow

theorem lookup_updateEvent (s : OutboxStore V D) (id other : Uuid)
    (f : OutboxRow V D → OutboxRow V D) :
    (s.updateEvent id f).events.lookup other = if other = id then
        (s.events.lookup other).map fun row => { f row with payload := row.payload }
      else s.events.lookup other :=
  Table.lookup_modify ..

theorem edits_revive {nowUs : Int} (hr : Q)
    (h : ∀ id ∈ ids, ∀ row, s.events.lookup id = some row → row.state ≠ .committed) :
    Edits c A R Q s (ids.foldl (fun s id => s.updateEvent id fun row =>
      { row with
        state := .pending
        attemptCount := 0
        nextAttemptAtUs := nowUs
        lastError := none }) s) := by
  induction ids generalizing s with
  | nil => exact .refl s
  | cons id ids ih =>
    refine (Edit.revive nowUs hr (h id mem_cons_self)).edits.trans
      (ih fun other ho row hrow => ?_)
    rw [lookup_updateEvent] at hrow
    split at hrow
    · obtain ⟨saved, -, rfl⟩ := Option.map_eq_some_iff.1 hrow
      simp
    · exact h other (mem_cons_of_mem _ ho) row hrow

theorem deleteDeadLetter_events (s : OutboxStore V D) (id : Uuid) :
    (s.deleteDeadLetter id).events = s.events := by
  unfold deleteDeadLetter
  split <;> rfl

theorem edits_deleteDeadLetters
    (h : ∀ id ∈ ids, ∃ row, s.events.lookup id = some row ∧ row.state = .pending) :
    Edits c A R Q s (ids.foldl deleteDeadLetter s) := by
  induction ids generalizing s with
  | nil => exact .refl s
  | cons id ids ih =>
    obtain ⟨row, hrow, hs⟩ := h id mem_cons_self
    refine (Edit.dropLetter hrow hs).edits.trans (ih fun other ho => ?_)
    rw [deleteDeadLetter_events]
    exact h other (mem_cons_of_mem _ ho)

theorem edits_safety (s : OutboxStore V D) (safety : SafetyTable D) :
    Edits c A R Q s { s with safety := safety } :=
  (Edit.aside safety s.gaps s.syncCursors s.physicalBudget).edits

theorem edits_gaps (s : OutboxStore V D) (gaps : CaptureGaps) :
    Edits c A R Q s { s with gaps := gaps } :=
  (Edit.aside s.safety gaps s.syncCursors s.physicalBudget).edits

theorem edits_ensureCaptureCapacitySchema (s : OutboxStore V D) :
    Edits c A R Q s s.ensureCaptureCapacitySchema := by
  unfold ensureCaptureCapacitySchema
  split
  · exact .refl s
  · next hn => exact (Edit.install hn).edits

theorem ensureCaptureCapacitySchema_events (s : OutboxStore V D) :
    s.ensureCaptureCapacitySchema.events = s.events := by
  unfold ensureCaptureCapacitySchema
  split <;> rfl

theorem edits_conclude {result : Except OutboxStoreError (OutboxStore V D × α)}
    (h : ∀ s' a, result = .ok (s', a) → Edits c A R Q s s') :
    Edits c A R Q s (s.conclude c m events pauses result).1 := by
  unfold conclude
  split
  · next s' a => exact h s' a rfl
  · split
    · exact .refl s
    · split
      · exact edits_gaps s _
      · exact .refl s
  · exact .refl s

theorem conclude_eq_ok {a : α} {result : Except OutboxStoreError (OutboxStore V D × α)}
    (h : (s.conclude c m events pauses result).2 = .ok a) :
    result = .ok ((s.conclude c m events pauses result).1, a) := by
  unfold conclude at h ⊢
  split at h
  · next _ _ =>
    cases h
    rfl
  · split at h <;> cases h
  · cases h

theorem conclude_eq_error {result : Except OutboxStoreError (OutboxStore V D × α)}
    {error : OutboxStoreError} (h : (s.conclude c m events pauses result).2 = .error error) :
    ∃ gaps, (s.conclude c m events pauses result).1 = { s with gaps := gaps } := by
  unfold conclude at h ⊢
  split at h
  · cases h
  · split
    · exact ⟨s.gaps, rfl⟩
    · split
      · exact ⟨_, rfl⟩
      · exact ⟨s.gaps, rfl⟩
  · exact ⟨s.gaps, rfl⟩

theorem mem_withoutLogs {e : CloudEvent V D} (h : e ∈ withoutLogs events) :
    e ∈ events ∧ e.kind ≠ .log := by
  obtain ⟨hm, hkind⟩ := mem_filter.1 h
  exact ⟨hm, bne_iff_ne.1 hkind⟩

section

variable [DecidableEq V] [DecidableEq D] {exact isNew : Bool} {nowUs : Int} {clock : Uuid → Int}
  {e : CloudEvent V D} {inserted : Nat} {limit : Option Nat} {id : Uuid} {row : OutboxRow V D}

theorem insertEvent_cases (h : insertEvent c exact nowUs s e = .ok (s', isNew)) :
    (isNew = false ∧ s' = s ∧ ∃ row, s.events.lookup e.eventId = some row ∧
      checkDuplicate c exact row e = .ok ()) ∨
    (isNew = true ∧ s.events.lookup e.eventId = none ∧
      ∃ payload safety, c.encodeWithLocalCommit e nowUs = .ok payload ∧
        s' = { s.addEvent e.eventId ⟨payload, .pending, 0, nowUs, nowUs, none, none⟩ with
          safety := safety }) := by
  obtain ⟨payload, hp, h⟩ := bind_eq_ok.1 h
  cases hrow : s.events.lookup e.eventId with
  | some row =>
    simp only [hrow] at h
    obtain ⟨⟨⟩, hd, h⟩ := bind_eq_ok.1 h
    cases h
    exact .inl ⟨rfl, rfl, row, rfl, hd⟩
  | none =>
    simp only [hrow] at h
    obtain ⟨safety, -, h⟩ := bind_eq_ok.1 h
    cases h
    exact .inr ⟨rfl, rfl, payload, safety, hp, rfl⟩

theorem edits_insertEvent (he : A e) (h : insertEvent c exact nowUs s e = .ok (s', isNew)) :
    Edits c A R Q s s' := by
  obtain ⟨-, rfl, -⟩ | ⟨-, hrow, payload, safety, hp, rfl⟩ := insertEvent_cases h
  · exact .refl _
  · exact (Edit.add nowUs he hrow hp).edits.trans (edits_safety _ safety)

theorem insertEvent_keeps
    (h : insertEvent c exact nowUs s e = .ok (s', isNew)) (hrow : s.events.lookup id = some row) :
    s'.events.lookup id = some row := by
  obtain ⟨-, rfl, -⟩ | ⟨-, hn, payload, safety, -, rfl⟩ := insertEvent_cases h
  · exact hrow
  have hne : id ≠ e.eventId := by
    rintro rfl
    rw [hn] at hrow
    cases hrow
  exact (AList.lookup_insert_ne hne).trans hrow

theorem insertEach_cons_eq_ok (h : insertEach c exact clock s (e :: events) = .ok (s', inserted)) :
    ∃ s₁ isNew count, insertEvent c exact (clock e.eventId) s e = .ok (s₁, isNew) ∧
      insertEach c exact clock s₁ events = .ok (s', count) := by
  obtain ⟨⟨s₁, isNew⟩, hf, h⟩ := bind_eq_ok.1 h
  obtain ⟨⟨s₂, count⟩, hrest, h⟩ := bind_eq_ok.1 h
  cases h
  exact ⟨s₁, isNew, count, hf, hrest⟩

section

variable (h : insertEach c exact clock s events = .ok (s', inserted))
include h

theorem edits_insertEach :
    Edits c (fun e => e ∈ events ∧ s.events.lookup e.eventId = none) R Q s s' := by
  induction events generalizing s inserted with
  | nil =>
    cases h
    exact .refl _
  | cons e _ ih =>
    obtain ⟨s₁, isNew, count, hf, hrest⟩ := insertEach_cons_eq_ok h
    refine Edits.trans ?_ ((ih hrest).mono fun e' he' => ⟨mem_cons_of_mem _ he'.1, ?_⟩)
    · obtain ⟨-, rfl, -⟩ | ⟨-, hn, -⟩ := insertEvent_cases hf
      · exact .refl _
      · exact edits_insertEvent ⟨mem_cons_self, hn⟩ hf
    · cases hrow : s.events.lookup e'.eventId with
      | none => rfl
      | some =>
        rw [insertEvent_keeps hf hrow] at he'
        exact absurd he'.2 (by simp)

theorem insertEach_keeps
    (hrow : s.events.lookup id = some row) : s'.events.lookup id = some row := by
  induction events generalizing s inserted with
  | nil =>
    cases h
    exact hrow
  | cons e _ ih =>
    obtain ⟨s₁, isNew, count, hf, hrest⟩ := insertEach_cons_eq_ok h
    exact ih hrest (insertEvent_keeps hf hrow)

theorem insertEach_fresh
    (hn : (events.map (·.eventId)).Nodup)
    (ha : ∀ e ∈ events, s.events.lookup e.eventId = none) :
    ∀ e ∈ events, ∃ payload, c.encodeWithLocalCommit e (clock e.eventId) = .ok payload ∧
      s'.events.lookup e.eventId =
        some ⟨payload, .pending, 0, clock e.eventId, clock e.eventId, none, none⟩ := by
  induction events generalizing s inserted with
  | nil =>
    intro e he
    cases he
  | cons e _ ih =>
    obtain ⟨s₁, isNew, count, hf, hrest⟩ := insertEach_cons_eq_ok h
    obtain ⟨hno, hn⟩ := nodup_cons.1 hn
    obtain ⟨-, -, row, hrow, -⟩ | ⟨-, -, payload, safety, hp, rfl⟩ := insertEvent_cases hf
    · rw [ha e mem_cons_self] at hrow
      cases hrow
    intro e' he'
    obtain rfl | he' := mem_cons.1 he'
    · exact ⟨payload, hp, insertEach_keeps hrest (AList.lookup_insert _)⟩
    refine ih hrest hn (fun e₁ he₁ => ?_) e' he'
    have hne : e₁.eventId ≠ e.eventId := fun heq => hno (mem_map.2 ⟨e₁, he₁, heq⟩)
    exact (AList.lookup_insert_ne hne).trans (ha e₁ (mem_cons_of_mem _ he₁))

end

theorem insertEventsWithPayloadCheck_eq_ok
    (h : s.insertEventsWithPayloadCheck c m events exact = .ok (s', inserted)) :
    insertEach c exact m.writtenAtUs s events = .ok (s', inserted) ∧
      (0 < inserted → s'.checkPhysicalCapture m = .ok ()) := by
  obtain ⟨⟨s₁, count⟩, hi, h⟩ := bind_eq_ok.1 h
  simp only at h
  split at h
  · obtain ⟨⟨⟩, hp, h⟩ := bind_eq_ok.1 h
    cases h
    exact ⟨hi, fun _ => hp⟩
  next hz =>
  cases h
  exact ⟨hi, fun hpos => absurd hpos hz⟩

theorem admitEvents_eq_ok (h : s.admitEvents c m events limit exact = .ok (s', inserted)) :
    insertEach c exact m.writtenAtUs s events = .ok (s', inserted) ∧
      (∀ bytes, limit = some bytes → ∃ capacity,
        s.checkCaptureCapacity c m events bytes = .ok capacity) ∧
      (0 < inserted → s'.checkPhysicalCapture m = .ok ()) := by
  cases limit with
  | none =>
    obtain ⟨hi, hp⟩ := insertEventsWithPayloadCheck_eq_ok h
    exact ⟨hi, nofun, hp⟩
  | some limit =>
    obtain ⟨capacity, hc, h⟩ := bind_eq_ok.1 h
    obtain ⟨hi, hp⟩ := insertEventsWithPayloadCheck_eq_ok h
    exact ⟨hi, fun _ hl => by cases hl; exact ⟨capacity, hc⟩, hp⟩

theorem edits_admitEvents (h : s.admitEvents c m events limit exact = .ok (s', inserted)) :
    Edits c (fun e => e ∈ events ∧ s.events.lookup e.eventId = none) R Q s s' :=
  edits_insertEach (admitEvents_eq_ok h).1

def Offered (events : List (CloudEvent V D)) (e : CloudEvent V D) : Prop :=
  e ∈ events ∧ e.kind ≠ .log

def Fresh (s : OutboxStore V D) (events : List (CloudEvent V D)) (e : CloudEvent V D) : Prop :=
  Offered events e ∧ s.events.lookup e.eventId = none

theorem edits_insertEvents : Edits c (Fresh s events) R Q s (s.insertEvents c m events).1 := by
  unfold insertEvents
  simp only
  split
  · exact .refl s
  split
  · exact .refl s
  · exact edits_conclude fun _ a h => (edits_admitEvents h).mono fun _ he =>
      he.imp_left mem_withoutLogs

theorem edits_insertBoundedEvents {newCapture : Bool} :
    Edits c (Fresh s events) R Q s (s.insertBoundedEvents c m events limit newCapture).1 := by
  have hs : ∀ limit : Option Nat,
      Edits c (Fresh s events) R Q s (if limit.isSome then s.ensureCaptureCapacitySchema else s) ∧
      (if limit.isSome then s.ensureCaptureCapacitySchema else s).events = s.events := by
    intro limit
    split
    · exact ⟨edits_ensureCaptureCapacitySchema s, ensureCaptureCapacitySchema_events s⟩
    · exact ⟨.refl s, rfl⟩
  unfold insertBoundedEvents
  simp only
  split
  · exact .refl s
  split
  · exact .refl s
  refine (hs _).1.trans (edits_conclude fun _ a h => (edits_admitEvents h).mono fun e he => ?_)
  rw [(hs _).2] at he
  exact he.imp_left mem_withoutLogs

end

section

variable {m : Moment} {id : Uuid} {ids : List Uuid}

theorem edits_commitBoundedMetadata (h : Edits c A R Q s s') :
    Edits c A R Q s (s.commitBoundedMetadata m s').1 := by
  unfold commitBoundedMetadata
  split
  · exact .refl s
  · exact h

theorem edits_markRemoteCommitted {through : Option UInt64} :
    Edits c A R Q s (s.markRemoteCommitted m ids through).1 := by
  have hm : Edits c A R Q s (ids.foldl (fun s id => s.updateEvent id fun row =>
      { row with
        state := .committed, remoteCommittedAtUs := some m.nowUs, lastError := none }) s) :=
    edits_foldl (fun s id => (Edit.commit id m.nowUs).edits) ids s
  unfold markRemoteCommitted
  split
  · exact .refl s
  split
  · exact .refl s
  refine edits_commitBoundedMetadata ?_
  split
  · exact hm.trans (Edit.aside _ _ _ _).edits
  · exact hm

theorem edits_scheduleRetry {delaySeconds : Nat} {error : String} :
    Edits c A R Q s (s.scheduleRetry m ids delaySeconds error).1 := by
  unfold scheduleRetry
  split
  · exact .refl s
  refine edits_commitBoundedMetadata ?_
  refine edits_foldl (fun s id => (Edit.retry id fun _ => ?_).edits) ids s
  split <;> rfl

theorem edits_moveToDeadLetter {reason : String}
    (h : R ∨ ∀ row, s.events.lookup id = some row → s.deadLetters.lookup id = none) :
    Edits c A R Q s (s.moveToDeadLetter m id reason).1 := by
  refine edits_commitBoundedMetadata ?_
  split
  · exact .refl s
  next row hrow =>
  exact (Edit.bury reason m.nowUs hrow (h.imp_right fun ha => ha row hrow)).edits

theorem edits_pruneCommitted {retentionUs : Int} {facts : List SafetyKey} :
    Edits c A R Q s (s.pruneCommitted m retentionUs facts ids).1 := by
  refine edits_commitBoundedMetadata ?_
  refine (edits_safety s _).trans (edits_deleteEvents fun _ hid _ hrow => ?_)
  have hp := (mem_filter.1 (mem_of_mem_take hid)).2
  simp only [prunable, hrow, Option.any_some, Bool.and_eq_true] at hp
  simp [OutboxRow.spent, hp.1.1]

theorem edits_dropOlderTelemetry (s : OutboxStore V D) (e : CloudEvent V D) :
    Edits c A R Q s (s.dropOlderTelemetry e) := by
  refine edits_deleteEvents fun _ hid _ hrow => ?_
  have hold := Table.of_mem_filter hid hrow
  simp only [sameTelemetry, Bool.and_eq_true] at hold
  simp [OutboxRow.spent, hold.1.1.1.2]

theorem edits_discardTerminalLogEvents (s : OutboxStore V D) :
    Edits c A R Q s s.discardTerminalLogEvents := by
  refine edits_deleteEvents fun _ hid _ hrow => ?_
  have hl := Table.of_mem_filter hid hrow
  simp [OutboxRow.spent, beq_iff_eq.1 hl]

theorem edits_requeueRetryableDeadLetters (s : OutboxStore V D) (nowUs : Int) (hr : Q) :
    Edits c A R Q s (s.requeueRetryableDeadLetters nowUs) := by
  refine edits_revive hr fun _ hid _ hrow => ?_
  have hd := Table.of_mem_filter hid hrow
  simp only [Bool.and_eq_true, beq_iff_eq] at hd
  simp [hd.1.1]

theorem edits_dropRequeuedDeadLetters (s : OutboxStore V D) :
    Edits c A R Q s s.dropRequeuedDeadLetters := by
  refine edits_deleteDeadLetters fun _ hid => ?_
  obtain ⟨entry, he, rfl⟩ := mem_map.1 hid
  have hpending := (mem_filter.1 he).2
  rw [Bool.and_eq_true] at hpending
  obtain ⟨row, hrow, hs⟩ := (Option.any_eq_true _ _).1 hpending.2
  rw [Bool.and_eq_true, beq_iff_eq] at hs
  exact ⟨row, hrow, hs.1⟩

theorem edits_resetPendingContentionBackoff (s : OutboxStore V D) (nowUs : Int) :
    Edits c A R Q s (s.resetPendingContentionBackoff nowUs) := by
  refine edits_foldl (fun s id => (Edit.retry id fun _ => ?_).edits) _ s
  rfl

end

def Arrived (c : EventCodec V D) (A : CloudEvent V D → Prop) (id : Uuid)
    (row : OutboxRow V D) : Prop :=
  ∃ e nowUs, A e ∧ e.eventId = id ∧ c.encodeWithLocalCommit e nowUs = .ok row.payload

variable {id other : Uuid} {row : OutboxRow V D}

theorem Edit.reserved (h : Edit c A R Q s s') :
    s'.reservations = s.reservations ∧ s'.publisherCursors = s.publisherCursors := by
  cases h with
  | delete =>
    unfold deleteEvent
    split <;> exact ⟨rfl, rfl⟩
  | dropLetter =>
    unfold deleteDeadLetter
    split <;> exact ⟨rfl, rfl⟩
  | _ => exact ⟨rfl, rfl⟩

theorem Edits.reserved (h : Edits c A R Q s s') :
    s'.reservations = s.reservations ∧ s'.publisherCursors = s.publisherCursors := by
  induction h with
  | refl => exact ⟨rfl, rfl⟩
  | tail _ hstep ih => exact ⟨hstep.reserved.1.trans ih.1, hstep.reserved.2.trans ih.2⟩

/-- The row of an event before and after a change. Where no dead event comes
back, it is pending only if it was. -/
def Continues (Q : Prop) (old row : OutboxRow V D) : Prop :=
  row.payload = old.payload ∧ (row.state = .pending → Q ∨ old.state = .pending)

theorem Continues.refl (row : OutboxRow V D) : Continues Q row row := ⟨rfl, .inr⟩

theorem updateEvent_origin {f : OutboxRow V D → OutboxRow V D}
    (hf : ∀ row, (f row).state = .pending → Q ∨ row.state = .pending)
    (h : (s.updateEvent id f).events.lookup other = some row) :
    ∃ old, s.events.lookup other = some old ∧ Continues Q old row := by
  rw [lookup_updateEvent] at h
  split at h
  · obtain ⟨old, hold, rfl⟩ := Option.map_eq_some_iff.1 h
    exact ⟨old, hold, rfl, hf old⟩
  · exact ⟨row, h, .refl row⟩

theorem Edit.origin (h : Edit c A R Q s s') (hrow : s'.events.lookup id = some row) :
    (∃ old, s.events.lookup id = some old ∧ Continues Q old row) ∨ Arrived c A id row := by
  cases h with
  | aside | install | putLetter => exact .inl ⟨row, hrow, .refl row⟩
  | @add e payload nowUs he _ hp =>
    have hc := Table.lookup_insert_ite s.events e.eventId id
      (⟨payload, .pending, 0, nowUs, nowUs, none, none⟩ : OutboxRow V D)
    rw [addEvent] at hrow
    rw [hrow] at hc
    split at hc
    · next heq =>
      cases hc
      exact .inr ⟨e, nowUs, he, heq.symm, hp⟩
    · exact .inl ⟨row, hc.symm, .refl row⟩
  | delete =>
    rw [lookup_deleteEvent] at hrow
    split at hrow
    · cases hrow
    · exact .inl ⟨row, hrow, .refl row⟩
  | commit | bury => exact .inl (updateEvent_origin (fun _ h => by cases h) hrow)
  | retry id hf => exact .inl (updateEvent_origin (fun row h => .inr ((hf row).symm.trans h)) hrow)
  | revive _ hr => exact .inl (updateEvent_origin (fun _ _ => .inl hr) hrow)
  | dropLetter =>
    rw [deleteDeadLetter_events] at hrow
    exact .inl ⟨row, hrow, .refl row⟩

theorem Edits.origin (h : Edits c A R Q s s') (hrow : s'.events.lookup id = some row) :
    (∃ old, s.events.lookup id = some old ∧ Continues Q old row) ∨ Arrived c A id row := by
  induction h generalizing row with
  | refl => exact .inl ⟨row, hrow, .refl row⟩
  | tail _ hstep ih =>
    obtain ⟨mid, hm, hp, hpending⟩ | ha := hstep.origin hrow
    · obtain ⟨old, hold, heq, hb⟩ | ⟨e, nowUs, he, hid, hen⟩ := ih hm
      · exact .inl ⟨old, hold, hp.trans heq, fun h => (hpending h).elim .inl hb⟩
      · exact .inr ⟨e, nowUs, he, hid, hp ▸ hen⟩
    · exact .inr ha

end OutboxStore

end AqEngine.LiveSync
