import AqEngine.Lib.Ahead
import AqEngine.Outbox.CaptureRuns
import AqEngine.Outbox.Sending

namespace AqEngine.LiveSync

open Lib Fallible List Option

namespace OutboxStore

variable {V D : Type} {c : EventCodec V D} {A : CloudEvent V D → Prop} {R Q : Prop}
  {s s' : OutboxStore V D}

def Waits (s : OutboxStore V D) (id : Uuid) (e : CloudEvent V D) : Prop :=
  ∃ row, s.events.lookup id = some row ∧ row.state = .pending ∧
    row.payload.event.priority = .critical ∧ row.payload.event.scope = e.scope ∧
    ∃ m n, row.payload.event.criticalSequence = some m ∧ e.criticalSequence = some n ∧ m < n

/-- Rows are stored under the identity of their event, and the sequences of
critical ones keep their order in the table. -/
structure Sound (s : OutboxStore V D) : Prop where
  keyed : ∀ id row, s.events.lookup id = some row → row.payload.event.eventId = id
  fits : ∀ id row n, s.events.lookup id = some row → row.payload.event.priority = .critical →
    row.payload.event.criticalSequence = some n → n.toNat ≤ i64MaxNat

theorem Sound.empty : Sound ({} : OutboxStore V D) where
  keyed := by simp
  fits := by simp

theorem Sound.edits (h : s.Sound) (hed : Edits c A R Q s s')
    (hA : ∀ e, A e → e.priority = .critical → ∀ n, e.criticalSequence = some n →
      n.toNat ≤ i64MaxNat) : s'.Sound := by
  constructor
  · intro id row hrow
    obtain ⟨old, hold, hpa, -⟩ | ⟨e, nowUs, -, hid, hen⟩ := hed.origin hrow
    · rw [hpa]
      exact h.keyed id old hold
    rw [event_of_encoded hen]
    exact hid
  · intro id row n hrow hp hn
    obtain ⟨old, hold, hpa, -⟩ | ⟨e, nowUs, he, -, hen⟩ := hed.origin hrow
    · rw [hpa] at hp hn
      exact h.fits id old n hold hp hn
    rw [event_of_encoded hen] at hp hn
    exact hA e he hp n hn

theorem toInt_of_fits {n : UInt64} (h : n.toNat ≤ i64MaxNat) : n.toInt64.toInt = n.toNat := by
  change n.toBitVec.toInt = n.toBitVec.toNat
  change n.toBitVec.toNat ≤ 2 ^ 63 - 1 at h
  rw [BitVec.toInt_eq_toNat_of_lt]
  omega

theorem column_lt {m n : UInt64} (hm : m.toNat ≤ i64MaxNat) (hn : n.toNat ≤ i64MaxNat) :
    m.toInt64.toInt < n.toInt64.toInt ↔ m < n := by
  rw [toInt_of_fits hm, toInt_of_fits hn, UInt64.lt_iff_toNat_lt]
  exact Int.ofNat_lt

section

variable {nowUs : Int} {scope : Scope} {row other : OutboxRow V D} {m n : UInt64}
  {records : List (OutboxEventRecord V D)}

theorem mem_dueRows {priority : EventPriority} : row ∈ s.dueRows c nowUs priority scope ↔
      (∃ id, s.events.lookup id = some row) ∧ s.due nowUs priority scope row = true := by
  unfold dueRows
  rw [mem_insertionSort, mem_filter, List.mem_map]
  constructor
  · rintro ⟨⟨⟨id, row'⟩, he, rfl⟩, hd⟩
    exact ⟨⟨id, AList.mem_lookup_iff.2 he⟩, hd⟩
  · rintro ⟨⟨id, hrow⟩, hd⟩
    exact ⟨⟨⟨id, row⟩, AList.mem_lookup_iff.1 hrow, rfl⟩, hd⟩

theorem due_critical (h : s.due nowUs .critical scope row = true) :
    row.payload.event.priority = .critical ∧ row.payload.event.scope = scope ∧
      ∀ id other, s.events.lookup id = some other → blocks nowUs other row = false := by
  simp only [due, Bool.and_eq_true, beq_iff_eq, bne_self_eq_false, Bool.false_or,
    List.all_eq_true, Bool.not_eq_true'] at h
  exact ⟨h.1.1.1.2, h.1.2, fun id other ho => h.2 ⟨id, other⟩ (AList.mem_lookup_iff.1 ho)⟩

theorem Sound.due_of_waits (hs : s.Sound) {id id' : Uuid}
    (hrow : s.events.lookup id' = some row) (hd : s.due nowUs .critical scope row = true)
    (ho : s.events.lookup id = some other) (hpending : other.state = .pending)
    (hp : other.payload.event.priority = .critical)
    (hsc : other.payload.event.scope = row.payload.event.scope)
    (hm : other.payload.event.criticalSequence = some m)
    (hn : row.payload.event.criticalSequence = some n) (hlt : m < n) :
    s.due nowUs .critical scope other = true := by
  obtain ⟨hcr, hr, hfree⟩ := due_critical hd
  have hc : m.toInt64.toInt < n.toInt64.toInt :=
    (column_lt (hs.fits id other m ho hp hm) (hs.fits id' row n hrow hcr hn)).2 hlt
  have hne : other.nextAttemptAtUs ≤ nowUs := by
    have hb := hfree id other ho
    by_contra hl
    simp [blocks, hpending, hp, hsc, CloudEvent.sequenceColumn, hm, hn, hc, not_le.1 hl] at hb
  have hu : ∀ entry ∈ s.events.entries, blocks nowUs entry.2 other = false := by
    intro entry he
    have hb := hfree entry.1 entry.2 (AList.mem_lookup_iff.2 he)
    by_contra hbl
    rw [Bool.not_eq_false] at hbl
    simp only [blocks, Bool.and_eq_true, beq_iff_eq, decide_eq_true_eq] at hbl
    obtain ⟨⟨⟨⟨hst, hp'⟩, hl⟩, hs'⟩, ha⟩ := hbl
    obtain ⟨k, hk, ha⟩ := (Option.any_eq_true _ _).1 ha
    obtain ⟨m', hm', hkm⟩ := (Option.any_eq_true _ _).1 ha
    simp only [CloudEvent.sequenceColumn, hm, map_some, Option.some.injEq] at hm'
    have hkn : k < n.toInt64.toInt := by
      rw [← hm'] at hkm
      exact (of_decide_eq_true hkm).trans hc
    rw [hsc] at hs'
    have hco : row.payload.event.sequenceColumn = some n.toInt64.toInt := by
      simp [CloudEvent.sequenceColumn, hn]
    simp [blocks, hst, hp', hl, hs', hk, hco, hkn] at hb
  simp only [due, Bool.and_eq_true, beq_iff_eq, bne_self_eq_false, Bool.false_or,
    List.all_eq_true, Bool.not_eq_true', decide_eq_true_eq]
  exact ⟨⟨⟨⟨hpending, hp⟩, hne⟩, hsc.trans hr⟩, hu⟩

theorem sortKey_lt (hm : other.payload.event.criticalSequence = some m)
    (hn : row.payload.event.criticalSequence = some n) (hlt : m.toInt64.toInt < n.toInt64.toInt) :
    sortKey c other < sortKey c row := by
  simp only [sortKey, CloudEvent.sequenceColumn, hm, hn, map_some, isNone_some,
    getD_some]
  exact Prod.Lex.toLex_lt_toLex.2 (.inr ⟨rfl, Prod.Lex.toLex_lt_toLex.2 (.inl hlt)⟩)

theorem pairwise_dueRows (priority : EventPriority) :
    (s.dueRows c nowUs priority scope).Pairwise fun a b => sortKey c a ≤ sortKey c b := by
  have ht : Std.Total fun a b : OutboxRow V D => sortKey c a ≤ sortKey c b :=
    ⟨fun a b => le_total (sortKey c a) (sortKey c b)⟩
  have htr : IsTrans (OutboxRow V D) fun a b => sortKey c a ≤ sortKey c b := ⟨fun _ _ _ => le_trans⟩
  exact pairwise_insertionSort _ _

theorem Sound.ahead_dueRows (hs : s.Sound) :
    Ahead (fun id (row : OutboxRow V D) => s.Waits id row.payload.event)
      (fun row => row.payload.event.eventId) (s.dueRows c nowUs .critical scope) := by
  refine Ahead.of_pairwise (pairwise_dueRows .critical) ?_
  rintro row hme id ⟨other, ho, hpending, hp, hsc, m, n, hm, hn, hlt⟩
  obtain ⟨⟨id', hrow⟩, hd⟩ := mem_dueRows.1 hme
  have hdu := hs.due_of_waits hrow hd ho hpending hp hsc hm hn hlt
  have hc : m.toInt64.toInt < n.toInt64.toInt :=
    (column_lt (hs.fits id other m ho hp hm) (hs.fits id' row n hrow (due_critical hd).1 hn)).2 hlt
  have hk : sortKey c other < sortKey c row := sortKey_lt hm hn hc
  refine ⟨other, mem_dueRows.2 ⟨⟨id, ho⟩, hdu⟩, hs.keyed id other ho, not_le.2 hk, ?_⟩
  rintro rfl
  exact lt_irrefl _ hk

theorem withinBytes_isPrefix (maxBytes : Nat) (bytes : Option Nat) (rows : List (OutboxRow V D)) :
    withinBytes maxBytes bytes rows <+: rows := by
  induction rows generalizing bytes with
  | nil => cases bytes <;> exact prefix_rfl
  | cons row _ ih =>
    cases bytes with
    | none => exact (prefix_cons_inj row).2 (ih _)
    | some bytes =>
      unfold withinBytes
      split
      · exact nil_prefix
      · exact (prefix_cons_inj row).2 (ih _)

theorem events_of_mapM {rows : List (OutboxRow V D)} (h : rows.mapM record = .ok records) :
    records.map (·.event) = rows.map (·.payload.event) := by
  induction rows generalizing records with
  | nil =>
    cases h
    rfl
  | cons _ _ ih =>
    rw [mapM_cons] at h
    obtain ⟨first, hf, h⟩ := bind_eq_ok.1 h
    obtain ⟨others, ho, h⟩ := bind_eq_ok.1 h
    cases h
    obtain ⟨event, hd, hf⟩ := bind_eq_ok.1 hf
    cases hf
    unfold EventCodec.decode at hd
    simp only at hd
    split at hd
    · cases hd
    cases hd
    rw [map_cons, map_cons, ih ho]

theorem Sound.ahead_pendingBatch (hs : s.Sound) {maxEvents maxBytes : Nat}
    (h : s.pendingBatchForRuntimeScope c nowUs .critical scope maxEvents maxBytes = .ok records) :
    Ahead s.Waits (·.eventId) (records.map (·.event)) ∧
      ∀ r ∈ records, r.event.priority = .critical := by
  have ht := take_prefix (max maxEvents 1) (s.dueRows c nowUs .critical scope)
  have hf := (withinBytes_isPrefix maxBytes none _).trans ht
  have he := events_of_mapM h
  constructor
  · rw [he]
    exact Ahead.map_iff.2 (hs.ahead_dueRows.of_isPrefix hf)
  · intro r hr
    have hm : r.event ∈ records.map (·.event) := List.mem_map.2 ⟨r, hr, rfl⟩
    rw [he] at hm
    obtain ⟨row, hrow, heq⟩ := List.mem_map.1 hm
    rw [← heq]
    exact (due_critical (mem_dueRows.1 (hf.subset hrow)).2).1

end

variable {id : Uuid} {e : CloudEvent V D} {f : OutboxRow V D → OutboxRow V D} {m : Moment}

theorem Waits.edits (he : Edits c A R False s s') (h : s'.Waits id e) :
    s.Waits id e ∨ ∃ e', A e' ∧ e'.eventId = id ∧ e'.priority = .critical ∧ e'.scope = e.scope ∧
      ∃ m n, e'.criticalSequence = some m ∧ e.criticalSequence = some n ∧ m < n := by
  obtain ⟨row, hrow, hpending, hrest⟩ := h
  obtain ⟨old, hold, hp, hs⟩ | ⟨e', nowUs, he', hid, hen⟩ := he.origin hrow
  · rw [hp] at hrest
    exact .inl ⟨old, hold, (hs hpending).resolve_left False.elim, hrest⟩
  rw [event_of_encoded hen] at hrest
  exact .inr ⟨e', he', hid, hrest⟩

abbrev Calms (c : EventCodec V D) : OutboxStore V D → OutboxStore V D → Prop :=
  Edits c (fun _ => False) True False

theorem Waits.of_calms (he : Calms c s s') (h : s'.Waits id e) : s.Waits id e := by
  obtain h | ⟨e', he', -⟩ := h.edits he
  · exact h
  · exact he'.elim

def Settled (s : OutboxStore V D) (id : Uuid) : Prop :=
  ∀ row, s.events.lookup id = some row → row.state ≠ .pending

theorem Settled.edits (hed : Calms c s s') (h : s.Settled id) : s'.Settled id := by
  intro row hrow hpending
  obtain ⟨old, hold, -, hs⟩ | ⟨e, -, he, -⟩ := hed.origin hrow
  · exact h old hold ((hs hpending).resolve_left False.elim)
  · exact he.elim

theorem Settled.not_waits (h : s.Settled id) : ¬s.Waits id e := by
  rintro ⟨row, hrow, hpending, -⟩
  exact h row hrow hpending

theorem settled_updateEvent (id : Uuid) (hf : ∀ row, (f row).state ≠ .pending) :
    (s.updateEvent id f).Settled id := by
  intro row hrow
  rw [lookup_updateEvent, if_pos rfl] at hrow
  obtain ⟨old, -, rfl⟩ := map_eq_some_iff.1 hrow
  exact hf old

theorem commitBoundedMetadata_eq_ok (h : (s.commitBoundedMetadata m s').2 = .ok ()) :
    (s.commitBoundedMetadata m s').1 = s' := by
  unfold commitBoundedMetadata at h ⊢
  split at h
  · cases h
  · rfl

theorem Settled.updateEvents (hf : ∀ row, (f row).state ≠ .pending) (ids : List Uuid)
    (h : s.Settled id) : (ids.foldl (fun s id => s.updateEvent id f) s).Settled id := by
  induction ids generalizing s with
  | nil => exact h
  | cons _ ids ih =>
    refine ih fun row hrow hpending => ?_
    obtain ⟨old, hold, -, hs⟩ :=
      updateEvent_origin (Q := False) (fun row hs => absurd hs (hf row)) hrow
    exact h old hold ((hs hpending).resolve_left False.elim)

theorem settled_updateEvents (hf : ∀ row, (f row).state ≠ .pending) (ids : List Uuid)
    (s : OutboxStore V D) :
    ∀ id ∈ ids, (ids.foldl (fun s id => s.updateEvent id f) s).Settled id := by
  induction ids generalizing s with
  | nil => simp
  | cons _ ids ih =>
    intro id hid
    obtain rfl | hid := mem_cons.1 hid
    · exact (settled_updateEvent id hf).updateEvents hf ids
    · exact ih _ id hid

theorem settled_markRemoteCommitted {ids : List Uuid} {through : Option UInt64}
    (h : (s.markRemoteCommitted m ids through).2 = .ok ()) :
    ∀ id ∈ ids, (s.markRemoteCommitted m ids through).1.Settled id := by
  intro id hid
  have hm := settled_updateEvents (f := fun row : OutboxRow V D =>
    { row with state := .committed, remoteCommittedAtUs := some m.nowUs, lastError := none })
    (fun _ => by simp) ids s id hid
  unfold markRemoteCommitted at h ⊢
  split at h
  · next he =>
    rw [List.isEmpty_iff.1 he] at hid
    cases hid
  next he =>
  rw [if_neg he]
  split at h
  · cases h
  next hc =>
  rw [if_neg hc, commitBoundedMetadata_eq_ok h]
  split
  · exact hm
  · exact hm

theorem settled_moveToDeadLetter {reason : String}
    (h : (s.moveToDeadLetter m id reason).2 = .ok ()) :
    (s.moveToDeadLetter m id reason).1.Settled id := by
  unfold moveToDeadLetter at h ⊢
  rw [commitBoundedMetadata_eq_ok h]
  split
  · next hn =>
    intro row hrow
    rw [hn] at hrow
    cases hrow
  · exact settled_updateEvent id fun _ => by simp

end OutboxStore

namespace CriticalWorker

open OutboxStore

variable {V D : Type} {c : EventCodec V D} {w : CriticalWorker V D} {s : OutboxStore V D}
  {m : Moment} {message : String} {part : List (OutboxEventRecord V D)}
  {rest : List (List (OutboxEventRecord V D))} {delay : Option Nat} {w' w₀ : CriticalWorker V D}

theorem edits_deadLetterEach (ids : List Uuid) (s : OutboxStore V D) :
    Calms c s (deadLetterEach m message s ids).1 := by
  induction ids generalizing s with
  | nil => exact .refl s
  | cons id ids ih =>
    have hm : Calms c s (s.moveToDeadLetter { m with nowUs := m.writtenAtUs id } id message).1 :=
      edits_moveToDeadLetter (.inl trivial)
    unfold deadLetterEach
    split
    · next s' _ heq =>
      rw [heq] at hm
      exact hm
    next s' heq =>
    rw [heq] at hm
    exact hm.trans (ih s')

theorem settled_deadLetterEach (c : EventCodec V D) {ids : List Uuid}
    (h : (deadLetterEach m message s ids).2 = .ok ()) :
    ∀ id ∈ ids, (deadLetterEach m message s ids).1.Settled id := by
  induction ids generalizing s with
  | nil => simp
  | cons id ids ih =>
    unfold deadLetterEach at h ⊢
    cases hm : s.moveToDeadLetter { m with nowUs := m.writtenAtUs id } id message with
    | mk s' answer =>
      simp only [hm] at h ⊢
      cases answer with
      | error error => cases h
      | ok =>
        intro id' hid'
        obtain rfl | hid' := mem_cons.1 hid'
        · have hs := settled_moveToDeadLetter (congrArg Prod.snd hm)
          rw [hm] at hs
          exact hs.edits (edits_deadLetterEach (c := c) ids s')
        · exact ih h id' hid'

theorem calms_of_marked {s' : OutboxStore V D} {ids : List Uuid} {through : Option UInt64}
    {answer : Except OutboxStoreError Unit}
    (h : s.markRemoteCommitted m ids through = (s', answer)) : Calms c s s' := by
  have he : Calms c s (s.markRemoteCommitted m ids through).1 := edits_markRemoteCommitted
  rwa [h] at he

theorem edits_scheduleBatchRetry (w : CriticalWorker V D) {records : List (OutboxEventRecord V D)} :
    Calms c w.store (w.scheduleBatchRetry m records delay message).1 := by
  unfold scheduleBatchRetry
  split
  · exact .refl _
  · exact edits_scheduleRetry

def queue (w : CriticalWorker V D) : List (CloudEvent V D) := w.pending.flatten.map (·.event)

/-- The worker can deliver what it has selected in order. -/
structure InOrder (w : CriticalWorker V D) : Prop where
  sound : w.store.Sound
  critical : ∀ e ∈ w.queue, e.priority = .critical
  ahead : Ahead w.store.Waits (·.eventId) w.queue

theorem InOrder.idle (h : w'.store.Sound) (hi : w'.pending = []) : w'.InOrder := by
  have hq : w'.queue = [] := by
    rw [queue, hi]
    rfl
  exact ⟨h, by simp [hq], by rw [hq]; exact Ahead.nil⟩

theorem InOrder.edits (h : w.InOrder) (he : Calms c w.store w'.store)
    (hpending : w'.pending = w.pending) : w'.InOrder := by
  have hq : w'.queue = w.queue := by
    rw [queue, queue, hpending]
  refine ⟨h.sound.edits he (fun _ => False.elim), hq ▸ h.critical, ?_⟩
  rw [hq]
  exact h.ahead.mono fun _ _ _ hw => hw.of_calms he

theorem InOrder.proceed {result : OutboxStore V D × Except OutboxStoreError Unit} (h : w.InOrder)
    (hp : w.pending = part :: rest)
    (hed : Calms c w.store result.1)
    (hse : rest ≠ [] → result.2 = .ok () → ∀ id ∈ identities part, result.1.Settled id) :
    (w₀.proceed rest result).InOrder := by
  have hs : result.1.Sound := h.sound.edits hed fun _ => False.elim
  obtain ⟨store, answer⟩ := result
  cases answer with
  | error error => exact .idle hs rfl
  | ok =>
    by_cases hrest : rest = []
    · subst hrest
      exact .idle hs rfl
    have hq : w.queue = part.map (·.event) ++ rest.flatten.map (·.event) := by
      rw [queue, hp, flatten_cons, map_append]
    have ha := h.ahead
    rw [hq] at ha
    refine ⟨hs, fun e he => h.critical e ?_, ?_⟩
    · rw [hq]
      exact mem_append_right _ he
    · refine Ahead.back_of_append (ha.mono fun _ _ _ hw => hw.of_calms hed) fun id e he hw hid => ?_
      rw [List.map_map] at hid
      exact (hse hrest rfl id hid).not_waits hw

/-- Whether an answer leaves a record of the first part to a later try. -/
def leaves (w : CriticalWorker V D) (part : List (OutboxEventRecord V D)) : RemoteAnswer → Bool
  | .accepted _ => false
  | .authentication refreshed _ => w.authenticationRefreshed || !refreshed
  | .invalidBatch _ => false
  | .sequenceConflict (some cursor) _ =>
    part.any fun record => !record.event.criticalSequence.any fun n => decide (n ≤ cursor)
  | .sequenceConflict none _ => true
  | .terminal _ => false
  | .transient _ => true
  | .cloudPaused _ => true

theorem InOrder.retry (c : EventCodec V D)
    (h : w.InOrder) (hp : w.pending = part :: rest) (hs : w₀.store = w.store)
    (hl : rest = []) :
    (w₀.proceed rest (w₀.scheduleBatchRetry m part delay message)).InOrder := by
  refine h.proceed (c := c) hp ?_ fun hrest => absurd hl hrest
  rw [← hs]
  exact edits_scheduleBatchRetry _

/-- The records below the cursor are settled; if there are others, they were the
last. -/
theorem InOrder.resolveConflict {cursor : UInt64} (c : EventCodec V D) (h : w.InOrder)
    (hp : w.pending = part :: rest)
    (hl : w.leaves part (.sequenceConflict (some cursor) message) = true → rest = []) :
    (w.resolveConflict m part rest cursor).InOrder := by
  unfold CriticalWorker.resolveConflict
  simp only
  generalize hd : part.filter
    (fun record => record.event.criticalSequence.any fun n => decide (n ≤ cursor)) = done
  have hs : (w.store.markRemoteCommitted m (identities done) (some cursor)).2 = .ok () → _ :=
    settled_markRemoteCommitted
  cases hre : w.store.markRemoteCommitted m (identities done) (some cursor) with
  | mk store answer =>
    have hm : Calms c w.store store := calms_of_marked hre
    rw [hre] at hs
    cases answer with
    | error error => exact h.proceed hp hm (fun _ => nofun)
    | ok =>
      have hr : ∀ records delay detail, Calms c store
          (({ w with store := store } : CriticalWorker V D).scheduleBatchRetry m records delay
            detail).1 := fun _ _ _ => edits_scheduleBatchRetry { w with store := store }
      refine h.proceed hp (hm.trans (hr _ _ _)) fun hrest _ id hid => ?_
      have ha : done = part := by
        rw [← hd, filter_eq_self]
        intro record hrecord
        by_contra hleft
        rw [Bool.not_eq_true] at hleft
        exact hrest (hl (List.any_eq_true.2 ⟨record, hrecord, by rw [hleft]; rfl⟩))
      rw [← ha] at hid
      exact (hs rfl id hid).edits (hr _ _ _)

theorem InOrder.answer (c : EventCodec V D) {reply : RemoteAnswer} (h : w.InOrder)
    (hok : ∀ part rest, w.pending = part :: rest → w.leaves part reply = true → rest = []) :
    (w.answer m reply).InOrder := by
  unfold CriticalWorker.answer
  cases hp : w.pending with
  | nil => exact h
  | cons part rest =>
    have hl := hok part rest hp
    cases reply with
    | accepted =>
      exact h.proceed (c := c) hp edits_markRemoteCommitted fun _ => settled_markRemoteCommitted
    | authentication =>
      simp only
      split
      · next hr => exact h.retry c hp rfl (hl (by simp [leaves, hr]))
      split
      · exact h.edits (c := c) (.refl _) hp.symm
      next hr =>
      exact h.retry c hp rfl (hl (by simp [leaves, hr]))
    | invalidBatch =>
      simp only
      split
      · have hq : (part.take (part.length / 2) :: part.drop (part.length / 2) ::
            rest).flatten = w.pending.flatten := by
          rw [hp, flatten_cons, flatten_cons, ← append_assoc,
            take_append_drop, flatten_cons]
        refine ⟨h.sound, ?_, ?_⟩
        · unfold queue
          rw [hq]
          exact h.critical
        · unfold queue
          rw [hq]
          exact h.ahead
      · exact h.proceed (c := c) hp (edits_deadLetterEach _ _) fun _ => settled_deadLetterEach c
    | sequenceConflict cursor =>
      cases cursor with
      | none => exact h.retry c hp rfl (hl rfl)
      | some cursor => exact h.resolveConflict c hp hl
    | terminal =>
      exact h.proceed (c := c) hp (edits_deadLetterEach _ _) fun _ => settled_deadLetterEach c
    | transient | cloudPaused => exact h.retry c hp rfl (hl rfl)

theorem edits_proceed {result : OutboxStore V D × Except OutboxStoreError Unit}
    (h : Calms c s result.1) :
    Calms c s (w.proceed rest result).store ∧ (w.proceed rest result).offered = false := by
  obtain ⟨store, answer⟩ := result
  cases answer <;> exact ⟨h, rfl⟩

theorem edits_answer (c : EventCodec V D) (m : Moment) (reply : RemoteAnswer)
    (hp : w.pending = part :: rest) :
    Calms c w.store (w.answer m reply).store ∧ (w.answer m reply).offered = false := by
  unfold CriticalWorker.answer
  rw [hp]
  cases reply with
  | accepted => exact edits_proceed edits_markRemoteCommitted
  | authentication =>
    simp only
    split
    · exact edits_proceed (edits_scheduleBatchRetry w)
    split
    · exact ⟨.refl _, rfl⟩
    · exact edits_proceed (edits_scheduleBatchRetry _)
  | invalidBatch =>
    simp only
    split
    · exact ⟨.refl _, rfl⟩
    · exact edits_proceed (edits_deadLetterEach _ _)
  | sequenceConflict cursor =>
    cases cursor with
    | none => exact edits_proceed (edits_scheduleBatchRetry w)
    | some cursor =>
      simp only [CriticalWorker.resolveConflict]
      split
      · next heq => exact edits_proceed (calms_of_marked heq)
      · next store heq =>
        exact edits_proceed
          ((calms_of_marked heq).trans (edits_scheduleBatchRetry { w with store := store }))
  | terminal => exact edits_proceed (edits_deadLetterEach _ _)
  | transient | cloudPaused => exact edits_proceed (edits_scheduleBatchRetry _)

theorem InOrder.flush {config : SyncAgentConfig} (h : w.InOrder) (hi : w.pending = []) :
    (w.flush c config m).InOrder := by
  unfold CriticalWorker.flush
  split
  · exact h
  split
  · exact h
  · exact h
  next records _ hb =>
  obtain ⟨ha, hc⟩ := h.sound.ahead_pendingBatch hb
  have hf : sameRun records <+: records := takeWhile_prefix _
  simp only
  split
  · refine .idle (h.sound.edits (A := fun _ => False) (R := True) (Q := True) (c := c)
      edits_scheduleRetry fun _ => False.elim) hi
  have hq : ∀ w' : CriticalWorker V D, w'.pending = [sameRun records] →
      w'.queue = (sameRun records).map (·.event) := by
    intro w' hpending
    rw [queue, hpending, flatten_singleton]
  refine ⟨h.sound, ?_, ?_⟩
  · rw [hq _ rfl]
    intro e he
    obtain ⟨r, hr, rfl⟩ := List.mem_map.1 he
    exact hc r (hf.subset hr)
  · rw [hq _ rfl]
    exact ha.of_isPrefix (hf.map _)

theorem InOrder.offer (h : w.InOrder) : w.offer.InOrder := by
  unfold CriticalWorker.offer
  split
  · exact .idle h.sound rfl
  · exact { h with }

end CriticalWorker

/-- What happens to an agent that delivers critical events: arrivals from the
local bus, the steps of its worker with the answers of the sink, the end of the
worker at any moment, and the care for its store. -/
inductive SyncAction (V D : Type) where
  | ingest (m : Moment) (events : List (CloudEvent V D)) (limit : Option Nat)
  | flush (m : Moment)
  | offer
  | answer (m : Moment) (reply : RemoteAnswer)
  | pause | resume
  | wake (nowUs : Int) (ids : List Uuid) (error : String)
  | prune (m : Moment) (retentionUs : Int) (facts : List SafetyKey) (ids : List Uuid)
  | restart (nowUs : Int) (budget : Option PhysicalCaptureBudget)

namespace SyncAction

open OutboxStore

variable {V D : Type} [DecidableEq V] [DecidableEq D] (c : EventCodec V D)
  (config : SyncAgentConfig)

def ingested (s : OutboxStore V D) (m : Moment) (events : List (CloudEvent V D)) :
    Option Nat → OutboxStore V D
  | none => (s.insertEvents c m events).1
  | some limit => (s.handoffAcceptedEventsWithCapacity c m events limit).1

def step (w : CriticalWorker V D) : SyncAction V D → Option (CriticalWorker V D)
  | ingest m events limit => some { w with store := ingested c w.store m events limit }
  | flush m => if w.pending.isEmpty then some (w.flush c config m) else none
  | offer => if w.pending.isEmpty ∨ w.offered then none else some w.offer
  | answer m reply => if w.offered then some (w.answer m reply) else none
  | pause => some { w with cloudPaused := true }
  | resume => some { w with cloudPaused := false }
  | wake nowUs ids error =>
    some { w with store := w.store.wakeRetryEvents nowUs .critical config.scope ids error }
  | prune m retention facts ids =>
    some { w with store := (w.store.pruneCommitted m retention facts ids).1 }
  | restart nowUs budget => some { store := ReservationHistory.reopened w.store nowUs budget }

/-- An event that may arrive during a delivery: it was stored before, or its
sequence is in the range of the column and not below one that is delivered. -/
def arrives (w : CriticalWorker V D) (e : CloudEvent V D) : Bool :=
  e.priority != .critical || (w.store.events.lookup e.eventId).isSome ||
    e.criticalSequence.all fun m => decide (m.toNat ≤ i64MaxNat) &&
      w.queue.all fun e' => e'.scope != e.scope ||
        e'.criticalSequence.all fun n => decide (n ≤ m)

/-- Arrivals are not below what is delivered, and an answer that leaves records
for later comes to the last part. -/
def orderly (w : CriticalWorker V D) : SyncAction V D → Bool
  | ingest _ events _ => events.all (arrives w)
  | answer _ reply =>
    match w.pending with
    | [] => true
    | part :: rest => !w.leaves part reply || rest.isEmpty
  | _ => true

/-- Delivery is not resumed before the worker has dropped what it has selected. -/
def dropped : List (SyncAction V D) → Bool
  | [] | offer :: _ | restart .. :: _ => true
  | resume :: _ => false
  | _ :: rest => dropped rest

variable {c config} {w w' : CriticalWorker V D} {s : OutboxStore V D} {m : Moment}
  {events : List (CloudEvent V D)} {limit : Option Nat} {R Q : Prop}

theorem edits_ingested : Edits c (Fresh s events) R Q s (ingested c s m events limit) := by
  cases limit with
  | none => exact edits_insertEvents
  | some limit => exact edits_insertBoundedEvents

omit [DecidableEq V] [DecidableEq D] in
theorem arrives_critical {e : CloudEvent V D} {m : UInt64} (h : arrives w e = true)
    (hc : e.priority = .critical) (hne : w.store.events.lookup e.eventId = none)
    (hm : e.criticalSequence = some m) :
    m.toNat ≤ i64MaxNat ∧ ∀ e' ∈ w.queue, e'.scope = e.scope →
      ∀ n, e'.criticalSequence = some n → n ≤ m := by
  simp only [arrives, hc, bne_self_eq_false, hne, isSome_none, Bool.false_or, hm,
    all_some, Bool.and_eq_true, decide_eq_true_eq, List.all_eq_true] at h
  refine ⟨h.1, fun e' he' hs n hn => ?_⟩
  have ha := h.2 e' he'
  simpa [hs, hn] using ha

theorem inOrder_ingest (h : w.InOrder) (hok : ∀ e ∈ events, arrives w e = true) :
    CriticalWorker.InOrder { w with store := ingested c w.store m events limit } := by
  have hed : Edits c (Fresh w.store events) True False w.store
    (ingested c w.store m events limit) := edits_ingested
  refine ⟨h.sound.edits hed fun e he hc n hn => ?_, h.critical, ?_⟩
  · exact (arrives_critical (hok e he.1.1) hc he.2 hn).1
  · refine h.ahead.mono fun _ e he hw => ?_
    obtain hw | ⟨e', he', -, hc, hs, k, n, hk, hn, hlt⟩ := hw.edits hed
    · exact hw
    have hle := (arrives_critical (hok e' he'.1.1) hc he'.2 hk).2 e he hs.symm n hn
    exact absurd hlt (UInt64.not_lt.2 hle)

omit [DecidableEq V] [DecidableEq D] in
theorem edits_wakeRetryEvents {nowUs : Int} {priority : EventPriority}
    {scope : Scope} {ids : List Uuid} {error : String} {A : CloudEvent V D → Prop} :
    Edits c A R Q s (s.wakeRetryEvents nowUs priority scope ids error) := by
  refine edits_foldl (fun s id => (Edit.retry id fun _ => ?_).edits) ids s
  split <;> rfl

theorem inOrder_step {a : SyncAction V D} (h : w.InOrder) (hok : a.orderly w = true)
    (hstep : step c config w a = some w') : w'.InOrder := by
  cases a with
  | ingest m =>
    cases hstep
    exact inOrder_ingest h (List.all_eq_true.1 hok)
  | flush m =>
    simp only [step] at hstep
    split at hstep
    · next hi =>
      cases hstep
      exact h.flush (List.isEmpty_iff.1 hi)
    · cases hstep
  | offer =>
    simp only [step] at hstep
    split at hstep
    · cases hstep
    cases hstep
    exact h.offer
  | answer m =>
    simp only [step] at hstep
    split at hstep
    · cases hstep
      refine h.answer c fun _ _ hp hl => ?_
      simpa [orderly, hp, hl] using hok
    · cases hstep
  | pause | resume =>
    cases hstep
    exact { h with }
  | wake nowUs =>
    cases hstep
    exact h.edits (c := c) edits_wakeRetryEvents rfl
  | prune m =>
    cases hstep
    exact h.edits (c := c) edits_pruneCommitted rfl
  | restart nowUs budget =>
    rw [step, Option.some.injEq] at hstep
    subst hstep
    have hr : Edits c (fun _ => False) True True w.store _ :=
      ReservationHistory.edits_reopened w.store nowUs budget trivial
    exact .idle (h.sound.edits hr fun _ => False.elim) rfl

variable {as : List (SyncAction V D)}

/-- A worker that is paused and will drop the parts it has. -/
structure Dropping (w : CriticalWorker V D) (as : List (SyncAction V D)) : Prop where
  sound : w.store.Sound
  paused : w.cloudPaused = true
  unoffered : w.offered = false
  dropped : dropped as = true

theorem Dropping.step {a : SyncAction V D} (h : Dropping w (a :: as)) (hok : a.orderly w = true)
    (hstep : SyncAction.step c config w a = some w') : w'.InOrder ∨ Dropping w' as := by
  by_cases hi : w.pending = []
  · exact .inl (inOrder_step (.idle h.sound hi) hok hstep)
  obtain ⟨hs, hp, ho, hd⟩ := h
  have hkeep : ∀ w' : CriticalWorker V D, Calms c w.store w'.store → w'.cloudPaused = true →
      w'.offered = false → SyncAction.dropped as = true → Dropping w' as := fun w' he =>
    .mk (hs.edits he fun _ => False.elim)
  cases a with
  | ingest m events limit =>
    cases hstep
    have hed : Edits c (Fresh w.store events) True False w.store
      (ingested c w.store m events limit) := edits_ingested
    refine .inr ⟨hs.edits hed fun e he hc n hn => ?_, hp, ho, hd⟩
    exact (arrives_critical (List.all_eq_true.1 hok e he.1.1) hc he.2 hn).1
  | flush => simp [SyncAction.step, hi] at hstep
  | offer =>
    simp only [SyncAction.step, CriticalWorker.offer, hp] at hstep
    split_ifs at hstep
    cases hstep
    exact .inl (.idle hs rfl)
  | answer => simp [SyncAction.step, ho] at hstep
  | pause =>
    cases hstep
    exact .inr (hkeep _ (.refl _) rfl ho hd)
  | resume => cases hd
  | wake =>
    cases hstep
    exact .inr (hkeep _ edits_wakeRetryEvents hp ho hd)
  | prune =>
    cases hstep
    exact .inr (hkeep _ edits_pruneCommitted hp ho hd)
  | restart nowUs budget =>
    rw [SyncAction.step, Option.some.injEq] at hstep
    subst hstep
    have hr : Edits c (fun _ => False) True True w.store _ :=
      ReservationHistory.edits_reopened w.store nowUs budget trivial
    exact .inl (.idle (hs.edits hr fun _ => False.elim) rfl)

omit [DecidableEq V] [DecidableEq D] in
theorem criticalEvents_batch {part : List (OutboxEventRecord V D)} {b : LiveSyncBatch V D}
    {sentAtUs : Int} (hc : ∀ r ∈ part, r.event.priority = .critical)
    (hb : CriticalWorker.batch sentAtUs part = some b) :
    b.criticalEvents = part.map fun r => { r.event with
      latency := { r.event.latency with
        persistenceRequestSentAtUs := some (Int64.ofInt sentAtUs) } } := by
  obtain ⟨first, -, rfl⟩ := map_eq_some_iff.1 hb
  refine filter_eq_self.2 fun e he => ?_
  obtain ⟨r, hr, rfl⟩ := List.mem_map.1 he
  simp [hc r hr]

theorem orderly_step {a : SyncAction V D} (h : w.InOrder ∨ Dropping w (a :: as))
    (hok : a.orderly w = true ∨ ∃ m reply, a = answer m reply ∧
      (w.answer m reply).cloudPaused = true ∧ dropped as = true)
    (hstep : step c config w a = some w') : w'.InOrder ∨ Dropping w' as := by
  obtain hok | ⟨m, reply, rfl, hpaused, hdropped⟩ := hok
  · exact h.elim (fun h => .inl (inOrder_step h hok hstep)) fun h => h.step hok hstep
  rw [step] at hstep
  split_ifs at hstep with hoffered
  cases hstep
  obtain h | h := h
  · cases hp : w.pending with
    | nil => exact .inl (h.answer c fun _ _ hp' => by rw [hp] at hp'; cases hp')
    | cons part rest =>
      obtain ⟨hed, hun⟩ := CriticalWorker.edits_answer c m reply hp
      exact .inr ⟨h.sound.edits hed fun _ => False.elim, hpaused, hun, hdropped⟩
  · rw [h.unoffered] at hoffered
    cases hoffered

theorem inOrder_of_runs (h : runs (step c config) {} as = some w)
    (hok : ∀ bs a cs t, as = bs ++ a :: cs → runs (step c config) {} bs = some t →
      a.orderly t = true ∨ (∃ m reply, a = answer m reply ∧
        (t.answer m reply).cloudPaused = true ∧ dropped cs = true) ∧ w.cloudPaused = false) :
    w.InOrder := by
  have hstart : ({} : CriticalWorker V D).InOrder := .idle .empty rfl
  by_cases hon : w.cloudPaused = false
  · have hw : w.InOrder ∨ Dropping w [] :=
      runs_invariant_before (P := fun w as => w.InOrder ∨ Dropping w as)
        (fun _ _ _ _ hw ha (hstep : step c config _ _ = _) => orderly_step hw ha hstep)
        (.inl hstart) (fun bs a cs t has ht => (hok bs a cs t has ht).imp_right And.left) h
    exact hw.resolve_right fun hd => Bool.false_ne_true (hon.symm.trans hd.paused)
  · -- then every answer was orderly
    refine runs_invariant_of (P := CriticalWorker.InOrder)
      (fun _ _ _ hw ha (hstep : step c config _ _ = _) => inOrder_step hw ha hstep) hstart
      (fun bs a cs t has ht => (hok bs a cs t has ht).resolve_right fun ho => hon ho.2) h

/-- In orderly runs an event goes to the sink only when the pending events of
its scope with smaller sequences go before it in the same batch. -/
theorem critical_sent_in_order (h : runs (step c config) {} as = some w)
    (hok : ∀ bs a cs t, as = bs ++ a :: cs → runs (step c config) {} bs = some t →
      a.orderly t = true ∨ ∃ m reply, a = answer m reply ∧
        (t.answer m reply).cloudPaused = true ∧ dropped cs = true ∧ w.cloudPaused = false)
    {part : List (OutboxEventRecord V D)}
    {rest : List (List (OutboxEventRecord V D))} (hpart : w.pending = part :: rest)
    {sentAtUs : Int} {b : LiveSyncBatch V D} (hb : CriticalWorker.batch sentAtUs part = some b) :
    ∀ front e back, b.criticalEvents = front ++ e :: back →
      ∀ id row m n, w.store.events.lookup id = some row → row.state = .pending →
        row.payload.event.priority = .critical → row.payload.event.scope = e.scope →
        row.payload.event.criticalSequence = some m → e.criticalSequence = some n → m < n →
        id ∈ front.map (·.eventId) := by
  have hw : w.InOrder := by
    refine inOrder_of_runs h fun bs a cs t has ht => (hok bs a cs t has ht).imp_right ?_
    rintro ⟨m, reply, ha, hpaused, hdropped, hon⟩
    exact ⟨⟨m, reply, ha, hpaused, hdropped⟩, hon⟩
  have hqu : w.queue = part.map (·.event) ++ rest.flatten.map (·.event) := by
    rw [CriticalWorker.queue, hpart, flatten_cons, map_append]
  have hcr : ∀ r ∈ part, r.event.priority = .critical := fun r hr => by
    refine hw.critical r.event ?_
    rw [hqu]
    exact mem_append_left _ (List.mem_map.2 ⟨r, hr, rfl⟩)
  have hah : Ahead w.store.Waits (·.eventId) b.criticalEvents := by
    rw [criticalEvents_batch hcr hb]
    have hall := hw.ahead
    rw [hqu] at hall
    have hre := Ahead.map_iff.1 hall.front_of_append
    exact Ahead.map_iff.2 (hre.mono fun _ _ _ hwa => hwa)
  intro front e back hsp id row m n hrow hpending hpr hsc hm hn hlt
  exact hah front e back hsp id ⟨row, hrow, hpending, hpr, hsc, m, n, hm, hn, hlt⟩

def sampleCritical (n : UInt8) : CloudEvent Unit Int :=
  { sampleUnsent n with criticalSequence := some (UInt64.ofNat n.toNat) }

def sampleConfig : SyncAgentConfig := ⟨⟨"runtime", "strategy", "session"⟩, 100, 1000⟩

def sampleDelivery : List (SyncAction Unit Int) :=
  [.ingest (sampleMoment 0)
      [sampleCritical 1, sampleCritical 2, sampleCritical 3, sampleCritical 4] none,
    .flush (sampleMoment 1), .offer,
    .answer (sampleMoment 2) (.invalidBatch "refused"), .offer,
    .answer (sampleMoment 3) (.accepted 2)]

theorem critical_sent_in_order_split :
    ∃ w, runs (step SafetyStores.sampleCodec sampleConfig) {} sampleDelivery = some w ∧
      ∃ part, w.pending = [part] ∧ ∃ b, CriticalWorker.batch 4 part = some b ∧
        ∃ e₁ e₂, b.criticalEvents = [e₁] ++ [e₂] ∧ e₂.criticalSequence = some 4 ∧
          SafetyStores.sampleId 3 ∈ [e₁].map (·.eventId) := by
  have hgu : guarded (step SafetyStores.sampleCodec sampleConfig) (fun w a => a.orderly w) {}
      sampleDelivery = true := by
    decide +kernel
  have hrun : runs (step SafetyStores.sampleCodec sampleConfig) {} sampleDelivery = some _ := rfl
  refine ⟨_, hrun, _, rfl, _, rfl, _, _, rfl, rfl, ?_⟩
  refine critical_sent_in_order hrun (fun _ _ _ _ has hbs => .inl (ok_of_guarded hgu has hbs))
    rfl (show CriticalWorker.batch 4 _ = _ from rfl) _ _ [] rfl (SafetyStores.sampleId 3) _ 3 4 rfl
    ?_ ?_ ?_ ?_ ?_ (by decide)
  all_goals rfl

/-- The first half of a refused batch meets a failure of the network and waits
for its retry; the second half is offered at once. -/
theorem later_half_offered :
    ∃ w, runs (step SafetyStores.sampleCodec sampleConfig) {}
        [.ingest (sampleMoment 0) [sampleCritical 1, sampleCritical 2] none,
          .flush (sampleMoment 1), .offer,
          .answer (sampleMoment 2) (.invalidBatch "refused"), .offer,
          .answer (sampleMoment 3) (.transient "network")] = some w ∧
      w.cloudPaused = false ∧ w.offered = false ∧
      ∃ part, w.pending = [part] ∧
        ∃ row, w.store.events.lookup (SafetyStores.sampleId 1) = some row ∧
          row.state = .pending ∧ row.payload.event.priority = .critical ∧
          row.payload.event.criticalSequence = some 1 ∧ row.nextAttemptAtUs = 1000003 ∧
          part.map (fun r => (r.event.priority, r.event.scope, r.event.criticalSequence)) =
            [(.critical, row.payload.event.scope, some 2)] :=
  ⟨_, rfl, rfl, rfl, _, rfl, _, rfl, rfl, rfl, rfl, rfl, rfl⟩

end SyncAction

end AqEngine.LiveSync
