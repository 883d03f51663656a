import AqEngine.Outbox.CaptureTotal
import AqEngine.Outbox.SafetyHandoff

namespace AqEngine.LiveSync

open Lib Fallible List Option

namespace OutboxStore

variable {V D : Type} {c : EventCodec V D} {s s' : OutboxStore V D}

/-- A refusal leaves everything but the pauses; the total was at most counted
for the first time. -/
structure Refused (s s' : OutboxStore V D) : Prop where
  tables : s' = { s with gaps := s'.gaps, retained := s'.retained }
  retained : s'.retained = s.retained ∨ s.retained = none ∧ s'.retained = some s.inventory

theorem Refused.events (h : Refused s s') : s'.events = s.events := by rw [h.tables]

theorem Refused.deadLetters (h : Refused s s') : s'.deadLetters = s.deadLetters := by
  rw [h.tables]

theorem Refused.pause (h : Refused s s') (gaps : CaptureGaps) :
    Refused s { s' with gaps := gaps } := by
  refine ⟨?_, h.retained⟩
  rw [h.tables]

theorem Refused.noneAdded (h : Refused s s') : NoneAdded s s' := by
  refine ⟨fun id row hrow => .inl ?_, h.deadLetters⟩
  rwa [← h.events]

theorem Refused.same (s : OutboxStore V D) : Refused s s := ⟨rfl, .inl rfl⟩

theorem Refused.schema (s : OutboxStore V D) : Refused s s.ensureCaptureCapacitySchema := by
  unfold ensureCaptureCapacitySchema
  split
  · exact .same s
  · next hn => exact ⟨rfl, .inr ⟨hn, rfl⟩⟩

theorem Refused.schemaIf (s : OutboxStore V D) (p : Prop) [Decidable p] :
    Refused s (if p then s.ensureCaptureCapacitySchema else s) := by
  split
  · exact .schema s
  · exact .same s

theorem Refused.inventory (h : Refused s s') : s'.inventory = s.inventory := by
  rw [inventory_eq, inventory_eq, h.events, h.deadLetters]

theorem Refused.exact (h : Refused s s') (hs : s.Exact) : s'.Exact := by
  intro total ht
  rw [h.inventory]
  obtain hsa | ⟨-, hc⟩ := h.retained
  · exact hs total (hsa ▸ ht)
  · rw [hc] at ht
    cases ht
    rfl

variable {α : Type} {m : Moment} {events : List (CloudEvent V D)} {cap : Option Nat} {R : Prop}

/-- A capped admission ends below its limit, unless it brings no bytes in. -/
def Within (limit : Nat) (s s' : OutboxStore V D) : Prop :=
  s'.inventory ≤ limit ∨ NoneAdded s s' ∧ s'.inventory ≤ s.inventory

/-- What an operation under an optional limit leaves: the tables after a
refusal, and otherwise what is within the limit. -/
structure Bounded (c : EventCodec V D) (m : Moment) (cap : Option Nat) (R : Prop)
    (s : OutboxStore V D) (r : OutboxStore V D × Except OutboxStoreError α) : Prop where
  exact : R → s.Exact → r.1.Exact
  refused : ∀ error, r.2 = .error error → Refused s r.1
  below : ∀ a limit, r.2 = .ok a → cap = some limit → Moment.Steady c m → s.Exact →
    Within limit s r.1

theorem Refused.bounded (h : Refused s s') (answer : Except OutboxStoreError α) :
    Bounded c m cap R s (s', answer) :=
  ⟨fun _ => h.exact, fun _ _ => h, fun _ _ _ _ _ _ => .inr ⟨h.noneAdded, h.inventory.le⟩⟩

theorem Refused.concluded {pauses : CaptureCapacity → Bool}
    {result : Except OutboxStoreError (OutboxStore V D × α)} (h : Refused s s')
    (hre : ∀ t a, result = .ok (t, a) → s'.Exact → t.Exact ∧
      ∀ limit, cap = some limit → Moment.Steady c m → Within limit s' t) :
    Bounded c m cap R s (s'.conclude c m events pauses result) := by
  have hr : ∀ error, (s'.conclude c m events pauses result).2 = .error error →
      Refused s (s'.conclude c m events pauses result).1 := by
    intro error he
    obtain ⟨gaps, heq⟩ := conclude_eq_error he
    rw [heq]
    exact h.pause gaps
  refine ⟨fun _ hs => ?_, hr, fun a limit hok hc hm hs => ?_⟩
  · cases ha : (s'.conclude c m events pauses result).2 with
    | error error => exact (hr error ha).exact hs
    | ok a => exact (hre _ a (conclude_eq_ok ha) (h.exact hs)).1
  · refine ((hre _ a (conclude_eq_ok hok) (h.exact hs)).2 limit hc hm).imp_right ?_
    rintro ⟨hn, hi⟩
    exact ⟨h.noneAdded.trans hn, hi.trans h.inventory.le⟩

theorem Bounded.of_edits {A : CloudEvent V D → Prop}
    {r : OutboxStore V D × Except OutboxStoreError α} (he : R → Edits c A False True s r.1)
    (hr : ∀ error, r.2 = .error error → Refused s r.1) : Bounded c m none R s r :=
  ⟨fun hR => (he hR).exact, hr, fun _ _ _ hc => by cases hc⟩

theorem Bounded.discard {r : OutboxStore V D × Except OutboxStoreError α}
    (h : Bounded c m cap R s r) : Bounded c m cap R s (r.map id fun r => r.map fun _ => ()) := by
  obtain ⟨s', answer⟩ := r
  cases answer with
  | error error => exact ⟨h.exact, fun _ _ => h.refused error rfl, fun _ _ hok => by cases hok⟩
  | ok a => exact ⟨h.exact, fun _ he => (by cases he), fun _ limit _ => h.below a limit rfl⟩

theorem effectiveLimit_some (s : OutboxStore V D) (limit : Nat) :
    ∃ applied, s.effectiveLimit (some limit) = some applied ∧ applied ≤ limit := by
  unfold effectiveLimit
  split
  · exact ⟨_, rfl, min_le_left _ _⟩
  · exact ⟨limit, rfl, le_rfl⟩

theorem deleteEvents_within (ids : List Uuid) (s : OutboxStore V D) :
    NoneAdded s (ids.foldl deleteEvent s) ∧ (ids.foldl deleteEvent s).inventory ≤ s.inventory := by
  induction ids generalizing s with
  | nil => exact ⟨.refl s, le_rfl⟩
  | cons id ids ih =>
    obtain ⟨hn, hi⟩ := ih (s.deleteEvent id)
    have hd : NoneAdded s (s.deleteEvent id) ∧ (s.deleteEvent id).inventory ≤ s.inventory := by
      cases hrow : s.events.lookup id with
      | none =>
        rw [deleteEvent, hrow]
        exact ⟨.refl s, le_rfl⟩
      | some row =>
        refine ⟨?_, by rw [inventory_deleteEvent hrow]; omega⟩
        rw [deleteEvent, hrow]
        refine ⟨fun j other hj => .inl ?_, rfl⟩
        rw [← hj]
        exact (AList.lookup_erase_ne (by rintro rfl; simp at hj)).symm
    exact ⟨hd.1.trans hn, hi.trans hd.2⟩

theorem lookup_deleteEvents {ids : List Uuid} {id : Uuid} (h : id ∉ ids) :
    (ids.foldl deleteEvent s).events.lookup id = s.events.lookup id := by
  induction ids generalizing s with
  | nil => rfl
  | cons j ids ih =>
    rw [foldl_cons, ih fun hid => h (mem_cons_of_mem _ hid), deleteEvent]
    split
    · rfl
    · exact AList.lookup_erase_ne (ne_of_mem_of_not_mem mem_cons_self h).symm

theorem isSome_retained_deleteEvents {ids : List Uuid} (h : s.retained.isSome) :
    (ids.foldl deleteEvent s).retained.isSome := by
  induction ids generalizing s with
  | nil => exact h
  | cons id ids ih =>
    refine ih ?_
    unfold deleteEvent
    split
    · exact h
    · simpa using h

variable {limit : Nat} {initial : UInt64} {fault : Option String} {seen ids : List Uuid}
  {e : CloudEvent V D}

theorem requestedBytes_of_fittingPrefix {retained requested accepted total : Nat}
    {deferred : Option CaptureCapacity} (hl : ∀ e ∈ events, e.kind ≠ .log)
    (h : s.fittingPrefix c m retained limit requested seen events =
      .ok (accepted, total, deferred)) :
    ∃ n, total = requested + n ∧ s.requestedBytes c m seen (events.take accepted) = .ok n := by
  induction events generalizing requested seen accepted with
  | nil =>
    cases h
    exact ⟨0, rfl, rfl⟩
  | cons e rest ih =>
    have hlo : e.kind ≠ .log := hl e mem_cons_self
    have hl' : ∀ e ∈ rest, e.kind ≠ .log := fun e he => hl e (mem_cons_of_mem _ he)
    unfold fittingPrefix at h
    simp only at h
    split at h
    · next hs =>
      obtain ⟨⟨count, total', deferred'⟩, hrest, heq⟩ := map_eq_ok h
      cases heq
      obtain ⟨n, hn, hr⟩ := ih hl' hrest
      refine ⟨n, hn, ?_⟩
      rw [take_succ_cons, requestedBytes, if_pos (.inr hs)]
      exact hr
    next hs =>
    have hne : ¬(e.kind = .log ∨ e.eventId ∈ seen) := not_or.2 ⟨hlo, hs⟩
    split at h
    · next hsa =>
      obtain ⟨⟨count, total', deferred'⟩, hrest, heq⟩ := map_eq_ok h
      cases heq
      obtain ⟨n, hn, hr⟩ := ih hl' hrest
      refine ⟨n, hn, ?_⟩
      rw [take_succ_cons, requestedBytes, if_neg hne, if_pos hsa]
      exact hr
    next hsa =>
    obtain ⟨payload, hp, h⟩ := bind_eq_ok.1 h
    obtain ⟨hb, h⟩ := refuseIf_bind_eq_ok.1 h
    split at h
    · cases h
      exact ⟨0, rfl, rfl⟩
    obtain ⟨⟨count, total', deferred'⟩, hrest, heq⟩ := map_eq_ok h
    cases heq
    obtain ⟨n, hn, hr⟩ := ih hl' hrest
    refine ⟨payload.length + n, by omega, ?_⟩
    rw [take_succ_cons, requestedBytes, if_neg hne, if_neg hsa, hp]
    change (refuseIf _ _ >>= fun _ => _) = _
    rw [refuseIf_bind_of_not hb, hr]
    rfl

theorem exact_reserveEach {fresh : List (CloudEvent V D)} (hs : s.Exact)
    (h : reserveEach c initial s events = .ok (s', fresh)) :
    s'.Exact ∧ s'.inventory = s.inventory := by
  obtain ⟨he, hl, hr, -⟩ := reserveEach_tables h
  have hi : s'.inventory = s.inventory := by
    rw [inventory_eq, inventory_eq, he, hl]
  refine ⟨fun total ht => ?_, hi⟩
  rw [hi]
  exact hs total (hr ▸ ht)

theorem refused_commitBoundedMetadata {changed : OutboxStore V D} (error : OutboxStoreError) :
    (s.commitBoundedMetadata m changed).2 = .error error →
      Refused s (s.commitBoundedMetadata m changed).1 := by
  unfold commitBoundedMetadata
  split
  · exact fun _ => .same s
  · exact fun h => by cases h

theorem bounded_markRemoteCommitted {through : Option UInt64} :
    Bounded c m none R s (s.markRemoteCommitted m ids through) := by
  refine .of_edits (A := fun _ => False) (fun _ => edits_markRemoteCommitted) ?_
  unfold markRemoteCommitted
  split
  · exact fun _ _ => .same s
  split
  · exact fun _ _ => .same s
  · exact refused_commitBoundedMetadata

theorem bounded_scheduleRetry {delay : Nat} {message : String} :
    Bounded c m none R s (s.scheduleRetry m ids delay message) := by
  refine .of_edits (A := fun _ => False) (fun _ => edits_scheduleRetry) ?_
  unfold scheduleRetry
  split
  · exact fun _ _ => .same s
  · exact refused_commitBoundedMetadata

theorem bounded_rejectPublisherEvent {reason : String} {id : Uuid} :
    Bounded c m none R s (s.rejectPublisherEvent c m e reason id) := by
  have he : ∀ A : CloudEvent V D → Prop, Edits c A False True s
    (s.rejectPublisherEvent c m e reason id).1 := fun _ =>
      ReservationHistory.edits_rejectPublisherEvent
  refine .of_edits (fun _ => he fun _ => False) ?_
  unfold rejectPublisherEvent
  split
  · exact fun _ _ => .same s
  · intro error her
    obtain ⟨gaps, heq⟩ := conclude_eq_error her
    rw [heq]
    exact (Refused.same s).pause gaps

theorem event_of_encoded {atUs : Int} {payload : WirePayload V D}
    (h : c.encodeWithLocalCommit e atUs = .ok payload) :
    payload.event = c.restored (EventCodec.withLocalCommit e atUs) := by
  unfold EventCodec.encodeWithLocalCommit EventCodec.encode at h
  split at h
  · cases h
  cases h
  rfl

theorem requestedBytes_of_stored (h : ∀ e ∈ events, (s.events.lookup e.eventId).isSome) :
    s.requestedBytes c m seen events = .ok 0 := by
  induction events generalizing seen with
  | nil => rfl
  | cons e _ ih =>
    have hrest := fun e he => h e (mem_cons_of_mem _ he)
    unfold requestedBytes
    split
    · exact ih hrest
    rw [if_pos (h e mem_cons_self)]
    exact ih hrest

theorem captureRetainedBytes_of_exact (hs : s.Exact) (hi : s.retained.isSome) :
    ∃ retained, s.captureRetainedBytes = .ok retained := by
  obtain ⟨total, ht⟩ := isSome_iff_exists.1 hi
  have hn : ¬total < 0 := by
    rw [hs total ht]
    exact not_lt.2 (inventory_nonneg _)
  unfold captureRetainedBytes
  rw [ht]
  exact ⟨total.toNat, if_neg hn⟩

theorem isSome_retained_schema (s : OutboxStore V D) :
    s.ensureCaptureCapacitySchema.retained.isSome := by
  unfold ensureCaptureCapacitySchema
  split
  · next ht => rw [ht]; rfl
  · rfl

variable [DecidableEq V] [DecidableEq D] {exact newCapture : Bool} {e : CloudEvent V D}

theorem admitWithin {t : OutboxStore V D} {inserted : Nat} (hs : s.Exact)
    (hm : Moment.Steady c m) (hl : ∀ e ∈ events, e.kind ≠ .log) (hc : cap = some limit)
    (h : s.admitEvents c m events (t.effectiveLimit cap) exact = .ok (s', inserted)) :
    Within limit s s' := by
  subst hc
  obtain ⟨applied, ha, hle⟩ := t.effectiveLimit_some limit
  rw [ha] at h
  exact (admitEvents_adds hs hm hl h).imp (fun hb => hb.trans (Int.ofNat_le.2 hle))
    fun ⟨hn, hi⟩ => ⟨hn, hi.le⟩

theorem bounded_insertEvents : Bounded c m none R s (s.insertEvents c m events) := by
  unfold insertEvents
  simp only
  split
  · exact (Refused.same s).bounded _
  split
  · exact (Refused.same s).bounded _
  refine (Refused.same s).concluded fun t _ hr hs => ?_
  exact ⟨(edits_admitEvents hr).exact hs, fun _ hc => by cases hc⟩

theorem bounded_insertBoundedEvents :
    Bounded c m cap R s (s.insertBoundedEvents c m events cap newCapture) := by
  unfold insertBoundedEvents
  simp only
  split
  · exact (Refused.same s).bounded _
  split
  · exact (Refused.same s).bounded _
  refine (Refused.schemaIf s _).concluded fun t _ hr hs => ?_
  refine ⟨(edits_admitEvents hr).exact hs, fun _ hc hm => ?_⟩
  exact admitWithin hs hm (fun e he => (mem_withoutLogs he).2) hc hr

theorem bounded_insertTelemetryLatest :
    Bounded c m cap R s (s.insertTelemetryLatest c m e cap) := by
  have hs := Refused.schemaIf s (cap.isSome = true)
  unfold insertTelemetryLatest
  generalize (if cap.isSome then s.ensureCaptureCapacitySchema else s) = t at hs ⊢
  split
  · exact hs.bounded _
  next hl =>
  refine hs.concluded fun _ _ hr ht => ?_
  split at hr
  · cases hr
    exact ⟨ht, fun _ _ _ => .inr ⟨.refl _, le_rfl⟩⟩
  generalize ha : admitEvents c _ m [e] _ false = admitted at hr
  cases admitted with
  | error error => cases hr
  | ok r =>
    cases hr
    have hd : (t.dropOlderTelemetry e).Exact :=
      (edits_dropOlderTelemetry (c := c) (A := fun _ => False) t e).exact ht
    refine ⟨(edits_admitEvents ha).exact hd, fun _ hc hm => ?_⟩
    refine (admitWithin hd hm (fun _ he' => by rw [mem_singleton.1 he']; exact hl) hc
      ha).imp_right fun ⟨hn, hi⟩ => ?_
    obtain ⟨hold, hdrop⟩ := deleteEvents_within _ t
    exact ⟨hold.trans hn, hi.trans hdrop⟩

theorem handoffPrefix_eq_ok {accepted : Nat} {deferred : Option CaptureCapacity}
    (h : s.handoffPrefix c m events limit = .ok (s', accepted, deferred)) :
    ∃ retained requested inserted,
      s.fittingPrefix c m retained limit 0 [] events = .ok (accepted, requested, deferred) ∧
      insertEach c true m.writtenAtUs s (events.take accepted) = .ok (s', inserted) ∧
      ∃ actual, s'.captureRetainedBytes = .ok actual ∧ (0 < requested → actual ≤ limit) := by
  obtain ⟨retained, -, h⟩ := bind_eq_ok.1 h
  obtain ⟨⟨count, requested, deferred'⟩, hf, h⟩ := bind_eq_ok.1 h
  obtain ⟨⟨s₁, inserted⟩, hi, h⟩ := bind_eq_ok.1 h
  obtain ⟨actual, ha, h⟩ := bind_eq_ok.1 h
  obtain ⟨hb, h⟩ := refuseIf_bind_eq_ok.1 h
  cases h
  refine ⟨retained, requested, inserted, hf, ?_, actual, ha, fun hpos => ?_⟩
  · unfold insertAccepted at hi
    split at hi
    · exact (insertEventsWithPayloadCheck_eq_ok hi).1
    next hz =>
    cases hi
    rw [Nat.eq_zero_of_not_pos hz]
    rfl
  · exact not_lt.1 fun hlt => hb ⟨hpos, hlt⟩

theorem bounded_handoffAcceptedPrefixWithCapacity :
    Bounded c m (some limit) R s (s.handoffAcceptedPrefixWithCapacity c m events limit) := by
  have hle : (s.physicalBudget.map fun budget => min limit budget.payloadLimitBytes).getD limit ≤
      limit := by
    cases s.physicalBudget with
    | none => exact le_rfl
    | some budget => exact min_le_left _ _
  have hsc := Refused.schema s
  unfold handoffAcceptedPrefixWithCapacity
  simp only
  generalize (s.physicalBudget.map fun budget => min limit budget.payloadLimitBytes).getD limit =
    applied at hle ⊢
  generalize s.ensureCaptureCapacitySchema = t at hsc ⊢
  split
  · exact (Refused.same s).bounded _
  split
  · exact (Refused.same s).bounded _
  next hb =>
  split
  · next t' answer hre =>
    obtain ⟨retained, requested, inserted, hf, hi, actual, hac, hli⟩ := handoffPrefix_eq_ok hre
    have hex : s.Exact → t'.Exact := fun hs => (edits_insertEach hi).exact (hsc.exact hs)
    refine ⟨fun _ => hex, fun _ her => (by cases her), fun _ _ _ hby hm hs => ?_⟩
    cases hby
    have hl : ∀ e ∈ events, e.kind ≠ .log := by
      have ha := fun ha => hb (.inr (.inl ha))
      rw [List.any_eq_true] at ha
      exact fun e he hlo => ha ⟨e, he, beq_iff_eq.2 hlo⟩
    obtain ⟨n, hn, hr⟩ := requestedBytes_of_fittingPrefix hl hf
    obtain ⟨hin, hadd⟩ := insertEach_adds hm (fun e he => hl e (mem_of_mem_take he)) (by simp) hr hi
    have ht := hex hs _ (captureRetainedBytes_eq_ok hac)
    have hold := hsc.inventory
    by_cases hz : requested = 0
    · refine .inr ⟨hsc.noneAdded.trans (hadd (by omega)), ?_⟩
      change t'.inventory ≤ _
      omega
    left
    change t'.inventory ≤ _
    omega
  · exact hsc.bounded _
  · exact hsc.bounded _

theorem bounded_reserve :
    Bounded c m cap R s (ReservationHistory.reserve c s m events initial cap fault) := by
  have ho : ∀ t, Refused s t → Bounded c m cap R s
      (t.reservePublisherEventsWithOptionalCapacity c m events initial cap fault) := by
    intro t ht
    unfold reservePublisherEventsWithOptionalCapacity
    simp only
    split
    · exact ht.bounded _
    split
    · exact ht.bounded _
    refine ht.concluded fun _ _ hr he => ?_
    cases fault with
    | some => cases hr
    | none =>
      obtain ⟨⟨s₁, new⟩, hre, hr⟩ := bind_eq_ok.1 hr
      obtain ⟨⟨s₂, inserted⟩, ha, hr⟩ := bind_eq_ok.1 hr
      cases hr
      obtain ⟨he', hi⟩ := exact_reserveEach he hre
      refine ⟨(edits_admitEvents ha).exact he', fun _ hc hm => ?_⟩
      obtain ⟨hev, hdl, -, hlog⟩ := reserveEach_tables hre
      refine (admitWithin he' hm hlog hc ha).imp_right fun ⟨hn, hle⟩ => ?_
      exact ⟨.trans ⟨fun _ _ h => .inl (hev ▸ h), hdl⟩ hn, hle.trans hi.le⟩
  cases cap with
  | none => exact ho s (.same s)
  | some => exact ho _ (.schema s)

structure Duplicate (c : EventCodec V D) (s : OutboxStore V D) (clock : Uuid → Int)
    (e : CloudEvent V D) : Prop where
  kind : e.kind ≠ .log
  version : ¬(e.protocolVersion = 0 ∨ EventCodec.liveSyncProtocolVersion < e.protocolVersion)
  encodes : ∃ payload, c.encodeWithLocalCommit e (clock e.eventId) = .ok payload
  stored : ∃ row e₀ atUs, s.events.lookup e.eventId = some row ∧
    c.encodeWithLocalCommit e₀ atUs = .ok row.payload ∧
    { e₀ with latency := {} } = { e with latency := {} }

theorem checkDuplicate_of_stored {row : OutboxRow V D} {e₀ : CloudEvent V D}
    {atUs : Int} (hm : ∀ d, c.timestampMicros (c.ofMicros (c.timestampMicros d)) =
      c.timestampMicros d)
    (hv : ¬(e.protocolVersion = 0 ∨ EventCodec.liveSyncProtocolVersion < e.protocolVersion))
    (hp : c.encodeWithLocalCommit e₀ atUs = .ok row.payload)
    (hs : { e₀ with latency := {} } = { e with latency := {} }) :
    checkDuplicate c exact row e = .ok () := by
  have hevent := event_of_encoded hp
  obtain ⟨latency, rfl⟩ : ∃ latency, e = { e₀ with latency := latency } := by
    refine ⟨e.latency, ?_⟩
    simp only [CloudEvent.mk.injEq] at hs ⊢
    simp [hs]
  have hc : sameColumns row.payload.event { e₀ with latency := latency } = true := by
    rw [hevent]
    simp [sameColumns, EventCodec.restored, EventCodec.withLocalCommit]
  have ha : c.sameAcceptedPayload row.payload.event { e₀ with latency := latency } =
      true := by
    rw [hevent]
    simp [EventCodec.sameAcceptedPayload, EventCodec.restored, EventCodec.withLocalCommit, hm]
  have hd : EventCodec.decode row.payload = .ok row.payload.event := by
    unfold EventCodec.decode
    rw [hevent]
    exact if_neg hv
  unfold checkDuplicate
  rw [refuseIf_bind_of_not (by simp [hc])]
  split
  · rw [hd]
    change refuseIf _ _ = _
    rw [ha]
    rfl
  · rfl

section

variable {clock : Uuid → Int}
  (hm : ∀ d, c.timestampMicros (c.ofMicros (c.timestampMicros d)) = c.timestampMicros d)
include hm

theorem insertEach_of_duplicates (h : ∀ e ∈ events, Duplicate c s clock e) :
    insertEach c exact clock s events = .ok (s, 0) := by
  induction events with
  | nil => rfl
  | cons e rest ih =>
    have hf : insertEvent c exact (clock e.eventId) s e = .ok (s, false) := by
      have he := h e mem_cons_self
      obtain ⟨payload, hp⟩ := he.encodes
      obtain ⟨row, e₀, atUs, hrow, hen, hs⟩ := he.stored
      unfold insertEvent
      rw [hp, hrow]
      change (checkDuplicate c exact row e >>= fun _ => _) = _
      rw [checkDuplicate_of_stored hm he.version hen hs]
      rfl
    unfold insertEach
    rw [hf]
    change (insertEach c exact clock s rest >>= fun _ => _) = _
    rw [ih fun e he => h e (mem_cons_of_mem _ he)]
    rfl

variable (hs : s.Exact) (hi : s.retained.isSome) (hvalid : ¬(limit = 0 ∨ i64MaxNat < limit))
include hs hi hvalid

theorem admitEvents_of_duplicates (hc : events.length ≤ 256)
    (h : ∀ e ∈ events, Duplicate c s m.writtenAtUs e) :
    s.admitEvents c m events (some limit) exact = .ok (s, 0) := by
  obtain ⟨retained, hre⟩ := captureRetainedBytes_of_exact hs hi
  have hr : s.requestedBytes c m [] events = .ok 0 := by
    refine requestedBytes_of_stored fun e he => ?_
    obtain ⟨row, -, -, hrow, -⟩ := (h e he).stored
    exact isSome_of_eq_some hrow
  have hch : s.checkCaptureCapacity c m events limit = .ok ⟨retained, 0, limit, none⟩ := by
    unfold checkCaptureCapacity
    rw [refuseIf_bind_of_not hvalid, refuseIf_bind_of_not (not_lt.2 hc), hr]
    rw [hre]
    rfl
  change (checkCaptureCapacity c s m events limit >>= fun _ => _) = _
  rw [hch]
  change (insertEach c exact m.writtenAtUs s events >>= fun _ => _) = _
  rw [insertEach_of_duplicates hm h]
  rfl

omit hvalid in
theorem handoffPrefix_of_duplicates (h : ∀ e ∈ events, Duplicate c s m.writtenAtUs e) :
    s.handoffPrefix c m events limit = .ok (s, events.length, none) := by
  obtain ⟨retained, hre⟩ := captureRetainedBytes_of_exact hs hi
  have hf : ∀ (l : List (CloudEvent V D)) seen, l ⊆ events →
      s.fittingPrefix c m retained limit 0 seen l = .ok (l.length, 0, none) := by
    intro l
    induction l with
    | nil => exact fun _ _ => rfl
    | cons e l ih =>
      intro seen hl
      obtain ⟨row, -, -, hrow, -⟩ := (h e (hl mem_cons_self)).stored
      have hrest := fun seen => ih seen fun e he => hl (mem_cons_of_mem _ he)
      unfold fittingPrefix
      simp only [hrow, isSome_some, if_true, hrest]
      split <;> rfl
  have hin : s.insertAccepted c m events events.length = .ok (s, 0) := by
    unfold insertAccepted
    split
    · rw [take_length]
      change (insertEach c true m.writtenAtUs s events >>= fun _ => _) = _
      rw [insertEach_of_duplicates hm h]
      rfl
    · rfl
  unfold handoffPrefix
  rw [hre]
  change (s.fittingPrefix c m retained limit 0 [] events >>= fun _ => _) = _
  rw [hf events [] (List.Subset.refl _)]
  change (s.insertAccepted c m events events.length >>= fun _ => _) = _
  rw [hin]
  change (s.captureRetainedBytes >>= fun _ => _) = _
  rw [hre]
  rfl

end

omit [DecidableEq V] [DecidableEq D] in
theorem Duplicate.schema {clock : Uuid → Int} (h : Duplicate c s clock e) :
    Duplicate c s.ensureCaptureCapacitySchema clock e := by
  obtain ⟨hkind, hv, hen, row, e₀, atUs, hrow, hst⟩ := h
  refine ⟨hkind, hv, hen, row, e₀, atUs, ?_, hst⟩
  rwa [(Refused.schema s).events]

/-- A publisher event that has its sequence already. -/
structure Granted (c : EventCodec V D) (s : OutboxStore V D) (e : CloudEvent V D) : Prop where
  critical : ¬(e.priority ≠ .critical ∨ e.kind = .log)
  saved : ∃ saved, s.reservations.lookup e.eventId = some saved ∧
    ¬(saved.fingerprint ≠ c.fingerprint e ∨
      e.criticalSequence.any (fun n => n != UInt64.ofNat saved.sequence) = true)

omit [DecidableEq V] [DecidableEq D] in
theorem reserveEach_of_granted (h : ∀ e ∈ events, Granted c s e) :
    reserveEach c initial s events = .ok (s, []) := by
  induction events with
  | nil => rfl
  | cons e rest ih =>
    have hf : reserveEvent c initial s e = .ok (s, none) := by
      obtain ⟨hc, saved, hsaved, hno⟩ := h e mem_cons_self
      unfold reserveEvent
      rw [refuseIf_bind_of_not hc, hsaved]
      dsimp only
      rw [refuseIf_bind_of_not hno]
    unfold reserveEach
    rw [hf]
    change (reserveEach c initial s rest >>= fun _ => _) = _
    rw [ih fun e he => h e (mem_cons_of_mem _ he)]
    rfl

omit [DecidableEq V] [DecidableEq D] in
/-- A telemetry event does not take its own place. -/
theorem Duplicate.dropOlderTelemetry {clock : Uuid → Int} (h : Duplicate c s clock e) :
    Duplicate c (s.dropOlderTelemetry e) clock e := by
  obtain ⟨hk, hv, hen, row, e₀, atUs, hrow, hp, hsame⟩ := h
  refine ⟨hk, hv, hen, row, e₀, atUs, ?_, hp, hsame⟩
  rw [← hrow]
  refine lookup_deleteEvents fun hid => ?_
  obtain ⟨⟨id, other⟩, hm, heq⟩ := mem_map.1 hid
  obtain ⟨hm, hlt⟩ := mem_filter.1 hm
  cases heq
  cases hrow.symm.trans (AList.mem_lookup_iff.2 hm)
  have hrev : revisionColumn row.payload.event = revisionColumn e := by
    have he : e₀.entityRevision = e.entityRevision := (congrArg CloudEvent.entityRevision hsame :)
    rw [event_of_encoded hp, revisionColumn, revisionColumn, ← he]
    rfl
  simp [hrev] at hlt

section

variable (hs : s.Exact)
  (hm : ∀ d, c.timestampMicros (c.ofMicros (c.timestampMicros d)) = c.timestampMicros d)
  (hpos : 0 < limit) (hl : limit ≤ i64MaxNat)
  (hb : ∀ budget, s.physicalBudget = some budget → 0 < budget.payloadLimitBytes)
include hpos hl hb

omit [DecidableEq V] [DecidableEq D] in
theorem effectiveLimit_valid : ∃ applied, s.effectiveLimit (some limit) = some applied ∧
    ¬(applied = 0 ∨ i64MaxNat < applied) := by
  unfold effectiveLimit
  split
  · next budget heq =>
    have hp := hb budget heq
    exact ⟨_, rfl, by simp only [getD_some]; omega⟩
  · exact ⟨limit, rfl, by omega⟩

omit [DecidableEq V] [DecidableEq D] hpos hl hb in
theorem effectiveLimit_schema (s : OutboxStore V D) (cap : Option Nat) :
    s.ensureCaptureCapacitySchema.effectiveLimit cap = s.effectiveLimit cap := by
  unfold effectiveLimit
  rw [(Refused.schema s).tables]

include hm hs

theorem reserve_of_granted (hc : events.length ≤ 256) (h : ∀ e ∈ events, Granted c s e) :
    ReservationHistory.reserve c s m events initial (some limit) none =
      (s.ensureCaptureCapacitySchema, .ok []) := by
  obtain ⟨applied, ha, hvalid⟩ := effectiveLimit_valid hpos hl hb
  have hgranted : ∀ e ∈ events, Granted c s.ensureCaptureCapacitySchema e := by
    intro e he
    obtain ⟨hcritical, saved, hsaved⟩ := h e he
    refine ⟨hcritical, saved, ?_⟩
    rwa [(Refused.schema s).tables]
  change reservePublisherEventsWithOptionalCapacity c _ m events initial (some limit) none = _
  unfold reservePublisherEventsWithOptionalCapacity
  simp only [effectiveLimit_schema, ha, isSome_some, true_and]
  split
  · rfl
  rw [if_neg (not_lt.2 hc), reservePublisherEventsInTransaction, reserveEach_of_granted hgranted]
  change conclude c _ m events _ (admitEvents c _ m [] (some applied) false >>= fun _ => _) = _
  rw [admitEvents_of_duplicates hm ((Refused.schema s).exact hs) (isSome_retained_schema s) hvalid
    (Nat.zero_le _) fun _ he => absurd he not_mem_nil]
  rfl

theorem insertBoundedEvents_of_duplicates (newCapture : Bool) (hc : events.length ≤ 256)
    (h : ∀ e ∈ events, Duplicate c s m.writtenAtUs e) :
    ∃ s', (s' = s ∨ s' = s.ensureCaptureCapacitySchema) ∧
      s.insertBoundedEvents c m events (some limit) newCapture = (s', .ok 0) := by
  obtain ⟨applied, ha, hvalid⟩ := effectiveLimit_valid hpos hl hb
  have hk : withoutLogs events = events :=
    filter_eq_self.2 fun e he => bne_iff_ne.2 (h e he).kind
  unfold insertBoundedEvents
  simp only [ha, hk, isSome_some, if_true]
  rw [if_neg (not_lt.2 hc)]
  split
  · exact ⟨s, .inl rfl, rfl⟩
  rw [admitEvents_of_duplicates hm ((Refused.schema s).exact hs) (isSome_retained_schema s)
    hvalid hc
    fun e he => (h e he).schema]
  exact ⟨_, .inr rfl, rfl⟩

theorem handoffAcceptedPrefixWithCapacity_of_duplicates (hc : events.length ≤ 256)
    (h : ∀ e ∈ events, Duplicate c s m.writtenAtUs e) :
    ∃ s', (s' = s ∨ s' = s.ensureCaptureCapacitySchema) ∧
      s.handoffAcceptedPrefixWithCapacity c m events limit = (s', .ok (events.length, none)) := by
  obtain ⟨applied, ha, hvalid⟩ := effectiveLimit_valid hpos hl hb
  have happlied : (s.physicalBudget.map fun budget => min limit budget.payloadLimitBytes).getD
      limit = applied := by
    unfold effectiveLimit at ha
    cases hbudget : s.physicalBudget <;> rw [hbudget] at ha <;> exact some.inj ha
  unfold handoffAcceptedPrefixWithCapacity
  simp only [happlied]
  split
  · next hnil =>
    rw [isEmpty_iff.1 hnil]
    exact ⟨s, .inl rfl, rfl⟩
  rw [if_neg, handoffPrefix_of_duplicates hm ((Refused.schema s).exact hs)
    (isSome_retained_schema s) fun e he => (h e he).schema]
  · exact ⟨_, .inr rfl, rfl⟩
  · rintro (hlong | hlog | hlimit)
    · exact not_lt.2 hc hlong
    · obtain ⟨e, he, hkind⟩ := any_eq_true.1 hlog
      exact (h e he).kind (beq_iff_eq.1 hkind)
    · exact hvalid hlimit

theorem insertTelemetryLatest_of_duplicate (h : Duplicate c s m.writtenAtUs e) :
    ∃ s', NoneAdded s s' ∧ s.insertTelemetryLatest c m e (some limit) = (s', .ok ()) := by
  obtain ⟨applied, ha, hvalid⟩ := effectiveLimit_valid hpos hl hb
  have hex := (Refused.schema s).exact hs
  have hn := (Refused.schema s).noneAdded
  unfold insertTelemetryLatest
  simp only [isSome_some, if_true, effectiveLimit_schema, ha]
  rw [if_neg h.kind]
  split
  · exact ⟨_, hn, rfl⟩
  rw [admitEvents_of_duplicates hm
    ((edits_dropOlderTelemetry (c := c) (A := fun _ => False) _ e).exact hex)
    (isSome_retained_deleteEvents (isSome_retained_schema s)) hvalid (by simp)
    fun e' he' => by rw [mem_singleton.1 he']; exact h.schema.dropOlderTelemetry]
  exact ⟨_, hn.trans (deleteEvents_within _ _).1, rfl⟩

end

end OutboxStore

inductive CaptureAction (V D : Type) where
  | insert (m : Moment) (events : List (CloudEvent V D))
  | capture (m : Moment) (events : List (CloudEvent V D)) (limit : Nat)
  | handoff (m : Moment) (events : List (CloudEvent V D)) (limit : Option Nat)
  | handoffPart (m : Moment) (events : List (CloudEvent V D)) (limit : Nat)
  | telemetry (m : Moment) (e : CloudEvent V D) (limit : Option Nat)
  | reserve (m : Moment) (events : List (CloudEvent V D)) (initial : UInt64)
      (limit : Option Nat) (fault : Option String)
  | reject (m : Moment) (e : CloudEvent V D) (reason : String) (id : Uuid)
  | commit (m : Moment) (ids : List Uuid) (through : Option UInt64)
  | retry (m : Moment) (ids : List Uuid) (delaySeconds : Nat) (error : String)
  | deadLetter (m : Moment) (id : Uuid) (reason : String)
  | prune (m : Moment) (retentionUs : Int) (facts : List SafetyKey) (ids : List Uuid)
  | reopen (nowUs : Int) (budget : Option PhysicalCaptureBudget)

namespace CaptureAction

open OutboxStore

variable {V D : Type} [DecidableEq V] [DecidableEq D] (c : EventCodec V D)

def perform (s : OutboxStore V D) :
    CaptureAction V D → OutboxStore V D × Except OutboxStoreError Unit
  | insert m events => (s.insertEvents c m events).map id fun r => r.map fun _ => ()
  | capture m events limit =>
    (s.captureEventsWithCapacity c m events limit).map id fun r => r.map fun _ => ()
  | handoff m events none => (s.handoffAcceptedEvents c m events).map id fun r => r.map fun _ => ()
  | handoff m events (some limit) =>
    (s.handoffAcceptedEventsWithCapacity c m events limit).map id fun r => r.map fun _ => ()
  | handoffPart m events limit =>
    (s.handoffAcceptedPrefixWithCapacity c m events limit).map id fun r => r.map fun _ => ()
  | telemetry m e limit => s.insertTelemetryLatest c m e limit
  | reserve m events initial limit fault =>
    (ReservationHistory.reserve c s m events initial limit fault).map id fun r => r.map fun _ => ()
  | reject m e reason id => s.rejectPublisherEvent c m e reason id
  | commit m ids through => s.markRemoteCommitted m ids through
  | retry m ids delay error => s.scheduleRetry m ids delay error
  | deadLetter m id reason => s.moveToDeadLetter m id reason
  | prune m retention facts ids => s.pruneCommitted m retention facts ids
  | reopen nowUs budget => (ReservationHistory.reopened s nowUs budget, .ok ())

def step (s : OutboxStore V D) (a : CaptureAction V D) : Option (OutboxStore V D) :=
  some (a.perform c s).1

def capped : CaptureAction V D → Option (Moment × Nat)
  | capture m _ limit => some (m, limit)
  | handoff m _ (some limit) => some (m, limit)
  | handoffPart m _ limit => some (m, limit)
  | telemetry m _ (some limit) => some (m, limit)
  | reserve m _ _ (some limit) _ => some (m, limit)
  | _ => none

/-- No dead letter is replaced by another one of its identity. -/
def fresh (s : OutboxStore V D) : CaptureAction V D → Bool
  | deadLetter _ id _ => (s.events.lookup id).isNone || (s.deadLetters.lookup id).isNone
  | _ => true

/-- The events of an admission are stored already or, for the publisher, have
their sequences. -/
def repeats (s : OutboxStore V D) : CaptureAction V D → Prop
  | capture m events _ | handoff m events _ | handoffPart m events _ =>
    events.length ≤ 256 ∧ ∀ e ∈ events, Duplicate c s m.writtenAtUs e
  | telemetry m e _ => Duplicate c s m.writtenAtUs e
  | reserve _ events _ _ fault =>
    events.length ≤ 256 ∧ fault = none ∧ ∀ e ∈ events, Granted c s e
  | _ => False

variable {c} {s : OutboxStore V D} {a : CaptureAction V D}

theorem perform_repeats {m : Moment} {limit : Nat} (hs : s.Exact)
    (hm : ∀ d, c.timestampMicros (c.ofMicros (c.timestampMicros d)) = c.timestampMicros d)
    (hcap : a.capped = some (m, limit)) (hpos : 0 < limit) (hl : limit ≤ i64MaxNat)
    (hb : ∀ budget, s.physicalBudget = some budget → 0 < budget.payloadLimitBytes)
    (h : a.repeats c s) :
    (a.perform c s).2 = .ok () ∧ NoneAdded s (a.perform c s).1 ∧
      ((∀ m e cap, a ≠ telemetry m e cap) →
        (a.perform c s).1 = { s with retained := (a.perform c s).1.retained }) := by
  have hsame : ∀ s', s' = s ∨ s' = s.ensureCaptureCapacitySchema →
      NoneAdded s s' ∧ s' = { s with retained := s'.retained } := by
    rintro _ (rfl | rfl)
    · exact ⟨.refl _, rfl⟩
    · refine ⟨(Refused.schema s).noneAdded, ?_⟩
      unfold ensureCaptureCapacitySchema
      split <;> rfl
  cases a with
  | capture m events _ =>
    cases hcap
    obtain ⟨s', hs', heq⟩ := insertBoundedEvents_of_duplicates hs hm hpos hl hb true h.1 h.2
    simp only [perform, captureEventsWithCapacity, heq]
    exact ⟨rfl, (hsame s' hs').1, fun _ => (hsame s' hs').2⟩
  | handoff m events cap =>
    cases cap <;> cases hcap
    obtain ⟨s', hs', heq⟩ := insertBoundedEvents_of_duplicates hs hm hpos hl hb false h.1
      h.2
    simp only [perform, handoffAcceptedEventsWithCapacity, heq]
    exact ⟨rfl, (hsame s' hs').1, fun _ => (hsame s' hs').2⟩
  | handoffPart m events _ =>
    cases hcap
    obtain ⟨s', hs', heq⟩ := handoffAcceptedPrefixWithCapacity_of_duplicates hs hm hpos hl hb h.1
      h.2
    simp only [perform, heq]
    exact ⟨rfl, (hsame s' hs').1, fun _ => (hsame s' hs').2⟩
  | telemetry m e cap =>
    cases cap <;> cases hcap
    obtain ⟨s', hs', heq⟩ := insertTelemetryLatest_of_duplicate hs hm hpos hl hb h
    rw [perform, heq]
    exact ⟨rfl, hs', fun hne => absurd rfl (hne m e _)⟩
  | reserve m events initial cap fault =>
    cases cap <;> cases hcap
    obtain ⟨hc, rfl, hg⟩ := h
    simp only [perform, reserve_of_granted hs hm hpos hl hb hc hg]
    obtain ⟨hn, heq⟩ := hsame _ (.inr rfl)
    exact ⟨rfl, hn, fun _ => heq⟩
  | insert | reject | commit | retry | deadLetter | prune | reopen => cases hcap

theorem bounded_perform (a : CaptureAction V D) (s : OutboxStore V D) :
    ∃ m cap, a.capped = cap.map (fun limit => (m, limit)) ∧
      Bounded c m cap (a.fresh s = true) s (a.perform c s) := by
  have hfree : ∀ {m}, Bounded c m none (a.fresh s = true) s (a.perform c s) →
      a.capped = none → ∃ m cap, a.capped = cap.map (fun limit => (m, limit)) ∧
        Bounded c m cap (a.fresh s = true) s (a.perform c s) :=
    fun h hc => ⟨_, none, hc, h⟩
  cases a with
  | insert m => exact hfree (m := m) bounded_insertEvents.discard rfl
  | capture m _ limit => exact ⟨m, some limit, rfl, bounded_insertBoundedEvents.discard⟩
  | handoff m _ limit =>
    exact ⟨m, limit, by cases limit <;> rfl, by
      cases limit <;> exact bounded_insertBoundedEvents.discard⟩
  | handoffPart m _ limit =>
    exact ⟨m, some limit, rfl, bounded_handoffAcceptedPrefixWithCapacity.discard⟩
  | telemetry m e limit => exact ⟨m, limit, by cases limit <;> rfl, bounded_insertTelemetryLatest⟩
  | reserve m _ _ limit => exact ⟨m, limit, by cases limit <;> rfl, bounded_reserve.discard⟩
  | reject m e => exact hfree (m := m) bounded_rejectPublisherEvent rfl
  | commit m => exact hfree (m := m) bounded_markRemoteCommitted rfl
  | retry m => exact hfree (m := m) bounded_scheduleRetry rfl
  | deadLetter m =>
    refine hfree (m := m) (.of_edits (A := fun _ => False) (fun hf => ?_)
      refused_commitBoundedMetadata) rfl
    refine edits_moveToDeadLetter (.inr fun _ hrow => ?_)
    simpa [fresh, hrow] using hf
  | prune m =>
    exact hfree (m := m) (.of_edits (A := fun _ => False)
      (fun _ => edits_pruneCommitted) refused_commitBoundedMetadata) rfl
  | reopen nowUs budget =>
    refine hfree (m := ⟨fun _ => nowUs, fun _ => nowUs, nowUs, nowUs, 0⟩)
      (.of_edits (A := fun _ => False) (fun _ => ?_)
      fun _ h => by cases h) rfl
    exact ReservationHistory.edits_reopened s nowUs budget trivial

variable {as : List (CaptureAction V D)}

/-- While no dead letter is replaced, the maintained total is the number of
stored bytes. An admission under a limit that brings in any bytes ends below
it, a refusal leaves everything but the pauses, and duplicates are accepted. -/
theorem capture_total_exact
    (hfresh : ∀ bs a cs t, as = bs ++ a :: cs → runs (step c) {} bs = some t →
      a.fresh t = true)
    (h : runs (step c) {} as = some s) :
    (∀ total, s.retained = some total → total = s.inventory) ∧
    (∀ (a : CaptureAction V D) m limit, a.capped = some (m, limit) →
      Moment.Steady c m → (a.perform c s).2 = .ok () →
      ∀ total, (a.perform c s).1.retained = some total →
        total ≤ limit ∨ NoneAdded s (a.perform c s).1 ∧ total ≤ s.inventory) ∧
    (∀ (a : CaptureAction V D) error, (a.perform c s).2 = .error error →
      (∃ gaps total, (a.perform c s).1 = { s with gaps := gaps, retained := total }) ∧
      ((a.perform c s).1.retained = s.retained ∨
        s.retained = none ∧ (a.perform c s).1.retained = some s.inventory)) ∧
    ∀ (a : CaptureAction V D) m limit, a.capped = some (m, limit) →
      (∀ d, c.timestampMicros (c.ofMicros (c.timestampMicros d)) = c.timestampMicros d) →
      0 < limit → limit ≤ i64MaxNat →
      (∀ budget, s.physicalBudget = some budget → 0 < budget.payloadLimitBytes) →
      a.repeats c s →
      (a.perform c s).2 = .ok () ∧ NoneAdded s (a.perform c s).1 ∧
        ((∀ m e cap, a ≠ telemetry m e cap) →
          (a.perform c s).1 = { s with retained := (a.perform c s).1.retained }) := by
  have hs : s.Exact := by
    refine runs_invariant_of (P := Exact) (fun s a _ hs ha hstep => ?_) ?_ hfresh h
    · cases hstep
      obtain ⟨_, _, -, hbo⟩ := bounded_perform (c := c) a s
      exact hbo.exact ha hs
    · exact nofun
  refine ⟨hs, fun a m limit hca hm hok total hto => ?_, fun a error her => ?_,
    fun a m limit hca hmi hpo hli hbu hrep => perform_repeats hs hmi hca hpo hli hbu hrep⟩
  · obtain ⟨m', cap, heq, hbo⟩ := bounded_perform (c := c) a s
    obtain ⟨limit', rfl, hli⟩ := map_eq_some_iff.1 (heq.symm.trans hca)
    cases hli
    have hfresh : a.fresh s = true := by
      cases a with
      | deadLetter => cases hca
      | _ => rfl
    rw [hbo.exact hfresh hs total hto]
    exact hbo.below () limit hok rfl hm hs
  · obtain ⟨_, _, -, hbo⟩ := bounded_perform (c := c) a s
    have hre := hbo.refused error her
    exact ⟨⟨_, _, hre.tables⟩, hre.retained⟩

def sampleCaptures : List (CaptureAction Unit Int) :=
  [.insert (sampleMoment 0) [sampleEvent 1],
    .capture (sampleMoment 1) [sampleEvent 1, sampleEvent 2] 250,
    .deadLetter (sampleMoment 2) (SafetyStores.sampleId 1) "refused"]

theorem capture_total_exact_letter :
    ∃ s, runs (step SafetyStores.sampleCodec) {} sampleCaptures = some s ∧
      s.retained = some 300 ∧ s.inventory = 300 ∧
      ∃ total, ((capture (sampleMoment 3) [sampleEvent 3] 1000).perform SafetyStores.sampleCodec
        s).1.retained = some total ∧ (total ≤ 1000 ∨ NoneAdded s ((capture (sampleMoment 3)
          [sampleEvent 3] 1000).perform SafetyStores.sampleCodec s).1 ∧ total ≤ s.inventory) := by
  have hgu : guarded (step SafetyStores.sampleCodec) (fun s a => a.fresh s) {}
      sampleCaptures = true := by
    decide +kernel
  obtain ⟨hto, hca, -⟩ := capture_total_exact (fun _ _ _ _ => ok_of_guarded hgu)
    (s := (runs (step SafetyStores.sampleCodec) {} sampleCaptures).getD {}) rfl
  refine ⟨_, rfl, by decide +kernel, (hto 300 (by decide +kernel)).symm, 400,
    by decide +kernel, ?_⟩
  exact hca (capture (sampleMoment 3) [sampleEvent 3] 1000) (sampleMoment 3) 1000 rfl
    (fun _ => rfl) (by decide +kernel) 400 (by decide +kernel)

/-- A second move of the same event counts its dead letter twice; and a batch
of duplicates is accepted above its limit. -/
theorem moved_letter_counted_twice :
    (∃ s, runs (step SafetyStores.sampleCodec) {}
        (sampleCaptures ++ [.deadLetter (sampleMoment 3) (SafetyStores.sampleId 1) "refused"]) =
          some s ∧ s.retained = some 400 ∧ s.inventory = 300) ∧
    ∃ s, runs (step SafetyStores.sampleCodec) {} [.insert (sampleMoment 0) [sampleEvent 1]] =
        some s ∧
      ((capture (sampleMoment 1) [sampleEvent 1] 50).perform SafetyStores.sampleCodec s).2 =
        .ok () ∧
      ((capture (sampleMoment 1) [sampleEvent 1] 50).perform SafetyStores.sampleCodec
        s).1.retained = some 100 := by
  exact ⟨⟨_, rfl, by decide +kernel, by decide +kernel⟩,
    ⟨_, rfl, by decide +kernel, by decide +kernel⟩⟩

end CaptureAction

end AqEngine.LiveSync
