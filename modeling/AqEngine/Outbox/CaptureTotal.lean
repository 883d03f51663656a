import AqEngine.Lib.Totals
import AqEngine.Outbox.ReservationRuns

namespace AqEngine.LiveSync

open Lib Fallible Option Table

namespace OutboxStore

variable {V D : Type} {c : EventCodec V D} {A : CloudEvent V D → Prop} {s s' : OutboxStore V D}

def Exact (s : OutboxStore V D) : Prop := ∀ total, s.retained = some total → total = s.inventory

def eventBytes (events : Table Uuid (OutboxRow V D)) : Int :=
  events.total fun row => row.payload.length

def letterBytes (letters : Table Uuid (DeadLetter V D)) : Int :=
  letters.total fun letter => letter.payload.length

variable {id : Uuid} {row : OutboxRow V D} {letter : DeadLetter V D}

theorem inventory_eq (s : OutboxStore V D) :
    s.inventory = eventBytes s.events + letterBytes s.deadLetters := rfl

theorem inventory_nonneg (s : OutboxStore V D) : 0 ≤ s.inventory := by
  rw [inventory_eq]
  exact add_nonneg (total_nonneg (fun _ => Int.natCast_nonneg _) _)
    (total_nonneg (fun _ => Int.natCast_nonneg _) _)

theorem inventory_addEvent (hn : s.events.lookup id = none) :
    (s.addEvent id row).inventory = s.inventory + row.payload.length := by
  have ht : eventBytes (s.events.insert id row) = eventBytes s.events + row.payload.length :=
    total_insert hn
  change eventBytes (s.events.insert id row) + letterBytes s.deadLetters = _
  rw [inventory_eq]
  omega

theorem inventory_deleteEvent (hrow : s.events.lookup id = some row) :
    (s.deleteEvent id).inventory = s.inventory - row.payload.length := by
  have ht : eventBytes (s.events.erase id) = eventBytes s.events - row.payload.length :=
    total_erase hrow
  simp only [deleteEvent, hrow]
  change eventBytes (s.events.erase id) + letterBytes s.deadLetters = _
  rw [inventory_eq]
  omega

theorem inventory_putDeadLetter (hn : s.deadLetters.lookup id = none) :
    (s.putDeadLetter id letter).inventory = s.inventory + letter.payload.length := by
  have ht : letterBytes (s.deadLetters.insert id letter) =
      letterBytes s.deadLetters + letter.payload.length := total_insert hn
  change eventBytes s.events + letterBytes (s.deadLetters.insert id letter) = _
  rw [inventory_eq]
  omega

theorem inventory_deleteDeadLetter (hl : s.deadLetters.lookup id = some letter) :
    (s.deleteDeadLetter id).inventory = s.inventory - letter.payload.length := by
  have ht : letterBytes (s.deadLetters.erase id) =
      letterBytes s.deadLetters - letter.payload.length := total_erase hl
  simp only [deleteDeadLetter, hl]
  change eventBytes s.events + letterBytes (s.deadLetters.erase id) = _
  rw [inventory_eq]
  omega

theorem inventory_updateEvent (s : OutboxStore V D) (id : Uuid)
    (f : OutboxRow V D → OutboxRow V D) : (s.updateEvent id f).inventory = s.inventory := by
  have ht : eventBytes (s.updateEvent id f).events = eventBytes s.events := by
    refine total_modify (fun _ => ?_) s.events id
    rfl
  change eventBytes (s.updateEvent id f).events + letterBytes s.deadLetters = _
  rw [inventory_eq, ht]

theorem Exact.addEvent (h : s.Exact) (hn : s.events.lookup id = none) :
    (s.addEvent id row).Exact := by
  intro total ht
  obtain ⟨old, hold, rfl⟩ := map_eq_some_iff.1 ht
  rw [inventory_addEvent hn, h old hold]

theorem Exact.deleteEvent (h : s.Exact) (hrow : s.events.lookup id = some row) :
    (s.deleteEvent id).Exact := by
  intro total ht
  rw [inventory_deleteEvent hrow]
  simp only [OutboxStore.deleteEvent, hrow] at ht
  obtain ⟨old, hold, rfl⟩ := map_eq_some_iff.1 ht
  rw [h old hold]

theorem Exact.putDeadLetter (h : s.Exact) (hn : s.deadLetters.lookup id = none) :
    (s.putDeadLetter id letter).Exact := by
  intro total ht
  obtain ⟨old, hold, rfl⟩ := map_eq_some_iff.1 ht
  rw [inventory_putDeadLetter hn, h old hold]

theorem Exact.deleteDeadLetter (id : Uuid) (h : s.Exact) : (s.deleteDeadLetter id).Exact := by
  cases hl : s.deadLetters.lookup id with
  | none =>
    rw [OutboxStore.deleteDeadLetter, hl]
    exact h
  | some =>
    intro total ht
    rw [inventory_deleteDeadLetter hl]
    simp only [OutboxStore.deleteDeadLetter, hl] at ht
    obtain ⟨old, hold, rfl⟩ := map_eq_some_iff.1 ht
    rw [h old hold]

theorem Exact.updateEvent (id : Uuid) (f : OutboxRow V D → OutboxRow V D) (h : s.Exact) :
    (s.updateEvent id f).Exact := by
  intro total ht
  rw [inventory_updateEvent]
  exact h total ht

/-- No change of rows loses count unless it replaces a dead letter. -/
theorem Edit.exact (he : Edit c A False True s s') (h : s.Exact) : s'.Exact := by
  cases he with
  | aside => exact h
  | install =>
    rintro total ⟨⟩
    rfl
  | add _ _ hn => exact h.addEvent hn
  | delete hrow => exact h.deleteEvent hrow
  | commit id | retry id | @revive id => exact h.updateEvent id _
  | @bury id _ _ _ _ hl => exact (h.putDeadLetter (hl.resolve_left not_false)).updateEvent id _
  | @dropLetter id => exact h.deleteDeadLetter id
  | putLetter _ hn => exact h.putDeadLetter hn

theorem Edits.exact (he : Edits c A False True s s') (h : s.Exact) : s'.Exact := by
  induction he with
  | refl => exact h
  | tail _ hstep ih => exact hstep.exact ih

/-- Both readings of the clock give encodings of one size. -/
def Moment.Steady (c : EventCodec V D) (m : Moment) : Prop :=
  ∀ e : CloudEvent V D, c.wireLen (EventCodec.withLocalCommit e (m.sizedAtUs e.eventId)) =
    c.wireLen (EventCodec.withLocalCommit e (m.writtenAtUs e.eventId))

theorem length_of_steady {m : Moment} {e : CloudEvent V D} {sized written : WirePayload V D}
    (hm : Moment.Steady c m) 
    (hs : c.encodeWithLocalCommit e (m.sizedAtUs e.eventId) = .ok sized)
    (hw : c.encodeWithLocalCommit e (m.writtenAtUs e.eventId) = .ok written) :
    sized.length = written.length := by
  unfold EventCodec.encodeWithLocalCommit EventCodec.encode at hs hw
  rw [← hm e] at hw
  cases hl : c.wireLen (EventCodec.withLocalCommit e (m.sizedAtUs e.eventId)) with
  | error => simp [hl] at hs
  | ok =>
    simp only [hl, Except.ok.injEq] at hs hw
    rw [← hs, ← hw]

/-- No row with bytes came in. -/
structure NoneAdded (s s' : OutboxStore V D) : Prop where
  events : ∀ id row, s'.events.lookup id = some row →
    s.events.lookup id = some row ∨ row.payload.length = 0
  deadLetters : s'.deadLetters = s.deadLetters

theorem NoneAdded.refl (s : OutboxStore V D) : NoneAdded s s := ⟨fun _ _ h => .inl h, rfl⟩

theorem NoneAdded.trans {s₁ : OutboxStore V D} (h : NoneAdded s s₁) (h' : NoneAdded s₁ s') :
    NoneAdded s s' :=
  ⟨fun id row hrow => (h'.events id row hrow).elim (h.events id row) .inr,
    h'.deadLetters.trans h.deadLetters⟩

theorem NoneAdded.addEvent {safety : SafetyTable D} (h : row.payload.length = 0) :
    NoneAdded s { s.addEvent id row with safety := safety } := by
  refine ⟨fun j other hj => ?_, rfl⟩
  replace hj := (lookup_insert_ite s.events id j row).symm.trans hj
  split at hj
  · cases hj
    exact .inr h
  · exact .inl hj

variable [DecidableEq V] [DecidableEq D] {m : Moment} {events : List (CloudEvent V D)}

/-- An admission adds the bytes that it asked for, and rows with bytes only if
it asked for some. The store `s₁` has grown from `s` by the identities `seen`. -/
theorem insertEach_adds {s₁ : OutboxStore V D} {seen : List Uuid} {exact : Bool}
    {requested inserted : Nat} (hm : Moment.Steady c m) (hl : ∀ e ∈ events, e.kind ≠ .log)
    (hs : ∀ id, (s₁.events.lookup id).isSome ↔ id ∈ seen ∨ (s.events.lookup id).isSome)
    (hr : s.requestedBytes c m seen events = .ok requested)
    (h : insertEach c exact m.writtenAtUs s₁ events = .ok (s', inserted)) :
    s'.inventory = s₁.inventory + requested ∧ (requested = 0 → NoneAdded s₁ s') := by
  induction events generalizing s₁ seen requested inserted with
  | nil =>
    cases h
    cases hr
    exact ⟨by simp, fun _ => .refl _⟩
  | cons e rest ih =>
    obtain ⟨⟨s₂, isNew⟩, hf, h⟩ := bind_eq_ok.1 h
    obtain ⟨⟨s₃, count⟩, hrest, h⟩ := bind_eq_ok.1 h
    cases h
    have hlo : e.kind ≠ .log := hl e List.mem_cons_self
    have hl' : ∀ e ∈ rest, e.kind ≠ .log := fun e he => hl e (List.mem_cons_of_mem _ he)
    unfold requestedBytes at hr
    obtain ⟨-, rfl, row, hrow, -⟩ | ⟨-, hn, payload, safety, hp, rfl⟩ := insertEvent_cases hf
    · have hk := (hs e.eventId).1 (isSome_of_eq_some hrow)
      split at hr
      · exact ih hl' hs hr hrest
      next hne =>
      have hsa := hk.resolve_left fun hme => hne (.inr hme)
      rw [if_pos hsa] at hr
      refine ih hl' (fun id => ?_) hr hrest
      rw [hs, List.mem_cons]
      constructor
      · exact fun hid => hid.imp_left .inr
      · rintro ((rfl | hid) | hid)
        exacts [.inr hsa, .inl hid, .inr hid]
    · have hu : ¬(e.eventId ∈ seen ∨ (s.events.lookup e.eventId).isSome = true) := by
        rw [← hs, hn]
        exact Bool.false_ne_true
      rw [if_neg (not_or.2 ⟨hlo, fun hme => hu (.inl hme)⟩), if_neg fun hsa => hu (.inr hsa)] at hr
      obtain ⟨sized, hsi, hr⟩ := bind_eq_ok.1 hr
      obtain ⟨-, hr⟩ := refuseIf_bind_eq_ok.1 hr
      obtain ⟨bytes, hb, hr⟩ := bind_eq_ok.1 hr
      cases hr
      have hle := length_of_steady hm hsi hp
      generalize hrow : OutboxRow.mk payload .pending 0 _ _ none none = row at hrest
      have hlen : row.payload.length = payload.length := by rw [← hrow]
      have hs' : ∀ id, (AList.lookup id (s₁.events.insert e.eventId row)).isSome ↔
          id ∈ e.eventId :: seen ∨ (s.events.lookup id).isSome := by
        intro id
        rw [lookup_insert_ite, List.mem_cons]
        by_cases hid : id = e.eventId
        · simp [hid]
        simp only [hid, false_or]
        exact hs id
      obtain ⟨hi, hadd⟩ := ih hl' hs' hb hrest
      have ha : (s₁.addEvent e.eventId row).inventory = s₁.inventory + row.payload.length :=
        inventory_addEvent hn
      refine ⟨?_, fun hz => .trans (.addEvent (by omega)) (hadd (by omega))⟩
      rw [hi, Int.natCast_add, hle, ← hlen, ← add_assoc, ← ha]
      rfl

omit [DecidableEq V] [DecidableEq D] in
theorem captureRetainedBytes_eq_ok {retained : Nat} (h : s.captureRetainedBytes = .ok retained) :
    s.retained = some (retained : Int) := by
  unfold captureRetainedBytes at h
  split at h
  · cases h
  next _ hv =>
  split at h
  · cases h
  next hn =>
  cases h
  rw [hv, Int.toNat_of_nonneg (not_lt.1 hn)]

theorem admitEvents_adds {limit inserted : Nat} {exact : Bool} (hs : s.Exact)
    (hm : Moment.Steady c m) (hl : ∀ e ∈ events, e.kind ≠ .log)
    (h : s.admitEvents c m events (some limit) exact = .ok (s', inserted)) :
    s'.inventory ≤ limit ∨ NoneAdded s s' ∧ s'.inventory = s.inventory := by
  obtain ⟨hin, hch, -⟩ := admitEvents_eq_ok h
  obtain ⟨capacity, hc⟩ := hch limit rfl
  obtain ⟨-, hc⟩ := refuseIf_bind_eq_ok.1 hc
  obtain ⟨-, hc⟩ := refuseIf_bind_eq_ok.1 hc
  obtain ⟨requested, hr, hc⟩ := bind_eq_ok.1 hc
  obtain ⟨retained, hre, hc⟩ := bind_eq_ok.1 hc
  obtain ⟨hf, -⟩ := refuseIf_bind_eq_ok.1 hc
  obtain ⟨hi, hadd⟩ := insertEach_adds hm hl (by simp) hr hin
  have ht := hs _ (captureRetainedBytes_eq_ok hre)
  by_cases hz : requested = 0
  · refine .inr ⟨hadd hz, ?_⟩
    rw [hi, hz]
    simp
  left
  omega

end OutboxStore

end AqEngine.LiveSync
