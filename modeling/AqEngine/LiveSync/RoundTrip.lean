import Mathlib.Data.List.Forall2
import AqEngine.LiveSync.EventFields

namespace AqEngine.LiveSync

open Lib List

section

variable {α V D : Type} {depth : Nat}

/-- A list of things that are written as nested events. -/
structure EventWriter (α : Type) where
  raw : α → List UInt8
  len : α → Nat
  event : α → Event

structure EventWriter.Sound (w : EventWriter α) (a : α) : Prop where
  len : (w.raw a).length = w.len a
  sized : (w.raw a).length < 2 ^ 64
  reads : ∀ depth, Reads (nextField (Event.mergeField (depth + 1))) {} (w.raw a) (w.event a)

def EventWriter.write (w : EventWriter α) (tag : Nat) (a : α) : List UInt8 :=
  delimited tag (w.len a) (w.raw a)

/-- A field that appends nested events to one of the batch's lists. -/
structure EventField (tag : Nat) (put : Batch → List Event → Batch) : Prop where
  valid : ValidTag tag
  nil : ∀ m, put m [] = m
  cons : ∀ m e events, put (put m [e]) events = put m (e :: events)
  merge : ∀ depth m buf, Batch.mergeField depth m tag .lengthDelimited buf =
    (mergeMessage Event.mergeField depth {} .lengthDelimited buf).map fun (e, buf) =>
      (put m [e], buf)

theorem criticalField :
    EventField 7 fun m events => { m with critical := m.critical ++ events } where
  valid := by decide
  nil m := by simp
  cons m e events := by simp
  merge _ _ _ := rfl

theorem telemetryField :
    EventField 8 fun m events => { m with telemetry := m.telemetry ++ events } where
  valid := by decide
  nil m := by simp
  cons m e events := by simp
  merge _ _ _ := rfl

theorem EventField.reads {tag : Nat} {put : Batch → List Event → Batch}
    (field : EventField tag put) (w : EventWriter α) {items : List α} {m : Batch}
    (h : ∀ a ∈ items, w.Sound a) :
    Reads (nextField (Batch.mergeField (depth + 2))) m (items.flatMap (w.write tag))
      (put m (items.map w.event)) := by
  induction items generalizing m with
  | nil =>
      rw [map_nil, field.nil]
      exact .nil m
  | cons a items ih =>
      have hs := h a mem_cons_self
      have hrest := ih (m := put m [w.event a]) fun x hx => h x (mem_cons_of_mem a hx)
      rw [field.cons, ← map_cons] at hrest
      refine .cons (encodeKey_append_ne_nil _ _ _) (fun _ => ?_) hrest
      rw [EventWriter.write, ← hs.len, delimited, append_assoc, nextField,
        decodeKey_encodeKey _ _ field.valid, append_assoc]
      change Batch.mergeField (depth + 2) m tag .lengthDelimited _ = _
      rw [field.merge, mergeMessage_reads (hs.reads depth) hs.sized]
      rfl

theorem Batch.reads (depth : Nat) {b : Batch} (w : EventWriter α) {critical telemetry : List α}
    (hc : ∀ a ∈ critical, w.Sound a) (ht : ∀ a ∈ telemetry, w.Sound a)
    (hb : b.critical = critical.map w.event ∧ b.telemetry = telemetry.map w.event)
    (hr : (textBytes b.runtime).length < 2 ^ 64)
    (hst : (textBytes b.strategy).length < 2 ^ 64)
    (hs : (textBytes b.session).length < 2 ^ 64) :
    Reads (nextField (Batch.mergeField (depth + 2))) ⟨b.version, "", "", "", none, none, [], []⟩
      (unlessDefault "" b.runtime (string.encode 2) ++
        (unlessDefault "" b.strategy (string.encode 3) ++
        (unlessDefault "" b.session (string.encode 4) ++
        (optionally b.first (uint64.encode 5) ++ (optionally b.last (uint64.encode 6) ++
        (critical.flatMap (w.write 7) ++ telemetry.flatMap (w.write 8))))))) b := by
  obtain ⟨version, runtime, strategy, session, first, last, critical', telemetry'⟩ := b
  obtain ⟨rfl, rfl⟩ := hb
  refine .append (string.reads_unlessDefault (fun m v => { m with runtime := v }) hr) ?_
  refine .append (string.reads_unlessDefault (fun m v => { m with strategy := v }) hst) ?_
  refine .append (string.reads_unlessDefault (fun m v => { m with session := v }) hs) ?_
  refine .append (uint64.reads_optionally fun m v => { m with first := v }) ?_
  refine .append (uint64.reads_optionally fun m v => { m with last := v }) ?_
  exact (criticalField.reads w hc).append (telemetryField.reads w ht)

end

variable {α : Type} {n tag : Nat}

theorem countEvent_scalar {β : Type} (s : Scalar β) (a : β) (ht : ValidTag tag)
    (ho : tag ≠ 7 ∧ tag ≠ 8) (hn : n ≤ maxBatchEvents) :
    Reads countEvent n (s.encode tag a) n := by
  refine .field (encodeKey_append_ne_nil _ _ _) fun rest => ?_
  rw [Scalar.encode, append_assoc, countEvent, decodeKey_encodeKey _ _ ht]
  have hs : skip recursionLimit .varint tag (Varint.encode (s.toWire a) ++ rest) = .ok rest :=
    skip_varint 99 _ rest
  simp only [Except.mapError, bind, Except.bind, ho.1, ho.2, or_self, if_false,
    Nat.not_lt.mpr hn, hs]

theorem countEvent_delimited {k : Nat} {payload : List UInt8} (ht : ValidTag tag)
    (hl : payload.length < 2 ^ 64) (hk : (if tag = 7 ∨ tag = 8 then n + 1 else n) = k)
    (hb : k ≤ maxBatchEvents) :
    Reads countEvent n (delimited tag payload.length payload) k := by
  refine .field (encodeKey_append_ne_nil _ _ _) fun rest => ?_
  rw [delimited, append_assoc, countEvent, decodeKey_encodeKey _ _ ht, append_assoc]
  have hs : skip recursionLimit .lengthDelimited tag
      (Varint.encode payload.length.toUInt64 ++ (payload ++ rest)) = .ok rest :=
    skip_delimited 99 hl rest
  simp only [Except.mapError, bind, Except.bind, hk, if_false, Nat.not_lt.mpr hb, hs]

theorem countEvent_text (value : String) (hl : (textBytes value).length < 2 ^ 64)
    (ht : ValidTag tag) (ho : tag ≠ 7 ∧ tag ≠ 8) (hn : n ≤ maxBatchEvents) :
    Reads countEvent n (unlessDefault "" value (string.encode tag)) n :=
  .unlessDefault (f := fun _ => n) rfl (countEvent_delimited ht hl (if_neg (not_or.mpr ho)) hn)

theorem countEvent_events (w : EventWriter α) {items : List α} (ht : tag = 7 ∨ tag = 8)
    (h : ∀ a ∈ items, w.Sound a) (hn : n + items.length ≤ maxBatchEvents) :
    Reads countEvent n (items.flatMap (w.write tag)) (n + items.length) := by
  induction items generalizing n with
  | nil => exact .nil n
  | cons a items ih =>
      have hs := h a mem_cons_self
      have hvalid : ValidTag tag := by
        rcases ht with rfl | rfl <;> decide
      rw [length_cons] at hn
      have hf : Reads countEvent n (w.write tag a) (n + 1) := by
        rw [EventWriter.write, ← hs.len]
        exact countEvent_delimited hvalid hs.sized (if_pos ht) (by omega)
      have hrest := ih (n := n + 1) (fun x hx => h x (mem_cons_of_mem a hx)) (by omega)
      rw [length_cons, show n + (items.length + 1) = n + 1 + items.length by omega]
      exact hf.append hrest

section

variable {V D : Type} {p : Platform V D}

/-- What the encoder prepares for an event: its serialized parts restore
the event's own. -/
structure Prepared (p : Platform V D) (e : CloudEvent V D) (r : RefEvent V D) : Prop where
  event : r.event = e
  trace : r.trace = .ofLatency e.latency
  kind : p.kindJson.fromSlice r.kind = .ok e.kind
  payload : p.payloadJson.fromSlice r.payload = .ok e.payload

theorem refEvent_prepared (p : Platform V D) (e : CloudEvent V D) :
    ∃ r, refEvent p e = .ok r ∧ Prepared p e r := by
  obtain ⟨kind, hkind, hk'⟩ := p.kindJson.lossless e.kind
  obtain ⟨payload, hp, hp'⟩ := p.payloadJson.lossless e.payload
  refine ⟨⟨e, kind, payload, .ofLatency e.latency⟩, ?_, ⟨rfl, rfl, hk', hp'⟩⟩
  simp [refEvent, hkind, hp, bind, Except.bind]

theorem mapM_refEvent (p : Platform V D) (events : List (CloudEvent V D)) :
    ∃ refs, events.mapM (refEvent p) = .ok refs ∧ List.Forall₂ (Prepared p) events refs := by
  induction events with
  | nil => exact ⟨[], rfl, .nil⟩
  | cons e events ih =>
      obtain ⟨r, hr, hp⟩ := refEvent_prepared p e
      obtain ⟨refs, hre, ha⟩ := ih
      refine ⟨r :: refs, ?_, .cons hp ha⟩
      rw [mapM_cons, hr, hre]
      rfl

def borrowedWriter (time : UtcTime D) : EventWriter (RefEvent V D) where
  raw r := r.encodeRaw time
  len r := r.encodedLen time
  event r := r.schema time

theorem borrowedWriter_sound {time : UtcTime D} {r : RefEvent V D}
    (h : (r.encodeRaw time).length < 2 ^ 64) : (borrowedWriter time).Sound r where
  len := r.length_encodeRaw time
  sized := h
  reads _ := RefEvent.reads (RefEvent.sized h)

def derivedWriter : EventWriter Event where
  raw := Event.encodeRaw
  len := Event.encodedLen
  event e := e

theorem mapIdx_eq_map {α β : Type} {f : Nat → α → β} {g : α → β} {l : List α}
    (h : ∀ i < l.length, ∀ a, f i a = g a) : l.mapIdx f = l.map g := by
  apply ext_getElem
  · simp
  · intro i hi hi'
    simp [h i (by simpa using hi)]

theorem encodeWith_append {b : LiveSyncBatch V D} {critical telemetry : List (RefEvent V D)}
    (hl : critical.length = b.criticalEvents.length) :
    encodeWith p b (critical ++ telemetry) = uint32.encode 1 b.protocolVersion.toUInt32 ++
      (unlessDefault "" b.runtimeId (string.encode 2) ++
      (unlessDefault "" b.strategyId (string.encode 3) ++
      (unlessDefault "" b.liveSessionId (string.encode 4) ++
      (optionally b.firstCriticalSequence (uint64.encode 5) ++
      (optionally b.lastCriticalSequence (uint64.encode 6) ++
      (critical.flatMap ((borrowedWriter p.time).write 7) ++
        telemetry.flatMap ((borrowedWriter p.time).write 8))))))) := by
  have hc : critical.mapIdx (fun i r =>
      delimited (eventTag b i) (r.encodedLen p.time) (r.encodeRaw p.time)) =
      critical.map ((borrowedWriter p.time).write 7) :=
    mapIdx_eq_map fun i hi r => by rw [eventTag, if_pos (hl ▸ hi)]; rfl
  have ht : telemetry.mapIdx (fun i r =>
      delimited (eventTag b (i + critical.length)) (r.encodedLen p.time) (r.encodeRaw p.time)) =
      telemetry.map ((borrowedWriter p.time).write 8) :=
    mapIdx_eq_map fun i hi r => by rw [eventTag, if_neg (by omega)]; rfl
  rw [encodeWith, mapIdx_append, hc, ht, flatten_append,
    ← flatMap_def, ← flatMap_def]

theorem length_encodeWith (b : LiveSyncBatch V D) (events : List (RefEvent V D)) :
    (encodeWith p b events).length = encodedLenWith p b events := by
  have ht : ∀ i, ValidTag (eventTag b i) := by
    intro i
    unfold eventTag
    split <;> decide
  have he : (events.mapIdx fun i r =>
      delimited (eventTag b i) (r.encodedLen p.time) (r.encodeRaw p.time)).flatten.length =
      (events.mapIdx fun i r => delimitedLen (eventTag b i) (r.encodedLen p.time)).sum := by
    rw [length_flatten]
    congr 1
    apply ext_getElem
    · simp
    · intro i hi hi'
      simp [length_delimited _ (RefEvent.length_encodeRaw p.time _) (ht i)]
  simp (disch := decide) only [encodeWith, encodedLenWith, length_append, he,
    Scalar.length_encode, Scalar.length_optionally, Blob.length_unlessDefault]

def batchSchema (time : UtcTime D) (b : LiveSyncBatch V D)
    (critical telemetry : List (RefEvent V D)) : Batch where
  version := b.protocolVersion.toUInt32
  runtime := b.runtimeId
  strategy := b.strategyId
  session := b.liveSessionId
  first := b.firstCriticalSequence
  last := b.lastCriticalSequence
  critical := critical.map (·.schema time)
  telemetry := telemetry.map (·.schema time)

theorem Reads.decodeMessage {M : Type} {mergeField : MergeField M} {m m' : M} {buf : List UInt8}
    (h : Reads (nextField (mergeField recursionLimit)) m buf m') :
    decodeMessage mergeField m buf = .ok m' := by
  have hl := h.readWhile [] (le_refl _)
  rw [append_nil, length_nil] at hl
  rw [Lib.decodeMessage, hl]
  rfl

theorem length_le_flatMap {α : Type} (f : α → List UInt8) {items : List α} {a : α}
    (ha : a ∈ items) : (f a).length ≤ (items.flatMap f).length := by
  rw [flatMap_def]
  exact (sublist_flatten_of_mem (mem_map.mpr ⟨a, ha, rfl⟩)).length_le

/-- Every part of a batch is short enough for its length prefix. -/
structure BatchSized (time : UtcTime D) (b : LiveSyncBatch V D)
    (critical telemetry : List (RefEvent V D)) : Prop where
  runtime : (textBytes b.runtimeId).length < 2 ^ 64
  strategy : (textBytes b.strategyId).length < 2 ^ 64
  session : (textBytes b.liveSessionId).length < 2 ^ 64
  critical : ∀ r ∈ critical, (r.encodeRaw time).length < 2 ^ 64
  telemetry : ∀ r ∈ telemetry, (r.encodeRaw time).length < 2 ^ 64

variable {b : LiveSyncBatch V D} {critical telemetry : List (RefEvent V D)}

section

variable (hl : critical.length = b.criticalEvents.length)
include hl

theorem batchSized_of_length
    (hs : (encodeWith p b (critical ++ telemetry)).length < 2 ^ 64) :
    BatchSized p.time b critical telemetry := by
  have hra : ∀ tag (r : RefEvent V D),
      (r.encodeRaw p.time).length ≤ ((borrowedWriter p.time).write tag r).length :=
    fun tag r => length_le_delimited ..
  rw [encodeWith_append hl] at hs
  obtain ⟨-, hs⟩ := length_lt_of_append hs
  obtain ⟨hru, hs⟩ := length_lt_of_append hs
  obtain ⟨hst, hs⟩ := length_lt_of_append hs
  obtain ⟨hse, hs⟩ := length_lt_of_append hs
  obtain ⟨-, hs⟩ := length_lt_of_append hs
  obtain ⟨-, hs⟩ := length_lt_of_append hs
  obtain ⟨hc, ht⟩ := length_lt_of_append hs
  refine ⟨?_, ?_, ?_, fun r hr => ?_, fun r hr => ?_⟩
  · exact (string.length_le_unlessDefault 2 "" rfl _).trans_lt hru
  · exact (string.length_le_unlessDefault 3 "" rfl _).trans_lt hst
  · exact (string.length_le_unlessDefault 4 "" rfl _).trans_lt hse
  · exact ((hra 7 r).trans (length_le_flatMap _ hr)).trans_lt hc
  · exact ((hra 8 r).trans (length_le_flatMap _ hr)).trans_lt ht

theorem decode_encodeWith
    (hs : BatchSized p.time b critical telemetry) :
    Batch.decode (encodeWith p b (critical ++ telemetry)) =
      .ok (batchSchema p.time b critical telemetry) := by
  apply Reads.decodeMessage
  rw [encodeWith_append hl]
  refine (uint32.reads (fun v => (⟨v, "", "", "", none, none, [], []⟩ : Batch)) _
    (by decide) fun _ => rfl).append ?_
  exact Batch.reads 98 (b := batchSchema p.time b critical telemetry)
    (borrowedWriter p.time) (fun r hr => borrowedWriter_sound (hs.critical r hr))
    (fun r hr => borrowedWriter_sound (hs.telemetry r hr)) ⟨rfl, rfl⟩
    hs.runtime hs.strategy hs.session

theorem count_encodeWith
    (hs : BatchSized p.time b critical telemetry)
    (he : critical.length + telemetry.length ≤ maxBatchEvents) :
    Reads countEvent 0 (encodeWith p b (critical ++ telemetry))
      (critical.length + telemetry.length) := by
  have hz : 0 ≤ maxBatchEvents := Nat.zero_le _
  have ho : ∀ tag, ValidTag tag → tag ≠ 7 ∧ tag ≠ 8 → ∀ v : Option UInt64,
      Reads countEvent 0 (optionally v (uint64.encode tag)) 0 := fun tag ht hot v =>
    .optionally (f := fun _ => 0) rfl fun a _ => countEvent_scalar uint64 a ht hot hz
  rw [encodeWith_append hl]
  refine (countEvent_scalar uint32 _ (by decide) (by decide) hz).append ?_
  refine (countEvent_text _ hs.runtime (by decide) (by decide) hz).append ?_
  refine (countEvent_text _ hs.strategy (by decide) (by decide) hz).append ?_
  refine (countEvent_text _ hs.session (by decide) (by decide) hz).append ?_
  refine (ho 5 (by decide) (by decide) _).append ?_
  refine (ho 6 (by decide) (by decide) _).append ?_
  have hc := countEvent_events (borrowedWriter p.time) (n := 0) (.inl rfl)
    (fun r hr => borrowedWriter_sound (hs.critical r hr)) (by omega)
  rw [Nat.zero_add] at hc
  exact hc.append (countEvent_events (borrowedWriter p.time) (.inr rfl)
    (fun r hr => borrowedWriter_sound (hs.telemetry r hr)) he)

end

theorem RefEvent.length_schema_le (time : UtcTime D) (r : RefEvent V D) :
    (r.schema time).encodeRaw.length ≤ (r.encodeRaw time).length := by
  have hv := length_unlessDefault_le 0 r.event.protocolVersion.toUInt32 (uint32.encode 1)
  have hid : (unlessDefault [] r.event.eventId.bytes (bytes.encode 2)).length ≤
      (delimited 2 16 r.event.eventId.bytes).length := by
    rw [RefEvent.encode_id]
    exact length_unlessDefault_le ..
  have hkind := length_unlessDefault_le [] r.kind (bytes.encode 11)
  have hp := length_unlessDefault_le [] r.payload (bytes.encode 12)
  simp only [Event.encodeRaw, RefEvent.encodeRaw, RefEvent.schema, length_append]
  refine Nat.add_le_add hv (Nat.add_le_add hid ?_)
  refine Nat.add_le_add_left (Nat.add_le_add_left (Nat.add_le_add_left ?_ _) _) _
  -- the derived encoder writes the run before the entity
  rw [Nat.add_left_comm]
  refine Nat.add_le_add_left (Nat.add_le_add_left (Nat.add_le_add_left ?_ _) _) _
  refine Nat.add_le_add_left (Nat.add_le_add_left ?_ _) _
  exact Nat.add_le_add hkind (Nat.add_le_add hp (le_refl _))

theorem derivedWriter_sound {time : UtcTime D} {r : RefEvent V D}
    (h : (r.encodeRaw time).length < 2 ^ 64) : derivedWriter.Sound (r.schema time) where
  len := Event.length_encodeRaw _
  sized := (r.length_schema_le time).trans_lt h
  reads _ := Event.reads (RefEvent.sized h)

/-- The derived encoder writes a message that is read back in the same way. -/
theorem decode_schema (hs : BatchSized p.time b critical telemetry) :
    Batch.decode (batchSchema p.time b critical telemetry).encodeRaw =
      .ok (batchSchema p.time b critical telemetry) := by
  apply Reads.decodeMessage
  refine .append (uint32.reads_unlessDefault fun m v => { m with version := v }) ?_
  refine Batch.reads 98 (b := batchSchema p.time b critical telemetry) derivedWriter
    (fun e he => ?_) (fun e he => ?_) ⟨(map_id _).symm, (map_id _).symm⟩
    hs.runtime hs.strategy hs.session
  · obtain ⟨r, hr, rfl⟩ := mem_map.mp he
    exact derivedWriter_sound (hs.critical r hr)
  · obtain ⟨r, hr, rfl⟩ := mem_map.mp he
    exact derivedWriter_sound (hs.telemetry r hr)

end

variable {V D : Type} {p : Platform V D}

theorem restoreVersion_toUInt32 (v : UInt16) : restoreVersion v.toUInt32 = .ok v := by
  have hlt : v.toUInt32.toNat < 2 ^ 16 := by
    rw [UInt16.toNat_toUInt32]
    exact v.toNat_lt
  rw [restoreVersion, if_pos hlt, UInt16.toUInt16_toUInt32]

theorem restorePriority_code (q : EventPriority) : restorePriority q.code = .ok q := by
  cases q <;> rfl

theorem fromSlice_bytes (u : Uuid) : Uuid.fromSlice u.bytes = some u := by
  rw [Uuid.fromSlice, dif_pos u.length_bytes]

/-- Restoring the schema message of an event fails exactly on an instant
that the time library does not rebuild. -/
theorem restore_schema {e : CloudEvent V D} {r : RefEvent V D} (h : Prepared p e r) :
    restore p (r.schema p.time) =
      if p.time.EndsMinute e.createdAt then .ok e else .error (.message "invalid timestamp") := by
  obtain ⟨rfl, htr, hkind, hp⟩ := h
  have ht : p.time.fromTimestamp _ _ =
      if p.time.EndsMinute r.event.createdAt then some r.event.createdAt else none :=
    p.time.fromTimestamp_timestamp r.event.createdAt
  simp only [restore, RefEvent.schema, restoreVersion_toUInt32, restorePriority_code,
    fromSlice_bytes, orMessage, hkind, hp, htr, ht, Except.mapError, bind,
    Except.bind]
  by_cases he : p.time.EndsMinute r.event.createdAt
  · rw [if_pos he, if_pos he]
    rfl
  · rw [if_neg he, if_neg he]

theorem mapM_restore {events : List (CloudEvent V D)} {refs : List (RefEvent V D)}
    (h : List.Forall₂ (Prepared p) events refs) :
    (refs.map (·.schema p.time)).mapM (restore p) =
      if ∀ e ∈ events, p.time.EndsMinute e.createdAt then .ok events
      else .error (.message "invalid timestamp") := by
  induction h with
  | nil => rfl
  | @cons e r events refs hp _ ih =>
      rw [map_cons, mapM_cons, restore_schema hp, ih]
      simp only [forall_mem_cons]
      by_cases he : p.time.EndsMinute e.createdAt
      · by_cases hrest : ∀ e ∈ events, p.time.EndsMinute e.createdAt
        · rw [if_pos he, if_pos hrest, if_pos ⟨he, hrest⟩]
          rfl
        · rw [if_pos he, if_neg hrest, if_neg (not_and_of_not_right _ hrest)]
          rfl
      · rw [if_neg he, if_neg (not_and_of_not_left _ he)]
        rfl

theorem decodeBytes_encodeWith {b : LiveSyncBatch V D} {critical telemetry : List (RefEvent V D)}
    (hcr : List.Forall₂ (Prepared p) b.criticalEvents critical)
    (hte : List.Forall₂ (Prepared p) b.telemetry telemetry)
    (he : b.events.length ≤ maxBatchEvents)
    (hb : (encodeWith p b (critical ++ telemetry)).length ≤ maxBatchBytes) :
    decodeBytes p (encodeWith p b (critical ++ telemetry)) =
      if ∀ e ∈ b.events, p.time.EndsMinute e.createdAt then .ok b
      else .error (.message "invalid timestamp") := by
  have hl := hcr.length_eq.symm
  have hsi : BatchSized p.time b critical telemetry :=
    batchSized_of_length hl (hb.trans_lt (by decide))
  have hco : critical.length + telemetry.length ≤ maxBatchEvents := by
    rw [LiveSyncBatch.events, length_append, hte.length_eq] at he
    omega
  have hs := (count_encodeWith hl hsi hco).readWhile [] (le_refl _)
  rw [append_nil, length_nil] at hs
  rw [decodeBytes, if_neg (not_lt.mpr hb), hs, decode_encodeWith hl hsi]
  simp only [bind, Except.bind, Except.mapError, batchSchema, restoreVersion_toUInt32,
    mapM_restore hcr, mapM_restore hte, LiveSyncBatch.events, forall_mem_append]
  by_cases hc : ∀ e ∈ b.criticalEvents, p.time.EndsMinute e.createdAt
  · by_cases ht : ∀ e ∈ b.telemetry, p.time.EndsMinute e.createdAt
    · rw [if_pos hc, if_pos ht, if_pos ⟨hc, ht⟩]
    · rw [if_pos hc, if_neg ht, if_neg (not_and_of_not_right _ ht)]
  · rw [if_neg hc, if_neg (not_and_of_not_left _ hc)]

/-- Every batch within the decoder's bounds is written with the announced
lengths and read as its schema message, and it is restored exactly if no
event was created within a leap second elsewhere than at a minute's end. -/
theorem batch_round_trip (p : Platform V D) (b : LiveSyncBatch V D) {buf : List UInt8}
    (hencode : encode p b = .ok buf) (hevents : b.events.length ≤ maxBatchEvents)
    (hbytes : buf.length ≤ maxBatchBytes) :
    (decodeBytes p buf = .ok b ↔ ∀ e ∈ b.events, p.time.EndsMinute e.createdAt) ∧
    ∃ critical telemetry, b.events.mapM (refEvent p) = .ok (critical ++ telemetry) ∧
      buf.length = encodedLenWith p b (critical ++ telemetry) ∧
      (∀ r ∈ critical ++ telemetry, (r.encodeRaw p.time).length = r.encodedLen p.time ∧
        r.trace.encodeRaw.length = r.trace.encodedLen) ∧
      Batch.decode buf = .ok (batchSchema p.time b critical telemetry) ∧
      Batch.decode (batchSchema p.time b critical telemetry).encodeRaw = Batch.decode buf := by
  obtain ⟨critical, hcr, hall⟩ := mapM_refEvent p b.criticalEvents
  obtain ⟨telemetry, hte, hall'⟩ := mapM_refEvent p b.telemetry
  have hre : b.events.mapM (refEvent p) = .ok (critical ++ telemetry) := by
    rw [LiveSyncBatch.events, mapM_append, hcr, hte]
    rfl
  obtain rfl : encodeWith p b (critical ++ telemetry) = buf := by
    rw [encode, hre] at hencode
    exact Except.ok.inj hencode
  have hlen := hall.length_eq.symm
  have hsi : BatchSized p.time b critical telemetry :=
    batchSized_of_length hlen (hbytes.trans_lt (by decide))
  refine ⟨?_, critical, telemetry, hre, length_encodeWith b _,
    fun r _ => ⟨r.length_encodeRaw p.time, r.trace.length_encodeRaw⟩,
    decode_encodeWith hlen hsi, ?_⟩
  · rw [decodeBytes_encodeWith hall hall' hevents hbytes]
    split
    · rename_i hen
      exact iff_of_true rfl hen
    rename_i hen
    exact iff_of_false (by simp) hen
  · rw [decode_schema hsi, decode_encodeWith hlen hsi]

def unitKinds : List EventKind :=
  [.strategyLifecycle, .insightProjection, .insightStateHistory, .executionEvidenceChunk,
    .executionFillPage, .positionMarkPage, .brokerOrderLifecycle, .strategyActionAcknowledgement,
    .accountProjection, .liveMetricsProjection, .equityProjection, .heartbeat, .strategyEvent,
    .log, .reconciliationStart, .reconciliationChunk, .reconciliationComplete,
    .reconciliationLifecycleRequest, .reconciliationLifecycleResult, .reconciliationSnapshot,
    .reconciliationProgress, .syncHealth, .control]

def kindText : EventKind → List UInt8
  | .custom value => textBytes "\x7b\"custom\":\"" ++ (textBytes value ++ textBytes "\"\x7d")
  | kind => textBytes ("\"" ++ kind.asStr ++ "\"")

def kindOfText (json : List UInt8) : Except String EventKind :=
  match unitKinds.find? (fun kind => kindText kind = json) with
  | some kind => .ok kind
  | none =>
    match textOfBytes ((json.drop 11).take (json.length - 13)) with
    | .ok value => .ok (.custom value)
    | .error _ => .error "invalid custom kind"

theorem kindOfText_kindText (kind : EventKind) : kindOfText (kindText kind) = .ok kind := by
  have hu : ∀ kind ∈ unitKinds, kindOfText (kindText kind) = .ok kind := by decide +kernel
  have hh : ∀ kind ∈ unitKinds, (kindText kind).head? = some 34 := by decide +kernel
  cases kind with
  | custom value =>
      have hn : unitKinds.find? (fun kind => kindText kind = kindText (.custom value)) =
          none := by
        rw [find?_eq_none]
        intro kind hkind hs
        have hq := hh kind hkind
        rw [of_decide_eq_true hs] at hq
        exact absurd hq (by change some (123 : UInt8) ≠ _; decide)
      have hi : ((kindText (.custom value)).drop 11).take
          ((kindText (.custom value)).length - 13) = textBytes value := by
        have ho : (textBytes "\x7b\"custom\":\"").length = 11 := by decide +kernel
        have hclose : (textBytes "\"\x7d").length = 2 := by decide +kernel
        simp only [kindText, length_append, ho, hclose]
        rw [drop_append_of_le_length ho.ge, ← ho, drop_length, nil_append,
          ho, show 11 + ((textBytes value).length + 2) - 13 = (textBytes value).length by omega,
          take_left]
      rw [kindOfText, hn]
      change (match textOfBytes _ with | .ok value => _ | .error _ => _) = _
      rw [hi, textOfBytes_textBytes]
  | _ => exact hu _ (by decide)

def nullJson : List UInt8 := textBytes "null"

def samplePlatform : Platform Unit {t : Int64 × UInt32 // t.2.toNat < 2 * 10 ^ 9} where
  kindJson := ⟨fun kind => .ok (kindText kind), kindOfText, fun kind =>
    ⟨_, rfl, kindOfText_kindText kind⟩⟩
  payloadJson := ⟨fun _ => .ok nullJson, fun json => if json = nullJson then .ok () else
    .error "invalid payload", fun _ => ⟨_, rfl, rfl⟩⟩
  time :=
    { timestamp := fun t => t.1.1
      timestampSubsecNanos := fun t => t.1.2
      fromTimestamp := fun seconds nanos =>
        if h : nanos.toNat < 2 * 10 ^ 9 then
          if nanos.toNat < 10 ^ 9 ∨ seconds.toInt % 60 = 59 then some ⟨(seconds, nanos), h⟩
          else none
        else none
      fromTimestamp_timestamp := fun t => by rw [dif_pos t.2] }

def sampleBatch (createdAt : {t : Int64 × UInt32 // t.2.toNat < 2 * 10 ^ 9}) :
    LiveSyncBatch Unit {t : Int64 × UInt32 // t.2.toNat < 2 * 10 ^ 9} where
  protocolVersion := 2
  runtimeId := "runtime"
  strategyId := ""
  liveSessionId := "session"
  firstCriticalSequence := some 0
  lastCriticalSequence := none
  criticalEvents := []
  telemetry := [
    { protocolVersion := 2, eventId := default, runtimeId := "runtime", strategyId := ""
      liveSessionId := "session", runId := some "", entityId := "entity", entityRevision := 300
      criticalSequence := some 0, priority := .telemetry, kind := .heartbeat, payload := ()
      latency := { sourceOccurredAtUs := some (-1), clockUncertaintyUs := some 0 }
      createdAt }]

theorem batch_round_trip_leap_second :
    ∃ buf, encode samplePlatform (sampleBatch ⟨(59, 1500000000), by decide⟩) = .ok buf ∧
      decodeBytes samplePlatform buf = .ok (sampleBatch ⟨(59, 1500000000), by decide⟩) := by
  refine ⟨_, rfl, (batch_round_trip samplePlatform _ rfl (by decide) (by decide +kernel)).1.mpr ?_⟩
  intro e he
  obtain rfl := mem_singleton.mp he
  exact .inr (by decide)

/-- Half a second into a leap second after second 4 of a minute. -/
theorem leap_second_within_minute_is_refused :
    ∃ buf, encode samplePlatform (sampleBatch ⟨(4, 1500000000), by decide⟩) = .ok buf ∧
      (sampleBatch ⟨(4, 1500000000), by decide⟩).events.length ≤ maxBatchEvents ∧
      buf.length ≤ maxBatchBytes ∧
      decodeBytes samplePlatform buf = .error (.message "invalid timestamp") := by
  refine ⟨_, rfl, by decide, by decide +kernel, ?_⟩
  rfl

end AqEngine.LiveSync
