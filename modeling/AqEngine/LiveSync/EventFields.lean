import AqEngine.LiveSync.Borrowed

namespace AqEngine.LiveSync

open Lib List

section

variable {V D : Type}

theorem Trace.length_encodeRaw (t : Trace) : t.encodeRaw.length = t.encodedLen := by
  simp (disch := decide) only [encodeRaw, encodedLen, length_append, Scalar.length_optionally]

theorem Event.length_encodeRaw (e : Event) : e.encodeRaw.length = e.encodedLen := by
  have ht : (optionally e.latency fun t => delimited 13 t.encodedLen t.encodeRaw).length =
      optionalLen e.latency fun t => delimitedLen 13 t.encodedLen :=
    length_optionally (fun t => length_delimited _ t.length_encodeRaw (by decide)) _
  simp (disch := decide) only [encodeRaw, encodedLen, length_append, ht,
    Scalar.length_optionally, Scalar.length_unlessDefault, Blob.length_optionally,
    Blob.length_unlessDefault]

theorem RefEvent.length_encodeRaw (time : UtcTime D) (r : RefEvent V D) :
    (r.encodeRaw time).length = r.encodedLen time := by
  have ht : (delimited 13 r.trace.encodedLen r.trace.encodeRaw).length =
      delimitedLen 13 r.trace.encodedLen := length_delimited _ r.trace.length_encodeRaw (by decide)
  have hid : (delimited 2 16 r.event.eventId.bytes).length = keyLen 2 + 1 + 16 :=
    length_delimited _ r.event.eventId.length_bytes (by decide)
  simp (disch := decide) only [encodeRaw, encodedLen, length_append, ht, hid,
    Scalar.length_encode, Blob.length_encode, Scalar.length_optionally,
    Scalar.length_unlessDefault, Blob.length_optionally, Blob.length_unlessDefault]
  omega

end

theorem Trace.reads (depth : Nat) (t : Trace) :
    Reads (nextField (Trace.mergeField depth)) {} t.encodeRaw t := by
  refine .append (sint64.reads_optionally fun m v => { m with source := v }) ?_
  refine .append (sint64.reads_optionally fun m v => { m with adapter := v }) ?_
  refine .append (sint64.reads_optionally fun m v => { m with runtime := v }) ?_
  refine .append (sint64.reads_optionally fun m v => { m with bus := v }) ?_
  refine .append (sint64.reads_optionally fun m v => { m with outbox := v }) ?_
  refine .append (sint64.reads_optionally fun m v => { m with request := v }) ?_
  refine .append (sint64.reads_optionally fun m v => { m with committed := v }) ?_
  refine .append (sint64.reads_optionally fun m v => { m with ack := v }) ?_
  refine .append (sint64.reads_optionally fun m v => { m with applied := v }) ?_
  refine .append (sint64.reads_optionally fun m v => { m with offset := v }) ?_
  exact uint64.reads_optionally fun (m : Trace) v => { m with uncertainty := v }

variable {V D : Type}

def RefEvent.schema (time : UtcTime D) (r : RefEvent V D) : Event where
  version := r.event.protocolVersion.toUInt32
  id := r.event.eventId.bytes
  runtime := r.event.runtimeId
  strategy := r.event.strategyId
  session := r.event.liveSessionId
  run := r.event.runId
  entity := r.event.entityId
  revision := r.event.entityRevision
  sequence := r.event.criticalSequence
  priority := r.event.priority.code
  kindJson := r.kind
  payloadJson := r.payload
  latency := some r.trace
  seconds := time.timestamp r.event.createdAt
  nanos := time.timestampSubsecNanos r.event.createdAt

/-- No part of the event is longer than a length prefix can say. -/
structure Event.Sized (e : Event) : Prop where
  id : e.id.length < 2 ^ 64
  runtime : (textBytes e.runtime).length < 2 ^ 64
  strategy : (textBytes e.strategy).length < 2 ^ 64
  session : (textBytes e.session).length < 2 ^ 64
  run : ∀ s ∈ e.run, (textBytes s).length < 2 ^ 64
  entity : (textBytes e.entity).length < 2 ^ 64
  kindJson : e.kindJson.length < 2 ^ 64
  payloadJson : e.payloadJson.length < 2 ^ 64
  latency : ∀ t ∈ e.latency, t.encodeRaw.length < 2 ^ 64

variable {depth : Nat} {m : Event} {time : UtcTime D} {r : RefEvent V D}

theorem Event.reads_latency (hm : m.latency = none) (t : Trace) (hl : t.encodeRaw.length < 2 ^ 64) :
    Reads (nextField (Event.mergeField (depth + 1))) m (delimited 13 t.encodedLen t.encodeRaw)
      { m with latency := some t } := by
  refine .field (encodeKey_append_ne_nil _ _ _) fun _ => ?_
  rw [← t.length_encodeRaw, delimited, append_assoc, nextField,
    decodeKey_encodeKey _ _ (by decide), append_assoc]
  change (mergeMessage Trace.mergeField (depth + 1) (m.latency.getD {}) _ _).map _ = _
  rw [hm, Option.getD_none, mergeMessage_reads (Trace.reads depth t) hl]
  rfl

theorem Event.reads_optional_latency (hm : m.latency = none)
    (value : Option Trace) (hl : ∀ t ∈ value, t.encodeRaw.length < 2 ^ 64) :
    Reads (nextField (Event.mergeField (depth + 1))) m
      (optionally value fun t => delimited 13 t.encodedLen t.encodeRaw)
      { m with latency := value } :=
  .optionally (f := fun v => { m with latency := v }) (by rw [← hm])
    fun t ht => Event.reads_latency hm t (hl t ht)

theorem Event.reads {e : Event} (h : e.Sized) :
    Reads (nextField (Event.mergeField (depth + 1))) {} e.encodeRaw e := by
  refine .append (uint32.reads_unlessDefault fun m v => { m with version := v }) ?_
  refine .append (bytes.reads_unlessDefault (fun m v => { m with id := v }) h.id) ?_
  refine .append (string.reads_unlessDefault (fun m v => { m with runtime := v }) h.runtime) ?_
  refine .append (string.reads_unlessDefault (fun m v => { m with strategy := v }) h.strategy) ?_
  refine .append (string.reads_unlessDefault (fun m v => { m with session := v }) h.session) ?_
  refine .append (string.reads_optionally (fun m v => { m with run := v }) h.run) ?_
  refine .append (string.reads_unlessDefault (fun m v => { m with entity := v }) h.entity) ?_
  refine .append (uint64.reads_unlessDefault fun m v => { m with revision := v }) ?_
  refine .append (uint64.reads_optionally fun m v => { m with sequence := v }) ?_
  refine .append (uint32.reads_unlessDefault fun m v => { m with priority := v }) ?_
  refine .append (bytes.reads_unlessDefault (fun m v => { m with kindJson := v }) h.kindJson) ?_
  refine .append (bytes.reads_unlessDefault (fun m v => { m with payloadJson := v })
    h.payloadJson) ?_
  refine (Event.reads_optional_latency rfl e.latency h.latency).append ?_
  refine .append (sint64.reads_unlessDefault fun m v => { m with seconds := v }) ?_
  exact uint32.reads_unlessDefault fun (m : Event) v => { m with nanos := v }

theorem length_lt_of_append {a b : List UInt8} {n : Nat} (h : (a ++ b).length < n) :
    a.length < n ∧ b.length < n := by
  rw [length_append] at h
  omega

theorem RefEvent.sized (h : (r.encodeRaw time).length < 2 ^ 64) : (r.schema time).Sized := by
  obtain ⟨-, h⟩ := length_lt_of_append h
  obtain ⟨hid, h⟩ := length_lt_of_append h
  obtain ⟨hr, h⟩ := length_lt_of_append h
  obtain ⟨hst, h⟩ := length_lt_of_append h
  obtain ⟨hse, h⟩ := length_lt_of_append h
  obtain ⟨he, h⟩ := length_lt_of_append h
  obtain ⟨hru, h⟩ := length_lt_of_append h
  obtain ⟨-, h⟩ := length_lt_of_append h
  obtain ⟨-, h⟩ := length_lt_of_append h
  obtain ⟨-, h⟩ := length_lt_of_append h
  obtain ⟨hkind, h⟩ := length_lt_of_append h
  obtain ⟨hp, h⟩ := length_lt_of_append h
  obtain ⟨ht, -⟩ := length_lt_of_append h
  refine ⟨(length_le_delimited ..).trans_lt hid, ?_, ?_, ?_, fun s hs => ?_, ?_,
    (bytes.length_le_encode ..).trans_lt hkind, (bytes.length_le_encode ..).trans_lt hp, ?_⟩
  · exact (string.length_le_unlessDefault 3 "" rfl _).trans_lt hr
  · exact (string.length_le_unlessDefault 4 "" rfl _).trans_lt hst
  · exact (string.length_le_unlessDefault 5 "" rfl _).trans_lt hse
  · exact (string.length_le_optionally 6 _ s hs).trans_lt hru
  · exact (string.length_le_unlessDefault 7 "" rfl _).trans_lt he
  · rintro _ ⟨⟩
    exact (length_le_delimited ..).trans_lt ht

theorem RefEvent.encode_id (r : RefEvent V D) :
    delimited 2 16 r.event.eventId.bytes = bytes.encode 2 r.event.eventId.bytes := by
  rw [Blob.encode, show (bytes.toBytes r.event.eventId.bytes).length = 16 from
    r.event.eventId.length_bytes]
  rfl

/-- The hand written encoding of an event is read as its schema message. -/
theorem RefEvent.reads (h : (r.schema time).Sized) :
    Reads (nextField (Event.mergeField (depth + 1))) {} (r.encodeRaw time) (r.schema time) := by
  refine (uint32.reads (fun v => { (_ : Event) with version := v }) _ (by decide)
    fun _ => rfl).append ?_
  rw [RefEvent.encode_id]
  refine (bytes.reads (fun v => { (_ : Event) with id := v }) _ (by decide) h.id
    fun _ => rfl).append ?_
  refine .append (string.reads_unlessDefault (fun m v => { m with runtime := v }) h.runtime) ?_
  refine .append (string.reads_unlessDefault (fun m v => { m with strategy := v }) h.strategy) ?_
  refine .append (string.reads_unlessDefault (fun m v => { m with session := v }) h.session) ?_
  refine .append (string.reads_unlessDefault (fun m v => { m with entity := v }) h.entity) ?_
  refine .append (string.reads_optionally (fun m v => { m with run := v }) h.run) ?_
  refine .append (uint64.reads_unlessDefault fun m v => { m with revision := v }) ?_
  refine .append (uint64.reads_optionally fun m v => { m with sequence := v }) ?_
  refine .append (uint32.reads_unlessDefault fun m v => { m with priority := v }) ?_
  refine (bytes.reads (fun v => { (_ : Event) with kindJson := v }) _ (by decide) h.kindJson
    fun _ => rfl).append ?_
  refine (bytes.reads (fun v => { (_ : Event) with payloadJson := v }) _ (by decide) h.payloadJson
    fun _ => rfl).append ?_
  refine (Event.reads_latency rfl r.trace (h.latency _ rfl)).append ?_
  refine .append (sint64.reads_unlessDefault fun m v => { m with seconds := v }) ?_
  exact uint32.reads_unlessDefault fun (m : Event) v => { m with nanos := v }

end AqEngine.LiveSync
