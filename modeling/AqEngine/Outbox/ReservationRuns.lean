import AqEngine.Outbox.Reservations
import AqEngine.Outbox.SafetyHandoff

namespace AqEngine.LiveSync

open Lib Fallible List Option

namespace OutboxStore

variable {V D : Type} {c : EventCodec V D} {s s' : OutboxStore V D} {initial : UInt64}
  {e : CloudEvent V D} {granted : Option (CloudEvent V D)}

theorem nextSequence_eq_ok {scope : Scope} {n : Nat} (h : s.nextSequence initial scope = .ok n) :
    n = max (s.publisherCursor scope) initial.toNat + 1 ∧ n ≤ i64MaxNat := by
  obtain ⟨-, h⟩ := refuseIf_bind_eq_ok.1 h
  obtain ⟨hb, h⟩ := refuseIf_bind_eq_ok.1 h
  cases h
  exact ⟨rfl, not_lt.1 hb⟩

theorem reserveEvent_cases (h : reserveEvent c initial s e = .ok (s', granted)) :
    (s' = s ∧ granted = none ∧ ∃ saved, s.reservations.lookup e.eventId = some saved ∧
      saved.fingerprint = c.fingerprint e) ∨
    ∃ n, s.reservations.lookup e.eventId = none ∧ s.events.lookup e.eventId = none ∧
      n = max (s.publisherCursor e.scope) initial.toNat + 1 ∧ n ≤ i64MaxNat ∧
      s' = s.grantSequence c e n ∧ granted = some (e.sequenced n) := by
  obtain ⟨-, h⟩ := refuseIf_bind_eq_ok.1 h
  cases hs : s.reservations.lookup e.eventId with
  | some saved =>
    simp only [hs] at h
    obtain ⟨hsa, h⟩ := refuseIf_bind_eq_ok.1 h
    cases h
    exact .inl ⟨rfl, rfl, saved, rfl, not_not.1 (not_or.1 hsa).1⟩
  | none =>
    simp only [hs] at h
    obtain ⟨ha, h⟩ := refuseIf_bind_eq_ok.1 h
    obtain ⟨n, hne, h⟩ := bind_eq_ok.1 h
    obtain ⟨-, h⟩ := refuseIf_bind_eq_ok.1 h
    obtain ⟨-, h⟩ := refuseIf_bind_eq_ok.1 h
    cases h
    obtain ⟨hn, hb⟩ := nextSequence_eq_ok hne
    exact .inr ⟨n, rfl, by simpa using ha, hn, hb, rfl, rfl⟩

theorem reserveEvent_kind (h : reserveEvent c initial s e = .ok (s', granted)) : e.kind ≠ .log := by
  obtain ⟨ha, -⟩ := refuseIf_bind_eq_ok.1 h
  exact fun hl => ha (.inr hl)

theorem reserveEach_tables {events fresh : List (CloudEvent V D)}
    (h : reserveEach c initial s events = .ok (s', fresh)) :
    s'.events = s.events ∧ s'.deadLetters = s.deadLetters ∧ s'.retained = s.retained ∧
      ∀ f ∈ fresh, f.kind ≠ .log := by
  induction events generalizing s fresh with
  | nil =>
    cases h
    exact ⟨rfl, rfl, rfl, by simp⟩
  | cons e events ih =>
    obtain ⟨⟨s₁, new⟩, hfi, h⟩ := bind_eq_ok.1 h
    obtain ⟨⟨s₂, rest⟩, hrest, h⟩ := bind_eq_ok.1 h
    cases h
    have hkind := reserveEvent_kind hfi
    obtain ⟨he, hl, hr, hk⟩ := ih hrest
    obtain ⟨rfl, rfl, -⟩ | ⟨n, -, -, -, -, rfl, rfl⟩ := reserveEvent_cases hfi
    · exact ⟨he, hl, hr, hk⟩
    refine ⟨he, hl, hr, fun f hf => ?_⟩
    obtain rfl | hf := mem_cons.1 hf
    · exact hkind
    · exact hk f hf

end OutboxStore

section

variable {V D : Type} {c : EventCodec V D} {s s' : OutboxStore V D}
  {granted : List (CloudEvent V D)}

def lastSequence (scope : Scope) (granted : List (CloudEvent V D)) : Nat :=
  (sequences scope granted).getLast?.getD 0

variable {n : Nat} {e : CloudEvent V D} {fresh events : List (CloudEvent V D)} {initial : UInt64}

theorem le_getLast_of_pairwise {l : List Nat} (h : l.Pairwise (· < ·)) (hn : n ∈ l) :
    n ≤ l.getLast?.getD 0 := by
  obtain rfl | ⟨front, last, rfl⟩ := eq_nil_or_concat l
  · cases hn
  rw [concat_eq_append] at *
  obtain ⟨-, -, hl⟩ := pairwise_append.1 h
  rw [getLast?_concat]
  obtain hn | hn := mem_append.1 hn
  · exact (hl n hn last (mem_singleton_self _)).le
  · exact (mem_singleton.1 hn).le

theorem sequence_sequenced (e : CloudEvent V D) (h : n ≤ i64MaxNat) :
    (e.sequenced n).sequence = n := by
  have hlt : n < 2 ^ 64 := by
    unfold i64MaxNat at h
    omega
  exact UInt64.toNat_ofNat_of_lt' hlt

theorem sequences_append (scope : Scope) (l₁ l₂ : List (CloudEvent V D)) :
    sequences scope (l₁ ++ l₂) = sequences scope l₁ ++ sequences scope l₂ := by
  simp [sequences]

theorem sequences_singleton (scope : Scope) (e : CloudEvent V D) :
    sequences scope [e] = if e.scope = scope then [e.sequence] else [] := by
  unfold sequences
  by_cases h : e.scope = scope <;> simp [h]

/-- The tables of reservations and cursors agree with the events that were
given a sequence so far, in the order in which they got it. -/
structure Ledger (c : EventCodec V D) (s : OutboxStore V D) (granted : List (CloudEvent V D)) :
    Prop where
  nodup : (granted.map (·.eventId)).Nodup
  reserved : ∀ id r, s.reservations.lookup id = some r ↔
    ∃ e ∈ granted, e.eventId = id ∧ e.reservation c = r
  increasing : ∀ scope, (sequences scope granted).Pairwise (· < ·)
  bounded : ∀ e ∈ granted, e.sequence ≤ i64MaxNat
  cursor : ∀ scope, (s.publisherCursors.lookup scope).getD 0 = lastSequence scope granted
  rows : ∀ id row n, s.events.lookup id = some row →
    row.payload.event.criticalSequence = some n →
    ∃ e ∈ granted, e.scope = row.payload.event.scope ∧ e.criticalSequence = some n

theorem Ledger.empty : Ledger c {} [] where
  nodup := nodup_nil
  reserved := by simp
  increasing _ := List.Pairwise.nil
  bounded := by simp
  cursor _ := rfl
  rows := by simp

theorem Ledger.le_lastSequence (h : Ledger c s granted) (he : e ∈ granted) :
    e.sequence ≤ lastSequence e.scope granted := by
  refine le_getLast_of_pairwise (h.increasing e.scope) (List.mem_map.2 ⟨e, ?_, rfl⟩)
  exact mem_filter.2 ⟨he, by simp⟩

/-- Retained payloads never run ahead of the cursor. -/
theorem Ledger.publisherCursor_eq (h : Ledger c s granted) (scope : Scope) :
    s.publisherCursor scope = lastSequence scope granted := by
  unfold OutboxStore.publisherCursor
  rw [h.cursor scope, Nat.max_eq_left]
  cases hm : (((s.events.entries.filter fun row => row.2.payload.event.scope = scope).filterMap
    fun row => row.2.payload.event.sequenceColumn).max?) with
  | none => exact Nat.zero_le _
  | some =>
    obtain ⟨⟨id, row⟩, hrow, hco⟩ := mem_filterMap.1 (max?_mem hm)
    obtain ⟨hme, hs⟩ := mem_filter.1 hrow
    obtain ⟨n, hn, rfl⟩ := map_eq_some_iff.1 hco
    obtain ⟨e, he, hes, hse⟩ := h.rows id row n (AList.mem_lookup_iff.2 hme) hn
    have hle := h.le_lastSequence he
    have hb := h.bounded e he
    rw [hes, of_decide_eq_true hs] at hle
    simp only [CloudEvent.sequence, hse] at hle hb
    have hc : n.toInt64.toInt = n.toNat := by
      change n.toBitVec.toInt = n.toBitVec.toNat
      change n.toBitVec.toNat ≤ 2 ^ 63 - 1 at hb
      rw [BitVec.toInt_eq_toNat_of_lt]
      omega
    rw [hc]
    exact hle

theorem lookup_grantSequence (e : CloudEvent V D) (n : Nat) (scope : Scope) :
    ((s.grantSequence c e n).publisherCursors.lookup scope).getD 0 =
      if e.scope = scope then max ((s.publisherCursors.lookup scope).getD 0) n
      else (s.publisherCursors.lookup scope).getD 0 := by
  unfold OutboxStore.grantSequence
  rw [Table.lookup_insert_ite]
  by_cases hs : e.scope = scope
  · subst hs
    cases s.publisherCursors.lookup e.scope <;> simp
  · rw [if_neg (Ne.symm hs), if_neg hs]

theorem Ledger.grant (h : Ledger c s granted) (hne : s.reservations.lookup e.eventId = none)
    (hl : lastSequence e.scope granted < n) (hn : n ≤ i64MaxNat) :
    Ledger c (s.grantSequence c e n) (granted ++ [e.sequenced n]) := by
  have hse := sequence_sequenced e hn
  have hf : ∀ e' ∈ granted, e'.eventId ≠ e.eventId := by
    intro e' he' heq
    have hso := (h.reserved e.eventId (e'.reservation c)).2 ⟨e', he', heq, rfl⟩
    rw [hne] at hso
    cases hso
  have hsequ : ∀ scope, sequences scope (granted ++ [e.sequenced n]) =
      if e.scope = scope then sequences scope granted ++ [n] else sequences scope granted := by
    intro scope
    rw [sequences_append, sequences_singleton, hse]
    change _ ++ (if e.scope = scope then _ else _) = _
    split <;> simp
  refine ⟨?_, fun id r => ?_, fun scope => ?_, fun e' he' => ?_, fun scope => ?_, ?_⟩
  · rw [map_append, nodup_append]
    refine ⟨h.nodup, nodup_singleton _, fun id hid _ hid' => ?_⟩
    obtain ⟨e', he', rfl⟩ := List.mem_map.1 hid
    rw [mem_singleton.1 hid']
    exact hf e' he'
  · have ht : (e.sequenced n).reservation c = ⟨e.scope, n, c.fingerprint e⟩ := by
      unfold CloudEvent.reservation
      rw [hse]
      rfl
    unfold OutboxStore.grantSequence
    rw [Table.lookup_insert_ite]
    by_cases hid : id = e.eventId
    · subst hid
      rw [if_pos rfl]
      constructor
      · intro hr
        cases hr
        exact ⟨e.sequenced n, by simp, rfl, ht⟩
      · rintro ⟨e', he', hid, rfl⟩
        obtain he' | he' := mem_append.1 he'
        · exact absurd hid (hf e' he')
        · rw [mem_singleton.1 he', ht]
    · rw [if_neg hid, h.reserved]
      constructor
      · rintro ⟨e', he', hke, hr⟩
        exact ⟨e', mem_append_left _ he', hke, hr⟩
      · rintro ⟨e', he', hke, hr⟩
        obtain he' | he' := mem_append.1 he'
        · exact ⟨e', he', hke, hr⟩
        rw [mem_singleton.1 he'] at hke
        exact absurd hke.symm hid
  · rw [hsequ]
    split
    · next hs =>
      subst hs
      refine pairwise_append.2 ⟨h.increasing _, pairwise_singleton _ _, ?_⟩
      intro m hm k hk
      rw [mem_singleton.1 hk]
      exact (le_getLast_of_pairwise (h.increasing _) hm).trans_lt hl
    · exact h.increasing scope
  · obtain he' | he' := mem_append.1 he'
    · exact h.bounded e' he'
    · rw [mem_singleton.1 he', hse]
      exact hn
  · rw [lookup_grantSequence, h.cursor, lastSequence, lastSequence, hsequ]
    split
    · next hs =>
      subst hs
      rw [getLast?_concat, getD_some, Nat.max_eq_right]
      exact hl.le
    · rfl
  · intro id row k hrow hk
    obtain ⟨e', he', hs, hsa⟩ := h.rows id row k hrow hk
    exact ⟨e', mem_append_left _ he', hs, hsa⟩

theorem Ledger.nodup_fresh (h : Ledger c s (granted ++ fresh)) : (fresh.map (·.eventId)).Nodup := by
  have hn := h.nodup
  rw [map_append, nodup_append] at hn
  exact hn.2.1

theorem Ledger.keeps {id : Uuid} {r : Reservation} (h : Ledger c s granted)
    (h' : Ledger c s' (granted ++ fresh)) (hr : s.reservations.lookup id = some r) :
    s'.reservations.lookup id = some r := by
  obtain ⟨e, he, hid, hr⟩ := (h.reserved id r).1 hr
  exact (h'.reserved id r).2 ⟨e, mem_append_left _ he, hid, hr⟩

theorem lastSequence_concat (scope : Scope) (e : CloudEvent V D) :
    lastSequence scope (granted ++ [e]) =
      if e.scope = scope then e.sequence else lastSequence scope granted := by
  unfold lastSequence
  rw [sequences_append, sequences_singleton]
  split
  · rw [getLast?_concat, getD_some]
  · rw [append_nil]

structure Grants (c : EventCodec V D) (initial : UInt64) (granted : List (CloudEvent V D))
    (s : OutboxStore V D) (events : List (CloudEvent V D)) (s' : OutboxStore V D)
    (fresh : List (CloudEvent V D)) : Prop where
  ledger : Ledger c s' (granted ++ fresh)
  answered : ∀ e ∈ events, ∃ r, s'.reservations.lookup e.eventId = some r ∧
    r.fingerprint = c.fingerprint e
  sublist : (fresh.map (·.eventId)).Sublist (events.map (·.eventId))
  offered : ∀ f ∈ fresh, ∃ e ∈ events, ∃ n, f = e.sequenced n
  unknown : ∀ f ∈ fresh, s.reservations.lookup f.eventId = none
  consecutive : ∀ scope, initial.toNat ≤ lastSequence scope granted →
    ∃ k, sequences scope fresh = List.range' (lastSequence scope granted + 1) k

structure Reserves (c : EventCodec V D) (initial : UInt64) (granted : List (CloudEvent V D))
    (s : OutboxStore V D) (events : List (CloudEvent V D)) (s' : OutboxStore V D)
    (fresh : List (CloudEvent V D)) : Prop extends Grants c initial granted s events s' fresh where
  events_eq : s'.events = s.events
  absent : ∀ f ∈ fresh, s.events.lookup f.eventId = none

section

variable (h : Ledger c s granted)
include h

theorem Reserves.nil : Reserves c initial granted s [] s [] where
  ledger := by rwa [append_nil]
  events_eq := rfl
  answered := by simp
  sublist := List.Sublist.refl _
  offered := by simp
  unknown := by simp
  consecutive _ _ := ⟨0, rfl⟩
  absent := by simp

theorem Reserves.duplicate {saved : Reservation}
    (hsa : s.reservations.lookup e.eventId = some saved)
    (hs : saved.fingerprint = c.fingerprint e)
    (hrest : Reserves c initial granted s events s' fresh) :
    Reserves c initial granted s (e :: events) s' fresh where
  __ := hrest
  answered e' he' := by
    obtain rfl | he' := mem_cons.1 he'
    · exact ⟨saved, h.keeps hrest.ledger hsa, hs⟩
    · exact hrest.answered e' he'
  sublist := hrest.sublist.cons _
  offered f hf := by
    obtain ⟨e', he', n, hn⟩ := hrest.offered f hf
    exact ⟨e', mem_cons_of_mem _ he', n, hn⟩

theorem Reserves.unseen
    (hnew : s.reservations.lookup e.eventId = none) (ha : s.events.lookup e.eventId = none)
    (hn : n = max (s.publisherCursor e.scope) initial.toNat + 1) (hb : n ≤ i64MaxNat)
    (hrest : Ledger c (s.grantSequence c e n) (granted ++ [e.sequenced n]) →
      Reserves c initial (granted ++ [e.sequenced n]) (s.grantSequence c e n) events s' fresh) :
    Reserves c initial granted s (e :: events) s' (e.sequenced n :: fresh) := by
  have hcu := h.publisherCursor_eq e.scope
  have hla : lastSequence e.scope granted < n := by omega
  have hl := h.grant hnew hla hb
  replace hrest := hrest hl
  have hap : granted ++ [e.sequenced n] ++ fresh = granted ++ (e.sequenced n :: fresh) := by
    simp
  refine ⟨⟨hap ▸ hrest.ledger, fun e' he' => ?_, hrest.sublist.cons_cons _, fun f hf => ?_,
    fun f hf => ?_, fun scope hi => ?_⟩, hrest.events_eq, fun f hf => ?_⟩
  · obtain rfl | he' := mem_cons.1 he'
    · exact ⟨_, hl.keeps hrest.ledger (AList.lookup_insert _), rfl⟩
    · exact hrest.answered e' he'
  · obtain rfl | hf := mem_cons.1 hf
    · exact ⟨e, mem_cons_self, n, rfl⟩
    · obtain ⟨e', he', k, hk⟩ := hrest.offered f hf
      exact ⟨e', mem_cons_of_mem _ he', k, hk⟩
  · obtain rfl | hf := mem_cons.1 hf
    · exact hnew
    · have hu := hrest.unknown f hf
      unfold OutboxStore.grantSequence at hu
      rw [Table.lookup_insert_ite] at hu
      split at hu
      · cases hu
      · exact hu
  · have hse := sequence_sequenced e hb
    have hc : sequences scope (e.sequenced n :: fresh) =
        (if e.scope = scope then [n] else []) ++ sequences scope fresh := by
      rw [← singleton_append, sequences_append, sequences_singleton, hse]
      rfl
    have hne := hrest.consecutive scope
    rw [lastSequence_concat, hse] at hne
    change _ ≤ (if e.scope = scope then _ else _) → ∃ k, _ = List.range'
      ((if e.scope = scope then _ else _) + 1) k at hne
    rw [hc]
    by_cases hs : e.scope = scope
    · subst hs
      simp only [if_pos] at hne ⊢
      obtain ⟨k, hk⟩ := hne (by omega)
      have heq : n = lastSequence e.scope granted + 1 := by omega
      exact ⟨k + 1, by rw [hk, heq, List.range'_succ, singleton_append]⟩
    · simp only [if_neg hs] at hne ⊢
      exact hne hi
  · obtain rfl | hf := mem_cons.1 hf
    · exact ha
    · exact hrest.absent f hf

theorem Ledger.reserveEach
    (hr : OutboxStore.reserveEach c initial s events = .ok (s', fresh)) :
    Reserves c initial granted s events s' fresh := by
  induction events generalizing s granted fresh with
  | nil =>
    cases hr
    exact .nil h
  | cons e events ih =>
    obtain ⟨⟨s₁, new⟩, hf, hr⟩ := bind_eq_ok.1 hr
    obtain ⟨⟨s₂, rest⟩, hrest, hr⟩ := bind_eq_ok.1 hr
    cases hr
    obtain ⟨rfl, rfl, saved, hsa, hs⟩ | ⟨n, hne, ha, hn, hb, rfl, rfl⟩ :=
      OutboxStore.reserveEvent_cases hf
    · exact .duplicate h hsa hs (ih h hrest)
    · exact .unseen h hne ha hn hb fun hl => ih hl hrest

/-- What a batch needs to get its sequences: critical events that bring none
of their own, identities that are new or reserved for the same content, and
numbers left. -/
structure Grantable (c : EventCodec V D) (initial : UInt64) (granted : List (CloudEvent V D))
    (s : OutboxStore V D) (events : List (CloudEvent V D)) : Prop where
  critical : ∀ e ∈ events, e.priority = .critical ∧ e.kind ≠ .log ∧ e.criticalSequence = none
  same : ∀ e ∈ events, ∀ e₀ ∈ granted ++ events, e₀.eventId = e.eventId →
    c.fingerprint e₀ = c.fingerprint e
  unstored : ∀ e ∈ events, s.reservations.lookup e.eventId = none →
    s.events.lookup e.eventId = none
  room : ∀ e ∈ events, max (s.publisherCursor e.scope) initial.toNat + events.length ≤ i64MaxNat

/-- The last number of a scope is above all that were given out in it. -/
theorem Ledger.sequence_unused {scope : Scope} {n : Nat} (hn : s.publisherCursor scope < n) :
    ¬ (s.reservations.entries.any fun row =>
      row.2.scope == scope && row.2.sequence == n) = true := by
  rw [List.any_eq_true]
  rintro ⟨⟨id, row⟩, hrow, heq⟩
  rw [Bool.and_eq_true, beq_iff_eq, beq_iff_eq] at heq
  obtain ⟨e₀, he₀, -, rfl⟩ := (h.reserved id row).1 (AList.mem_lookup_iff.2 hrow)
  have hle := h.le_lastSequence he₀
  have hscope : e₀.scope = scope := heq.1
  have hsequence : e₀.sequence = n := heq.2
  rw [hscope, ← h.publisherCursor_eq] at hle
  omega

omit h in
theorem Grantable.skip (hg : Grantable c initial granted s (e :: events)) :
    Grantable c initial granted s events where
  critical := (forall_mem_cons.1 hg.critical).2
  same := fun e' he' e₀ he₀ =>
    hg.same e' (mem_cons_of_mem _ he') e₀
      (((Sublist.refl _).append (sublist_cons_self _ _)).subset he₀)
  unstored := fun e' he' => hg.unstored e' (mem_cons_of_mem _ he')
  room := fun e' he' => by
    have hr := hg.room e' (mem_cons_of_mem _ he')
    rw [length_cons] at hr
    omega

theorem Grantable.grant {n : Nat} (hg : Grantable c initial granted s (e :: events))
    (hl : Ledger c (s.grantSequence c e n) (granted ++ [e.sequenced n])) (hb : n ≤ i64MaxNat)
    (hn : n = max (s.publisherCursor e.scope) initial.toNat + 1) :
    Grantable c initial (granted ++ [e.sequenced n]) (s.grantSequence c e n) events where
  critical := (forall_mem_cons.1 hg.critical).2
  same := fun e' he' e₀ he₀ hid => by
    have hsame := hg.same e' (mem_cons_of_mem _ he')
    rw [append_assoc, singleton_append] at he₀
    obtain he₀ | he₀ := mem_append.1 he₀
    · exact hsame e₀ (mem_append_left _ he₀) hid
    obtain rfl | he₀ := mem_cons.1 he₀
    · exact hsame e (mem_append_right _ mem_cons_self) hid
    · exact hsame e₀ (mem_append_right _ (mem_cons_of_mem _ he₀)) hid
  unstored := fun e' he' hun => by
    refine hg.unstored e' (mem_cons_of_mem _ he') ?_
    rw [OutboxStore.grantSequence, Table.lookup_insert_ite] at hun
    split at hun
    · cases hun
    · exact hun
  room := fun e' he' => by
    have hr := hg.room e' (mem_cons_of_mem _ he')
    rw [length_cons, h.publisherCursor_eq] at hr
    rw [hl.publisherCursor_eq, lastSequence_concat, sequence_sequenced e hb]
    change max (if e.scope = e'.scope then _ else _) _ + _ ≤ _
    split
    · next hscope =>
      rw [← hscope, ← h.publisherCursor_eq] at hr
      omega
    · omega

theorem Grantable.reserveEvent (hg : Grantable c initial granted s (e :: events)) :
    ∃ s' new, OutboxStore.reserveEvent c initial s e = .ok (s', new) ∧
      Ledger c s' (granted ++ new.toList) ∧ Grantable c initial (granted ++ new.toList) s' events ∧
      s'.physicalBudget = s.physicalBudget := by
  obtain ⟨hcritical, hlog, hnone⟩ := hg.critical e mem_cons_self
  rw [OutboxStore.reserveEvent, refuseIf_bind_of_not (not_or.2 ⟨not_not.2 hcritical, hlog⟩)]
  cases hsaved : s.reservations.lookup e.eventId with
  | some saved =>
    obtain ⟨e₀, he₀, hid, rfl⟩ := (h.reserved _ _).1 hsaved
    have hsame := hg.same e mem_cons_self e₀ (mem_append_left _ he₀) hid
    refine ⟨s, none, refuseIf_bind_of_not ?_, by rwa [toList_none, append_nil],
      by rw [toList_none, append_nil]; exact hg.skip, rfl⟩
    rw [hnone]
    exact not_or.2 ⟨not_not.2 hsame, Bool.false_ne_true⟩
  | none =>
    have hroom := hg.room e mem_cons_self
    rw [length_cons] at hroom
    have hb : max (s.publisherCursor e.scope) initial.toNat + 1 ≤ i64MaxNat := by omega
    set n := max (s.publisherCursor e.scope) initial.toNat + 1 with hn
    have hnext : s.nextSequence initial e.scope = .ok n := by
      rw [OutboxStore.nextSequence, refuseIf_bind_of_not (by omega),
        refuseIf_bind_of_not (by omega)]
    have hown : ¬ e.criticalSequence.any (fun k => k != UInt64.ofNat n) = true := by
      rw [hnone]
      exact Bool.false_ne_true
    have hcursor := h.publisherCursor_eq e.scope
    have hl := h.grant hsaved (by omega) hb
    refine ⟨s.grantSequence c e n, some (e.sequenced n), ?_, hl, Grantable.grant h hg hl hb hn, rfl⟩
    rw [refuseIf_bind_of_not (by rw [hg.unstored e mem_cons_self hsaved]; exact nofun), hnext,
      bind_ok, refuseIf_bind_of_not hown, refuseIf_bind_of_not (h.sequence_unused (by omega))]

theorem Grantable.reserveEach (hg : Grantable c initial granted s events) :
    ∃ s' fresh, OutboxStore.reserveEach c initial s events = .ok (s', fresh) ∧
      s'.physicalBudget = s.physicalBudget := by
  induction events generalizing s granted with
  | nil => exact ⟨s, [], rfl, rfl⟩
  | cons e events ih =>
    obtain ⟨s₁, new, hfirst, h₁, hg₁, hb₁⟩ := hg.reserveEvent h
    obtain ⟨s', fresh, hrest, hb⟩ := ih h₁ hg₁
    exact ⟨s', _, bind_eq_ok.2 ⟨_, hfirst, bind_eq_ok.2 ⟨_, hrest, rfl⟩⟩, hb.trans hb₁⟩

/-- Rows of sequenced events come only from those that were granted. -/
theorem Ledger.edits {A : CloudEvent V D → Prop} {R Q : Prop}
    (hA : ∀ e, A e → e.criticalSequence = none ∨ e ∈ granted)
    (hed : OutboxStore.Edits c A R Q s s') : Ledger c s' granted := by
  obtain ⟨hr, hc⟩ := hed.reserved
  refine ⟨h.nodup, hr ▸ h.reserved, h.increasing, h.bounded, hc ▸ h.cursor,
    fun id _ n hrow hn => ?_⟩
  obtain ⟨old, hold, hp, -⟩ | ⟨e, nowUs, he, -, hen⟩ := hed.origin hrow
  · rw [hp] at hn ⊢
    exact h.rows id old n hold hn
  unfold EventCodec.encodeWithLocalCommit EventCodec.encode at hen
  split at hen
  · cases hen
  injection hen with hp
  rw [← hp] at hn ⊢
  obtain hno | hm := hA e he
  · change e.criticalSequence = some n at hn
    rw [hno] at hn
    cases hn
  · exact ⟨e, hm, rfl, hn⟩

end

end

def sampleMoment (n : Int) : Moment := ⟨fun _ => n, fun _ => n, n, n, 0⟩

def sampleEvent (n : UInt8) : CloudEvent Unit Int where
  protocolVersion := 1
  eventId := SafetyStores.sampleId n
  runtimeId := "runtime"
  strategyId := "strategy"
  liveSessionId := "session"
  runId := none
  entityId := "entity"
  entityRevision := 1
  criticalSequence := none
  priority := .audit
  kind := .strategyEvent
  payload := ()
  latency := {}
  createdAt := 0

def sampleUnsent (n : UInt8) : CloudEvent Unit Int :=
  { sampleEvent n with priority := .critical }

inductive ReservationAction (V D : Type) where
  | reserve (m : Moment) (events : List (CloudEvent V D)) (initial : UInt64)
      (limit : Option Nat) (fault : Option String)
  | reject (m : Moment) (e : CloudEvent V D) (reason : String) (id : Uuid)
  | background (m : Moment) (events : List (CloudEvent V D)) (limit : Option Nat)
  | commit (m : Moment) (ids : List Uuid) (through : Option UInt64)
  | retry (m : Moment) (ids : List Uuid) (delaySeconds : Nat) (error : String)
  | deadLetter (m : Moment) (id : Uuid) (reason : String)
  | prune (m : Moment) (retentionUs : Int) (facts : List SafetyKey) (ids : List Uuid)
  | reopen (nowUs : Int) (budget : Option PhysicalCaptureBudget)

structure ReservationHistory (V D : Type) where
  store : OutboxStore V D := {}
  granted : List (CloudEvent V D) := []

namespace ReservationHistory

open OutboxStore

variable {V D : Type} [DecidableEq V] [DecidableEq D] (c : EventCodec V D)

/-- Only critical events keep a sequence on their way into the queue. -/
def unsequenced (events : List (CloudEvent V D)) : List (CloudEvent V D) :=
  (events.filter fun e => e.priority != .critical).map fun e => { e with criticalSequence := none }

def reserve (s : OutboxStore V D) (m : Moment) (events : List (CloudEvent V D)) (initial : UInt64)
    (limit : Option Nat) (fault : Option String) :
    OutboxStore V D × Except OutboxStoreError (List (CloudEvent V D)) :=
  match limit with
  | none => s.reservePublisherEvents c m events initial fault
  | some limit => s.reservePublisherEventsWithCapacity c m events initial limit fault

def reopened (s : OutboxStore V D) (nowUs : Int) (budget : Option PhysicalCaptureBudget) :
    OutboxStore V D :=
  let s := s.discardTerminalLogEvents.requeueRetryableDeadLetters nowUs
  { s.dropRequeuedDeadLetters.resetPendingContentionBackoff nowUs with physicalBudget := budget }

def perform (h : ReservationHistory V D) : ReservationAction V D → ReservationHistory V D
  | .reserve m events initial limit fault =>
    let (s, answer) := reserve c h.store m events initial limit fault
    ⟨s, h.granted ++ answer.toOption.getD []⟩
  | .reject m e reason id => { h with store := (h.store.rejectPublisherEvent c m e reason id).1 }
  | .background m events none =>
    { h with store := (h.store.insertEvents c m (unsequenced events)).1 }
  | .background m events (some limit) =>
    { h with store := (h.store.captureEventsWithCapacity c m (unsequenced events) limit).1 }
  | .commit m ids through => { h with store := (h.store.markRemoteCommitted m ids through).1 }
  | .retry m ids delay error => { h with store := (h.store.scheduleRetry m ids delay error).1 }
  | .deadLetter m id reason => { h with store := (h.store.moveToDeadLetter m id reason).1 }
  | .prune m retention facts ids =>
    { h with store := (h.store.pruneCommitted m retention facts ids).1 }
  | .reopen nowUs budget => { h with store := reopened h.store nowUs budget }

def run (as : List (ReservationAction V D)) : ReservationHistory V D := as.foldl (perform c) {}

/-- No batch of `bs`, which follow `as`, starts above the cursor of the scope. -/
def Modest (scope : Scope) (as bs : List (ReservationAction V D)) : Prop :=
  ∀ front m events initial limit fault rest,
    bs = front ++ .reserve m events initial limit fault :: rest →
    initial.toNat ≤ (run c (as ++ front)).store.publisherCursor scope

variable {c} {s s' : OutboxStore V D} {granted events fresh : List (CloudEvent V D)} {m : Moment}
  {initial : UInt64} {capacity limit : Option Nat} {fault : Option String}

/-- A batch that succeeds: its reservations, and the rows of the new ones. -/
structure Stored (c : EventCodec V D) (m : Moment) (initial : UInt64)
    (granted : List (CloudEvent V D)) (s : OutboxStore V D) (events : List (CloudEvent V D))
    (s' : OutboxStore V D) (fresh : List (CloudEvent V D)) : Prop
    extends Grants c initial granted s events s' fresh where
  rows : ∀ f ∈ fresh, ∃ payload, c.encodeWithLocalCommit f (m.writtenAtUs f.eventId) = .ok payload ∧
    s'.events.lookup f.eventId = some
      ⟨payload, .pending, 0, m.writtenAtUs f.eventId, m.writtenAtUs f.eventId, none, none⟩

section

omit [DecidableEq V] [DecidableEq D]

variable {e : CloudEvent V D} {A : CloudEvent V D → Prop} {R Q : Prop}

section

variable (h : Stored c m initial granted s events s' fresh)
include h

theorem Stored.reserved {f : CloudEvent V D}
    (hf : f ∈ fresh) : s'.reservations.lookup f.eventId = some (f.reservation c) :=
  (h.ledger.reserved _ _).2 ⟨f, mem_append_right _ hf, rfl, rfl⟩

theorem Stored.mem_fresh
    (hl : Ledger c s granted) (id : Uuid) :
    id ∈ fresh.map (·.eventId) ↔ id ∈ events.map (·.eventId) ∧ s.reservations.lookup id = none := by
  constructor
  · intro hid
    obtain ⟨f, hf, rfl⟩ := List.mem_map.1 hid
    exact ⟨h.sublist.subset hid, h.unknown f hf⟩
  · rintro ⟨hid, hn⟩
    obtain ⟨e, he, rfl⟩ := List.mem_map.1 hid
    obtain ⟨r, hr, -⟩ := h.answered e he
    obtain ⟨f, hf, hid, -⟩ := (h.ledger.reserved _ _).1 hr
    obtain hf | hf := mem_append.1 hf
    · rw [(hl.reserved _ _).2 ⟨f, hf, hid, rfl⟩] at hn
      cases hn
    · exact List.mem_map.2 ⟨f, hf, hid⟩

theorem Stored.publisherCursor_eq
    (hl : Ledger c s granted) (scope : Scope) :
    s'.publisherCursor scope = (sequences scope fresh).getLast?.getD (s.publisherCursor scope) := by
  rw [h.ledger.publisherCursor_eq, hl.publisherCursor_eq]
  unfold lastSequence
  rw [sequences_append, getLast?_append]
  cases (sequences scope fresh).getLast? <;> rfl

/-- Events of one identity in a batch, or granted before it, are the same. -/
theorem Stored.fingerprint_eq {e₀ : CloudEvent V D} (he : e ∈ events)
    (he₀ : e₀ ∈ granted ++ events) (hid : e₀.eventId = e.eventId) :
    c.fingerprint e₀ = c.fingerprint e := by
  obtain ⟨r, hr, hs⟩ := h.answered e he
  obtain he₀ | he₀ := mem_append.1 he₀
  · have hsa := (h.ledger.reserved e.eventId (e₀.reservation c)).2
      ⟨e₀, mem_append_left _ he₀, hid, rfl⟩
    rw [hr] at hsa
    cases hsa
    exact hs
  · obtain ⟨r₀, hr₀, hs₀⟩ := h.answered e₀ he₀
    rw [hid, hr] at hr₀
    cases hr₀
    exact hs₀.symm.trans hs

end

theorem ensureCaptureCapacitySchema_tables (s : OutboxStore V D) :
    ∃ retained, s.ensureCaptureCapacitySchema = { s with retained := retained } := by
  unfold ensureCaptureCapacitySchema
  split
  · exact ⟨s.retained, rfl⟩
  · exact ⟨_, rfl⟩

theorem edits_rejectPublisherEvent {reason : String} {id : Uuid} :
    Edits c A R Q s (s.rejectPublisherEvent c m e reason id).1 := by
  unfold rejectPublisherEvent
  split
  · exact .refl s
  refine edits_conclude fun _ a h => ?_
  split at h
  · cases h
    exact .refl _
  next hn =>
  obtain ⟨-, -, h⟩ := bind_eq_ok.1 h
  cases h
  exact (Edit.putLetter _ hn).edits

theorem edits_reopened (s : OutboxStore V D) (nowUs : Int)
    (budget : Option PhysicalCaptureBudget) (hr : Q) :
    Edits c A R Q s (reopened s nowUs budget) :=
  (edits_discardTerminalLogEvents s).trans ((edits_requeueRetryableDeadLetters _ nowUs hr).trans
      ((edits_dropRequeuedDeadLetters _).trans ((edits_resetPendingContentionBackoff _ nowUs).trans
          (Edit.aside _ _ _ _).edits)))

theorem criticalSequence_of_unsequenced
    (h : Offered (unsequenced events) e) : e.criticalSequence = none := by
  obtain ⟨e', -, rfl⟩ := List.mem_map.1 h.1
  rfl

end

theorem stored_of_transaction (h : Ledger c s granted)
    (hr : s.reservePublisherEventsInTransaction c m events initial capacity = .ok (s', fresh)) :
    Stored c m initial granted s events s' fresh := by
  obtain ⟨⟨s₁, new⟩, hre, hr⟩ := bind_eq_ok.1 hr
  obtain ⟨⟨s₂, inserted⟩, ha, hr⟩ := bind_eq_ok.1 hr
  cases hr
  have hb := h.reserveEach hre
  have hed := edits_admitEvents (R := True) (Q := True) ha
  have hl := hb.ledger.edits (fun e he => .inr (mem_append_right _ he.1)) hed
  have hro := insertEach_fresh (admitEvents_eq_ok ha).1 hl.nodup_fresh fun e he =>
    (congrArg (AList.lookup e.eventId) hb.events_eq).trans (hb.absent e he)
  refine ⟨{ hb with ledger := hl, answered := ?_ }, hro⟩
  rw [hed.reserved.1]
  exact hb.answered

theorem stored_of_optional (h : Ledger c s granted)
    (hr : (s.reservePublisherEventsWithOptionalCapacity c m events initial capacity fault).2 =
      .ok fresh) :
    Stored c m initial granted s events
      (s.reservePublisherEventsWithOptionalCapacity c m events initial capacity fault).1 fresh := by
  unfold reservePublisherEventsWithOptionalCapacity at hr ⊢
  simp only at hr ⊢
  split at hr
  · next he =>
    cases hr
    rw [List.isEmpty_iff.1 he]
    exact ⟨(Reserves.nil h).toGrants, by simp⟩
  · next he =>
    rw [if_neg he]
    split at hr
    · cases hr
    next hc =>
    rw [if_neg hc]
    have hre := conclude_eq_ok hr
    cases fault with
    | some => cases hre
    | none => exact stored_of_transaction h hre

theorem stored_of_reserve (h : Ledger c s granted)
    (hr : (reserve c s m events initial limit fault).2 = .ok fresh) :
    Stored c m initial granted s events (reserve c s m events initial limit fault).1 fresh := by
  cases limit with
  | none => exact stored_of_optional h hr
  | some limit =>
    obtain ⟨retained, heq⟩ := ensureCaptureCapacitySchema_tables s
    have hl : Ledger c s.ensureCaptureCapacitySchema granted := by
      rw [heq]
      exact { h with }
    have hs := stored_of_optional hl hr
    refine { hs with unknown := fun f hf => ?_ }
    have hu := hs.unknown f hf
    rw [heq] at hu
    exact hu

/-- The event can be written at any time, and tells of no safety fact. -/
def Plain (c : EventCodec V D) (e : CloudEvent V D) : Prop :=
  SafetyObservation.fromEvent c e = none ∧
    ∀ atUs, ∃ payload, c.encodeWithLocalCommit e atUs = .ok payload

theorem insertEach_of_plain (exact : Bool) (clock : Uuid → Int) (he : ∀ e ∈ events, Plain c e)
    (hn : (events.map (·.eventId)).Nodup)
    (ha : ∀ e ∈ events, s.events.lookup e.eventId = none) :
    ∃ s' inserted, insertEach c exact clock s events = .ok (s', inserted) ∧
      s'.physicalBudget = s.physicalBudget := by
  induction events generalizing s with
  | nil => exact ⟨s, 0, rfl, rfl⟩
  | cons e events ih =>
    obtain ⟨⟨hnone, hcodec⟩, hplain⟩ := forall_mem_cons.1 he
    obtain ⟨hnew, hn⟩ := nodup_cons.1 hn
    obtain ⟨habsent, ha⟩ := forall_mem_cons.1 ha
    obtain ⟨payload, hpayload⟩ := hcodec (clock e.eventId)
    have hfirst : insertEvent c exact (clock e.eventId) s e = .ok ({ s.addEvent e.eventId
        ⟨payload, .pending, 0, clock e.eventId, clock e.eventId, none, none⟩ with
          safety := s.safety }, true) := by
      rw [insertEvent, hpayload, bind_ok, habsent]
      simp only [SafetyTable.recordSafetyInTransaction, hnone, bind_ok]
    obtain ⟨s', inserted, hrest, hb⟩ := ih (s := { s.addEvent e.eventId
        ⟨payload, .pending, 0, clock e.eventId, clock e.eventId, none, none⟩ with
          safety := s.safety }) hplain hn fun e' he' =>
      (AList.lookup_insert_ne fun heq => hnew (List.mem_map.2 ⟨e', he', heq⟩)).trans (ha e' he')
    exact ⟨s', _, bind_eq_ok.2 ⟨_, hfirst, bind_eq_ok.2 ⟨_, hrest, rfl⟩⟩, hb⟩

theorem reserve_of_grantable (h : Ledger c s granted) (hg : Grantable c initial granted s events)
    (hp : ∀ e ∈ events, ∀ n, Plain c (e.sequenced n)) (hb : s.physicalBudget = none) :
    ∃ fresh, (reserve c s m events initial none none).2 = .ok fresh := by
  obtain ⟨s₁, fresh, heach, hb₁⟩ := hg.reserveEach h
  have hr := h.reserveEach heach
  obtain ⟨s₂, inserted, hin, hb₂⟩ := insertEach_of_plain false m.writtenAtUs
    (fun f hf => by obtain ⟨e, he, n, rfl⟩ := hr.offered f hf; exact hp e he n)
    hr.ledger.nodup_fresh
    fun f hf => (congrArg (AList.lookup f.eventId) hr.events_eq).trans (hr.absent f hf)
  have hphysical : s₂.checkPhysicalCapture m = .ok () := by
    rw [checkPhysicalCapture, hb₂.trans (hb₁.trans hb)]
  have hadmit : s₁.admitEvents c m fresh none false = .ok (s₂, inserted) := by
    simp only [admitEvents, insertEventsWithPayloadCheck, hin, bind_ok, hphysical, ite_self]
  rw [reserve, reservePublisherEvents, reservePublisherEventsWithOptionalCapacity]
  simp only [effectiveLimit, hb]
  split_ifs with hempty hmany
  · exact ⟨[], rfl⟩
  · exact absurd hmany.1 Bool.false_ne_true
  · refine ⟨fresh, ?_⟩
    simp only [reservePublisherEventsInTransaction, heach, bind_ok, hadmit, conclude]

theorem reserve_error {error : OutboxStoreError}
    (hr : (reserve c s m events initial limit fault).2 = .error error) :
    ∃ gaps retained, (reserve c s m events initial limit fault).1 =
      { s with gaps := gaps, retained := retained } := by
  have ho : ∀ (s : OutboxStore V D) capacity,
      (s.reservePublisherEventsWithOptionalCapacity c m events initial capacity fault).2 =
        .error error →
      ∃ gaps, (s.reservePublisherEventsWithOptionalCapacity c m events initial capacity fault).1 =
        { s with gaps := gaps } := by
    intro s capacity hr
    unfold reservePublisherEventsWithOptionalCapacity at hr ⊢
    simp only at hr ⊢
    split at hr
    · cases hr
    next he =>
    rw [if_neg he]
    split at hr
    · next hc =>
      rw [if_pos hc]
      exact ⟨s.gaps, rfl⟩
    next hc =>
    rw [if_neg hc]
    exact conclude_eq_error hr
  cases limit with
  | none =>
    obtain ⟨gaps, hg⟩ := ho s none hr
    exact ⟨gaps, s.retained, hg⟩
  | some limit =>
    obtain ⟨gaps, hg⟩ := ho s.ensureCaptureCapacitySchema (some limit) hr
    obtain ⟨retained, heq⟩ := ensureCaptureCapacitySchema_tables s
    rw [heq] at hg
    refine ⟨gaps, retained, ?_⟩
    unfold reserve reservePublisherEventsWithCapacity
    rw [heq]
    exact hg

theorem edits_perform (h : ReservationHistory V D) {a : ReservationAction V D}
    (ha : ∀ m events initial limit fault, a ≠ .reserve m events initial limit fault) :
    (perform c h a).granted = h.granted ∧
      Edits c (fun e => e.criticalSequence = none) True True h.store (perform c h a).store := by
  cases a with
  | reserve m events initial limit fault => exact absurd rfl (ha m events initial limit fault)
  | reject => exact ⟨rfl, edits_rejectPublisherEvent⟩
  | background m events limit =>
    cases limit with
    | none =>
      refine ⟨rfl, Edits.mono ?_ edits_insertEvents⟩
      exact fun _ he => criticalSequence_of_unsequenced he.1
    | some limit =>
      refine ⟨rfl, Edits.mono ?_ edits_insertBoundedEvents⟩
      exact fun _ he => criticalSequence_of_unsequenced he.1
  | commit => exact ⟨rfl, edits_markRemoteCommitted⟩
  | retry => exact ⟨rfl, edits_scheduleRetry⟩
  | deadLetter => exact ⟨rfl, edits_moveToDeadLetter (.inl trivial)⟩
  | prune => exact ⟨rfl, edits_pruneCommitted⟩
  | reopen nowUs budget =>
    simp only [perform, true_and]
    exact edits_reopened h.store nowUs budget trivial

def grants (c : EventCodec V D) (h : ReservationHistory V D) :
    ReservationAction V D → List (CloudEvent V D)
  | .reserve m events initial limit fault =>
    (reserve c h.store m events initial limit fault).2.toOption.getD []
  | _ => []

theorem granted_perform (h : ReservationHistory V D) (a : ReservationAction V D) :
    (perform c h a).granted = h.granted ++ grants c h a := by
  cases a with
  | reserve => rfl
  | background m _ limit => cases limit <;> simp only [perform, grants, append_nil]
  | _ => simp only [perform, grants, append_nil]

variable {h : ReservationHistory V D}

theorem grants_ok (ha : (reserve c h.store m events initial limit fault).2 = .ok fresh) :
    grants c h (.reserve m events initial limit fault) = fresh := by
  simp [grants, ha, Except.toOption]

theorem grants_error {error : OutboxStoreError}
    (ha : (reserve c h.store m events initial limit fault).2 = .error error) :
    grants c h (.reserve m events initial limit fault) = [] := by
  simp [grants, ha, Except.toOption]

theorem ledger_perform {h : ReservationHistory V D} (hl : Ledger c h.store h.granted)
    (a : ReservationAction V D) :
    Ledger c (perform c h a).store (perform c h a).granted := by
  by_cases ha : ∀ m events initial limit fault, a ≠ .reserve m events initial limit fault
  · obtain ⟨hg, he⟩ := edits_perform h ha
    rw [hg]
    exact hl.edits (fun _ => .inl) he
  push Not at ha
  obtain ⟨m, events, initial, limit, fault, rfl⟩ := ha
  rw [granted_perform]
  change Ledger c (reserve c h.store m events initial limit fault).1 _
  cases han : (reserve c h.store m events initial limit fault).2 with
  | ok =>
    rw [grants_ok han]
    exact (stored_of_reserve hl han).ledger
  | error error =>
    obtain ⟨gaps, retained, heq⟩ := reserve_error han
    rw [grants_error han, heq, append_nil]
    exact { hl with }

variable (as : List (ReservationAction V D))

theorem run_concat (a : ReservationAction V D) : run c (as ++ [a]) = perform c (run c as) a := by
  simp [run]

theorem ledger_run : Ledger c (run c as).store (run c as).granted := by
  induction as using List.reverseRecOn with
  | nil => exact .empty
  | append_singleton as a ih =>
    rw [run_concat]
    exact ledger_perform ih a

theorem granted_run_append (bs : List (ReservationAction V D)) :
    (run c as).granted <+: (run c (as ++ bs)).granted := by
  induction bs using List.reverseRecOn with
  | nil => rw [append_nil]
  | append_singleton bs b ih =>
    rw [← append_assoc, run_concat, granted_perform]
    exact ih.trans (prefix_append _ _)

theorem lastSequence_of_range {scope : Scope} {k : Nat} {granted : List (CloudEvent V D)}
    (hk : sequences scope granted = sequences scope (run c as).granted ++
      List.range' ((run c as).store.publisherCursor scope + 1) k) :
    lastSequence scope granted = (run c as).store.publisherCursor scope + k := by
  unfold lastSequence
  rw [hk]
  cases k with
  | zero =>
    rw [(ledger_run as).publisherCursor_eq, List.range'_zero, append_nil]
    rfl
  | succ k =>
    rw [List.range'_concat, ← append_assoc, getLast?_concat, getD_some]
    omega

/-- One action of a modest run grants the numbers that follow the last one. -/
theorem sequences_grants (scope : Scope) (b : ReservationAction V D)
    (hi : ∀ m events initial limit fault, b = .reserve m events initial limit fault →
      initial.toNat ≤ (run c as).store.publisherCursor scope) :
    ∃ j, sequences scope (grants c (run c as) b) =
      List.range' (lastSequence scope (run c as).granted + 1) j := by
  cases b with
  | reserve m events initial limit fault =>
    have hi := hi m events initial limit fault rfl
    rw [(ledger_run as).publisherCursor_eq] at hi
    cases ha : (reserve c (run c as).store m events initial limit fault).2 with
    | ok =>
      rw [grants_ok ha]
      exact (stored_of_reserve (ledger_run as) ha).consecutive scope hi
    | error error =>
      rw [grants_error ha]
      exact ⟨0, rfl⟩
  | _ => exact ⟨0, rfl⟩

theorem sequences_of_modest (scope : Scope) (as bs : List (ReservationAction V D))
    (h : Modest c scope as bs) :
    ∃ k, sequences scope (run c (as ++ bs)).granted = sequences scope (run c as).granted ++
      List.range' ((run c as).store.publisherCursor scope + 1) k := by
  induction bs using List.reverseRecOn with
  | nil => exact ⟨0, by simp⟩
  | append_singleton bs b ih =>
    obtain ⟨k, hk⟩ := ih fun front m events initial limit fault rest heq =>
      h front m events initial limit fault (rest ++ [b]) (by rw [heq]; simp)
    obtain ⟨j, hj⟩ := sequences_grants (as ++ bs) scope b fun m events initial limit fault heq =>
      h bs m events initial limit fault [] (by rw [heq])
    rw [lastSequence_of_range as hk] at hj
    refine ⟨k + j, ?_⟩
    rw [← append_assoc, run_concat, granted_perform, sequences_append, hk, hj,
      append_assoc, ← List.range'_append_1]
    congr 3
    omega

/-- Every identity gets one sequence for ever, above all of its scope and the
next one when no batch starts beyond the cursor. A batch without a conflict
succeeds when nothing limits it. A batch that succeeds stores its new events
with their sequences; a conflict is an error, and an error changes nothing. -/
theorem publisher_sequences_reserved (as : List (ReservationAction V D)) (m : Moment)
    (events : List (CloudEvent V D)) (initial : UInt64) (limit : Option Nat)
    (fault : Option String) :
    let h := run c as
    let s' := (reserve c h.store m events initial limit fault).1
    let answer := (reserve c h.store m events initial limit fault).2
    (h.granted.map (·.eventId)).Nodup ∧
    (∀ id r, h.store.reservations.lookup id = some r ↔
      ∃ e ∈ h.granted, e.eventId = id ∧ e.reservation c = r) ∧
    (∀ bs, h.granted <+: (run c (as ++ bs)).granted) ∧
    (∀ scope, (sequences scope h.granted).Pairwise (· < ·)) ∧
    (∀ scope bs, Modest c scope as bs →
      ∃ k, sequences scope (run c (as ++ bs)).granted = sequences scope h.granted ++
        List.range' (h.store.publisherCursor scope + 1) k) ∧
    (Grantable c initial h.granted h.store events → h.store.physicalBudget = none →
      (∀ e ∈ events, ∀ n, Plain c (e.sequenced n)) →
      ∃ fresh, (reserve c h.store m events initial none none).2 = .ok fresh) ∧
    (∀ fresh, answer = .ok fresh →
      (∀ e ∈ events, ∃ r, s'.reservations.lookup e.eventId = some r ∧
        r.fingerprint = c.fingerprint e) ∧
      (fresh.map (·.eventId)).Nodup ∧
      (fresh.map (·.eventId)).Sublist (events.map (·.eventId)) ∧
      (∀ id, id ∈ fresh.map (·.eventId) ↔
        id ∈ events.map (·.eventId) ∧ h.store.reservations.lookup id = none) ∧
      (∀ scope, s'.publisherCursor scope =
        (sequences scope fresh).getLast?.getD (h.store.publisherCursor scope)) ∧
      ∀ f ∈ fresh, (∃ e ∈ events, ∃ n, f = e.sequenced n) ∧
        s'.reservations.lookup f.eventId = some (f.reservation c) ∧
        ∃ payload, c.encodeWithLocalCommit f (m.writtenAtUs f.eventId) = .ok payload ∧
          s'.events.lookup f.eventId =
            some ⟨payload, .pending, 0, m.writtenAtUs f.eventId, m.writtenAtUs f.eventId, none,
              none⟩) ∧
    (∀ e ∈ events, ∀ e₀ ∈ h.granted ++ events, e₀.eventId = e.eventId →
      c.fingerprint e₀ ≠ c.fingerprint e → ∃ error, answer = .error error) ∧
    (Function.Injective c.digest → ∀ e ∈ events, ∀ e₀ ∈ h.granted ++ events,
      e₀.eventId = e.eventId → c.content e₀ ≠ c.content e → ∃ error, answer = .error error) ∧
    ∀ error, answer = .error error →
      s'.reservations = h.store.reservations ∧
      s'.publisherCursors = h.store.publisherCursors ∧
      s'.events = h.store.events ∧ s'.deadLetters = h.store.deadLetters := by
  intro h s' answer
  have hle := ledger_run (c := c) as
  have hco : ∀ e ∈ events, ∀ e₀ ∈ h.granted ++ events, e₀.eventId = e.eventId →
      c.fingerprint e₀ ≠ c.fingerprint e → ∃ error, answer = .error error := by
    intro e he e₀ he₀ hid hne
    cases han : answer with
    | error error => exact ⟨error, rfl⟩
    | ok fresh => exact absurd ((stored_of_reserve hle han).fingerprint_eq he he₀ hid) hne
  refine ⟨hle.nodup, hle.reserved, granted_run_append as, hle.increasing,
    fun scope bs => sequences_of_modest scope as bs,
    fun hg hb hp => reserve_of_grantable hle hg hp hb, fun fresh han => ?_, hco,
    fun hdi e he e₀ he₀ hid hne => hco e he e₀ he₀ hid fun heq => hne (hdi heq),
    fun error han => ?_⟩
  · have hst := stored_of_reserve hle han
    refine ⟨hst.answered, hst.ledger.nodup_fresh, hst.sublist, hst.mem_fresh hle,
      hst.publisherCursor_eq hle, fun f hf => ⟨hst.offered f hf, hst.reserved hf, hst.rows f hf⟩⟩
  · obtain ⟨gaps, retained, heq⟩ := reserve_error han
    exact ⟨congrArg (·.reservations) heq, congrArg (·.publisherCursors) heq,
      congrArg (·.events) heq, congrArg (·.deadLetters) heq⟩

def sampleReserved : List (ReservationAction Unit Int) :=
  [.reserve (sampleMoment 0) [sampleUnsent 1, sampleUnsent 2, sampleUnsent 1] 0 none none]

theorem publisher_sequences_reserved_again :
    ∃ fresh, (reserve SafetyStores.sampleCodec (run SafetyStores.sampleCodec sampleReserved).store
        (sampleMoment 1) [sampleUnsent 2, sampleUnsent 3] 0 none none).2 = .ok fresh ∧
      ∀ id, id ∈ fresh.map (·.eventId) ↔ id = SafetyStores.sampleId 3 := by
  obtain ⟨-, -, -, -, -, haccepted, hgranted, -⟩ := publisher_sequences_reserved
    (c := SafetyStores.sampleCodec) sampleReserved (sampleMoment 1)
    [sampleUnsent 2, sampleUnsent 3] 0 none none
  have hplain : ∀ e ∈ [sampleUnsent 2, sampleUnsent 3], ∀ n,
      Plain SafetyStores.sampleCodec (e.sequenced n) := by
    refine forall_mem_cons.2 ⟨fun n => ?_, forall_mem_singleton.2 fun n => ?_⟩
    all_goals exact ⟨rfl, fun _ => ⟨_, rfl⟩⟩
  obtain ⟨fresh, hfresh⟩ := haccepted
    ⟨by decide +kernel, by decide +kernel, by decide +kernel, by decide +kernel⟩
    (by decide +kernel) hplain
  obtain ⟨-, -, -, hids, -⟩ := hgranted fresh hfresh
  refine ⟨fresh, hfresh, fun id => (hids id).trans ⟨fun ⟨hid, hnone⟩ => ?_, ?_⟩⟩
  · obtain rfl | hid := mem_cons.1 hid
    · exact absurd hnone (by decide +kernel)
    · exact mem_singleton.1 hid
  · rintro rfl
    exact ⟨by decide +kernel, by decide +kernel⟩

end ReservationHistory

end AqEngine.LiveSync
