import Mathlib.Data.List.Induction
import AqEngine.Broker.AccountLane

namespace AqEngine.Broker

open Lib Option

/-- Everything that happens to the capacities of one account. Observations
of the broker arrive with the reservations. -/
inductive LaneStep where
  | reserve (id : BrokerCommandId) (pending : Option PendingLimit)
      (symbol : Option SymbolLimit) (margin : Option MarginLimit)
  | finish (id : BrokerCommandId) (reservation : EntryReservation)
      (outcome : BrokerCommandOutcome) (now : Instant)
  | settle (id : BrokerCommandId) (outcome : BrokerCommandOutcome) (now : Instant)
  | dropPermit

abbrev LaneAnswer := Option (Except CapacityRejection EntryReservation)

def LaneStep.apply (a : Admission) : LaneStep → Except Panic (Admission × LaneAnswer)
  | .reserve id pending symbol margin => do
    let (a, answer) ← a.reserveEntry id pending symbol margin
    .ok (a, some answer)
  | .finish id reservation outcome now => do
    let a ← a.finishEntry id reservation outcome now
    .ok (a, none)
  | .settle id outcome now => do
    let a ← a.settleEntry id outcome now
    .ok (a, none)
  | .dropPermit => .ok (a.dropPermit, none)

def runLane (steps : List LaneStep) : Except Panic Admission :=
  steps.foldlM (fun a step => do let (a, _) ← step.apply a; .ok a) {}

/-- What is known after a reading: the reading itself if it is the later one. -/
def Latest {α : Type} (old : Option (α × Instant)) (reading now : α × Instant) : Prop :=
  now = reading ∧ isNewer old reading.2 ∨ old = some now ∧ reading.2 ≤ now.2

section

variable (id : BrokerCommandId)

def PendingWithin (old c : PendingCapacity) (p : PendingLimit) : Prop :=
  c.ledger.Holds id () ∧ ∃ now, c.observation = some now ∧
    Latest old.observation (p.count, p.observed) now ∧
    now.1.toNat + c.ledger.held.entries.length ≤ p.limit.toNat

def SymbolWithin (old c : SymbolCapacity) (q : SymbolLimit) : Prop :=
  c.ledger.Holds id ⟨q.symbol, q.requested⟩ ∧ ∃ now, c.observations q.symbol = some now ∧
    Latest (old.observations q.symbol) (q.observedQuantity, q.observed) now ∧
    now.1 + reserved (·.symbol == q.symbol) (·.quantity) c.ledger ≤ q.limit

def MarginWithin (old c : MarginCapacity) (m : MarginLimit) : Prop :=
  c.ledger.Holds id m.required ∧ ∃ now, c.observation = some now ∧
    Latest old.observation (m.available, m.observed) now ∧
    reserved (fun _ => true) (fun amount => amount) c.ledger ≤ now.1

end

/-- The entry is reserved under every limit that applies to it, and there
the latest observation plus all reservations respects the limit. -/
def LaneStep.Within (a b : Admission) : LaneStep → EntryReservation → Prop
  | .reserve id pending symbol margin, reservation =>
    reservation = ⟨pending.isSome, symbol.isSome, margin.isSome⟩ ∧
    (∀ p ∈ pending, PendingWithin id a.capacity b.capacity p) ∧
    (∀ q ∈ symbol, SymbolWithin id a.symbolCapacity b.symbolCapacity q) ∧
    (∀ m ∈ margin, MarginWithin id a.marginCapacity b.marginCapacity m)
  | _, _ => False

def LaneStep.Refuses (id : BrokerCommandId) : LaneStep → Prop
  | .finish j _ outcome _ | .settle j outcome _ => j = id ∧ outcome.settlement = .refused
  | _ => False

/-- Each reservation is still held for the same amount, or its own refusal
or an adopted observation accounts for it. -/
structure KeepsReservations (step : LaneStep) (a b : Admission) : Prop where
  pending : Reservations.Accounted step.Refuses (fun _ => b.capacity.observation.map (·.2))
    a.capacity.ledger b.capacity.ledger
  symbol : Reservations.Accounted step.Refuses
    (fun r => (b.symbolCapacity.observations r.symbol).map (·.2))
    a.symbolCapacity.ledger b.symbolCapacity.ledger
  margin : Reservations.Accounted step.Refuses
    (fun _ => b.marginCapacity.observation.map (·.2))
    a.marginCapacity.ledger b.marginCapacity.ledger

structure Admission.WellFormed (a : Admission) : Prop where
  pending : a.capacity.ledger.WellFormed
  symbol : a.symbolCapacity.ledger.WellFormed
  margin : a.marginCapacity.ledger.WellFormed

section

variable {V : Type} {ledger : CapacityLedger V} {id : BrokerCommandId}

theorem reserved_reserve (about : V → Bool) (amount : V → F64) (payload : V)
    (hid : id ∉ ledger.held) :
    reserved about amount (ledger.reserve id payload) =
      if about payload then amount payload + reserved about amount ledger
      else reserved about amount ledger := by
  have he : (ledger.reserve id payload).held.entries =
      ⟨id, ⟨payload, .awaitingProof⟩⟩ :: ledger.held.entries :=
    AList.entries_insert_of_notMem hid
  unfold reserved
  rw [he]
  by_cases h : about payload = true <;> simp [h]

theorem length_reserve (payload : V) (hid : id ∉ ledger.held) :
    (ledger.reserve id payload).held.entries.length = ledger.held.entries.length + 1 := by
  have he : (ledger.reserve id payload).held.entries =
      ⟨id, ⟨payload, .awaitingProof⟩⟩ :: ledger.held.entries :=
    AList.entries_insert_of_notMem hid
  rw [he, List.length_cons]

theorem notMem_of_admits (h : admits ledger id = true) : id ∉ ledger.held := by
  rw [admits, Bool.and_eq_true, decide_eq_true_eq] at h
  exact h.1

end

section

variable {α V : Type} {refuses : BrokerCommandId → Prop}

theorem latest_of_not_newer {old : Option (α × Instant)} {reading : α × Instant}
    (h : ¬isNewer old reading.2 = true) : ∃ now, old = some now ∧ Latest old reading now := by
  cases old with
  | none => simp [isNewer] at h
  | some now => exact ⟨now, rfl, .inr ⟨rfl, by simpa [isNewer] using h⟩⟩

theorem observeIf_spec {c : ObservedCapacity α V} (h : c.ledger.WellFormed)
    (reading : Option (α × Instant)) :
    ∃ c', c.observeIf reading = .ok c' ∧ c'.ledger.WellFormed ∧
      (∀ r ∈ reading, ∃ now, c'.observation = some now ∧ Latest c.observation r now) ∧
      Reservations.Accounted refuses (fun _ => c'.observation.map (·.2)) c.ledger c'.ledger := by
  obtain _ | ⟨value, observed⟩ := reading
  · exact ⟨c, rfl, h, nofun, .refl _⟩
  by_cases hn : isNewer c.observation observed = true
  · obtain ⟨ledger, hl, hwf, hf⟩ := Reservations.retireFront_spec observed h
    refine ⟨⟨some (value, observed), ledger⟩, ?_, hwf, by simp [Latest, hn], hf⟩
    simp [ObservedCapacity.observeIf, ObservedCapacity.observe, hn, hl, bind, Except.bind]
  refine ⟨c, by simp [ObservedCapacity.observeIf, ObservedCapacity.observe, hn], h, ?_, .refl _⟩
  rintro _ ⟨⟩
  exact latest_of_not_newer hn

theorem symbol_observeIf_spec {c : SymbolCapacity} (h : c.ledger.WellFormed)
    (limit : Option SymbolLimit) :
    (c.observeIf limit).ledger.WellFormed ∧
      (∀ q ∈ limit, ∃ now, (c.observeIf limit).observations q.symbol = some now ∧
        Latest (c.observations q.symbol) (q.observedQuantity, q.observed) now) ∧
      Reservations.Accounted refuses
        (fun r => ((c.observeIf limit).observations r.symbol).map (·.2))
        c.ledger (c.observeIf limit).ledger := by
  cases limit with
  | none => exact ⟨h, by simp, .refl _⟩
  | some q =>
      simp only [mem_some_iff, forall_eq', SymbolCapacity.observeIf, SymbolCapacity.observe]
      split
      · have hs : ∀ r : SymbolRequest, (r.symbol == q.symbol) = true →
            (Function.update c.observations q.symbol (some (q.observedQuantity, q.observed))
              r.symbol).map (·.2) = some q.observed := by
          intro r hr
          simp [show r.symbol = q.symbol by simpa using hr]
        obtain ⟨hwf, hf⟩ := Reservations.retireWhere_spec h (·.symbol == q.symbol) q.observed hs
        exact ⟨hwf, ⟨_, Function.update_self .., .inl ⟨rfl, by assumption⟩⟩, hf⟩
      · exact ⟨h, latest_of_not_newer (by assumption), .refl _⟩

end

section

variable {id : BrokerCommandId} {refuses : BrokerCommandId → Prop}

theorem pending_within {old c : PendingCapacity} {p : PendingLimit}
    (hs : ∃ now, c.observation = some now ∧ Latest old.observation (p.count, p.observed) now)
    (h : PendingCapacity.available id p.limit p.count c = true) :
    id ∉ c.ledger.held ∧ PendingWithin id old (c.insert id ()) p := by
  obtain ⟨⟨count, seen⟩, hn, hla⟩ := hs
  simp only [PendingCapacity.available, ObservedCapacity.current, hn, Bool.and_eq_true,
    decide_eq_true_eq, map_some, getD_some] at h
  obtain ⟨⟨-, ha⟩, hlt⟩ := h
  have hid := notMem_of_admits ha
  refine ⟨hid, Reservations.holds_reserve .., _, hn, hla, ?_⟩
  change count.toNat + (c.ledger.reserve id ()).held.entries.length ≤ _
  -- the machine addition saturates above every limit
  have hl := p.limit.toNat_lt
  rw [length_reserve _ hid]
  unfold saturatingAdd at hlt
  omega

theorem symbol_within {old c : SymbolCapacity} {q : SymbolLimit}
    (hs : ∃ now, c.observations q.symbol = some now ∧
      Latest (old.observations q.symbol) (q.observedQuantity, q.observed) now)
    (h : c.available id q.symbol q.requested q.limit q.observedQuantity = true) :
    id ∉ c.ledger.held ∧ SymbolWithin id old (c.insert id q.symbol q.requested) q := by
  obtain ⟨⟨quantity, seen⟩, hn, hla⟩ := hs
  simp only [SymbolCapacity.available, hn, Bool.and_eq_true, decide_eq_true_eq,
    map_some, getD_some] at h
  obtain ⟨⟨⟨⟨⟨⟨-, hre⟩, -⟩, hq⟩, hres⟩, ha⟩, hle⟩ := h
  have hid := notMem_of_admits ha
  refine ⟨hid, Reservations.holds_reserve .., _, hn, hla, ?_⟩
  obtain ⟨requested, hr, -⟩ := F64.isPositive_iff.mp hre
  obtain ⟨observed, ho⟩ := F64.isFinite_iff.mp hq
  obtain ⟨held, hh⟩ := F64.isFinite_iff.mp hres
  change _ + reserved _ _ (c.ledger.reserve id _) ≤ _
  rw [reserved_reserve _ _ _ hid, if_pos (beq_self_eq_true _)]
  rw [hr, ho, hh] at hle ⊢
  rwa [F64.finite_add, F64.finite_add, add_comm requested, ← add_assoc]

theorem margin_within {old c : MarginCapacity} {m : MarginLimit}
    (hs : ∃ now, c.observation = some now ∧ Latest old.observation (m.available, m.observed) now)
    (h : MarginCapacity.available id m.required m.available c = true) :
    id ∉ c.ledger.held ∧ MarginWithin id old (c.insert id m.required) m := by
  obtain ⟨⟨available, seen⟩, hn, hla⟩ := hs
  simp only [MarginCapacity.available, ObservedCapacity.current, hn, Bool.and_eq_true,
    decide_eq_true_eq] at h
  obtain ⟨⟨⟨⟨⟨⟨⟨-, hre⟩, -⟩, -⟩, -⟩, hres⟩, ha⟩, hle⟩ := h
  have hid := notMem_of_admits ha
  refine ⟨hid, Reservations.holds_reserve .., _, hn, hla, ?_⟩
  obtain ⟨required, hr⟩ := F64.isFinite_iff.mp hre
  obtain ⟨held, hh⟩ := F64.isFinite_iff.mp hres
  change reserved _ _ (c.ledger.reserve id _) ≤ _
  rw [reserved_reserve _ _ _ hid]
  rw [hr, hh] at hle ⊢
  rwa [F64.finite_add, add_comm]

theorem reserveIf_spec {β V : Type} {before ledger : CapacityLedger V}
    {seen : V → Option Instant} (h : ledger.WellFormed)
    (hk : Reservations.Accounted refuses seen before ledger) (limit : Option β) (f : β → V)
    (hid : ∀ y ∈ limit, id ∉ ledger.held) :
    (limit.elim ledger fun y => ledger.reserve id (f y)).WellFormed ∧
      Reservations.Accounted refuses seen before
        (limit.elim ledger fun y => ledger.reserve id (f y)) := by
  cases limit with
  | none => exact ⟨h, hk⟩
  | some y => exact ⟨h.reserve _ (hid y rfl), hk.reserve _ (hid y rfl)⟩

end

variable {a : Admission} {id : BrokerCommandId} {pending : Option PendingLimit}
  {symbol : Option SymbolLimit} {margin : Option MarginLimit}

structure Observed (pending : Option PendingLimit) (symbol : Option SymbolLimit)
    (margin : Option MarginLimit) (a b : Admission) : Prop where
  pending : ∀ p ∈ pending, ∃ now, b.capacity.observation = some now ∧
    Latest a.capacity.observation (p.count, p.observed) now
  symbol : ∀ q ∈ symbol, ∃ now, b.symbolCapacity.observations q.symbol = some now ∧
    Latest (a.symbolCapacity.observations q.symbol) (q.observedQuantity, q.observed) now
  margin : ∀ m ∈ margin, ∃ now, b.marginCapacity.observation = some now ∧
    Latest a.marginCapacity.observation (m.available, m.observed) now

theorem Admission.observe_spec (h : a.WellFormed) (step : LaneStep)
    (pending : Option PendingLimit) (symbol : Option SymbolLimit) (margin : Option MarginLimit) :
    ∃ b, a.observe pending symbol margin = .ok b ∧ b.WellFormed ∧ KeepsReservations step a b ∧
      Observed pending symbol margin a b := by
  obtain ⟨c, hc, hcw, hcs, hck⟩ :=
    observeIf_spec h.pending (pending.map fun p => (p.count, p.observed))
  obtain ⟨hqw, hqs, hq⟩ := symbol_observeIf_spec h.symbol symbol
  obtain ⟨m, hm, hmw, hms, hmk⟩ :=
    observeIf_spec h.margin (margin.map fun m => (m.available, m.observed))
  refine ⟨⟨a.active, c, a.symbolCapacity.observeIf symbol, m⟩, ?_, ⟨hcw, hqw, hmw⟩,
    ⟨hck, hq, hmk⟩,
    fun _ hp => hcs _ (mem_map_of_mem _ hp), hqs, fun _ hl => hms _ (mem_map_of_mem _ hl)⟩
  rw [Admission.observe, hc, hm]
  rfl

theorem Admission.available_of_refusal (h : a.refusal id pending symbol margin = none) :
    (∀ p ∈ pending, PendingCapacity.available id p.limit p.count a.capacity = true) ∧ (∀ q ∈ symbol,
        a.symbolCapacity.available id q.symbol q.requested q.limit q.observedQuantity = true) ∧
      ∀ m ∈ margin, MarginCapacity.available id m.required m.available a.marginCapacity = true := by
  unfold Admission.refusal at h
  simp only [any_eq_true, Bool.not_eq_true'] at h
  split at h
  · cases h
  split at h
  · cases h
  split at h
  · cases h
  rename_i hpending hs hma
  refine ⟨fun p hp => ?_, fun q hq => ?_, fun m hm => ?_⟩
  · exact Bool.not_eq_false _ ▸ fun hp' => hpending ⟨p, hp, hp'⟩
  · exact Bool.not_eq_false _ ▸ fun hq' => hs ⟨q, hq, hq'⟩
  · exact Bool.not_eq_false _ ▸ fun hm' => hma ⟨m, hm, hm'⟩

theorem Admission.insert_spec {b : Admission} {step : LaneStep} (h : b.WellFormed)
    (hk : KeepsReservations step a b) (hs : Observed pending symbol margin a b)
    (hr : b.refusal id pending symbol margin = none) :
    (b.insert id pending symbol margin).WellFormed ∧
      KeepsReservations step a (b.insert id pending symbol margin) ∧
      (LaneStep.reserve id pending symbol margin).Within a (b.insert id pending symbol margin)
        ⟨pending.isSome, symbol.isSome, margin.isSome⟩ := by
  obtain ⟨hpending, hsy, hma⟩ := available_of_refusal hr
  have hp p (hp : p ∈ pending) := pending_within (hs.pending p hp) (hpending p hp)
  have hq q (hq : q ∈ symbol) := symbol_within (hs.symbol q hq) (hsy q hq)
  have hm m (hm : m ∈ margin) := margin_within (hs.margin m hm) (hma m hm)
  have hpl := reserveIf_spec h.pending hk.pending pending (fun _ => ()) fun p h => (hp p h).1
  have hql := reserveIf_spec h.symbol hk.symbol symbol (fun q => ⟨q.symbol, q.requested⟩)
    fun q h => (hq q h).1
  have hml := reserveIf_spec h.margin hk.margin margin (·.required) fun m h => (hm m h).1
  refine ⟨⟨?_, ?_, ?_⟩, ⟨?_, ?_, ?_⟩, rfl, ?_, ?_, ?_⟩
  · cases pending <;> exact hpl.1
  · cases symbol <;> exact hql.1
  · cases margin <;> exact hml.1
  · cases pending <;> exact hpl.2
  · cases symbol <;> exact hql.2
  · cases margin <;> exact hml.2
  · rintro p rfl
    exact (hp p rfl).2
  · rintro q rfl
    exact (hq q rfl).2
  · rintro m rfl
    exact (hm m rfl).2

theorem settleIf_spec {V : Type} {ledger : CapacityLedger V} {step : LaneStep}
    (h : ledger.WellFormed) (reserved : Bool) (outcome : BrokerCommandOutcome) (now : Instant)
    (hstep : outcome.settlement = .refused → step.Refuses id) :
    ∃ l, (if reserved then ledger.settle id outcome.settlement now else .ok ledger) = .ok l ∧
      l.WellFormed ∧ ∀ seen, Reservations.Accounted step.Refuses seen ledger l := by
  cases reserved with
  | false => exact ⟨ledger, rfl, h, fun _ => .refl _⟩
  | true =>
      obtain ⟨l, hl, hwf, hk⟩ := Reservations.settle_spec h id outcome.settlement now
      refine ⟨l, hl, hwf, fun seen => (hk seen).mono ?_⟩
      rintro _ ⟨rfl, hr⟩
      exact hstep hr

theorem finishIf_eq {α V : Type} (c : ObservedCapacity α V) (reserved : Bool)
    (outcome : BrokerCommandOutcome) (now : Instant) :
    c.finishIf reserved id outcome now =
      (if reserved then c.ledger.settle id outcome.settlement now else .ok c.ledger).map
        ({ c with ledger := · }) := by
  cases reserved <;> rfl

theorem symbol_finishIf_eq (c : SymbolCapacity) (reserved : Bool) (outcome : BrokerCommandOutcome)
    (now : Instant) :
    c.finishIf reserved id outcome now =
      (if reserved then c.ledger.settle id outcome.settlement now else .ok c.ledger).map
        ({ c with ledger := · }) := by
  cases reserved <;> rfl

theorem Admission.finishEntry_spec (h : a.WellFormed) (step : LaneStep)
    (reservation : EntryReservation) (outcome : BrokerCommandOutcome) (now : Instant)
    (hstep : outcome.settlement = .refused → step.Refuses id) :
    ∃ b, a.finishEntry id reservation outcome now = .ok b ∧ b.WellFormed ∧
      KeepsReservations step a b := by
  obtain ⟨c, hc, hcw, hck⟩ := settleIf_spec h.pending reservation.pending outcome now hstep
  obtain ⟨q, hq, hqw, hqk⟩ := settleIf_spec h.symbol reservation.symbol outcome now hstep
  obtain ⟨m, hm, hmw, hmk⟩ := settleIf_spec h.margin reservation.margin outcome now hstep
  refine ⟨⟨a.active, { a.capacity with ledger := c }, { a.symbolCapacity with ledger := q },
    { a.marginCapacity with ledger := m }⟩, ?_, ⟨hcw, hqw, hmw⟩, ⟨hck _, hqk _, hmk _⟩⟩
  rw [Admission.finishEntry, finishIf_eq, symbol_finishIf_eq, finishIf_eq, hc, hq, hm]
  rfl

theorem LaneStep.apply_spec (step : LaneStep) (h : a.WellFormed) :
    ∃ b answer, step.apply a = .ok (b, answer) ∧ b.WellFormed ∧ KeepsReservations step a b ∧
      ∀ reservation, answer = some (.ok reservation) → step.Within a b reservation := by
  cases step with
  | reserve id pending symbol margin =>
      obtain ⟨b, hb, hwf, hk, hs⟩ := Admission.observe_spec h
        (.reserve id pending symbol margin) pending symbol margin
      cases hre : b.refusal id pending symbol margin with
      | some rejection =>
          refine ⟨b, some (.error rejection), ?_, hwf, hk, by simp⟩
          simp [LaneStep.apply, Admission.reserveEntry, hb, hre, bind, Except.bind]
      | none =>
          obtain ⟨hwf', hk', hw⟩ := Admission.insert_spec hwf hk hs hre
          refine ⟨_, some (.ok ⟨pending.isSome, symbol.isSome, margin.isSome⟩), ?_, hwf', hk',
            by rintro _ ⟨⟩; exact hw⟩
          simp [LaneStep.apply, Admission.reserveEntry, hb, hre, bind, Except.bind]
  | finish id reservation outcome now =>
      obtain ⟨b, hb, hwf, hk⟩ := Admission.finishEntry_spec h
        (.finish id reservation outcome now) reservation outcome now fun hr => ⟨rfl, hr⟩
      refine ⟨b, none, ?_, hwf, hk, by simp⟩
      simp [LaneStep.apply, hb, bind, Except.bind]
  | settle id outcome now =>
      obtain ⟨b, hb, hwf, hk⟩ := Admission.finishEntry_spec h
        (.settle id outcome now) ⟨true, true, true⟩ outcome now fun hr => ⟨rfl, hr⟩
      refine ⟨b, none, ?_, hwf, hk, by simp⟩
      simp [LaneStep.apply, Admission.settleEntry, hb, bind, Except.bind]
  | dropPermit => exact ⟨a.dropPermit, none, rfl, { h with },
      ⟨.refl _, .refl _, .refl _⟩, by simp⟩

theorem Admission.wellFormed_empty : ({} : Admission).WellFormed :=
  ⟨Reservations.wellFormed_empty, Reservations.wellFormed_empty, Reservations.wellFormed_empty⟩

theorem runLane_spec (steps : List LaneStep) : ∃ a, runLane steps = .ok a ∧ a.WellFormed := by
  induction steps using List.reverseRecOn with
  | nil => exact ⟨{}, rfl, Admission.wellFormed_empty⟩
  | append_singleton steps step ih =>
      obtain ⟨a, ha, hwf⟩ := ih
      obtain ⟨b, answer, hb, hwf', -⟩ := step.apply_spec hwf
      refine ⟨b, ?_, hwf'⟩
      rw [runLane, List.foldlM_append, show List.foldlM _ _ steps = _ from ha]
      simp [hb, bind, Except.bind, pure, Except.pure]

/-- In every run no assertion fails, an admitted entry is reserved within the
limits of the account, and a reservation goes only with proof. -/
theorem account_capacity (steps : List LaneStep) (step : LaneStep) :
    ∃ a b answer, runLane steps = .ok a ∧ step.apply a = .ok (b, answer) ∧
      (∀ reservation, answer = some (.ok reservation) → step.Within a b reservation) ∧
      KeepsReservations step a b := by
  obtain ⟨a, ha, hwf⟩ := runLane_spec steps
  obtain ⟨b, answer, hb, -, hke, hwi⟩ := step.apply_spec hwf
  exact ⟨a, b, answer, ha, hb, hwi, hke⟩

-- The last slot goes to the first entry; the confirmed entry keeps it.
example :
    let limit (observed : Instant) : PendingLimit := ⟨1, 0, observed⟩
    let first := [.reserve ⟨"first"⟩ (some (limit 5)) none none,
      .finish ⟨"first"⟩ ⟨true, false, false⟩ .acknowledged 7]
    ((runLane first).toOption.bind fun a =>
      (LaneStep.apply a (.reserve ⟨"second"⟩ (some (limit 7)) none none)).toOption).map (·.2) =
    some (some (.error .pendingOrders)) := by
  rfl

end AqEngine.Broker
