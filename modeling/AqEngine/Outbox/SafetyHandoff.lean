import AqEngine.Outbox.SafetyRetention

namespace AqEngine.LiveSync

open Lib Fallible List Option

inductive Side where
  | source | target
  deriving DecidableEq

/-- How far a hand-off has come: the facts it read, or those it still has to
settle after the target took them. -/
inductive Transfer (D : Type) where
  | idle
  | fetched (pending : List (SafetyObservation D))
  | settling (rest : List (SafetyObservation D))
  deriving DecidableEq

/-- The facts of two stores with a hand-off between them. What was ever
recorded and what hand-offs have released are kept for the statements only. -/
structure SafetyStores (D : Type) where
  (source target : SafetyTable D := ∅)
  transfer : Transfer D := .idle
  (seen released : List (SafetyObservation D) := [])

inductive SafetyAction (V D : Type) where
  | record (side : Side) (batch : List (SafetyObservation D)) (nowUs : Int)
  | capture (side : Side) (e : CloudEvent V D) (nowUs : Int)
  | settle (side : Side) (o : SafetyObservation D) (delivered : Bool) (nowUs : Int)
  | fetch (pending : List (SafetyObservation D)) (nowUs : Int)
  | transfer (nowUs : Int)
  | settleNext (nowUs : Int)
  | crash

namespace SafetyStores

open SafetyTable

variable {V D : Type}

def table (s : SafetyStores D) : Side → SafetyTable D
  | .source => s.source
  | .target => s.target

def put (s : SafetyStores D) (t : SafetyTable D) (side : Side)
    (facts : List (SafetyObservation D)) : SafetyStores D :=
  match side with
  | .source => { s with source := t, seen := facts ++ s.seen }
  | .target => { s with target := t, seen := facts ++ s.seen }

section

variable [DecidableEq D]

/-- The source's row that a hand-off may read: not delivered, and due. -/
def due (s : SafetyStores D) (nowUs : Int) (o : SafetyObservation D) : Bool :=
  (s.source.lookup o.key).any fun row =>
    row.observation == o && !row.delivered && decide (row.nextAttemptAtUs ≤ nowUs)

variable (c : EventCodec V D) (s : SafetyStores D)

def record (side : Side) (batch : List (SafetyObservation D)) (nowUs : Int) :
    SafetyStores D × Except OutboxStoreError (List (SafetyObservation D)) :=
  match recordSafetyOnly c (s.table side) batch nowUs with
  | (t, .error error) => (s.put t side [], .error error)
  | (t, .ok receipts) => (s.put t side batch, .ok receipts)

/-- An event is stored with its fact, or neither of them is. -/
def capture (side : Side) (e : CloudEvent V D) (nowUs : Int) : SafetyStores D :=
  match recordSafetyInTransaction c (s.table side) e nowUs with
  | .error _ => s
  | .ok t => s.put t side (SafetyObservation.fromEvent c e).toList

def proven (receipts pending : List (SafetyObservation D)) : Bool :=
  receipts.length == pending.length && (receipts.zip pending).all fun r => r.1.covers r.2

/-- One step of either store or of the hand-off between them. A process that
ends in a hand-off leaves both tables as they are. -/
def step : SafetyAction V D → Option (SafetyStores D)
  | .record side batch nowUs => some (s.record c side batch nowUs).1
  | .capture side e nowUs => some (s.capture c side e nowUs)
  | .settle side o delivered nowUs =>
    if o ∈ s.seen then
      some (s.put (settleSafetyObservation (s.table side) o delivered nowUs) side [])
    else none
  | .fetch pending nowUs =>
    if s.transfer = .idle ∧ pending ≠ [] ∧ pending.length ≤ 32 ∧ pending.Nodup ∧
        (∀ o ∈ pending, s.due nowUs o = true) ∧
        (∀ o ∈ pending, ∀ o' ∈ pending, o.sameRun o' = true) then
      some { s with transfer := .fetched pending }
    else none
  | .transfer nowUs =>
    match s.transfer with
    | .fetched pending =>
      match s.record c .target pending nowUs with
      | (s, .error _) => some { s with transfer := .idle }
      | (s, .ok receipts) =>
        some { s with transfer := if proven receipts pending then .settling pending else .idle }
    | _ => none
  | .settleNext nowUs =>
    match s.transfer with
    | .settling (o :: rest) =>
      some { s with
        source := settleSafetyObservation s.source o true nowUs
        transfer := .settling rest
        released := o :: s.released }
    | .settling [] => some { s with transfer := .idle }
    | _ => none
  | .crash => some { s with transfer := .idle }

def identified (facts : List (SafetyObservation D)) : Bool :=
  facts.all fun o => facts.all fun o' => o.eventId != o'.eventId || o == o'

def known : SafetyAction V D → List (SafetyObservation D)
  | .record _ batch _ => batch ++ s.seen
  | .capture _ e _ => (SafetyObservation.fromEvent c e).toList ++ s.seen
  | _ => s.seen

end

def settled (s : SafetyStores D) : SafetyAction V D → Option (Side × SafetyObservation D)
  | .settle side o _ _ => some (side, o)
  | .settleNext _ =>
    match s.transfer with
    | .settling (o :: _) => some (.source, o)
    | _ => none
  | _ => none

def carried (s : SafetyStores D) : List (SafetyObservation D) :=
  match s.transfer with
  | .idle => []
  | .fetched pending => pending
  | .settling rest => rest

/-- The facts that the source may forget: settled by a hand-off, or about to be. -/
def handed (s : SafetyStores D) : List (SafetyObservation D) :=
  match s.transfer with
  | .settling rest => rest ++ s.released
  | _ => s.released

def Held (t : SafetyTable D) (o : SafetyObservation D) : Prop :=
  ∃ row, t.lookup o.key = some row ∧ row.observation.Dominates o

structure Sound (s : SafetyStores D) : Prop where
  keyed : ∀ side, Keyed (s.table side)
  rows : ∀ side key row, (s.table side).lookup key = some row → row.observation ∈ s.seen
  carried : ∀ o ∈ s.carried, o ∈ s.seen
  released : ∀ o ∈ s.released, o ∈ s.seen
  handed : ∀ o ∈ s.handed, Held s.target o

/-- What one step does to the facts of a table. -/
def Moves (t t' : SafetyTable D) (settles : SafetyObservation D → Prop) : Prop :=
  ∀ key row, t.lookup key = some row → ∃ row', t'.lookup key = some row' ∧
    row.observation.Replaces row'.observation ∧
    (row'.delivered = true → row.delivered = true ∨
      ∃ o, settles o ∧ row.observation.eventId = o.eventId)

variable {c : EventCodec V D} {s s' : SafetyStores D} {t t' : SafetyTable D} {side : Side}
  {facts : List (SafetyObservation D)} {settles : SafetyObservation D → Prop}
  {o : SafetyObservation D} {a : SafetyAction V D} {transfer : Transfer D}
  {pending : List (SafetyObservation D)}

theorem table_put (s : SafetyStores D) (t : SafetyTable D) (side other : Side)
    (facts : List (SafetyObservation D)) :
    (s.put t side facts).table other = if other = side then t else s.table other := by
  cases side <;> cases other <;> rfl

theorem put_seen : (s.put t side facts).seen = facts ++ s.seen := by
  cases side <;> rfl

theorem put_released : (s.put t side facts).released = s.released := by
  cases side <;> rfl

theorem put_transfer : (s.put t side facts).transfer = s.transfer := by
  cases side <;> rfl

theorem Moves.refl (t : SafetyTable D) : Moves t t settles :=
  fun _ row hrow => ⟨row, hrow, .refl _, .inl⟩

theorem Moves.of_records (h : Records t t') : Moves t t' settles := by
  intro key row hrow
  obtain ⟨row', hrow', hstep, hd⟩ := h.kept key row hrow
  exact ⟨row', hrow', hstep, fun h => .inl (hd h)⟩

theorem Moves.settle (t : SafetyTable D) (delivered : Bool) (nowUs : Int) (ho : settles o) :
    Moves t (settleSafetyObservation t o delivered nowUs) settles := by
  intro key row hrow
  obtain ⟨row', hrow', hs, hd⟩ := settled_lookup t o delivered nowUs hrow
  refine ⟨row', hrow', .inl hs, fun h => ?_⟩
  rcases hd h with h | h
  · exact .inl h
  · exact .inr ⟨o, ho, h⟩

theorem Moves.weaken {settles' : SafetyObservation D → Prop} (h : Moves t t' settles)
    (hi : ∀ o, settles o → settles' o) : Moves t t' settles' := by
  intro key row hrow
  obtain ⟨row', hrow', hstep, hd⟩ := h key row hrow
  refine ⟨row', hrow', hstep, fun h => ?_⟩
  rcases hd h with h | ⟨o, ho, hid⟩
  · exact .inl h
  · exact .inr ⟨o, hi o ho, hid⟩

theorem Moves.held (h : Moves t t' settles) (ho : Held t o) : Held t' o := by
  obtain ⟨row, hrow, hd⟩ := ho
  obtain ⟨row', hrow', hstep, -⟩ := h o.key row hrow
  exact ⟨row', hrow', hd.replaces hstep⟩

theorem keyed_of_from (ht : Keyed t) (h : From [] t t') : Keyed t' := by
  intro key row' hrow'
  rcases h key row' hrow' with hm | ⟨row, hrow, hs⟩
  · cases hm
  rw [hs]
  exact ht key row hrow

theorem Sound.put (h : s.Sound) (hk : Keyed t) (hf : From facts (s.table side) t)
    (hmo : Moves (s.table side) t settles) : (s.put t side facts).Sound where
  keyed other := by
    rw [table_put]
    split
    · exact hk
    · exact h.keyed other
  rows other key row hrow := by
    rw [put_seen]
    rw [table_put] at hrow
    split at hrow
    · rcases hf key row hrow with hm | ⟨old, hold, hs⟩
      · exact mem_append_left _ hm
      · rw [hs]
        exact mem_append_right _ (h.rows side key old hold)
    · exact mem_append_right _ (h.rows other key row hrow)
  carried o ho := by
    rw [SafetyStores.carried, put_transfer] at ho
    rw [put_seen]
    exact mem_append_right _ (h.carried o ho)
  released o ho := by
    rw [put_released] at ho
    rw [put_seen]
    exact mem_append_right _ (h.released o ho)
  handed o ho := by
    rw [SafetyStores.handed, put_transfer, put_released] at ho
    have hh := h.handed o ho
    cases side with
    | source => exact hh
    | target => exact hmo.held hh

theorem mem_handed_of_released (ho : o ∈ s.released) : o ∈ s.handed := by
  unfold handed
  split
  · exact mem_append_right _ ho
  · exact ho

theorem Sound.staged {released : List (SafetyObservation D)} (h : s.Sound)
    (hc : ∀ o ∈ SafetyStores.carried { s with transfer := transfer }, o ∈ s.seen)
    (hr : ∀ o ∈ released, o ∈ s.seen)
    (hh : ∀ o ∈ SafetyStores.handed { s with transfer := transfer, released := released },
      Held s.target o) : Sound { s with transfer := transfer, released := released } where
  keyed
    | .source => h.keyed .source
    | .target => h.keyed .target
  rows
    | .source => h.rows .source
    | .target => h.rows .target
  carried := hc
  released := hr
  handed := hh

theorem Sound.idle (h : s.Sound) : Sound { s with transfer := .idle } :=
  h.staged (fun _ ho => by cases ho) h.released fun o ho => h.handed o (mem_handed_of_released ho)

theorem Sound.fetched (h : s.Sound)
    (hpending : ∀ o ∈ pending, o ∈ s.seen) : Sound { s with transfer := .fetched pending } :=
  h.staged hpending h.released fun o ho => h.handed o (mem_handed_of_released ho)

theorem Sound.settling (h : s.Sound)
    (hpending : ∀ o ∈ pending, o ∈ s.seen) (hh : ∀ o ∈ pending, Held s.target o) :
    Sound { s with transfer := .settling pending } := by
  refine h.staged hpending h.released fun o ho => ?_
  rcases mem_append.1 ho with ho | ho
  · exact hh o ho
  · exact h.handed o (mem_handed_of_released ho)

theorem Sound.settleNext {rest : List (SafetyObservation D)} (nowUs : Int) (h : s.Sound)
    (ht : s.transfer = .settling (o :: rest)) :
    Sound { s with
      source := settleSafetyObservation s.source o true nowUs
      transfer := .settling rest
      released := o :: s.released } := by
  have hf := from_settle s.source o true nowUs
  have hs : (s.put (settleSafetyObservation s.source o true nowUs) .source []).Sound :=
    h.put (keyed_of_from (h.keyed .source) hf) hf
      (Moves.settle s.source true nowUs trivial : Moves _ _ fun _ => True)
  have hc : ∀ p ∈ o :: rest, p ∈ s.seen := fun p hp =>
    h.carried p (by rw [SafetyStores.carried, ht]; exact hp)
  have hh : ∀ p ∈ (o :: rest) ++ s.released, Held s.target p := fun p hp =>
    h.handed p (by rw [SafetyStores.handed, ht]; exact hp)
  refine hs.staged (fun p hp => hc p (mem_cons_of_mem _ hp)) ?_ ?_
  · intro p hp
    rcases mem_cons.1 hp with rfl | hp
    · exact hc p mem_cons_self
    · exact h.released p hp
  · intro p hp
    refine hh p ?_
    rcases mem_append.1 hp with hp | hp
    · exact mem_append_left _ (mem_cons_of_mem _ hp)
    rcases mem_cons.1 hp with rfl | hp
    · exact mem_cons_self
    · exact mem_append_right _ hp

theorem put_self (s : SafetyStores D) (side : Side) : s.put (s.table side) side [] = s := by
  cases side <;> rfl

theorem sound_empty : Sound ({} : SafetyStores D) := by
  have hn : ∀ side key, (table ({} : SafetyStores D) side).lookup key = none := by
    intro side key
    cases side <;> exact AList.lookup_empty key
  refine ⟨fun side key _ hrow => ?_, fun side key _ hrow => ?_, ?_, ?_, ?_⟩
  iterate 2
    rw [hn] at hrow
    cases hrow
  all_goals
    intro o ho
    cases ho

theorem Moves.put (hm : Moves (s.table side) t settles) (other : Side) :
    Moves (s.table other) ((s.put t side facts).table other) fun o => other = side ∧ settles o := by
  rw [table_put]
  split
  · next heq =>
    subst heq
    exact hm.weaken fun o ho => ⟨rfl, ho⟩
  · exact .refl _

/-- What one step does: a table's rows stay, only a settlement marks one of them,
and no fact comes into the stores except with an action that records it. -/
structure Steps (c : EventCodec V D) (s : SafetyStores D) (a : SafetyAction V D)
    (s' : SafetyStores D) : Prop where
  sound : s'.Sound
  moves : ∀ side, Moves (s.table side) (s'.table side) fun o => s.settled a = some (side, o)
  seen : ∀ o ∈ s'.seen, o ∈ s.known c a

theorem mem_known (ho : o ∈ s.seen) : o ∈ s.known c a := by
  cases a with
  | record | capture => exact mem_append_right _ ho
  | _ => exact ho

theorem Sound.stays (h : s.Sound) : Steps c s a s := ⟨h, fun _ => .refl _, fun _ => mem_known⟩

theorem Sound.stages (h : Sound { s with transfer := transfer }) :
    Steps c s a { s with transfer := transfer } :=
  ⟨h, fun side => by cases side <;> exact .refl _, fun _ => mem_known⟩

theorem Sound.puts (h : s.Sound) (hk : Keyed t) (hf : From facts (s.table side) t)
    (hm : Moves (s.table side) t settles)
    (hs : ∀ o, settles o → s.settled a = some (side, o))
    (hfacts : ∀ o ∈ facts, o ∈ s.known c a) : Steps c s a (s.put t side facts) := by
  refine ⟨h.put hk hf hm, fun other => (hm.put other).weaken ?_, fun o ho => ?_⟩
  · rintro o ⟨rfl, ho⟩
    exact hs o ho
  · rw [put_seen] at ho
    exact (mem_append.1 ho).elim (hfacts o) mem_known

theorem Sound.records (h : s.Sound) (hr : Records (s.table side) t)
    (hf : From facts (s.table side) t) (hfacts : ∀ o ∈ facts, o ∈ s.known c a) :
    Steps c s a (s.put t side facts) :=
  h.puts (hr.keyed (h.keyed side)) hf
    (Moves.of_records hr : Moves _ _ fun _ => False) (fun _ => False.elim) hfacts

variable [DecidableEq D]

theorem identified_iff : identified facts = true ↔
    ∀ o ∈ facts, ∀ o' ∈ facts, o.eventId = o'.eventId → o = o' := by
  simp only [identified, List.all_eq_true, Bool.or_eq_true, bne_iff_ne, beq_iff_eq]
  constructor
  · intro h o ho o' ho' hid
    exact (h o ho o' ho').resolve_left (fun hne => hne hid)
  · intro h o ho o' ho'
    by_cases hid : o.eventId = o'.eventId
    · exact .inr (h o ho o' ho' hid)
    · exact .inl hid

variable {batch : List (SafetyObservation D)} {nowUs : Int} {e : CloudEvent V D}

theorem record_cases (c : EventCodec V D) (side : Side) (batch : List (SafetyObservation D))
    (nowUs : Int) (h : s.Sound) :
    (∃ t receipts, s.record c side batch nowUs = (s.put t side batch, .ok receipts) ∧
      Records (s.table side) t ∧ From batch (s.table side) t ∧
      List.Forall₂ (Receipt t) receipts batch) ∨
    ∃ first rest error, batch = first :: rest ∧ s.record c side batch nowUs = (s, .error error) ∧
      recordBody c (s.table side) first batch nowUs = .error error := by
  rcases recordSafetyOnly_cases (h.keyed side) with
    ⟨t, receipts, hrecord, hr, hf, hre⟩ | ⟨first, rest, error, hb, hrecord, he⟩
  · exact .inl ⟨t, receipts, by rw [record, hrecord], hr, hf, hre⟩
  · exact .inr ⟨first, rest, error, hb, by simp only [record, hrecord, put_self], he⟩

theorem capture_cases (c : EventCodec V D) (s : SafetyStores D) (side : Side)
    (e : CloudEvent V D) (nowUs : Int) :
    (s.capture c side e nowUs = s ∧ (∀ o, SafetyObservation.fromEvent c e = some o →
      ¬(o.validate c = .ok () ∧ reused (s.table side) o = false))) ∨
    ∃ o, SafetyObservation.fromEvent c e = some o ∧ o.validate c = .ok () ∧
      reused (s.table side) o = false ∧
      s.capture c side e nowUs = s.put (upsert (s.table side) o true nowUs) side [o] := by
  cases ho : SafetyObservation.fromEvent c e with
  | none =>
    refine .inl ⟨?_, by simp⟩
    rw [capture, recordSafetyInTransaction, ho]
    exact put_self s side
  | some o =>
    by_cases hfree : o.validate c = .ok () ∧ reused (s.table side) o = false
    · obtain ⟨row, -, hrecord⟩ := recordSafetyObservationLocked_ok true nowUs hfree.1 hfree.2
      refine .inr ⟨o, rfl, hfree.1, hfree.2, ?_⟩
      rw [capture, recordSafetyInTransaction, ho]
      simp only [hrecord, bind_ok, toList_some]
    · refine .inl ⟨?_, fun _ ho' => by cases ho'; exact hfree⟩
      cases hr : recordSafetyObservationLocked c (s.table side) o true nowUs with
      | error error =>
        rw [capture, recordSafetyInTransaction, ho]
        simp only [hr]
        rfl
      | ok r =>
        obtain ⟨hvalid, hre, -⟩ := recordSafetyObservationLocked_eq_ok hr
        exact absurd ⟨hvalid, hre⟩ hfree

theorem mem_seen_of_due (h : s.Sound) (hd : s.due nowUs o = true) : o ∈ s.seen := by
  obtain ⟨row, hrow, hd⟩ := (Option.any_eq_true _ _).1 hd
  rw [Bool.and_eq_true, Bool.and_eq_true, beq_iff_eq] at hd
  rw [← hd.1.1]
  exact h.rows .source o.key row hrow

theorem held_of_receipts {receipts : List (SafetyObservation D)}
    (h : List.Forall₂ (Receipt t) receipts batch) : ∀ o ∈ batch, Held t o := by
  intro o ho
  induction h with
  | nil => cases ho
  | cons hr _ ih =>
    rcases mem_cons.1 ho with rfl | ho
    · exact hr.dominates
    · exact ih ho

theorem step_transfer (h : s.Sound) (hstep : s.step c (.transfer nowUs) = some s') :
    ∃ pending, s.transfer = .fetched pending ∧ (s' = { s with transfer := .idle } ∨
        ∃ t receipts transfer, Records s.target t ∧ From pending s.target t ∧
          List.Forall₂ (Receipt t) receipts pending ∧
          (transfer = .idle ∨ transfer = .settling pending) ∧
          s' = { s.put t .target pending with transfer := transfer }) := by
  simp only [step] at hstep
  cases ht : s.transfer with
  | idle | settling => simp [ht] at hstep
  | fetched pending =>
    refine ⟨pending, rfl, ?_⟩
    simp only [ht] at hstep
    rcases record_cases c .target pending nowUs h with
      ⟨t, receipts, hrecord, hr, hf, hre⟩ | ⟨first, rest, error, -, hrecord, -⟩
    · rw [hrecord] at hstep
      refine .inr ⟨t, receipts, _, hr, hf, hre, ?_, (Option.some.inj hstep).symm⟩
      split
      · exact .inr rfl
      · exact .inl rfl
    · rw [hrecord] at hstep
      exact .inl (Option.some.inj hstep).symm

theorem step_settleNext (hstep : s.step c (.settleNext nowUs) = some s') :
    s' = { s with transfer := .idle } ∨ ∃ o rest, s.transfer = .settling (o :: rest) ∧
        s' = { s with
          source := settleSafetyObservation s.source o true nowUs
          transfer := .settling rest
          released := o :: s.released } := by
  simp only [step] at hstep
  cases ht : s.transfer with
  | idle | fetched => simp [ht] at hstep
  | settling rest =>
    cases rest with
    | nil =>
      simp only [ht, Option.some.injEq] at hstep
      exact .inl hstep.symm
    | cons o rest =>
      simp only [ht, Option.some.injEq] at hstep
      exact .inr ⟨o, rest, rfl, hstep.symm⟩

theorem Sound.step (h : s.Sound) (hstep : s.step c a = some s') : Steps c s a s' := by
  cases a with
  | record side batch nowUs =>
    cases hstep
    rcases record_cases c side batch nowUs h with
      ⟨t, receipts, hrecord, hr, hf, -⟩ | ⟨first, rest, error, -, hrecord, -⟩
    · rw [hrecord]
      exact h.records hr hf fun o ho => mem_append_left _ ho
    · rw [hrecord]
      exact h.stays
  | capture side e nowUs =>
    cases hstep
    rcases capture_cases c s side e nowUs with ⟨hs, -⟩ | ⟨o, ho, -, -, hpu⟩
    · rw [hs]
      exact h.stays
    · rw [hpu]
      refine h.records (records_upsert (h.keyed side)) from_upsert fun p hp => ?_
      rw [known, ho]
      exact mem_append_left _ hp
  | settle side o delivered nowUs =>
    obtain ⟨-, hstep⟩ := ite_none_right_eq_some.1 hstep
    cases hstep
    have hf := from_settle (s.table side) o delivered nowUs
    have hse : Moves (s.table side) (settleSafetyObservation (s.table side) o delivered nowUs)
        fun p => o = p := Moves.settle (s.table side) delivered nowUs rfl
    refine h.puts (keyed_of_from (h.keyed side) hf) hf hse ?_ nofun
    rintro p rfl
    rfl
  | fetch pending nowUs =>
    obtain ⟨⟨-, -, -, -, hd, -⟩, hstep⟩ := ite_none_right_eq_some.1 hstep
    cases hstep
    exact (h.fetched fun o ho => mem_seen_of_due h (hd o ho)).stages
  | transfer nowUs =>
    obtain ⟨pending, ht, hi | ⟨t, receipts, transfer, hr, hf, hre, hn,
      rfl⟩⟩ := step_transfer h hstep
    · rw [hi]
      exact h.idle.stages
    have hpu : Steps c s (.transfer nowUs) (s.put t .target pending) :=
      h.records hr hf fun o ho => h.carried o (by rw [SafetyStores.carried, ht]; exact ho)
    refine ⟨?_, fun side => by cases side <;> exact hpu.moves _, hpu.seen⟩
    rcases hn with rfl | rfl
    · exact hpu.sound.idle
    · exact hpu.sound.settling (fun o ho => mem_append_left _ ho) (held_of_receipts hre)
  | settleNext nowUs =>
    rcases step_settleNext hstep with rfl | ⟨o, rest, ht, rfl⟩
    · exact h.idle.stages
    refine ⟨h.settleNext nowUs ht, fun side => ?_, fun _ ho => mem_known (s := s) ho⟩
    cases side with
    | target => exact .refl _
    | source => exact Moves.settle s.source true nowUs (by rw [settled, ht])
  | crash =>
    cases hstep
    exact h.idle.stages

/-- The reached states of runs in which an identity stands for one fact. -/
structure Reached (s : SafetyStores D) : Prop where
  sound : s.Sound
  identities : identified s.seen = true

theorem reached_of_runs {as : List (SafetyAction V D)}
    (hi : ∀ bs a cs u, as = bs ++ a :: cs → runs (step c) {} bs = some u →
      identified (u.known c a) = true)
    (h : runs (step c) {} as = some s) : s.Reached := by
  refine runs_invariant_of (P := Reached) ?_ ⟨sound_empty, rfl⟩ hi h
  intro s a s' hs hok hstep
  obtain ⟨hso, -, hse⟩ := hs.sound.step hstep
  refine ⟨hso, identified_iff.2 fun o ho o' ho' => ?_⟩
  exact identified_iff.1 hok o (hse o ho) o' (hse o' ho')

theorem Held.covers (h : Held t o)
    (hid : ∀ row, t.lookup o.key = some row → row.observation.eventId = o.eventId →
      row.observation = o) :
    ∃ row, t.lookup o.key = some row ∧ row.observation.covers o = true := by
  obtain ⟨row, hrow, hd⟩ := h
  refine ⟨row, hrow, SafetyObservation.covers_iff.2 ⟨hd, ?_⟩⟩
  by_cases heq : row.observation.eventId = o.eventId
  · exact .inl (hid row hrow heq)
  · exact .inr heq

/-- Facts of one run, recorded in order: all of them are retained, or the
batch is refused for a reason. -/
theorem Reached.record (h : s.Reached)
    (hvalid : ∀ o ∈ batch, o.validate c = .ok () ∧ ∀ o' ∈ batch, o.sameRun o' = true)
    (hi : identified (batch ++ s.seen) = true)
    (hor : batchInOrder c nowUs (s.table side) batch = true) :
    (∃ t receipts, s.record c side batch nowUs = (s.put t side batch, .ok receipts) ∧
      List.Forall₂ (fun stored o => stored.covers o = true) receipts batch ∧
      ∀ o ∈ batch, ∃ row, t.lookup o.key = some row ∧ row.observation.covers o = true) ∨
    ∃ first rest error, batch = first :: rest ∧ s.record c side batch nowUs = (s, .error error) ∧
      (Exhausted (s.table side) first batch ∨ Blocked c nowUs (s.table side) batch) := by
  rcases record_cases c side batch nowUs h.sound with
    ⟨t, receipts, hrecord, -, hf, hr⟩ | ⟨first, rest, error, hb, hrecord, he⟩
  · refine .inl ⟨t, receipts, hrecord, hr.imp fun _ _ h => h.1, fun o ho => ?_⟩
    refine (held_of_receipts hr o ho).covers fun row hrow hid => ?_
    have hm : row.observation ∈ batch ++ s.seen := by
      rcases hf o.key row hrow with hm | ⟨old, hold, hs⟩
      · exact mem_append_left _ hm
      rw [hs]
      exact mem_append_right _ (h.sound.rows side o.key old hold)
    exact identified_iff.1 hi _ hm o (mem_append_left _ ho) hid
  · refine .inr ⟨first, rest, error, hb, hrecord, ?_⟩
    have hfi : first ∈ batch := by
      rw [hb]
      exact mem_cons_self
    rcases recordBody_eq_error
      (fun o ho => ⟨(hvalid o ho).1, (hvalid o ho).2 first hfi⟩) he with hfu | he
    · exact .inl hfu
    exact .inr (blocked_of_recordEach (h.sound.keyed side) (fun o ho => (hvalid o ho).1) hor he)

theorem Reached.capture (h : s.Reached) (ho : SafetyObservation.fromEvent c e = some o)
    (hor : inOrder (s.table side) o = true) :
    (reused (s.table side) o = true ∧ s.capture c side e nowUs = s) ∨
    ∃ t row, s.capture c side e nowUs = s.put t side [o] ∧ t.lookup o.key = some row ∧
      (row.observation.covers o = true ∨ row.observation.conflicts o = true) := by
  rcases capture_cases c s side e nowUs with ⟨hs, hn⟩ | ⟨o', ho', -, hfree, hp⟩
  · refine .inl ⟨?_, hs⟩
    cases hr : reused (s.table side) o with
    | true => rfl
    | false => exact absurd ⟨SafetyObservation.validate_of_fromEvent ho, hr⟩ (hn o ho)
  · rw [ho] at ho'
    cases ho'
    exact .inr ⟨_, _, hp, lookup_upsert _ o true nowUs,
      covers_upsert (h.sound.keyed side) hfree hor (lookup_upsert _ o true nowUs)⟩

theorem mem_seen_of_settled (h : s.Sound) (hstep : s.step c a = some s')
    (ho : s.settled a = some (side, o)) : o ∈ s.seen := by
  cases a with
  | settle _ p =>
    obtain ⟨hm, -⟩ := ite_none_right_eq_some.1 hstep
    cases ho
    exact hm
  | settleNext =>
    simp only [settled] at ho
    split at ho
    · next p _ ht =>
      cases ho
      exact h.carried o (by rw [carried, ht]; exact mem_cons_self)
    · cases ho
  | _ => cases ho

theorem Reached.rows (h : s.Reached) (hstep : s.step c a = some s') {key : SafetyKey}
    {row : SafetyRow D} (hrow : (s.table side).lookup key = some row) :
    ∃ row', (s'.table side).lookup key = some row' ∧
      (row'.observation = row.observation ∨ row.observation.covers row'.observation = false) ∧
      (row.delivered = false → row'.delivered = true →
        s.settled a = some (side, row.observation)) := by
  obtain ⟨row', hrow', hn, hde⟩ := (h.sound.step hstep).moves side key row hrow
  refine ⟨row', hrow', hn.not_covers, fun hop hm => ?_⟩
  rcases hde hm with hd | ⟨o, ho, hid⟩
  · rw [hop] at hd
    cases hd
  have hs := mem_seen_of_settled h.sound hstep ho
  rw [identified_iff.1 h.identities _ (h.sound.rows side key row hrow) o hs hid]
  exact ho

/-- Stop facts of two stores, where one identity stands for one fact. A fact
recorded in order is retained unless its entity ended otherwise, no fact gives
way to one that it covers, a settlement marks its own fact only, and the target
retains what a hand-off released. -/
theorem stop_facts_retained {as : List (SafetyAction V D)}
    (hids : ∀ bs a cs u, as = bs ++ a :: cs → runs (step c) {} bs = some u →
      identified (u.known c a) = true)
    (h : runs (step c) {} as = some s) :
    (∀ side batch nowUs,
      (∀ o ∈ batch, o.validate c = .ok () ∧ ∀ o' ∈ batch, o.sameRun o' = true) →
      identified (batch ++ s.seen) = true → batchInOrder c nowUs (s.table side) batch = true →
      (∃ t receipts, s.record c side batch nowUs = (s.put t side batch, .ok receipts) ∧
        List.Forall₂ (fun stored o => stored.covers o = true) receipts batch ∧
        ∀ o ∈ batch, ∃ row, t.lookup o.key = some row ∧ row.observation.covers o = true) ∨
      ∃ first rest error, batch = first :: rest ∧ s.record c side batch nowUs = (s, .error error) ∧
        (Exhausted (s.table side) first batch ∨ Blocked c nowUs (s.table side) batch)) ∧
    (∀ side e o nowUs, SafetyObservation.fromEvent c e = some o →
      inOrder (s.table side) o = true →
      (reused (s.table side) o = true ∧ s.capture c side e nowUs = s) ∨
      ∃ t row, s.capture c side e nowUs = s.put t side [o] ∧ t.lookup o.key = some row ∧
        (row.observation.covers o = true ∨ row.observation.conflicts o = true)) ∧
    (∀ a s' side key row, s.step c a = some s' → (s.table side).lookup key = some row →
      ∃ row', (s'.table side).lookup key = some row' ∧
        (row'.observation = row.observation ∨ row.observation.covers row'.observation = false) ∧
        (row.delivered = false → row'.delivered = true →
          s.settled a = some (side, row.observation))) ∧
    ∀ o ∈ s.released, ∃ row, s.target.lookup o.key = some row ∧
      row.observation.covers o = true := by
  have hs := reached_of_runs hids h
  refine ⟨fun side batch nowUs => hs.record, fun side e o nowUs => hs.capture,
    fun a s' side key row hstep => hs.rows hstep, fun o ho => ?_⟩
  refine (hs.sound.handed o (mem_handed_of_released ho)).covers fun row hrow hid => ?_
  exact identified_iff.1 hs.identities _ (hs.sound.rows .target o.key row hrow) o
    (hs.sound.released o ho) hid

def sampleCodec : EventCodec Unit Int where
  timestampMicros := id
  ofMicros := id
  wireLen _ := .ok 100
  digest _ := []
  field _ _ := none
  safetyLen _ := some 300

def sampleId (n : UInt8) : Uuid := ⟨List.replicate 15 0 ++ [n], by simp⟩

def sampleFact (n : UInt8) (revision : UInt64) (state : String) : SafetyObservation Int where
  version := 1
  strategyId := "strategy"
  liveSessionId := "session"
  runtimeId := "runtime"
  runId := "run"
  eventId := sampleId n
  revision := revision
  createdAt := 0
  kind := .lifecycle
  state := state
  actionId := none
  message := none

/-- The strategy stops while its request to stop is handed off. -/
def sampleHandoff : List (SafetyAction Unit Int) :=
  [.record .source [sampleFact 1 1 "stopping"] 0,
    .fetch [sampleFact 1 1 "stopping"] 1,
    .transfer 2,
    .record .source [sampleFact 2 2 "stopped"] 3,
    .settleNext 4]

theorem stop_facts_retained_handoff :
    ∃ s, runs (step sampleCodec) {} sampleHandoff = some s ∧
      ∃ row, s.target.lookup (sampleFact 1 1 "stopping").key = some row ∧
        row.observation.covers (sampleFact 1 1 "stopping") = true := by
  have hso : ((runs (step sampleCodec) {} sampleHandoff).map (·.released)) =
      some [sampleFact 1 1 "stopping"] := by
    decide +kernel
  obtain ⟨s, hs, hre⟩ := map_eq_some_iff.1 hso
  have hgu : guarded (step sampleCodec) (fun s a => identified (s.known sampleCodec a)) {}
      sampleHandoff = true := by
    decide +kernel
  have hall := stop_facts_retained (fun _ _ _ _ => ok_of_guarded hgu) hs
  exact ⟨s, hs, hall.2.2.2 _ (by rw [hre]; exact mem_cons_self)⟩

/-- The identity of a fact that was replaced is taken for another one. -/
def sampleReuse : List (SafetyAction Unit Int) :=
  [.record .source [sampleFact 1 1 "stopping"] 0,
    .record .source [sampleFact 2 2 "stopping"] 1,
    .record .source [sampleFact 1 3 "stopped"] 2,
    .settle .source (sampleFact 1 1 "stopping") true 3]

/-- A strategy has stopped, and a request to stop it with a later revision is
retained already: the end is refused though nothing speaks against it. And the
late settlement of a request marks the end that took its identity. -/
theorem late_stop_refused :
    (∃ s, runs (step sampleCodec) {} [.record .source [sampleFact 1 3 "stopping"] 0] = some s ∧
      (sampleFact 2 2 "stopped").validate sampleCodec = .ok () ∧
      reused s.source (sampleFact 2 2 "stopped") = false ∧
      (s.source.lookup (sampleFact 2 2 "stopped").key).map (·.observation) =
        some (sampleFact 1 3 "stopping") ∧
      (s.record sampleCodec .source [sampleFact 2 2 "stopped"] 1).2 =
        .error (.invalidRecord "safety fact conflicts with retained terminal state")) ∧
    ∃ s, runs (step sampleCodec) {} sampleReuse = some s ∧
      (s.source.lookup (sampleFact 1 3 "stopped").key).map (fun row =>
        (row.observation, row.delivered)) = some (sampleFact 1 3 "stopped", true) := by
  refine ⟨⟨_, rfl, by decide +kernel, by decide +kernel, by decide +kernel, by decide +kernel⟩, ?_⟩
  have hso : ((runs (step sampleCodec) {} sampleReuse).bind fun s =>
      (s.source.lookup (sampleFact 1 3 "stopped").key).map fun row =>
        (row.observation, row.delivered)) = some (sampleFact 1 3 "stopped", true) := by
    decide +kernel
  exact bind_eq_some_iff.1 hso

end SafetyStores

end AqEngine.LiveSync
