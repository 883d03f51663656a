import AqEngine.Lib.Runs
import AqEngine.Outbox.SafetyFacts

namespace AqEngine.LiveSync

open Lib Fallible List

namespace SafetyObservation

variable {D : Type} {b b' b'' o : SafetyObservation D}

/-- The order behind `covers`, without its comparison of the identities. -/
def Dominates (b o : SafetyObservation D) : Prop :=
  b.key = o.key ∧ (b = o ∨ (b.terminal = true ∧ o.terminal = false) ∨
      (o.revision < b.revision ∧ o.stateRank ≤ b.stateRank ∧
        (o.terminal = false ∨ b.state = o.state)))

theorem key_eq_iff : b.key = o.key ↔ b.sameRun o = true ∧ b.entityKey = o.entityKey := by
  simp only [key, sameRun, SafetyKey.mk.injEq, Scope.mk.injEq, Bool.and_eq_true, beq_iff_eq]
  tauto

theorem covers_iff [DecidableEq D] :
    b.covers o = true ↔ b.Dominates o ∧ (b = o ∨ b.eventId ≠ o.eventId) := by
  simp only [covers, Dominates, key_eq_iff, Bool.and_eq_true, Bool.or_eq_true, beq_iff_eq,
    bne_iff_ne, decide_eq_true_eq, Bool.not_eq_true']
  tauto

theorem covers_self [DecidableEq D] (o : SafetyObservation D) : o.covers o = true :=
  covers_iff.2 ⟨⟨rfl, .inl rfl⟩, .inl rfl⟩

theorem stateRank_eq_three : o.stateRank = 3 ↔ o.terminal = true := by
  unfold stateRank
  split
  · next h => simp [h]
  next h =>
  split <;> simp [h]

theorem stateRank_le (o : SafetyObservation D) : o.stateRank ≤ 3 := by
  unfold stateRank
  split
  · exact le_rfl
  · split <;> decide

theorem terminal_of_rank_le (h : o.stateRank ≤ b.stateRank) (hb : b.terminal = false) :
    o.terminal = false := by
  cases ho : o.terminal with
  | false => rfl
  | true =>
    have hr := stateRank_eq_three.2 ho
    have ht : b.stateRank = 3 := le_antisymm (stateRank_le b) (hr ▸ h)
    rw [stateRank_eq_three, hb] at ht
    cases ht

/-- What a retained fact may become: it stays, or a later fact that does not
go back takes its place while it is not terminal. -/
def Replaces (b b' : SafetyObservation D) : Prop :=
  b' = b ∨ (b'.key = b.key ∧ b.terminal = false ∧ b.revision < b'.revision ∧
    b.stateRank ≤ b'.stateRank)

theorem Replaces.key (h : b.Replaces b') : b'.key = b.key := by
  rcases h with rfl | ⟨hk, -⟩
  · rfl
  · exact hk

theorem Replaces.refl (b : SafetyObservation D) : b.Replaces b := .inl rfl

theorem Replaces.trans (h : b.Replaces b') (h' : b'.Replaces b'') : b.Replaces b'' := by
  rcases h with rfl | ⟨hk, ho, hre, hr⟩
  · exact h'
  rcases h' with rfl | ⟨hk', -, hre', hr'⟩
  · exact .inr ⟨hk, ho, hre, hr⟩
  exact .inr ⟨hk'.trans hk, ho, UInt64.lt_trans hre hre', le_trans hr hr'⟩

theorem Dominates.replaces (h : b.Dominates o) (h' : b.Replaces b') : b'.Dominates o := by
  rcases h' with rfl | ⟨hk, ho, hre, hr⟩
  · exact h
  obtain ⟨hs, rfl | ⟨ht, -⟩ | ⟨hlt, hle, -⟩⟩ := h
  · exact ⟨hk, .inr (.inr ⟨hre, hr, .inl ho⟩)⟩
  · rw [ho] at ht
    cases ht
  · exact ⟨hk.trans hs, .inr (.inr ⟨UInt64.lt_trans hlt hre, le_trans hle hr,
      .inl (terminal_of_rank_le hle ho)⟩)⟩

theorem Replaces.not_covers [DecidableEq D] (h : b.Replaces b') : b' = b ∨ b.covers b' = false := by
  rcases h with rfl | ⟨-, ho, hr, -⟩
  · exact .inl rfl
  refine .inr (Bool.eq_false_iff.2 fun hc => ?_)
  obtain ⟨-, rfl | ⟨ht, -⟩ | ⟨hlt, -, -⟩⟩ := (covers_iff.1 hc).1
  · exact UInt64.lt_irrefl _ hr
  · rw [ho] at ht
    cases ht
  · exact UInt64.lt_asymm hlt hr

theorem validate_of_fromEvent {V : Type} {c : EventCodec V D} {e : CloudEvent V D}
    (h : fromEvent c e = some o) : o.validate c = .ok () := by
  obtain ⟨-, -, h⟩ := Option.bind_eq_some_iff.1 h
  obtain ⟨⟨kind, state, actionId⟩, -, h⟩ := Option.bind_eq_some_iff.1 h
  obtain ⟨runId, -, h⟩ := Option.bind_eq_some_iff.1 h
  obtain ⟨⟨⟩, hvalid, h⟩ := Option.bind_eq_some_iff.1 h
  cases h
  unfold guard at hvalid
  split at hvalid
  · next hok =>
    generalize validate c _ = r at hok ⊢
    cases r with
    | error => cases hok
    | ok => rfl
  · cases hvalid

def conflicts (b o : SafetyObservation D) : Bool := b.terminal && o.terminal && b.state != o.state

end SafetyObservation

namespace SafetyTable

variable {V D : Type} {c : EventCodec V D} {t t' : SafetyTable D} {o : SafetyObservation D}
  {full : Bool} {nowUs : Int} {row : SafetyRow D}

def Keyed (t : SafetyTable D) : Prop :=
  ∀ key row, t.lookup key = some row → row.observation.key = key

def RowStep (row row' : SafetyRow D) : Prop :=
  row.observation.Replaces row'.observation ∧ (row'.delivered = true → row.delivered = true)

def Records (t t' : SafetyTable D) : Prop :=
  Table.Evolves (fun key row => row.observation.key = key ∧ row.delivered = false)
    (fun _ => RowStep) t t'

theorem Records.refl (t : SafetyTable D) : Records t t :=
  Table.Evolves.refl (fun _ _ => ⟨.refl _, fun h => h⟩) t

theorem Records.trans {u : SafetyTable D} (h : Records t t') (h' : Records t' u) : Records t u := by
  refine Table.Evolves.trans ?_ ?_ h h'
  · rintro key a b d ⟨hab, hd⟩ ⟨hbd, hd'⟩
    exact ⟨hab.trans hbd, fun h => hd (hd' h)⟩
  · rintro key a b ⟨hk, ho⟩ ⟨hab, hd⟩
    exact ⟨hab.key.trans hk, Bool.eq_false_iff.2 fun h => by rw [hd h] at ho; cases ho⟩

theorem Records.keyed (h : Records t t') (ht : Keyed t) : Keyed t' := by
  intro key row' hrow'
  cases hrow : t.lookup key with
  | none => exact (h.added key row' hrow hrow').1
  | some row =>
    obtain ⟨row'', hr'', hstep, -⟩ := h.kept key row hrow
    rw [hrow'] at hr''
    cases hr''
    exact hstep.key.trans (ht key row hrow)

theorem checkBatch_ok {batch : List (SafetyObservation D)} {first : SafetyObservation D}
    (h : ∀ o ∈ batch, o.validate c = .ok () ∧ o.sameRun first = true) :
    checkBatch c first batch = .ok () := by
  induction batch with
  | nil => rfl
  | cons o _ ih =>
    obtain ⟨hvalid, hr⟩ := h o mem_cons_self
    have hrest := ih fun o ho => h o (mem_cons_of_mem _ ho)
    rw [checkBatch, forM_eq_forM] at hrest ⊢
    rw [forM_cons, hvalid, hr]
    exact hrest

theorem settled_lookup (t : SafetyTable D) (o : SafetyObservation D) (delivered : Bool)
    (nowUs : Int) {key : SafetyKey} (hrow : t.lookup key = some row) :
    ∃ row', (settleSafetyObservation t o delivered nowUs).lookup key = some row' ∧
      row'.observation = row.observation ∧
      (row'.delivered = true → row.delivered = true ∨ row.observation.eventId = o.eventId) := by
  rw [settleSafetyObservation, Table.lookup_modify]
  by_cases hk : key = o.key
  · rw [if_pos hk, hrow, Option.map_some]
    by_cases hid : row.observation.eventId = o.eventId
    · rw [if_pos hid]
      exact ⟨_, rfl, rfl, fun _ => .inr hid⟩
    rw [if_neg hid]
    exact ⟨row, rfl, rfl, .inl⟩
  · rw [if_neg hk]
    exact ⟨row, hrow, rfl, .inl⟩

def From (facts : List (SafetyObservation D)) (t t' : SafetyTable D) : Prop :=
  ∀ key row', t'.lookup key = some row' → row'.observation ∈ facts ∨
    ∃ row, t.lookup key = some row ∧ row'.observation = row.observation

theorem From.refl (t : SafetyTable D) : From [] t t := fun _ row' hrow' => .inr ⟨row', hrow', rfl⟩

theorem from_settle (t : SafetyTable D) (o : SafetyObservation D) (delivered : Bool)
    (nowUs : Int) : From [] t (settleSafetyObservation t o delivered nowUs) := by
  intro key row' hrow'
  rw [settleSafetyObservation, Table.lookup_modify] at hrow'
  by_cases hk : key = o.key
  · rw [if_pos hk, Option.map_eq_some_iff] at hrow'
    obtain ⟨row, hrow, rfl⟩ := hrow'
    refine .inr ⟨row, hrow, ?_⟩
    split <;> rfl
  · rw [if_neg hk] at hrow'
    exact .inr ⟨row', hrow', rfl⟩

variable [DecidableEq D]

/-- A fact is recorded over another one in an order that its revision and
its state tell. -/
def inOrder (t : SafetyTable D) (o : SafetyObservation D) : Bool :=
  (t.lookup o.key).all fun row =>
    let b := row.observation
    b == o ||
      if b.terminal then !o.terminal || b.state != o.state || decide (o.revision < b.revision)
      else (decide (b.revision < o.revision) && decide (b.stateRank ≤ o.stateRank)) ||
        (decide (o.revision < b.revision) && decide (o.stateRank ≤ b.stateRank))

theorem upserted_cases (row : SafetyRow D) (o : SafetyObservation D) (full : Bool) (nowUs : Int) :
    (upserted row o full nowUs = row ∧ yields row o = false) ∨
      (upserted row o full nowUs).observation = o ∧ yields row o = true := by
  unfold upserted
  cases hy : yields row o with
  | false => exact .inl ⟨rfl, rfl⟩
  | true =>
    refine .inr ⟨?_, rfl⟩
    simp only [Bool.not_true, Bool.false_eq_true, ↓reduceIte]
    split <;> rfl

theorem yields_iff : yields row o = true ↔ row.observation = o ∨
    (row.observation.terminal = false ∧ row.observation.revision < o.revision ∧
      row.observation.stateRank ≤ o.stateRank) := by
  simp only [yields, Bool.or_eq_true, Bool.and_eq_true, beq_iff_eq, decide_eq_true_eq,
    Bool.not_eq_true']
  constructor
  · rintro (⟨-, h⟩ | ⟨⟨h, hlt⟩, hle⟩)
    · exact .inl h
    · exact .inr ⟨h, hlt, hle⟩
  · rintro (h | ⟨h, hlt, hle⟩)
    · exact .inl ⟨congrArg _ h, h⟩
    · exact .inr ⟨⟨h, hlt⟩, hle⟩

theorem replaces_upserted (hk : row.observation.key = o.key) :
    row.observation.Replaces (upserted row o full nowUs).observation := by
  rcases upserted_cases row o full nowUs with ⟨h, -⟩ | ⟨h, hy⟩
  · rw [h]
    exact .refl _
  rw [h]
  rcases yields_iff.1 hy with hs | ⟨ho, hlt, hle⟩
  · exact .inl hs.symm
  · exact .inr ⟨hk.symm, ho, hlt, hle⟩

theorem delivered_upserted (h : (upserted row o full nowUs).delivered = true) :
    row.delivered = true := by
  unfold upserted at h
  split at h
  · exact h
  split at h
  · exact h
  · cases h

theorem records_upsert (ht : Keyed t) : Records t (upsert t o full nowUs) := by
  refine Table.Evolves.insert (fun _ _ => ⟨.refl _, fun h => h⟩) ?_ ?_
  · intro hn
    rw [hn]
    exact ⟨rfl, rfl⟩
  · intro row hrow
    rw [hrow]
    exact ⟨replaces_upserted (ht _ row hrow), delivered_upserted⟩

theorem lookup_upsert (t : SafetyTable D) (o : SafetyObservation D) (full : Bool) (nowUs : Int) :
    (upsert t o full nowUs).lookup o.key = some (match t.lookup o.key with
        | none => ⟨o, false, 0, full, nowUs⟩
        | some row => upserted row o full nowUs) :=
  AList.lookup_insert t

theorem upsert_cases (hrow : (upsert t o full nowUs).lookup o.key = some row) :
    row.observation = o ∨ t.lookup o.key = some row ∧ yields row o = false := by
  rw [lookup_upsert] at hrow
  cases hold : t.lookup o.key with
  | none =>
    rw [hold] at hrow
    cases hrow
    exact .inl rfl
  | some old =>
    rw [hold] at hrow
    obtain rfl : upserted old o full nowUs = row := Option.some.inj hrow
    rcases upserted_cases old o full nowUs with ⟨hs, hy⟩ | ⟨ho, -⟩
    · rw [hs]
      exact .inr ⟨rfl, hy⟩
    · exact .inl ho

theorem recordSafetyObservationLocked_eq_ok {r : SafetyTable D × SafetyObservation D}
    (h : recordSafetyObservationLocked c t o full nowUs = .ok r) :
    o.validate c = .ok () ∧ reused t o = false ∧ r.1 = upsert t o full nowUs ∧
      ∃ row, r.1.lookup o.key = some row ∧ row.observation = r.2 := by
  obtain ⟨⟨⟩, hvalid, h⟩ := bind_eq_ok.1 h
  obtain ⟨hr, h⟩ := refuseIf_bind_eq_ok.1 h
  have hvalid : o.validate c = .ok () := by
    cases hv : o.validate c with
    | error =>
      rw [hv] at hvalid
      cases hvalid
    | ok => rfl
  refine ⟨hvalid, by simpa using hr, ?_⟩
  simp only [lookup_upsert] at h
  cases h
  exact ⟨rfl, _, lookup_upsert t o full nowUs, rfl⟩

theorem recordSafetyObservationLocked_ok (full : Bool) (nowUs : Int)
    (hvalid : o.validate c = .ok ()) (hr : reused t o = false) :
    ∃ row, (upsert t o full nowUs).lookup o.key = some row ∧
      recordSafetyObservationLocked c t o full nowUs =
        .ok (upsert t o full nowUs, row.observation) := by
  refine ⟨_, lookup_upsert t o full nowUs, ?_⟩
  unfold recordSafetyObservationLocked
  rw [hvalid, hr]
  simp only [orInvalidRecord, bind_ok]
  rw [refuseIf_bind_of_not (by simp)]
  simp only [lookup_upsert]

/-- The retained fact after recording `o` in order: it covers `o` unless the
two are different ends. -/
theorem covers_upsert (ht : Keyed t) (hre : reused t o = false) (ho : inOrder t o = true)
    (hrow : (upsert t o full nowUs).lookup o.key = some row) :
    row.observation.covers o = true ∨ row.observation.conflicts o = true := by
  rcases upsert_cases hrow with hob | ⟨hold, hy⟩
  · rw [hob]
    exact .inl o.covers_self
  have hk := ht _ row hold
  have hne : row.observation ≠ o := fun heq => by
    rw [yields_iff.2 (.inl heq)] at hy
    cases hy
  -- The identity of another fact is refused before.
  have hid : row.observation.eventId ≠ o.eventId := by
    intro hi
    have ha : reused t o = true :=
      any_eq_true.2 ⟨_, AList.mem_lookup_iff.1 hold, by simp [hi, hne]⟩
    rw [hre] at ha
    cases ha
  rw [inOrder, hold, Option.all_some, Bool.or_eq_true, beq_iff_eq] at ho
  have ho := ho.resolve_left hne
  cases hte : row.observation.terminal with
  | true =>
    rw [if_pos hte] at ho
    simp only [Bool.or_eq_true, Bool.not_eq_true', bne_iff_ne, decide_eq_true_eq] at ho
    cases hop : o.terminal with
    | false => exact .inl (SafetyObservation.covers_iff.2 ⟨⟨hk, .inr (.inl ⟨hte, hop⟩)⟩, .inr hid⟩)
    | true =>
      by_cases hs : row.observation.state = o.state
      · have hlt : o.revision < row.observation.revision := by
          rcases ho with (h | h) | h
          · rw [hop] at h
            cases h
          · exact absurd hs h
          · exact h
        have hr : o.stateRank ≤ row.observation.stateRank := by
          rw [SafetyObservation.stateRank_eq_three.2 hte]
          exact SafetyObservation.stateRank_le o
        exact .inl (SafetyObservation.covers_iff.2 ⟨⟨hk, .inr (.inr ⟨hlt, hr, .inr hs⟩)⟩, .inr hid⟩)
      · exact .inr (by simp [SafetyObservation.conflicts, hte, hop, hs])
  | false =>
    rw [if_neg (by simp [hte])] at ho
    simp only [Bool.or_eq_true, Bool.and_eq_true, decide_eq_true_eq] at ho
    rcases ho with ⟨hlt, hle⟩ | ⟨hlt, hle⟩
    · rw [yields_iff.2 (.inr ⟨hte, hlt, hle⟩)] at hy
      cases hy
    have hop := SafetyObservation.terminal_of_rank_le hle hte
    exact .inl (SafetyObservation.covers_iff.2 ⟨⟨hk, .inr (.inr ⟨hlt, hle, .inl hop⟩)⟩, .inr hid⟩)

/-- A receipt covers its fact, and what the table keeps goes on from it. -/
def Receipt (t : SafetyTable D) (stored o : SafetyObservation D) : Prop :=
  stored.covers o = true ∧ ∃ row, t.lookup o.key = some row ∧ stored.Replaces row.observation

theorem Receipt.records {stored : SafetyObservation D} (h : Receipt t stored o)
    (hr : Records t t') : Receipt t' stored o := by
  obtain ⟨hc, row, hrow, hstep⟩ := h
  obtain ⟨row', hrow', hn, -⟩ := hr.kept _ row hrow
  exact ⟨hc, row', hrow', hstep.trans hn⟩

theorem Receipt.dominates {stored : SafetyObservation D} (h : Receipt t stored o) :
    ∃ row, t.lookup o.key = some row ∧ row.observation.Dominates o := by
  obtain ⟨hc, row, hrow, hstep⟩ := h
  exact ⟨row, hrow, (SafetyObservation.covers_iff.1 hc).1.replaces hstep⟩

variable {batch : List (SafetyObservation D)} {receipts : List (SafetyObservation D)}
  {error : OutboxStoreError} {first : SafetyObservation D}

theorem from_upsert : From [o] t (upsert t o full nowUs) := by
  intro key row' hrow'
  by_cases hk : key = o.key
  · subst hk
    rcases upsert_cases hrow' with ho | ⟨hold, -⟩
    · exact .inl (by simp [ho])
    · exact .inr ⟨row', hold, rfl⟩
  · exact .inr ⟨row', (AList.lookup_insert_ne hk).symm.trans hrow', rfl⟩

theorem recordEach_eq_ok (ht : Keyed t) (h : recordEach c nowUs t batch = .ok (t', receipts)) :
    Records t t' ∧ From batch t t' ∧ List.Forall₂ (Receipt t') receipts batch := by
  induction batch generalizing t receipts with
  | nil =>
    cases h
    exact ⟨.refl _, .refl _, .nil⟩
  | cons o _ ih =>
    obtain ⟨⟨t₁, stored⟩, hst, h⟩ := bind_eq_ok.1 h
    obtain ⟨hc, h⟩ := refuseIf_bind_eq_ok.1 h
    obtain ⟨⟨t₂, others⟩, ho, h⟩ := bind_eq_ok.1 h
    cases h
    obtain ⟨-, -, ht₁, row, hrow, hsa⟩ := recordSafetyObservationLocked_eq_ok hst
    obtain rfl : t₁ = upsert t o false nowUs := ht₁
    have hf : Records t (upsert t o false nowUs) := records_upsert ht
    obtain ⟨hr, hfr, hrece⟩ := ih (hf.keyed ht) ho
    have hre : Receipt (upsert t o false nowUs) stored o :=
      ⟨by simpa using hc, row, hrow, hsa ▸ .refl _⟩
    refine ⟨hf.trans hr, fun key row' hrow' => ?_, .cons (hre.records hr) hrece⟩
    rcases hfr key row' hrow' with hm | ⟨row, hrow, hs⟩
    · exact .inl (mem_cons_of_mem _ hm)
    rcases from_upsert key row hrow with hm | ⟨old, hold, ho'⟩
    · exact .inl (by simp [hs, mem_singleton.1 hm])
    · exact .inr ⟨old, hold, hs.trans ho'⟩

def batchInOrder (c : EventCodec V D) (nowUs : Int) :
    SafetyTable D → List (SafetyObservation D) → Bool
  | _, [] => true
  | t, o :: rest =>
    inOrder t o && match recordSafetyObservationLocked c t o false nowUs with
      | .error _ => true
      | .ok (t, _) => batchInOrder c nowUs t rest

/-- A fact of a batch whose identity stands for another fact, or that ends
its entity in another way than the retained fact does. -/
inductive Blocked (c : EventCodec V D) (nowUs : Int) :
    SafetyTable D → List (SafetyObservation D) → Prop
  | reused {t o rest} : reused t o = true → Blocked c nowUs t (o :: rest)
  | conflict {t o rest row} : t.lookup o.key = some row → row.observation.conflicts o = true →
      Blocked c nowUs t (o :: rest)
  | later {t t' o stored rest} :
      recordSafetyObservationLocked c t o false nowUs = .ok (t', stored) →
      Blocked c nowUs t' rest → Blocked c nowUs t (o :: rest)

theorem conflict_before (hrow : (upsert t o full nowUs).lookup o.key = some row)
    (hc : row.observation.conflicts o = true) :
    ∃ old, t.lookup o.key = some old ∧ old.observation.conflicts o = true := by
  rcases upsert_cases hrow with ho | ⟨hold, -⟩
  · rw [ho] at hc
    simp [SafetyObservation.conflicts] at hc
  · exact ⟨row, hold, hc⟩

theorem blocked_of_recordEach (ht : Keyed t)
    (hvalid : ∀ o ∈ batch, o.validate c = .ok ()) (hor : batchInOrder c nowUs t batch = true)
    (h : recordEach c nowUs t batch = .error error) : Blocked c nowUs t batch := by
  induction batch generalizing t with
  | nil => cases h
  | cons o rest ih =>
    rw [batchInOrder, Bool.and_eq_true] at hor
    cases hr : reused t o with
    | true => exact .reused hr
    | false =>
      obtain ⟨row, hrow, hrecord⟩ := recordSafetyObservationLocked_ok false nowUs
        (hvalid o mem_cons_self) hr
      rcases covers_upsert ht hr hor.1 hrow with hco | hc
      · refine .later hrecord (ih ((records_upsert ht).keyed ht)
          (fun o ho => hvalid o (mem_cons_of_mem _ ho)) ?_ ?_)
        · simpa only [hrecord] using hor.2
        · rw [recordEach, hrecord, bind_ok] at h
          simp only at h
          rw [refuseIf_bind_of_not (by simp [hco])] at h
          cases hrest : recordEach c nowUs (upsert t o false nowUs) rest with
          | error =>
            rw [hrest] at h
            exact h
          | ok r =>
            rw [hrest, bind_ok] at h
            cases h
      · obtain ⟨old, hold, hc⟩ := conflict_before hrow hc
        exact .conflict hold hc

def Exhausted (t : SafetyTable D) (first : SafetyObservation D)
    (batch : List (SafetyObservation D)) : Prop :=
  maxSafetyEntitiesPerRun < batch.length ∨
    maxSafetyEntitiesPerRun < (entitiesWith t first batch).length ∨
    256 < ((entitiesWith t first batch).filter (· != "lifecycle")).length

theorem recordBody_eq_ok {r : SafetyTable D × List (SafetyObservation D)}
    (h : recordBody c t first batch nowUs = .ok r) : recordEach c nowUs t batch = .ok r := by
  obtain ⟨-, h⟩ := refuseIf_bind_eq_ok.1 h
  obtain ⟨-, -, h⟩ := bind_eq_ok.1 h
  exact (refuseIf_bind_eq_ok.1 h).2

theorem recordBody_eq_error (hvalid : ∀ o ∈ batch, o.validate c = .ok () ∧ o.sameRun first = true)
    (h : recordBody c t first batch nowUs = .error error) :
    Exhausted t first batch ∨ recordEach c nowUs t batch = .error error := by
  by_cases hl : maxSafetyEntitiesPerRun < batch.length
  · exact .inl (.inl hl)
  by_cases hr : maxSafetyEntitiesPerRun < (entitiesWith t first batch).length ∨
      256 < ((entitiesWith t first batch).filter (· != "lifecycle")).length
  · exact .inl (.inr hr)
  rw [recordBody, refuseIf_bind_of_not hl, checkBatch_ok hvalid, bind_ok] at h
  simp only at h
  rw [refuseIf_bind_of_not hr] at h
  exact .inr h

theorem recordSafetyOnly_cases (ht : Keyed t) :
    (∃ t' receipts, recordSafetyOnly c t batch nowUs = (t', .ok receipts) ∧ Records t t' ∧
      From batch t t' ∧ List.Forall₂ (Receipt t') receipts batch) ∨
    ∃ first rest error, batch = first :: rest ∧
      recordSafetyOnly c t batch nowUs = (t, .error error) ∧
      recordBody c t first batch nowUs = .error error := by
  cases batch with
  | nil => exact .inl ⟨t, [], rfl, .refl t, .refl t, .nil⟩
  | cons first rest =>
    cases h : recordBody c t first (first :: rest) nowUs with
    | error error => exact .inr ⟨first, rest, error, rfl, by simp only [recordSafetyOnly, h], h⟩
    | ok r =>
      exact .inl ⟨r.1, r.2, by simp only [recordSafetyOnly, h],
        recordEach_eq_ok ht (recordBody_eq_ok h)⟩

end SafetyTable

end AqEngine.LiveSync
