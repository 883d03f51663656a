import AqEngine.Broker.SnapshotEntries
import AqEngine.Lib.Fallible

namespace AqEngine.Broker

open Lib List Option

section

variable {positions : List Position} {index : Table String Nat} {complete : Bool}

/-- The index finds each position with an id that can be looked up, and no
two positions have one such id. -/
theorem indexPositions_spec (h : indexPositions positions = some (index, complete)) :
    (∀ id i, index.lookup id = some i ↔ ∃ p, positions[i]? = some p ∧ p.indexId = some id) ∧
    (complete = true ↔ ∀ p ∈ positions, p.indexId.isSome = true) := by
  induction positions using List.reverseRecOn generalizing index complete with
  | nil =>
    cases h
    simp
  | append_singleton positions p ih =>
    rw [indexPositions, zipIdx_append, foldlM_append] at h
    obtain ⟨⟨index', complete'⟩, hb, h⟩ := bind_eq_some_iff.1 h
    obtain ⟨hf, hc⟩ := ih hb
    have hrow : ∀ i q, (positions ++ [p])[i]? = some q ↔
        positions[i]? = some q ∨ (i = positions.length ∧ q = p) := by
      intro i q
      rcases lt_trichotomy i positions.length with hi | rfl | hi
      · simp [getElem?_append_left hi, hi.ne]
      · simp [eq_comm]
      · have ho : (positions ++ [p]).length ≤ i := by
          rw [length_append]
          exact hi
        rw [getElem?_eq_none ho, getElem?_eq_none hi.le]
        simp [hi.ne']
    simp only [Nat.zero_add] at h
    obtain ⟨⟨index'', complete''⟩, h, hla⟩ := bind_eq_some_iff.1 h
    cases hla
    unfold indexPosition at h
    split at h
    · next hn =>
      cases h
      refine ⟨fun id i => ?_, ?_⟩
      · rw [hf]
        constructor
        · rintro ⟨q, hq, hid⟩
          exact ⟨q, (hrow i q).2 (.inl hq), hid⟩
        · rintro ⟨q, hq, hid⟩
          obtain hq | ⟨-, rfl⟩ := (hrow i q).1 hq
          · exact ⟨q, hq, hid⟩
          rw [hn] at hid
          cases hid
      · simp [hn]
    · next id hid =>
      split at h
      · cases h
      next hfr =>
      cases h
      refine ⟨fun l i => ?_, ?_⟩
      · rw [Table.lookup_insert_ite]
        constructor
        · intro hl
          split at hl
          · next hl' =>
            cases hl
            exact ⟨p, (hrow _ p).2 (.inr ⟨rfl, rfl⟩), hl' ▸ hid⟩
          obtain ⟨q, hq, hql⟩ := (hf l i).1 hl
          exact ⟨q, (hrow i q).2 (.inl hq), hql⟩
        · rintro ⟨q, hq, hql⟩
          obtain hq | ⟨rfl, rfl⟩ := (hrow i q).1 hq
          · have hl := (hf l i).2 ⟨q, hq, hql⟩
            rw [if_neg]
            · exact hl
            · rintro rfl
              rw [hl] at hfr
              exact hfr rfl
          · rw [hid] at hql
            cases hql
            rw [if_pos rfl]
      · rw [hc, forall_mem_append, forall_mem_singleton, hid]
        exact ⟨fun ha => ⟨ha, rfl⟩, fun ha => ha.1⟩

theorem indexPositions_duplicate {i j : Nat} {p q : Position} {id : String} (hij : i ≠ j)
    (hi : positions[i]? = some p) (hj : positions[j]? = some q) (hp : p.indexId = some id)
    (hq : q.indexId = some id) : indexPositions positions = none := by
  cases h : indexPositions positions with
  | none => rfl
  | some x =>
    obtain ⟨hf, -⟩ := indexPositions_spec h
    have hl := (hf id i).2 ⟨p, hi, hp⟩
    rw [(hf id j).2 ⟨q, hj, hq⟩] at hl
    exact absurd (Option.some.inj hl).symm hij

theorem indexId_eq_some {p : Position} {order : String} (hb : isBlank order = false)
    (hl : order.utf8ByteSize ≤ 512) : p.indexId = some order ↔ p.orderId = some order := by
  unfold Position.indexId
  simp [hb, hl]

end

def scanPositions (positions : List Position) (order : String) : Option Position :=
  positions.find? fun p => decide (p.orderId = some order)

namespace BrokerSnapshotCache

variable {c c' : BrokerSnapshotCache} {now : Instant} {positions : List Position} {generation : Nat}
  {observed : Instant}

theorem readTimed_eq_ok {α : Type} {installed : Option (Timed α)} {maxAge : Nat} {value : α}
    (h : readTimed now installed maxAge = .ok value) :
    ∃ observed, installed = some ⟨value, observed⟩ := by
  cases installed with
  | none => cases h
  | some t =>
    unfold readTimed Timed.read at h
    dsimp only at h
    split at h
    · cases h
      exact ⟨t.observed, rfl⟩
    · cases h

theorem positions_eq_ok (h : c.positions now = .ok positions) :
    ∃ observed, c.state.positions = some ⟨positions, observed⟩ := by
  unfold BrokerSnapshotCache.positions at h
  split at h
  · cases h
  obtain ⟨-, -, h⟩ := Fallible.bind_eq_ok.1 h
  exact readTimed_eq_ok h

theorem positionByOrderId_eq (hin : c.state.Indexed)
    (hpos : c.positions now = .ok positions) {order symbol : String}
    (hb : isBlank order = false) (hle : order.utf8ByteSize ≤ 512)
    (hsy : isBlank symbol = false) :
    c.positionByOrderId now order symbol = match scanPositions positions order with
      | some p => if p.asset.symbol ≠ symbol then .error .invalid else .ok (some p)
      | none =>
        if positions.all (·.indexId.isSome) then .ok none else .error .missing := by
  obtain ⟨observed, hins⟩ := positions_eq_ok hpos
  obtain ⟨hf, hc⟩ := indexPositions_spec (hin _ hins)
  have ha : ¬ (isBlank order || decide (512 < order.utf8ByteSize) || isBlank symbol) = true := by
    simp [hb, hsy, hle]
  have hs : (c.state.positionsByOrder.lookup order).bind (positions[·]?) =
      scanPositions positions order := by
    cases hi : c.state.positionsByOrder.lookup order with
    | some i =>
      obtain ⟨p, hp, hid⟩ := (hf order i).1 hi
      rw [bind_some, hp, scanPositions, eq_comm, find?_eq_some_iff_getElem]
      obtain ⟨hlt, rfl⟩ := List.getElem?_eq_some_iff.1 hp
      refine ⟨decide_eq_true ((indexId_eq_some hb hle).1 hid), i, hlt, rfl, fun j hj => ?_⟩
      rw [Bool.not_eq_true', decide_eq_false_iff_not]
      intro ho
      have hl := (hf order j).2 ⟨_, getElem?_eq_getElem (hj.trans hlt),
        (indexId_eq_some hb hle).2 ho⟩
      rw [hi] at hl
      cases hl
      exact lt_irrefl _ hj
    | none =>
      rw [bind_none, scanPositions, eq_comm, find?_eq_none]
      intro p hp ho
      obtain ⟨j, hj, rfl⟩ := getElem_of_mem hp
      have hl := (hf order j).2 ⟨_, getElem?_eq_getElem hj,
        (indexId_eq_some hb hle).2 (of_decide_eq_true ho)⟩
      rw [hi] at hl
      cases hl
  have hal : c.state.positionIdsComplete = positions.all (·.indexId.isSome) := by
    rw [Bool.eq_iff_iff, hc, List.all_eq_true]
  unfold positionByOrderId
  rw [if_neg ha, hpos, Fallible.bind_ok, hs, hal]
  cases scanPositions positions order with
  | some p => rfl
  | none =>
    cases positions.all (·.indexId.isSome) with
    | true => rfl
    | false => rfl

theorem publishPositions_duplicate {i j : Nat} {p q : Position} {id : String} (hij : i ≠ j)
    (hi : positions[i]? = some p) (hj : positions[j]? = some q) (hp : p.indexId = some id)
    (hq : q.indexId = some id) (ho : ∀ p ∈ positions, trim p.accountId = c.expectedAccount) :
    c.publishPositions generation observed positions = some c := by
  have hs : positions.any (fun p => decide (trim p.accountId ≠ c.expectedAccount)) = false := by
    rw [List.any_eq_false]
    intro p hp
    simp [ho p hp]
  unfold publishPositions
  split
  · rfl
  dsimp only
  rw [hs, if_neg Bool.false_ne_true, indexPositions_duplicate hij hi hj hp hq]

structure Blocked (c : BrokerSnapshotCache) : Prop where
  account : ∀ now value, c.accountAt now ≠ .ok value
  cashFlows : ∀ now value, c.accountCashFlows now ≠ .ok value
  accountCapacity : ∀ now expected slot value,
    c.withFreshAccountCapacity now expected slot ≠ .ok value
  entryCapacity : ∀ now expected slot symbol value,
    c.withFreshEntryCapacity now expected slot symbol ≠ .ok value
  positions : ∀ now value, c.positions now ≠ .ok value
  position : ∀ now order symbol value, c.positionByOrderId now order symbol ≠ .ok value
  orders : ∀ now value, c.orderCapacity now ≠ .ok value
  quote : ∀ now symbol wallNow value, c.quoteAt now symbol wallNow ≠ .ok value

theorem blocked_of_changed (h : c.state.accountChanged = true) : c.Blocked := by
  have ha : ∀ now, c.accountAt now = .error .accountChanged := by
    intro now
    rw [accountAt, if_pos h]
  have hpos : ∀ now, c.positions now = .error .accountChanged := by
    intro now
    rw [BrokerSnapshotCache.positions, if_pos h]
  refine ⟨fun now _ => ?_, fun now _ => ?_, fun now _ _ _ => ?_,
    fun now _ _ _ _ => ?_, fun now _ => ?_,
    fun now _ _ _ => ?_, fun now _ => ?_, fun now _ _ _ => ?_⟩
  · rw [ha]
    nofun
  · rw [accountCashFlows, ha]
    nofun
  · rw [withFreshAccountCapacity, h]
    nofun
  · rw [withFreshEntryCapacity, h]
    nofun
  · rw [hpos]
    nofun
  · rw [positionByOrderId, hpos]
    split
    · nofun
    · nofun
  · rw [orderCapacity, if_pos h]
    nofun
  · rw [quoteAt, if_pos h]
    nofun

theorem publishAccount_changed {account : Account} (haccepts : c.state.accepts generation = true)
    (ho : trim account.accountId ≠ c.expectedAccount)
    (h : c.publishAccount generation observed account = some c') :
    c'.state.accountChanged = true := by
  rw [publishAccount, haccepts, if_pos ho] at h
  obtain ⟨revision, -, h⟩ := bind_eq_some_iff.1 h
  cases h
  rfl

theorem publishPositions_changed (haccepts : c.state.accepts generation = true)
    (hle : positions.length ≤ maxSnapshotPositions)
    (hl : Timed.isLater c.state.positions observed = false)
    (ho : ∃ p ∈ positions, trim p.accountId ≠ c.expectedAccount)
    (h : c.publishPositions generation observed positions = some c') :
    c'.state.accountChanged = true := by
  have ha : positions.any (fun p => decide (trim p.accountId ≠ c.expectedAccount)) = true := by
    obtain ⟨p, hp, ho⟩ := ho
    exact List.any_eq_true.2 ⟨p, hp, decide_eq_true ho⟩
  rw [publishPositions, if_neg (by omega)] at h
  simp only [ha, haccepts, hl] at h
  obtain ⟨revision, -, h⟩ := bind_eq_some_iff.1 h
  cases h
  rfl

end BrokerSnapshotCache

end AqEngine.Broker
