import AqEngine.Insights.Lifecycle

namespace AqEngine.Insights

open Lib Broker Insight

variable (round : Asset → F64 → F64) (records : List PartialCloseResult)

def closedQuantity : F64 := records.foldl (fun sum r => sum + r.quantity) 0

def closedNotional : F64 :=
  records.foldl (fun sum r => sum + r.quantity * r.filledPrice.getD r.entryPrice) 0

def recordsOf (orderId : String) (records : List PartialCloseResult) :
    List PartialCloseResult := records.filter (·.orderId == orderId)

theorem closedQuantity_append (r : PartialCloseResult) :
    closedQuantity (records ++ [r]) = closedQuantity records + r.quantity := by
  simp [closedQuantity]

theorem closedNotional_append (r : PartialCloseResult) : closedNotional (records ++ [r]) =
      closedNotional records + r.quantity * r.filledPrice.getD r.entryPrice := by
  simp [closedNotional]

theorem foldl_pair {α β γ : Type} (f : β → α → β) (g : γ → α → γ) (l : List α) (b : β) (c : γ) :
    l.foldl (fun (s : β × γ) a => (f s.1 a, g s.2 a)) (b, c) = (l.foldl f b, l.foldl g c) := by
  induction l generalizing b c with
  | nil => rfl
  | cons a l ih => exact ih (f b a) (g c a)

theorem previouslyClosed_eq (orderId : String) : previouslyClosed records orderId =
      (closedQuantity (recordsOf orderId records), closedNotional (recordsOf orderId records)) :=
  foldl_pair (fun sum (r : PartialCloseResult) => sum + r.quantity)
    (fun sum r => sum + r.quantity * r.filledPrice.getD r.entryPrice) _ 0 0

/-- Run of evidence together with the last snapshot of each exit order that
was accepted, that is, that added a record. -/
def acceptExit (s : Insight × (String → Option Order)) (e : Evidence) :
    Insight × (String → Option Order) :=
  let next := deliver round s.1 e
  (next, if next.partialCloses = s.1.partialCloses then s.2
    else Function.update s.2 e.order.orderId (some e.order))

def exitRun (i : Insight) (es : List Evidence) : Insight × (String → Option Order) :=
  es.foldl (acceptExit round) (i, fun _ => none)

def lastAccepted (i : Insight) (es : List Evidence) (orderId : String) : Option Order :=
  (exitRun round i es).2 orderId

theorem exitRun_fst (i : Insight) (es : List Evidence) :
    (exitRun round i es).1 = deliverAll round i es :=
  (List.foldl_hom Prod.fst fun _ _ => rfl).symm

def OrderAccounted : Option Order → Prop
  | none => records = []
  | some s => records ≠ [] ∧ ∃ f n : ℚ, s.filledQty = .finite f ∧
      s.filledQty * closePriceFromOrder s = .finite n ∧
      closedQuantity records = .finite f ∧ closedNotional records = .finite n

structure ExitAccounted (j : Insight) (last : String → Option Order) : Prop where
  total : ∃ c : ℚ, closedQuantity j.partialCloses = .finite c ∧
    j.partialFilledQuantity.getD 0 = .finite c
  bound : ∀ f, j.entryFilledQuantity = some f → j.partialCloses ≠ [] →
    closedQuantity j.partialCloses ≤ f
  filled : j.partialCloses ≠ [] → j.state = .filled ∨ j.state = .closed
  orders : ∀ o, OrderAccounted (recordsOf o j.partialCloses) (last o)

theorem ExitAccounted.start {i : Insight} (hc : i.partialCloses = [])
    (hfilled : i.partialFilledQuantity = none) : ExitAccounted i (fun _ => none) where
  total := ⟨0, by rw [hc]; rfl, by rw [hfilled]; rfl⟩
  bound := fun _ _ h => absurd hc h
  filled := fun h => absurd hc h
  orders := fun o => by simp [OrderAccounted, recordsOf, hc]

/-- Evidence that adds no record and moves neither the fill nor an exited
position out of its states keeps the accounting. -/
theorem ExitAccounted.keep {j k : Insight} {last : String → Option Order}
    (h : ExitAccounted j last) (hc : k.partialCloses = j.partialCloses)
    (hfilled : k.partialFilledQuantity = j.partialFilledQuantity)
    (he : j.partialCloses ≠ [] → k.entryFilledQuantity = j.entryFilledQuantity)
    (hs : j.partialCloses ≠ [] → k.state = .filled ∨ k.state = .closed) :
    ExitAccounted k last where
  total := by
    rw [hc, hfilled]
    exact h.total
  bound := fun f hf hne => by
    rw [hc] at hne ⊢
    exact h.bound f ((he hne).symm.trans hf) hne
  filled := by
    rw [hc]
    exact hs
  orders := by
    rw [hc]
    exact h.orders

/-- The increment of an accepted snapshot brings the order's records up to
that snapshot, in quantity and in notional. -/
theorem OrderAccounted.increment {records : List PartialCloseResult} {last : Option Order}
    (h : OrderAccounted records last) {s : Order} {r : PartialCloseResult}
    (hs : s.filledQty.isFinite = true)
    (hqty : r.quantity = s.filledQty - closedQuantity records)
    (hpos : ¬ r.quantity ≤ 0)
    (hprice : r.filledPrice = some ((s.filledQty * closePriceFromOrder s -
      closedNotional records) / r.quantity))
    (hpriced : ∃ p, r.filledPrice = some (.finite p)) :
    OrderAccounted (records ++ [r]) (some s) := by
  obtain ⟨f, hf⟩ := F64.isFinite_iff.mp hs
  obtain ⟨q0, n0, hq0, hn0⟩ : ∃ q0 n0 : ℚ, closedQuantity records = .finite q0 ∧
      closedNotional records = .finite n0 := by
    cases last with
    | none =>
        rw [show records = [] from h]
        exact ⟨0, 0, rfl, rfl⟩
    | some =>
        obtain ⟨-, q0, n0, -, -, hq0, hn0⟩ := h
        exact ⟨q0, n0, hq0, hn0⟩
  obtain ⟨p, hp⟩ := hpriced
  have hr : r.quantity = .finite (f - q0) := by rw [hqty, hf, hq0, F64.finite_sub]
  have hne : f - q0 ≠ 0 := by
    intro h0
    rw [hr, h0] at hpos
    exact hpos ((F64.finite_le_zero 0).mpr le_rfl)
  have hv := Option.some.inj (hp.symm.trans hprice)
  rw [hr, hn0] at hv
  obtain ⟨n, hn⟩ : ∃ n : ℚ, s.filledQty * closePriceFromOrder s = .finite n :=
    F64.isFinite_iff.mp (F64.isFinite_of_sub_div (hv ▸ F64.isFinite_finite p))
  have hpn : p * (f - q0) = n - n0 := by
    rw [hn, F64.finite_sub, F64.finite_div _ _ hne] at hv
    cases hv
    field_simp
  refine ⟨by simp, f, n, hf, hn, ?_, ?_⟩
  · rw [closedQuantity_append, hq0, hr, F64.finite_add]
    congr 1
    ring
  · rw [closedNotional_append, hn0, hr, hp, Option.getD_some, F64.finite_mul, F64.finite_add]
    congr 1
    linarith

theorem closed_le_of_remaining {size : F64} {c q : ℚ} (hq : 0 < q)
    (h : ¬ F64.max (size - .finite c) 0 < .finite q) : F64.finite (c + q) ≤ size := by
  cases size with
  | finite s =>
      rw [F64.finite_sub, F64.zero_eq, F64.max_finite, F64.finite_lt, not_lt] at h
      rw [F64.finite_le]
      obtain hle | hle := le_max_iff.mp h
      · linarith
      · exact absurd hle (not_le.mpr hq)
  | infinity negative =>
      cases negative with
      | false => rfl
      | true =>
          have hz : F64.max (.infinity true - .finite c) 0 = .finite 0 := rfl
          rw [hz, F64.finite_lt, not_lt] at h
          exact absurd h (not_le.mpr hq)
  | nan =>
      have hz : F64.max (.nan - .finite c) 0 = .finite 0 := rfl
      rw [hz, F64.finite_lt, not_lt] at h
      exact absurd h (not_le.mpr hq)

section

variable {round}
variable {j : Insight} {last : String → Option Order} {e : Evidence}

theorem acceptExit_keep (h : ExitAccounted j last) {x : Execution}
    (hx : (deliver round j e).execution = x) (hc : x.partialCloses = j.partialCloses)
    (hfilled : x.partialFilledQuantity = j.partialFilledQuantity)
    (he : j.partialCloses ≠ [] → x.entryFilledQuantity = j.entryFilledQuantity)
    (hst : j.partialCloses ≠ [] → x.state = .filled ∨ x.state = .closed) :
    ExitAccounted (acceptExit round (j, last) e).1 (acceptExit round (j, last) e).2 := by
  subst hx
  have hs : (deliver round j e).partialCloses = j.partialCloses := hc
  simp only [acceptExit, hs]
  exact h.keep hc hfilled he hst

/-- A row with exits on record is filled or closed, so branches that need
another state are out. -/
theorem ExitAccounted.no_closes (h : ExitAccounted j last) {P : Prop}
    (hs : j.state ≠ .filled ∧ j.state ≠ .closed) : j.partialCloses ≠ [] → P := fun hne => by
  obtain hf | hc := h.filled hne
  · exact absurd hf hs.1
  · exact absurd hc hs.2

theorem recordsOf_append (o : String) (records : List PartialCloseResult) (r : PartialCloseResult) :
    recordsOf o (records ++ [r]) =
      if r.orderId = o then recordsOf o records ++ [r] else recordsOf o records := by
  by_cases h : r.orderId = o <;> simp [recordsOf, h]

theorem exitAccounted_accept (h : ExitAccounted j last)
    {r : PartialCloseResult} (hs : j.state = .filled) (hid : r.orderId = e.order.orderId)
    (hqty : r.quantity = e.order.filledQty - (previouslyClosed j.partialCloses e.order.orderId).1)
    (hprice : r.filledPrice = some ((e.order.filledQty * closePriceFromOrder e.order -
      (previouslyClosed j.partialCloses e.order.orderId).2) / r.quantity))
    (hfi : e.order.filledQty.isFinite = true) (hclose : r.quantity.isFinite = true)
    (hpos : ¬ r.quantity ≤ 0) (hle : ¬ j.remainingQuantity < r.quantity)
    (hpriced : ∃ p, r.filledPrice = some (.finite p)) {k : Insight}
    (hcl : k.partialCloses = j.partialCloses ++ [r])
    (hfilled : k.partialFilledQuantity = some (j.partialFilledQuantity.getD 0 + r.quantity))
    (he : k.entryFilledQuantity = j.entryFilledQuantity) (hst : k.state = .filled) :
    ExitAccounted k (Function.update last e.order.orderId (some e.order)) := by
  obtain ⟨c, hc, hc'⟩ := h.total
  obtain ⟨q, hq⟩ := F64.isFinite_iff.mp hclose
  have hq0 : 0 < q := by
    rw [hq, F64.finite_le_zero, not_le] at hpos
    exact hpos
  have hsu : closedQuantity k.partialCloses = .finite (c + q) := by
    rw [hcl, closedQuantity_append, hc, hq, F64.finite_add]
  refine ⟨⟨c + q, hsu, ?_⟩, ?_, fun _ => .inl hst, fun o => ?_⟩
  · rw [hfilled, Option.getD_some, hc', hq, F64.finite_add]
  · intro f hf _
    rw [hsu]
    refine closed_le_of_remaining hq0 ?_
    rw [he] at hf
    rw [hq] at hle
    simpa [remainingQuantity, hs, hf, hc'] using hle
  · rw [hcl, recordsOf_append, hid]
    rw [previouslyClosed_eq] at hqty hprice
    by_cases ho : e.order.orderId = o
    · subst ho
      rw [if_pos rfl, Function.update_self]
      exact (h.orders e.order.orderId).increment hfi hqty hpos hprice hpriced
    rw [if_neg ho, Function.update_of_ne (Ne.symm ho)]
    exact h.orders o

theorem acceptExit_accounted (h : ExitAccounted j last) :
    ExitAccounted (acceptExit round (j, last) e).1 (acceptExit round (j, last) e).2 := by
  have hr := deliver_reduces round j e
  generalize hx : (deliver round j e).execution = x at hr
  cases hr with
  | unchanged | accounted _ hs => exact acceptExit_keep h hx rfl rfl (fun _ => rfl) h.filled
  | closed => exact acceptExit_keep h hx rfl rfl (fun _ => rfl) fun _ => .inr rfl
  | remainderKept => exact acceptExit_keep h hx rfl rfl (fun _ => rfl) fun _ => .inl rfl
  | accepted hs => exact acceptExit_keep h hx rfl rfl (fun _ => rfl) (h.no_closes (by simp [hs]))
  | entryFilled hs | partialFilled hs | lateFilled hs =>
      have ho : j.state ≠ .filled ∧ j.state ≠ .closed := by obtain hs | hs := hs <;> simp [hs]
      exact acceptExit_keep h hx rfl rfl (h.no_closes ho) (h.no_closes ho)
  | entryEnded _ hs =>
      have ho : j.state ≠ .filled ∧ j.state ≠ .closed := by obtain hs | hs := hs <;> simp [hs]
      exact acceptExit_keep h hx rfl rfl (fun _ => rfl) (h.no_closes ho)
  | partialClosed closeQty closePrice hs hevent hsource hside hqty hprice hfilled hclose hpos
      hle hpriced hprice0 =>
      have hc : (deliver round j e).partialCloses = j.partialCloses ++ [_] :=
        congrArg Execution.partialCloses hx
      have hn : (deliver round j e).partialCloses ≠ j.partialCloses := by
        rw [hc]
        simp
      obtain ⟨p, hp⟩ := F64.isFinite_iff.mp hpriced
      simp only [acceptExit, hn]
      exact exitAccounted_accept h hs rfl hqty (congrArg some hprice) hfilled hclose hpos hle
        ⟨p, congrArg some hp⟩ hc (congrArg Execution.partialFilledQuantity hx)
        (congrArg Execution.entryFilledQuantity hx) (congrArg Execution.state hx)

theorem partialCloseExit_older (h : ExitAccounted j last) {order s : Order}
    (hl : last order.orderId = some s) (hle : order.filledQty ≤ s.filledQty) (t : Clock) :
    partialCloseExit round t j order = (j, .ignored) := by
  have ho := h.orders order.orderId
  rw [hl] at ho
  obtain ⟨-, f, n, hf, -, hq, -⟩ := ho
  have hp : (previouslyClosed j.partialCloses order.orderId).1 = .finite f := by
    rw [previouslyClosed_eq, hq]
  simp only [partialCloseExit, hp]
  cases hm : order.filledQty with
  | finite m =>
      rw [hm, hf, F64.finite_le] at hle
      simp [hle]
  | infinity => rfl
  | nan => rfl

theorem deliver_older (h : ExitAccounted j last) (hevent : e.event = .partialFilled) {s : Order}
    (hl : last e.order.orderId = some s) (hle : e.order.filledQty ≤ s.filledQty) :
    deliver round j e = j := by
  have hc : j.partialCloses ≠ [] := by
    intro hn
    have ho := h.orders e.order.orderId
    rw [hl, hn] at ho
    exact ho.1 rfl
  have hu : accountingUpdate e.clock j e.order e.event e.source = none := by
    simp [accountingUpdate, hevent]
  have hh : closesFromHistory round j e.order e.event e.source = false := by
    simp [closesFromHistory, hevent]
  have hk : keptFill j e.order e.event = none := by simp [keptFill, endsEntry, hevent]
  have ht : reduceTransition round e.clock j e.order e.event e.source = (j, .ignored) := by
    obtain hs | hs := h.filled hc
    · simp only [reduceTransition, hs, hevent]
      split
      · exact partialCloseExit_older h hl hle e.clock
      · rfl
    · simp [reduceTransition, hs]
  unfold deliver reduceBrokerOrder
  split
  · rfl
  simp only [hu, hh, reduceOwned, hk, ht]
  rfl

end

theorem exitRun_accounted {i : Insight} (hc : i.partialCloses = [])
    (hfilled : i.partialFilledQuantity = none) (es : List Evidence) :
    ExitAccounted (deliverAll round i es) (lastAccepted round i es) := by
  have h : ExitAccounted (exitRun round i es).1 (exitRun round i es).2 :=
    List.foldlRecOn (motive := fun s => ExitAccounted s.1 s.2) es (acceptExit round)
      (.start hc hfilled) fun _ hs _ _ => acceptExit_accounted hs
  rw [← exitRun_fst]
  exact h

theorem remainingQuantity_nonneg (j : Insight) : ¬ j.remainingQuantity < 0 := by
  have hm : ∀ x : F64, ¬ F64.max x 0 < 0 := by
    intro x
    cases x with
    | finite q =>
        rw [F64.zero_eq, F64.max_finite, F64.finite_lt, not_lt]
        exact le_max_right q 0
    | infinity negative => cases negative <;> decide +kernel
    | nan => decide +kernel
  exact hm _

/-- Exits are conserved along every run of evidence that starts without
any: the records add up to the quantity closed, stay within the entry fill,
and per exit order to its last accepted snapshot; a snapshot that is not
beyond the accepted one is without effect. -/
theorem exit_accounting {i : Insight} (hcloses : i.partialCloses = [])
    (hfilled : i.partialFilledQuantity = none) (es : List Evidence) :
    let j := deliverAll round i es
    closedQuantity j.partialCloses = j.partialFilledQuantity.getD 0 ∧
    (∀ f, j.entryFilledQuantity = some f → j.partialCloses ≠ [] →
      closedQuantity j.partialCloses ≤ f) ∧
    (∀ r ∈ j.partialCloses, ∃ s, lastAccepted round i es r.orderId = some s ∧
      closedQuantity (recordsOf r.orderId j.partialCloses) = s.filledQty ∧
      closedNotional (recordsOf r.orderId j.partialCloses) =
        s.filledQty * closePriceFromOrder s) ∧
    ¬ j.remainingQuantity < 0 ∧
    (∀ e s, e.event = .partialFilled → lastAccepted round i es e.order.orderId = some s →
      e.order.filledQty ≤ s.filledQty → deliver round j e = j) := by
  have h := exitRun_accounted round hcloses hfilled es
  refine ⟨?_, h.bound, fun r hr => ?_, remainingQuantity_nonneg _,
    fun e s hevent hla hle => deliver_older h hevent hla hle⟩
  · obtain ⟨c, hc, hc'⟩ := h.total
    rw [hc, hc']
  · have hor := h.orders r.orderId
    have hmem : r ∈ recordsOf r.orderId (deliverAll round i es).partialCloses := by
      simp [recordsOf, hr]
    cases hla : lastAccepted round i es r.orderId with
    | none =>
        rw [hla] at hor
        rw [show recordsOf r.orderId (deliverAll round i es).partialCloses = [] from hor]
          at hmem
        simp at hmem
    | some s =>
        rw [hla] at hor
        obtain ⟨-, f, n, hf, hn, hq, hv⟩ := hor
        exact ⟨s, rfl, by rw [hq, hf], by rw [hv, hn]⟩

theorem exit_accounting_two_snapshots :
    let es := [sampleReport "1" .buy 2 1 .filled, sampleReport "2" .sell 1 3 .partialFilled,
      sampleReport "2" .sell 2 4 .partialFilled]
    (deliverAll dynamicRoundForAsset sampleInsight es).partialCloses.map (·.filledPrice) =
        [some 3, some 5] ∧
      closedQuantity (deliverAll dynamicRoundForAsset sampleInsight es).partialCloses =
        (deliverAll dynamicRoundForAsset sampleInsight es).partialFilledQuantity.getD 0 :=
  ⟨by decide +kernel, (exit_accounting dynamicRoundForAsset rfl rfl _).1⟩

end AqEngine.Insights
