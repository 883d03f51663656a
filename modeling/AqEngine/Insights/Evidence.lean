import AqEngine.Insights.OrderReducer

namespace AqEngine.Insights

open Lib Broker Insight

variable (round : Asset → F64 → F64) (t : Clock) (i : Insight) (order : Order)

variable {quantity price : F64}

theorem aside_syncTakeProfit (legs : OrderLegs) :
    Aside i (syncTakeProfit round t legs order i) := by
  unfold syncTakeProfit
  split
  · split
    · exact aside_setTakeProfitLevels t i _
    · exact .refl i
  · exact .refl i

theorem aside_syncStopLoss (legs : OrderLegs) : Aside i (syncStopLoss round t legs order i) := by
  unfold syncStopLoss
  split
  · split
    · exact aside_setStopLossLevels t i _
    · exact .refl i
  · exact .refl i

theorem aside_syncTrailingStop (legs : OrderLegs) :
    Aside i (syncTrailingStop round t legs order i) := by
  unfold syncTrailingStop
  split
  · exact aside_setTrailingStopPrice t i _
  · exact .refl i

theorem aside_sync : Aside i (syncBrokerManagedLevels round t i order) := by
  unfold syncBrokerManagedLevels
  split
  · exact .refl i
  split
  · exact ⟨rfl, rfl⟩
  next legs _ _ =>
  have hs := ((aside_syncTakeProfit round t i order legs).trans
    (aside_syncStopLoss round t _ order legs)).trans (aside_syncTrailingStop round t _ order legs)
  exact ⟨hs.execution, hs.pending⟩

@[simp] theorem execution_sync :
    (syncBrokerManagedLevels round t i order).execution = i.execution :=
  (aside_sync round t i order).execution

theorem execution_replaceEntry : (replaceEntry round t i order).execution = i.execution := by
  dsimp only [replaceEntry]
  rw [execution_sync]
  split <;> split <;> rfl

theorem execution_acceptIfNew (hs : i.state = .new ∨ i.state = .executed) :
    (acceptIfNew t i order).execution =
      { i.execution with
        orderId := if i.state = .new then some order.orderId else i.orderId
        state := .executed } := by
  unfold acceptIfNew
  obtain hs | hs := hs
  · simp [hs]
  rw [if_neg (by simp [hs]), if_neg (by simp [hs]), ← hs]
  rfl

theorem execution_fillEntry : (fillEntry round t i order).execution =
      { i.execution with
        orderId := some order.orderId
        filledPrice := some (orderPrice round order)
        entryFilledQuantity := some order.filledQty
        commission := orderCommission round order
        state := .filled } := by
  rw [fillEntry, execution_sync, execution_positionFilled]

theorem validFill_iff : validFill round order = true ↔
      order.filledQty.isPositive = true ∧ (orderPrice round order).isPositive = true := by
  simp [validFill, F64.isPositive, and_assoc]

theorem execution_partialFillEntry (hs : i.state = .new ∨ i.state = .executed)
    (hvalid : validFill round order = true)
    (hgt : ¬ order.filledQty ≤ i.entryFilledQuantity.getD 0) :
    (partialFillEntry round t i order).execution =
      { i.execution with
        orderId := if i.state = .new then some order.orderId else i.orderId
        filledPrice := some (orderPrice round order)
        entryFilledQuantity := some order.filledQty
        commission := (orderCommission round order).or i.commission
        state := .executed } := by
  have ha := execution_acceptIfNew t i order hs
  have hr := congrArg Execution.entryFilledQuantity ha
  have hc := congrArg Execution.commission ha
  dsimp only [execution] at hr hc
  obtain ⟨hq, hp⟩ := (validFill_iff round order).mp hvalid
  have hf : order.filledQty.isFinite = true := (Bool.and_eq_true _ _ ▸ hq).1
  rw [partialFillEntry, execution_sync, execution_partialFilled t _ _ hf
    (by rw [hr]; exact hgt) hp, ha, hc]

theorem execution_preserveRemainder (event : TradeUpdateEvent)
    (hfill : i.entryFilledQuantity = some quantity ∧ i.filledPrice = some price) :
    (preserveRemainder t i order event quantity price).1.execution =
      { i.execution with
        orderId := some order.orderId
        suppressChildEntries := true
        state := .filled } := by
  dsimp only [preserveRemainder]
  rw [(aside_stateLog t _ _).execution, execution_positionFilled,
    (aside_setQuantity t _ _).execution, ← hfill.1, ← hfill.2]
  rfl

theorem recordedFill_eq_some {i : Insight} (h : recordedFill i = some (quantity, price)) :
    i.entryFilledQuantity = some quantity ∧ i.filledPrice = some price ∧
      quantity.isPositive = true ∧ price.isPositive = true := by
  unfold recordedFill at h
  split at h
  · rename_i q p hq hp
    split at h
    · rename_i hvalid
      obtain ⟨rfl, rfl⟩ := Prod.mk.inj (Option.some.inj h)
      exact ⟨hq, hp, by simp [F64.isPositive, hvalid], by simp [F64.isPositive, hvalid]⟩
    · cases h
  · cases h

theorem recordedFill_of_positive {i : Insight}
    (hq : i.entryFilledQuantity = some quantity) (hp : i.filledPrice = some price)
    (hq0 : quantity.isPositive = true) (hp0 : price.isPositive = true) :
    recordedFill i = some (quantity, price) := by
  simp only [F64.isPositive, Bool.and_eq_true, decide_eq_true_eq] at hq0 hp0
  simp [recordedFill, hq, hp, hq0, hp0]

/-- Everything that one piece of evidence can do to the execution record.
Each constructor is a branch of the reducer with the guards that led to it;
branches that leave the record alone are all `unchanged`. -/
inductive Reduces (event : TradeUpdateEvent) (source : OrderEvidenceSource) :
    Execution → Prop
  | unchanged : Reduces event source i.execution
  | accounted (observed : Option PositionCloseAccounting) (hs : i.state = .closed) :
      Reduces event source { i.execution with positionAccounting := observed }
  | closed (price : F64) (pnl commission swap : Option F64)
      (observed : Option PositionCloseAccounting) (suppress : Bool)
      (hs : i.state.isActive = true) :
      Reduces event source
        { i.execution with
          closePrice := some price
          closeOrderId := some order.orderId
          brokerRealizedPnl := pnl
          commission := commission
          swap := swap
          positionAccounting := observed
          suppressChildEntries := suppress
          state := .closed }
  | remainderKept (quantity price : F64) (hs : i.state = .new ∨ i.state = .executed)
      (hfill : recordedFill i = some (quantity, price)) :
      Reduces event source
        { i.execution with
          orderId := some order.orderId
          suppressChildEntries := true
          state := .filled }
  | accepted (hs : i.state = .new) :
      Reduces event source
        { i.execution with orderId := some order.orderId, state := .executed }
  | entryFilled (hs : i.state = .new ∨ i.state = .executed)
      (hvalid : validFill round order = true) :
      Reduces event source
        { i.execution with
          orderId := some order.orderId
          filledPrice := some (orderPrice round order)
          entryFilledQuantity := some order.filledQty
          commission := orderCommission round order
          state := .filled }
  | partialFilled (hs : i.state = .new ∨ i.state = .executed)
      (hvalid : validFill round order = true)
      (hgt : ¬ order.filledQty ≤ i.entryFilledQuantity.getD 0) :
      Reduces event source
        { i.execution with
          orderId := if i.state = .new then some order.orderId else i.orderId
          filledPrice := some (orderPrice round order)
          entryFilledQuantity := some order.filledQty
          commission := (orderCommission round order).or i.commission
          state := .executed }
  | partialClosed (closeQty closePrice : F64) (hs : i.state = .filled)
      (hevent : event = .partialFilled) (hsource : source = .tradeStream)
      (hside : order.side ≠ i.side)
      (hqty : closeQty = order.filledQty - (previouslyClosed i.partialCloses order.orderId).1)
      (hprice : closePrice = (order.filledQty * closePriceFromOrder order -
        (previouslyClosed i.partialCloses order.orderId).2) / closeQty)
      (hfilled : order.filledQty.isFinite = true) (hclose : closeQty.isFinite = true)
      (hpos : ¬ closeQty ≤ 0) (hle : ¬ i.remainingQuantity < closeQty)
      (hpriced : closePrice.isFinite = true) (hprice0 : ¬ closePrice ≤ 0) :
      Reduces event source
        { i.execution with
          partialFilledQuantity := some (i.partialFilledQuantity.getD 0 + closeQty)
          commission := (orderCommission round order).or i.commission
          partialCloses := i.partialCloses ++
            [⟨order.orderId, i.side, closeQty, i.entryPrice.getD 0, some closePrice⟩]
          state := .filled }
  | entryEnded (ended : InsightState) (hs : i.state = .new ∨ i.state = .executed)
      (hended : ended = .cancelled ∨ ended = .rejected) (hfill : recordedFill i = none) :
      Reduces event source { i.execution with state := ended }
  | lateFilled (hs : i.state = .cancelled ∨ i.state = .rejected) (hevent : event = .filled)
      (hvalid : validFill round order = true) :
      Reduces event source
        { i.execution with
          orderId := some order.orderId
          filledPrice := some (orderPrice round order)
          entryFilledQuantity := some order.filledQty
          commission := orderCommission round order
          suppressChildEntries := true
          state := .filled }

section

variable {round t i order} {event : TradeUpdateEvent} {source : OrderEvidenceSource}

theorem reduces_accept (hs : i.state = .new) : Reduces round i order event source
      (syncBrokerManagedLevels round t (i.orderAccepted t order.orderId) order).execution := by
  rw [execution_sync, execution_orderAccepted]
  exact .accepted hs

theorem reduces_fill (hs : i.state = .new ∨ i.state = .executed)
    (hvalid : validFill round order = true) :
    Reduces round i order event source
      (fillEntry round t (acceptIfNew t i order) order).execution := by
  rw [execution_fillEntry, execution_acceptIfNew t i order hs]
  exact .entryFilled hs hvalid

theorem reduces_partialFill (hs : i.state = .new ∨ i.state = .executed)
    (hvalid : validFill round order = true)
    (hgt : ¬ order.filledQty ≤ i.entryFilledQuantity.getD 0) :
    Reduces round i order event source (partialFillEntry round t i order).execution := by
  rw [execution_partialFillEntry round t i order hs hvalid hgt]
  exact .partialFilled hs hvalid hgt

theorem reduces_partialClose (hs : i.state = .filled) (hevent : event = .partialFilled)
    (hsource : source = .tradeStream) (hside : order.side ≠ i.side) :
    Reduces round i order event source (partialCloseExit round t i order).1.execution := by
  simp only [partialCloseExit]
  split
  · exact .unchanged
  rename_i h
  simp only [Bool.or_eq_true, Bool.not_eq_true', decide_eq_true_eq, not_or, Bool.not_eq_false] at h
  obtain ⟨⟨⟨⟨⟨hfilled, hclose⟩, hpos⟩, hle⟩, hpriced⟩, hprice0⟩ := h
  rw [execution_partialClosed]
  exact .partialClosed _ _ hs hevent hsource hside rfl rfl hfilled hclose hpos hle hpriced hprice0

theorem reduces_ended (ended : InsightState) (hs : i.state = .new ∨ i.state = .executed)
    (hended : ended = .cancelled ∨ ended = .rejected) (hfill : recordedFill i = none) :
    Reduces round i order event source
      { (syncBrokerManagedLevels round t i order).execution with
        state := (syncBrokerManagedLevels round t i order).state.next ended } := by
  have hst := congrArg Execution.state (execution_sync round t i order)
  dsimp only [execution] at hst
  have hn : i.state.next ended = ended :=
    InsightState.next_eq_requested (by obtain h | h := hs <;> simp [h])
  rw [execution_sync, hst, hn]
  exact .entryEnded ended hs hended hfill

theorem reduces_closeExit (hs : i.state.isActive = true) :
    Reduces round i order event source (closeExit round t i order).1.execution := by
  simp only [closeExit]
  split
  · exact .unchanged
  obtain ⟨observed, hobserved⟩ := execution_observeAccounting t
    ((syncBrokerManagedLevels round t i order).positionClosed t
      (round order.asset (closePriceFromOrder order)) order.orderId
      (roundOrderOptionValue round order order.realizedPnl) (orderCommission round order)
      (roundOrderOptionValue round order order.swap)) order.positionAccounting
  rw [hobserved, execution_positionClosed, execution_sync]
  exact .closed _ _ _ _ observed i.suppressChildEntries hs

theorem reduces_closeFromHistory (hs : i.state.isActive = true) :
    Reduces round i order event source (closeFromHistory round t i order).1.execution := by
  obtain ⟨observed, hobserved⟩ := execution_observeAccounting t
    ({ i with suppressChildEntries := true }.positionClosed t (orderPrice round order)
      order.orderId order.realizedPnl order.commission order.swap) order.positionAccounting
  dsimp only [closeFromHistory]
  rw [hobserved, execution_positionClosed]
  exact .closed _ _ _ _ observed true hs

theorem reduces_remainder {quantity price : F64} (hs : i.state = .new ∨ i.state = .executed)
    (hfill : recordedFill i = some (quantity, price)) :
    Reduces round i order event source
      (preserveRemainder t i order event quantity price).1.execution := by
  obtain ⟨hq, hp, -, -⟩ := recordedFill_eq_some hfill
  rw [execution_preserveRemainder t i order event ⟨hq, hp⟩]
  exact .remainderKept quantity price hs hfill

theorem reduces_late (hs : i.state = .cancelled ∨ i.state = .rejected)
    (hevent : event = .filled) (hvalid : validFill round order = true) :
    Reduces round i order event source
      (fillEntry round t { i with suppressChildEntries := true } order).execution := by
  rw [execution_fillEntry]
  exact .lateFilled hs hevent hvalid

theorem reduces_guard {b : Bool} {r : Insight × OrderReduction}
    (h : b = true → Reduces round i order event source r.1.execution) :
    Reduces round i order event source (if b = true then r else (i, .ignored)).1.execution := by
  split
  · rename_i hb
    exact h hb
  · exact .unchanged

theorem endsEntry_of (hs : i.state = .new ∨ i.state = .executed) (he : entryOrder i order = true)
    (hevent : event = .cancelled ∨ event = .expired ∨ event = .rejected) :
    endsEntry i order event = true := by
  simp [endsEntry, hs, he, or_assoc, hevent]

theorem reduceTransition_reduces (hfill : endsEntry i order event = true → recordedFill i = none) :
    Reduces round i order event source
      (reduceTransition round t i order event source).1.execution := by
  dsimp only [reduceTransition]
  -- The goals follow the rows of the table.
  split
  iterate 4
    next hs => exact reduces_guard fun _ => reduces_accept hs
  iterate 2
    next hs =>
      refine reduces_guard fun hg => ?_
      simp only [Bool.and_eq_true] at hg
      exact reduces_fill (by simp [hs]) hg.2
  iterate 2
    next hs =>
      refine reduces_guard fun hg => ?_
      simp only [Bool.and_eq_true] at hg
      split
      · exact .unchanged
      rename_i hgt
      exact reduces_partialFill (by simp [hs]) hg.2 hgt
  next hs =>
    refine reduces_guard fun hg => ?_
    simp only [Bool.and_eq_true, Bool.not_eq_true', beq_eq_false_iff_ne, beq_iff_eq] at hg
    exact reduces_partialClose hs rfl hg.2 hg.1
  iterate 4
    next hs =>
      refine reduces_guard fun he => ?_
      rw [execution_orderCancelled]
      exact reduces_ended .cancelled (by simp [hs]) (.inl rfl)
        (hfill (endsEntry_of (by simp [hs]) he (by simp)))
  iterate 2
    next hs =>
      refine reduces_guard fun he => ?_
      rw [execution_orderRejected]
      exact reduces_ended .rejected (by simp [hs]) (.inr rfl)
        (hfill (endsEntry_of (by simp [hs]) he (by simp)))
  next hs =>
    refine reduces_guard fun _ => ?_
    rw [execution_replaceEntry]
    exact .unchanged
  iterate 2
    next hs => exact reduces_guard fun _ => reduces_closeExit (by rw [hs]; rfl)
  iterate 2
    next hs =>
      refine reduces_guard fun hg => ?_
      simp only [Bool.and_eq_true] at hg
      exact reduces_late (by simp [hs]) rfl hg.2
  exact .unchanged

theorem accountingUpdate_eq_some {j : Insight}
    (h : accountingUpdate t i order event source = some j) :
    i.state = .closed ∧ ∃ a, j = { i with positionAccounting := some a } := by
  unfold accountingUpdate at h
  split at h
  · rename_i hc
    simp only [Bool.and_eq_true, beq_iff_eq] at hc
    obtain ⟨a, -, h⟩ := Option.bind_eq_some_iff.mp h
    refine ⟨hc.1.1, a, ?_⟩
    obtain hobserved | ⟨-, hobserved⟩ := observePositionAccounting_cases t i a
    · simp [hobserved] at h
    · simpa [hobserved] using h.symm
  · cases h

theorem reduceOwned_reduces :
    Reduces round i order event source (reduceOwned round t i order event source).1.execution := by
  unfold reduceOwned
  split
  · rename_i quantity price hk
    unfold keptFill at hk
    split at hk
    · rename_i he
      simp only [endsEntry, Bool.and_eq_true, Bool.or_eq_true, beq_iff_eq] at he
      exact reduces_remainder he.1.1 hk
    · cases hk
  · rename_i hn
    refine reduceTransition_reduces fun he => ?_
    rwa [keptFill, if_pos he] at hn

/-- The reducer does one of the listed things for every insight, order,
event and source. Later results use this and never unfold it. -/
theorem reduceBrokerOrder_reduces (event : TradeUpdateEvent) (source : OrderEvidenceSource) :
    Reduces round i order event source
      (reduceBrokerOrder round t i order event source).1.execution := by
  unfold reduceBrokerOrder
  split
  · exact .unchanged
  split
  · rename_i j hu
    obtain ⟨hs, a, rfl⟩ := accountingUpdate_eq_some hu
    exact .accounted (some a) hs
  split
  · rename_i hclose
    simp only [closesFromHistory, Bool.and_eq_true] at hclose
    exact reduces_closeFromHistory hclose.1.1.1.1.2
  · exact reduceOwned_reduces

end

structure Evidence where
  clock : Clock
  order : Order
  event : TradeUpdateEvent
  source : OrderEvidenceSource

def deliver (i : Insight) (e : Evidence) : Insight :=
  (reduceBrokerOrder round e.clock i e.order e.event e.source).1

def deliverAll (i : Insight) (es : List Evidence) : Insight := es.foldl (deliver round) i

theorem deliver_reduces (e : Evidence) :
    Reduces round i e.order e.event e.source (deliver round i e).execution :=
  reduceBrokerOrder_reduces e.event e.source

theorem deliverAll_append (es : List Evidence) (e : Evidence) :
    deliverAll round i (es ++ [e]) = deliver round (deliverAll round i es) e := by
  simp [deliverAll]

theorem deliverAll_invariant {P : Insight → Prop}
    (hstep : ∀ i e, P i → P (deliver round i e)) {i : Insight} (h : P i) (es : List Evidence) :
    P (deliverAll round i es) := by
  induction es generalizing i with
  | nil => exact h
  | cons e es ih => exact ih (hstep i e h)

def sampleAsset : Asset where
  symbol := "EURUSD"
  tradable := true
  shortable := true
  minOrderSize := none
  maxOrderSize := none
  minPriceIncrement := none
  priceBase := none

def sampleOrder : Order where
  orderId := "1"
  insightId := none
  asset := sampleAsset
  qty := 2
  filledQty := 0
  limitPrice := none
  filledPrice := none
  stopPrice := none
  side := .buy
  status := .accepted
  realizedPnl := none
  positionAccounting := none
  commission := none
  swap := none
  rejectionReason := none
  legs := none

def sampleInsight : Insight where
  insightId := default
  symbol := "EURUSD"
  quantity := some 2

def sampleReport (ticket : String) (side : OrderSide) (quantity price : F64)
    (event : TradeUpdateEvent) : Evidence where
  clock := ⟨0, 0⟩
  order := { sampleOrder with
    orderId := ticket
    insightId := some sampleInsight.insightId.toString
    side := side
    filledQty := quantity
    filledPrice := some price }
  event := event
  source := .tradeStream

end AqEngine.Insights
