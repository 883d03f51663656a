import AqEngine.Insights.State

namespace AqEngine.Insights

open Lib Broker

namespace Insight

variable (t : Clock)

def orderAccepted (orderId : String) (i : Insight) : Insight :=
  { i with orderId := some orderId, submitted := true }.updateState t .executed
    (.orderAccepted orderId)

def positionFilled (filledPrice filledQty : F64) (orderId : String) (commission : Option F64)
    (i : Insight) : Insight :=
  ({ i with
      orderId := some orderId
      submitted := true
      filledPrice := some filledPrice
      entryFilledQuantity := some filledQty
      commission := commission
      filledAt := some t.strategy }.updateState t .filled
    (.filledAt filledPrice filledQty orderId)).setFirstOnFill t true

/-- A cumulative snapshot of the entry's execution. Older and repeated
snapshots, and those without a usable price, are dropped here. -/
def partialFilled (filledQty filledPrice : F64) (commission : Option F64) (i : Insight) :
    Insight :=
  if !filledQty.isFinite || filledQty ≤ i.entryFilledQuantity.getD 0 || !filledPrice.isFinite
      || filledPrice ≤ 0 then i
  else
    { i with
      filledPrice := some filledPrice
      entryFilledQuantity := some filledQty
      commission := commission.or i.commission }.updateState t .executed
    (.partialFill filledQty filledPrice)

def partialClosed (closeQty closePrice : F64) (closeOrderId : String)
    (commission : Option F64) (i : Insight) : Insight :=
  let closed := { i with
    closing := false
    partialFilledQuantity := some (i.partialFilledQuantity.getD 0 + closeQty)
    commission := commission.or i.commission }
  let record := PartialCloseResult.new closeOrderId closed.side closeQty (closed.entryPrice.getD 0)
  { closed with
    partialCloses := closed.partialCloses ++ [record.setFilledPrice closePrice] }.updateState
    t .filled (.partialClose closeQty closePrice)

def positionClosed (closePrice : F64) (closeOrderId : String)
    (brokerRealizedPnl commission swap : Option F64) (i : Insight) : Insight :=
  { i with
    closePrice := some closePrice
    closeOrderId := some closeOrderId
    brokerRealizedPnl := brokerRealizedPnl
    commission := commission.or i.commission
    swap := swap.or i.swap
    closedAt := some t.strategy }.updateState t .closed (.closedAt closePrice closeOrderId)

def orderRejected (reason : Message) (i : Insight) : Insight :=
  i.updateState t .rejected (.rejectedFor reason)

def orderCancelled (reason : Message) (i : Insight) : Insight :=
  i.updateState t .cancelled (.cancelledFor reason)

def sameSource (previous accounting : PositionCloseAccounting) : Bool :=
  previous.provider == accounting.provider && previous.positionId == accounting.positionId &&
    previous.entryOrderId == accounting.entryOrderId &&
    previous.currency == accounting.currency &&
    previous.openedAtUs == accounting.openedAtUs && previous.closedAtUs == accounting.closedAtUs

def acceptsAccounting (accounting : PositionCloseAccounting) (i : Insight) : Bool :=
  i.state == .closed && accounting.validate.isOk &&
    decide (accounting.asOfUs ≤ min (t.wall + 5000000) (2 ^ 63 - 1)) &&
    i.orderId.any accounting.ownsOrder &&
    i.positionAccounting.all (fun previous =>
      sameSource previous accounting && decide (previous.asOfUs < accounting.asOfUs))

/-- Broker economics of a closed position: a strictly newer reading of the
same position replaces the recorded one. The flag tells whether it did. -/
def observePositionAccounting (accounting : PositionCloseAccounting) (i : Insight) :
    Insight × Bool :=
  if i.acceptsAccounting t accounting then
    ({ i with positionAccounting := some accounting }, true)
  else (i, false)

def observeAccounting (accounting : Option PositionCloseAccounting) (i : Insight) : Insight :=
  match accounting with
  | some accounting => (i.observePositionAccounting t accounting).1
  | none => i

variable (i : Insight)

@[simp] theorem execution_orderAccepted (orderId : String) : (i.orderAccepted t orderId).execution =
      { i.execution with orderId := some orderId, state := .executed } := by
  rw [orderAccepted, execution_updateState, InsightState.next_executed]
  rfl

@[simp] theorem execution_positionFilled (price quantity : F64) (orderId : String)
    (commission : Option F64) :
    (i.positionFilled t price quantity orderId commission).execution =
      { i.execution with
        orderId := some orderId
        filledPrice := some price
        entryFilledQuantity := some quantity
        commission := commission
        state := .filled } := by
  rw [positionFilled, (aside_setFirstOnFill t _ _).execution, execution_updateState,
    InsightState.next_filled]
  rfl

theorem execution_partialFilled {quantity price : F64} (commission : Option F64)
    (hq : quantity.isFinite = true) (hgt : ¬ quantity ≤ i.entryFilledQuantity.getD 0)
    (hp : price.isPositive = true) :
    (i.partialFilled t quantity price commission).execution =
      { i.execution with
        filledPrice := some price
        entryFilledQuantity := some quantity
        commission := commission.or i.commission
        state := .executed } := by
  obtain ⟨p, rfl, hpos⟩ := F64.isPositive_iff.mp hp
  have hle : ¬ p ≤ 0 := not_le.mpr hpos
  rw [partialFilled, if_neg (by simp [hq, hgt, hle]), execution_updateState,
    InsightState.next_executed]
  rfl

@[simp] theorem execution_partialClosed (quantity price : F64) (orderId : String)
    (commission : Option F64) :
    (i.partialClosed t quantity price orderId commission).execution =
      { i.execution with
        partialFilledQuantity := some (i.partialFilledQuantity.getD 0 + quantity)
        commission := commission.or i.commission
        partialCloses := i.partialCloses ++
          [⟨orderId, i.side, quantity, i.entryPrice.getD 0, some price⟩]
        state := .filled } := by
  rw [partialClosed, execution_updateState, InsightState.next_filled]
  rfl

@[simp] theorem execution_positionClosed (price : F64) (orderId : String)
    (pnl commission swap : Option F64) :
    (i.positionClosed t price orderId pnl commission swap).execution =
      { i.execution with
        closePrice := some price
        closeOrderId := some orderId
        brokerRealizedPnl := pnl
        commission := commission.or i.commission
        swap := swap.or i.swap
        state := .closed } := by
  rw [positionClosed, execution_updateState, InsightState.next_closed]
  rfl

@[simp] theorem execution_orderRejected (reason : Message) : (i.orderRejected t reason).execution =
      { i.execution with state := i.state.next .rejected } := by
  simp [orderRejected]

@[simp] theorem execution_orderCancelled (reason : Message) :
    (i.orderCancelled t reason).execution =
      { i.execution with state := i.state.next .cancelled } := by
  simp [orderCancelled]

theorem observePositionAccounting_cases (a : PositionCloseAccounting) :
    i.observePositionAccounting t a = (i, false) ∨ i.state = .closed ∧
        i.observePositionAccounting t a = ({ i with positionAccounting := some a }, true) := by
  by_cases h : i.acceptsAccounting t a = true
  · right
    refine ⟨?_, by simp [observePositionAccounting, h]⟩
    simp only [acceptsAccounting, Bool.and_eq_true, beq_iff_eq] at h
    exact h.1.1.1.1
  · left
    simp [observePositionAccounting, h]

theorem execution_observeAccounting (a : Option PositionCloseAccounting) :
    ∃ observed, (i.observeAccounting t a).execution =
      { i.execution with positionAccounting := observed } := by
  cases a with
  | none => exact ⟨i.positionAccounting, rfl⟩
  | some a =>
      obtain h | ⟨-, h⟩ := observePositionAccounting_cases t i a
      · exact ⟨i.positionAccounting, by rw [observeAccounting, h]; rfl⟩
      · exact ⟨some a, by rw [observeAccounting, h]; rfl⟩

end Insight

end AqEngine.Insights
