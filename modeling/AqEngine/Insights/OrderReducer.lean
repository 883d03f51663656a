import AqEngine.Insights.Transitions

namespace AqEngine.Insights

open Lib Broker

inductive OrderEvidenceSource where
  | submitResponse | tradeStream | terminalHistory
  deriving DecidableEq, Repr

inductive OrderReduction where
  | ignored | updated | accountingUpdated | entryFilled | lateEntryFilled | terminal
  deriving DecidableEq, Repr

def tradeEventMatchesInsight (i : Insight) (order : Order) : Bool :=
  order.insightId == some i.insightId.toString ||
    i.orderId == some order.orderId ||
    i.closeOrderId == some order.orderId ||
    i.legs.takeProfit.bind (·.orderId) == some order.orderId ||
    i.legs.stopLoss.bind (·.orderId) == some order.orderId ||
    i.legs.trailingStop.bind (·.orderId) == some order.orderId

def filledLegPrice (leg : Option OrderLeg) : Option F64 :=
  (leg.filter (·.status == .filled)).bind fun leg => leg.filledPrice.or leg.limitPrice

def closePriceFromOrder (order : Order) : F64 :=
  let leg := order.legs.bind fun legs =>
    ((filledLegPrice legs.stopLoss).or (filledLegPrice legs.takeProfit)).or
      (filledLegPrice legs.trailingStop)
  (((leg.or order.filledPrice).or order.stopPrice).or order.limitPrice).getD 0

-- Price rounding of the order's asset. The engine uses `dynamicRoundForAsset`;
-- nothing below depends on which rounding it is.
variable (round : Asset → F64 → F64) (t : Clock)

def roundOrderOptionValue (order : Order) (value : Option F64) : Option F64 :=
  value.map (round order.asset)

def legFilled (leg : Option OrderLeg) : Bool := leg.any (·.status == .filled)

def syncTakeProfit (legs : OrderLegs) (order : Order) (i : Insight) : Insight :=
  match legs.takeProfit.bind (·.limitPrice) with
  | some tp =>
    if i.takeProfitLevels.all (·.length ≤ 1) then
      i.setTakeProfitLevels t (some [round order.asset tp])
    else i
  | none => i

def syncStopLoss (legs : OrderLegs) (order : Order) (i : Insight) : Insight :=
  match legs.stopLoss.bind (·.limitPrice) with
  | some sl =>
    if i.stopLossLevels.all (·.length ≤ 1) then
      i.setStopLossLevels t (some [round order.asset sl])
    else i
  | none => i

def syncTrailingStop (legs : OrderLegs) (order : Order) (i : Insight) : Insight :=
  match legs.trailingStop.bind (·.trailPrice) with
  | some gap => i.setTrailingStopPrice t (some (round order.asset gap))
  | none => i

variable (i : Insight) (order : Order)

def syncBrokerManagedLevels : Insight :=
  match order.legs with
  | none => i
  | some legs =>
    -- A terminal leg reports an execution, not a new target.
    if order.status = .closed ∨ legFilled legs.takeProfit ∨ legFilled legs.stopLoss ∨
        legFilled legs.trailingStop then
      { i with legs }
    else
      { syncTrailingStop round t legs order (syncStopLoss round t legs order
          (syncTakeProfit round t legs order i)) with legs }

def correlatedResponse (source : OrderEvidenceSource) : Bool :=
  source == .submitResponse && order.insightId.isNone && i.orderId.all (· == order.orderId)

def entryOrder : Bool :=
  i.orderId.all (· == order.orderId) ||
    ((i.state == .new || i.state == .executed) &&
      order.insightId.bind Uuid.parseStr == some i.insightId)

def orderPrice : F64 := round order.asset ((order.filledPrice.or order.limitPrice).getD 0)

def orderCommission : Option F64 := roundOrderOptionValue round order order.commission

def validFill : Bool :=
  order.filledQty.isFinite && decide (0 < order.filledQty) &&
    (orderPrice round order).isFinite && decide (0 < orderPrice round order)

/-- The entry execution an insight has on record, when it can be kept as a
position. -/
def recordedFill : Option (F64 × F64) :=
  match i.entryFilledQuantity, i.filledPrice with
  | some quantity, some price =>
    if 0 < quantity ∧ quantity.isFinite ∧ 0 < price ∧ price.isFinite then
      some (quantity, price)
    else none
  | _, _ => none

def closeFromHistory : Insight × OrderReduction :=
  let i := { i with suppressChildEntries := true }.positionClosed t (orderPrice round order)
    order.orderId order.realizedPnl order.commission order.swap
  (i.observeAccounting t order.positionAccounting, .terminal)

variable (event : TradeUpdateEvent)

def preserveRemainder (quantity price : F64) : Insight × OrderReduction :=
  let filled := ({ i with suppressChildEntries := true }.setQuantity t
    (some quantity)).positionFilled t price quantity order.orderId i.commission
  (filled.stateLog t (.entryRemainder event quantity), .lateEntryFilled)

def acceptIfNew : Insight :=
  if i.state = .new then i.orderAccepted t order.orderId else i

def fillEntry : Insight :=
  syncBrokerManagedLevels round t (i.positionFilled t (orderPrice round order)
    order.filledQty order.orderId (orderCommission round order)) order

def partialFillEntry : Insight :=
  syncBrokerManagedLevels round t ((acceptIfNew t i order).partialFilled t order.filledQty
    (orderPrice round order) (orderCommission round order)) order

def previouslyClosed (records : List PartialCloseResult) (orderId : String) : F64 × F64 :=
  (records.filter (·.orderId == orderId)).foldl (fun (quantity, notional) record =>
      (quantity + record.quantity,
        notional + record.quantity * record.filledPrice.getD record.entryPrice)) (0, 0)

def partialCloseExit : Insight × OrderReduction :=
  let average := closePriceFromOrder order
  let previous := previouslyClosed i.partialCloses order.orderId
  let closeQty := order.filledQty - previous.1
  -- The broker's price is the average of the cumulative fill, so the notional
  -- on record is taken out before the increment is priced.
  let closePrice := (order.filledQty * average - previous.2) / closeQty
  if !order.filledQty.isFinite || !closeQty.isFinite || closeQty ≤ 0
      || i.remainingQuantity < closeQty || !closePrice.isFinite || closePrice ≤ 0 then
    (i, .ignored)
  else
    (i.partialClosed t closeQty closePrice order.orderId (orderCommission round order), .updated)

def replaceEntry : Insight :=
  let i := if order.limitPrice == i.limitPrice then i
    else { i with limitPrice := roundOrderOptionValue round order order.limitPrice }
  let i := if i.quantity == some order.qty then i else { i with quantity := some order.qty }
  syncBrokerManagedLevels round t i order

def closeExit : Insight × OrderReduction :=
  let closePrice := round order.asset (closePriceFromOrder order)
  if !closePrice.isFinite || closePrice ≤ 0 then (i, .ignored)
  else
    let i := (syncBrokerManagedLevels round t i order).positionClosed t closePrice
      order.orderId (roundOrderOptionValue round order order.realizedPnl)
      (orderCommission round order) (roundOrderOptionValue round order order.swap)
    (i.observeAccounting t order.positionAccounting, .terminal)

variable (source : OrderEvidenceSource)

/-- The table of transitions by state and event, for evidence that belongs
to the insight and was not settled by the earlier checks. -/
def reduceTransition : Insight × OrderReduction :=
  let entrySide := order.side == i.side
  match i.state, event with
  | .new, .accepted | .new, .pendingNew | .new, .new | .new, .pending =>
    if entrySide && entryOrder i order then
      (syncBrokerManagedLevels round t (i.orderAccepted t order.orderId) order, .updated)
    else (i, .ignored)
  | .new, .filled | .executed, .filled =>
    if entrySide && entryOrder i order && validFill round order then
      (fillEntry round t (acceptIfNew t i order) order, .entryFilled)
    else (i, .ignored)
  | .new, .partialFilled | .executed, .partialFilled =>
    if entrySide && entryOrder i order && validFill round order then
      if order.filledQty ≤ i.entryFilledQuantity.getD 0 then (i, .ignored)
      else (partialFillEntry round t i order, .updated)
    else (i, .ignored)
  | .filled, .partialFilled =>
    if !entrySide && source == .tradeStream then partialCloseExit round t i order
    else (i, .ignored)
  | .new, .cancelled | .new, .expired | .executed, .cancelled | .executed, .expired =>
    if entryOrder i order then
      ((syncBrokerManagedLevels round t i order).orderCancelled t (.text "Order cancelled"),
        .terminal)
    else (i, .ignored)
  | .new, .rejected | .executed, .rejected =>
    if entryOrder i order then
      ((syncBrokerManagedLevels round t i order).orderRejected t
        (.text (order.rejectionReason.getD "Order rejected")), .terminal)
    else (i, .ignored)
  | .executed, .replaced =>
    if entryOrder i order && source == .tradeStream then
      (replaceEntry round t i order, .updated)
    else (i, .ignored)
  | .filled, .filled | .filled, .closed =>
    if source == .tradeStream && (!entrySide || event == .closed) then
      closeExit round t i order
    else (i, .ignored)
  | .cancelled, .filled | .rejected, .filled =>
    if entrySide && validFill round order then
      (fillEntry round t { i with suppressChildEntries := true } order, .lateEntryFilled)
    else (i, .ignored)
  | _, _ => (i, .ignored)

/-- Evidence is attributed by identity only, never by symbol alone. -/
def attributed : Bool :=
  !order.orderId.isEmpty && i.symbol == order.asset.symbol &&
    (correlatedResponse i order source || tradeEventMatchesInsight i order)

def closesFromHistory : Bool :=
  source == .terminalHistory && event == .closed && i.state.isActive &&
    i.orderId == some order.orderId && order.realizedPnl.any F64.isFinite &&
    (orderPrice round order).isFinite && decide (0 < orderPrice round order)

def endsEntry : Bool :=
  (i.state == .new || i.state == .executed) && entryOrder i order &&
    (event == .cancelled || event == .expired || event == .rejected)

def accountingUpdate : Option Insight :=
  if i.state == .closed && event == .closed && source != .submitResponse then
    order.positionAccounting.bind fun value =>
      let (i, changed) := i.observePositionAccounting t value
      if changed then some i else none
  else none

def keptFill : Option (F64 × F64) :=
  if endsEntry i order event then recordedFill i else none

/-- Ending the unfilled remainder is no proof that the executed part was
closed, so a recorded fill is kept as a position. -/
def reduceOwned : Insight × OrderReduction :=
  match keptFill i order event with
  | some (quantity, price) => preserveRemainder t i order event quantity price
  | none => reduceTransition round t i order event source

def reduceBrokerOrder : Insight × OrderReduction :=
  if !attributed i order source then (i, .ignored)
  else
    match accountingUpdate t i order event source with
    | some i => (i, .accountingUpdated)
    | none =>
      if closesFromHistory round i order event source then closeFromHistory round t i order
      else reduceOwned round t i order event source

end AqEngine.Insights
