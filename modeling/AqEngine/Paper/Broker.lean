import AqEngine.Lib.Table
import AqEngine.Paper.Fees
import Mathlib.Data.List.Dedup

namespace AqEngine.Paper

open Lib
open Broker (OrderSide OrderClass TradeUpdateEvent Time)

/-- The whole seconds of a time, as an unsigned 64-bit number. -/
def seconds (time : Time) : Nat := (time / 1000000 % 2 ^ 64).toNat

structure Bar where
  (opening high low close : ℚ)
  deriving DecidableEq

abbrev Bars := Table String Bar

structure Asset where
  symbol : String
  minPriceIncrement : Option ℚ
  contractSize : Option Int
  fees : AssetFees
  deriving DecidableEq

structure OrderLeg where
  orderId : Option String
  (limitPrice trailPrice filledPrice : Option ℚ)
  status : TradeUpdateEvent
  updatedAt : Nat
  filledAt : Option Nat
  deriving DecidableEq

structure OrderLegs where
  (takeProfit stopLoss trailingStop : Option OrderLeg := none)
  deriving DecidableEq

/-- An order of the paper broker. The number of the submission that created
it is kept beside the source's fields: a client may use an order id again once
the order with that id is gone. -/
structure Order where
  submission : Nat
  orderId : String
  (insightId strategyType : Option String)
  asset : Asset
  (qty filledQty : ℚ)
  (limitPrice filledPrice stopPrice : Option ℚ)
  side : OrderSide
  orderType : Broker.OrderType
  status : TradeUpdateEvent
  orderClass : OrderClass
  updatedAt : Nat
  filledAt : Option Nat
  (realizedPnl commission swap : Option ℚ)
  rejectionReason : Option String
  legs : Option OrderLegs
  deriving DecidableEq

structure Position where
  (avgEntryPrice qty : ℚ)
  side : OrderSide
  (marketValue costBasis currentPrice unrealizedPnl entryCommission : ℚ)
  marginRequired : Option ℚ
  deriving DecidableEq

structure Account where
  (cash equity buyingPower accruedCommission : ℚ)
  deriving DecidableEq

inductive TradeRecordType where
  | entry | exit
  deriving DecidableEq

structure TradeRecord where
  date : Time
  symbol : String
  side : OrderSide
  (qty price : ℚ)
  orderId : String
  (insightId strategyType : Option String)
  (commission swap grossPnl : ℚ)
  tradeType : TradeRecordType
  deriving DecidableEq

structure TradeEvent where
  order : Order
  event : TradeUpdateEvent
  deriving DecidableEq

structure CloseRequest where
  orderId : String
  qty : ℚ
  price : Option ℚ
  deriving DecidableEq

structure ClosePositionResult where
  fullyClosed : Bool
  (qty grossPnl netPnl entryCommission exitCommission swap : ℚ)
  deriving DecidableEq

/-- The order management of the paper broker. A position is filed under its
symbol and the id of its entry order. `tradeLog` is the log of the backtest;
`emitted` collects the events in the order in which they were queued, also
those that were drained. -/
structure PaperBroker where
  startingCash : ℚ
  leverage : Nat
  assetFees : AssetFees
  account : Account
  assetMetadata : Table String Asset := ∅
  orders : Table String Order := ∅
  positions : Table (String × String) Position := ∅
  (pendingOrders activeOrders terminalOrdersPendingRelease : List String := [])
  updateOrdersQueue : List (String × TradeUpdateEvent) := []
  closeOrdersQueue : List CloseRequest := []
  tradeEvents : List TradeEvent := []
  currentTime : Time := 0
  tradeLog : List TradeRecord := []
  submissions : Nat := 0
  emitted : List TradeEvent := []

def PaperBroker.new (cash : ℚ) (leverage : Nat) (assetFees : AssetFees) : PaperBroker where
  startingCash := cash
  leverage := leverage
  assetFees := assetFees
  account := ⟨cash, cash, cash * leverage, 0⟩

section

variable (side : OrderSide)

/-- The quantity of a position is worth this much more at `exit` than at
`entry`. -/
def grossPnl (entry exit qty : ℚ) : ℚ :=
  match side with
  | .buy => (exit - entry) * qty
  | .sell => (entry - exit) * qty

def Position.mark (position : Position) (bar : Bar) : Position :=
  { position with
    currentPrice := bar.close
    marketValue := bar.close * position.qty
    unrealizedPnl := grossPnl position.side position.avgEntryPrice bar.close position.qty }

def Position.marginHeld (position : Position) : ℚ := position.marginRequired.getD position.costBasis

def marginCost (leverage : Nat) (cost : ℚ) : ℚ := if 1 < leverage then cost / leverage else cost

def tryFillLimit (limit : ℚ) (bar : Bar) : Option ℚ :=
  match side with
  | .buy => if bar.low ≤ limit then some (min limit bar.opening) else none
  | .sell => if limit ≤ bar.high then some (max limit bar.opening) else none

def tryFillStop (stop : ℚ) (bar : Bar) : Option ℚ :=
  match side with
  | .buy => if stop ≤ bar.high then some (max stop bar.opening) else none
  | .sell => if bar.low ≤ stop then some (min stop bar.opening) else none

def tryFillStopLimit (stop limit : ℚ) (bar : Bar) : Option ℚ :=
  match side with
  | .buy => if stop ≤ bar.high ∧ bar.low ≤ limit then some limit else none
  | .sell => if bar.low ≤ stop ∧ limit ≤ bar.high then some limit else none

def tryFillOrder (order : Order) (bar : Bar) : Option ℚ :=
  match order.orderType with
  | .market => some bar.opening
  | .limit => order.limitPrice.bind fun limit => tryFillLimit order.side limit bar
  | .stop => order.stopPrice.bind fun stop => tryFillStop order.side stop bar
  | .stopLimit => order.stopPrice.bind fun stop => order.limitPrice.bind fun limit =>
      tryFillStopLimit order.side stop limit bar
  | .trailingStop => none

def padTwo (n : Nat) : String := if n < 10 then "0" ++ toString n else toString n

def twoPlaces (q : ℚ) : String :=
  (if q < 0 then "-" else "") ++ toString (hundredths / 100) ++ "." ++ padTwo (hundredths % 100)
where
  hundredths : Nat :=
    if Int.fract (|q| * 100) < 1 / 2 ∨
        (Int.fract (|q| * 100) = 1 / 2 ∧ ⌊|q| * 100⌋ % 2 = 0) then ⌊|q| * 100⌋.toNat
    else ⌊|q| * 100⌋.toNat + 1

def PaperBroker.insufficientFundsReason (b : PaperBroker) (side : OrderSide) (qty price : ℚ)
    (contractSize : Option Int) : Option String :=
  if qty ≤ 0 ∨ price ≤ 0 then none
  else if b.account.buyingPower < qty * price then
    some ("Insufficient funds: required buying power " ++ twoPlaces (qty * price) ++
      ", available " ++ twoPlaces b.account.buyingPower)
  else if b.account.cash < required then
    some ("Insufficient cash: required cash " ++ twoPlaces required ++
      ", available " ++ twoPlaces b.account.cash)
  else none
where
  required : ℚ := marginCost b.leverage (qty * price) +
    b.assetFees.entryCommissionForSide side price qty contractSize

end

/-- The bar is first held against the stop of the bar before; a favourable
move becomes the stop of the next bar. -/
def updateTrailingStopLeg (parentSide : OrderSide) (trailing : OrderLeg) (bar : Bar) (now : Nat) :
    OrderLeg × Bool :=
  match trailing.trailPrice with
  | none => (trailing, false)
  | some gap =>
    if triggered gap then (trailing, true)
    else if nextStop gap ≠ currentStop gap then
      ({ trailing with limitPrice := some (nextStop gap), updatedAt := now }, false)
    else if trailing.limitPrice = none then
      ({ trailing with limitPrice := some (currentStop gap), updatedAt := now }, false)
    else (trailing, false)
where
  currentStop (gap : ℚ) : ℚ := trailing.limitPrice.getD <| match parentSide with
    | .buy => bar.opening - gap
    | .sell => bar.opening + gap
  triggered (gap : ℚ) : Bool := match parentSide with
    | .buy => bar.low ≤ currentStop gap
    | .sell => currentStop gap ≤ bar.high
  nextStop (gap : ℚ) : ℚ := match parentSide with
    | .buy => max (currentStop gap) (bar.high - gap)
    | .sell => min (currentStop gap) (bar.low + gap)

def OrderLeg.fill (leg : OrderLeg) (price : ℚ) (now : Nat) : OrderLeg :=
  { leg with status := .filled, filledPrice := some price, filledAt := some now }

/-- A leg that was not filled is triggered by its price alone, whatever else
its status is. -/
def triggerLeg (hit : ℚ → Bool) (leg : OrderLeg) (now : Nat) : Option (OrderLeg × ℚ) :=
  if leg.status = .filled then none
  else (leg.limitPrice.filter hit).map fun price => (leg.fill price now, price)

variable (side : OrderSide) (bar : Bar)

def stopLossHit (price : ℚ) : Bool :=
  match side with
  | .buy => bar.low ≤ price
  | .sell => price ≤ bar.high

def takeProfitHit (price : ℚ) : Bool :=
  match side with
  | .buy => price ≤ bar.high
  | .sell => bar.low ≤ price

def triggerTrailingStop (now : Nat) (legs : OrderLegs) : OrderLegs × Option ℚ :=
  match legs.trailingStop with
  | none => (legs, none)
  | some trailing =>
    if trailing.status = .filled then (legs, none)
    else match updateTrailingStopLeg side trailing bar now with
      | (leg, true) =>
        ({ legs with trailingStop := some (leg.fill (leg.limitPrice.getD bar.close) now) },
          some (leg.limitPrice.getD bar.close))
      | (leg, false) => ({ legs with trailingStop := some leg }, none)

def triggerStopLoss (now : Nat) (legs : OrderLegs) : OrderLegs × Option ℚ :=
  match legs.stopLoss.bind fun leg => triggerLeg (stopLossHit side bar) leg now with
  | none => (legs, none)
  | some (leg, price) => ({ legs with stopLoss := some leg }, some price)

def triggerTakeProfit (now : Nat) (legs : OrderLegs) : OrderLegs × Option ℚ :=
  match legs.takeProfit.bind fun leg => triggerLeg (takeProfitHit side bar) leg now with
  | none => (legs, none)
  | some (leg, price) => ({ legs with takeProfit := some leg }, some price)

/-- The legs after a bar, with the price at which one of them closes the
position. The stop loss goes before the take profit. -/
def triggerLegs (now : Nat) (legs : OrderLegs) : OrderLegs × Option ℚ :=
  match triggerTrailingStop side bar now legs with
  | (legs, some price) => (legs, some price)
  | (legs, none) => match triggerStopLoss side bar now legs with
    | (legs, some price) => (legs, some price)
    | (legs, none) => triggerTakeProfit side bar now legs

def OrderLeg.cancelRemaining (now : Nat) (leg : OrderLeg) : OrderLeg :=
  if leg.status = .filled then leg else { leg with status := .cancelled, updatedAt := now }

def Order.cancelRemainingLegs (order : Order) (now : Nat) : Order :=
  { order with legs := order.legs.map fun legs =>
      { takeProfit := legs.takeProfit.map (OrderLeg.cancelRemaining now)
        stopLoss := legs.stopLoss.map (OrderLeg.cancelRemaining now)
        trailingStop := legs.trailingStop.map (OrderLeg.cancelRemaining now) } }

def OrderLeg.isTerminal (leg : OrderLeg) : Bool :=
  leg.status = .filled || leg.status = .closed || leg.status = .cancelled || leg.status = .rejected

/-- A leg with the id of the request, and whether the request met it. -/
def OrderLeg.cancel (legOrderId : String) (now : Nat) (leg : OrderLeg) : Option OrderLeg :=
  if leg.orderId ≠ some legOrderId then none
  else if leg.isTerminal then some leg
  else some { leg with status := .cancelled, updatedAt := now }

def Order.cancelLegOnParent (order : Order) (legOrderId : String) (now : Nat) : Option Order :=
  order.legs.bind fun legs =>
    match legs.takeProfit.bind (OrderLeg.cancel legOrderId now) with
    | some leg => some { order with legs := some { legs with takeProfit := some leg } }
    | none => match legs.stopLoss.bind (OrderLeg.cancel legOrderId now) with
      | some leg => some { order with legs := some { legs with stopLoss := some leg } }
      | none => match legs.trailingStop.bind (OrderLeg.cancel legOrderId now) with
        | some leg => some { order with legs := some { legs with trailingStop := some leg } }
        | none => none

def Order.hasLeg (order : Order) (legOrderId : String) : Bool :=
  order.legs.any fun legs =>
    legs.takeProfit.any (fun leg => leg.orderId = some legOrderId) ||
      legs.stopLoss.any (fun leg => leg.orderId = some legOrderId) ||
      legs.trailingStop.any (fun leg => leg.orderId = some legOrderId)

/-- The trailing stop of a filled order starts at its gap from the entry. -/
def Order.createBracketLegs (order : Order) (now : Nat) : Order :=
  { order with legs := some (bracket (order.legs.getD {})) }
where
  bracket (legs : OrderLegs) : OrderLegs :=
    { legs with trailingStop := legs.trailingStop.map started }
  started (trailing : OrderLeg) : OrderLeg :=
    match trailing.limitPrice, order.filledPrice, trailing.trailPrice with
    | none, some entry, some gap =>
      { trailing with
        limitPrice := some (match order.side with | .buy => entry - gap | .sell => entry + gap)
        updatedAt := now }
    | _, _, _ => trailing

def Order.noteExit (order : Order) (result : ClosePositionResult) (now : Nat) : Order :=
  { order with
    updatedAt := now
    realizedPnl := some (order.realizedPnl.getD 0 + result.netPnl)
    commission := some (order.commission.getD 0 + result.exitCommission)
    swap := some (order.swap.getD 0 + result.swap) }

namespace PaperBroker

variable (b : PaperBroker) (order : Order)

def emitTradeEvent (event : TradeUpdateEvent) : PaperBroker :=
  { b with
    tradeEvents := b.tradeEvents ++ [⟨order, event⟩]
    emitted := b.emitted ++ [⟨order, event⟩] }

def markOrderTerminalForRelease (orderId : String) : PaperBroker :=
  if orderId ∈ b.terminalOrdersPendingRelease then b
  else { b with
    terminalOrdersPendingRelease := b.terminalOrdersPendingRelease ++ [orderId] }

def recordTrade (record : TradeRecord) : PaperBroker :=
  { b with tradeLog := b.tradeLog ++ [record] }

def setOrder : PaperBroker := { b with orders := b.orders.insert order.orderId order }

def openedPosition (leverage : Nat) (order : Order) (fillPrice : ℚ) : Position where
  avgEntryPrice := fillPrice
  qty := order.filledQty
  side := order.side
  marketValue := fillPrice * order.filledQty
  costBasis := fillPrice * order.filledQty
  currentPrice := fillPrice
  unrealizedPnl := 0
  entryCommission := order.commission.getD 0
  marginRequired :=
    if 1 < leverage then some (fillPrice * order.filledQty / leverage) else none

def openPosition (fillPrice : ℚ) : PaperBroker :=
  { b with
    positions := b.positions.insert (order.asset.symbol, order.orderId)
      (openedPosition b.leverage order fillPrice)
    account := { b.account with
      cash := b.account.cash -
        (marginCost b.leverage (fillPrice * order.filledQty) + order.commission.getD 0)
      buyingPower := max
        (b.account.buyingPower - fillPrice * order.filledQty - order.commission.getD 0) 0
      accruedCommission := b.account.accruedCommission + order.commission.getD 0 } }

def recordEntryTrade (fillPrice : ℚ) (time : Time) :
    PaperBroker :=
  b.recordTrade
    { date := time
      symbol := order.asset.symbol
      side := order.side
      qty := order.filledQty
      price := fillPrice
      orderId := order.orderId
      insightId := order.insightId
      strategyType := order.strategyType
      commission := order.commission.getD 0
      swap := 0
      grossPnl := 0
      tradeType := .entry }

def swapDaysForOrder (current : Nat) : ℚ :=
  match order.filledAt with
  | none => 0
  | some openedAt => if current ≤ openedAt then 0 else ((current - openedAt : Nat) : ℚ) / 86400

variable (position : Position)

/-- A request for no quantity asks for the whole position. -/
def requestedQty (closeQty : ℚ) : ℚ :=
  if closeQty ≤ 0 then position.qty else min closeQty position.qty

def entryShare (qty : ℚ) : ℚ :=
  if 0 < position.qty then position.entryCommission * (qty / position.qty) else 0

variable (closePrice : ℚ)

def settleQty (qty : ℚ) (time : Time) : ClosePositionResult where
  fullyClosed := position.qty ≤ qty
  qty := qty
  grossPnl := Paper.grossPnl position.side position.avgEntryPrice closePrice qty
  netPnl := Paper.grossPnl position.side position.avgEntryPrice closePrice qty + swap -
    entryShare position qty - exitCommission
  entryCommission := entryShare position qty
  exitCommission := exitCommission
  swap := swap
where
  exitCommission : ℚ :=
    order.asset.fees.exitCommissionForSide position.side closePrice qty order.asset.contractSize
  swap : ℚ := order.asset.fees.swapForSide position.side position.avgEntryPrice qty
    order.asset.contractSize order.asset.minPriceIncrement
    (swapDaysForOrder order (seconds time))

def reducedPosition (leverage : Nat) (position : Position) (result : ClosePositionResult) :
    Position :=
  { position with
    qty := position.qty - result.qty
    entryCommission := max (position.entryCommission - result.entryCommission) 0
    costBasis := position.avgEntryPrice * (position.qty - result.qty)
    marketValue := position.currentPrice * (position.qty - result.qty)
    marginRequired :=
      if 1 < leverage then some (position.avgEntryPrice * (position.qty - result.qty) / leverage)
      else none }

def exitRecord (time : Time) (result : ClosePositionResult) : TradeRecord where
  date := time
  symbol := order.asset.symbol
  side := order.side
  qty := result.qty
  price := closePrice
  orderId := order.orderId
  insightId := order.insightId
  strategyType := order.strategyType
  commission := result.exitCommission
  swap := result.swap
  grossPnl := result.grossPnl
  tradeType := .exit

/-- Capital and profit go back to the account, the exit is recorded, and the
position keeps what was not closed. -/
def bookExit (time : Time) (result : ClosePositionResult) : PaperBroker :=
  { b with
    account := { b.account with
      cash := b.account.cash + (marginCost b.leverage (position.avgEntryPrice * result.qty) +
        result.grossPnl + result.swap - result.exitCommission)
      buyingPower := max (b.account.buyingPower + position.avgEntryPrice * result.qty +
        result.grossPnl + result.swap - result.exitCommission) 0
      accruedCommission := b.account.accruedCommission + result.exitCommission }
    tradeLog := b.tradeLog ++ [exitRecord order closePrice time result]
    positions :=
      if result.fullyClosed then b.positions.erase (order.asset.symbol, order.orderId)
      else b.positions.insert (order.asset.symbol, order.orderId)
        (reducedPosition b.leverage position result) }

def closePositionForOrder (closeQty : ℚ)
    (time : Time) : Option (PaperBroker × ClosePositionResult) :=
  (b.positions.lookup (order.asset.symbol, order.orderId)).map fun position =>
    (b.bookExit order position closePrice time
        (settleQty order position closePrice (requestedQty position closeQty) time),
      settleQty order position closePrice (requestedQty position closeQty) time)

def rejectOrder (order : Order) (reason : String) (now : Nat) : Order :=
  { order with status := .rejected, rejectionReason := some reason, updatedAt := now }

def fillOrder (order : Order) (fillPrice : ℚ) (now : Nat) : Order :=
  if order.orderClass = .bracket then filled.createBracketLegs now else filled
where
  filled : Order :=
    { order with
      status := .filled
      filledQty := order.qty
      filledPrice := some fillPrice
      filledAt := some now
      updatedAt := now
      commission := some (order.asset.fees.entryCommissionForSide order.side fillPrice order.qty
        order.asset.contractSize) }

def activate (b : PaperBroker) (order : Order) : PaperBroker :=
  if order.legs.isSome ∧ order.orderId ∉ b.activeOrders then
    { b with activeOrders := b.activeOrders ++ [order.orderId] }
  else b

/-- An order is filled: its position is opened, recorded and reported. -/
def enter (b : PaperBroker) (order : Order) (fillPrice : ℚ) (time : Time) : PaperBroker :=
  ((((b.setOrder order).openPosition order fillPrice).recordEntryTrade order fillPrice
    time).emitTradeEvent order .filled).activate order

def reject (b : PaperBroker) (order : Order) : PaperBroker :=
  ((b.setOrder order).emitTradeEvent order .rejected).markOrderTerminalForRelease order.orderId

def processPendingOrder (bars : Bars) (time : Time) (b : PaperBroker) (orderId : String) :
    PaperBroker × Bool :=
  match b.orders.lookup orderId with
  | none => (b, false)
  | some order =>
    if order.status = .cancelled then (b, false)
    else match bars.lookup order.asset.symbol with
      | none => (b, true)
      | some bar => match tryFillOrder order bar with
        | none => (b, true)
        | some fillPrice =>
          match b.insufficientFundsReason order.side order.qty fillPrice
              order.asset.contractSize with
          | some reason => (b.reject (rejectOrder order reason (seconds time)), false)
          | none => (b.enter (fillOrder order fillPrice (seconds time)) fillPrice time, false)

def pendingPass (bars : Bars) (time : Time) : PaperBroker → List String → PaperBroker × List String
  | b, [] => (b, [])
  | b, orderId :: rest =>
    match processPendingOrder bars time b orderId with
    | (b, true) => match pendingPass bars time b rest with
      | (b, remaining) => (b, orderId :: remaining)
    | (b, false) => pendingPass bars time b rest

def processPendingOrders (bars : Bars) (time : Time) (b : PaperBroker) : PaperBroker :=
  { (pendingPass bars time b b.pendingOrders).1 with
    pendingOrders := (pendingPass bars time b b.pendingOrders).2 }

def closedByLeg (order : Order) (closePrice : ℚ) (result : Option ClosePositionResult)
    (now : Nat) : Order :=
  Order.cancelRemainingLegs
    { order with
      status := .closed
      updatedAt := now
      filledPrice := some closePrice
      filledQty := order.qty
      realizedPnl := result.elim order.realizedPnl fun r => some r.netPnl
      commission := result.elim order.commission fun r =>
        some (r.entryCommission + r.exitCommission)
      swap := result.elim order.swap fun r => some r.swap
      qty := 0 } now

def closeByLeg (b : PaperBroker) (order : Order) (closePrice : ℚ) (time : Time) : PaperBroker :=
  match b.closePositionForOrder order closePrice order.qty time with
  | none => finish b (closedByLeg order closePrice none (seconds time))
  | some (b, result) => finish b (closedByLeg order closePrice (some result) (seconds time))
where
  finish (b : PaperBroker) (order : Order) : PaperBroker :=
    ((b.setOrder order).emitTradeEvent order .closed).markOrderTerminalForRelease order.orderId

def processActiveOrder (bars : Bars) (time : Time) (b : PaperBroker) (orderId : String) :
    PaperBroker × Bool :=
  match b.orders.lookup orderId with
  | none => (b, false)
  | some order => match bars.lookup order.asset.symbol, order.legs with
    | some bar, some legs =>
      match triggerLegs order.side bar (seconds time) legs with
      | (legs, none) => (b.setOrder { order with legs := some legs }, false)
      | (legs, some closePrice) =>
        (b.closeByLeg { order with legs := some legs } closePrice time, true)
    | _, _ => (b, false)

def activePass (bars : Bars) (time : Time) : PaperBroker → List String → PaperBroker × List String
  | b, [] => (b, [])
  | b, orderId :: rest =>
    match processActiveOrder bars time b orderId with
    | (b, true) => match activePass bars time b rest with
      | (b, toRemove) => (b, orderId :: toRemove)
    | (b, false) => activePass bars time b rest

def untrack (now : Nat) (b : PaperBroker) (orderId : String) : PaperBroker :=
  { b with
    orders := b.orders.modify orderId fun order =>
      Order.cancelRemainingLegs { order with status := .closed, qty := 0 } now
    activeOrders := b.activeOrders.filter (· ≠ orderId) }

/-- The ids of a map in the order in which it hands them out, where `visit`
has the last word. -/
def visited (visit tracked : List String) : List String :=
  (tracked ++ visit.filter (· ∈ tracked)).dedup

def processActiveOrders (bars : Bars) (time : Time) (visit : List String) (b : PaperBroker) :
    PaperBroker :=
  (activePass bars time b (visited visit b.activeOrders)).2.foldl (untrack (seconds time))
    (activePass bars time b (visited visit b.activeOrders)).1

def opposite : OrderSide → OrderSide
  | .buy => .sell
  | .sell => .buy

def closeTerminally (b : PaperBroker) (order : Order) : PaperBroker :=
  { ((b.setOrder order).emitTradeEvent order .closed).markOrderTerminalForRelease order.orderId
    with activeOrders := b.activeOrders.filter (· ≠ order.orderId) }

def partialExit (order : Order) (exitId : String) (fillPrice : ℚ) (result : ClosePositionResult) :
    Order :=
  { order with
    orderId := exitId
    side := opposite order.side
    qty := result.qty
    filledQty := result.qty
    filledPrice := some fillPrice
    status := .partialFilled }

def finishClose (b : PaperBroker) (order : Order) (exitId : String) (fillPrice : ℚ)
    (result : ClosePositionResult) (now : Nat) : PaperBroker :=
  if result.fullyClosed ∨ max (order.qty - result.qty) 0 ≤ 0 then
    b.closeTerminally closed
  else
    (b.setOrder remaining).emitTradeEvent
      (partialExit remaining exitId fillPrice result) .partialFilled
where
  closed : Order := Order.cancelRemainingLegs
    { (order.noteExit result now) with
      filledPrice := some fillPrice
      filledQty := result.qty
      qty := 0
      status := .closed } now
  remaining : Order :=
    { (order.noteExit result now) with
      qty := max (order.qty - result.qty) 0
      filledQty := max (order.qty - result.qty) 0
      status := .filled }

/-- A request whose order, bar or position is missing is dropped. -/
def processCloseRequest (bars : Bars) (time : Time) (b : PaperBroker) (request : CloseRequest)
    (exitId : String) : PaperBroker :=
  match b.orders.lookup request.orderId with
  | none => b
  | some order => match bars.lookup order.asset.symbol with
    | none => b
    | some bar =>
      match b.closePositionForOrder order (request.price.getD bar.close) request.qty time with
      | none => b
      | some (b, result) =>
        b.finishClose order exitId (request.price.getD bar.close) result (seconds time)

/-- `exitIds` are the identities that are drawn for partial exits. -/
def closePass (bars : Bars) (time : Time) (exitIds : Nat → String) (b : PaperBroker)
    (queue : List CloseRequest) : PaperBroker :=
  queue.zipIdx.foldl (fun b item => processCloseRequest bars time b item.1 (exitIds item.2)) b

def processCloseQueue (bars : Bars) (time : Time) (exitIds : Nat → String) (b : PaperBroker) :
    PaperBroker :=
  { closePass bars time exitIds b b.closeOrdersQueue with closeOrdersQueue := [] }

def processUpdateQueue (now : Nat) (b : PaperBroker) : PaperBroker :=
  { b with
    orders := b.updateOrdersQueue.foldl (fun orders update =>
      orders.modify update.1 fun order => { order with status := update.2, updatedAt := now })
      b.orders
    updateOrdersQueue := [] }

/-- Positions without a bar keep their last mark. -/
def markPositions (bars : Bars) (positions : Table (String × String) Position) :
    Table (String × String) Position :=
  positions.mapKeyed fun key position => (bars.lookup key.1).elim position position.mark

def totalUnrealizedPnl (positions : Table (String × String) Position) : ℚ :=
  (positions.entries.map fun row => row.2.unrealizedPnl).sum

def totalMarginHeld (positions : Table (String × String) Position) : ℚ :=
  (positions.entries.map fun row => row.2.marginHeld).sum

def updateAccountBalance (bars : Bars) (b : PaperBroker) : PaperBroker :=
  { b with
    positions := markPositions bars b.positions
    account := { b.account with
      equity := b.account.cash + totalUnrealizedPnl (markPositions bars b.positions) +
        totalMarginHeld (markPositions bars b.positions) } }

/-- One bar step: pending orders, tracked legs, the deferred queues and the
account. -/
def processStep (bars : Bars) (time : Time) (visit : List String) (exitIds : Nat → String)
    (b : PaperBroker) : PaperBroker :=
  updateAccountBalance bars <| processUpdateQueue (seconds time) <|
    processCloseQueue bars time exitIds <| processActiveOrders bars time visit <|
    processPendingOrders bars time { b with currentTime := time }

def processCloseQueueAt (bars : Bars) (time : Time) (exitIds : Nat → String) (b : PaperBroker) :
    PaperBroker :=
  if b.closeOrdersQueue = [] then b
  else updateAccountBalance bars <|
    processCloseQueue bars time exitIds { b with currentTime := time }

end PaperBroker

end AqEngine.Paper
