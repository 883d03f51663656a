import AqEngine.Paper.Broker

namespace AqEngine.Paper

open Lib
open Broker (OrderSide OrderClass TradeUpdateEvent Time)

inductive BrokerError where
  | orderError (message : String)
  | orderCancellationError (message : String)
  | positionError (message : String)
  | unsupportedOperation (message : String)
  deriving DecidableEq

structure BrokerOrderRequest where
  (clientOrderId insightId strategyType symbol : String)
  quantity : Option ℚ
  side : OrderSide
  orderType : Broker.OrderType
  orderClass : OrderClass
  (limitPrice stopPrice : Option ℚ)
  (takeProfitLevels stopLossLevels : Option (List ℚ))
  trailingStopPrice : Option ℚ
  deriving DecidableEq

structure LegIds where
  (takeProfit stopLoss trailingStop : String)

def pendingLeg (orderId : String) (limitPrice trailPrice : Option ℚ) (now : Nat) : OrderLeg where
  orderId := some orderId
  limitPrice := limitPrice
  trailPrice := trailPrice
  filledPrice := none
  status := .pending
  updatedAt := now
  filledAt := none

def BrokerOrderRequest.bracketLegs (request : BrokerOrderRequest) (ids : LegIds) (now : Nat) :
    Option OrderLegs :=
  if request.orderClass = .bracket then some
    { takeProfit := (request.takeProfitLevels.bind List.getLast?).map fun price =>
        pendingLeg ids.takeProfit (some price) none now
      stopLoss := (request.stopLossLevels.bind List.getLast?).map fun price =>
        pendingLeg ids.stopLoss (some price) none now
      trailingStop := request.trailingStopPrice.map fun price =>
        pendingLeg ids.trailingStop none (some price) now }
  else none

def Order.isPendingEntry (order : Order) : Bool :=
  order.status = .new || order.status = .pendingNew || order.status = .pending ||
    order.status = .accepted || order.status = .replaced

def OrderLeg.move (leg : OrderLeg) (price : ℚ) (now : Nat) : OrderLeg :=
  { leg with limitPrice := some price, updatedAt := now }

namespace PaperBroker

/-- An asset that was not registered trades single units. -/
def assetFor (b : PaperBroker) (symbol : String) : Asset :=
  match b.assetMetadata.lookup symbol with
  | some asset => { asset with fees := b.assetFees }
  | none =>
    { symbol := symbol, minPriceIncrement := none, contractSize := none, fees := b.assetFees }

def registerAssetMetadata (b : PaperBroker) (asset : Asset) : PaperBroker :=
  { b with assetMetadata := b.assetMetadata.insert asset.symbol { asset with fees := b.assetFees } }

variable (b : PaperBroker)

def newOrder (request : BrokerOrderRequest) (ids : LegIds) (qty : ℚ) : Order where
  submission := b.submissions
  orderId := request.clientOrderId
  insightId := some request.insightId
  strategyType := some request.strategyType
  asset := b.assetFor request.symbol
  qty := qty
  filledQty := 0
  limitPrice := request.limitPrice
  filledPrice := none
  stopPrice := request.stopPrice
  side := request.side
  orderType := request.orderType
  status := .pending
  orderClass := request.orderClass
  updatedAt := seconds b.currentTime
  filledAt := none
  realizedPnl := none
  commission := none
  swap := none
  rejectionReason := none
  legs := request.bracketLegs ids (seconds b.currentTime)

/-- The affordability of an order whose trigger price is known is checked up
front. -/
def refusalReason (order : Order) : Option String :=
  (order.limitPrice.or order.stopPrice).bind fun price =>
    b.insufficientFundsReason order.side order.qty price order.asset.contractSize

def identityExists : BrokerError :=
  .orderError "Client order identity already exists; reconcile instead of resubmitting"

def counted : PaperBroker := { b with submissions := b.submissions + 1 }

def enqueue (order : Order) : PaperBroker :=
  { b.setOrder order with pendingOrders := b.pendingOrders ++ [order.orderId] }

def acceptOrder (order : Order) : Except BrokerError (PaperBroker × Order) :=
  if (b.orders.lookup order.orderId).isSome then .error identityExists
  else match b.refusalReason order with
    | some reason =>
      .ok (b.counted.reject { order with status := .rejected, rejectionReason := some reason },
        { order with status := .rejected, rejectionReason := some reason })
    | none => .ok ((b.counted.enqueue order).emitTradeEvent order .pendingNew, order)

def submitOrder (request : BrokerOrderRequest) (ids : LegIds) :
    Except BrokerError (PaperBroker × Order) :=
  match request.quantity with
  | none => .error (.orderError
      ("Cannot submit order for " ++ request.symbol ++ " without a quantity"))
  | some qty =>
    if qty ≤ 0 then .error (.orderError
      ("Cannot submit order for " ++ request.symbol ++ " with invalid quantity " ++ toString qty))
    else b.acceptOrder (b.newOrder request ids qty)

def cancelEntry (b : PaperBroker) (order : Order) : PaperBroker :=
  ((b.setOrder order).emitTradeEvent order .cancelled).markOrderTerminalForRelease order.orderId

/-- A bracket leg is cancelled on the order it belongs to, and the event is
about that order. -/
def cancelLeg (b : PaperBroker) (orderId : String) : Except BrokerError PaperBroker :=
  match (b.orders.entries.find? fun row => row.2.hasLeg orderId).bind fun row =>
      row.2.cancelLegOnParent orderId (seconds b.currentTime) with
  | some parent =>
    .ok ((b.setOrder { parent with updatedAt := seconds b.currentTime }).emitTradeEvent
      { parent with updatedAt := seconds b.currentTime } .cancelled)
  | none => .error (.orderCancellationError ("Order not found: " ++ orderId))

def cancelOrder (b : PaperBroker) (orderId : String) : Except BrokerError PaperBroker :=
  match b.orders.lookup orderId with
  | some order =>
    if order.status = .filled ∨ order.status = .closed then
      .error (.orderCancellationError "Cannot cancel filled/closed order")
    else .ok (b.cancelEntry { order with status := .cancelled, updatedAt := seconds b.currentTime })
  | none => b.cancelLeg orderId

def amendEntryPrices (b : PaperBroker) (orderId : String) (limitPrice stopPrice : Option ℚ) :
    Except BrokerError PaperBroker :=
  match b.orders.lookup orderId with
  | none => .error (.unsupportedOperation "Pending entry not found")
  | some order =>
    if 0 < order.filledQty ∨ ¬ order.isPendingEntry then
      .error (.unsupportedOperation "Entry has filled or is no longer pending")
    else if (limitPrice = none ∧ stopPrice = none) ∨ limitPrice.any (· ≤ 0) ∨
      stopPrice.any (· ≤ 0) ∨
        (limitPrice.isSome ∧ order.orderType ≠ .limit ∧ order.orderType ≠ .stopLimit) ∨
        (stopPrice.isSome ∧ order.orderType ≠ .stop ∧ order.orderType ≠ .stopLimit) then
      .error (.unsupportedOperation "Invalid entry price amendment")
    else .ok (b.setOrder
      { order with
        limitPrice := limitPrice.or order.limitPrice
        stopPrice := stopPrice.or order.stopPrice
        updatedAt := seconds b.currentTime })

def replaceOrder (b : PaperBroker) (orderId : String) (price qty : ℚ) :
    Except BrokerError PaperBroker :=
  match b.orders.lookup orderId with
  | none => .error (.orderError "Order not found")
  | some order =>
    if ¬ order.isPendingEntry then
      .error (.orderError "Only a pending entry can be replaced")
    else if price ≤ 0 ∨ qty ≤ 0 then
      .error (.orderError "Invalid replacement price or quantity")
    else .ok (b.setOrder
      { order with limitPrice := some price, qty := qty, updatedAt := seconds b.currentTime })

/-- One of the two protective legs, with the texts of its errors. -/
structure ProtectiveLeg where
  leg : OrderLegs → Option OrderLeg
  setLeg : OrderLegs → OrderLeg → OrderLegs
  (invalidPrice notFound missing terminal : String)

def takeProfitLeg : ProtectiveLeg where
  leg := OrderLegs.takeProfit
  setLeg legs leg := { legs with takeProfit := some leg }
  invalidPrice := "Invalid take profit price"
  notFound := "Take profit order not found"
  missing := "Order has no take profit leg"
  terminal := "Take profit leg is terminal"

def stopLossLeg : ProtectiveLeg where
  leg := OrderLegs.stopLoss
  setLeg legs leg := { legs with stopLoss := some leg }
  invalidPrice := "Invalid stop loss price"
  notFound := "Order not found"
  missing := "Order has no stop loss leg"
  terminal := "Stop loss leg is terminal"

/-- The order with its leg moved, where the request names the leg itself. -/
def updateOrderLeg (kind : ProtectiveLeg) (legOrderId : String) (price : ℚ) (now : Nat)
    (order : Order) : Option Order :=
  order.legs.bind fun legs => (kind.leg legs).bind fun leg =>
    if leg.orderId ≠ some legOrderId ∨ leg.isTerminal then none
    else some { order with
      legs := some (kind.setLeg legs (leg.move price now)), updatedAt := now }

def updateProtectiveLeg (kind : ProtectiveLeg) (b : PaperBroker) (orderId : String) (price : ℚ) :
    Except BrokerError PaperBroker :=
  if price ≤ 0 then .error (.orderError kind.invalidPrice)
  else match b.orders.lookup orderId with
    | none =>
      match b.orders.entries.findSome? fun row =>
          updateOrderLeg kind orderId price (seconds b.currentTime) row.2 with
      | none => .error (.orderError kind.notFound)
      | some order => .ok (b.setOrder order)
    | some order =>
      if order.status = .closed ∨ order.status = .cancelled ∨ order.status = .rejected ∨
          order.status = .expired then
        .error (.orderError "Cannot modify a terminal order")
      else match order.legs.bind fun legs => (kind.leg legs).map fun leg => (legs, leg) with
        | none => .error (.orderError kind.missing)
        | some (legs, leg) =>
          if leg.isTerminal then .error (.orderError kind.terminal)
          else .ok (b.setOrder
            { order with
              legs := some (kind.setLeg legs (leg.move price (seconds b.currentTime)))
              updatedAt := seconds b.currentTime })

def updateTakeProfit : PaperBroker → String → ℚ → Except BrokerError PaperBroker :=
  updateProtectiveLeg takeProfitLeg

def updateStopLoss : PaperBroker → String → ℚ → Except BrokerError PaperBroker :=
  updateProtectiveLeg stopLossLeg

def closePosition (b : PaperBroker) (orderId : String) (qty : ℚ) (price : Option ℚ) :
    Except BrokerError PaperBroker :=
  match b.orders.lookup orderId with
  | none => .error (.orderError ("Order not found for close request: " ++ orderId))
  | some order => match b.positions.lookup (order.asset.symbol, orderId) with
    | none => .error (.positionError
        ((if b.positions.keys.any (·.1 = order.asset.symbol) then "No open position"
            else "No position") ++
          " found for order " ++ orderId ++ " (" ++ order.asset.symbol ++ ")"))
    | some position =>
      if requestedQty position qty ≤ 0 then .error (.positionError
        ("No closable quantity found for order " ++ orderId ++ " (" ++ order.asset.symbol ++ ")"))
      else .ok { b with
        closeOrdersQueue := b.closeOrdersQueue ++ [⟨orderId, requestedQty position qty, price⟩] }

/-- The positions are asked to close one by one, up to the first refusal. -/
def closeEach : PaperBroker → List String → PaperBroker × Except BrokerError Bool
  | b, [] => (b, .ok true)
  | b, orderId :: rest => match b.closePosition orderId 0 none with
    | .error e => (b, .error e)
    | .ok b => closeEach b rest

def closeAllPositions (b : PaperBroker) (visit : List String) :
    PaperBroker × Except BrokerError Bool :=
  b.closeEach (visited visit (b.positions.keys.map Prod.snd))

def releaseTerminalOrders (b : PaperBroker) : PaperBroker :=
  { b with
    terminalOrdersPendingRelease := []
    pendingOrders := b.pendingOrders.filter (· ∉ b.terminalOrdersPendingRelease)
    closeOrdersQueue := b.closeOrdersQueue.filter
      fun request => request.orderId ∉ b.terminalOrdersPendingRelease
    updateOrdersQueue := b.updateOrdersQueue.filter
      fun update => update.1 ∉ b.terminalOrdersPendingRelease
    activeOrders := b.activeOrders.filter (· ∉ b.terminalOrdersPendingRelease)
    orders := b.orders.retain fun orderId => orderId ∉ b.terminalOrdersPendingRelease }

/-- The events that are handed out. Terminal orders are let go once their
events were taken. -/
def drainExecutionEvents (b : PaperBroker) (maxEvents : Nat) : PaperBroker × List TradeEvent :=
  (if b.tradeEvents.drop maxEvents = [] ∧ (b.tradeEvents.take maxEvents).length ≠ 0 then
      releaseTerminalOrders { b with tradeEvents := [] }
    else { b with tradeEvents := b.tradeEvents.drop maxEvents },
    b.tradeEvents.take maxEvents)

/-- A request to the broker, or one of its steps. What the environment draws
comes with it: fresh identities, and the order in which a map is visited. -/
inductive Action where
  | registerAsset (asset : Asset)
  | setTime (time : Time)
  | submit (request : BrokerOrderRequest) (ids : LegIds)
  | cancel (orderId : String)
  | amend (orderId : String) (limitPrice stopPrice : Option ℚ)
  | replace (orderId : String) (price qty : ℚ)
  | updateTakeProfit (orderId : String) (price : ℚ)
  | updateStopLoss (orderId : String) (price : ℚ)
  | close (orderId : String) (qty : ℚ) (price : Option ℚ)
  | closeAll (visit : List String)
  | step (bars : Bars) (time : Time) (visit : List String) (exitIds : Nat → String)
  | flush (bars : Bars) (time : Time) (exitIds : Nat → String)
  | drain (maxEvents : Nat)

/-- A refused request changes nothing. -/
def answered (b : PaperBroker) : Except BrokerError PaperBroker → PaperBroker
  | .ok b' => b'
  | .error _ => b

def act (b : PaperBroker) : Action → PaperBroker
  | .registerAsset asset => b.registerAssetMetadata asset
  | .setTime time => { b with currentTime := time }
  | .submit request ids => b.answered ((b.submitOrder request ids).map Prod.fst)
  | .cancel orderId => b.answered (b.cancelOrder orderId)
  | .amend orderId limitPrice stopPrice =>
    b.answered (b.amendEntryPrices orderId limitPrice stopPrice)
  | .replace orderId price qty => b.answered (b.replaceOrder orderId price qty)
  | .updateTakeProfit orderId price => b.answered (b.updateTakeProfit orderId price)
  | .updateStopLoss orderId price => b.answered (b.updateStopLoss orderId price)
  | .close orderId qty price => b.answered (b.closePosition orderId qty price)
  | .closeAll visit => (b.closeAllPositions visit).1
  | .step bars time visit exitIds => processStep bars time visit exitIds b
  | .flush bars time exitIds => processCloseQueueAt bars time exitIds b
  | .drain maxEvents => (b.drainExecutionEvents maxEvents).1

def run (b : PaperBroker) (actions : List Action) : PaperBroker := actions.foldl act b

end PaperBroker

end AqEngine.Paper
