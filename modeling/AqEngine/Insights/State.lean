import AqEngine.Broker.Commands

namespace AqEngine.Insights

open Lib Broker

/-- One reading of the two clocks an insight uses: the strategy's own clock
and the wall clock that bounds broker accounting. -/
structure Clock where
  (strategy wall : Time)
  deriving DecidableEq, Repr

inductive MutationKind where
  | submit | cancel | close | takeProfit | stopLoss | replace | amendEntry
  deriving DecidableEq, Repr

inductive MutationEffect where
  | submit | cancel
  | close (price : Option F64)
  | takeProfit (levels : Option (List F64))
  | stopLoss (levels : Option (List F64))
  | replace (price quantity : F64)
  | amendEntry (limitPrice stopPrice : Option F64)
  deriving DecidableEq

structure PendingInsightMutation where
  kind : MutationKind
  receipt : BrokerCommandReceipt
  effect : MutationEffect
  deriving DecidableEq

structure HistoryEntry where
  time : Time
  state : InsightState
  message : Message
  kind : InsightHistoryKind
  deriving DecidableEq

structure Insight where
  insightId : Uuid
  state : InsightState := .new
  orderId : Option String := none
  side : OrderSide := .buy
  symbol : String := ""
  parentId : Option Uuid := none
  quantity : Option F64 := none
  orderType : Broker.OrderType := .market
  orderClass : OrderClass := .simple
  (limitPrice stopPrice : Option F64 := none)
  (takeProfitLevels stopLossLevels : Option (List F64) := none)
  trailingStopPrice : Option F64 := none
  strategyType : StrategyType := .manual
  timeframe : TimeFrame := ⟨1, .minute⟩
  (periodUnfilled periodTillTp : Option Nat := none)
  filledPrice : Option F64 := none
  closeOrderId : Option String := none
  (closePrice brokerRealizedPnl : Option F64 := none)
  positionAccounting : Option PositionCloseAccounting := none
  (commission swap : Option F64 := none)
  partialCloses : List PartialCloseResult := []
  (createdAt updatedAt : Time := 0)
  (filledAt closedAt : Option Time := none)
  legs : OrderLegs := {}
  (marketChanged submitted : Bool := false)
  pendingMutations : List PendingInsightMutation := []
  (suppressChildEntries cancelling closing firstOnFill : Bool := false)
  (entryFilledQuantity partialFilledQuantity : Option F64 := none)
  stateHistory : List HistoryEntry := []
  deriving DecidableEq

namespace Insight

variable (i : Insight)

def entryPrice : Option F64 := (i.filledPrice.or i.limitPrice).or i.stopPrice

def normalizeLevels (levels : Option (List F64)) : Option (List F64) :=
  let unique := (levels.getD []).foldl (fun unique level =>
    if !level.isFinite then unique
    else if unique.any (fun existing => (existing - level).abs ≤ F64.epsilon) then unique
    else unique ++ [level]) []
  if unique.isEmpty then none else some unique

/-- Once filled, the executed quantity is what can be closed; older rows
without it fall back to the requested quantity. -/
def remainingQuantity : F64 :=
  let quantity :=
    if i.state = .filled ∨ i.state = .closed then i.entryFilledQuantity.or i.quantity
    else i.quantity
  F64.max (quantity.getD 0 - i.partialFilledQuantity.getD 0) 0

def pushStateHistory (time : Time) (state : InsightState) (message : Message)
    (kind : InsightHistoryKind) : Insight :=
  { i with stateHistory := i.stateHistory ++ [⟨time, state, message, kind⟩] }

variable (t : Clock)

def updateStateTyped (newState : InsightState) (message : Message)
    (kind : InsightHistoryKind) (i : Insight) : Insight :=
  let i := { i with updatedAt := t.strategy }
  -- A filled position is never cancelled or rejected; the attempt is logged.
  if i.state = .filled ∧ (newState = .cancelled ∨ newState = .rejected) then
    i.pushStateHistory t.strategy .filled (.ignoredTransition newState message) .diagnostic
  else
    let i := if newState = .filled then { i with cancelling := false } else i
    let i := if newState.isInactive then { i with cancelling := false, closing := false } else i
    let i :=
      if i.state ≠ newState then
        { i.pushStateHistory t.strategy newState (.stateChanged i.state newState)
            .stateTransition with state := newState }
      else i
    i.pushStateHistory t.strategy newState message kind

def updateState (newState : InsightState) (message : Message) (i : Insight) :
    Insight := i.updateStateTyped t newState message .diagnostic

def stateLog (message : Message) (i : Insight) : Insight :=
  i.updateStateTyped t i.state message .diagnostic

def setQuantity (quantity : Option F64) (i : Insight) : Insight :=
  if i.quantity == quantity then i
  else { i with quantity }.updateState t i.state (.quantitySet (quantity.getD 0))

def derivedOrderType : Broker.OrderType :=
  match i.limitPrice, i.stopPrice with
  | some _, some _ => .stopLimit
  | some _, none => .limit
  | none, some _ => .stop
  | none, none => .market

def updateOrderType (i : Insight) : Insight :=
  if i.orderType = i.derivedOrderType then i
  else
    { i with orderType := i.derivedOrderType }.updateState t i.state
      (.orderTypeSet i.derivedOrderType)

def derivedOrderClass : OrderClass :=
  match i.takeProfitLevels.any (!·.isEmpty), i.stopLossLevels.any (!·.isEmpty),
      i.trailingStopPrice.isSome with
  | true, true, _ => .bracket
  | true, false, _ => .bracket
  | false, true, _ => .bracket
  | false, false, true => .bracket
  | false, false, false => .simple

def updateOrderClass (i : Insight) : Insight :=
  if i.orderClass = i.derivedOrderClass then i
  else
    { i with orderClass := i.derivedOrderClass }.updateState t i.state
      (.orderClassSet i.derivedOrderClass)

def setLimitPrice (limitPrice : Option F64) (i : Insight) : Insight :=
  if i.state = .filled ∨ i.state.isInactive then
    i.stateLog t
      (.text "Cannot set entry limit price: order has already filled or is inactive")
  else if i.limitPrice == limitPrice then i
  else
    ({ i with limitPrice }.updateOrderType t).updateState t i.state
      (.limitPriceSet (limitPrice.getD 0))

def setStopPrice (stopPrice : Option F64) (i : Insight) : Insight :=
  if i.state = .filled ∨ i.state.isInactive then
    i.stateLog t
      (.text "Cannot set entry stop price: order has already filled or is inactive")
  else if i.stopPrice == stopPrice then i
  else
    ({ i with stopPrice }.updateOrderType t).updateState t i.state
      (.stopPriceSet (stopPrice.getD 0))

def setTakeProfitLevels (levels : Option (List F64)) (i : Insight) : Insight :=
  let levels := normalizeLevels levels
  if i.takeProfitLevels == levels then i
  else
    ({ i with takeProfitLevels := levels }.updateOrderClass t).updateState t i.state
      (.takeProfitSet (levels.getD []))

def setStopLossLevels (levels : Option (List F64)) (i : Insight) : Insight :=
  let levels := normalizeLevels levels
  if i.stopLossLevels == levels then i
  else
    ({ i with stopLossLevels := levels }.updateOrderClass t).updateState t i.state
      (.stopLossSet (levels.getD []))

def setTrailingStopPrice (price : Option F64) (i : Insight) : Insight :=
  if i.trailingStopPrice == price then i
  else
    ({ i with trailingStopPrice := price }.updateOrderClass t).updateState t i.state
      (.trailingStopSet price)

def setFirstOnFill (firstOnFill : Bool) (i : Insight) : Insight :=
  if i.firstOnFill = firstOnFill then i
  else { i with firstOnFill }.updateState t i.state (.firstOnFillSet firstOnFill)

/-- What broker evidence says about an insight: its lifecycle state, the
orders that belong to it and the economics of its fills. Levels, flags and
history are outside. -/
structure Execution where
  insightId : Uuid
  state : InsightState
  orderId : Option String
  side : OrderSide
  symbol : String
  (filledPrice entryFilledQuantity partialFilledQuantity : Option F64)
  partialCloses : List PartialCloseResult
  closeOrderId : Option String
  (closePrice brokerRealizedPnl : Option F64)
  positionAccounting : Option PositionCloseAccounting
  (commission swap : Option F64)
  suppressChildEntries : Bool

def execution : Execution where
  insightId := i.insightId
  state := i.state
  orderId := i.orderId
  side := i.side
  symbol := i.symbol
  filledPrice := i.filledPrice
  entryFilledQuantity := i.entryFilledQuantity
  partialFilledQuantity := i.partialFilledQuantity
  partialCloses := i.partialCloses
  closeOrderId := i.closeOrderId
  closePrice := i.closePrice
  brokerRealizedPnl := i.brokerRealizedPnl
  positionAccounting := i.positionAccounting
  commission := i.commission
  swap := i.swap
  suppressChildEntries := i.suppressChildEntries

variable (s : InsightState) (m : Message)

theorem execution_updateStateTyped (k : InsightHistoryKind) (i : Insight) :
    (i.updateStateTyped t s m k).execution = { i.execution with state := i.state.next s } := by
  by_cases h : i.state = .filled ∧ (s = .cancelled ∨ s = .rejected)
  · simp [updateStateTyped, InsightState.next, h, pushStateHistory, execution]
  unfold updateStateTyped InsightState.next
  simp only [h, if_false]
  by_cases hs : i.state = s
  · split <;> split <;> simp [hs, pushStateHistory, execution]
  · split <;> split <;> simp [pushStateHistory, execution]

@[simp] theorem execution_updateState (i : Insight) :
    (i.updateState t s m).execution = { i.execution with state := i.state.next s } :=
  execution_updateStateTyped t s m _ i

theorem execution_updateState_same {i : Insight} {s : InsightState}
    (h : i.state = s) : (i.updateState t s m).execution = i.execution := by
  subst h
  rw [execution_updateState, InsightState.next_self]
  rfl

/-- What neither the lifecycle nor the fills of an insight touch: its mutations
and the kind of order that it asks for. -/
structure Outline where
  pendingMutations : List PendingInsightMutation
  orderType : Broker.OrderType
  orderClass : OrderClass
  (limitPrice stopPrice : Option F64)
  (takeProfitLevels stopLossLevels : Option (List F64))
  trailingStopPrice : Option F64

def outline : Outline where
  pendingMutations := i.pendingMutations
  orderType := i.orderType
  orderClass := i.orderClass
  limitPrice := i.limitPrice
  stopPrice := i.stopPrice
  takeProfitLevels := i.takeProfitLevels
  stopLossLevels := i.stopLossLevels
  trailingStopPrice := i.trailingStopPrice

@[simp] theorem outline_updateState (i : Insight) : (i.updateState t s m).outline = i.outline := by
  unfold updateState updateStateTyped pushStateHistory
  dsimp only
  split
  · rfl
  · split <;> split <;> split <;> rfl

theorem pendingMutations_updateState (i : Insight) :
    (i.updateState t s m).pendingMutations = i.pendingMutations :=
  congrArg Outline.pendingMutations (outline_updateState t s m i)

/-- A change that touches neither the execution nor the mutations. -/
structure Aside (i j : Insight) : Prop where
  execution : j.execution = i.execution
  pending : j.pendingMutations = i.pendingMutations

theorem Aside.refl : Aside i i := ⟨rfl, rfl⟩

theorem Aside.trans {i j k : Insight} (hij : Aside i j) (hjk : Aside j k) : Aside i k :=
  ⟨hjk.execution.trans hij.execution, hjk.pending.trans hij.pending⟩

theorem Aside.updateState {i j : Insight} (h : Aside i j) (t : Clock) (m : Message)
    {s : InsightState} (hs : i.state = s) : Aside i (j.updateState t s m) := by
  have hst : j.state = s := (congrArg Execution.state h.execution).trans hs
  refine h.trans ⟨execution_updateState_same t m hst, ?_⟩
  rw [pendingMutations_updateState]

theorem aside_stateLog (i : Insight) : Aside i (i.stateLog t m) :=
  (Aside.refl i).updateState t m rfl

section

variable (t : Clock) (i : Insight)

theorem aside_setQuantity (quantity : Option F64) : Aside i (i.setQuantity t quantity) := by
  unfold setQuantity
  split
  · exact .refl i
  · exact .updateState ⟨by rfl, by rfl⟩ t _ rfl

theorem aside_updateOrderType : Aside i (i.updateOrderType t) := by
  unfold updateOrderType
  split
  · exact .refl i
  · exact .updateState ⟨by rfl, by rfl⟩ t _ rfl

theorem aside_updateOrderClass : Aside i (i.updateOrderClass t) := by
  unfold updateOrderClass
  split
  · exact .refl i
  · exact .updateState ⟨by rfl, by rfl⟩ t _ rfl

theorem Aside.typed {i j : Insight} (h : Aside i j) (m : Message) :
    Aside i ((j.updateOrderType t).updateState t i.state m) :=
  (h.trans (aside_updateOrderType t j)).updateState t m rfl

theorem Aside.classed {i j : Insight} (h : Aside i j) (m : Message) :
    Aside i ((j.updateOrderClass t).updateState t i.state m) :=
  (h.trans (aside_updateOrderClass t j)).updateState t m rfl

theorem aside_setLimitPrice (price : Option F64) : Aside i (i.setLimitPrice t price) := by
  unfold setLimitPrice
  split
  · exact aside_stateLog t _ i
  split
  · exact .refl i
  · exact .typed t ⟨by rfl, by rfl⟩ _

theorem aside_setStopPrice (price : Option F64) : Aside i (i.setStopPrice t price) := by
  unfold setStopPrice
  split
  · exact aside_stateLog t _ i
  split
  · exact .refl i
  · exact .typed t ⟨by rfl, by rfl⟩ _

theorem aside_setTakeProfitLevels (levels : Option (List F64)) :
    Aside i (i.setTakeProfitLevels t levels) := by
  dsimp only [setTakeProfitLevels]
  split
  · exact .refl i
  · exact .classed t ⟨by rfl, by rfl⟩ _

theorem aside_setStopLossLevels (levels : Option (List F64)) :
    Aside i (i.setStopLossLevels t levels) := by
  dsimp only [setStopLossLevels]
  split
  · exact .refl i
  · exact .classed t ⟨by rfl, by rfl⟩ _

theorem aside_setTrailingStopPrice (price : Option F64) :
    Aside i (i.setTrailingStopPrice t price) := by
  unfold setTrailingStopPrice
  split
  · exact .refl i
  · exact .classed t ⟨by rfl, by rfl⟩ _

theorem aside_setFirstOnFill (firstOnFill : Bool) : Aside i (i.setFirstOnFill t firstOnFill) := by
  unfold setFirstOnFill
  split
  · exact .refl i
  · exact .updateState ⟨by rfl, by rfl⟩ t _ rfl

end

end Insight

end AqEngine.Insights
