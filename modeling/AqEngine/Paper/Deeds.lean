import AqEngine.Paper.Refinement

namespace AqEngine.Paper

open Lib PaperBroker
open Broker (OrderSide TradeUpdateEvent Time)

section

inductive LegKind where
  | takeProfit | stopLoss | trailingStop
  deriving DecidableEq

def Order.leg (order : Order) : LegKind → Option OrderLeg
  | .takeProfit => order.legs.bind OrderLegs.takeProfit
  | .stopLoss => order.legs.bind OrderLegs.stopLoss
  | .trailingStop => order.legs.bind OrderLegs.trailingStop

/-- A leg is cancelled when its order is closed, and not before. -/
def Order.Settled (order : Order) : Prop :=
  ∀ kind leg, order.leg kind = some leg → leg.status = .cancelled → order.status = .closed

/-- No leg comes to be cancelled, and those of a closed order stay as they are. -/
structure Order.LegsKept (order order' : Order) : Prop where
  settled : order.Settled → order'.Settled
  closed : order.status = .closed → order'.status = .closed ∧
    ∀ kind leg, order.leg kind = some leg → leg.status = .cancelled →
      ∃ now, order'.leg kind = some { leg with updatedAt := now }

structure Order.Fresh (order : Order) : Prop where
  settled : order.Settled
  realizedPnl : order.realizedPnl = none
  swap : order.swap = none

/-- What becomes of an order that is neither filled nor brought to an exit. A
leg may be cancelled for itself where the broker is not calm. -/
structure Order.Goes (calm : Prop) (order order' : Order) : Prop where
  submission : order'.submission = order.submission
  symbol : order'.asset.symbol = order.asset.symbol
  side : order'.side = order.side
  commission : order'.commission = order.commission
  realizedPnl : order'.realizedPnl = order.realizedPnl
  swap : order'.swap = order.swap
  pending : order'.status = .pending → order.status = .pending
  legs : calm → order.LegsKept order'

variable {calm : Prop} {order order' : Order}

theorem Order.LegsKept.of_iff (hs : order.status = .closed → order'.status = .closed)
    (h : ∀ kind leg, leg.status = .cancelled →
      (order'.leg kind = some leg ↔ order.leg kind = some leg)) : order.LegsKept order' where
  settled hse kind leg hl hc := hs (hse kind leg ((h kind leg hc).1 hl) hc)
  closed hcl := ⟨hs hcl, fun kind leg hl hc => ⟨leg.updatedAt, (h kind leg hc).2 hl⟩⟩

theorem Order.LegsKept.same (hlegs : order'.legs = order.legs)
    (hs : order.status = .closed → order'.status = .closed) : order.LegsKept order' := by
  refine .of_iff hs fun kind _ _ => ?_
  cases kind <;> simp only [Order.leg, hlegs]

theorem Order.LegsKept.live (hs : order.status ≠ .closed)
    (h : ∀ kind leg, order'.leg kind = some leg → leg.status = .cancelled →
      ∃ leg, order.leg kind = some leg ∧ leg.status = .cancelled) : order.LegsKept order' where
  settled hse kind leg hl hc := by
    obtain ⟨old, hold, hc'⟩ := h kind leg hl hc
    exact absurd (hse kind old hold hc') hs
  closed hcl := absurd hcl hs

theorem legsKept_move {kind : ProtectiveLeg} (hkind : kind = takeProfitLeg ∨ kind = stopLossLeg)
    {legs : OrderLegs} {leg : OrderLeg} (hlegs : order.legs = some legs)
    (hle : kind.leg legs = some leg) (ht : leg.isTerminal = false) (price : ℚ) (now : Nat) :
    order.LegsKept
      { order with legs := some (kind.setLeg legs (leg.move price now)), updatedAt := now } := by
  have hc : leg.status ≠ .cancelled := by
    intro hc
    simp [OrderLeg.isTerminal, hc] at ht
  refine .of_iff (fun h => h) fun other l hl => ?_
  have hne : leg ≠ l ∧ leg.move price now ≠ l := by
    constructor <;> rintro rfl <;> exact hc hl
  obtain rfl | rfl := hkind
  · cases other <;> simp_all [Order.leg, takeProfitLeg]
  · cases other <;> simp_all [Order.leg, stopLossLeg]

theorem goes_refl (order : Order) : order.Goes calm order :=
  ⟨rfl, rfl, rfl, rfl, rfl, rfl, fun h => h, fun _ => .same rfl fun h => h⟩

end

/-- What a bar finds to do: the close requests that wait, and the orders with a
leg that it hits. -/
structure Agenda where
  requests : List CloseRequest
  hits : String → Option ℚ

/-- What an exit leaves of an order, and how it is reported. -/
inductive Outcome (agenda : Agenda) (bar : Bar) (time : Time) (order : Order)
    (position : Position) (price qty : ℚ) (left : Order) : TradeEvent → Prop
  | leg {legs legs' : OrderLegs} (hlegs : order.legs = some legs)
      (trigger : triggerLegs order.side bar (seconds time) legs = (legs', some price))
      (whole : qty = position.qty)
      (hleft : left = closedByLeg { order with legs := some legs' } price
        (some (settleQty order position price qty time)) (seconds time))
      (hit : agenda.hits order.orderId = some price) :
      Outcome agenda bar time order position price qty left ⟨left, .closed⟩
  | closed {request : CloseRequest} (mem : request ∈ agenda.requests)
      (hid : request.orderId = order.orderId) (hprice : price = request.price.getD bar.close)
      (whole : qty = position.qty)
      (hleft : left = finishClose.closed order price (settleQty order position price qty time)
        (seconds time)) (missed : agenda.hits order.orderId = none) :
      Outcome agenda bar time order position price qty left ⟨left, .closed⟩
  | reduced {request : CloseRequest} (exitId : String) (mem : request ∈ agenda.requests)
      (hid : request.orderId = order.orderId) (hprice : price = request.price.getD bar.close)
      (part : qty < position.qty)
      (hleft : left = finishClose.remaining order (settleQty order position price qty time)
        (seconds time)) :
      Outcome agenda bar time order position price qty left
        ⟨partialExit left exitId price (settleQty order position price qty time), .partialFilled⟩

theorem Outcome.left_eq {agenda : Agenda} {bar : Bar} {time : Time} {order left : Order}
    {position : Position} {price qty : ℚ} {event : TradeEvent}
    (h : Outcome agenda bar time order position price qty left event) :
    left.orderId = order.orderId ∧ left.asset = order.asset ∧ left.side = order.side ∧
      left.status ≠ .pending := by
  cases h with
  | leg _ _ _ hleft | closed _ _ _ _ hleft
  | reduced _ _ _ _ _ hleft => exact hleft ▸ ⟨rfl, rfl, rfl, nofun⟩

/-- A trade is booked: the order is stored, recorded and reported. -/
structure Booked (b b' : PaperBroker) (booked : PaperBroker) (order : Order) (record : TradeRecord)
    (event : TradeEvent) : Prop where
  account : b'.account = booked.account
  positions : b'.positions = booked.positions
  orders : b'.orders = b.orders.insert order.orderId order
  log : b'.tradeLog = b.tradeLog ++ [record]
  emitted : b'.emitted = b.emitted ++ [event]
  queue : b'.closeOrdersQueue = b.closeOrdersQueue

def TradeEvent.isTrade (e : TradeEvent) : Bool :=
  e.event = .filled || e.event = .partialFilled || e.event = .closed

namespace PaperBroker

/-- Neither the account nor a position is touched. -/
def Quiet (b b' : PaperBroker) : Prop := b'.account = b.account ∧ b'.positions = b.positions

/-- Nothing is filled or brought to an exit. -/
structure Mild (calm : Prop) (b b' : PaperBroker) : Prop where
  quiet : Quiet b b'
  log : b'.tradeLog = b.tradeLog
  emitted : ∃ events, b'.emitted = b.emitted ++ events ∧ ∀ e ∈ events, e.isTrade = false
  order : ∀ id order', b'.orders.lookup id = some order' →
    (∃ order, b.orders.lookup id = some order ∧ order.Goes calm order') ∨
      (b.orders.lookup id = none ∧ NoPosition b id ∧ order'.Fresh)

end PaperBroker

def Kept (b b' : PaperBroker) : Prop := ∀ id, b'.orders.lookup id = none → b.orders.lookup id = none

/-- One thing that a bar does. What it finds to do is `agenda`. -/
inductive Deed (calm : Prop) (agenda : Agenda) (bars : Bars) (time : Time)
    (b b' : PaperBroker) : Prop
  | mild (h : Mild calm b b') (kept : Kept b b')
  | fill {id : String} {order : Order} {bar : Bar} {price : ℚ} {filled : Order}
      (found : b.orders.lookup id = some order) (hid : order.orderId = id)
      (status : order.status = .pending) (pos : 0 < order.qty) (vacant : NoPosition b id)
      (hbar : bars.lookup order.asset.symbol = some bar)
      (fills : tryFillOrder order bar = some price)
      (hfilled : filled = fillOrder order price (seconds time))
      (h : Booked b b' (b.openPosition filled price) filled (entryRecord filled price time)
        ⟨filled, .filled⟩)
  | exit {id : String} {n : Nat} {lot : Lot} {order left : Order} {position : Position} {bar : Bar}
      {price qty : ℚ} {event : TradeEvent}
      (opened : Opened b id n lot order position)
      (hbar : bars.lookup order.asset.symbol = some bar) (pos : 0 < qty) (le : qty ≤ position.qty)
      (outcome : Outcome agenda bar time order position price qty left event)
      (h : Booked b b' (exited b order position price qty time) left
        (exitOf order position price qty time) event)

abbrev Deeds (calm : Prop) (agenda : Agenda) (bars : Bars) (time : Time) :
    PaperBroker → PaperBroker → Prop := Relation.ReflTransGen (Deed calm agenda bars time)

theorem Booked.event_eq {b b' booked : PaperBroker} {order : Order} {record : TradeRecord}
    {e event : TradeEvent} (h : Booked b b' booked order record event)
    (hn : ∃ events, b'.emitted = b.emitted ++ events ∧ e ∈ events) : e = event := by
  obtain ⟨events, heq, he⟩ := hn
  obtain rfl := List.append_cancel_left (heq.symm.trans h.emitted)
  exact List.mem_singleton.1 he

namespace PaperBroker

variable {calm : Prop} {b b' : PaperBroker} {id : String} {order order' : Order}

theorem Mild.no_trade {e : TradeEvent} (h : Mild calm b b')
    (hn : ∃ events, b'.emitted = b.emitted ++ events ∧ e ∈ events) : e.isTrade = false := by
  obtain ⟨events, heq, he⟩ := hn
  obtain ⟨new, hn, hm⟩ := h.emitted
  obtain rfl := List.append_cancel_left (heq.symm.trans hn)
  exact hm e he

theorem Mild.same (ho : b'.orders = b.orders) (hq : Quiet b b')
    (hl : b'.tradeLog = b.tradeLog) (he : b'.emitted = b.emitted) : Mild calm b b' :=
  ⟨hq, hl, ⟨[], by simp [he], by simp⟩, fun _ order' h => .inl ⟨order', ho ▸ h, goes_refl order'⟩⟩

theorem Mild.setOrder (hf : b.orders.lookup id = some order) (hid : order'.orderId = id)
    (hg : order.Goes calm order') : Mild calm b (b.setOrder order') := by
  refine ⟨⟨rfl, rfl⟩, rfl, ⟨[], by simp [PaperBroker.setOrder], by simp⟩, fun i o ho => .inl ?_⟩
  subst hid
  obtain ⟨rfl, rfl⟩ | ⟨-, ho⟩ := Table.lookup_insert_cases ho
  · exact ⟨order, hf, hg⟩
  · exact ⟨o, ho, goes_refl o⟩

theorem kept_setOrder (b : PaperBroker) (order : Order) : Kept b (b.setOrder order) := by
  intro id h
  have hne : id ≠ order.orderId := by
    rintro rfl
    exact absurd ((AList.lookup_insert b.orders).symm.trans h) nofun
  exact (AList.lookup_insert_ne hne).symm.trans h

theorem Mild.emit (h : Mild calm b b') {event : TradeUpdateEvent}
    (hne : TradeEvent.isTrade ⟨order, event⟩ = false) :
    Mild calm b (b'.emitTradeEvent order event) := by
  obtain ⟨events, heq, hev⟩ := h.emitted
  refine ⟨h.quiet, h.log, ⟨events ++ [⟨order, event⟩], ?_, ?_⟩, h.order⟩
  · simp [emitTradeEvent, heq]
  · simpa [or_imp, forall_and] using ⟨hev, hne⟩

theorem Mild.mark (h : Mild calm b b') (id : String) :
    Mild calm b (b'.markOrderTerminalForRelease id) := by
  obtain ⟨released, heq, -⟩ := markOrderTerminalForRelease_eq b' id
  rw [heq]
  exact { h with }

theorem fields_mark (b : PaperBroker) (id : String) :
    (b.markOrderTerminalForRelease id).activeOrders = b.activeOrders ∧
      (b.markOrderTerminalForRelease id).pendingOrders = b.pendingOrders ∧
      (b.markOrderTerminalForRelease id).orders = b.orders ∧
      (b.markOrderTerminalForRelease id).closeOrdersQueue = b.closeOrdersQueue := by
  obtain ⟨released, heq, -⟩ := markOrderTerminalForRelease_eq b id
  rw [heq]
  exact ⟨rfl, rfl, rfl, rfl⟩

theorem booked_enter (b : PaperBroker) (order : Order) (price : ℚ) (time : Time) :
    Booked b (b.enter order price time) (b.openPosition order price) order
      (entryRecord order price time) ⟨order, .filled⟩ := by
  obtain ⟨active, heq, -⟩ := activate_eq ((((b.setOrder order).openPosition order
    price).recordEntryTrade order price time).emitTradeEvent order .filled) order
  rw [enter, heq]
  exact ⟨rfl, rfl, rfl, rfl, rfl, rfl⟩

variable {position : Position} {price qty : ℚ} {time : Time} (left : Order)

theorem booked_exited (event : TradeEvent) : Booked b
    (((exited b order position price qty time).setOrder left).emitTradeEvent
      event.order event.event)
    (exited b order position price qty time) left (exitOf order position price qty time) event :=
  ⟨rfl, rfl, rfl, rfl, rfl, rfl⟩

theorem booked_finish : Booked b (closeByLeg.finish (exited b order position price qty time) left)
    (exited b order position price qty time) left (exitOf order position price qty time)
    ⟨left, .closed⟩ := by
  obtain ⟨released, heq, -⟩ := markOrderTerminalForRelease_eq
    (((exited b order position price qty time).setOrder left).emitTradeEvent left .closed)
    left.orderId
  rw [closeByLeg.finish, heq]
  exact ⟨rfl, rfl, rfl, rfl, rfl, rfl⟩

theorem booked_closeTerminally : Booked b
    ((exited b order position price qty time).closeTerminally left)
    (exited b order position price qty time) left (exitOf order position price qty time)
    ⟨left, .closed⟩ := by
  have h : Booked b (closeByLeg.finish (exited b order position price qty time) left) _ _ _ _ :=
    booked_finish left
  exact { h with }

end PaperBroker

end AqEngine.Paper
