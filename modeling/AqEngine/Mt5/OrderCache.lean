import AqEngine.Broker.Types
import AqEngine.Lib.Runs
import AqEngine.Lib.Table

namespace AqEngine.Mt5

open Lib Broker List AList

structure CachedOrder extends Order where
  strategyType : Option String
  deriving DecidableEq

abbrev OrderCache := Table String CachedOrder

def isAcceptance : TradeUpdateEvent → Bool
  | .accepted | .new | .pendingNew | .pending => true
  | _ => false

def isComplete : TradeUpdateEvent → Bool
  | .filled | .closed | .cancelled | .rejected | .expired => true
  | _ => false

namespace OrderCache

variable (c : OrderCache)

def upsertOrder (order : CachedOrder) : OrderCache :=
  match c.lookup order.orderId with
  | none => c.insert order.orderId order
  | some existing =>
    let asset :=
      if order.asset.symbol ≠ existing.asset.symbol then existing.asset else order.asset
    if isComplete existing.status && isAcceptance order.status then c
    else c.insert order.orderId { order with
      asset
      insightId := order.insightId.or existing.insightId
      strategyType := order.strategyType.or existing.strategyType
      legs := order.legs.or existing.legs }

def insertAll (orders : List CachedOrder) : OrderCache :=
  orders.foldl (fun c order => c.insert order.orderId order) c

def acknowledged (limitPrice stopPrice : Option F64) (order : CachedOrder) : CachedOrder :=
  if order.filledQty = 0 ∧ (isAcceptance order.status ∨ order.status = .replaced) then
    { order with
      limitPrice := limitPrice.or order.limitPrice, stopPrice := stopPrice.or order.stopPrice }
  else order

def acknowledgeEntryPrices (orderId : String) (limitPrice stopPrice : Option F64) : OrderCache :=
  c.modify orderId (acknowledged limitPrice stopPrice)

/-- The writers of the cache. The orders of trade events, of answers to
commands and of order lists have their symbols mapped already. -/
inductive Write where
  | tradeEvent (order : CachedOrder) (analyticsOnly : Bool)
  | response (order : CachedOrder)
  | requestOrders (orders : List CachedOrder)
  | snapshot (orders : List CachedOrder)
  | acknowledge (orderId : String) (limitPrice stopPrice : Option F64)

def write : Write → OrderCache
  | .tradeEvent order analyticsOnly => if analyticsOnly then c else c.upsertOrder order
  | .response order => c.upsertOrder order
  | .requestOrders orders => insertAll ∅ orders
  | .snapshot orders => c.insertAll orders
  | .acknowledge orderId limitPrice stopPrice =>
    c.acknowledgeEntryPrices orderId limitPrice stopPrice

end OrderCache

/-- A field of an order is as it was, or as one of the reports has it. -/
def Retained {α : Type} (reports : List CachedOrder) (field : CachedOrder → Option α)
    (a b : CachedOrder) : Prop :=
  field b = field a ∨ ∃ order ∈ reports, (field order).isSome ∧ field b = field order

/-- What the cache should keep of a completed order. -/
structure Keeps (reports : List CachedOrder) (a b : CachedOrder) : Prop where
  symbol : b.asset.symbol = a.asset.symbol
  complete : isComplete b.status
  insightId : Retained reports (·.insightId) a b
  strategyType : Retained reports (·.strategyType) a b
  legs : Retained reports (·.legs) a b

/-- A report that is not behind what is cached of a completed order. -/
def Covers (a order : CachedOrder) : Prop :=
  order.asset.symbol = a.asset.symbol ∧ isComplete order.status ∧
    (a.insightId.isSome → order.insightId.isSome) ∧
    (a.strategyType.isSome → order.strategyType.isSome) ∧ (a.legs.isSome → order.legs.isSome)

instance (a order : CachedOrder) : Decidable (Covers a order) :=
  inferInstanceAs (Decidable (_ ∧ _))

section

variable {α : Type} {reports more : List CachedOrder} {field : CachedOrder → Option α}
  {a b d order : CachedOrder}

theorem Retained.mono (h : Retained reports field a b) (hr : reports ⊆ more) :
    Retained more field a b :=
  h.imp_right fun ⟨order, ho, hs⟩ => ⟨order, hr ho, hs⟩

theorem Retained.trans (h : Retained reports field a b) (h' : Retained reports field b d) :
    Retained reports field a d := by
  obtain h' | h' := h'
  · rw [Retained, h']
    exact h
  · exact .inr h'

theorem Keeps.refl (h : isComplete a.status) : Keeps reports a a :=
  ⟨rfl, h, .inl rfl, .inl rfl, .inl rfl⟩

theorem Keeps.trans (h : Keeps reports a b) (h' : Keeps reports b d) : Keeps reports a d :=
  ⟨h'.symbol.trans h.symbol, h'.complete, h.insightId.trans h'.insightId,
    h.strategyType.trans h'.strategyType, h.legs.trans h'.legs⟩

theorem Keeps.mono (h : Keeps reports a b) (hr : reports ⊆ more) : Keeps more a b :=
  ⟨h.symbol, h.complete, h.insightId.mono hr, h.strategyType.mono hr, h.legs.mono hr⟩

end

namespace OrderCache

def Write.orders : Write → List CachedOrder
  | .tradeEvent _ true | .acknowledge .. => []
  | .tradeEvent order false | .response order => [order]
  | .requestOrders orders | .snapshot orders => orders

/-- The reports of one order. -/
def Write.reports (id : String) (w : Write) : List CachedOrder :=
  w.orders.filter (·.orderId = id)

/-- An event of a completed order is an acceptance or completes it again; order
lists and snapshots are not behind the cache. -/
def Write.mild (a order : CachedOrder) : Write → Bool
  | .requestOrders _ | .snapshot _ => Covers a order
  | _ => isAcceptance order.status || isComplete order.status

/-- The condition for one order: while it is cached as completed, its reports
are mild, and when an order list has left it out, it is not reported again. -/
def calm (id : String) : OrderCache → List Write → Bool
  | _, [] => true
  | c, w :: ws =>
    ((c.lookup id).all fun a => isComplete a.status →
      (w.reports id).all (w.mild a) ∧
      (id ∉ c.write w → ws.all fun w' => (w'.reports id).isEmpty)) &&
    calm id (c.write w) ws

variable {c : OrderCache} {id : String} {a : CachedOrder}

def sampleOrder (status : TradeUpdateEvent) : CachedOrder :=
  ⟨⟨"1", none, ⟨"X", true, true, none, none, none, none⟩, 1, 1, none, none, none, .buy, status,
    none, none, none, none, none, none⟩, none⟩

end OrderCache

end AqEngine.Mt5
