import AqEngine.Lib.Totals
import AqEngine.Paper.Book
import AqEngine.Paper.Requests

namespace AqEngine.Paper

open Lib PaperBroker List AList
open Broker (OrderSide TradeUpdateEvent Time)

section

/-- The fields of a position that say what is held for it agree. -/
structure Position.Carried (leverage : Nat) (position : Position) : Prop where
  costBasis : position.costBasis = position.avgEntryPrice * position.qty
  margin : position.marginRequired =
    if 1 < leverage then some (position.avgEntryPrice * position.qty / leverage) else none

structure Position.Is (position : Position) (lot : Lot) : Prop where
  side : position.side = lot.side
  price : position.avgEntryPrice = lot.price
  qty : position.qty = lot.qty

variable {leverage : Nat} {position : Position}

theorem Position.Carried.marginHeld (h : position.Carried leverage) :
    position.marginHeld = marginCost leverage (position.avgEntryPrice * position.qty) := by
  unfold Position.marginHeld marginCost
  rw [h.margin, h.costBasis]
  split <;> rfl

theorem carried_openedPosition (order : Order) (price : ℚ) :
    (openedPosition leverage order price).Carried leverage := ⟨rfl, rfl⟩

theorem carried_reducedPosition (result : ClosePositionResult) :
    (reducedPosition leverage position result).Carried leverage := ⟨rfl, rfl⟩

theorem Position.Carried.mark (h : position.Carried leverage) (bar : Bar) :
    (position.mark bar).Carried leverage := ⟨h.costBasis, h.margin⟩

theorem marginCost_sub (leverage : Nat) (x y : ℚ) :
    marginCost leverage (x - y) = marginCost leverage x - marginCost leverage y := by
  unfold marginCost
  split
  · exact sub_div x y _
  · rfl

theorem requestedQty_pos (h : 0 < position.qty) (qty : ℚ) : 0 < requestedQty position qty := by
  unfold requestedQty
  split
  · exact h
  · next hqty => exact lt_min (not_le.1 hqty) h

theorem requestedQty_le (position : Position) (qty : ℚ) :
    requestedQty position qty ≤ position.qty := by
  unfold requestedQty
  split
  · exact le_rfl
  · exact min_le_right _ _

theorem requestedQty_self (h : 0 < position.qty) :
    requestedQty position position.qty = position.qty := by
  rw [requestedQty, if_neg (not_le.2 h), min_self]

end

structure Known (b : PaperBroker) (id : String) (n : Nat) (order : Order) : Prop where
  found : b.orders.lookup id = some order
  id : order.orderId = id
  submission : order.submission = n

def NoPosition (b : PaperBroker) (id : String) : Prop :=
  ∀ symbol, b.positions.lookup (symbol, id) = none

/-- A filled order and its position are one lot. -/
structure Opened (b : PaperBroker) (id : String) (n : Nat) (lot : Lot) (order : Order)
    (position : Position) : Prop where
  known : Known b id n order
  status : order.status = .filled
  quantity : order.qty = lot.qty
  held : b.positions.lookup (order.asset.symbol, id) = some position
  only : ∀ symbol, symbol ≠ order.asset.symbol → b.positions.lookup (symbol, id) = none
  is : position.Is lot
  carried : position.Carried b.leverage

/-- How the broker holds what stands under an id. `queue` and `active` are the
orders that wait to be filled and those whose legs are watched. -/
inductive Shows (queue active : List String) (b : PaperBroker) (id : String) : Slot → Prop
  | vacant (order : b.orders.lookup id = none) (position : NoPosition b id) (queued : id ∉ queue)
      (watched : id ∉ active) (kept : id ∉ b.terminalOrdersPendingRelease) :
      Shows queue active b id .vacant
  | pending {n : Nat} {qty : Quantity} {order : Order} (known : Known b id n order)
      (status : order.status = .pending) (quantity : order.qty = qty) (position : NoPosition b id)
      (watched : id ∉ active) (kept : id ∉ b.terminalOrdersPendingRelease) :
      Shows queue active b id (.pending n qty)
  | opened {n : Nat} {lot : Lot} {order : Order} {position : Position}
      (is : Opened b id n lot order position) (queued : id ∉ queue)
      (kept : id ∉ b.terminalOrdersPendingRelease) : Shows queue active b id (.opened n lot)
  | ended {n : Nat} {order : Order} (known : Known b id n order) (position : NoPosition b id)
      (watched : id ∉ active)
      (status : order.status = .cancelled ∨
        ((order.status = .rejected ∨ order.status = .closed) ∧ id ∉ queue)) :
      Shows queue active b id (.ended n)

/-- The money and the records of the broker are those of the book. -/
structure Tallies (b : PaperBroker) (k : Book) : Prop where
  startingCash : b.startingCash = k.startingCash
  cash : b.account.cash = k.cash
  margin : totalMarginHeld b.positions = k.margin
  accrued : b.account.accruedCommission = k.accrued
  log : b.tradeLog = k.log
  emitted : b.emitted.map (fun e => (e.order.submission, e.event)) = k.emitted
  submissions : b.submissions = k.submissions
  updates : b.updateOrdersQueue = []

structure Represents (queue active : List String) (b : PaperBroker) (k : Book) : Prop where
  tallies : Tallies b k
  nodup : queue.Nodup
  slot : ∀ id, Shows queue active b id (k.slots id)

/-- Nothing but what concerns `id` is changed. -/
structure Elsewhere (id : String) (queue active : List String) (b : PaperBroker)
    (queue' active' : List String) (b' : PaperBroker) : Prop where
  leverage : b'.leverage = b.leverage
  order : ∀ i, i ≠ id → b'.orders.lookup i = b.orders.lookup i
  position : ∀ i, i ≠ id → ∀ symbol,
    b'.positions.lookup (symbol, i) = b.positions.lookup (symbol, i)
  queued : ∀ i, i ≠ id → i ∈ queue' → i ∈ queue
  watched : ∀ i, i ≠ id → i ∈ active' → i ∈ active
  kept : ∀ i, i ≠ id → i ∈ b'.terminalOrdersPendingRelease → i ∈ b.terminalOrdersPendingRelease

section

variable {queue queue' active active' : List String} {b b' : PaperBroker} {k k' : Book}
  {id : String} {slot : Slot} {order : Order} {n : Nat}

theorem Elsewhere.refl (id : String) : Elsewhere id queue active b queue active b :=
  ⟨rfl, fun _ _ => rfl, fun _ _ _ => rfl, fun _ _ h => h, fun _ _ h => h, fun _ _ h => h⟩

theorem Shows.frame (h : Shows queue active b id slot) (hl : b'.leverage = b.leverage)
    (ho : b'.orders.lookup id = b.orders.lookup id)
    (hpos : ∀ symbol, b'.positions.lookup (symbol, id) = b.positions.lookup (symbol, id))
    (hq : id ∈ queue' → id ∈ queue) (ha : id ∈ active' → id ∈ active)
    (hk : id ∈ b'.terminalOrdersPendingRelease → id ∈ b.terminalOrdersPendingRelease) :
    Shows queue' active' b' id slot := by
  cases h with
  | vacant order position queued watched kept =>
    exact .vacant (ho.trans order) (fun symbol => (hpos symbol).trans (position symbol))
      (queued ∘ hq) (watched ∘ ha) (kept ∘ hk)
  | pending known status quantity position watched kept =>
    exact .pending ⟨ho.trans known.found, known.id, known.submission⟩ status quantity
      (fun symbol => (hpos symbol).trans (position symbol)) (watched ∘ ha) (kept ∘ hk)
  | opened h queued kept =>
    exact .opened ⟨⟨ho.trans h.known.found, h.known.id, h.known.submission⟩, h.status,
      h.quantity, (hpos _).trans h.held,
      fun symbol hne => (hpos symbol).trans (h.only symbol hne), h.is,
      hl ▸ h.carried⟩ (queued ∘ hq) (kept ∘ hk)
  | ended known position watched status =>
    exact .ended ⟨ho.trans known.found, known.id, known.submission⟩
      (fun symbol => (hpos symbol).trans (position symbol)) (watched ∘ ha)
      (status.imp_right fun h => ⟨h.1, h.2 ∘ hq⟩)

theorem Represents.change (h : Represents queue active b k)
    (he : Elsewhere id queue active b queue' active' b') (ht : Tallies b' k')
    (hn : queue'.Nodup) (hsl : k'.slots = Function.update k.slots id slot)
    (hs : Shows queue' active' b' id slot) : Represents queue' active' b' k' := by
  refine ⟨ht, hn, ?_⟩
  intro i
  rw [hsl]
  by_cases hi : i = id
  · subst hi
    rw [Function.update_self]
    exact hs
  rw [Function.update_of_ne hi]
  exact (h.slot i).frame he.leverage (he.order i hi) (he.position i hi)
    (he.queued i hi) (he.watched i hi) (he.kept i hi)

theorem Represents.of_eq (h : Represents queue active b k)
    (heq : b' = { b with
      account := { b.account with
        equity := b'.account.equity, buyingPower := b'.account.buyingPower }
      assetMetadata := b'.assetMetadata
      pendingOrders := b'.pendingOrders
      activeOrders := b'.activeOrders
      closeOrdersQueue := b'.closeOrdersQueue
      tradeEvents := b'.tradeEvents
      currentTime := b'.currentTime }) : Represents queue active b' k := by
  rw [heq]
  refine ⟨⟨h.tallies.1, h.tallies.2, h.tallies.3, h.tallies.4, h.tallies.5, h.tallies.6,
    h.tallies.7, h.tallies.8⟩, h.nodup, fun i => ?_⟩
  exact (h.slot i).frame rfl rfl (fun _ => rfl) (fun h => h) (fun h => h) (fun h => h)

theorem markOrderTerminalForRelease_eq (b : PaperBroker) (id : String) :
    ∃ released, b.markOrderTerminalForRelease id =
      { b with terminalOrdersPendingRelease := released } ∧
      ∀ i, i ≠ id → i ∈ released → i ∈ b.terminalOrdersPendingRelease := by
  unfold markOrderTerminalForRelease
  split
  · exact ⟨b.terminalOrdersPendingRelease, rfl, fun _ _ h => h⟩
  refine ⟨_, rfl, fun i hi h => ?_⟩
  obtain h | h := mem_append.1 h
  · exact h
  · exact absurd (mem_singleton.1 h) hi

theorem activate_eq (b : PaperBroker) (order : Order) :
    ∃ active, b.activate order = { b with activeOrders := active } ∧
      ∀ i, i ≠ order.orderId → i ∈ active → i ∈ b.activeOrders := by
  unfold activate
  split
  · refine ⟨_, rfl, fun i hi h => ?_⟩
    obtain h | h := mem_append.1 h
    · exact h
    · exact absurd (mem_singleton.1 h) hi
  · exact ⟨b.activeOrders, rfl, fun _ _ h => h⟩

theorem Elsewhere.setOrder (h : Elsewhere id queue active b queue' active' b')
    (hid : order.orderId = id) :
    Elsewhere id queue active b queue' active' (b'.setOrder order) where
  leverage := h.leverage
  order i hi := by
    rw [← h.order i hi]
    exact lookup_insert_ne (hid ▸ hi)
  position := h.position
  queued := h.queued
  watched := h.watched
  kept := h.kept

theorem Tallies.note (h : Tallies b k) (order : Order) (event : TradeUpdateEvent) :
    Tallies (b.emitTradeEvent order event) (k.note order.submission event) where
  startingCash := h.startingCash
  cash := h.cash
  margin := h.margin
  accrued := h.accrued
  log := h.log
  emitted := by
    simp only [emitTradeEvent, Book.note, map_append, map_cons, map_nil, h.emitted]
  submissions := h.submissions
  updates := h.updates

theorem Tallies.setOrder (h : Tallies b k) (order : Order) : Tallies (b.setOrder order) k :=
  { h with }

theorem Tallies.put (h : Tallies b k) (id : String) (slot : Slot) : Tallies b (k.put id slot) :=
  { h with }

theorem Known.setOrder (hid : order.orderId = id) (hn : order.submission = n) :
    Known (b.setOrder order) id n order where
  found := by
    subst hid
    exact lookup_insert _
  id := hid
  submission := hn

end

section

variable {queue queue' active active' : List String} {b b₀ : PaperBroker} {k k₀ : Book}
  {id : String} {order order' : Order} {n : Nat} {slot : Slot} {event : TradeUpdateEvent}

/-- Two states of an order between which no book tells a difference. -/
structure Order.Alike (order order' : Order) : Prop where
  id : order'.orderId = order.orderId
  submission : order'.submission = order.submission
  symbol : order'.asset.symbol = order.asset.symbol
  qty : order'.qty = order.qty
  status : order'.status = order.status

theorem Known.alike (h : Known b id n order) (ha : order.Alike order') :
    Known (b.setOrder order') id n order' :=
  .setOrder (ha.id.trans h.id) (ha.submission.trans h.submission)

theorem Represents.known (h : Represents queue active b k) (hf : b.orders.lookup id = some order) :
    Known b id order.submission order := by
  have hs := h.slot id
  have hof : ∀ {m o}, Known b id m o → Known b id order.submission order := by
    intro m o hk
    obtain rfl : o = order := Option.some.inj (hk.found.symm.trans hf)
    exact ⟨hk.found, hk.id, rfl⟩
  generalize k.slots id = slot at hs
  cases hs with
  | vacant hn => exact absurd (hn.symm.trans hf) nofun
  | pending known | ended known => exact hof known
  | opened h => exact hof h.known

theorem Shows.touch (h : Shows queue active b id slot) (hf : b.orders.lookup id = some order)
    (ha : order.Alike order') : Shows queue active (b.setOrder order') id slot := by
  cases h with
  | vacant hn => exact absurd (hn.symm.trans hf) nofun
  | pending known status quantity position watched kept =>
    obtain rfl := Option.some.inj (known.found.symm.trans hf)
    exact .pending (known.alike ha) (ha.status.trans status)
      (ha.qty.trans quantity) position watched kept
  | opened h queued kept =>
    obtain rfl := Option.some.inj (h.known.found.symm.trans hf)
    exact .opened ⟨h.known.alike ha, ha.status.trans h.status,
      ha.qty.trans h.quantity, ha.symbol ▸ h.held, ha.symbol ▸ h.only, h.is,
      h.carried⟩ queued kept
  | ended known position watched status =>
    obtain rfl := Option.some.inj (known.found.symm.trans hf)
    exact .ended (known.alike ha) position watched (ha.status ▸ status)

theorem Represents.touch (h : Represents queue active b k)
    (hf : b.orders.lookup id = some order) (ha : order.Alike order') :
    Represents queue active (b.setOrder order') k :=
  h.change ((Elsewhere.refl id).setOrder (ha.id.trans (h.known hf).id))
    (h.tallies.setOrder order') h.nodup (Function.update_eq_self id k.slots).symm
    ((h.slot id).touch hf ha)

theorem Represents.dequeue (h : Represents queue active b k) (hs : queue' ⊆ queue)
    (hn : queue'.Nodup) : Represents queue' active b k :=
  ⟨h.tallies, hn, fun i => (h.slot i).frame rfl rfl (fun _ => rfl) (fun hi => hs hi)
    (fun hi => hi) (fun hi => hi)⟩

theorem Represents.conclude (h : Represents queue active b₀ k₀)
    (he : Elsewhere id queue active b₀ queue' active' b) (ht : Tallies b k)
    (hsl : k.slots = k₀.slots) (hn : queue'.Nodup) (hid : order.orderId = id)
    (hpos : NoPosition b id) (ha : id ∉ active')
    (hst : order.status = .cancelled ∨
      ((order.status = .rejected ∨ order.status = .closed) ∧ id ∉ queue')) :
    Represents queue' active'
      (((b.setOrder order).emitTradeEvent order event).markOrderTerminalForRelease order.orderId)
      ((k.note order.submission event).put id (.ended order.submission)) := by
  obtain ⟨released, heq, hr⟩ :=
    markOrderTerminalForRelease_eq ((b.setOrder order).emitTradeEvent order event) order.orderId
  rw [heq]
  have hs := he.setOrder hid
  have ht' := (ht.setOrder order).note order event
  refine h.change ⟨hs.leverage, hs.order, hs.position, hs.queued, hs.watched, ?_⟩
    ⟨ht'.1, ht'.2, ht'.3, ht'.4, ht'.5, ht'.6, ht'.7, ht'.8⟩
    hn ?_ (.ended ⟨(Known.setOrder hid rfl).found, hid, rfl⟩ hpos ha hst)
  · intro i hi hm
    exact hs.kept i hi (hr i (hid ▸ hi) hm)
  · rw [← hsl]
    rfl

end

section

variable {strays : Nat → Prop} {queue active : List String} {b : PaperBroker} {k : Book}
  {id : String}
  {order : Order} {n : Nat} {qty : Quantity}

theorem Represents.reject (h : Represents queue active b k) (hsl : k.slots id = .pending n qty)
    (hid : order.orderId = id) (hn : order.submission = n) (hst : order.status = .rejected) :
    Represents (queue.erase id) active (b.reject order)
      ((k.note n .rejected).put id (.ended n)) := by
  have hs := h.slot id
  rw [hsl] at hs
  cases hs with
  | pending _ _ _ position watched =>
    subst hn
    refine h.conclude ⟨rfl, fun _ _ => rfl, fun _ _ _ => rfl, fun _ _ => mem_of_mem_erase,
      fun _ _ h => h, fun _ _ h => h⟩ h.tallies rfl (h.nodup.erase id) hid position watched ?_
    exact .inr ⟨.inl hst, h.nodup.not_mem_erase⟩

theorem Represents.cancel (h : Represents queue active b k) (hsl : k.slots id = .pending n qty)
    (hid : order.orderId = id) (hn : order.submission = n) (hst : order.status = .cancelled) :
    Represents queue active (b.cancelEntry order) ((k.note n .cancelled).put id (.ended n)) := by
  have hs := h.slot id
  rw [hsl] at hs
  cases hs with
  | pending _ _ _ position watched =>
    subst hn
    exact h.conclude (.refl id) h.tallies rfl h.nodup hid position watched (.inl hst)

/-- What a fill leaves of an order, and what it makes of it. -/
structure Fills (order filled : Order) : Prop where
  id : filled.orderId = order.orderId
  submission : filled.submission = order.submission
  asset : filled.asset = order.asset
  qty : filled.qty = order.qty
  filledQty : filled.filledQty = order.qty
  status : filled.status = .filled

theorem fills_fillOrder (order : Order) (price : ℚ) (now : Nat) :
    Fills order (fillOrder order price now) := by
  unfold fillOrder
  split
  · exact ⟨rfl, rfl, rfl, rfl, rfl, rfl⟩
  · exact ⟨rfl, rfl, rfl, rfl, rfl, rfl⟩

def entryRecord (order : Order) (price : ℚ) (time : Time) : TradeRecord where
  date := time
  symbol := order.asset.symbol
  side := order.side
  qty := order.filledQty
  price := price
  orderId := order.orderId
  insightId := order.insightId
  strategyType := order.strategyType
  commission := order.commission.getD 0
  swap := 0
  grossPnl := 0
  tradeType := .entry

theorem Represents.enter (h : Represents queue b.activeOrders b k)
    (hs : k.slots id = .pending n qty) (hfo : b.orders.lookup id = some order)
    {filled : Order} (hf : Fills order filled) (price : ℚ) (time : Time) :
    ∃ k', Move strays k k' ∧ Represents (queue.erase id) (b.enter filled price time).activeOrders
      (b.enter filled price time) k' := by
  have hsh := h.slot id
  rw [hs] at hsh
  cases hsh with
  | pending known _ quantity position _ kept =>
    obtain rfl := Option.some.inj (known.found.symm.trans hfo)
    have hid : filled.orderId = id := hf.id.trans known.id
    have hn : filled.submission = n := hf.submission.trans known.submission
    have hqty : filled.filledQty = qty := hf.filledQty.trans quantity
    have hrecord : Enters id qty (entryRecord filled price time) := ⟨rfl, hid, hqty⟩
    refine ⟨_, .fill hs hrecord (marginCost b.leverage (price * filled.filledQty)), ?_⟩
    obtain ⟨active', heq, ha⟩ := activate_eq ((((b.setOrder filled).openPosition filled
      price).recordEntryTrade filled price time).emitTradeEvent filled .filled) filled
    rw [enter, heq]
    have hse : Elsewhere id queue b.activeOrders b queue b.activeOrders (b.setOrder filled) :=
      (Elsewhere.refl id).setOrder hid
    have ht := h.tallies
    have hm : totalMarginHeld (b.positions.insert (filled.asset.symbol,
        filled.orderId) (openedPosition b.leverage filled price)) =
        k.margin + marginCost b.leverage (price * filled.filledQty) := by
      have hh : (openedPosition b.leverage filled price).marginHeld =
          marginCost b.leverage (price * filled.filledQty) :=
        (carried_openedPosition filled price).marginHeld
      refine (Table.sum_insert (hid ▸ position _)).trans ?_
      exact congrArg₂ (· + ·) ht.margin hh
    refine h.change ⟨rfl, hse.order, ?_, fun _ _ => mem_of_mem_erase, fun i hi => ?_,
      fun _ _ h => h⟩ ⟨ht.startingCash, ?_, hm, ?_, ?_, ?_, ht.submissions,
      ht.updates⟩ (h.nodup.erase id) rfl ?_
    · intro i hi symbol
      exact lookup_insert_ne fun heq => hi ((Prod.ext_iff.1 heq).2.trans hid)
    · exact fun hme => ha i (hid ▸ hi) hme
    · exact congrArg (· - _) ht.cash
    · exact congrArg (· + _) ht.accrued
    · exact congrArg (· ++ _) ht.log
    · subst hn
      exact (ht.note filled .filled).emitted
    · have hh : (b.positions.insert (filled.asset.symbol, filled.orderId)
          (openedPosition b.leverage filled price)).lookup (filled.asset.symbol, id) =
          some (openedPosition b.leverage filled price) := by
        rw [← hid]
        exact lookup_insert _
      refine .opened ⟨⟨(Known.setOrder hid hn).found, hid, hn⟩, hf.status, ?_, hh, ?_,
        ⟨rfl, rfl, hqty⟩, carried_openedPosition filled price⟩ h.nodup.not_mem_erase kept
      · exact hf.qty.trans quantity
      · intro symbol hne
        exact (lookup_insert_ne fun heq => hne (Prod.ext_iff.1 heq).1).trans (position symbol)

end

variable {strays : Nat → Prop} {queue active active' : List String} {b : PaperBroker} {k : Book}
  {id : String} {order order' : Order} {n : Nat} {lot : Lot} {position : Position} {price qty : ℚ}
  {time : Time}

theorem Represents.opened (h : Represents queue active b k) (hsl : k.slots id = .opened n lot) :
    ∃ order position, Opened b id n lot order position ∧ id ∉ queue ∧
      id ∉ b.terminalOrdersPendingRelease := by
  have hs := h.slot id
  rw [hsl] at hs
  cases hs with
  | opened h queued kept => exact ⟨_, _, h, queued, kept⟩

def exited (b : PaperBroker) (order : Order) (position : Position) (price qty : ℚ) (time : Time) :
    PaperBroker :=
  b.bookExit order position price time (settleQty order position price qty time)

def exitOf (order : Order) (position : Position) (price qty : ℚ) (time : Time) : TradeRecord :=
  exitRecord order price time (settleQty order position price qty time)

theorem exits_exitOf (h : Opened b id n lot order position) (ha : order.Alike order')
    (hqty : 0 < qty) (price : ℚ) (time : Time) :
    Exits id lot (exitOf order' position price qty time) where
  type := rfl
  order := ha.id.trans h.known.id
  positive := hqty
  gross := by
    rw [← h.is.side, ← h.is.price]
    rfl

theorem Tallies.exited (ht : Tallies b k) (h : Opened b id n lot order position)
    (ha : order.Alike order') (hqty : qty ≤ position.qty) (price : ℚ) (time : Time) :
    Tallies (exited b order' position price qty time)
      (k.exit (exitOf order' position price qty time)
        (marginCost b.leverage (position.avgEntryPrice * qty))) where
  startingCash := ht.startingCash
  cash := congrArg (· + _) ht.cash
  margin := by
    have hh : b.positions.lookup (order'.asset.symbol, order'.orderId) = some position := by
      rw [ha.symbol, ha.id, h.known.id]
      exact h.held
    have hm := h.carried.marginHeld
    change totalMarginHeld (if _ then _ else _) = _
    by_cases hf : position.qty ≤ qty
    · rw [if_pos (by exact decide_eq_true hf), le_antisymm hqty hf]
      refine (Table.sum_erase hh).trans ?_
      rw [hm]
      exact congrArg (· - _) ht.margin
    · rw [if_neg (by simpa [settleQty] using hf)]
      refine (Table.sum_replace hh).trans ?_
      rw [hm, (carried_reducedPosition _).marginHeld, sub_add, ← marginCost_sub]
      refine congrArg₂ (· - ·) ht.margin (congrArg _ ?_)
      simp only [reducedPosition, settleQty]
      ring
  accrued := congrArg (· + _) ht.accrued
  log := congrArg (· ++ _) ht.log
  emitted := ht.emitted
  submissions := ht.submissions
  updates := ht.updates

theorem lookup_exited {key : String × String} (hk : key ≠ (order.asset.symbol, order.orderId)) :
    (exited b order position price qty time).positions.lookup key = b.positions.lookup key := by
  change AList.lookup key (if _ then _ else _) = _
  split
  · exact lookup_erase_ne hk
  · exact lookup_insert_ne hk

theorem Elsewhere.exited (hid : order.orderId = id)
    (ha : ∀ i, i ≠ id → i ∈ active' → i ∈ active) (position : Position) (price qty : ℚ)
    (time : Time) :
    Elsewhere id queue active b queue active' (exited b order position price qty time) where
  leverage := rfl
  order _ _ := rfl
  position _ hi _ := lookup_exited fun heq => hi ((Prod.ext_iff.1 heq).2.trans hid)
  queued _ _ h := h
  watched := ha
  kept _ _ h := h

theorem Represents.closeOut (h : Represents queue active b k) (hsl : k.slots id = .opened n lot)
    (ho : Opened b id n lot order position) (ha : order.Alike order')
    (hac : ∀ i, i ≠ id → i ∈ active' → i ∈ active) (hleft : id ∉ active') (closed : Order)
    (hid : closed.orderId = id) (hn : closed.submission = n) (hst : closed.status = .closed)
    (price : ℚ) (time : Time) : ∃ k', Move strays k k' ∧ Represents queue active'
      ((((exited b order' position price position.qty time).setOrder closed).emitTradeEvent closed
        .closed).markOrderTerminalForRelease closed.orderId) k' := by
  have hpos : 0 < position.qty := ho.is.qty ▸ lot.qty.2
  have hid' : order'.orderId = id := ha.id.trans ho.known.id
  subst hn
  refine ⟨_, .close hsl (exits_exitOf ho ha hpos price time) ho.is.qty
    (marginCost b.leverage (position.avgEntryPrice * position.qty)), ?_⟩
  obtain ⟨-, -, -, hq, -⟩ := h.opened hsl
  refine h.conclude (.exited hid' hac position price position.qty time)
    (h.tallies.exited ho ha le_rfl price time) rfl h.nodup hid ?_ hleft
    (.inr ⟨.inr hst, hq⟩)
  intro symbol
  by_cases hs : symbol = order'.asset.symbol
  · change AList.lookup _ (if _ then _ else _) = none
    rw [if_pos (by exact decide_eq_true (le_refl position.qty)), hs, ← hid']
    exact lookup_erase _ _
  rw [lookup_exited fun heq => hs (Prod.ext_iff.1 heq).1]
  exact ho.only symbol fun heq => hs (heq.trans ha.symbol.symm)

theorem Represents.reduceTo (h : Represents queue active b k)
    (hsl : k.slots id = .opened n lot) (ho : Opened b id n lot order position)
    (hqty : 0 < qty) (hl : qty < position.qty) (rest exit : Order)
    (ha : order.Alike { rest with qty := order.qty }) (hrest : rest.qty = position.qty - qty)
    (he : exit.submission = n) :
    ∃ k', Move strays k k' ∧ Represents queue active
      (((exited b order position price qty time).setOrder rest).emitTradeEvent exit
        .partialFilled) k' := by
  have hse : order.Alike order := ⟨rfl, rfl, rfl, rfl, rfl⟩
  have hid : rest.orderId = id := ha.id.trans ho.known.id
  subst he
  refine ⟨_, .reduce hsl (exits_exitOf ho hse hqty price time) (ho.is.qty ▸ hl)
    (marginCost b.leverage (position.avgEntryPrice * qty)), ?_⟩
  obtain ⟨-, -, -, hq, hk⟩ := h.opened hsl
  have ht := ((h.tallies.exited ho hse hl.le price time).setOrder rest).note exit .partialFilled
  have hs : Elsewhere id queue active b queue active
      ((exited b order position price qty time).setOrder rest) :=
    (Elsewhere.exited ho.known.id (fun _ _ h => h) position price qty time).setOrder hid
  have hh : (exited b order position price qty time).positions.lookup
      (rest.asset.symbol, id) = some (reducedPosition b.leverage position
        (settleQty order position price qty time)) := by
    change AList.lookup _ (if _ then _ else _) = _
    rw [if_neg (by simpa [settleQty] using hl), show rest.asset.symbol = _ from
      ha.symbol, ← ho.known.id]
    exact lookup_insert _
  have hq' : rest.qty = lot.qty - qty := by rw [hrest, ho.is.qty]
  refine h.change { hs with } (ht.put _ _) h.nodup rfl
    (.opened ⟨⟨(Known.setOrder hid ha.submission).found, hid,
      ha.submission.trans ho.known.submission⟩, ha.status.trans ho.status,
      hq', hh, ?_, ⟨ho.is.side, ho.is.price, ?_⟩, carried_reducedPosition _⟩
      hq hk)
  · intro symbol hne
    have hne' : symbol ≠ order.asset.symbol := fun heq => hne (heq.trans ha.symbol.symm)
    exact (lookup_exited fun heq => hne' (Prod.ext_iff.1 heq).1).trans (ho.only symbol hne')
  · exact hrest.symm.trans hq'

end AqEngine.Paper
