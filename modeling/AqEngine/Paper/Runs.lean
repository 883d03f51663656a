import AqEngine.Paper.Steps

namespace AqEngine.Paper

open Lib List Option
open Broker (OrderSide TradeUpdateEvent Time)

variable {strays : Nat → Prop} {calm : Prop} {queue active : List String} {b b' : PaperBroker}
  {k : Book} {id : String} {n : Nat} {order order' : Order}

namespace PaperBroker

/-- What a request does. The close requests that wait go on waiting, those
of terminal orders excepted. -/
structure Asked (calm : Prop) (b b' : PaperBroker) : Prop where
  mild : Mild calm b b'
  queue : ∀ request ∈ b.closeOrdersQueue, request.orderId ∉ b.terminalOrdersPendingRelease →
    request ∈ b'.closeOrdersQueue

structure Turns (strays : Nat → Prop) (calm : Prop) (k : Book) (b b' : PaperBroker) : Prop where
  reaches : Leads strays k b'
  asked : Asked calm b b'

theorem Asked.same (ho : b'.orders = b.orders) (hqu : Quiet b b')
    (hl : b'.tradeLog = b.tradeLog) (he : b'.emitted = b.emitted)
    (hq : ∀ request ∈ b.closeOrdersQueue, request ∈ b'.closeOrdersQueue) : Asked calm b b' :=
  ⟨.same ho hqu hl he, fun request h _ => hq request h⟩

theorem turns_answered (h : Stands b k) {answer : Except BrokerError PaperBroker}
    (hok : ∀ b', answer = .ok b' → Turns strays calm k b b') :
    Turns strays calm k b (b.answered answer) := by
  cases answer with
  | error e => exact ⟨h.reaches, .same rfl ⟨rfl, rfl⟩ rfl rfl fun _ h => h⟩
  | ok b' => exact hok b' rfl

theorem turns_touch (h : Stands b k) (hf : b.orders.lookup id = some order)
    (ha : order.Alike order') (hg : order.Goes calm order') :
    Turns strays calm k b (b.setOrder order') :=
  ⟨(h.touch hf ha).reaches, .setOrder hf (ha.id.trans (h.known hf).id) hg, fun _ h _ => h⟩

/-- The submission that a request reports as cancelled although it ends
nothing: it cancels a bracket leg, or an order that came to its end without a
fill. -/
def strayCancel (b : PaperBroker) : Action → Option Nat
  | .cancel orderId => match b.orders.lookup orderId with
    | some order =>
      if order.status = .cancelled ∨ order.status = .rejected then some order.submission else none
    | none => (b.orders.entries.find? fun row => row.2.hasLeg orderId).map fun row =>
        row.2.submission
  | _ => none

def strayCancels (b : PaperBroker) : List Action → List Nat
  | [] => []
  | action :: rest => (b.strayCancel action).toList ++ (b.act action).strayCancels rest

variable {now : Nat} {kind : ProtectiveLeg}

theorem vacant_of_none (h : Represents queue active b k) (hn : b.orders.lookup id = none) :
    k.slots id = .vacant ∧ Shows queue active b id .vacant := by
  have hs := h.slot id
  generalize k.slots id = slot at hs ⊢
  cases hs with
  | vacant order position queued watched kept =>
    exact ⟨rfl, .vacant order position queued watched kept⟩
  | pending known | ended known => exact absurd (hn.symm.trans known.found) nofun
  | opened h => exact absurd (hn.symm.trans h.known.found) nofun

theorem slot_of_status (h : Represents queue active b k)
    (hf : b.orders.lookup id = some order) (hfilled : order.status ≠ .filled)
    (hc : order.status ≠ .closed) :
    (∃ qty, k.slots id = .pending order.submission qty ∧ order.status = .pending ∧
      order.qty = qty) ∨
      (k.slots id = .ended order.submission ∧ NoPosition b id ∧ id ∉ active ∧
        (order.status = .cancelled ∨ order.status = .rejected)) := by
  have hsh := h.slot id
  have hs : ∀ {m o}, Known b id m o → o = order ∧ m = order.submission := by
    intro m o hk
    obtain rfl : o = order := Option.some.inj (hk.found.symm.trans hf)
    exact ⟨rfl, hk.submission.symm⟩
  generalize k.slots id = slot at hsh ⊢
  cases hsh with
  | vacant hn => exact absurd (hn.symm.trans hf) nofun
  | pending known status quantity =>
    obtain ⟨rfl, rfl⟩ := hs known
    exact .inl ⟨_, rfl, status, quantity⟩
  | opened h =>
    obtain ⟨rfl, rfl⟩ := hs h.known
    exact absurd h.status hfilled
  | ended known position watched status =>
    obtain ⟨rfl, rfl⟩ := hs known
    refine .inr ⟨rfl, position, watched, status.imp_right fun ho => ?_⟩
    exact ho.1.resolve_right hc

def cancelsLeg (b : PaperBroker) : Action → Bool
  | .cancel id => (b.orders.lookup id).isNone && b.orders.entries.any fun row => row.2.hasLeg id
  | _ => false

theorem settled_bracketLegs {request : BrokerOrderRequest} {ids : LegIds}
    (hlegs : order.legs = request.bracketLegs ids now) : order.Settled := by
  intro kind leg hl hc
  exfalso
  cases kind <;>
  · simp only [Order.leg, hlegs, BrokerOrderRequest.bracketLegs] at hl
    split at hl
    · obtain ⟨_, -, rfl⟩ := map_eq_some_iff.1 hl
      cases hc
    · cases hl

theorem mild_enroll (hn : b.orders.lookup order.orderId = none)
    (hpos : NoPosition b order.orderId) (hs : order.Fresh) :
    Mild calm b (b.counted.setOrder order) := by
  refine ⟨⟨rfl, rfl⟩, rfl, ⟨[], by simp [setOrder, counted], by simp⟩, fun _ o ho => ?_⟩
  obtain ⟨rfl, rfl⟩ | ⟨-, ho⟩ := Table.lookup_insert_cases ho
  · exact .inr ⟨hn, hpos, hs⟩
  · exact .inl ⟨o, ho, goes_refl o⟩

theorem turns_acceptOrder (h : Stands b k) (hst : order.status = .pending) (hqty : 0 < order.qty)
    (hn : order.submission = b.submissions)
    (hs : order.realizedPnl = none ∧ order.swap = none ∧
      ∀ order' : Order, order'.legs = order.legs → order'.Settled)
    (hok : (b.acceptOrder order).map Prod.fst = .ok b') : Turns strays calm k b b' := by
  unfold acceptOrder at hok
  split at hok
  · cases hok
  next hfree =>
  have hnon : b.orders.lookup order.orderId = none := not_isSome_iff_eq_none.1 hfree
  obtain ⟨hsl, hsh⟩ := vacant_of_none h hnon
  have ht : Tallies b.counted { k with submissions := k.submissions + 1 } :=
    ⟨h.tallies.1, h.tallies.2, h.tallies.3, h.tallies.4, h.tallies.5, h.tallies.6,
      congrArg (· + 1) h.tallies.7, h.tallies.8⟩
  have hc : order.submission = k.submissions := hn.trans h.tallies.submissions
  have he : Elsewhere order.orderId b.pendingOrders b.activeOrders b b.pendingOrders
      b.activeOrders b.counted :=
    ⟨rfl, fun _ _ => rfl, fun _ _ _ => rfl, fun _ _ h => h, fun _ _ h => h, fun _ _ h => h⟩
  cases hsh with
  | vacant _ position queued watched kept =>
  split at hok <;> cases hok
  · next reason _ =>
    obtain ⟨rejected, hre⟩ : ∃ r, r = { order with
      status := .rejected, rejectionReason := some reason } := ⟨_, rfl⟩
    have hid : rejected.orderId = order.orderId := by rw [hre]
    have hsu : rejected.submission = k.submissions := by rw [hre, hc]
    have hs' : rejected.status = .rejected := by rw [hre]
    have hm : Mild calm b (b.counted.setOrder rejected) :=
      mild_enroll (hid ▸ hnon) (hid ▸ position) (by rw [hre]; exact ⟨hs.2.2 _ rfl, hs.1, hs.2.1⟩)
    have href : Represents b.pendingOrders b.activeOrders (b.counted.reject rejected) _ :=
      h.conclude he ht rfl h.nodup hid position watched (.inr ⟨.inl hs', queued⟩)
    have hf := fields_mark ((b.counted.setOrder rejected).emitTradeEvent rejected .rejected)
      rejected.orderId
    rw [← hre]
    refine ⟨.of_move ⟨_, .refuse order.orderId hsl, ?_⟩, (hm.emit rfl).mark _,
      fun _ hr _ => hf.2.2.2 ▸ hr⟩
    change Represents (b.counted.reject rejected).pendingOrders
      (b.counted.reject rejected).activeOrders (b.counted.reject rejected) _
    rw [reject, hf.1, hf.2.1]
    rw [hsu] at href
    exact href
  · have hm : Mild calm b (b.counted.setOrder order) :=
      mild_enroll hnon position ⟨hs.2.2 order rfl, hs.1, hs.2.1⟩
    have hm : Mild calm b (b.counted.enqueue order) := { hm with }
    refine ⟨.of_move ⟨_, .accept order.orderId ⟨order.qty, hqty⟩ hsl, ?_⟩,
      hm.emit rfl, fun _ h _ => h⟩
    have hs : Elsewhere order.orderId b.pendingOrders b.activeOrders b b.pendingOrders
        b.activeOrders (b.counted.setOrder order) := he.setOrder rfl
    have hno := ((ht.setOrder order).note order .pendingNew).put order.orderId
      (.pending order.submission ⟨order.qty, hqty⟩)
    rw [hc] at hno
    refine h.change ⟨hs.1, hs.2, hs.3, fun i hi hme => ?_, hs.5, hs.6⟩
      { hno with } ?_ rfl
      (.pending ⟨AList.lookup_insert _, rfl, hc⟩ hst rfl position watched kept)
    · obtain hme | hme := mem_append.1 hme
      · exact hme
      · exact absurd (mem_singleton.1 hme) hi
    · change (b.pendingOrders ++ [order.orderId]).Nodup
      rw [← concat_eq_append]
      exact h.nodup.concat queued

theorem turns_submitOrder (h : Stands b k) (request : BrokerOrderRequest) (ids : LegIds) :
    Turns strays calm k b (b.answered ((b.submitOrder request ids).map Prod.fst)) := by
  refine turns_answered h fun _ hok => ?_
  unfold submitOrder at hok
  split at hok
  · cases hok
  split at hok
  · cases hok
  next hqty =>
  exact turns_acceptOrder h rfl (not_le.1 hqty) rfl
    ⟨rfl, rfl, fun _ hlegs => settled_bracketLegs hlegs⟩ hok

theorem cancelLegOnParent_eq_some {parent : Order} {leg : String}
    (h : order.cancelLegOnParent leg now = some parent) :
    ∃ legs, parent = { order with legs := some legs } := by
  unfold Order.cancelLegOnParent at h
  obtain ⟨legs, -, h⟩ := bind_eq_some_iff.1 h
  split at h
  · exact ⟨_, (Option.some.inj h).symm⟩
  split at h
  · exact ⟨_, (Option.some.inj h).symm⟩
  split at h
  · exact ⟨_, (Option.some.inj h).symm⟩
  · cases h

theorem lookup_of_mem {row : Sigma fun _ : String => Order} (h : row ∈ b.orders.entries) :
    b.orders.lookup row.1 = some row.2 := AList.mem_lookup_iff.2 h

theorem turns_cancelOrder (h : Stands b k) (id : String)
    (hstra : ∀ m, b.strayCancel (.cancel id) = some m → strays m)
    (hca : calm → b.cancelsLeg (.cancel id) = false) :
    Turns strays calm k b (b.answered (b.cancelOrder id)) := by
  refine turns_answered h fun _ hok => ?_
  unfold cancelOrder at hok
  split at hok
  · next order hf =>
    split at hok
    · cases hok
    next hl =>
    have hid := (h.known hf).id
    cases hok
    have hse : Mild calm b (b.setOrder
        { order with status := .cancelled, updatedAt := seconds b.currentTime }) :=
      .setOrder hf hid ⟨rfl, rfl, rfl, rfl, rfl, rfl, nofun,
        fun _ => .same rfl fun hcl => absurd (.inr hcl) hl⟩
    have hfi := fields_mark ((b.setOrder { order with
      status := .cancelled, updatedAt := seconds b.currentTime }).emitTradeEvent { order with
      status := .cancelled, updatedAt := seconds b.currentTime } .cancelled) order.orderId
    refine ⟨.of_move ?_, (hse.emit rfl).mark _, fun _ hr _ => hfi.2.2.2 ▸ hr⟩
    rw [cancelEntry, hfi.1, hfi.2.1]
    obtain ⟨qty, hs, -, -⟩ | ⟨hs, position, watched, ho⟩ := slot_of_status h hf
      (fun hfilled => hl (.inl hfilled)) (fun hcl => hl (.inr hcl))
    · exact ⟨_, .cancel hs, h.cancel hs hid rfl rfl⟩
    have hst : b.strayCancel (.cancel id) = some order.submission := by
      simp only [strayCancel, hf, if_pos ho]
    refine ⟨_, .stray (hstra _ hst), ?_⟩
    have ha : Represents b.pendingOrders b.activeOrders (b.cancelEntry { order with
        status := .cancelled, updatedAt := seconds b.currentTime })
        ((k.note order.submission .cancelled).put id (.ended order.submission)) :=
      h.conclude (.refl id) h.tallies rfl h.nodup hid position watched (.inl rfl)
    have hsa : (k.note order.submission .cancelled).put id (.ended order.submission) =
        k.note order.submission .cancelled := by
      rw [Book.put, ← hs]
      exact congrArg (fun slots => { k.note order.submission .cancelled with slots := slots })
        (Function.update_eq_self id k.slots)
    rw [hsa] at ha
    exact ha
  · next hn =>
    unfold cancelLeg at hok
    split at hok <;> cases hok
    next _ hp =>
    obtain ⟨row, hrow, hle⟩ := bind_eq_some_iff.1 hp
    have hm := mem_of_find?_eq_some hrow
    obtain ⟨legs, rfl⟩ := cancelLegOnParent_eq_some hle
    have hst : b.strayCancel (.cancel id) = some row.2.submission := by
      simp only [strayCancel, hn, hrow, map_some]
    have han : b.orders.entries.any (fun row => row.2.hasLeg id) = true :=
      List.any_eq_true.2 ⟨row, hm, by simpa using find?_some hrow⟩
    have hal : row.2.Alike { row.2 with legs := legs, updatedAt := seconds b.currentTime } :=
      ⟨rfl, rfl, rfl, rfl, rfl⟩
    have ht : Turns strays calm k b (b.setOrder _) :=
      turns_touch h (lookup_of_mem hm) hal ⟨rfl, rfl, rfl, rfl, rfl, rfl, fun h => h, fun hc => by
        have hno := hca hc
        simp [cancelsLeg, hn, han] at hno⟩
    refine ⟨.of_move ⟨_, .stray (hstra _ hst), ?_⟩, ht.asked.mild.emit rfl, fun _ h _ => h⟩
    have ht := h.touch (lookup_of_mem hm) hal
    have hnot := ht.tallies.note
      { row.2 with legs := legs, updatedAt := seconds b.currentTime } .cancelled
    exact ⟨hnot, ht.nodup, fun i => (ht.slot i).frame rfl rfl (fun _ => rfl)
      (fun h => h) (fun h => h) (fun h => h)⟩

theorem turns_amendEntryPrices (h : Stands b k) (id : String) (limitPrice stopPrice : Option ℚ) :
    Turns strays calm k b (b.answered (b.amendEntryPrices id limitPrice stopPrice)) := by
  refine turns_answered h fun _ hok => ?_
  unfold amendEntryPrices at hok
  split at hok
  · cases hok
  next _ hf =>
  split at hok
  · cases hok
  split at hok <;> cases hok
  exact turns_touch h hf ⟨rfl, rfl, rfl, rfl, rfl⟩
    ⟨rfl, rfl, rfl, rfl, rfl, rfl, fun h => h, fun _ => .same rfl fun h => h⟩

theorem turns_replaceOrder (h : Stands b k) (id : String) (price qty : ℚ) :
    Turns strays calm k b (b.answered (b.replaceOrder id price qty)) := by
  refine turns_answered h fun _ hok => ?_
  unfold replaceOrder at hok
  split at hok
  · cases hok
  next order hf =>
  split at hok
  · cases hok
  next he =>
  split at hok
  · cases hok
  next hvalid =>
  cases hok
  have hpos : 0 < qty := not_le.1 fun hqty => hvalid (.inr hqty)
  have he : order.isPendingEntry = true := by simpa using he
  have hk := h.known hf
  have hn : ∀ {status : TradeUpdateEvent}, order.status = status →
      (status = .new || status = .pendingNew || status = .pending || status = .accepted ||
        status = .replaced) = true := by
    rintro _ rfl
    exact he
  obtain ⟨q, hs, hst, -⟩ | ⟨-, -, -, ho⟩ := slot_of_status h hf
    (fun hfilled => absurd (hn hfilled) (by decide))
    (fun hcl => absurd (hn hcl) (by decide))
  · have hsh := h.slot id
    rw [hs] at hsh
    cases hsh with
    | pending _ status _ position watched kept =>
    have hm : Mild calm b (b.setOrder { order with
        limitPrice := some price, qty := qty, updatedAt := seconds b.currentTime }) :=
      .setOrder hf hk.id ⟨rfl, rfl, rfl, rfl, rfl, rfl, fun h => h, fun _ => .same rfl fun h => h⟩
    refine ⟨.of_move ⟨_, .resize hs ⟨qty, hpos⟩, h.change ((Elsewhere.refl id).setOrder hk.id)
      ((h.tallies.setOrder _).put _ _) h.nodup rfl ?_⟩, hm, fun _ h _ => h⟩
    exact .pending (.setOrder hk.id rfl) hst rfl position watched kept
  · obtain hc | hr := ho
    · exact absurd (hn hc) (by decide)
    · exact absurd (hn hr) (by decide)

theorem updateOrderLeg_eq_some {price : ℚ}
    (h : updateOrderLeg kind id price now order = some order') :
    ∃ legs leg, order.legs = some legs ∧ kind.leg legs = some leg ∧ leg.isTerminal = false ∧
      order' = { order with
        legs := some (kind.setLeg legs (leg.move price now)), updatedAt := now } := by
  unfold updateOrderLeg at h
  obtain ⟨legs, hlegs, h⟩ := bind_eq_some_iff.1 h
  obtain ⟨leg, hle, h⟩ := bind_eq_some_iff.1 h
  split at h
  · cases h
  next hl =>
  cases h
  exact ⟨legs, leg, hlegs, hle, by simpa using (not_or.1 hl).2, rfl⟩

theorem turns_updateProtectiveLeg (h : Stands b k)
    (hkind : kind = takeProfitLeg ∨ kind = stopLossLeg) (id : String) (price : ℚ) :
    Turns strays calm k b (b.answered (updateProtectiveLeg kind b id price)) := by
  refine turns_answered h fun _ hok => ?_
  unfold updateProtectiveLeg at hok
  split at hok
  · cases hok
  split at hok
  · split at hok <;> cases hok
    next hs =>
    obtain ⟨row, hm, hl⟩ := exists_of_findSome?_eq_some hs
    obtain ⟨legs, leg, hlegs, hmo, ht, rfl⟩ := updateOrderLeg_eq_some hl
    exact turns_touch h (lookup_of_mem hm) ⟨rfl, rfl, rfl, rfl, rfl⟩
      ⟨rfl, rfl, rfl, rfl, rfl, rfl, fun h => h, fun _ => legsKept_move hkind hlegs hmo ht price _⟩
  next hf =>
  split at hok
  · cases hok
  split at hok
  · cases hok
  next hlegs =>
  split at hok <;> cases hok
  next ht =>
  obtain ⟨legs, hlegs, hl⟩ := bind_eq_some_iff.1 hlegs
  obtain ⟨leg, hl, heq⟩ := map_eq_some_iff.1 hl
  cases heq
  exact turns_touch h hf ⟨rfl, rfl, rfl, rfl, rfl⟩ ⟨rfl, rfl, rfl, rfl, rfl, rfl, fun h => h,
    fun _ => legsKept_move hkind hlegs hl (by simpa using ht) price _⟩

/-- A close request that is accepted waits in the queue. -/
theorem closePosition_eq_ok {qty : ℚ} {price : Option ℚ}
    (hok : b.closePosition id qty price = .ok b') :
    ∃ order position, b.orders.lookup id = some order ∧
      b.positions.lookup (order.asset.symbol, id) = some position ∧ 0 < requestedQty position qty ∧
      b' = { b with
        closeOrdersQueue := b.closeOrdersQueue ++ [⟨id, requestedQty position qty, price⟩] } := by
  unfold closePosition at hok
  split at hok
  · cases hok
  next order hf =>
  split at hok
  · cases hok
  next position hh =>
  split at hok
  · cases hok
  next hqty =>
  cases hok
  exact ⟨order, position, hf, hh, not_le.1 hqty, rfl⟩

theorem closeEach_eq (b : PaperBroker) (ids : List String) : ∃ requests, (b.closeEach ids).1 =
    { b with closeOrdersQueue := b.closeOrdersQueue ++ requests } := by
  induction ids generalizing b with
  | nil => exact ⟨[], by simp [closeEach]⟩
  | cons _ ids ih =>
    unfold closeEach
    split
    · exact ⟨[], by simp⟩
    next _ hok =>
    obtain ⟨order, position, -, -, -, rfl⟩ := closePosition_eq_ok hok
    obtain ⟨requests, heq⟩ := ih _
    exact ⟨_, heq.trans (by simp [append_assoc]; rfl)⟩

theorem moves_release (ids : List String)
    (h : ∀ i ∈ ids, k.slots i = .vacant ∨ ∃ n, k.slots i = .ended n) :
    Moves strays k { k with slots := fun i => if i ∈ ids then .vacant else k.slots i } := by
  induction ids generalizing k with
  | nil => simpa using Relation.ReflTransGen.refl
  | cons id ids ih =>
    have hp : ∀ k' : Book, k' = k.put id .vacant → Moves strays k' { k with
        slots := fun i => if i ∈ id :: ids then .vacant else k.slots i } := by
      rintro _ rfl
      have hrest := ih (k := k.put id .vacant) (by
        intro i hi
        by_cases hid : i = id
        · exact .inl (by simp [Book.put, hid])
        · simpa [Book.put, hid] using h i (mem_cons_of_mem id hi))
      have hs : (fun i => if i ∈ ids then Slot.vacant else (k.put id .vacant).slots i) =
          fun i => if i ∈ id :: ids then .vacant else k.slots i := by
        funext i
        by_cases hid : i = id <;> simp [Book.put, hid]
      rw [hs] at hrest
      exact hrest
    obtain hv | ⟨n, hended⟩ := h id mem_cons_self
    · refine hp k ?_
      rw [Book.put, ← hv, Function.update_eq_self]
    · exact (Relation.ReflTransGen.single (.release hended)).trans (hp _ rfl)

theorem reaches_releaseTerminalOrders (h : Stands b k) :
    Leads strays k b.releaseTerminalOrders := by
  have hended : ∀ i ∈ b.terminalOrdersPendingRelease, k.slots i = .vacant ∨
      ∃ n, k.slots i = .ended n := by
    intro i hi
    have hsh := h.slot i
    generalize k.slots i = slot at hsh ⊢
    cases hsh with
    | vacant => exact .inl rfl
    | pending _ _ _ _ _ kept | opened _ _ kept => exact absurd hi kept
    | ended => exact .inr ⟨_, rfl⟩
  have hpos : ∀ i ∈ b.terminalOrdersPendingRelease, NoPosition b i := by
    intro i hi
    refine noPosition_of_not_opened h fun n _ hs => ?_
    obtain hv | ⟨m, hm⟩ := hended i hi
    · rw [hs] at hv
      cases hv
    rw [hs] at hm
    cases hm
  have ht := h.tallies
  refine ⟨_, moves_release b.terminalOrdersPendingRelease hended, ⟨ht.1, ht.2, ht.3,
    ht.4, ht.5, ht.6, ht.7, ?_⟩, h.nodup.filter _, fun i => ?_⟩
  · rw [releaseTerminalOrders, ht.updates]
    rfl
  · have hl := Table.lookup_retain b.orders
      (fun orderId => orderId ∉ b.terminalOrdersPendingRelease) i
    by_cases hi : i ∈ b.terminalOrdersPendingRelease
    · simp only [hi, if_true]
      refine .vacant ?_ (hpos i hi) (by simp [releaseTerminalOrders, hi])
        (by simp [releaseTerminalOrders, hi]) (by simp [releaseTerminalOrders])
      exact hl.trans (by simp [hi])
    · simp only [hi, if_false]
      refine (h.slot i).frame rfl (hl.trans (by simp [hi])) (fun _ => rfl)
        (fun hme => (mem_filter.1 hme).1) (fun hme => (mem_filter.1 hme).1) ?_
      simp [releaseTerminalOrders]

theorem asked_drain (maxEvents : Nat) : Asked calm b (b.drainExecutionEvents maxEvents).1 := by
  unfold drainExecutionEvents
  split
  · refine ⟨⟨⟨rfl, rfl⟩, rfl, ⟨[], by simp [releaseTerminalOrders], by simp⟩, fun i o ho => ?_⟩,
      fun _ hm hk => ?_⟩
    · have hl := Table.lookup_retain b.orders
        (fun orderId => orderId ∉ b.terminalOrdersPendingRelease) i
      replace ho := hl.symm.trans ho
      split at ho
      · exact .inl ⟨o, ho, goes_refl o⟩
      · cases ho
    · exact mem_filter.2 ⟨hm, by simpa using hk⟩
  · exact .same rfl ⟨rfl, rfl⟩ rfl rfl fun _ h => h

theorem turns_act (h : Stands b k) {action : Action} (hbar : action.bars = none)
    (hst : ∀ n, b.strayCancel action = some n → strays n)
    (hc : calm → b.cancelsLeg action = false) : Turns strays calm k b (b.act action) := by
  have hs : ∀ {c : PaperBroker}, Stands c k → Asked calm b c → Turns strays calm k b c :=
    fun h' ha => ⟨h'.reaches, ha⟩
  cases action with
  | registerAsset | setTime => exact hs (h.of_eq rfl) (.same rfl ⟨rfl, rfl⟩ rfl rfl fun _ h => h)
  | submit request ids => exact turns_submitOrder h request ids
  | cancel orderId => exact turns_cancelOrder h orderId hst hc
  | amend orderId limitPrice stopPrice =>
    exact turns_amendEntryPrices h orderId limitPrice stopPrice
  | replace orderId price qty => exact turns_replaceOrder h orderId price qty
  | updateTakeProfit orderId price => exact turns_updateProtectiveLeg h (.inl rfl) orderId price
  | updateStopLoss orderId price => exact turns_updateProtectiveLeg h (.inr rfl) orderId price
  | close orderId qty price =>
    refine turns_answered h fun _ hok => ?_
    obtain ⟨order, position, -, -, -, rfl⟩ := closePosition_eq_ok hok
    exact hs (h.of_eq rfl) (.same rfl ⟨rfl, rfl⟩ rfl rfl fun _ => mem_append_left _)
  | closeAll visit =>
    obtain ⟨requests, heq⟩ := closeEach_eq b (visited visit (b.positions.keys.map Prod.snd))
    rw [act, closeAllPositions, heq]
    exact hs (h.of_eq rfl) (.same rfl ⟨rfl, rfl⟩ rfl rfl fun _ => mem_append_left _)
  | step _ _ visit | flush => cases hbar
  | drain maxEvents =>
    refine ⟨?_, asked_drain maxEvents⟩
    rw [act, drainExecutionEvents]
    split
    · exact reaches_releaseTerminalOrders (b := { b with tradeEvents := [] }) (h.of_eq rfl)
    · exact Represents.reaches (h.of_eq rfl)

/-- An action is a request, or a number of deeds after which the account is
valued. -/
theorem carries_act (h : Stands b k) (action : Action)
    (hs : ∀ n, b.strayCancel action = some n → strays n)
    (hc : calm → b.cancelsLeg action = false) :
    b.seen action = ∅ ∧ Turns strays calm k b (b.act action) ∨
      ∃ time c, action.bars = some (b.seen action, time) ∧ Leads strays k c ∧
        Deeds calm ⟨b.closeOrdersQueue, b.legHits action⟩ (b.seen action) time b c ∧
        b.act action = updateAccountBalance (b.seen action) c := by
  cases hbar : action.bars with
  | none =>
    refine .inl ⟨?_, turns_act h hbar hs hc⟩
    cases action with
    | step | flush => cases hbar
    | _ => rfl
  | some bring =>
    obtain ⟨bars, time⟩ := bring
    obtain ⟨-, hse, heq⟩ | ⟨rfl, heq⟩ := act_closing h hbar
    · refine .inl ⟨hse, ?_⟩
      rw [heq]
      exact ⟨h.reaches, .same rfl ⟨rfl, rfl⟩ rfl rfl fun _ h => h⟩
    · obtain ⟨hr, hd, -⟩ : Carries strays calm
        ⟨b.closeOrdersQueue, b.legHits action⟩ _ time k b _ :=
        passes_closing h hbar fun _ h => h
      refine .inr ⟨time, _, rfl, ?_, ?_, heq⟩
      · exact hr.trans fun _ h => Represents.reaches (h.of_eq rfl)
      · exact hd.tail (.mild (.same rfl ⟨rfl, rfl⟩ rfl rfl) fun _ h => h)

theorem reaches_act (h : Stands b k) (action : Action)
    (hs : ∀ n, b.strayCancel action = some n → strays n) : Leads strays k (b.act action) := by
  obtain ⟨-, ht⟩ | ⟨time, c, -, hr, -, heq⟩ := carries_act h action hs False.elim
  · exact ht.reaches
  · rw [heq]
    exact hr.trans fun _ h => (represents_updateAccountBalance _ h).reaches

theorem stands_new (cash : ℚ) (leverage : Nat) (fees : AssetFees) :
    Stands (.new cash leverage fees) (.start cash) where
  tallies := ⟨rfl, rfl, rfl, rfl, rfl, rfl, rfl, rfl⟩
  nodup := nodup_nil
  slot _ := .vacant rfl (fun _ => rfl) nofun nofun nofun

theorem reaches_run (h : Stands b k) (actions : List Action)
    (hs : ∀ n ∈ b.strayCancels actions, strays n) : Leads strays k (b.run actions) := by
  induction actions generalizing b k with
  | nil => exact h.reaches
  | cons action actions ih =>
    have hf : Leads strays k (b.act action) :=
      reaches_act h action fun n hn => hs n (mem_append_left _ (by simp [hn]))
    exact hf.trans fun _ h' => ih h' fun n hn => hs n (mem_append_right _ hn)

theorem stands_run (cash : ℚ) (leverage : Nat) (fees : AssetFees) (actions : List Action) :
    ∃ k, Stands ((PaperBroker.new cash leverage fees).run actions) k := by
  obtain ⟨k, -, h⟩ : Leads (fun _ => True) _ _ :=
    reaches_run (stands_new cash leverage fees) actions fun _ _ => trivial
  exact ⟨k, h⟩

theorem run_concat (b : PaperBroker) (actions : List Action) (action : Action) :
    b.run (actions ++ [action]) = (b.run actions).act action := by
  rw [run, foldl_append]
  rfl

def legCancels (b : PaperBroker) : List Action → Bool
  | [] => false
  | action :: rest => b.cancelsLeg action || (b.act action).legCancels rest

variable {P : PaperBroker → Prop}

theorem deeds_invariant {agenda : Agenda} {bars : Bars} {time : Time}
    (hde : ∀ b b', P b → Deed calm agenda bars time b b' → P b') (h : P b)
    (hd : Deeds calm agenda bars time b b') : P b' := by
  induction hd with
  | refl => exact h
  | tail _ ho ih => exact hde _ _ ih ho

theorem run_invariant (hm : ∀ b b', P b → Mild calm b b' → P b')
    (hde : ∀ agenda bars time b b', P b → Deed calm agenda bars time b b' → P b')
    (hb : ∀ bars b, P b → P (updateAccountBalance bars b)) (hs : Stands b k)
    (actions : List Action) (hca : calm → b.legCancels actions = false) (h : P b) :
    P (b.run actions) := by
  induction actions generalizing b k with
  | nil => exact h
  | cons action actions ih =>
    have hc' : calm → b.cancelsLeg action = false ∧ (b.act action).legCancels actions = false :=
      fun hc => Bool.or_eq_false_iff.1 (hca hc)
    obtain ⟨k', -, hs'⟩ : Leads (fun _ => True) k (b.act action) :=
      reaches_act hs action fun _ _ => trivial
    refine ih hs' (fun hc => (hc' hc).2) ?_
    obtain ⟨-, ht⟩ | ⟨time, c, -, -, hd, heq⟩ : _ ∧ Turns (fun _ => True) calm k b _ ∨ _ :=
      carries_act hs action (fun _ _ => trivial) fun hc => (hc' hc).1
    · exact hm _ _ h ht.asked.mild
    · rw [heq]
      exact hb _ c (deeds_invariant (hde _ _ time) h hd)

/-- A deed on the way from one state to another, in which `e` is reported. -/
structure Reported (agenda : Agenda) (bars : Bars) (time : Time)
    (b b' c c' : PaperBroker) (e : TradeEvent) : Prop where
  deed : Deed False agenda bars time c c'
  new : ∃ events, c'.emitted = c.emitted ++ events ∧ e ∈ events
  before : b.tradeLog <+: c.tradeLog
  after : c'.tradeLog <+: b'.tradeLog

variable {agenda : Agenda} {bars : Bars} {time : Time} {e : TradeEvent}
  {events : List TradeEvent}

theorem deed_grows (h : Deed calm agenda bars time b b') :
    b.tradeLog <+: b'.tradeLog ∧ b.emitted <+: b'.emitted := by
  cases h with
  | mild h =>
    obtain ⟨events, heq, -⟩ := h.emitted
    rw [h.log, heq]
    exact ⟨prefix_rfl, prefix_append _ _⟩
  | fill _ _ _ _ _ _ _ _ h | exit _ _ _ _ _ h =>
    rw [h.log, h.emitted]
    exact ⟨prefix_append _ _, prefix_append _ _⟩

theorem deeds_grow (h : Deeds calm agenda bars time b b') :
    b.tradeLog <+: b'.tradeLog ∧ b.emitted <+: b'.emitted :=
  deeds_invariant (P := fun c => b.tradeLog <+: c.tradeLog ∧ b.emitted <+: c.emitted)
    (fun _ _ h ho => ⟨h.1.trans (deed_grows ho).1, h.2.trans (deed_grows ho).2⟩)
    ⟨prefix_rfl, prefix_rfl⟩ h

theorem deeds_reported (hdee : ∀ b b', P b → Deed False agenda bars time b b' → P b') (h : P b)
    (hde : Deeds False agenda bars time b b') (hem : b'.emitted = b.emitted ++ events)
    (he : e ∈ events) : ∃ c c', P c ∧ Reported agenda bars time b b' c c' e := by
  induction hde generalizing events with
  | refl =>
    obtain rfl := self_eq_append_right.1 hem
    cases he
  | @tail c c' hb ho ih =>
    have hp := deeds_grow hb
    obtain ⟨old, hold⟩ := hp.2
    obtain ⟨new, hn⟩ := (deed_grows ho).2
    rw [← hn, ← hold, append_assoc] at hem
    obtain rfl := append_cancel_left hem
    obtain he | he := mem_append.1 he
    · obtain ⟨d, d', hd, hr⟩ := ih hold.symm he
      exact ⟨d, d', hd, { hr with after := hr.after.trans (deed_grows ho).1 }⟩
    · exact ⟨c, c', deeds_invariant hdee h hb, ho, ⟨new, hn.symm, he⟩, hp.1, prefix_rfl⟩

/-- Every trade that an action reports is a deed of a bar. -/
theorem act_reported {action : Action} (hs : Stands b k)
    (hdee : ∀ agenda bars time b b', P b → Deed False agenda bars time b b' → P b') (h : P b)
    (hem : (b.act action).emitted = b.emitted ++ events) (he : e ∈ events) (ht : e.isTrade) :
    ∃ bars time c c', action.bars = some (bars, time) ∧ P c ∧
      Reported ⟨b.closeOrdersQueue, b.legHits action⟩ bars time b (b.act action) c c' e := by
  obtain ⟨-, htu⟩ | ⟨time, c, hbar, -, hde, heq⟩ : _ ∧ Turns (fun _ => True) False k b _ ∨ _ :=
    carries_act hs action (fun _ _ => trivial) False.elim
  · rw [htu.asked.mild.no_trade ⟨events, hem, he⟩] at ht
    cases ht
  · rw [heq] at hem ⊢
    obtain ⟨d, d', hd, hr⟩ := deeds_reported (hdee _ _ time) h hde hem he
    exact ⟨_, time, d, d', hbar, hd, hr.1, hr.2, hr.3, hr.4⟩

def sampleRequest (orderClass : Broker.OrderClass) (limit : Option ℚ) : BrokerOrderRequest where
  clientOrderId := "entry"
  insightId := "insight"
  strategyType := "strategy"
  symbol := "X"
  quantity := some 2
  side := .buy
  orderType := if limit = none then .market else .limit
  orderClass := orderClass
  limitPrice := limit
  stopPrice := none
  takeProfitLevels := some [20]
  stopLossLevels := none
  trailingStopPrice := none

def sampleIds : LegIds := ⟨"take", "stop", "trail"⟩

def barStep (symbol : String) (bar : Bar) : Action :=
  .step (AList.insert symbol bar ∅) 0 [] fun _ => "exit"

def sampleStep : Action := .step (AList.insert "X" ⟨10, 12, 9, 11⟩ ∅) 0 [] fun _ => "exit"

def sampleEntry (orderClass : Broker.OrderClass) : List Action :=
  [.submit (sampleRequest orderClass none) sampleIds, sampleStep]

def sampleRun (orderClass : Broker.OrderClass) (actions : List Action) : PaperBroker :=
  (PaperBroker.new 100 1 {}).run (sampleEntry orderClass ++ actions)

end PaperBroker

end AqEngine.Paper
