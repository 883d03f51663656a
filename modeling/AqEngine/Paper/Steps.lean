import AqEngine.Paper.Deeds

namespace AqEngine.Paper

open Lib PaperBroker List Option
open Broker (OrderSide TradeUpdateEvent Time)

def Reaches (strays : Nat → Prop) (k : Book) (queue active : List String) (b : PaperBroker) :
    Prop :=
  ∃ k', Moves strays k k' ∧ Represents queue active b k'

variable {strays : Nat → Prop} {queue queue' active active' : List String} {b b' : PaperBroker}
  {k : Book} {id : String} {n : Nat} {order : Order}

abbrev Stands (b : PaperBroker) (k : Book) : Prop := Represents b.pendingOrders b.activeOrders b k

abbrev Leads (strays : Nat → Prop) (k : Book) (b : PaperBroker) : Prop :=
  Reaches strays k b.pendingOrders b.activeOrders b

theorem Represents.reaches (h : Represents queue active b k) : Reaches strays k queue active b :=
  ⟨k, .refl, h⟩

theorem Reaches.of_move (h : ∃ k', Move strays k k' ∧ Represents queue active b k') :
    Reaches strays k queue active b := by
  obtain ⟨k', hm, h⟩ := h
  exact ⟨k', .single hm, h⟩

theorem Reaches.trans (h : Reaches strays k queue active b)
    (hn : ∀ k', Represents queue active b k' → Reaches strays k' queue' active' b') :
    Reaches strays k queue' active' b' := by
  obtain ⟨k', hm, h⟩ := h
  obtain ⟨k'', hm', h'⟩ := hn k' h
  exact ⟨k'', hm.trans hm', h'⟩

structure Passes (strays : Nat → Prop) (calm : Prop) (agenda : Agenda) (bars : Bars)
    (time : Time) (k : Book) (b : PaperBroker) (queue active : List String) (b' : PaperBroker) :
    Prop where
  reaches : Reaches strays k queue active b'
  deeds : Deeds calm agenda bars time b b'
  queue : b'.closeOrdersQueue = b.closeOrdersQueue

abbrev Carries (strays : Nat → Prop) (calm : Prop) (agenda : Agenda) (bars : Bars)
    (time : Time) (k : Book) (b b' : PaperBroker) : Prop :=
  Passes strays calm agenda bars time k b b'.pendingOrders b'.activeOrders b'

section

variable {calm : Prop} {agenda : Agenda} {bars : Bars} {time : Time}
  {b'' : PaperBroker}

theorem Represents.passes (h : Represents queue active b k) :
    Passes strays calm agenda bars time k b queue active b := ⟨h.reaches, .refl, rfl⟩

theorem Represents.passes_mild (h : Represents queue active b' k) (hm : Mild calm b b')
    (hk : Kept b b') (hq : b'.closeOrdersQueue = b.closeOrdersQueue) :
    Passes strays calm agenda bars time k b queue active b' :=
  ⟨h.reaches, .single (.mild hm hk), hq⟩

theorem Passes.trans (h : Passes strays calm agenda bars time k b queue active b')
    (hn : ∀ k', Represents queue active b' k' →
      Passes strays calm agenda bars time k' b' queue' active' b'') :
    Passes strays calm agenda bars time k b queue' active' b'' := by
  obtain ⟨⟨k', hm, h'⟩, hd, hq⟩ := h
  obtain ⟨⟨k'', hm', h''⟩, hd', hq'⟩ := hn k' h'
  exact ⟨⟨k'', hm.trans hm', h''⟩, hd.trans hd', hq'.trans hq⟩

end

namespace PaperBroker

variable {calm : Prop} {agenda : Agenda}

section

variable (bars : Bars) (time : Time)

theorem passes_processPendingOrder {stays : Bool} (h : Represents queue b.activeOrders b k)
    (hid : id ∈ queue) (ho : processPendingOrder bars time b id = (b', stays)) :
    Passes strays calm agenda bars time k b (if stays then queue else queue.erase id)
      b'.activeOrders b' := by
  have hd : Represents (queue.erase id) b.activeOrders b k :=
    h.dequeue erase_subset (h.nodup.erase id)
  have hsh := h.slot id
  cases hs : k.slots id <;> rw [hs] at hsh
  case vacant =>
    cases hsh with
    | vacant _ _ queued => exact absurd hid queued
  case opened =>
    cases hsh with
    | opened _ queued => exact absurd hid queued
  case ended =>
    cases hsh with
    | ended known _ _ status =>
      have hc := status.resolve_right fun hot => hot.2 hid
      rw [processPendingOrder, known.found] at ho
      simp only [hc, if_true] at ho
      cases ho
      exact hd.passes
  case pending n qty =>
    cases hsh with
    | @pending _ _ order known status quantity position =>
      rw [processPendingOrder, known.found] at ho
      simp only [status, reduceCtorEq, if_false] at ho
      split at ho
      · cases ho
        exact h.passes
      next _ hbar =>
      split at ho
      · cases ho
        exact h.passes
      next price hprice =>
      split at ho <;> cases ho
      · next reason _ =>
        have hse : Mild calm b (b.setOrder (rejectOrder order reason (seconds time))) :=
          .setOrder known.found known.id ⟨rfl, rfl, rfl, rfl, rfl, rfl, nofun, fun _ => .same rfl
            fun hcl => absurd (status.symm.trans hcl) nofun⟩
        refine ⟨.of_move ⟨_, .reject hs, ?_⟩, .single (.mild ((hse.emit rfl).mark _) fun i hi =>
            kept_setOrder b (rejectOrder order reason (seconds time)) i ?_), ?_⟩
        · rw [show (b.reject _).activeOrders = b.activeOrders from (fields_mark _ _).1]
          exact h.reject hs known.id known.submission rfl
        · rwa [show (b.reject _).orders = _ from (fields_mark _ _).2.2.1] at hi
        · exact (fields_mark _ _).2.2.2
      · have hb := booked_enter b (fillOrder order price (seconds time)) price time
        exact ⟨.of_move (h.enter hs known.found (fills_fillOrder _ price _) price time),
          .single (.fill known.found known.id status (quantity ▸ qty.2)
            position hbar hprice rfl hb),
          hb.queue⟩

theorem passes_pendingPass (rest kept : List String)
    (h : Represents (kept ++ rest) b.activeOrders b k) :
    Passes strays calm agenda bars time k b (kept ++ (pendingPass bars time b rest).2)
      (pendingPass bars time b rest).1.activeOrders (pendingPass bars time b rest).1 := by
  induction rest generalizing b k kept with
  | nil => exact h.passes
  | cons id rest ih =>
    have hou : id ∉ kept := fun hid => (nodup_append.1 h.nodup).2.2 id hid id (by simp) rfl
    unfold pendingPass
    cases ho : processPendingOrder bars time b id with | mk b' stays =>
    have hr : Passes strays calm agenda bars time k b _ _ b' :=
      passes_processPendingOrder bars time h (by simp) ho
    cases stays with
    | true =>
      refine hr.trans fun _ h' => ?_
      have hn := ih (kept ++ [id]) (by simpa using h')
      simpa using hn
    | false =>
      refine hr.trans fun _ h' => ih kept ?_
      simpa [erase_append_right _ hou] using h'

theorem passes_processPendingOrders (h : Stands b k) :
    Carries strays calm agenda bars time k b (processPendingOrders bars time b) :=
  (passes_pendingPass bars time b.pendingOrders [] h).trans fun _ h =>
    (h.of_eq rfl).passes_mild (.same rfl ⟨rfl, rfl⟩ rfl rfl) (fun _ h => h) rfl

end

section

variable (bars : Bars) (time : Time)

structure Watched (id : String) (b b' : PaperBroker) : Prop where
  active : b'.activeOrders = b.activeOrders
  pending : b'.pendingOrders = b.pendingOrders
  order : ∀ i, i ≠ id → b'.orders.lookup i = b.orders.lookup i

def ClosedOut (b : PaperBroker) (id : String) : Prop :=
  ∃ order, b.orders.lookup id = some order ∧ order.status = .closed ∧ order.qty = 0

variable {bar : Bar} {now : Nat} {legs legs' : OrderLegs} {price : ℚ} {side : OrderSide}
  {leg leg' : OrderLeg}

/-- The price at which a bar hits a leg of an order. -/
def legHit (order : Order) : Option ℚ :=
  (bars.lookup order.asset.symbol).bind fun bar => order.legs.bind fun legs =>
    (triggerLegs order.side bar (seconds time) legs).2

theorem passes_closeByLeg {lot : Lot} {position : Position} (h : Represents queue active b k)
    (hs : k.slots id = .opened n lot) (ho : Opened b id n lot order position)
    (hbar : bars.lookup order.asset.symbol = some bar) (hlegs : order.legs = some legs)
    (ht : triggerLegs order.side bar (seconds time) legs = (legs', some price))
    (hh : agenda.hits id = some price)
    (heq : b' = b.closeByLeg { order with legs := some legs' } price time) :
    Passes strays calm agenda bars time k b queue (active.filter (· ≠ id)) b' ∧
      Watched id b b' ∧ b'.ClosedOut id := by
  subst heq
  have hpos : 0 < position.qty := ho.is.qty ▸ lot.qty.2
  have hid := ho.known.id
  have hw : requestedQty position order.qty = position.qty := by
    rw [ho.quantity, ← ho.is.qty, requestedQty_self hpos]
  have hb : b.closePositionForOrder { order with legs := some legs' } price order.qty time =
      some (exited b order position price position.qty time,
        settleQty order position price position.qty time) := by
    have hh : b.positions.lookup (order.asset.symbol, order.orderId) = some position := by
      rw [hid]
      exact ho.held
    refine (congrArg (Option.map _) hh).trans ?_
    rw [map_some, hw]
    rfl
  have hleft : id ∉ active.filter (· ≠ id) := by simp
  simp only [closeByLeg, hb]
  refine ⟨⟨.of_move (h.closeOut hs ho ⟨rfl, rfl, rfl, rfl, rfl⟩
    (fun i _ hi => (mem_filter.1 hi).1) hleft _ (by exact hid) (by exact ho.known.submission)
    rfl price time), .single (.exit ho hbar hpos le_rfl (.leg hlegs ht rfl rfl (hid ▸ hh))
      (booked_finish _)), (booked_finish _).queue⟩,
    ⟨(fields_mark _ _).1, (fields_mark _ _).2.1, fun i hi => ?_⟩, ?_⟩
  · rw [closeByLeg.finish, (fields_mark _ _).2.2.1]
    exact AList.lookup_insert_ne fun heq => hi (heq.trans hid)
  · rw [ClosedOut, closeByLeg.finish, (fields_mark _ _).2.2.1, ← hid]
    exact ⟨_, AList.lookup_insert _, rfl, rfl⟩

theorem status_updateTrailingStopLeg (side : OrderSide) (leg : OrderLeg) (bar : Bar) (now : Nat) :
    (updateTrailingStopLeg side leg bar now).1.status = leg.status := by
  unfold updateTrailingStopLeg
  repeat' split
  all_goals rfl

theorem triggerTrailingStop_none (h : triggerTrailingStop side bar now legs = (legs', none)) :
    legs'.takeProfit = legs.takeProfit ∧ legs'.stopLoss = legs.stopLoss ∧
      legs'.trailingStop.map OrderLeg.status = legs.trailingStop.map OrderLeg.status := by
  unfold triggerTrailingStop at h
  split at h
  · cases h
    exact ⟨rfl, rfl, rfl⟩
  next leg hl =>
  have hs := status_updateTrailingStopLeg side leg bar now
  split at h
  · cases h
    exact ⟨rfl, rfl, rfl⟩
  split at h <;> cases h
  next _ heq =>
  rw [heq] at hs
  exact ⟨rfl, rfl, by simpa [hl] using hs⟩

theorem triggerLegs_none (h : triggerLegs side bar now legs = (legs', none)) :
    triggerTrailingStop side bar now legs = (legs', none) := by
  unfold triggerLegs at h
  split at h
  · cases h
  next _ ht =>
  unfold triggerStopLoss at h
  split at h
  · cases h
  next hs =>
  split at hs <;> cases hs
  unfold triggerTakeProfit at h
  split at h <;> cases h
  exact ht

theorem legsKept_trail (hsta : order.status = .filled) (hlegs : order.legs = some legs)
    (htr : triggerLegs order.side bar now legs = (legs', none)) :
    order.LegsKept { order with legs := some legs' } := by
  obtain ⟨hta, hs, ht⟩ := triggerTrailingStop_none (triggerLegs_none htr)
  refine .live (fun hcl => absurd (hsta.symm.trans hcl) nofun) fun kind leg hl hc => ?_
  cases kind with
  | takeProfit => exact ⟨leg, by simpa [Order.leg, hlegs, hta] using hl, hc⟩
  | stopLoss => exact ⟨leg, by simpa [Order.leg, hlegs, hs] using hl, hc⟩
  | trailingStop =>
    replace hl : legs'.trailingStop = some leg := hl
    rw [hl, map_some] at ht
    obtain ⟨old, hold, hst⟩ := map_eq_some_iff.1 ht.symm
    exact ⟨old, by simpa [Order.leg, hlegs] using hold, hst.trans hc⟩

theorem passes_processActiveOrder {closed : Bool} (h : Represents queue active b k)
    (hid : id ∈ active) (hh : agenda.hits id = (b.orders.lookup id).bind (legHit bars time))
    (hon : processActiveOrder bars time b id = (b', closed)) :
    Passes strays calm agenda bars time k b queue
        (if closed then active.filter (· ≠ id) else active) b' ∧
      Watched id b b' ∧ closed = (agenda.hits id).isSome ∧ (closed = true → b'.ClosedOut id) := by
  obtain ⟨n, lot, hs⟩ : ∃ n lot, k.slots id = .opened n lot := by
    have hsh := h.slot id
    generalize k.slots id = slot at hsh ⊢
    cases hsh with
    | vacant _ _ _ watched | pending _ _ _ _ watched | ended _ _ watched => exact absurd hid watched
    | opened => exact ⟨_, _, rfl⟩
  obtain ⟨order, position, ho, -, -⟩ := h.opened hs
  simp only [processActiveOrder, ho.known.found] at hon
  rw [ho.known.found, bind_some, legHit] at hh
  split at hon
  · next _ legs hbar hlegs =>
    rw [hbar, hlegs, bind_some, bind_some] at hh
    split at hon <;> cases hon
    · next legs' ht =>
      have hse : Mild calm b (b.setOrder { order with legs := some legs' }) :=
        .setOrder ho.known.found ho.known.id ⟨rfl, rfl, rfl, rfl, rfl, rfl, fun h => h,
          fun _ => legsKept_trail ho.status hlegs ht⟩
      have ha : order.Alike { order with legs := some legs' } := ⟨rfl, rfl, rfl, rfl, rfl⟩
      refine ⟨(h.touch ho.known.found ha).passes_mild hse (kept_setOrder b _) rfl,
        ⟨rfl, rfl, fun i hi => ?_⟩, by rw [hh, ht]; rfl, nofun⟩
      exact AList.lookup_insert_ne fun heq => hi (heq.trans ho.known.id)
    · next legs' _ ht =>
      rw [ht] at hh
      obtain ⟨hr, hw, hc⟩ := passes_closeByLeg bars time h hs ho hbar hlegs ht hh rfl
      exact ⟨hr, hw, by rw [hh]; rfl, fun _ => hc⟩
  · next hno =>
    cases hon
    have hn : agenda.hits id = none := by
      rw [hh, bind_eq_none_iff]
      exact fun bar hbar => bind_eq_none_iff.2 fun legs hlegs => (hno bar legs hbar hlegs).elim
    exact ⟨h.passes, ⟨rfl, rfl, fun _ _ => rfl⟩, by rw [hn]; rfl, nofun⟩

/-- The orders that the watch closes are still tracked at the end of it. -/
theorem passes_activePass (rest : List String) (h : Represents queue active b k)
    (hn : rest.Nodup) (hs : ∀ i ∈ rest, i ∈ active)
    (hh : ∀ i ∈ rest, agenda.hits i = (b.orders.lookup i).bind (legHit bars time))
    {closed : List String}
    (hp : activePass bars time b rest = (b', closed)) :
    Passes strays calm agenda bars time k b queue (active.filter (· ∉ closed)) b' ∧
      b'.activeOrders = b.activeOrders ∧ b'.pendingOrders = b.pendingOrders ∧
      (∀ i, i ∉ rest → b'.orders.lookup i = b.orders.lookup i) ∧
      (∀ i ∈ rest, (agenda.hits i).isSome → i ∈ closed) ∧ ∀ i ∈ closed, b'.ClosedOut i := by
  induction rest generalizing b b' k active closed with
  | nil =>
    cases hp
    exact ⟨by simpa using h.passes, rfl, rfl, fun _ _ => rfl, nofun, nofun⟩
  | cons id rest ih =>
    obtain ⟨hid, hrest⟩ := nodup_cons.1 hn
    cases ho : processActiveOrder bars time b id with | mk b₁ one =>
    cases hl : activePass bars time b₁ rest with | mk b₂ later =>
    obtain ⟨hr, hw, hone, hc⟩ := passes_processActiveOrder bars time h (hs id mem_cons_self)
      (hh id mem_cons_self) ho
    obtain ⟨⟨k', hm, h'⟩, hd, hq⟩ : Passes strays calm agenda bars time k b _ _ b₁ := hr
    have hs' : ∀ i ∈ rest, i ∈ if one then active.filter (· ≠ id) else active := by
      intro i hi
      have hme := hs i (mem_cons_of_mem id hi)
      have hne : i ≠ id := fun heq => hid (heq ▸ hi)
      cases one <;> simp [hme, hne]
    have hh' : ∀ i ∈ rest, agenda.hits i = (b₁.orders.lookup i).bind (legHit bars time) := by
      intro i hi
      rw [hw.order i fun heq => hid (heq ▸ hi)]
      exact hh i (mem_cons_of_mem id hi)
    obtain ⟨⟨⟨k'', hm', h''⟩, hd', hq'⟩, ha, hpending, hf, hall, hc'⟩ := ih h' hrest hs' hh' hl
    have hf' : ∀ i, i ∉ id :: rest → b₂.orders.lookup i = b.orders.lookup i := by
      intro i hi
      obtain ⟨hne, hou⟩ : i ≠ id ∧ i ∉ rest := by simpa using hi
      exact (hf i hou).trans (hw.order i hne)
    rw [activePass, ho] at hp
    cases one <;> simp only [hl] at hp <;> cases hp
    · refine ⟨⟨⟨k'', hm.trans hm', h''⟩, hd.trans hd', hq'.trans hq⟩,
        ha.trans hw.active, hpending.trans hw.pending, hf', fun i hi hit => ?_, hc'⟩
      obtain rfl | hi := mem_cons.1 hi
      · exact absurd (hone.trans hit) nofun
      · exact hall i hi hit
    refine ⟨⟨⟨k'', hm.trans hm', ?_⟩, hd.trans hd', hq'.trans hq⟩,
      ha.trans hw.active, hpending.trans hw.pending, hf', fun i hi hit => ?_, fun i hi => ?_⟩
    · simpa [List.filter_filter, Bool.and_comm] using h''
    · obtain rfl | hi := mem_cons.1 hi
      · exact mem_cons_self
      · exact mem_cons_of_mem id (hall i hi hit)
    · obtain rfl | hi := mem_cons.1 hi
      · obtain ⟨order, hfo, hst⟩ := hc rfl
        exact ⟨order, (hf i hid).trans hfo, hst⟩
      · exact hc' i hi

theorem legsKept_cancelRemaining (now : Nat) : order.LegsKept
    (Order.cancelRemainingLegs { order with status := .closed, qty := 0 } now) where
  settled _ _ _ _ _ := rfl
  closed _ := by
    refine ⟨rfl, fun kind _ hl hc => ⟨now, ?_⟩⟩
    cases kind <;>
    · obtain ⟨legs, hlegs, hl⟩ := bind_eq_some_iff.1 hl
      simp [Order.leg, Order.cancelRemainingLegs, OrderLeg.cancelRemaining, hlegs, hl, hc]

theorem represents_untrack_one (now : Nat) (h : Represents queue active b k)
    (hc : b.ClosedOut id) : Represents queue active (untrack now b id) k ∧
      Mild calm b (untrack now b id) ∧ Kept b (untrack now b id) := by
  obtain ⟨order, hf, hst, hqty⟩ := hc
  have hal : order.Alike (Order.cancelRemainingLegs
      { order with status := .closed, qty := 0 } now) :=
    ⟨rfl, rfl, rfl, hqty.symm, hst.symm⟩
  have hu : untrack now b id = { b.setOrder (Order.cancelRemainingLegs
      { order with status := .closed, qty := 0 } now) with
      activeOrders := b.activeOrders.filter (· ≠ id) } := by
    rw [untrack, Table.modify, hf, ← (h.known hf).id]
    rfl
  have hs : Mild calm b (b.setOrder (Order.cancelRemainingLegs
      { order with status := .closed, qty := 0 } now)) :=
    .setOrder hf (h.known hf).id ⟨rfl, rfl, rfl, rfl, rfl, rfl, nofun, fun _ =>
      legsKept_cancelRemaining now⟩
  rw [hu]
  exact ⟨(h.touch hf hal).of_eq rfl, { hs with }, kept_setOrder b _⟩

theorem represents_untrack (now : Nat) (ids : List String) (h : Represents queue active b k)
    (hc : ∀ i ∈ ids, b.ClosedOut i) :
    Represents queue active (ids.foldl (untrack now) b) k ∧
      Deeds calm agenda bars time b (ids.foldl (untrack now) b) ∧
      (ids.foldl (untrack now) b).closeOrdersQueue = b.closeOrdersQueue ∧
      (ids.foldl (untrack now) b).positions = b.positions ∧
      (ids.foldl (untrack now) b).activeOrders = b.activeOrders.filter (· ∉ ids) ∧
      (ids.foldl (untrack now) b).pendingOrders = b.pendingOrders := by
  induction ids generalizing b with
  | nil => exact ⟨h, .refl, rfl, rfl, by simp, rfl⟩
  | cons id ids ih =>
    obtain ⟨h', hm, hk⟩ := represents_untrack_one now h (hc id mem_cons_self)
    have hsti : ∀ i ∈ ids, (untrack now b id).ClosedOut i := by
      intro i hi
      obtain ⟨o, ho, hc⟩ := hc i (mem_cons_of_mem id hi)
      rw [ClosedOut, untrack, Table.lookup_modify, ho]
      split
      · exact ⟨_, rfl, rfl, rfl⟩
      · exact ⟨o, rfl, hc⟩
    obtain ⟨hrest, hd, hq, hpo, ha, hpending⟩ := ih h' hsti
    refine ⟨hrest, .head (.mild hm hk) hd, hq, hpo, ha.trans ?_, hpending⟩
    simp [untrack, List.filter_filter, Bool.and_comm]

theorem mem_visited {visit tracked : List String} : id ∈ visited visit tracked ↔ id ∈ tracked := by
  simp only [visited, mem_dedup, mem_append, mem_filter, decide_eq_true_eq]
  exact ⟨fun h => h.elim (fun h => h) And.right, .inl⟩

theorem noPosition_of_not_opened (h : Represents queue active b k)
    (hs : ∀ n lot, k.slots id ≠ .opened n lot) : NoPosition b id := by
  have hsh := h.slot id
  generalize k.slots id = slot at hsh hs
  cases hsh with
  | vacant _ position | pending _ _ _ position | ended _ position => exact position
  | opened => exact absurd rfl (hs _ _)

theorem ClosedOut.noPosition (hc : b.ClosedOut id) (h : Represents queue active b k) :
    NoPosition b id := by
  obtain ⟨order, hf, hst, -⟩ := hc
  refine noPosition_of_not_opened h fun n lot hs => ?_
  obtain ⟨o, _, ho, -, -⟩ := h.opened hs
  obtain rfl := Option.some.inj (ho.known.found.symm.trans hf)
  exact absurd (ho.status.symm.trans hst) nofun

theorem passes_processActiveOrders (visit : List String) (h : Stands b k)
    (hh : ∀ i, agenda.hits i =
      if i ∈ b.activeOrders then (b.orders.lookup i).bind (legHit bars time) else none) :
    Carries strays calm agenda bars time k b (processActiveOrders bars time visit b) ∧
      ∀ i, (agenda.hits i).isSome → NoPosition (processActiveOrders bars time visit b) i := by
  cases hp : activePass bars time b (visited visit b.activeOrders) with | mk b' closed =>
  have hh' : ∀ i ∈ visited visit b.activeOrders,
      agenda.hits i = (b.orders.lookup i).bind (legHit bars time) := fun i hi =>
    (hh i).trans (if_pos (mem_visited.1 hi))
  obtain ⟨⟨⟨k', hm, h'⟩, hd, hq⟩, ha, hpending, -, hall, hc⟩ := passes_activePass bars time
    (visited visit b.activeOrders) h (nodup_dedup _) (fun i hi => mem_visited.1 hi) hh' hp
  obtain ⟨hu, hd', hq', hpo, hleft, hp'⟩ :=
    represents_untrack bars time (seconds time) closed h' hc
  rw [processActiveOrders, hp]
  refine ⟨⟨⟨k', hm, ?_⟩, hd.trans hd', hq'.trans hq⟩, fun i hi symbol => ?_⟩
  · rw [hleft, ha, hp', hpending]
    exact hu
  · have hact : i ∈ visited visit b.activeOrders := by
      rw [hh i] at hi
      split at hi
      · next hmem => exact mem_visited.2 hmem
      · cases hi
    rw [hpo]
    exact (hc i (hall i hact hi)).noPosition h' symbol

end

section

variable (bars : Bars) (time : Time) {position : Position} {request : CloseRequest}

theorem opened_of_position (h : Represents queue active b k) {symbol : String}
    (hpos : b.positions.lookup (symbol, id) = some position) :
    ∃ n lot order, k.slots id = .opened n lot ∧ Opened b id n lot order position ∧
      order.asset.symbol = symbol ∧ id ∉ b.terminalOrdersPendingRelease := by
  obtain ⟨n, lot, hs⟩ : ∃ n lot, k.slots id = .opened n lot := by
    by_contra hn
    have hno := noPosition_of_not_opened h fun n lot hs => hn ⟨n, lot, hs⟩
    exact absurd ((hno symbol).symm.trans hpos) nofun
  obtain ⟨order, held, ho, -, hk⟩ := h.opened hs
  obtain rfl : symbol = order.asset.symbol := by
    by_contra hne
    exact absurd ((ho.only symbol hne).symm.trans hpos) nofun
  obtain rfl := Option.some.inj (ho.held.symm.trans hpos)
  exact ⟨n, lot, order, hs, ho, rfl, hk⟩

theorem passes_finishClose {lot : Lot} {price qty : ℚ} {bar : Bar} (h : Stands b k)
    (hs : k.slots id = .opened n lot) (hh : agenda.hits id = none)
    (ho : Opened b id n lot order position) (hpos : 0 < qty) (hle : qty ≤ position.qty)
    (hbar : bars.lookup order.asset.symbol = some bar) (hr : request ∈ agenda.requests)
    (hid : request.orderId = order.orderId) (hprice : price = request.price.getD bar.close)
    (exitId : String)
    (heq : b' = (exited b order position price qty time).finishClose order exitId price
      (settleQty order position price qty time) (seconds time)) :
    Carries strays calm agenda bars time k b b' := by
  subst heq
  have hse : order.Alike order := ⟨rfl, rfl, rfl, rfl, rfl⟩
  have hw : order.qty = position.qty := ho.quantity.trans ho.is.qty.symm
  unfold finishClose
  by_cases hf : position.qty ≤ qty
  · obtain rfl := le_antisymm hle hf
    rw [if_pos (.inl (by exact decide_eq_true hf))]
    have hleft : id ∉ b.activeOrders.filter (· ≠ order.orderId) := by simp [ho.known.id]
    have hb : Booked b ((exited b order position price position.qty time).closeTerminally _) _ _ _
        _ := booked_closeTerminally (finishClose.closed order price
      (settleQty order position price position.qty time) (seconds time))
    refine ⟨.of_move ((h.closeOut hs ho hse (fun i _ hi => (mem_filter.1 hi).1)
      hleft (finishClose.closed order price (settleQty order position price position.qty time)
        (seconds time)) ho.known.id ho.known.submission rfl price time).imp
      fun _ hk => ⟨hk.1, ?_⟩), .single (.exit ho hbar hpos le_rfl
        (.closed hr hid hprice rfl rfl (ho.known.id ▸ hh)) hb), hb.queue⟩
    rw [closeTerminally, (fields_mark _ _).2.1]
    exact hk.2.of_eq rfl
  · have hl := lt_of_not_ge hf
    have hrest : max (order.qty - qty) 0 = position.qty - qty := by
      rw [hw, max_eq_left (sub_nonneg.2 hle)]
    have hop : ¬ ((settleQty order position price qty time).fullyClosed = true ∨
        max (order.qty - (settleQty order position price qty time).qty) 0 ≤ 0) := by
      rintro (hc | hz)
      · exact hf (of_decide_eq_true hc)
      · exact absurd (sub_pos.2 hl) (not_lt.2 (hrest.symm.trans_le hz))
    rw [if_neg hop]
    exact ⟨.of_move (h.reduceTo hs ho hpos hl
      (finishClose.remaining order _ (seconds time)) _ ⟨rfl, rfl, rfl, rfl, ho.status.symm⟩
      hrest ho.known.submission), .single (.exit ho hbar hpos hle
        (.reduced exitId hr hid hprice hl rfl) (booked_exited _ ⟨_, .partialFilled⟩)), rfl⟩

theorem fields_finishClose (b : PaperBroker) (order : Order) (exitId : String) (price : ℚ)
    (result : ClosePositionResult) (now : Nat) :
    (b.finishClose order exitId price result now).positions = b.positions ∧
      (b.finishClose order exitId price result now).tradeLog = b.tradeLog := by
  unfold finishClose
  split
  · unfold closeTerminally markOrderTerminalForRelease
    split <;> exact ⟨rfl, rfl⟩
  · exact ⟨rfl, rfl⟩

theorem noPosition_processCloseRequest (h : NoPosition b id) (exitId : String) :
    NoPosition (processCloseRequest bars time b request exitId) id := by
  intro symbol
  unfold processCloseRequest
  split
  · exact h symbol
  next order _ =>
  split
  · exact h symbol
  split
  · exact h symbol
  next heq =>
  obtain ⟨position, hpos, hex⟩ := map_eq_some_iff.1 heq
  cases hex
  rw [(fields_finishClose _ _ _ _ _ _).1]
  refine (lookup_exited fun hkey => ?_).trans (h symbol)
  obtain ⟨-, rfl⟩ := Prod.ext_iff.1 hkey
  exact absurd ((h _).symm.trans hpos) nofun

theorem passes_processCloseRequest (h : Stands b k) (hr : request ∈ agenda.requests)
    (hh : ∀ i, (agenda.hits i).isSome → NoPosition b i) (exitId : String)
    (heq : b' = processCloseRequest bars time b request exitId) :
    Carries strays calm agenda bars time k b b' := by
  subst heq
  unfold processCloseRequest
  split
  · exact h.passes
  next _ hf =>
  split
  · exact h.passes
  next _ hbar =>
  have hid := (h.known hf).id
  cases hs : k.slots request.orderId with
  | opened n lot =>
    obtain ⟨o, position, ho, -, -⟩ := h.opened hs
    obtain rfl := Option.some.inj (ho.known.found.symm.trans hf)
    have hpos : 0 < position.qty := ho.is.qty ▸ lot.qty.2
    have hn : agenda.hits request.orderId = none := by
      rw [← not_isSome_iff_eq_none]
      exact fun hi => absurd ((hh _ hi _).symm.trans ho.held) nofun
    rw [closePositionForOrder, hid, ho.held]
    exact passes_finishClose bars time h hs hn ho (requestedQty_pos hpos request.qty)
      (requestedQty_le position request.qty) hbar hr hid.symm rfl exitId rfl
  | _ =>
    have hn : NoPosition b request.orderId := noPosition_of_not_opened h (by rw [hs]; exact nofun)
    rw [closePositionForOrder, hid, hn]
    exact h.passes

theorem passes_closePass (exitIds : Nat → String) (items : List (CloseRequest × Nat))
    (h : Stands b k) (hr : ∀ item ∈ items, item.1 ∈ agenda.requests)
    (hh : ∀ i, (agenda.hits i).isSome → NoPosition b i) :
    Carries strays calm agenda bars time k b (items.foldl
      (fun b item => processCloseRequest bars time b item.1 (exitIds item.2)) b) := by
  induction items generalizing b k with
  | nil => exact h.passes
  | cons item items ih =>
    exact (passes_processCloseRequest bars time h (hr item mem_cons_self) hh (exitIds item.2)
      rfl).trans fun _ h' => ih h' (fun item hi => hr item (mem_cons_of_mem _ hi)) fun i hi =>
        noPosition_processCloseRequest bars time (hh i hi) _

/-- A mark changes what a position is worth, and nothing that a book shows. -/
theorem represents_updateAccountBalance (h : Represents queue active b k) :
    Represents queue active (updateAccountBalance bars b) k := by
  have hl : ∀ key, (markPositions bars b.positions).lookup key =
      (b.positions.lookup key).map fun position =>
        (bars.lookup key.1).elim position position.mark := Table.lookup_mapKeyed b.positions _
  have hma : totalMarginHeld (markPositions bars b.positions) = totalMarginHeld b.positions :=
    Table.sum_mapKeyed (fun key position => by cases bars.lookup key.1 <;> rfl) b.positions
  have hn : ∀ {i symbol}, b.positions.lookup (symbol, i) = none →
      (markPositions bars b.positions).lookup (symbol, i) = none := by
    intro i symbol hi
    rw [hl, hi, map_none]
  have ht := h.tallies
  refine ⟨⟨ht.1, ht.2, hma.trans ht.3, ht.4, ht.5, ht.6, ht.7, ht.8⟩, h.nodup, fun i => ?_⟩
  have hs := h.slot i
  generalize k.slots i = slot at hs ⊢
  cases hs with
  | vacant order position queued watched kept =>
    exact .vacant order (fun symbol => hn (position symbol)) queued watched kept
  | pending known status quantity position watched kept =>
    exact .pending ⟨known.1, known.2, known.3⟩ status quantity
      (fun symbol => hn (position symbol)) watched kept
  | @opened n lot order position h queued kept =>
    have hm : ((bars.lookup order.asset.symbol).elim position position.mark).Is lot ∧
        ((bars.lookup order.asset.symbol).elim position position.mark).Carried b.leverage := by
      cases bars.lookup order.asset.symbol with
      | none => exact ⟨h.is, h.carried⟩
      | some bar => exact ⟨⟨h.is.side, h.is.price, h.is.qty⟩, h.carried.mark bar⟩
    exact .opened ⟨⟨h.known.1, h.known.2, h.known.3⟩, h.status, h.quantity,
      by rw [updateAccountBalance, hl, h.held]; rfl,
      fun symbol hne => hn (h.only symbol hne), hm.1, hm.2⟩ queued kept
  | ended known position watched status =>
    exact .ended ⟨known.1, known.2, known.3⟩ (fun symbol => hn (position symbol)) watched status

end

def Action.bars : Action → Option (Bars × Time)
  | .step bars time _ _ => some (bars, time)
  | .flush bars time _ => some (bars, time)
  | _ => none

/-- The broker when an action has come to the close requests and taken those
of `queue`. -/
def closing (b : PaperBroker) (queue : List CloseRequest) : Action → PaperBroker
  | .step bars time visit exitIds =>
    closePass bars time exitIds (processActiveOrders bars time visit
      (processPendingOrders bars time { b with currentTime := time })) queue
  | .flush bars time exitIds => closePass bars time exitIds { b with currentTime := time } queue
  | _ => b

/-- The bars that the account is valued at. -/
def seen (b : PaperBroker) : Action → Bars
  | .step bars _ _ _ => bars
  | .flush bars _ _ => if b.closeOrdersQueue = [] then ∅ else bars
  | _ => ∅

/-- The watched orders with a leg that is hit by an action, as they are after
the fills of the action, with the price of the leg. -/
def legHits (b : PaperBroker) : Action → String → Option ℚ
  | .step bars time _ _, id =>
    let b := processPendingOrders bars time { b with currentTime := time }
    if id ∈ b.activeOrders then (b.orders.lookup id).bind (legHit bars time) else none
  | _, _ => none

variable {bars : Bars} {time : Time} {action : Action} {requests : List CloseRequest}

theorem passes_closing (h : Stands b k) (hbar : action.bars = some (bars, time))
    {pre : List CloseRequest} (hr : ∀ request ∈ pre, request ∈ requests) :
    Carries strays calm ⟨requests, b.legHits action⟩ bars time k b (b.closing pre action) := by
  have ht : ∀ {agenda}, Carries strays calm agenda bars time k b { b with currentTime := time } :=
    Represents.passes_mild (h.of_eq rfl) (.same rfl ⟨rfl, rfl⟩ rfl rfl) (fun _ h => h) rfl
  have hp : ∀ {c k' exitIds hits}, Stands c k' → (∀ i, (hits i).isSome → NoPosition c i) →
      Carries strays calm ⟨requests, hits⟩ bars time k' c (closePass bars time exitIds c pre) :=
    fun h hh => passes_closePass bars time _ _ h (fun _ hi => hr _ (fst_mem_of_mem_zipIdx hi)) hh
  cases action with
  | step bars time visit exitIds =>
    cases hbar
    refine ht.trans fun _ h => (passes_processPendingOrders bars time h).trans fun _ h => ?_
    obtain ⟨hc, hno⟩ : Carries strays calm ⟨requests, b.legHits (.step bars time visit exitIds)⟩
        bars time _ _ _ ∧ _ := passes_processActiveOrders bars time visit h fun _ => rfl
    exact hc.trans fun _ h => hp h hno
  | flush bars time exitIds =>
    cases hbar
    exact ht.trans fun _ h => hp h nofun
  | _ => cases hbar

theorem act_closing (h : Stands b k) (hbar : action.bars = some (bars, time)) :
    (b.closeOrdersQueue = [] ∧ b.seen action = ∅ ∧ b.act action = b) ∨
      b.seen action = bars ∧ b.act action = updateAccountBalance bars
        { b.closing b.closeOrdersQueue action with closeOrdersQueue := [] } := by
  cases action with
  | step bars time visit exitIds =>
    cases hbar
    refine .inr ⟨rfl, ?_⟩
    have hp : ∀ pre, Carries (fun _ => True) False ⟨pre, _⟩ bars time k b
        (b.closing pre (.step bars time visit exitIds)) := fun pre =>
      passes_closing h rfl fun _ h => h
    obtain ⟨k', -, h'⟩ := (hp b.closeOrdersQueue).reaches
    have hu : ∀ c : PaperBroker, c.updateOrdersQueue = [] →
        processUpdateQueue (seconds time) { c with closeOrdersQueue := [] } =
          { c with closeOrdersQueue := [] } := by
      rintro ⟨⟩ rfl
      rfl
    have hq : (processActiveOrders bars time visit (processPendingOrders bars time
        { b with currentTime := time })).closeOrdersQueue = b.closeOrdersQueue := (hp []).queue
    rw [act, processStep, processCloseQueue, hq]
    exact congrArg _ (hu _ h'.tallies.updates)
  | flush bars time exitIds =>
    cases hbar
    rw [act, processCloseQueueAt]
    split
    · next hq => exact .inl ⟨hq, if_pos hq, rfl⟩
    · next hq => exact .inr ⟨if_neg hq, rfl⟩
  | _ => cases hbar

end PaperBroker

end AqEngine.Paper
