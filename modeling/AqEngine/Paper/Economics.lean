import AqEngine.Paper.Ledgers

namespace AqEngine.Paper

open Lib PaperBroker List Table
open Broker (OrderSide TradeUpdateEvent Time)

variable {calm : Prop} {agenda : Agenda} {bars : Bars} {bar : Bar} {time : Time}
  {b b' : PaperBroker} {id : String} {order left : Order} {position : Position} {price qty : ℚ}
  {record entry : TradeRecord} {log exits : List TradeRecord} {event : TradeEvent}

/-- What an order reports of its last exit alone. -/
structure Order.Alone (order : Order) (entry exit : TradeRecord) : Prop where
  realizedPnl : order.realizedPnl = some (entry.net exit)
  commission : order.commission =
    some (entry.commission * exit.qty / entry.qty + exit.commission)
  swap : order.swap = some exit.swap

theorem Order.Alone.totals (h : order.Alone entry record) (hpos : 0 < entry.qty)
    (hqty : record.qty = entry.qty) : order.Totals entry [record] where
  realizedPnl := by simpa using h.realizedPnl
  commission := by simpa [hqty, mul_div_cancel_right₀ _ hpos.ne'] using h.commission
  swap := by simpa using h.swap

theorem Ledger.totals (h : Ledger log id order position entry exits) (hpos : 0 < position.qty)
    (hou : Outcome agenda bar time order position price qty left event)
    (hc : event.event = .closed) :
    (agenda.hits order.orderId = none ∨ exits = [] →
      event.order.Totals entry (exits ++ [exitOf order position price qty time])) ∧
    ∀ p, agenda.hits order.orderId = some p → price = p ∧
      event.order.Alone entry (exitOf order position price qty time) := by
  cases hou with
  | leg _ _ whole hleft hit =>
    have ha : left.Alone entry (exitOf order position price qty time) := by
      subst hleft
      refine ⟨congrArg some (h.netPnl_eq hpos price qty time), ?_, rfl⟩
      rw [show (exitOf order position price qty time).qty = qty from rfl, ← h.entryShare_eq hpos]
      rfl
    refine ⟨?_, fun p hp => ⟨Option.some.inj (hit.symm.trans hp), ha⟩⟩
    rintro (hn | rfl)
    · exact absurd (hit.symm.trans hn) nofun
    · have hqty : position.qty = entry.qty := by simpa using h.qty
      exact ha.totals h.positive (whole.trans hqty)
  | closed _ _ _ _ hleft missed =>
    have ht := h.noteExit hpos price qty time (seconds time)
    exact ⟨fun _ => hleft ▸ { ht with }, fun p hp => absurd (missed.symm.trans hp) nofun⟩
  | reduced => cases hc

theorem Outcome.closes (h : Outcome agenda bar time order position price qty left event)
    (hc : event.event = .closed) : event.order.orderId = order.orderId ∧ qty = position.qty := by
  cases h with
  | leg _ _ whole hleft | closed _ _ _ whole hleft => exact ⟨hleft ▸ rfl, whole⟩
  | reduced => cases hc

/-- What is reported when an action closes an order. If the bar hits a leg of
it, its last exit is reported alone, and otherwise all its exits are. -/
theorem closed_order_economics (cash : ℚ) (leverage : Nat) (fees : AssetFees)
    (actions : List Action) (action : Action) (events : List TradeEvent) (e : TradeEvent) :
    let b := (PaperBroker.new cash leverage fees).run actions
    (b.act action).emitted = b.emitted ++ events → e ∈ events → e.event = .closed →
    ∃ log record entry exits, b.tradeLog <+: log ∧ log ++ [record] <+: (b.act action).tradeLog ∧
      Trip (log ++ [record]) e.order.orderId entry (exits ++ [record]) ∧
      ((exits ++ [record]).map TradeRecord.qty).sum = entry.qty ∧
      (b.legHits action e.order.orderId = none ∨ exits = [] →
        e.order.Totals entry (exits ++ [record])) ∧
      ∀ price, b.legHits action e.order.orderId = some price →
        record.price = price ∧ e.order.Alone entry record := by
  intro b hevents he hclosed
  obtain ⟨k, hst⟩ := stands_run cash leverage fees actions
  obtain ⟨bars, time, c, c', -, hled, hrep⟩ := act_reported hst
    (fun _ _ _ _ _ h hdeed => Ledgers.deed h hdeed) (ledgers_run cash leverage fees actions)
    hevents he (by simp [TradeEvent.isTrade, hclosed])
  cases hrep.deed with
  | mild hmild =>
    have hno := hmild.no_trade hrep.new
    simp [TradeEvent.isTrade, hclosed] at hno
  | fill _ _ _ _ _ _ _ _ hbo =>
    obtain rfl := hbo.event_eq hrep.new
    cases hclosed
  | @exit id n _ order _ position _ _ _ _ hop _ hpos _ hou hbo =>
    obtain rfl := hbo.event_eq hrep.new
    obtain ⟨entry, exits, hl⟩ := hled.held id order position ⟨hop.known.found, hop.held⟩
    obtain ⟨hid, rfl⟩ := hou.closes hclosed
    rw [hid]
    refine ⟨c.tradeLog, _, entry, exits, hrep.before, hbo.log ▸ hrep.after, ?_, ?_,
      hl.totals hpos hou hclosed⟩
    · rw [hop.known.id]
      exact hl.trip.exited rfl hop.known.id
    · have hqty := hl.qty
      simp only [map_append, sum_append, map_cons, map_nil, sum_singleton,
        exitOf, exitRecord, settleQty]
      linarith

/-- An order of two units at 10 gives up one at 11 and one at its take profit
of 20. Its exits bring 1 and 10, and the last event says 10. -/
theorem closed_by_leg_forgets :
    let b := sampleRun .bracket [.close "entry" 1 none, sampleStep, barStep "X" ⟨15, 25, 15, 25⟩]
    b.tradeLog.map (·.qty) = [2, 1, 1] ∧ b.tradeLog.map (·.grossPnl) = [0, 1, 10] ∧
      (∀ record ∈ b.tradeLog, record.commission = 0 ∧ record.swap = 0) ∧
      (b.emitted.filter (·.event = .closed)).map (·.order.realizedPnl) = [some 10] := by
  decide +kernel

def askedCloses : List Action :=
  sampleEntry .simple ++ [.close "entry" 1 none, sampleStep, .close "entry" 0 none]

theorem closed_order_economics_asked :
    ∃ e ∈ (((PaperBroker.new 100 1 {}).run askedCloses).act sampleStep).emitted.drop 3,
      e.event = .closed ∧ ∃ entry exits, e.order.Totals entry exits := by
  obtain ⟨e, he, hclosed, hmissed⟩ : ∃ e ∈ (((PaperBroker.new 100 1 {}).run askedCloses).act
      sampleStep).emitted.drop 3, e.event = .closed ∧
      ((PaperBroker.new 100 1 {}).run askedCloses).legHits sampleStep e.order.orderId = none := by
    decide +kernel
  obtain ⟨log, record, entry, exits, -, -, -, -, htotals, -⟩ :=
    closed_order_economics 100 1 {} askedCloses sampleStep _ e (by decide +kernel) he hclosed
  exact ⟨e, he, hclosed, entry, _, htotals (.inl hmissed)⟩

/-- What a trade takes out of the buying power for its position, and negative
what it gives back. The entry price of an exit is read off its profit. -/
def TradeRecord.outlay (record : TradeRecord) : ℚ :=
  match record.tradeType, record.side with
  | .entry, _ => record.price * record.qty
  | .exit, .buy => -(record.price * record.qty - record.grossPnl)
  | .exit, .sell => -(record.price * record.qty + record.grossPnl)

def outlays (log : List TradeRecord) : ℚ := (log.map TradeRecord.outlay).sum

/-- What a trade adds to the buying power, where nothing is cut off. -/
def TradeRecord.credit (record : TradeRecord) : ℚ :=
  record.grossPnl + record.swap - record.commission - record.outlay

def credits (log : List TradeRecord) : ℚ := (log.map TradeRecord.credit).sum

/-- The buying power that trades leave of `power`. It does not fall below zero. -/
def powerAfter (power : ℚ) (log : List TradeRecord) : ℚ :=
  log.foldl (fun power record => max (power + record.credit) 0) power

/-- No trade takes more than the buying power before it. -/
def covered : ℚ → List TradeRecord → Bool
  | _, [] => true
  | power, record :: rest => 0 ≤ power + record.credit && covered (power + record.credit) rest

/-- The buying power of a broker that started with `power`, and what is laid
out for its positions. -/
structure Funded (power : ℚ) (b : PaperBroker) : Prop where
  outlay : outlays b.tradeLog =
    b.positions.sum fun position => position.avgEntryPrice * position.qty
  power : b.account.buyingPower = powerAfter power b.tradeLog

variable {power : ℚ}

theorem credits_eq (log : List TradeRecord) : credits log =
    (log.map fun record => record.grossPnl + record.swap).sum - commissions log - outlays log := by
  induction log with
  | nil => simp [credits, commissions, outlays]
  | cons record log ih =>
    simp only [credits, commissions, outlays, map_cons, sum_cons, TradeRecord.credit] at ih ⊢
    linarith

theorem le_powerAfter (power : ℚ) (log : List TradeRecord) :
    power + credits log ≤ powerAfter power log := by
  induction log generalizing power with
  | nil => simp [credits, powerAfter]
  | cons record log ih =>
    calc power + credits (record :: log) = power + record.credit + credits log := by
          simp only [credits, map_cons, sum_cons]
          ring
      _ ≤ max (power + record.credit) 0 + credits log := by gcongr; exact le_max_left _ _
      _ ≤ powerAfter power (record :: log) := ih _

/-- What was cut off once is never taken back. -/
theorem powerAfter_eq_iff (power : ℚ) (log : List TradeRecord) :
    powerAfter power log = power + credits log ↔ covered power log = true := by
  induction log generalizing power with
  | nil => simp [credits, powerAfter, covered]
  | cons record log ih =>
    have hc : power + credits (record :: log) = power + record.credit + credits log := by
      simp only [credits, map_cons, sum_cons]
      ring
    have hp : powerAfter power (record :: log) = powerAfter (max (power + record.credit) 0) log :=
      rfl
    rw [hc, hp, covered, Bool.and_eq_true, decide_eq_true_eq]
    obtain hlt | hle := lt_or_ge (power + record.credit) 0
    · have hexcess := le_powerAfter 0 log
      rw [max_eq_right hlt.le]
      exact ⟨fun heq => by linarith, fun h => absurd h.1 (not_le.2 hlt)⟩
    · rw [max_eq_left hle, ih]
      exact (and_iff_right hle).symm

theorem outlay_exitOf (hside : position.side = order.side) (price qty : ℚ) (time : Time) :
    (exitOf order position price qty time).outlay = -(position.avgEntryPrice * qty) := by
  cases hs : order.side <;>
  · simp [TradeRecord.outlay, exitOf, exitRecord, settleQty, hs, hside, grossPnl]
    ring

theorem Funded.booked {booked : PaperBroker} (h : Funded power b)
    (hb : Booked b b' booked left record event)
    (hpos : (booked.positions.sum fun position => position.avgEntryPrice * position.qty) =
      (b.positions.sum fun position => position.avgEntryPrice * position.qty) + record.outlay)
    (hp : booked.account.buyingPower = max (b.account.buyingPower + record.credit) 0) :
    Funded power b' := by
  refine ⟨?_, ?_⟩
  · rw [hb.log, hb.positions, hpos, ← h.outlay]
    simp [outlays]
  · rw [hb.log, hb.account, hp, h.power]
    simp [powerAfter]

theorem Funded.mild (h : Funded power b) (hm : Mild calm b b') : Funded power b' := by
  refine ⟨?_, ?_⟩
  · rw [hm.log, hm.quiet.2]
    exact h.outlay
  · rw [hm.log, hm.quiet.1]
    exact h.power

theorem Funded.deed (h : Funded power b) (hle : Ledgers b)
    (hd : Deed calm agenda bars time b b') : Funded power b' := by
  cases hd with
  | mild hm => exact h.mild hm
  | @fill id order _ price _ _ hid _ _ vacant _ _ hfilled hb =>
    have hf := fills_fillOrder order price (seconds time)
    rw [← hfilled] at hf
    refine h.booked hb (sum_insert ?_) (congrArg (max · 0) ?_)
    · rw [hf.id, hid]
      exact vacant _
    · simp only [entryRecord, TradeRecord.credit, TradeRecord.outlay]
      ring
  | @exit id n _ order _ position _ price qty _ ho _ _ le _ hb =>
    obtain ⟨entry, exits, hl⟩ := hle.held id order position ⟨ho.known.found, ho.held⟩
    have hou := outlay_exitOf (hl.side.trans hl.orderSide.symm) price qty time
    have hh := ho.held
    rw [← ho.known.id] at hh
    refine h.booked hb ?_ (congrArg (max · 0) ?_)
    · rw [hou]
      change Table.sum _ (if _ then _ else _) = _
      split
      · next hfu => rw [Table.sum_erase hh, le_antisymm le (of_decide_eq_true hfu), sub_eq_add_neg]
      · rw [sum_replace hh]
        simp only [reducedPosition, settleQty]
        ring
    · rw [TradeRecord.credit, hou]
      simp only [exitOf, exitRecord, settleQty]
      ring

theorem Funded.balance (h : Funded power b) (bars : Bars) :
    Funded power (updateAccountBalance bars b) := by
  refine ⟨h.outlay.trans (sum_mapKeyed (fun key _ => ?_) _).symm, h.power⟩
  cases bars.lookup key.1 <;> rfl

theorem funded_run (cash : ℚ) (leverage : Nat) (fees : AssetFees) (actions : List Action) :
    Funded (cash * leverage) ((PaperBroker.new cash leverage fees).run actions) := by
  have hn : Funded (cash * leverage) (PaperBroker.new cash leverage fees) :=
    ⟨rfl, rfl⟩
  refine (run_invariant (P := fun b => Ledgers b ∧ Funded (cash * leverage) b)
    (fun _ _ h hm => ⟨h.1.mild hm, h.2.mild hm⟩)
    (fun _ _ _ _ _ h hd => ⟨h.1.deed hd, h.2.deed h.1 hd⟩)
    (fun bars _ h => ⟨h.1.balance bars, h.2.balance bars⟩) (stands_new cash leverage fees) actions
    False.elim ⟨ledgers_run cash leverage fees [], hn⟩).2

/-- The buying power is what the trades leave of it. Once every position is
closed, nothing was created if and only if no trade took more than there was
before it. -/
theorem buying_power_conserved (cash : ℚ) (leverage : Nat) (fees : AssetFees)
    (actions : List Action) :
    let b := (PaperBroker.new cash leverage fees).run actions
    b.account.buyingPower = powerAfter (cash * leverage) b.tradeLog ∧
    (b.positions.entries = [] →
      (b.account.buyingPower = cash * leverage +
        (b.tradeLog.map fun record => record.grossPnl + record.swap).sum -
          commissions b.tradeLog ↔ covered (cash * leverage) b.tradeLog = true)) := by
  intro b
  obtain ⟨hou, hp⟩ := funded_run cash leverage fees actions
  refine ⟨hp, fun hflat => ?_⟩
  have hz : outlays b.tradeLog = 0 := by
    rw [hou, Table.sum, hflat]
    rfl
  rw [← powerAfter_eq_iff, ← hp, credits_eq, hz, sub_zero, add_sub_assoc]

def costlyFees : AssetFees := { entry := .fixedFee 5, exit := .fixedFee 5 }

def ask (id : String) (qty : ℚ) : Action :=
  .submit { sampleRequest .simple none with clientOrderId := id, quantity := some qty } sampleIds

/-- A gain of 100 is put to use in full: the entry fee of the second order is
cut off, and all that it paid comes back. Of 200 + 100 - 20 there are 285. -/
theorem buying_power_created :
    let b := (PaperBroker.new 100 2 costlyFees).run [ask "one" 10, barStep "X" ⟨10, 20, 10, 20⟩,
      .close "one" 0 none, barStep "X" ⟨20, 20, 20, 20⟩, ask "two" 29, barStep "X" ⟨10, 10, 10, 10⟩,
      .close "two" 0 none, barStep "X" ⟨10, 10, 10, 10⟩]
    b.positions.entries = [] ∧ (b.tradeLog.map (·.grossPnl)).sum = 100 ∧
    commissions b.tradeLog = 20 ∧
      (∀ record ∈ b.tradeLog, record.swap = 0) ∧ b.account.buyingPower = 285 := by
  decide +kernel

theorem buying_power_conserved_short :
    ((PaperBroker.new 100 2 costlyFees).run [ask "one" 10, sampleStep, .close "one" 0 none,
      sampleStep]).account.buyingPower = 200 := by
  refine (((buying_power_conserved 100 2 costlyFees _).2 ?_).2 ?_).trans ?_
  all_goals decide +kernel

end AqEngine.Paper
