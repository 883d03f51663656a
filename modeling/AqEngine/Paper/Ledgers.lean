import AqEngine.Paper.Runs
import Mathlib.Tactic.FieldSimp
import Mathlib.Tactic.LinearCombination

namespace AqEngine.Paper

open Lib PaperBroker List Table
open Broker (OrderSide TradeUpdateEvent Time)

variable {calm : Prop} {agenda : Agenda} {bars : Bars} {bar : Bar} {time : Time}
  {b b' : PaperBroker} {id i : String} {n : Nat} {lot : Lot} {order order' filled left : Order}
  {position position' : Position} {price qty : ℚ} {record entry : TradeRecord}
  {log exits : List TradeRecord} {event : TradeEvent}

structure Held (b : PaperBroker) (id : String) (order : Order) (position : Position) : Prop where
  found : b.orders.lookup id = some order
  position : b.positions.lookup (order.asset.symbol, id) = some position

theorem PaperBroker.Mild.held (h : Mild calm b b') (hh : Held b' id order' position) :
    ∃ order, Held b id order position ∧ order.Goes calm order' := by
  obtain ⟨hf, hpos⟩ := hh
  rw [h.quiet.2] at hpos
  obtain ⟨order, hold, hg⟩ | ⟨-, hn, -⟩ := h.order id order' hf
  · exact ⟨order, ⟨hold, hg.symbol ▸ hpos⟩, hg⟩
  · exact absurd ((hn _).symm.trans hpos) nofun

theorem Booked.held_entered (h : Booked b b' (b.openPosition filled price) filled record event)
    (hh : Held b' i order position) :
    (i = filled.orderId ∧ order = filled ∧ position = openedPosition b.leverage filled price) ∨
      (i ≠ filled.orderId ∧ Held b i order position) := by
  obtain ⟨hf, hpos⟩ := hh
  rw [h.orders] at hf
  rw [h.positions] at hpos
  obtain ⟨rfl, rfl⟩ | ⟨hne, hf⟩ := lookup_insert_cases hf
  · have hn := hpos.symm.trans (AList.lookup_insert b.positions)
    exact .inl ⟨rfl, rfl, Option.some.inj hn⟩
  · refine .inr ⟨hne, hf, ?_⟩
    rw [← hpos]
    exact (AList.lookup_insert_ne fun heq => hne (Prod.ext_iff.1 heq).2).symm

theorem Booked.held_exited (ho : Opened b id n lot order position)
    (h : Booked b b' (exited b order position price qty time) left record event)
    (hleft : left.orderId = order.orderId ∧ left.asset = order.asset)
    (hh : Held b' i order' position') :
    (i = id ∧ order' = left ∧ qty < position.qty ∧ position' =
      reducedPosition b.leverage position (settleQty order position price qty time)) ∨
      (i ≠ id ∧ Held b i order' position') := by
  obtain ⟨hf, hpos⟩ := hh
  rw [h.orders, hleft.1, ho.known.id] at hf
  rw [h.positions] at hpos
  obtain ⟨rfl, rfl⟩ | ⟨hne, hf⟩ := lookup_insert_cases hf
  · rw [hleft.2] at hpos
    change AList.lookup _ (if _ then _ else _) = _ at hpos
    rw [ho.known.id] at hpos
    split at hpos
    · rw [AList.lookup_erase] at hpos
      cases hpos
    · next hp =>
      rw [AList.lookup_insert] at hpos
      exact .inl ⟨rfl, rfl, by simpa [settleQty] using hp, (Option.some.inj hpos).symm⟩
  · refine .inr ⟨hne, hf, ?_⟩
    rw [← hpos]
    exact (lookup_exited fun heq => hne ((Prod.ext_iff.1 heq).2.trans ho.known.id)).symm

/-- The profit of an exit after all fees. The commission of the entry is
shared out by quantity. -/
def TradeRecord.net (entry exit : TradeRecord) : ℚ :=
  entry.gain exit + exit.swap - exit.commission - entry.commission * exit.qty / entry.qty

/-- What the log says of an open order. -/
structure Ledger (log : List TradeRecord) (id : String) (order : Order) (position : Position)
    (entry : TradeRecord) (exits : List TradeRecord) : Prop where
  trip : Trip log id entry exits
  side : position.side = entry.side
  orderSide : order.side = entry.side
  price : position.avgEntryPrice = entry.price
  qty : position.qty = entry.qty - (exits.map TradeRecord.qty).sum
  share : position.entryCommission * entry.qty = entry.commission * position.qty
  positive : 0 < entry.qty
  fee : 0 ≤ entry.commission
  commission : order.commission = some (entry.commission + (exits.map TradeRecord.commission).sum)
  realizedPnl : order.realizedPnl.getD 0 = (exits.map entry.net).sum
  swap : order.swap.getD 0 = (exits.map TradeRecord.swap).sum

structure Ledgers (b : PaperBroker) : Prop where
  pending : ∀ id order, b.orders.lookup id = some order → order.status = .pending →
    order.realizedPnl = none ∧ order.swap = none
  held : ∀ id order position, Held b id order position →
    ∃ entry exits, Ledger b.tradeLog id order position entry exits
  priced : Priced b.tradeLog

theorem calculateWithContract_nonneg (fee : AssetFee) (price qty : ℚ) (size : Option Int) :
    0 ≤ fee.calculateWithContract price qty size := by
  have hu : 0 ≤ contractUnits size := le_max_of_le_right zero_le_one
  cases fee <;> simp only [AssetFee.calculateWithContract, le_refl] <;> split <;> try exact le_rfl
  · next h => exact mul_nonneg (by positivity) h.1.le
  · next h => exact h.le
  · next h => exact mul_nonneg h.le (abs_nonneg qty)
  · next h => exact mul_nonneg (by positivity) h.1.le

theorem entryCommissionForSide_nonneg (fees : AssetFees) (side : OrderSide) (price qty : ℚ)
    (size : Option Int) : 0 ≤ fees.entryCommissionForSide side price qty size := by
  unfold AssetFees.entryCommissionForSide AssetFees.commissionForSide
  split <;> exact calculateWithContract_nonneg _ _ _ _

theorem Ledger.entryShare_eq (h : Ledger log id order position entry exits)
    (hpos : 0 < position.qty) (q : ℚ) :
    entryShare position q = entry.commission * q / entry.qty := by
  have hne := h.positive.ne'
  have hs := h.share
  rw [entryShare, if_pos hpos]
  field_simp
  linear_combination q * hs

theorem Ledger.grossPnl_eq (h : Ledger log id order position entry exits) (price qty : ℚ)
    (time : Time) : (exitOf order position price qty time).grossPnl =
      entry.gain (exitOf order position price qty time) := by
  simp only [exitOf, exitRecord, settleQty, h.side, h.price, TradeRecord.gain]
  cases entry.side <;>
  · simp only [grossPnl, sign]
    ring

theorem Ledger.netPnl_eq (h : Ledger log id order position entry exits) (hpos : 0 < position.qty)
    (price qty : ℚ) (time : Time) : (settleQty order position price qty time).netPnl =
      entry.net (exitOf order position price qty time) := by
  rw [TradeRecord.net, ← h.grossPnl_eq]
  simp only [settleQty, exitOf, exitRecord, h.entryShare_eq hpos qty]
  ring

/-- The totals of an order after the exits from its position. -/
structure Order.Totals (order : Order) (entry : TradeRecord) (exits : List TradeRecord) : Prop where
  realizedPnl : order.realizedPnl = some (exits.map entry.net).sum
  commission : order.commission = some (entry.commission + (exits.map TradeRecord.commission).sum)
  swap : order.swap = some (exits.map TradeRecord.swap).sum

section

variable (h : Ledger log id order position entry exits)
include h

theorem Ledger.noteExit (hpos : 0 < position.qty)
    (price qty : ℚ) (time : Time) (now : Nat) :
    (order.noteExit (settleQty order position price qty time) now).Totals entry
      (exits ++ [exitOf order position price qty time]) where
  realizedPnl := by
    simp [Order.noteExit, h.realizedPnl, h.netPnl_eq hpos]
  commission := by
    simp [Order.noteExit, h.commission, add_assoc, exitOf, exitRecord]
  swap := by
    simp [Order.noteExit, h.swap, exitOf, exitRecord]

theorem Ledger.entryCommission_eq :
    position.entryCommission = entry.commission * position.qty / entry.qty :=
  eq_div_of_mul_eq h.positive.ne' h.share

theorem Ledger.reduce
    (hid : order.orderId = id) (hpos : 0 < position.qty) (hl : qty < position.qty)
    (leverage : Nat) (price : ℚ) (time : Time) :
    Ledger (log ++ [exitOf order position price qty time]) id
      (finishClose.remaining order (settleQty order position price qty time) (seconds time))
      (reducedPosition leverage position (settleQty order position price qty time)) entry
      (exits ++ [exitOf order position price qty time]) := by
  have ht := h.noteExit hpos price qty time (seconds time)
  have hf : position.entryCommission - entryShare position qty =
      entry.commission * (position.qty - qty) / entry.qty := by
    rw [h.entryShare_eq hpos, h.entryCommission_eq]
    ring
  have hrest : 0 ≤ entry.commission * (position.qty - qty) / entry.qty :=
    div_nonneg (mul_nonneg h.fee (sub_pos.2 hl).le) h.positive.le
  refine ⟨h.trip.exited rfl hid, h.side, h.orderSide, h.price, ?_, ?_, h.positive, h.fee,
    ht.commission, ?_, ?_⟩
  · simp only [reducedPosition, settleQty, h.qty, map_append, sum_append, map_cons,
      map_nil, sum_singleton, exitOf, exitRecord]
    ring
  · simp only [reducedPosition, settleQty, hf, max_eq_left hrest]
    exact div_mul_cancel₀ _ h.positive.ne'
  · exact congrArg (Option.getD · 0) ht.realizedPnl
  · exact congrArg (Option.getD · 0) ht.swap

end

theorem Ledger.enter (order : Order) (hqty : 0 < order.qty) (hn : order.realizedPnl = none)
    (hs : order.swap = none) (leverage : Nat) (price : ℚ) (time : Time) :
    Ledger (log ++ [entryRecord (fillOrder order price (seconds time)) price time]) order.orderId
      (fillOrder order price (seconds time))
      (openedPosition leverage (fillOrder order price (seconds time)) price)
      (entryRecord (fillOrder order price (seconds time)) price time) [] := by
  have hfi := fills_fillOrder order price (seconds time)
  have hf : ∃ fee, 0 ≤ fee ∧ (fillOrder order price (seconds time)).commission = some fee ∧
      (fillOrder order price (seconds time)).realizedPnl = none ∧
      (fillOrder order price (seconds time)).swap = none := by
    refine ⟨_, entryCommissionForSide_nonneg order.asset.fees order.side price order.qty
      order.asset.contractSize, ?_⟩
    unfold fillOrder
    split
    · exact ⟨rfl, hn, hs⟩
    · exact ⟨rfl, hn, hs⟩
  obtain ⟨fee, hf, hc, hp, hsw⟩ := hf
  refine ⟨.entered rfl hfi.id, rfl, rfl, rfl, by simp [openedPosition, entryRecord],
    rfl, ?_, ?_, ?_, ?_, ?_⟩
  · exact hqty.trans_eq hfi.filledQty.symm
  · simp [entryRecord, hc, hf]
  · simp [entryRecord, hc]
  · simp [hp]
  · simp [hsw]

theorem Ledgers.mild (h : Ledgers b) (hm : Mild calm b b') : Ledgers b' := by
  refine ⟨fun i o ho hs => ?_, fun i o p hh => ?_, hm.log ▸ h.priced⟩
  · obtain ⟨old, hold, hg⟩ | ⟨-, -, hn⟩ := hm.order i o ho
    · obtain ⟨hp, hsw⟩ := h.pending i old hold (hg.pending hs)
      exact ⟨hg.realizedPnl.trans hp, hg.swap.trans hsw⟩
    · exact ⟨hn.realizedPnl, hn.swap⟩
  · obtain ⟨old, hold, hg⟩ := hm.held hh
    obtain ⟨entry, exits, hl⟩ := h.held i old p hold
    rw [hm.log]
    exact ⟨entry, exits, { hl with
      orderSide := hg.side.trans hl.orderSide
      commission := hg.commission.trans hl.commission
      realizedPnl := hg.realizedPnl ▸ hl.realizedPnl
      swap := hg.swap ▸ hl.swap }⟩

/-- A trade of one order leaves the ledgers of the others alone. -/
theorem Ledgers.booked {booked : PaperBroker} (h : Ledgers b)
    (hb : Booked b b' booked left record event) (hs : left.status ≠ .pending)
    (hp : record.tradeType = .exit → ∃ entry exits, Trip b.tradeLog record.orderId entry exits ∧
      record.grossPnl = entry.gain record)
    (hh : ∀ i o p, Held b' i o p → (∃ entry exits, Ledger b'.tradeLog i o p entry exits) ∨
        (i ≠ record.orderId ∧ Held b i o p)) : Ledgers b' := by
  refine ⟨fun i o ho hp => ?_, fun i o p hn => ?_, hb.log ▸ h.priced.concat hp⟩
  · rw [hb.orders] at ho
    obtain ⟨-, rfl⟩ | ⟨-, ho⟩ := lookup_insert_cases ho
    · exact absurd hp hs
    · exact h.pending i o ho hp
  · obtain hl | ⟨hne, hold⟩ := hh i o p hn
    · exact hl
    · obtain ⟨entry, exits, hl⟩ := h.held i o p hold
      rw [hb.log]
      exact ⟨entry, exits, { hl with trip := hl.trip.other hne.symm }⟩

theorem Ledgers.deed (h : Ledgers b) (hd : Deed calm agenda bars time b b') : Ledgers b' := by
  cases hd with
  | mild hm => exact h.mild hm
  | @fill id order _ price _ found hid status pos _ _ _ hfilled hb =>
    subst hfilled
    obtain ⟨hp, hsw⟩ := h.pending id order found status
    have hf := fills_fillOrder order price (seconds time)
    refine h.booked hb (by simp [hf.status]) nofun fun i o p hh => ?_
    obtain ⟨rfl, rfl, rfl⟩ | ho := hb.held_entered hh
    · rw [hb.log, hf.id]
      exact .inl ⟨_, _, .enter order pos hp hsw b.leverage price time⟩
    · exact .inr ho
  | @exit id n _ order _ position _ price _ _ hop _ pos _ outcome hb =>
    obtain ⟨hid, ha, -, hs⟩ := outcome.left_eq
    obtain ⟨entry, exits, hle⟩ := h.held id order position ⟨hop.known.found, hop.held⟩
    refine h.booked hb hs (fun _ => ⟨entry, exits, ?_, hle.grossPnl_eq _ _ _⟩) fun i o p hh => ?_
    · rw [show (exitOf order position price _ time).orderId = id from hop.known.id]
      exact hle.trip
    obtain ⟨rfl, rfl, hl, rfl⟩ | ho := hb.held_exited hop ⟨hid, ha⟩ hh
    · cases outcome with
      | leg _ _ whole | closed _ _ _ whole => exact absurd whole hl.ne
      | reduced _ _ _ _ _ hleft =>
        rw [hb.log, hleft]
        exact .inl ⟨entry, _, hle.reduce hop.known.id (pos.trans hl) hl b.leverage price time⟩
    · exact .inr ⟨fun heq => ho.1 (heq.trans hop.known.id), ho.2⟩

theorem Ledgers.balance (h : Ledgers b) (bars : Bars) : Ledgers (updateAccountBalance bars b) := by
  refine ⟨h.pending, fun i o p ⟨hf, hpos⟩ => ?_, h.priced⟩
  have hlo : (markPositions bars b.positions).lookup (o.asset.symbol, i) = _ :=
    lookup_mapKeyed b.positions _ _
  obtain ⟨old, hold, rfl⟩ := Option.map_eq_some_iff.1 (hlo.symm.trans hpos)
  obtain ⟨entry, exits, hl⟩ := h.held i o old ⟨hf, hold⟩
  cases bars.lookup o.asset.symbol with
  | none => exact ⟨entry, exits, hl⟩
  | some => exact ⟨entry, exits, { hl with }⟩

theorem ledgers_run (cash : ℚ) (leverage : Nat) (fees : AssetFees) (actions : List Action) :
    Ledgers ((PaperBroker.new cash leverage fees).run actions) := by
  refine run_invariant (P := Ledgers) (fun _ _ h hm => h.mild hm) (fun _ _ _ _ _ h hd => h.deed hd)
    (fun bars _ h => h.balance bars) (stands_new cash leverage fees) actions False.elim ⟨?_, ?_, ?_⟩
  · intro i o ho
    cases ho
  · rintro i o p ⟨ho, -⟩
    cases ho
  · intro before record after heq
    simp [PaperBroker.new] at heq

end AqEngine.Paper
