import AqEngine.Paper.Ledgers

namespace AqEngine.Paper.PaperBroker

open Lib
open Broker (OrderSide TradeUpdateEvent Time)

/-- The close of the last bar of a symbol that the account was valued at. No
position is older: an order is filled by a bar of its symbol. -/
def lastClose (b : PaperBroker) : List Action → String → Option ℚ
  | [], _ => none
  | action :: rest, symbol => ((b.act action).lastClose rest symbol).or
      (((b.seen action).lookup symbol).map Bar.close)

/-- The equity is what cash and positions are worth at the last closes, `last`. -/
structure Valued (last : String → Option ℚ) (b : PaperBroker) : Prop where
  equity : b.account.equity =
    b.account.cash + totalMarginHeld b.positions + totalUnrealizedPnl b.positions
  marked : ∀ symbol id position, b.positions.lookup (symbol, id) = some position →
    last symbol = some position.currentPrice ∧ position.unrealizedPnl =
      sign position.side * (position.currentPrice - position.avgEntryPrice) * position.qty

/-- The account of a broker that started with `cash`. The trade log has one
record for each entry and each exit that was settled. -/
structure Conserved (cash : ℚ) (last : String → Option ℚ) (b : PaperBroker) : Prop
    extends Valued last b where
  cash : b.account.cash + totalMarginHeld b.positions =
    cash - entryCommissions b.tradeLog + exitProceeds b.tradeLog
  accrued : b.account.accruedCommission = commissions b.tradeLog
  gross : Priced b.tradeLog
  position : ∀ symbol id position, b.positions.lookup (symbol, id) = some position →
    ∃ entry exits, Trip b.tradeLog id entry exits ∧ position.side = entry.side ∧
      position.avgEntryPrice = entry.price ∧
      position.qty = entry.qty - (exits.map TradeRecord.qty).sum ∧ 0 ≤ position.qty ∧
      position.marginHeld = marginCost b.leverage (entry.price * position.qty)

variable {b b' : PaperBroker} {k : Book} {bars : Bars} {time : Time}

theorem lastClose_concat (b : PaperBroker) (actions : List Action) (action : Action)
    (symbol : String) : b.lastClose (actions ++ [action]) symbol =
      ((((b.run actions).seen action).lookup symbol).map Bar.close).or
        (b.lastClose actions symbol) := by
  induction actions generalizing b with
  | nil => simp [lastClose, run]
  | cons first actions ih => simp [lastClose, ih, run, Option.or_assoc]

/-- Positions whose symbol has no bar are left alone. -/
def Apart (bars : Bars) (b b' : PaperBroker) : Prop :=
  ∀ key, bars.lookup key.1 = none → b'.positions.lookup key = b.positions.lookup key

variable {calm : Prop} {agenda : Agenda}

theorem Apart.trans {b'' : PaperBroker} (h : Apart bars b b') (h' : Apart bars b' b'') :
    Apart bars b b'' := fun key hk => (h' key hk).trans (h key hk)

theorem Apart.of_eq (h : b'.positions = b.positions) : Apart bars b b' := fun _ _ => by rw [h]

theorem Apart.deed (h : Deed calm agenda bars time b b') : Apart bars b b' := by
  cases h with
  | mild h => exact .of_eq h.quiet.2
  | @fill _ order _ price _ _ _ _ _ _ hbar _ hfilled h =>
    subst hfilled
    intro key hk
    rw [h.positions]
    refine AList.lookup_insert_ne fun heq => ?_
    rw [heq, (fills_fillOrder order price (seconds time)).asset, hbar] at hk
    cases hk
  | exit _ hbar _ _ _ h =>
    intro key hk
    rw [h.positions]
    refine lookup_exited fun heq => ?_
    rw [heq, hbar] at hk
    cases hk

theorem Apart.deeds (h : Deeds calm agenda bars time b b') : Apart bars b b' := by
  induction h with
  | refl => exact .of_eq rfl
  | tail _ hd ih => exact ih.trans (.deed hd)

variable {last : String → Option ℚ}

theorem Valued.quiet (h : b.Valued last) (hq : Quiet b b') : b'.Valued last := by
  refine ⟨?_, ?_⟩
  · rw [hq.1, hq.2]
    exact h.equity
  · rw [hq.2]
    exact h.marked

/-- Positions with a bar are marked, and the others were marked before. -/
theorem Valued.balance (h : b.Valued last) (ha : Apart bars b b') :
    (updateAccountBalance bars b').Valued
      fun symbol => ((bars.lookup symbol).map Bar.close).or (last symbol) where
  equity := by
    simp only [updateAccountBalance]
    ring
  marked symbol id position hpos := by
    have hl : (markPositions bars b'.positions).lookup (symbol, id) =
        (b'.positions.lookup (symbol, id)).map
          fun position => (bars.lookup symbol).elim position position.mark :=
      Table.lookup_mapKeyed b'.positions _ (symbol, id)
    obtain ⟨old, hold, rfl⟩ := Option.map_eq_some_iff.1 (hl.symm.trans hpos)
    cases hbar : bars.lookup symbol with
    | none => exact h.marked symbol id old ((ha (symbol, id) hbar).symm.trans hold)
    | some bar =>
      refine ⟨rfl, ?_⟩
      cases hs : old.side <;>
      · simp only [Option.elim, Position.mark, grossPnl, sign, hs]
        ring

theorem Valued.act (h : b.Valued last) (hs : Stands b k) (action : Action) :
    (b.act action).Valued fun symbol =>
      (((b.seen action).lookup symbol).map Bar.close).or (last symbol) := by
  obtain ⟨hse, ht⟩ | ⟨time, c, -, -, hd, heq⟩ : _ ∧ Turns (fun _ => True) False k b _ ∨ _ :=
    carries_act hs action (fun _ _ => trivial) False.elim
  · rw [hse]
    exact h.quiet ht.asked.mild.quiet
  · rw [heq]
    exact h.balance (.deeds hd)

theorem valued_run (cash : ℚ) (leverage : Nat) (fees : AssetFees) (actions : List Action) :
    ((PaperBroker.new cash leverage fees).run actions).Valued
      ((PaperBroker.new cash leverage fees).lastClose actions) := by
  induction actions using List.reverseRecOn with
  | nil =>
    exact ⟨by simp [run, PaperBroker.new, totalMarginHeld, totalUnrealizedPnl], fun _ _ _ => nofun⟩
  | append_singleton actions action ih =>
    obtain ⟨k, hs⟩ := stands_run cash leverage fees actions
    rw [run_concat, funext (lastClose_concat _ actions action)]
    exact ih.act hs action

/-- After any requests and steps, no money is lost, no position is overdrawn,
every exit has gained what its price says, and the equity is what cash and
positions are worth. -/
theorem account_conserved (cash : ℚ) (leverage : Nat) (fees : AssetFees)
    (actions : List Action) :
    Conserved cash ((PaperBroker.new cash leverage fees).lastClose actions)
      ((PaperBroker.new cash leverage fees).run actions) := by
  obtain ⟨k, hmov, h⟩ : Leads (fun _ => True) _ _ :=
    reaches_run (stands_new cash leverage fees) actions fun _ _ => trivial
  have hba := hmov.invariant (fun _ _ h hmo => h.move hmo) (Book.balanced_start cash)
  have hst : k.startingCash = cash := hmov.invariant (P := fun k => k.startingCash = cash)
    (fun k _ h hmo => by cases hmo <;> exact h) rfl
  have hle := ledgers_run cash leverage fees actions
  have hta := h.tallies
  refine ⟨valued_run cash leverage fees actions, ?_, ?_, hle.priced, ?_⟩
  · rw [hta.cash, hta.margin, hta.log, hba.cash, hst]
  · rw [hta.accrued, hta.log, hba.accrued]
  · intro symbol id position hpo
    obtain ⟨n, lot, order, -, hop, -⟩ := opened_of_position h hpo
    obtain ⟨entry, exits, hl⟩ := hle.held id order position ⟨hop.known.found, hop.held⟩
    have hpos : 0 ≤ position.qty := hop.is.qty ▸ lot.qty.2.le
    refine ⟨entry, exits, hl.trip, hl.side, hl.price, hl.qty, hpos, ?_⟩
    rw [hop.carried.marginHeld, hl.price]

end AqEngine.Paper.PaperBroker
