import AqEngine.Paper.Broker
import Mathlib.Logic.Relation
import Mathlib.Tactic.Ring

namespace AqEngine.Paper

open Broker (OrderSide TradeUpdateEvent)

abbrev Quantity := { qty : ℚ // 0 < qty }

/-- An open position: what was entered and not yet closed. -/
structure Lot where
  side : OrderSide
  price : ℚ
  qty : Quantity

inductive Slot where
  | vacant
  | pending (submission : Nat) (qty : Quantity)
  | opened (submission : Nat) (lot : Lot)
  | ended (submission : Nat)

/-- A paper account as its client sees it: the money, the orders, the trades
that were settled, and the events with the number of the submission that they
are about. -/
structure Book where
  (startingCash cash margin accrued : ℚ)
  slots : String → Slot
  log : List TradeRecord
  emitted : List (Nat × TradeUpdateEvent)
  submissions : Nat

namespace Book

def start (cash : ℚ) : Book where
  startingCash := cash
  cash := cash
  margin := 0
  accrued := 0
  slots _ := .vacant
  log := []
  emitted := []
  submissions := 0

def put (k : Book) (id : String) (slot : Slot) : Book :=
  { k with slots := Function.update k.slots id slot }

def note (k : Book) (submission : Nat) (event : TradeUpdateEvent) : Book :=
  { k with emitted := k.emitted ++ [(submission, event)] }

def submit (k : Book) (id : String) (slot : Nat → Slot) (event : TradeUpdateEvent) : Book :=
  { (k.note k.submissions event).put id (slot k.submissions) with
    submissions := k.submissions + 1 }

def enter (k : Book) (record : TradeRecord) (margin : ℚ) : Book :=
  { k with
    cash := k.cash - (margin + record.commission)
    margin := k.margin + margin
    accrued := k.accrued + record.commission
    log := k.log ++ [record] }

def exit (k : Book) (record : TradeRecord) (margin : ℚ) : Book :=
  { k with
    cash := k.cash + (margin + record.grossPnl + record.swap - record.commission)
    margin := k.margin - margin
    accrued := k.accrued + record.commission
    log := k.log ++ [record] }

end Book

structure Enters (id : String) (qty : Quantity) (record : TradeRecord) : Prop where
  type : record.tradeType = .entry
  order : record.orderId = id
  quantity : record.qty = qty

structure Exits (id : String) (lot : Lot) (record : TradeRecord) : Prop where
  type : record.tradeType = .exit
  order : record.orderId = id
  positive : 0 < record.qty
  gross : record.grossPnl = grossPnl lot.side lot.price record.price record.qty

def Enters.lot {id : String} {qty : Quantity} {record : TradeRecord} (_ : Enters id qty record) :
    Lot := ⟨record.side, record.price, qty⟩

def Lot.less (lot : Lot) (qty : ℚ) (h : qty < lot.qty) : Lot :=
  { lot with qty := ⟨lot.qty - qty, sub_pos.2 h⟩ }

/-- What can happen to an account, one thing at a time. An event that does not
belong to a change of its order occurs only for the submissions in `strays`. -/
inductive Move (strays : Nat → Prop) (k : Book) : Book → Prop
  | accept (id : String) (qty : Quantity) (h : k.slots id = .vacant) :
      Move strays k (k.submit id (.pending · qty) .pendingNew)
  | refuse (id : String) (h : k.slots id = .vacant) : Move strays k (k.submit id .ended .rejected)
  | resize {id : String} {n : Nat} {qty : Quantity} (h : k.slots id = .pending n qty)
      (qty' : Quantity) : Move strays k (k.put id (.pending n qty'))
  | reject {id : String} {n : Nat} {qty : Quantity} (h : k.slots id = .pending n qty) :
      Move strays k ((k.note n .rejected).put id (.ended n))
  | cancel {id : String} {n : Nat} {qty : Quantity} (h : k.slots id = .pending n qty) :
      Move strays k ((k.note n .cancelled).put id (.ended n))
  | fill {id : String} {n : Nat} {qty : Quantity} {record : TradeRecord}
      (h : k.slots id = .pending n qty) (hrecord : Enters id qty record) (margin : ℚ) :
      Move strays k (((k.enter record margin).note n .filled).put id (.opened n hrecord.lot))
  | reduce {id : String} {n : Nat} {lot : Lot} {record : TradeRecord}
      (h : k.slots id = .opened n lot) (hrecord : Exits id lot record)
      (hqty : record.qty < lot.qty) (margin : ℚ) :
      Move strays k (((k.exit record margin).note n .partialFilled).put id
        (.opened n (lot.less record.qty hqty)))
  | close {id : String} {n : Nat} {lot : Lot} {record : TradeRecord}
      (h : k.slots id = .opened n lot) (hrecord : Exits id lot record)
      (hqty : record.qty = lot.qty) (margin : ℚ) :
      Move strays k (((k.exit record margin).note n .closed).put id (.ended n))
  | release {id : String} {n : Nat} (h : k.slots id = .ended n) :
      Move strays k (k.put id .vacant)
  | stray {n : Nat} (h : strays n) : Move strays k (k.note n .cancelled)

abbrev Moves (strays : Nat → Prop) : Book → Book → Prop := Relation.ReflTransGen (Move strays)

section

def TradeRecord.isEntry (record : TradeRecord) : Bool := record.tradeType = .entry

def TradeRecord.isExit (record : TradeRecord) : Bool := record.tradeType = .exit

def entryCommissions (log : List TradeRecord) : ℚ :=
  ((log.filter TradeRecord.isEntry).map TradeRecord.commission).sum

/-- What the exits brought: gross profit and swap without commission. -/
def exitProceeds (log : List TradeRecord) : ℚ :=
  ((log.filter TradeRecord.isExit).map fun record =>
    record.grossPnl + record.swap - record.commission).sum

def commissions (log : List TradeRecord) : ℚ := (log.map TradeRecord.commission).sum

variable {log : List TradeRecord} {record : TradeRecord}

theorem entryCommissions_entry (h : record.tradeType = .entry) :
    entryCommissions (log ++ [record]) = entryCommissions log + record.commission := by
  simp [entryCommissions, TradeRecord.isEntry, h]

theorem entryCommissions_exit (h : record.tradeType = .exit) :
    entryCommissions (log ++ [record]) = entryCommissions log := by
  simp [entryCommissions, TradeRecord.isEntry, h]

theorem exitProceeds_entry (h : record.tradeType = .entry) :
    exitProceeds (log ++ [record]) = exitProceeds log := by
  simp [exitProceeds, TradeRecord.isExit, h]

theorem exitProceeds_exit (h : record.tradeType = .exit) : exitProceeds (log ++ [record]) =
      exitProceeds log + (record.grossPnl + record.swap - record.commission) := by
  simp [exitProceeds, TradeRecord.isExit, h]

theorem commissions_append : commissions (log ++ [record]) =
    commissions log + record.commission := by
  simp [commissions]

end

/-- No money is lost: cash and margin are accounted for by the log. -/
structure Book.Balanced (k : Book) : Prop where
  cash : k.cash + k.margin = k.startingCash - entryCommissions k.log + exitProceeds k.log
  accrued : k.accrued = commissions k.log

/-- The last entry under an id, and the exits after it. -/
def Trip (log : List TradeRecord) (id : String) (entry : TradeRecord) (exits : List TradeRecord) :
    Prop :=
  ∃ before after, log = before ++ entry :: after ∧ entry.tradeType = .entry ∧ entry.orderId = id ∧
    (∀ record ∈ after, record.orderId = id → record.tradeType = .exit) ∧
    exits = after.filter (·.orderId = id)

def sign : OrderSide → ℚ
  | .buy => 1
  | .sell => -1

/-- What an exit gains over the price of its entry. -/
def TradeRecord.gain (entry exit : TradeRecord) : ℚ :=
  sign entry.side * (exit.price - entry.price) * exit.qty

/-- Every exit is priced against the last entry of its order before it. -/
def Priced (log : List TradeRecord) : Prop :=
  ∀ before record after, log = before ++ record :: after → record.tradeType = .exit →
    ∃ entry exits, Trip before record.orderId entry exits ∧ record.grossPnl = entry.gain record

variable {strays : Nat → Prop} {k k' : Book} {log : List TradeRecord} {record : TradeRecord}
  {id : String} {qty : ℚ} {entry : TradeRecord} {exits : List TradeRecord}

theorem Book.balanced_start (cash : ℚ) : (Book.start cash).Balanced where
  cash := by simp [Book.start, entryCommissions, exitProceeds]
  accrued := rfl

theorem Book.Balanced.enter (h : k.Balanced) (hrecord : record.tradeType = .entry) (margin : ℚ) :
    (k.enter record margin).Balanced where
  cash := by
    have hc := h.cash
    simp only [Book.enter, entryCommissions_entry hrecord, exitProceeds_entry hrecord]
    linarith
  accrued := by
    simp only [Book.enter, commissions_append, h.accrued]

theorem Book.Balanced.exit (h : k.Balanced) (hrecord : record.tradeType = .exit) (margin : ℚ) :
    (k.exit record margin).Balanced where
  cash := by
    have hc := h.cash
    simp only [Book.exit, entryCommissions_exit hrecord, exitProceeds_exit hrecord]
    linarith
  accrued := by
    simp only [Book.exit, commissions_append, h.accrued]

theorem Book.Balanced.move (h : k.Balanced) (hm : Move strays k k') : k'.Balanced := by
  cases hm with
  | fill _ hrecord margin =>
    exact ⟨(h.enter hrecord.type margin).1, (h.enter hrecord.type margin).2⟩
  | reduce _ hrecord _ margin | close _ hrecord _ margin =>
    exact ⟨(h.exit hrecord.type margin).1, (h.exit hrecord.type margin).2⟩
  | _ => exact ⟨h.cash, h.accrued⟩

theorem Trip.entered (h : record.tradeType = .entry) (hid : record.orderId = id) :
    Trip (log ++ [record]) id record [] :=
  ⟨log, [], rfl, h, hid, by simp, rfl⟩

theorem Trip.other (h : Trip log id entry exits) (hid : record.orderId ≠ id) :
    Trip (log ++ [record]) id entry exits := by
  obtain ⟨before, after, rfl, he, ho, ha, rfl⟩ := h
  refine ⟨before, after ++ [record], by simp, he, ho, ?_, by simp [hid]⟩
  intro r hr hri
  obtain hr | rfl := by simpa using hr
  · exact ha r hr hri
  · exact absurd hri hid

theorem Trip.exited (h : Trip log id entry exits) (hrecord : record.tradeType = .exit)
    (hid : record.orderId = id) : Trip (log ++ [record]) id entry (exits ++ [record]) := by
  obtain ⟨before, after, rfl, he, ho, ha, rfl⟩ := h
  refine ⟨before, after ++ [record], by simp, he, ho, ?_, by simp [hid]⟩
  intro r hr hri
  obtain hr | rfl := by simpa using hr
  · exact ha r hr hri
  · exact hrecord

theorem Priced.concat (h : Priced log) (hr : record.tradeType = .exit →
    ∃ entry exits, Trip log record.orderId entry exits ∧ record.grossPnl = entry.gain record) :
    Priced (log ++ [record]) := by
  intro before r after heq hexit
  obtain rfl | ⟨front, last, rfl⟩ := after.eq_nil_or_concat
  · obtain ⟨rfl, hlast⟩ := List.append_inj' heq rfl
    cases hlast
    exact hr hexit
  · rw [List.concat_eq_append, ← List.cons_append, ← List.append_assoc] at heq
    exact h before r front (List.append_inj' heq rfl).1 hexit

theorem Moves.invariant {P : Book → Prop} (hstep : ∀ k k', P k → Move strays k k' → P k')
    (h : P k) (hmo : Moves strays k k') : P k' := by
  induction hmo with
  | refl => exact h
  | tail _ hm ih => exact hstep _ _ ih hm

end AqEngine.Paper
