import AqEngine.Broker.Commands
import AqEngine.Lib.Reservations

namespace AqEngine.Broker

open Lib

abbrev Instant := Int

def maxCapacityReservations : Nat := 4096

abbrev CapacityLedger (V : Type) := Reservations BrokerCommandId V

/-- What an outcome proves about capacity: a transport failure proves
nothing, and even a terminal response waits for a later observation. -/
def BrokerCommandOutcome.settlement : BrokerCommandOutcome → Settlement
  | .ambiguous _ => .uncertain
  | .declined _ | .cancelledBeforeDispatch => .refused
  | .orderResponse _ | .acknowledged => .confirmed

def boundedIdentity (id : BrokerCommandId) : Bool :=
  !id.value.isEmpty && decide (id.value.utf8ByteSize ≤ 512)

def admits {V : Type} (ledger : CapacityLedger V) (id : BrokerCommandId) : Bool :=
  decide (id ∉ ledger.held) && decide (ledger.held.entries.length < maxCapacityReservations)

def isNewer {α : Type} (observation : Option (α × Instant)) (observed : Instant) : Bool :=
  observation.all fun old => decide (old.2 < observed)

def saturatingAdd (a b : Nat) : Nat := min (a + b) (2 ^ 64 - 1)

/-- A capacity of the whole account: the latest adopted observation and the
reservations that it may not cover yet. -/
structure ObservedCapacity (α V : Type) where
  observation : Option (α × Instant) := none
  ledger : CapacityLedger V := {}

namespace ObservedCapacity

variable {α V : Type}

def observe (value : α) (observed : Instant) (c : ObservedCapacity α V) :
    Except Panic (ObservedCapacity α V) :=
  if isNewer c.observation observed then do
    let ledger ← Reservations.retireFront observed c.ledger.completed c.ledger.held
    .ok ⟨some (value, observed), ledger⟩
  else .ok c

def current (fallback : α) (c : ObservedCapacity α V) : α := (c.observation.map (·.1)).getD fallback

def insert (id : BrokerCommandId) (payload : V) (c : ObservedCapacity α V) :
    ObservedCapacity α V := { c with ledger := c.ledger.reserve id payload }

def finish (id : BrokerCommandId) (outcome : BrokerCommandOutcome) (now : Instant)
    (c : ObservedCapacity α V) : Except Panic (ObservedCapacity α V) := do
  let ledger ← c.ledger.settle id outcome.settlement now
  .ok { c with ledger }

-- An entry touches only the capacities whose limit applies to it.
def observeIf (reading : Option (α × Instant)) (c : ObservedCapacity α V) :
    Except Panic (ObservedCapacity α V) :=
  match reading with
  | some (value, observed) => c.observe value observed
  | none => .ok c

def insertIf (id : BrokerCommandId) (payload : Option V) (c : ObservedCapacity α V) :
    ObservedCapacity α V :=
  match payload with
  | some payload => c.insert id payload
  | none => c

def finishIf (reserved : Bool) (id : BrokerCommandId) (outcome : BrokerCommandOutcome)
    (now : Instant) (c : ObservedCapacity α V) : Except Panic (ObservedCapacity α V) :=
  if reserved then c.finish id outcome now else .ok c

end ObservedCapacity

abbrev PendingCapacity := ObservedCapacity UInt64 Unit

def PendingCapacity.available (id : BrokerCommandId) (limit count : UInt64)
    (c : PendingCapacity) : Bool :=
  boundedIdentity id && admits c.ledger id &&
    decide (saturatingAdd (c.current count).toNat c.ledger.held.entries.length < limit.toNat)

def reserved {V : Type} (about : V → Bool) (amount : V → F64) (ledger : CapacityLedger V) : F64 :=
  (ledger.held.entries.filter fun e => about e.2.payload).foldr
    (fun e sum => amount e.2.payload + sum) 0

structure SymbolRequest where
  symbol : String
  quantity : F64
  deriving DecidableEq

structure PendingLimit where
  (limit count : UInt64)
  observed : Instant

structure SymbolLimit where
  symbol : String
  (requested limit observedQuantity : F64)
  observed : Instant

structure MarginLimit where
  (required available : F64)
  observed : Instant

structure SymbolCapacity where
  observations : String → Option (F64 × Instant) := fun _ => none
  ledger : CapacityLedger SymbolRequest := {}

namespace SymbolCapacity

def observe (symbol : String) (quantity : F64) (observed : Instant) (c : SymbolCapacity) :
    SymbolCapacity :=
  if isNewer (c.observations symbol) observed then
    { observations := Function.update c.observations symbol (some (quantity, observed))
      ledger := c.ledger.retireWhere (·.symbol == symbol) observed }
  else c

variable (id : BrokerCommandId)

def available (symbol : String) (requested limit observed : F64) (c : SymbolCapacity) : Bool :=
  let observed := ((c.observations symbol).map (·.1)).getD observed
  let reserved := reserved (·.symbol == symbol) (·.quantity) c.ledger
  boundedIdentity id && !symbol.isEmpty && decide (symbol.utf8ByteSize ≤ 128) &&
    requested.isPositive && limit.isPositive && observed.isFinite && reserved.isFinite &&
    admits c.ledger id && decide (observed + reserved + requested ≤ limit)

def insert (symbol : String) (quantity : F64) (c : SymbolCapacity) :
    SymbolCapacity := { c with ledger := c.ledger.reserve id ⟨symbol, quantity⟩ }

def observeIf (limit : Option SymbolLimit) (c : SymbolCapacity) : SymbolCapacity :=
  match limit with
  | some q => c.observe q.symbol q.observedQuantity q.observed
  | none => c

def insertIf (limit : Option SymbolLimit) (c : SymbolCapacity) :
    SymbolCapacity :=
  match limit with
  | some q => c.insert id q.symbol q.requested
  | none => c

def finish (outcome : BrokerCommandOutcome) (now : Instant)
    (c : SymbolCapacity) : Except Panic SymbolCapacity := do
  let ledger ← c.ledger.settle id outcome.settlement now
  .ok { c with ledger }

def finishIf (reserved : Bool) (id : BrokerCommandId) (outcome : BrokerCommandOutcome)
    (now : Instant) (c : SymbolCapacity) : Except Panic SymbolCapacity :=
  if reserved then c.finish id outcome now else .ok c

end SymbolCapacity

abbrev MarginCapacity := ObservedCapacity F64 F64

def MarginCapacity.available (id : BrokerCommandId) (required available : F64)
    (c : MarginCapacity) : Bool :=
  let available := c.current available
  let reserved := reserved (fun _ => true) (fun amount => amount) c.ledger
  boundedIdentity id && required.isFinite && decide (0 ≤ required) && available.isFinite &&
    decide (0 ≤ available) && reserved.isFinite && admits c.ledger id &&
    decide (reserved + required ≤ available)

inductive CapacityRejection where
  | pendingOrders | symbolQuantity | margin
  deriving DecidableEq, Repr

structure EntryReservation where
  (pending symbol margin : Bool)
  deriving DecidableEq, Repr

structure Admission where
  active : Bool := false
  capacity : PendingCapacity := {}
  symbolCapacity : SymbolCapacity := {}
  marginCapacity : MarginCapacity := {}

namespace Admission

variable (id : BrokerCommandId) (pending : Option PendingLimit) (symbol : Option SymbolLimit)
  (margin : Option MarginLimit) (a : Admission)

/-- All observations are adopted before any limit is checked. -/
def observe : Except Panic Admission := do
  let capacity ← a.capacity.observeIf (pending.map fun p => (p.count, p.observed))
  let symbolCapacity := a.symbolCapacity.observeIf symbol
  let marginCapacity ← a.marginCapacity.observeIf (margin.map fun m => (m.available, m.observed))
  .ok { a with capacity, symbolCapacity, marginCapacity }

def refusal : Option CapacityRejection :=
  if pending.any fun p => !PendingCapacity.available id p.limit p.count a.capacity then
    some .pendingOrders
  else if symbol.any fun q =>
      !a.symbolCapacity.available id q.symbol q.requested q.limit q.observedQuantity then
    some .symbolQuantity
  else if margin.any fun m =>
      !MarginCapacity.available id m.required m.available a.marginCapacity then
    some .margin
  else none

def insert : Admission :=
  { a with
    capacity := a.capacity.insertIf id (pending.map fun _ => ())
    symbolCapacity := a.symbolCapacity.insertIf id symbol
    marginCapacity := a.marginCapacity.insertIf id (margin.map (·.required)) }

def reserveEntry : Except Panic (Admission × Except CapacityRejection EntryReservation) := do
  let a ← a.observe pending symbol margin
  match a.refusal id pending symbol margin with
  | some rejection => .ok (a, .error rejection)
  | none =>
    .ok (a.insert id pending symbol margin, .ok ⟨pending.isSome, symbol.isSome, margin.isSome⟩)

def finishEntry (reservation : EntryReservation) (outcome : BrokerCommandOutcome)
    (now : Instant) (a : Admission) : Except Panic Admission := do
  let capacity ← a.capacity.finishIf reservation.pending id outcome now
  let symbolCapacity ← a.symbolCapacity.finishIf reservation.symbol id outcome now
  let marginCapacity ← a.marginCapacity.finishIf reservation.margin id outcome now
  .ok { a with capacity, symbolCapacity, marginCapacity }

def settleEntry (outcome : BrokerCommandOutcome) (now : Instant) (a : Admission) :
    Except Panic Admission := a.finishEntry id ⟨true, true, true⟩ outcome now

def dropPermit : Admission := { a with active := false }

end Admission

end AqEngine.Broker
