import AqEngine.Broker.AccountLane
import AqEngine.Lib.Table
import Mathlib.Data.Finset.Basic
import Mathlib.Data.Finset.Dedup

namespace AqEngine.Broker

open Lib

def maxSnapshotSymbols : Nat := 4096

def maxSnapshotPositions : Nat := 65536

structure Account where
  accountId : String
  (equity cash : F64)
  currency : String
  (buyingPower accruedCommission : F64)
  maxTotalOrders : Option Nat
  deriving DecidableEq, Repr

structure Position where
  accountId : String
  orderId : Option String
  asset : Asset
  (avgEntryPrice qty marketValue costBasis currentPrice unrealizedPnl realizedPnl : F64)
  entryCommission : F64
  marginRequired : Option F64
  deriving DecidableEq, Repr

structure Quote where
  symbol : String
  (bid ask bidSize askSize : F64)
  (last lastSize : Option F64)
  timestamp : Instant
  deriving DecidableEq, Repr

def Quote.validMarketValues (q : Quote) : Bool :=
  q.bid.isFinite && q.ask.isFinite && decide (0 < q.bid) && decide (q.bid ≤ q.ask) &&
    q.bidSize.isFinite && q.askSize.isFinite && decide (0 ≤ q.bidSize) && decide (0 ≤ q.askSize) &&
    q.last.all (fun value => value.isFinite && decide (0 < value)) &&
    q.lastSize.all fun value => value.isFinite && decide (0 ≤ value)

structure AccountCashFlows where
  (accountId currency : String)
  deriving DecidableEq, Repr

/-- What the pending orders of the broker take, without positions and
history. -/
structure OrderCapacitySnapshot where
  pendingOrders : Nat
  pendingQuantityBySymbol : Table String F64

def TradeUpdateEvent.isPending : TradeUpdateEvent → Bool
  | .accepted | .new | .pendingNew | .pending | .partialFilled | .replaced => true
  | _ => false

/-- A broker may repeat an order, but not with another answer to whether it
is pending. -/
def countPending : Nat → Table String Bool → Nat → List Order → Option Nat
  | _, _, count, [] => some count
  | index, seen, count, order :: orders =>
    if maxSnapshotPositions ≤ index || isBlank order.orderId ||
        decide (512 < order.orderId.utf8ByteSize) then none
    else
      let pending := order.status.isPending
      let seen' := seen.insert order.orderId pending
      match seen.lookup order.orderId with
      | some previous =>
        if previous ≠ pending then none else countPending (index + 1) seen' count orders
      | none => countPending (index + 1) seen' (if pending then count + 1 else count) orders

def pendingOrderCount (orders : List Order) : Option Nat := countPending 0 ∅ 0 orders

/-- The whole quantity of each pending order counts, so that a race with a
partial fill never counts too little. -/
def pendingQuantity : Finset String → Table String F64 → List Order → Option (Table String F64)
  | _, totals, [] => some totals
  | seen, totals, order :: orders =>
    let seen' := insert order.orderId seen
    if order.orderId ∈ seen then pendingQuantity seen' totals orders
    else if !order.status.isPending then pendingQuantity seen' totals orders
    else
      let symbol := trim order.asset.symbol
      let reserved := order.qty.abs
      if symbol.isEmpty || decide (128 < symbol.utf8ByteSize) || !order.qty.isFinite ||
          !order.filledQty.isFinite || decide (reserved ≤ 0) then none
      else
        let total := (totals.lookup symbol).getD 0 + reserved
        let totals' := totals.insert symbol total
        if !total.isFinite || decide (maxSnapshotSymbols < totals'.keys.length) then none
        else pendingQuantity seen' totals' orders

def orderCapacity (orders : List Order) : Option OrderCapacitySnapshot := do
  let pendingOrders ← pendingOrderCount orders
  let pendingQuantityBySymbol ← pendingQuantity ∅ ∅ orders
  some { pendingOrders, pendingQuantityBySymbol }

inductive SnapshotKind where
  | account | positions
  | quote (symbol : String)
  deriving DecidableEq, Repr

structure SnapshotReadRevision where
  cacheId : Uuid
  (generation membership version : Nat)
  deriving DecidableEq

namespace SnapshotReadRevision

def sameSubscription (a b : SnapshotReadRevision) : Bool :=
  a.cacheId = b.cacheId && a.membership = b.membership

def sameSourceEpoch (a b : SnapshotReadRevision) : Bool :=
  a.sameSubscription b && a.generation = b.generation

end SnapshotReadRevision

inductive SnapshotUnavailable where
  | missing | stale | invalid | accountChanged | untrackedSymbol
  deriving DecidableEq, Repr

/-- Ages in nanoseconds up to which a value is fresh. -/
structure SnapshotFreshness where
  (account positions quote futureQuoteTolerance : Nat)
  deriving DecidableEq, Repr

/-- The age of a value begins when its request is sent. -/
structure Timed (α : Type) where
  value : α
  observed : Instant

namespace Timed

variable {α : Type}

def read (t : Timed α) (now : Instant) (maxAge : Nat) : Except SnapshotUnavailable α :=
  if t.observed ≤ now ∧ now - t.observed ≤ maxAge then .ok t.value else .error .stale

def isLater (installed : Option (Timed α)) (observed : Instant) : Bool :=
  installed.any fun old => decide (observed < old.observed)

end Timed

structure NativeQuoteObservation where
  observed : Instant
  lease : Nat

structure QuoteSlot where
  (membership revision : Nat)
  value : Option (Timed Quote)
  native : Option NativeQuoteObservation

def nativeQuotePollGrace : Nat := 2000000000

structure SnapshotState where
  (generation nextRevision accountRevision positionsRevision nextWorker : Nat := 0)
  worker : Option Nat := none
  closed : Bool := false
  nextMembership : Nat := 0
  accountChanged : Bool := false
  account : Option (Timed Account) := none
  cashFlows : Option (Nat × AccountCashFlows) := none
  positions : Option (Timed (List Position)) := none
  positionsByOrder : Table String Nat := ∅
  positionIdsComplete : Bool := false
  orders : Option (Timed OrderCapacitySnapshot) := none
  capacitySymbols : Finset String := ∅
  quotes : Table String QuoteSlot := ∅

/-- The next value of a counter. There is none when it is exhausted, and the
call that asks for it panics. -/
def increment (n : Nat) : Option Nat := if n + 1 < 2 ^ 64 then some (n + 1) else none

namespace SnapshotState

/-- A response to a request of the given generation may be installed. -/
def accepts (s : SnapshotState) (generation : Nat) : Bool :=
  decide (s.generation = generation) && !s.closed && !s.accountChanged

/-- Nothing that was observed before is readable in the next generation. -/
def fence (s : SnapshotState) : Option SnapshotState := do
  let generation ← increment s.generation
  some { s with
    generation
    account := none
    orders := none
    positions := none
    quotes := s.quotes.mapRows fun slot => { slot with value := none } }

def addSymbol (s : SnapshotState) (symbol : String) : Option SnapshotState :=
  if (s.quotes.lookup symbol).isSome then some s
  else do
    let membership ← increment s.nextMembership
    let revision ← increment s.nextRevision
    some { s with
      nextMembership := membership
      nextRevision := revision
      quotes := s.quotes.insert symbol ⟨membership, revision, none, none⟩ }

end SnapshotState

/-- All entries belong to the expected account. -/
structure BrokerSnapshotCache where
  identity : Uuid
  expectedAccount : String
  freshness : SnapshotFreshness
  state : SnapshotState := {}

namespace BrokerSnapshotCache

def new (identity : Uuid) (accountId : String) (freshness : SnapshotFreshness) :
    Except SnapshotUnavailable BrokerSnapshotCache :=
  if isBlank accountId || freshness.account == 0 || freshness.positions == 0 ||
      freshness.quote == 0 then .error .invalid
  else .ok { identity, expectedAccount := trim accountId, freshness }

variable (c : BrokerSnapshotCache)

def dependencyRevision (kind : SnapshotKind) : SnapshotReadRevision where
  cacheId := c.identity
  generation := c.state.generation
  membership := match kind with
    | .quote symbol => (c.state.quotes.lookup symbol).elim 0 (·.membership)
    | _ => 0
  version := match kind with
    | .account => c.state.accountRevision
    | .positions => c.state.positionsRevision
    | .quote symbol => (c.state.quotes.lookup symbol).elim 0 (·.revision)

section

variable (now : Instant)

def readTimed {α : Type} (installed : Option (Timed α)) (maxAge : Nat) :
    Except SnapshotUnavailable α :=
  match installed with
  | none => .error .missing
  | some t => t.read now maxAge

def accountAt : Except SnapshotUnavailable Account :=
  if c.state.accountChanged then .error .accountChanged
  else readTimed now c.state.account c.freshness.account

def accountCashFlows : Except SnapshotUnavailable AccountCashFlows :=
  match c.accountAt now, c.state.cashFlows with
  | .error reason, _ => .error reason
  | .ok _, none => .error .missing
  | .ok _, some (generation, flows) =>
    if c.state.closed || c.state.accountChanged || generation ≠ c.state.generation then
      .error .stale
    else .ok flows

/-- The account and, where its orders are limited, the number of the pending
ones: what an admission may look at while nothing is installed or fenced. -/
def withFreshAccountCapacity (expectedAccount : String) (needsPendingSlot : Bool) :
    Except SnapshotUnavailable (Account × Option (Nat × Instant)) :=
  if c.state.accountChanged || c.expectedAccount ≠ expectedAccount then .error .accountChanged
  else if c.state.closed then .error .missing
  else do
    let account ← readTimed now c.state.account c.freshness.account
    if needsPendingSlot && account.maxTotalOrders.isSome then do
      let orders ← readTimed now c.state.orders c.freshness.positions
      .ok (account, c.state.orders.map fun installed => (orders.pendingOrders, installed.observed))
    else .ok (account, none)

def symbolQuantity (orders : Timed OrderCapacitySnapshot) (symbol : String) :
    Except SnapshotUnavailable (F64 × Instant) := do
  let capacity ← orders.read now c.freshness.positions
  match c.state.positions with
  | none => .error .missing
  | some installed =>
    let positions ← installed.read now c.freshness.positions
    let held := positions.filter fun p => p.asset.symbol == symbol
    let held := (held.map (·.qty.abs)).foldl (· + ·) 0
    let total := held + (capacity.pendingQuantityBySymbol.lookup symbol).getD 0
    if !total.isFinite then .error .invalid
    else .ok (total, min orders.observed installed.observed)

def withFreshEntryCapacity (expectedAccount : String) (needsPendingSlot : Bool)
    (symbol : Option String) : Except SnapshotUnavailable
      (Account × Option Instant × Option (Nat × Instant) × Option (F64 × Instant)) :=
  if c.state.accountChanged || c.expectedAccount ≠ expectedAccount then .error .accountChanged
  else if c.state.closed then .error .missing
  else do
    let account ← readTimed now c.state.account c.freshness.account
    let accountObserved := c.state.account.map (·.observed)
    let needsCount := needsPendingSlot && account.maxTotalOrders.isSome
    if !needsCount && symbol.isNone then .ok (account, accountObserved, none, none)
    else
      match c.state.orders with
      | none => .error .missing
      | some orders => do
        let capacity ← if needsCount then
          (orders.read now c.freshness.positions).map some else .ok none
        let pending := capacity.map fun capacity => (capacity.pendingOrders, orders.observed)
        match symbol with
        | none => .ok (account, accountObserved, pending, none)
        | some symbol => do
          let quantity ← c.symbolQuantity now orders symbol
          .ok (account, accountObserved, pending, some quantity)

def positions : Except SnapshotUnavailable (List Position) :=
  if c.state.accountChanged then .error .accountChanged
  else do
    let _ ← readTimed now c.state.account c.freshness.account
    readTimed now c.state.positions c.freshness.positions

def positionByOrderId (order symbol : String) : Except SnapshotUnavailable (Option Position) :=
  if isBlank order || decide (512 < order.utf8ByteSize) || isBlank symbol then .error .invalid
  else do
    let positions ← c.positions now
    -- the index belongs to the same snapshot, so what it names is there
    match (c.state.positionsByOrder.lookup order).bind (positions[·]?) with
    | some position =>
      if position.asset.symbol ≠ symbol then .error .invalid else .ok (some position)
    | none => if !c.state.positionIdsComplete then .error .missing else .ok none

def orderCapacity : Except SnapshotUnavailable OrderCapacitySnapshot :=
  if c.state.accountChanged then .error .accountChanged
  else if c.state.closed then .error .missing
  else do
    let _ ← readTimed now c.state.account c.freshness.account
    readTimed now c.state.orders c.freshness.positions

def quoteTimestampFresh (quote : Quote) (wallNow : Instant) : Bool :=
  let age := wallNow - quote.timestamp
  if 0 ≤ age then decide (age ≤ c.freshness.quote)
  else decide (-age ≤ c.freshness.futureQuoteTolerance)

def quoteAt (symbol : String) (wallNow : Instant) : Except SnapshotUnavailable Quote :=
  if c.state.accountChanged then .error .accountChanged
  else
    match c.state.quotes.lookup symbol with
    | none => .error .untrackedSymbol
    | some slot => do
      let quote ← readTimed now slot.value c.freshness.quote
      if !c.quoteTimestampFresh quote wallNow then
        if 0 ≤ wallNow - quote.timestamp then .error .stale else .error .invalid
      else .ok quote

def requiresOrderCapacity : Bool :=
  decide c.state.capacitySymbols.Nonempty ||
    c.state.account.any fun account => account.value.maxTotalOrders.isSome

end

variable (worker : Nat) (leases : Nat → Bool) (now wallNow : Instant)

def serves : Bool :=
  decide (c.state.worker = some worker) && !c.state.closed && !c.state.accountChanged

def requestGeneration : Option Nat := if c.serves worker then some c.state.generation else none

/-- A live lease delivers; `leases` says which are live. -/
def nativeQuoteFresh (slot : QuoteSlot) : Bool :=
  match slot.native with
  | none => false
  | some native =>
    leases native.lease && decide (native.observed ≤ now) &&
      decide (now - native.observed < min nativeQuotePollGrace c.freshness.quote) &&
      slot.value.any fun value => c.quoteTimestampFresh value.value wallNow

def quoteRequests : Option (List (String × Nat × Nat)) :=
  if c.serves worker then
    some ((c.state.quotes.entries.filter fun e => !c.nativeQuoteFresh leases now wallNow e.2).map
      fun e => (e.1, e.2.membership, c.state.generation))
  else none

def quoteRequestCurrent (symbol : String) (membership generation : Nat) : Bool :=
  c.serves worker && decide (c.state.generation = generation) &&
    (c.state.quotes.lookup symbol).any fun slot =>
      decide (slot.membership = membership) && !c.nativeQuoteFresh leases now wallNow slot

def invalidate : Option BrokerSnapshotCache := c.state.fence.map ({ c with state := · })

def setSymbols (symbols : List String) :
    Option (BrokerSnapshotCache × Except SnapshotUnavailable Unit) :=
  if maxSnapshotSymbols < symbols.length ∨
      symbols.any (fun s => s.isEmpty || decide (128 < s.utf8ByteSize)) = true then
    some (c, .error .invalid)
  else do
    let quotes := c.state.quotes.retain fun symbol => decide (symbol ∈ symbols)
    let kept := { c.state with quotes := quotes }
    let state ← symbols.foldlM SnapshotState.addSymbol kept
    some ({ c with state }, .ok ())

def setCapacitySymbols (symbols : List String) :
    BrokerSnapshotCache × Except SnapshotUnavailable Unit :=
  if maxSnapshotSymbols < symbols.length ∨
      symbols.any (fun s => isBlank s || decide (128 < s.utf8ByteSize)) = true then
    (c, .error .invalid)
  else ({ c with state := { c.state with capacitySymbols := symbols.toFinset } }, .ok ())

def claimWorker : Option (BrokerSnapshotCache × Except SnapshotUnavailable Nat) :=
  if c.state.worker.isSome then some (c, .error .invalid)
  else if c.state.accountChanged then some (c, .error .accountChanged)
  else do
    let worker ← increment c.state.nextWorker
    let state ← { c.state with nextWorker := worker, worker := some worker, closed := false }.fence
    some ({ c with state }, .ok worker)

def releaseWorker (worker : Nat) : Option BrokerSnapshotCache :=
  if c.state.worker ≠ some worker then some c
  else ({ c.state with worker := none, closed := true } : SnapshotState).fence.map
    ({ c with state := · })

variable (generation : Nat) (observed : Instant)

def publishCashFlows (flows : AccountCashFlows) : BrokerSnapshotCache :=
  if !c.state.accepts generation || flows.accountId ≠ c.expectedAccount ||
      !c.state.account.any (fun account => account.value.currency == flows.currency) then c
  else { c with state := { c.state with cashFlows := some (generation, flows) } }

def publishOrders (orders : List Order) : BrokerSnapshotCache :=
  if maxSnapshotPositions < orders.length then c
  else
    match Broker.orderCapacity orders with
    | none => c
    | some value =>
      if !c.state.accepts generation || Timed.isLater c.state.orders observed then c
      else { c with state := { c.state with orders := some ⟨value, observed⟩ } }

def accountFinite (account : Account) : Bool :=
  [account.equity, account.cash, account.buyingPower, account.accruedCommission].all F64.isFinite

/-- Another account than the expected one is never forgotten. -/
def publishAccount (account : Account) : Option BrokerSnapshotCache :=
  if !c.state.accepts generation then some c
  else if trim account.accountId ≠ c.expectedAccount then do
    let revision ← increment c.state.nextRevision
    some { c with
      state := { c.state with
        accountChanged := true
        account := none
        positions := none
        nextRevision := revision
        accountRevision := revision
        positionsRevision := revision } }
  else if !accountFinite account then some c
  else if Timed.isLater c.state.account observed then some c
  else do
    let revision ← increment c.state.nextRevision
    some { c with
      state := { c.state with
        account := some ⟨account, observed⟩
        nextRevision := revision
        accountRevision := revision
        positionsRevision := revision } }

end BrokerSnapshotCache

/-- The id under which a position is found. A blank or overlong one is as
good as none. -/
def Position.indexId (p : Position) : Option String :=
  p.orderId.filter fun id => decide (id.utf8ByteSize ≤ 512) && !isBlank id

/-- The index so far and whether every position is in it. There is no index
when two positions have one id. -/
def indexPosition (index : Table String Nat × Bool) (entry : Position × Nat) :
    Option (Table String Nat × Bool) :=
  match entry.1.indexId with
  | none => some (index.1, false)
  | some id =>
    if (index.1.lookup id).isSome then none else some (index.1.insert id entry.2, index.2)

def indexPositions (positions : List Position) : Option (Table String Nat × Bool) :=
  positions.zipIdx.foldlM indexPosition (∅, true)

def Position.finite (p : Position) : Bool :=
  [p.qty, p.avgEntryPrice, p.currentPrice, p.marketValue, p.costBasis, p.unrealizedPnl,
    p.realizedPnl, p.entryCommission].all F64.isFinite && p.marginRequired.all F64.isFinite

namespace BrokerSnapshotCache

variable (c : BrokerSnapshotCache) (generation : Nat) (observed : Instant)

def publishPositions (positions : List Position) : Option BrokerSnapshotCache :=
  if maxSnapshotPositions < positions.length then some c
  else
    let accountChanged := positions.any fun p => decide (trim p.accountId ≠ c.expectedAccount)
    match if accountChanged then some (∅, true) else indexPositions positions with
    | none => some c
    | some (index, complete) =>
      if !accountChanged && positions.any (!·.finite) then some c
      else if !c.state.accepts generation || Timed.isLater c.state.positions observed then some c
      else do
        let revision ← increment c.state.nextRevision
        some { c with
          state := { c.state with
            accountChanged
            account := if accountChanged then none else c.state.account
            positions := if accountChanged then none else some ⟨positions, observed⟩
            positionsByOrder := index
            positionIdsComplete := complete
            nextRevision := revision
            positionsRevision := revision
            accountRevision := if accountChanged then revision else c.state.accountRevision } }

def publishQuoteObservation (symbol : String) (membership : Nat) (quote : Quote)
    (native : Option NativeQuoteObservation) : Option BrokerSnapshotCache :=
  if quote.symbol ≠ symbol || !quote.validMarketValues then some c
  else if !c.state.accepts generation then some c
  else
    match c.state.quotes.lookup symbol with
    | none => some c
    | some slot =>
      if slot.membership ≠ membership ||
          slot.value.any (fun old => decide (quote.timestamp < old.value.timestamp)) ||
          Timed.isLater slot.value observed then some c
      else do
        let revision ← increment c.state.nextRevision
        some { c with
          state := { c.state with
            nextRevision := revision
            quotes := c.state.quotes.insert symbol
              ⟨slot.membership, revision, some ⟨quote, observed⟩, native⟩ } }

def publishQuote (symbol : String) (membership : Nat) (quote : Quote) :
    Option BrokerSnapshotCache :=
  c.publishQuoteObservation generation observed symbol membership quote none

def publishNativeQuote (source : SnapshotReadRevision) (quote : Quote) (lease : Nat)
    (enabled : Bool) : Option BrokerSnapshotCache :=
  if source.cacheId ≠ c.identity || !enabled then some c
  else c.publishQuoteObservation source.generation observed quote.symbol source.membership quote
    (some ⟨observed, lease⟩)

end BrokerSnapshotCache

end AqEngine.Broker
