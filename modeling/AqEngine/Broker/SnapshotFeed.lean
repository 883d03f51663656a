import AqEngine.Broker.Snapshots
import AqEngine.Lib.Runs

namespace AqEngine.Broker

inductive SnapshotSubject where
  | account | orders | positions | cashFlows
  | quote (symbol : String) (membership : Nat)
  deriving DecidableEq

namespace SnapshotSubject

def isQuote : SnapshotSubject → Bool
  | .quote _ _ => true
  | _ => false

def membership : SnapshotSubject → Nat
  | .quote _ membership => membership
  | _ => 0

end SnapshotSubject

/-- A worker has asked the cache whether it may send a request. -/
structure SnapshotTicket where
  worker : Nat
  subject : SnapshotSubject
  generation : Nat
  deriving DecidableEq

/-- A request that was sent. Its answer may be late, and may come twice. -/
structure SnapshotRequest where
  subject : SnapshotSubject
  generation : Nat
  observed : Instant
  deriving DecidableEq

inductive SnapshotResponse where
  | account (account : Account)
  | orders (orders : List Order)
  | positions (positions : List Position)
  | cashFlows (flows : AccountCashFlows)
  | quote (quote : Quote)

structure QuoteReception where
  symbol : String
  subscription : SnapshotReadRevision
  observed : Instant
  deriving DecidableEq

structure NativeDelivery where
  symbol : String
  source : SnapshotReadRevision
  observed : Instant
  deriving DecidableEq

def NativeDelivery.request (d : NativeDelivery) : SnapshotRequest :=
  ⟨.quote d.symbol d.source.membership, d.source.generation, d.observed⟩

namespace BrokerSnapshotCache

variable (c : BrokerSnapshotCache)

def mayDispatch (leases : Nat → Bool) (now wallNow : Instant) (ticket : SnapshotTicket) : Bool :=
  match ticket.subject with
  | .account | .positions => true
  | .orders => c.requiresOrderCapacity
  | .cashFlows => (c.accountAt now).isOk
  | .quote symbol membership =>
    c.quoteRequestCurrent ticket.worker leases now wallNow symbol membership ticket.generation

def deliver (request : SnapshotRequest) (response : SnapshotResponse) :
    Option BrokerSnapshotCache :=
  match request.subject, response with
  | .account, .account account => c.publishAccount request.generation request.observed account
  | .orders, .orders orders => some (c.publishOrders request.generation request.observed orders)
  | .positions, .positions positions =>
    c.publishPositions request.generation request.observed positions
  | .cashFlows, .cashFlows flows => some (c.publishCashFlows request.generation flows)
  | .quote symbol membership, .quote quote =>
    c.publishQuote request.generation request.observed symbol membership quote
  | _, _ => none

def deliverNative (delivery : NativeDelivery) (quote : Quote) (lease : Nat) (enabled : Bool) :
    Option BrokerSnapshotCache :=
  c.publishNativeQuote delivery.observed delivery.source quote lease enabled

end BrokerSnapshotCache

/-- A cache with all that was ever asked of it and sent for it. Nothing that
is on its way gets lost, so that every answer may come at any time. -/
structure SnapshotFeed where
  cache : BrokerSnapshotCache
  clock : Instant
  tickets : List SnapshotTicket := []
  requests : List SnapshotRequest := []
  subscriptions : List (String × SnapshotReadRevision) := []
  receptions : List QuoteReception := []
  natives : List NativeDelivery := []
  delivered : List (SnapshotRequest × SnapshotResponse) := []

inductive SnapshotAction where
  | elapse (duration : Nat)
  | setSymbols (symbols : List String)
  | setCapacitySymbols (symbols : List String)
  | invalidate | claimWorker
  | releaseWorker (worker : Nat)
  | ask (worker : Nat) (subject : SnapshotSubject)
  | askQuotes (worker : Nat) (leases : Nat → Bool) (wallNow : Instant)
  | dispatch (ticket : SnapshotTicket) (leases : Nat → Bool) (wallNow : Instant)
  | seedAccount (worker : Nat) (observed : Instant)
  | respond (request : SnapshotRequest) (response : SnapshotResponse)
  | subscribe (symbol : String)
  | receive (symbol : String) (subscription : SnapshotReadRevision)
  | readSource (reception : QuoteReception)
  | respondNative (delivery : NativeDelivery) (quote : Quote) (lease : Nat) (enabled : Bool)

namespace SnapshotFeed

variable (f : SnapshotFeed)

def readSource (reception : QuoteReception) : SnapshotFeed :=
  let source := f.cache.dependencyRevision (.quote reception.symbol)
  if source.sameSubscription reception.subscription then
    { f with natives := ⟨reception.symbol, source, reception.observed⟩ :: f.natives }
  else f

def step : SnapshotAction → Option SnapshotFeed
  | .elapse duration => some { f with clock := f.clock + duration }
  | .setSymbols symbols => (f.cache.setSymbols symbols).map fun r => { f with cache := r.1 }
  | .setCapacitySymbols symbols => some { f with cache := (f.cache.setCapacitySymbols symbols).1 }
  | .invalidate => f.cache.invalidate.map ({ f with cache := · })
  | .claimWorker => f.cache.claimWorker.map fun r => { f with cache := r.1 }
  | .releaseWorker worker => (f.cache.releaseWorker worker).map ({ f with cache := · })
  | .ask worker subject =>
    if subject.isQuote then none
    else (f.cache.requestGeneration worker).map fun generation =>
      { f with tickets := ⟨worker, subject, generation⟩ :: f.tickets }
  | .askQuotes worker leases wallNow =>
    (f.cache.quoteRequests worker leases f.clock wallNow).map fun requests =>
      { f with tickets := requests.map (fun r => ⟨worker, .quote r.1 r.2.1, r.2.2⟩) ++ f.tickets }
  | .dispatch ticket leases wallNow =>
    if ticket ∈ f.tickets ∧ f.cache.mayDispatch leases f.clock wallNow ticket = true then
      some { f with requests := ⟨ticket.subject, ticket.generation, f.clock⟩ :: f.requests }
    else none
  | .seedAccount worker observed =>
    if observed ≤ f.clock then
      (f.cache.requestGeneration worker).map fun generation =>
        { f with requests := ⟨.account, generation, observed⟩ :: f.requests }
    else none
  | .respond request response =>
    if request ∈ f.requests then
      (f.cache.deliver request response).map fun cache =>
        { f with cache, delivered := (request, response) :: f.delivered }
    else none
  | .subscribe symbol =>
    some { f with
      subscriptions := (symbol, f.cache.dependencyRevision (.quote symbol)) :: f.subscriptions }
  | .receive symbol subscription =>
    if (symbol, subscription) ∈ f.subscriptions then
      some { f with receptions := ⟨symbol, subscription, f.clock⟩ :: f.receptions }
    else none
  | .readSource reception =>
    if reception ∈ f.receptions then some (f.readSource reception) else none
  | .respondNative delivery quote lease enabled =>
    if delivery ∈ f.natives ∧ quote.symbol = delivery.symbol then
      (f.cache.deliverNative delivery quote lease enabled).map fun cache =>
        { f with cache, delivered := (delivery.request, .quote quote) :: f.delivered }
    else none

end SnapshotFeed

end AqEngine.Broker
