import AqEngine.Insights.Transitions

namespace AqEngine.Insights

open Lib Broker

inductive BrokerCommandProgress where
  | queued
  | completed (completion : BrokerCommandCompletion)
  | failed (error : BrokerCommandError)

/-- The answers that one turn gets from the strategy around the insight. -/
structure StrategyContext where
  clock : Clock
  universeAsset : String → Option Asset
  progress : BrokerCommandReceipt → Option BrokerCommandProgress
  enqueue : Uuid → BrokerCommandAction → Option BrokerOperationGroup →
    Except BrokerCommandError BrokerCommandReceipt
  cancelPendingEntry : BrokerCommandReceipt → Except BrokerCommandError Unit
  (amendsLimitPrice amendsStopPrice : Bool)
  addTimeIncrement : TimeFrame → Time → Nat → Option Time

inductive ContextCall where
  | enqueued (receipt : BrokerCommandReceipt) (action : BrokerCommandAction)
  | reduced (receipt : BrokerCommandReceipt)
  | entryCancelled (receipt : BrokerCommandReceipt)
  deriving DecidableEq

/-- An insight during a turn, with the calls made to the strategy so far. -/
structure Turn where
  insight : Insight
  calls : List ContextCall := []
  deriving DecidableEq

inductive InsightMutationState where
  | applied
  | pending (receipt : BrokerCommandReceipt)
  deriving DecidableEq

abbrev InsightMutationResult := Except BrokerCommandError InsightMutationState

namespace Turn

def modify (f : Insight → Insight) (s : Turn) : Turn := { s with insight := f s.insight }

def call (c : ContextCall) (s : Turn) : Turn := { s with calls := s.calls ++ [c] }

end Turn

def hasPendingSubmit (i : Insight) : Bool := i.pendingMutations.any (·.kind == .submit)

section

variable (ctx : StrategyContext) (kind : MutationKind)

/-- Terminal evidence that makes an uncertain cleanup moot. -/
def terminalCleanup (i : Insight) : Bool :=
  i.orderId.isSome && match kind with
    | .close => i.state == .closed
    | .cancel => i.state == .cancelled || i.state == .rejected || i.state == .closed
    | .takeProfit | .stopLoss => i.state == .closed || i.state == .cancelled
    | _ => false

def rejectedSubmit (receipt : BrokerCommandReceipt)
    (completion : BrokerCommandCompletion) (order : Order) (i : Insight) : Bool :=
  kind == .submit && i.state == .rejected && i.orderId.isNone && order.status == .rejected &&
    completion.receipt == receipt && receipt.insightId == i.insightId.toString

def unboundResponse (receipt : BrokerCommandReceipt)
    (completion : BrokerCommandCompletion) (i : Insight) : Bool :=
  match completion.outcome with
  | .orderResponse order =>
    (i.orderId != some order.orderId && !(i.state == .filled || i.state == .closed) &&
        !rejectedSubmit kind receipt completion order i)
      || i.symbol != order.asset.symbol || i.side != order.side
      || order.insightId.any (· != i.insightId.toString)
  | _ => false

def stampLeg (t : Clock) (price : Option F64) (leg : OrderLeg) : OrderLeg :=
  { leg with limitPrice := price, updatedAt := (t.strategy / 1000000).toNat }

def applyEffect (t : Clock) (effect : MutationEffect) (i : Insight) : Insight :=
  match effect with
  | .submit =>
    if i.pendingMutations.any (·.kind == .cancel) then i else { i with cancelling := false }
  | .takeProfit levels =>
    let price := levels.bind List.head?
    let i := i.setTakeProfitLevels t levels
    { i with legs := { i.legs with takeProfit := i.legs.takeProfit.map (stampLeg t price) } }
  | .stopLoss levels =>
    let price := levels.bind List.head?
    let i := i.setStopLossLevels t levels
    { i with legs := { i.legs with stopLoss := i.legs.stopLoss.map (stampLeg t price) } }
  | .amendEntry limitPrice stopPrice =>
    -- A fill can win the race with the acknowledgement.
    if i.state == .executed && i.entryFilledQuantity.getD 0 == 0 then
      let i := if limitPrice.isSome then i.setLimitPrice t limitPrice else i
      if stopPrice.isSome then i.setStopPrice t stopPrice else i
    else i
  | .replace price quantity => (i.setLimitPrice t (some price)).setQuantity t (some quantity)
  | .cancel | .close _ => i

def acknowledge (t : Clock) (pending : PendingInsightMutation) (i : Insight) : Insight :=
  let i := if i.state.isInactive then i else applyEffect t pending.effect i
  i.stateLog t (.commandAcknowledged pending.receipt.id.value)

def decline (t : Clock) (kind : MutationKind) (reason : String) (i : Insight) : Insight :=
  match kind with
  | .cancel => { i with cancelling := false }
  | .close => { i with closing := false }
  | .submit => if i.state = .new then i.orderRejected t (.text reason) else i
  | _ => i

def neverDispatched (t : Clock) (kind : MutationKind) (i : Insight) : Insight :=
  if kind = .submit ∧ i.state = .new then
    i.orderCancelled t (.text "Entry intent cancelled before broker dispatch")
  else i

def consume (index : Nat) (pending : PendingInsightMutation)
    (outcome : BrokerCommandOutcome) (s : Turn) : Turn × InsightMutationResult :=
  let s := s.modify fun i => { i with pendingMutations := i.pendingMutations.eraseIdx index }
  let finish (s : Turn) := s.call (.reduced pending.receipt)
  match outcome with
  | .acknowledged | .orderResponse _ =>
    (finish (s.modify (acknowledge ctx.clock pending)), .ok .applied)
  | .declined reason =>
    (finish (s.modify (decline ctx.clock kind reason)), .error (.declined reason))
  | .cancelledBeforeDispatch => (finish (s.modify (neverDispatched ctx.clock kind)), .ok .applied)
  | .ambiguous _ => (finish s, .ok .applied)

def pollCompletion (index : Nat) (pending : PendingInsightMutation)
    (completion : BrokerCommandCompletion) (s : Turn) : Turn × InsightMutationResult :=
  if completion.outcome.isAmbiguous then
    if terminalCleanup kind s.insight then consume ctx kind index pending completion.outcome s
    else (s, .ok (.pending pending.receipt))
  else if unboundResponse kind pending.receipt completion s.insight then
    (s, .ok (.pending pending.receipt))
  else consume ctx kind index pending completion.outcome s

/-- Polls the first pending mutation of a kind; `none` when there is none. -/
def pollMutation (s : Turn) : Option (Turn × InsightMutationResult) := do
  let index ← s.insight.pendingMutations.findIdx? (·.kind == kind)
  let pending ← s.insight.pendingMutations[index]?
  match ctx.progress pending.receipt with
  | none | some .queued => some (s, .ok (.pending pending.receipt))
  | some (.failed error) => some (s, .error error)
  | some (.completed completion) => some (pollCompletion ctx kind index pending completion s)

def pollPendingSubmission (s : Turn) : Turn × InsightMutationResult :=
  (pollMutation ctx .submit s).getD (s, .ok .applied)

def pollIgnoringResult (s : Turn) : Turn := ((pollMutation ctx kind s).map (·.1)).getD s

def pollTerminalMutations (s : Turn) : Turn :=
  if s.insight.state.isInactive then
    [MutationKind.submit, .cancel, .close, .takeProfit, .stopLoss, .replace, .amendEntry].foldl
      (fun s kind => pollIgnoringResult ctx kind s) s
  else s

def queueMutation (action : BrokerCommandAction) (effect : MutationEffect)
    (group : Option BrokerOperationGroup) (s : Turn) : Turn × InsightMutationResult :=
  match ctx.enqueue s.insight.insightId action group with
  | .error error => (s, .error error)
  | .ok receipt =>
    let s := s.call (.enqueued receipt action)
    let s := s.modify fun i =>
      { i with pendingMutations := i.pendingMutations ++ [⟨kind, receipt, effect⟩] }
    (s.modify (·.stateLog ctx.clock (.commandQueued receipt.id.value)), .ok (.pending receipt))

end

variable (ctx : StrategyContext)

def invalid (reason : String) : InsightMutationResult := .error (.invalid (.text reason))

def cancelWorking (s : Turn) : Turn × InsightMutationResult :=
  match pollMutation ctx .cancel s with
  | some result => result
  | none =>
    if s.insight.state.isInactive || s.insight.cancelling then (s, .ok .applied)
    else
      match s.insight.orderId with
      | none => (s, invalid "cancel requires a broker order ID")
      | some orderId =>
        match queueMutation ctx .cancel (.cancel orderId) .cancel none s with
        | (s, .error error) => (s, .error error)
        | (s, .ok state) =>
          (s.modify fun i => { i with cancelling := true, suppressChildEntries := true }, .ok state)

/-- While the submission is pending, cancelling gates the entry; only an
existing broker order is cancelled through the broker. -/
def cancel (s : Turn) : Turn × InsightMutationResult :=
  match pollMutation ctx .submit s with
  | some (s, .ok (.pending receipt)) =>
    match ctx.cancelPendingEntry receipt with
    | .error error => (s, .error error)
    | .ok () =>
      ((s.call (.entryCancelled receipt)).modify fun i =>
        { i with suppressChildEntries := true, cancelling := true }, .ok (.pending receipt))
  | some (s, .ok .applied) => cancelWorking ctx (s.modify ({ · with cancelling := false }))
  | some (s, .error error) => (s, .error error)
  | none => cancelWorking ctx s

def cancelOrderById (orderId : String) (s : Turn) : Turn × InsightMutationResult :=
  match pollMutation ctx .cancel s with
  | some result => result
  | none => queueMutation ctx .cancel (.cancel orderId) .cancel none s

def tryClosePartial (quantity : F64) (price : Option F64) (s : Turn) :
    Turn × InsightMutationResult :=
  match pollMutation ctx .close s with
  | some result => result
  | none =>
    let i := s.insight
    if i.state.isInactive || i.closing then (s, .ok .applied)
    else if i.state != .filled || !quantity.isFinite || quantity ≤ 0
        || i.remainingQuantity < quantity then
      (s, invalid "close requires a positive quantity within the filled remainder")
    else
      match i.orderId with
      | none => (s, invalid "close requires a broker order ID")
      | some orderId =>
        match queueMutation ctx .close (.close orderId quantity price) (.close price) none s with
        | (s, .error error) => (s, .error error)
        | (s, .ok state) => (s.modify ({ · with closing := true }), .ok state)

def close (s : Turn) : Turn × InsightMutationResult :=
  tryClosePartial ctx s.insight.remainingQuantity none s

structure Protection where
  kind : MutationKind
  current : Insight → Option (List F64)
  set : Clock → Option (List F64) → Insight → Insight
  leg : OrderLegs → Option OrderLeg
  action : String → F64 → F64 → BrokerCommandAction
  effect : Option (List F64) → MutationEffect
  (clearing missing : String)

def changeProtection (p : Protection) (levels : Option (List F64))
    (group : Option BrokerOperationGroup) (s : Turn) : Turn × InsightMutationResult :=
  let i := s.insight
  if p.current i == levels then (s, .ok .applied)
  else if !(i.state == .executed || i.state == .filled) then
    (s.modify (p.set ctx.clock levels), .ok .applied)
  else
    match levels.bind List.head? with
    | none => (s, invalid p.clearing)
    | some price =>
      match ((p.leg i.legs).bind (·.orderId)).or i.orderId with
      | none => (s, invalid p.missing)
      | some orderId =>
        queueMutation ctx p.kind (p.action orderId price i.remainingQuantity) (p.effect levels)
          group s

def updateProtection (p : Protection) (levels : Option (List F64))
    (group : Option BrokerOperationGroup) (s : Turn) : Turn × InsightMutationResult :=
  let levels := Insight.normalizeLevels levels
  match pollMutation ctx p.kind s with
  | some (s, .ok .applied) => changeProtection ctx p levels group s
  | some other => other
  | none => changeProtection ctx p levels group s

def takeProfit : Protection where
  kind := .takeProfit
  current := (·.takeProfitLevels)
  set := Insight.setTakeProfitLevels
  leg := (·.takeProfit)
  action := .takeProfit
  effect := .takeProfit
  clearing := "clearing live TP requires an explicit broker clear-protection operation"
  missing := "TP update requires a broker order ID"

def stopLoss : Protection where
  kind := .stopLoss
  current := (·.stopLossLevels)
  set := Insight.setStopLossLevels
  leg := (·.stopLoss)
  action := .stopLoss
  effect := .stopLoss
  clearing := "clearing live SL requires an explicit broker clear-protection operation"
  missing := "SL update requires a broker order ID"

def updateTakeProfitInGroup (levels : Option (List F64)) (group : Option BrokerOperationGroup)
    (s : Turn) : Turn × InsightMutationResult := updateProtection ctx takeProfit levels group s

def updateStopLoss (levels : Option (List F64)) (s : Turn) : Turn × InsightMutationResult :=
  updateProtection ctx stopLoss levels none s

def amendableType (stop : Bool) (orderType : Broker.OrderType) : Bool :=
  if stop then orderType == .stop || orderType == .stopLimit
  else orderType == .limit || orderType == .stopLimit

def entryComponent (stop : Bool) (i : Insight) : Option F64 :=
  if stop then i.stopPrice else i.limitPrice

def setEntryComponent (t : Clock) (stop : Bool) (price : F64) (i : Insight) : Insight :=
  if stop then i.setStopPrice t (some price) else i.setLimitPrice t (some price)

def supportsAmendment (stop : Bool) : Bool :=
  if stop then ctx.amendsStopPrice else ctx.amendsLimitPrice

def amendEntry (price : F64) (stop : Bool) (s : Turn) : Turn × InsightMutationResult :=
  let i := s.insight
  if !price.isFinite || price ≤ 0 then (s, invalid "Entry price must be finite and positive")
  else if i.state == .new && i.orderId.isNone then
    (s.modify (setEntryComponent ctx.clock stop price), .ok .applied)
  else if i.state != .executed || !amendableType stop i.orderType || i.closing
      || i.cancelling then
    (s, invalid "Entry amendment requires a matching, active pending order")
  else if entryComponent stop i == some price then (s, .ok .applied)
  else if !supportsAmendment ctx stop then
    (s, invalid "Broker does not support this entry price amendment")
  else
    match i.orderId with
    | none => (s, invalid "Entry amendment requires a broker order ID")
    | some orderId =>
      let limitPrice := if stop then none else some price
      let stopPrice := if stop then some price else none
      queueMutation ctx .amendEntry (.amendEntry orderId limitPrice stopPrice)
        (.amendEntry limitPrice stopPrice) none s

def amendAfterSubmission (price : F64) (stop : Bool) (s : Turn) : Turn × InsightMutationResult :=
  if hasPendingSubmit s.insight then
    match pollPendingSubmission ctx s with
    | (s, .error error) => (s, .error error)
    | (s, .ok (.pending receipt)) => (s, .ok (.pending receipt))
    | (s, .ok .applied) => amendEntry ctx price stop s
  else amendEntry ctx price stop s

def updateEntryPrice (price : F64) (stop : Bool) (s : Turn) : Turn × InsightMutationResult :=
  let i := s.insight
  if i.state = .filled ∨ i.state.isInactive ∨ 0 < i.entryFilledQuantity.getD 0 then
    -- A completed receipt is consumed, its result is not reported.
    ((pollIgnoringResult ctx .amendEntry s).modify (·.stateLog ctx.clock (.text
      "Cannot update entry limit/stop price: order has already filled or is inactive")),
      .ok .applied)
  else
    match pollMutation ctx .amendEntry s with
    | some (s, .ok .applied) => amendAfterSubmission ctx price stop s
    | some other => other
    | none => amendAfterSubmission ctx price stop s

def replacePendingOrder (price quantity : F64) (s : Turn) : Turn × InsightMutationResult :=
  match pollMutation ctx .replace s with
  | some result => result
  | none =>
    if s.insight.state != .executed then (s, invalid "replacement requires an Executed entry")
    else
      match s.insight.orderId with
      | none => (s, invalid "replacement requires a broker order ID")
      | some orderId =>
        queueMutation ctx .replace (.replace orderId price quantity) (.replace price quantity)
          none s

end AqEngine.Insights
