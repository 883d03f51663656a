import AqEngine.Insights.Operations
import AqEngine.Insights.Evidence

namespace AqEngine.Insights

open Lib Broker

variable (ctx : StrategyContext) (i : Insight)

def expiryWindow : Option (Time × Nat) :=
  match i.state with
  | .new | .executed => i.periodUnfilled.map fun periods => (i.createdAt, periods)
  | .filled => i.periodTillTp.map fun periods => (i.filledAt.getD i.createdAt, periods)
  | _ => none

def expireNow (s : Turn) : Turn × InsightMutationResult :=
  match s.insight.state with
  | .new =>
    if !hasPendingSubmit s.insight && s.insight.orderId.isNone then
      (s.modify (·.orderRejected ctx.clock
        (.text "Expired before submission fill window elapsed")), .ok .applied)
    else cancel ctx s
  | .executed => cancel ctx s
  | .filled => close ctx s
  | _ => (s, .ok .applied)

def logWhen (t : Clock) (condition : Bool) (text : String) (s : Turn) : Turn :=
  if condition then s.modify (·.stateLog t (.text text)) else s

/-- Time to live: `none` while the window is open, otherwise the outcome of
the cancellation or close that its end asks for. -/
def expireIfDue (s : Turn) : Option (Turn × InsightMutationResult) := do
  let (anchor, periods) ← expiryWindow s.insight
  let expiry := (ctx.addTimeIncrement s.insight.timeframe anchor periods).getD anchor
  if ctx.clock.strategy < expiry then none
  else
    let (after, result) := expireNow ctx s
    let logged := logWhen ctx.clock (!s.insight.cancelling && after.insight.cancelling)
      "Expired before fill window elapsed; cancel requested" after
    let logged := logWhen ctx.clock (!s.insight.closing && logged.insight.closing)
      "Take-profit time window expired; closing position" logged
    some (logged, result)

def hasExpired (s : Turn) : Turn × Bool :=
  match expireIfDue ctx s with
  | none => (s, false)
  | some (s, _) => (s, true)

def hasValidEntryConditions : Bool :=
  match i.limitPrice.or i.stopPrice with
  | none => true
  | some entry =>
    match i.side with
    | .buy => i.takeProfitLevels.all (·.all (entry < ·)) && i.stopLossLevels.all (·.all (· < entry))
    | .sell => i.takeProfitLevels.all (·.all (· < entry)) &&
      i.stopLossLevels.all (·.all (entry < ·))

def validateQuantity (asset : Asset) (i : Insight) : Except Message Unit :=
  match i.quantity with
  | none => .error (.missingQuantity i.symbol)
  | some quantity =>
    if !quantity.isFinite || quantity ≤ 0 then .error (.invalidQuantity quantity i.symbol)
    else
      match asset.minOrderSize.filter (quantity < ·), asset.maxOrderSize.filter (· < quantity) with
      | some minimum, _ => .error (.belowMinimum quantity minimum i.symbol)
      | none, some maximum => .error (.aboveMaximum quantity maximum i.symbol)
      | none, none => .ok ()

def validateAsset : Except Message Asset :=
  match ctx.universeAsset i.symbol with
  | none => .error (.notInUniverse i.symbol)
  | some asset =>
    if !asset.tradable then .error (.notTradable i.symbol)
    else if i.side == .sell && !asset.shortable then .error (.notShortable i.symbol)
    else if i.marketChanged then .error (.marketChanged i.symbol)
    else .ok asset

/-- Checks in the order of the source. The check of the time to live acts
on the insight, so validation returns it. -/
def validate (s : Turn) : Turn × Except Message Unit :=
  match validateAsset ctx s.insight >>= fun asset => validateQuantity asset s.insight with
  | .error message => (s, .error message)
  | .ok () =>
    match hasExpired ctx s with
    | (s, true) => (s, .error (.expired s.insight.insightId))
    | (s, false) =>
      if !hasValidEntryConditions s.insight then
        (s, .error (.invalidEntryConditions s.insight.symbol))
      else (s, .ok ())

def orderRequest : BrokerOrderRequest where
  clientOrderId := i.insightId.toString
  insightId := i.insightId.toString
  strategyType := i.strategyType.toString
  symbol := i.symbol
  quantity := i.quantity
  side := i.side
  orderType := i.orderType
  orderClass := i.orderClass
  limitPrice := i.limitPrice
  stopPrice := i.stopPrice
  takeProfitLevels := i.takeProfitLevels
  stopLossLevels := i.stopLossLevels
  trailingStopPrice := i.trailingStopPrice

def submitNew (s : Turn) : Turn × InsightMutationResult :=
  let i := s.insight
  if i.submitted || i.orderId.isSome || i.state != .new then (s, .ok .applied)
  else if i.suppressChildEntries || i.cancelling || i.closing then
    (s, invalid "Entry is gated for cancellation/cleanup")
  else
    match validate ctx s with
    | (s, .error reason) => (s.modify (·.orderRejected ctx.clock reason), .error (.invalid reason))
    | (s, .ok ()) => queueMutation ctx .submit (.submit (orderRequest s.insight)) .submit none s

def submit (s : Turn) : Turn × InsightMutationResult :=
  match pollMutation ctx .submit s with
  | some result => result
  | none => submitNew ctx s

/-- The owner's cleanup of one insight, also its work once the strategy no
longer runs. -/
def cleanup (s : Turn) : Turn × InsightMutationResult :=
  match s.insight.state with
  | .new =>
    if !hasPendingSubmit s.insight && s.insight.orderId.isNone then
      (s.modify (·.orderCancelled ctx.clock
        (.text "Entry cancelled before broker submission during cleanup")), .ok .applied)
    else cancel ctx s
  | .filled => close ctx s
  | .executed => cancel ctx s
  | _ => pollPendingSubmission ctx s

/-- A failed pipe never ends an insight that may have broker exposure. -/
def pipelineFailed (t : Clock) (reason : Message) (i : Insight) : Insight :=
  if i.state = .filled then i.stateLog t (.filledPipelineFailed reason)
  else if hasPendingSubmit i || i.state == .executed then i.stateLog t (.pipelineFailed reason)
  else if !i.state.isInactive then i.orderRejected t reason
  else i

/-- A cancellation request of the strategy closes the entry gate first; the
broker work follows in cleanup turns. -/
def requestCancellation : Insight :=
  if i.state = .new ∨ i.state = .executed then { i with suppressChildEntries := true } else i

/-- What the engine does with one insight after its construction. The pipes'
own writes to it are left out. -/
inductive InsightStep where
  | evidence (e : Evidence)
  | submit (ctx : StrategyContext)
  | pollSubmission (ctx : StrategyContext)
  | pollTerminal (ctx : StrategyContext)
  | cancel (ctx : StrategyContext)
  | cancelOrderById (ctx : StrategyContext) (orderId : String)
  | close (ctx : StrategyContext) (quantity : F64) (price : Option F64)
  | takeProfit (ctx : StrategyContext) (levels : Option (List F64))
      (group : Option BrokerOperationGroup)
  | stopLoss (ctx : StrategyContext) (levels : Option (List F64))
  | entryPrice (ctx : StrategyContext) (price : F64) (stop : Bool)
  | replace (ctx : StrategyContext) (price quantity : F64)
  | expire (ctx : StrategyContext)
  | cleanup (ctx : StrategyContext)
  | pipelineFailure (t : Clock) (reason : Message)
  | firstFillHandled (t : Clock)
  | requestCancellation

def InsightStep.apply (round : Asset → F64 → F64) (i : Insight) : InsightStep → Insight
  | .evidence e => deliver round i e
  | .submit ctx => (AqEngine.Insights.submit ctx ⟨i, []⟩).1.insight
  | .pollSubmission ctx => (pollPendingSubmission ctx ⟨i, []⟩).1.insight
  | .pollTerminal ctx => (pollTerminalMutations ctx ⟨i, []⟩).insight
  | .cancel ctx => (AqEngine.Insights.cancel ctx ⟨i, []⟩).1.insight
  | .cancelOrderById ctx orderId =>
    (AqEngine.Insights.cancelOrderById ctx orderId ⟨i, []⟩).1.insight
  | .close ctx quantity price => (tryClosePartial ctx quantity price ⟨i, []⟩).1.insight
  | .takeProfit ctx levels group => (updateTakeProfitInGroup ctx levels group ⟨i, []⟩).1.insight
  | .stopLoss ctx levels => (updateStopLoss ctx levels ⟨i, []⟩).1.insight
  | .entryPrice ctx price stop => (updateEntryPrice ctx price stop ⟨i, []⟩).1.insight
  | .replace ctx price quantity => (replacePendingOrder ctx price quantity ⟨i, []⟩).1.insight
  | .expire ctx => (hasExpired ctx ⟨i, []⟩).1.insight
  | .cleanup ctx => (AqEngine.Insights.cleanup ctx ⟨i, []⟩).1.insight
  | .pipelineFailure t reason => pipelineFailed t reason i
  | .firstFillHandled t => i.setFirstOnFill t false
  | .requestCancellation => AqEngine.Insights.requestCancellation i

end AqEngine.Insights
