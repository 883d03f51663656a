import AqEngine.Insights.Types

namespace AqEngine.Broker

open Lib Insights

structure BrokerOrderRequest where
  (clientOrderId insightId strategyType symbol : String)
  quantity : Option F64
  side : OrderSide
  orderType : OrderType
  orderClass : OrderClass
  (limitPrice stopPrice : Option F64)
  (takeProfitLevels stopLossLevels : Option (List F64))
  trailingStopPrice : Option F64
  deriving DecidableEq

/-- Limits that are recorded with a command for the local dispatch gate and
never sent to the broker. -/
structure BrokerDispatchConstraints where
  maxTotalSymbolQuantity : Option F64 := none
  deriving DecidableEq

structure BrokerCommandId where
  value : String
  deriving DecidableEq, Repr

structure BrokerOperationGroup where
  id : String
  version : Nat
  deriving DecidableEq, Repr

inductive BrokerCommandAction where
  | amendEntry (orderId : String) (limitPrice stopPrice : Option F64)
  | submit (request : BrokerOrderRequest)
  | cancel (orderId : String)
  | close (orderId : String) (quantity : F64) (price : Option F64)
  | replace (orderId : String) (price quantity : F64)
  | takeProfit (orderId : String) (price quantity : F64)
  | stopLoss (orderId : String) (price quantity : F64)
  deriving DecidableEq

namespace BrokerCommandAction

def orderId : BrokerCommandAction → Option String
  | .submit _ => none
  | .cancel id => some id
  | .close id _ _ => some id
  | .replace id _ _ => some id
  | .amendEntry id _ _ => some id
  | .takeProfit id _ _ => some id
  | .stopLoss id _ _ => some id

def isEntry : BrokerCommandAction → Bool
  | .submit _ => true
  | _ => false

def isTeardown : BrokerCommandAction → Bool
  | .cancel _ | .close .. => true
  | _ => false

/-- Terminal evidence for the targeted order settles an uncertain cleanup
or an obsolete protection update; entries and replacements need their own. -/
def settledByTerminal (action : BrokerCommandAction) (order : Option String)
    (state : InsightState) : Bool :=
  action.orderId.any (fun id => some id == order) && match action with
    | .close .. => state == .closed
    | .cancel _ => state == .cancelled || state == .rejected || state == .closed
    | .takeProfit .. | .stopLoss .. => state == .closed || state == .cancelled
    | _ => false

end BrokerCommandAction

structure BrokerCommandReceipt where
  id : BrokerCommandId
  insightId : String
  group : Option BrokerOperationGroup
  deriving DecidableEq, Repr

structure BrokerCommand where
  version : Nat
  id : BrokerCommandId
  (strategyId accountId insightId : String)
  group : Option BrokerOperationGroup
  dispatchConstraints : BrokerDispatchConstraints
  action : BrokerCommandAction
  deriving DecidableEq

def BrokerCommand.receipt (c : BrokerCommand) : BrokerCommandReceipt := ⟨c.id, c.insightId, c.group⟩

inductive BrokerCommandOutcome where
  | orderResponse (order : Order)
  | acknowledged
  | declined (reason : String)
  | ambiguous (reason : String)
  | cancelledBeforeDispatch
  deriving DecidableEq

def BrokerCommandOutcome.isAmbiguous : BrokerCommandOutcome → Bool
  | .ambiguous _ => true
  | _ => false

structure BrokerCommandCompletion where
  receipt : BrokerCommandReceipt
  queuedAtUs : Int
  dispatchedAtUs : Option Int
  completedAtUs : Int
  outcome : BrokerCommandOutcome
  deriving DecidableEq

inductive BrokerCommandError where
  | declined (reason : String)
  | invalid (reason : Message)
  | tooLarge | queueFull | analyticsBusy | analyticsQueueFull | capturePaused | closed | stopping
  | identityConflict
  | journal (reason : String)
  deriving DecidableEq

end AqEngine.Broker
