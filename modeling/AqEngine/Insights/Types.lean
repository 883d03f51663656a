import AqEngine.Broker.Types
import AqEngine.Lib.Uuid

namespace AqEngine.Insights

open Lib Broker

inductive InsightState where
  | new | executed | filled | closed | cancelled | rejected
  deriving DecidableEq, Repr

namespace InsightState

def isActive : InsightState → Bool
  | .new | .executed | .filled => true
  | _ => false

def isInactive : InsightState → Bool
  | .closed | .cancelled | .rejected => true
  | _ => false

def next (current requested : InsightState) : InsightState :=
  if current = .filled ∧ (requested = .cancelled ∨ requested = .rejected) then .filled
  else requested

variable (s : InsightState)

@[simp] theorem next_self : s.next s = s := by
  cases s <;> rfl

@[simp] theorem next_executed : s.next .executed = .executed := by
  cases s <;> rfl

@[simp] theorem next_filled : s.next .filled = .filled := by
  cases s <;> rfl

@[simp] theorem next_closed : s.next .closed = .closed := by
  cases s <;> rfl

theorem next_eq_requested {s r : InsightState} (h : s ≠ .filled) : s.next r = r := by
  simp [next, h]

end InsightState

inductive InsightHistoryKind where
  | stateTransition | configuration | execution | diagnostic
  deriving DecidableEq, Repr

inductive StrategyType where
  | manual | testing | portfolio
  | custom (name : String)
  deriving DecidableEq, Repr

def StrategyType.toString : StrategyType → String
  | .manual => "Manual"
  | .testing => "Testing"
  | .portfolio => "Portfolio"
  | .custom name => name

inductive TimeFrameUnit where
  | second | minute | hour | day | month
  deriving DecidableEq, Repr

structure TimeFrame where
  amount : Nat
  unit : TimeFrameUnit
  deriving DecidableEq, Repr

/-- Texts of history entries and refusals. Each constructor is one format
string of the source with the values that its placeholders print. -/
inductive Message where
  | text (s : String)
  | stateChanged (before after : InsightState)
  | ignoredTransition (attempted : InsightState) (detail : Message)
  | orderAccepted (orderId : String)
  | filledAt (price quantity : F64) (orderId : String)
  | partialFill (quantity price : F64)
  | partialClose (quantity price : F64)
  | closedAt (price : F64) (orderId : String)
  | rejectedFor (reason : Message)
  | cancelledFor (reason : Message)
  | entryRemainder (event : TradeUpdateEvent) (quantity : F64)
  | quantitySet (value : F64)
  | limitPriceSet (value : F64)
  | stopPriceSet (value : F64)
  | takeProfitSet (levels : List F64)
  | stopLossSet (levels : List F64)
  | trailingStopSet (value : Option F64)
  | orderClassSet (value : OrderClass)
  | orderTypeSet (value : Broker.OrderType)
  | firstOnFillSet (value : Bool)
  | commandQueued (id : String)
  | commandAcknowledged (id : String)
  | filledPipelineFailed (reason : Message)
  | pipelineFailed (reason : Message)
  | notInUniverse (symbol : String)
  | notTradable (symbol : String)
  | notShortable (symbol : String)
  | marketChanged (symbol : String)
  | missingQuantity (symbol : String)
  | invalidQuantity (quantity : F64) (symbol : String)
  | belowMinimum (quantity minimum : F64) (symbol : String)
  | aboveMaximum (quantity maximum : F64) (symbol : String)
  | expired (insightId : Uuid)
  | invalidEntryConditions (symbol : String)
  deriving DecidableEq

structure PartialCloseResult where
  orderId : String
  side : OrderSide
  (quantity entryPrice : F64)
  filledPrice : Option F64
  deriving DecidableEq, Repr

namespace PartialCloseResult

def new (orderId : String) (side : OrderSide) (quantity entryPrice : F64) :
    PartialCloseResult := ⟨orderId, side, quantity, entryPrice, none⟩

def setFilledPrice (p : PartialCloseResult) (price : F64) : PartialCloseResult :=
  { p with filledPrice := some price }

end PartialCloseResult

end AqEngine.Insights
