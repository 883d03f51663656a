import AqEngine.Lib.F64
import AqEngine.Lib.Text

namespace AqEngine.Broker

open Lib

/-- Microseconds since the epoch. -/
abbrev Time := Int

inductive OrderSide where
  | buy | sell
  deriving DecidableEq, Repr

inductive OrderType where
  | market | limit | stop | stopLimit | trailingStop
  deriving DecidableEq, Repr

inductive OrderClass where
  | simple | bracket | oco | oto | tro
  deriving DecidableEq, Repr

inductive TradeUpdateEvent where
  | accepted | new | pendingNew | pending | partialFilled | filled | cancelled | rejected | expired
  | closed | replaced
  deriving DecidableEq, Repr

structure Asset where
  symbol : String
  (tradable shortable : Bool)
  (minOrderSize maxOrderSize minPriceIncrement : Option F64)
  priceBase : Option Int
  deriving DecidableEq, Repr

def roundToIncrement (value increment : F64) : F64 :=
  if increment ≤ 0 then value else (value / increment).round * increment

def roundToDigits (value : F64) (digits : Int) : F64 :=
  let factor : F64 := .finite ((10 : ℚ) ^ digits)
  (value * factor).round / factor

def dynamicRoundForAsset (asset : Asset) (value : F64) : F64 :=
  match asset.priceBase with
  | some base => roundToDigits value base
  | none => roundToIncrement value (asset.minPriceIncrement.getD (.finite (1 / 100)))

structure OrderLeg where
  orderId : Option String
  (limitPrice trailPrice filledPrice : Option F64)
  status : TradeUpdateEvent
  updatedAt : Nat
  deriving DecidableEq, Repr

structure OrderLegs where
  (takeProfit stopLoss trailingStop : Option OrderLeg := none)
  deriving DecidableEq, Repr

/-- Economics of one fully closed broker position. A later reading replaces
an earlier one of the same position; it is never an additional fill. -/
structure PositionCloseAccounting where
  version : Nat
  (provider positionId entryOrderId currency : String)
  (openedAtUs closedAtUs asOfUs : Int)
  (netPnl commission swap : F64)
  deriving DecidableEq, Repr

def positionCloseAccountingVersion : Nat := 1

def grossFromNet (net commission swap : F64) : Option F64 :=
  let gross := net + commission - swap
  if [net, commission, swap, gross].all F64.isFinite then some gross else none

inductive AccountingError where
  | unsupportedVersion | invalidIdentity | invalidChronology | invalidValues
  deriving DecidableEq, Repr

def AccountingError.message : AccountingError → String
  | .unsupportedVersion => "unsupported position accounting version"
  | .invalidIdentity => "invalid position accounting identity/currency"
  | .invalidChronology => "invalid position accounting chronology"
  | .invalidValues => "invalid position accounting values"

namespace PositionCloseAccounting

def validate (a : PositionCloseAccounting) : Except AccountingError Unit :=
  if a.version ≠ positionCloseAccountingVersion then .error .unsupportedVersion
  else if [a.provider, a.positionId, a.entryOrderId].any
        (fun value => isBlank value || decide (128 < value.utf8ByteSize))
      || isBlank a.currency || decide (32 < a.currency.utf8ByteSize) then
    .error .invalidIdentity
  else if a.openedAtUs ≤ 0 ∨ a.closedAtUs < a.openedAtUs ∨ a.asOfUs < a.closedAtUs then
    .error .invalidChronology
  else if (grossFromNet a.netPnl a.commission a.swap).isNone then .error .invalidValues
  else .ok ()

def ownsOrder (a : PositionCloseAccounting) (orderId : String) : Bool :=
  a.entryOrderId == orderId || a.positionId == orderId

end PositionCloseAccounting

/-- A broker's report of one order. `filledQty` is cumulative for the order
and `filledPrice` the average over that quantity. -/
structure Order where
  orderId : String
  insightId : Option String
  asset : Asset
  (qty filledQty : F64)
  (limitPrice filledPrice stopPrice : Option F64)
  side : OrderSide
  status : TradeUpdateEvent
  realizedPnl : Option F64
  positionAccounting : Option PositionCloseAccounting
  (commission swap : Option F64)
  rejectionReason : Option String
  legs : Option OrderLegs
  deriving DecidableEq, Repr

end AqEngine.Broker
