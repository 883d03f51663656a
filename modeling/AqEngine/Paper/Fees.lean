import AqEngine.Broker.Types

namespace AqEngine.Paper

open Broker (OrderSide)

inductive AssetFee where
  | none
  | points (value : ℚ)
  | percentageFee (rate : ℚ)
  | fixedFee (value : ℚ)
  | perContractFee (value : ℚ)
  | percentagePerContractFee (rate : ℚ)
  deriving DecidableEq

/-- An asset without a contract size trades single units. -/
def contractUnits (contractSize : Option Int) : ℚ := max (contractSize.getD 1) 1

namespace AssetFee

def calculateWithContract (price quantity : ℚ) (contractSize : Option Int) : AssetFee → ℚ
  | none => 0
  | points _ => 0
  | percentageFee rate => if 0 < rate ∧ rate < 1 then |price| * |quantity| * rate else 0
  | fixedFee value => if 0 < value then value else 0
  | perContractFee value => if 0 < value then value * |quantity| else 0
  | percentagePerContractFee rate =>
    if 0 < rate ∧ rate < 1 then |price| * contractUnits contractSize * |quantity| * rate else 0

/-- A swap may have either sign: it is paid or received for each day that the
position was held. -/
def calculateSwap (price quantity : ℚ) (contractSize : Option Int) (point : Option ℚ) (days : ℚ)
    (fee : AssetFee) : ℚ :=
  if days ≤ 0 then 0
  else match fee with
    | none => 0
    | points value =>
      value * ((point.filter fun p => 0 < p).getD 0) * contractUnits contractSize *
        |quantity| * days
    | percentageFee rate => |price| * |quantity| * rate * days
    | fixedFee value => value * days
    | perContractFee value => value * |quantity| * days
    | percentagePerContractFee rate =>
      |price| * contractUnits contractSize * |quantity| * rate * days

end AssetFee

structure AssetSideFees where
  (long short : AssetFee := .none)
  deriving DecidableEq

def AssetSideFees.forSide (fees : AssetSideFees) : OrderSide → AssetFee
  | .buy => fees.long
  | .sell => fees.short

structure AssetCommissionFees where
  (entry exit : AssetSideFees := {})
  deriving DecidableEq

/-- The fees of an asset. `entry` and `exit` are the older fields, in force
when neither side has a commission of its own. -/
structure AssetFees where
  commission : AssetCommissionFees := {}
  swap : AssetSideFees := {}
  (entry exit : AssetFee := .none)
  deriving DecidableEq

namespace AssetFees

def commissionForSide (sides : AssetSideFees) (older : AssetFee) (side : OrderSide)
    (price quantity : ℚ) (contractSize : Option Int) : ℚ :=
  if sides.forSide side = .none ∧ sides.long = .none ∧ sides.short = .none then
    older.calculateWithContract price quantity contractSize
  else (sides.forSide side).calculateWithContract price quantity contractSize

def entryCommissionForSide (fees : AssetFees) (side : OrderSide) (price quantity : ℚ)
    (contractSize : Option Int) : ℚ :=
  commissionForSide fees.commission.entry fees.entry side price quantity contractSize

def exitCommissionForSide (fees : AssetFees) (side : OrderSide) (price quantity : ℚ)
    (contractSize : Option Int) : ℚ :=
  commissionForSide fees.commission.exit fees.exit side price quantity contractSize

def swapForSide (fees : AssetFees) (side : OrderSide) (price quantity : ℚ)
    (contractSize : Option Int) (point : Option ℚ) (days : ℚ) : ℚ :=
  (fees.swap.forSide side).calculateSwap price quantity contractSize point days

end AssetFees

end AqEngine.Paper
