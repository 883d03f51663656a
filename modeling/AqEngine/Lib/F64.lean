import Mathlib.Data.Rat.Floor
import Mathlib.Tactic.Linarith

namespace AqEngine.Lib

/-- Double values with exact finite arithmetic. Infinities, the unordered
nan and the rules they follow are those of IEEE 754; rounding error,
overflow and the sign of zero are not represented. -/
inductive F64 where
  | finite (q : ℚ)
  | infinity (negative : Bool)
  | nan
  deriving DecidableEq, Repr

namespace F64

instance (n : Nat) : OfNat F64 n := ⟨.finite n⟩

instance : Coe ℚ F64 := ⟨.finite⟩

instance : Inhabited F64 := ⟨0⟩

def isFinite : F64 → Bool
  | .finite _ => true
  | _ => false

def lt : F64 → F64 → Bool
  | .finite a, .finite b => a < b
  | .finite _, .infinity neg => !neg
  | .infinity neg, .finite _ => neg
  | .infinity a, .infinity b => a && !b
  | _, _ => false

def le : F64 → F64 → Bool
  | .finite a, .finite b => a ≤ b
  | .finite _, .infinity neg => !neg
  | .infinity neg, .finite _ => neg
  | .infinity a, .infinity b => a || !b
  | _, _ => false

instance : LT F64 := ⟨fun a b => a.lt b = true⟩
instance : LE F64 := ⟨fun a b => a.le b = true⟩
instance (a b : F64) : Decidable (a < b) := inferInstanceAs (Decidable (a.lt b = true))
instance (a b : F64) : Decidable (a ≤ b) := inferInstanceAs (Decidable (a.le b = true))

/-- The comparison of the machine: a nan differs from everything, itself
included, so this relation is not Lean's equality. -/
def eq : F64 → F64 → Bool
  | .finite a, .finite b => a = b
  | .infinity a, .infinity b => a = b
  | _, _ => false

instance : BEq F64 := ⟨eq⟩

def neg : F64 → F64
  | .finite a => .finite (-a)
  | .infinity a => .infinity !a
  | .nan => .nan

def add : F64 → F64 → F64
  | .finite a, .finite b => .finite (a + b)
  | .finite _, .infinity b => .infinity b
  | .infinity a, .finite _ => .infinity a
  | .infinity a, .infinity b => if a = b then .infinity a else .nan
  | _, _ => .nan

def sub (a b : F64) : F64 := a.add b.neg

def scaleInfinity (q : ℚ) (negative : Bool) : F64 :=
  if q = 0 then .nan else .infinity (negative != decide (q < 0))

def mul : F64 → F64 → F64
  | .finite a, .finite b => .finite (a * b)
  | .finite a, .infinity b => scaleInfinity a b
  | .infinity a, .finite b => scaleInfinity b a
  | .infinity a, .infinity b => .infinity (a != b)
  | _, _ => .nan

def div : F64 → F64 → F64
  | .finite a, .finite b => if b = 0 then scaleInfinity a false else .finite (a / b)
  | .finite _, .infinity _ => .finite 0
  | .infinity a, .finite b => .infinity (a != decide (b < 0))
  | _, _ => .nan

instance : Neg F64 := ⟨neg⟩
instance : Add F64 := ⟨add⟩
instance : Sub F64 := ⟨sub⟩
instance : Mul F64 := ⟨mul⟩
instance : Div F64 := ⟨div⟩

/-- The larger operand; a nan operand gives way to the other one. -/
def max (a b : F64) : F64 :=
  if a = .nan then b else if b = .nan then a else if a < b then b else a

def abs : F64 → F64
  | .finite a => .finite |a|
  | .infinity _ => .infinity false
  | .nan => .nan

def round : F64 → F64
  | .finite a => if 0 ≤ a then .finite ⌊a + 1 / 2⌋ else .finite (-⌊-a + 1 / 2⌋)
  | a => a

def epsilon : F64 := .finite (1 / 2 ^ 52)

variable (a b : ℚ)

@[simp] theorem isFinite_finite : (finite a).isFinite = true := rfl

@[simp] theorem finite_lt : finite a < finite b ↔ a < b := by
  change decide (a < b) = true ↔ _
  simp

@[simp] theorem finite_le : finite a ≤ finite b ↔ a ≤ b := by
  change decide (a ≤ b) = true ↔ _
  simp

theorem zero_eq : (0 : F64) = finite 0 := rfl

@[simp] theorem zero_lt_finite : 0 < finite a ↔ 0 < a := finite_lt 0 a

@[simp] theorem finite_le_zero : finite a ≤ 0 ↔ a ≤ 0 := finite_le a 0

@[simp] theorem finite_add : finite a + finite b = finite (a + b) := rfl

@[simp] theorem finite_mul : finite a * finite b = finite (a * b) := rfl

@[simp] theorem finite_sub : finite a - finite b = finite (a - b) := by
  change finite (a + -b) = _
  rw [sub_eq_add_neg]

theorem finite_div (hb : b ≠ 0) : finite a / finite b = finite (a / b) := by
  change (if b = 0 then _ else _) = _
  rw [if_neg hb]

@[simp] theorem max_finite : max (finite a) (finite b) = finite (Max.max a b) := by
  by_cases h : a < b
  · simp [max, h, max_eq_right h.le]
  · simp [max, h, max_eq_left (not_lt.mp h)]

theorem isFinite_iff {x : F64} : x.isFinite = true ↔ ∃ q, x = finite q := by
  cases x <;> simp [isFinite]

/-- A quotient by a finite value is finite only if its dividend is. -/
theorem isFinite_of_sub_div {x : F64} {a b : ℚ}
    (h : ((x - finite a) / finite b).isFinite = true) : x.isFinite = true := by
  cases x with
  | finite q => rfl
  | infinity => exact h
  | nan => exact h

/-- A finite positive value, the form every quantity and price check of a
fill has. -/
def isPositive (x : F64) : Bool := x.isFinite && decide (0 < x)

theorem isPositive_iff {x : F64} : x.isPositive = true ↔ ∃ q : ℚ, x = finite q ∧ 0 < q := by
  cases x with
  | finite q => simp [isPositive]
  | infinity b | nan => simp [isPositive, isFinite]

end F64

end AqEngine.Lib
