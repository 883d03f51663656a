import Mathlib.Algebra.Group.Nat.Defs
import Mathlib.Data.Nat.Log

namespace AqEngine.Lib

/-- Reasons for which bytes are not a message of the wire format. -/
inductive WireError where
  | invalidVarint | invalidKey | invalidTag | invalidWireType | unexpectedWireType
  | unexpectedEndGroup | bufferUnderflow | lengthExceeded | recursionLimit | invalidText
  deriving DecidableEq, Repr

namespace Varint

/-- Seven bits per byte, lowest first, the high bit set on all but the last
byte. The first argument bounds the number of bytes. -/
def groups : Nat → Nat → List UInt8
  | 0, _ => []
  | fuel + 1, n =>
    if n < 128 then [n.toUInt8] else (n % 128 + 128).toUInt8 :: groups fuel (n / 128)

/-- The last of the ten admissible bytes may hold a single bit. -/
def ungroup : Nat → List UInt8 → Except WireError (Nat × List UInt8)
  | 0, _ => .error .invalidVarint
  | _ + 1, [] => .error .invalidVarint
  | fuel + 1, b :: rest =>
    if b.toNat < 128 then
      if fuel = 0 ∧ 2 ≤ b.toNat then .error .invalidVarint else .ok (b.toNat, rest)
    else do
      let (n, rest) ← ungroup fuel rest
      .ok (b.toNat % 128 + 128 * n, rest)

variable (v : UInt64)

def encode : List UInt8 := groups 10 v.toNat

def decode (bytes : List UInt8) : Except WireError (UInt64 × List UInt8) := do
  let (n, rest) ← ungroup 10 bytes
  .ok (n.toUInt64, rest)

/-- Number of bytes of a varint, computed from its highest bit alone. -/
def encodedLen : Nat := (v.toNat.log2 * 9 + 73) / 64

theorem ungroup_groups {fuel n : Nat} (hn : n < 2 ^ (7 * fuel + 1)) (rest : List UInt8) :
    ungroup (fuel + 1) (groups (fuel + 1) n ++ rest) = .ok (n, rest) := by
  induction fuel generalizing n with
  | zero =>
      have hb : n.toUInt8.toNat = n := Nat.mod_eq_of_lt (by omega)
      rw [groups, if_pos (by omega), List.singleton_append, ungroup, hb, if_pos (by omega),
        if_neg (by omega)]
  | succ fuel ih =>
      by_cases hs : n < 128
      · have hb : n.toUInt8.toNat = n := Nat.mod_eq_of_lt (by omega)
        rw [groups, if_pos hs, List.singleton_append, ungroup, hb, if_pos hs, if_neg (by omega)]
      have hb : (n % 128 + 128).toUInt8.toNat = n % 128 + 128 := Nat.mod_eq_of_lt (by omega)
      have hp : 2 ^ (7 * (fuel + 1) + 1) = 2 ^ (7 * fuel + 1) * 128 := by
        rw [show 7 * (fuel + 1) + 1 = 7 * fuel + 1 + 7 by omega, Nat.pow_add]
      have hq : n / 128 < 2 ^ (7 * fuel + 1) := by omega
      have hm : (n % 128 + 128) % 128 + 128 * (n / 128) = n := by omega
      rw [groups, if_neg hs, List.cons_append, ungroup, hb, ih hq]
      change Except.ok ((n % 128 + 128) % 128 + 128 * (n / 128), rest) = _
      rw [hm]

@[simp] theorem decode_encode (rest : List UInt8) : decode (encode v ++ rest) = .ok (v, rest) := by
  have hlt : v.toNat < 2 ^ (7 * 9 + 1) := v.toNat_lt
  rw [decode, encode, ungroup_groups hlt]
  change Except.ok (v.toNat.toUInt64, rest) = _
  simp

theorem groups_ne_nil (fuel n : Nat) : groups (fuel + 1) n ≠ [] := by
  rw [groups]
  split <;> simp

@[simp] theorem encode_ne_nil : encode v ≠ [] := groups_ne_nil 9 _

theorem log2_lt {n k : Nat} (hk : 0 < k) (hn : n < 2 ^ k) : n.log2 < k := by
  obtain rfl | hpos := Nat.eq_zero_or_pos n
  · simpa using hk
  · exact (Nat.log2_lt hpos.ne').mpr hn

theorem length_groups {fuel n : Nat} (hn : n < 2 ^ (7 * (fuel + 1))) :
    (groups (fuel + 1) n).length = n.log2 / 7 + 1 := by
  induction fuel generalizing n with
  | zero =>
      have hlt : n < 128 := by simpa using hn
      have hl : n.log2 < 7 := log2_lt (by decide) hlt
      rw [groups, if_pos hlt, List.length_singleton]
      omega
  | succ fuel ih =>
      by_cases hs : n < 128
      · have hl : n.log2 < 7 := log2_lt (by decide) hs
        rw [groups, if_pos hs, List.length_singleton]
        omega
      have hp : 2 ^ (7 * (fuel + 1 + 1)) = 2 ^ (7 * (fuel + 1)) * 128 := by
        rw [show 7 * (fuel + 1 + 1) = 7 * (fuel + 1) + 7 by omega, Nat.pow_add]
      have hl : n.log2 = (n / 128).log2 + 7 := by
        rw [Nat.log2_eq_log_two, Nat.log2_eq_log_two, show 128 = 2 ^ 7 by rfl, Nat.log_div_base_pow]
        have hse : 7 ≤ Nat.log 2 n := Nat.le_log_of_pow_le (by decide) (by omega)
        omega
      rw [groups, if_neg hs, List.length_cons, ih (by omega)]
      omega

@[simp] theorem length_encode : (encode v).length = encodedLen v := by
  have hlt : v.toNat < 2 ^ 64 := v.toNat_lt
  have hl : v.toNat.log2 < 64 := log2_lt (by decide) hlt
  rw [encode, length_groups (by omega), encodedLen]
  omega

end Varint

end AqEngine.Lib
