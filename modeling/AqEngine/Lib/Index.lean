import AqEngine.Lib.Table
import Mathlib.Data.Finset.Card
import Mathlib.Data.Finset.Sort

namespace AqEngine.Lib.Table

open AList

variable {K V : Type} [DecidableEq K] {t : Table K V} {k l : K} {v w : V}

theorem lookup_erase_ite (t : Table K V) (k l : K) :
    AList.lookup l (t.erase k) = if l = k then none else t.lookup l := by
  by_cases h : l = k
  · subst h
    rw [if_pos rfl, lookup_erase]
  · rw [if_neg h, lookup_erase_ne h]

theorem lookup_insert_ite (t : Table K V) (k l : K) (v : V) :
    AList.lookup l (t.insert k v) = if l = k then some v else t.lookup l := by
  by_cases h : l = k
  · subst h
    rw [if_pos rfl, lookup_insert]
  · rw [if_neg h, lookup_insert_ne h]

/-- The row of `k` becomes what `f` makes of it, or of its absence. -/
def alter (t : Table K V) (k : K) (f : Option V → Option V) : Table K V :=
  match f (t.lookup k) with
  | none => t.erase k
  | some v => t.insert k v

theorem lookup_alter (t : Table K V) (k l : K) (f : Option V → Option V) :
    (t.alter k f).lookup l = if l = k then f (t.lookup k) else t.lookup l := by
  unfold alter
  cases f (t.lookup k) with
  | none => exact lookup_erase_ite t k l
  | some v => exact lookup_insert_ite t k l v

theorem erase_insert_lookup (t : Table K V) (k l : K) (v : V) :
    AList.lookup l (t.insert k v) = AList.lookup l (AList.insert k v (t.erase k)) := by
  rw [lookup_insert_ite, lookup_insert_ite]
  by_cases h : l = k <;> simp [h]

variable [DecidableEq V]

def fiber (t : Table K V) (v : V) : Finset K :=
  (t.keys.filter fun k => t.lookup k = some v).toFinset

@[simp] theorem mem_fiber : k ∈ t.fiber v ↔ t.lookup k = some v := by
  rw [fiber, List.mem_toFinset, List.mem_filter, decide_eq_true_eq]
  refine ⟨fun h => h.2, fun h => ⟨mem_keys.1 (lookup_isSome.1 ?_), h⟩⟩
  rw [h]
  rfl

theorem fiber_insert_self (t : Table K V) (k : K) (v : V) :
    fiber (t.insert k v) v = insert k (t.fiber v) := by
  ext l
  by_cases h : l = k <;> simp [h]

theorem fiber_insert_ne (t : Table K V) (k : K) (h : w ≠ v) :
    fiber (t.insert k v) w = (t.fiber w).erase k := by
  ext l
  by_cases hl : l = k <;> simp [hl, h.symm]

theorem fiber_erase (t : Table K V) (k : K) (w : V) :
    fiber (t.erase k) w = (t.fiber w).erase k := by
  ext l
  by_cases hl : l = k <;> simp [hl]

theorem notMem_fiber (h : t.lookup k = none) (w : V) : k ∉ t.fiber w := by
  rw [mem_fiber, h]
  nofun

theorem notMem_fiber_of_ne (h : t.lookup k = some v) (hw : w ≠ v) : k ∉ t.fiber w := by
  rw [mem_fiber, h]
  intro heq
  exact hw (Option.some.inj heq).symm

variable {n : Table V Nat}

def tallyUp (n : Table V Nat) (v : V) : Table V Nat := n.insert v ((n.lookup v).getD 0 + 1)

def tallyDown (n : Table V Nat) (v : V) : Table V Nat :=
  match n.lookup v with
  | none => n
  | some m => if m - 1 = 0 then n.erase v else n.insert v (m - 1)

/-- How often each value stands in the table, without entries for zero. -/
def Tallies (t : Table K V) (n : Table V Nat) : Prop :=
  ∀ v, n.lookup v = if (t.fiber v).card = 0 then none else some (t.fiber v).card

theorem lookup_tallyUp (n : Table V Nat) (v w : V) :
    (tallyUp n v).lookup w = if w = v then some ((n.lookup v).getD 0 + 1) else n.lookup w :=
  lookup_insert_ite n v w _

theorem lookup_tallyDown (n : Table V Nat) (v w : V) : (tallyDown n v).lookup w =
    if w = v then (n.lookup v).bind fun m => if m - 1 = 0 then none else some (m - 1)
    else n.lookup w := by
  unfold tallyDown
  cases hm : n.lookup v with
  | none =>
    by_cases h : w = v
    · subst h
      rw [if_pos rfl, hm]
      rfl
    · rw [if_neg h]
  | some m =>
    by_cases hz : m - 1 = 0
    · simp only [Option.bind_some, hz, if_true, lookup_erase_ite]
    · simp only [Option.bind_some, hz, if_false, lookup_insert_ite]

theorem Tallies.empty : Tallies (∅ : Table K V) ∅ := fun _ => rfl

theorem Tallies.insert_new (h : Tallies t n) (hk : t.lookup k = none) :
    Tallies (t.insert k v) (tallyUp n v) := by
  intro w
  rw [lookup_tallyUp]
  by_cases hw : w = v
  · subst hw
    rw [if_pos rfl, fiber_insert_self, Finset.card_insert_of_notMem (notMem_fiber hk w), h w]
    by_cases hz : (t.fiber w).card = 0
    · rw [hz]
      rfl
    rw [if_neg hz]
    rfl
  · rw [if_neg hw, fiber_insert_ne t k hw, Finset.erase_eq_of_notMem (notMem_fiber hk w)]
    exact h w

theorem Tallies.erase (h : Tallies t n) (hk : t.lookup k = some v) :
    Tallies (t.erase k) (tallyDown n v) := by
  intro w
  rw [lookup_tallyDown, fiber_erase]
  by_cases hw : w = v
  · subst hw
    have hm : k ∈ t.fiber w := mem_fiber.2 hk
    have hc := Finset.card_erase_of_mem hm
    have hne : (t.fiber w).card ≠ 0 := (Finset.card_pos.2 ⟨k, hm⟩).ne'
    rw [if_pos rfl, h w, if_neg hne, Option.bind_some, hc]
  · rw [if_neg hw, Finset.erase_eq_of_notMem (notMem_fiber_of_ne hk hw)]
    exact h w

theorem Tallies.congr {u : Table K V} (h : Tallies t n) (hu : ∀ k, u.lookup k = t.lookup k) :
    Tallies u n := by
  intro w
  have hf : u.fiber w = t.fiber w := by
    ext k
    rw [mem_fiber, mem_fiber, hu]
  rw [hf]
  exact h w

theorem Tallies.replace (h : Tallies t n) (hk : t.lookup k = some w) :
    Tallies (t.insert k v) (tallyUp (tallyDown n w) v) := by
  have hg : AList.lookup k (t.erase k) = none := by
    rw [lookup_erase]
  exact ((h.erase hk).insert_new hg).congr fun l => erase_insert_lookup t k l v

theorem Tallies.same (h : Tallies t n) (hk : t.lookup k = some v) : Tallies (t.insert k v) n := by
  refine h.congr fun l => ?_
  rw [lookup_insert_ite]
  by_cases hl : l = k
  · rw [if_pos hl, hl, hk]
  · rw [if_neg hl]

variable {b : Table V (Finset K)}

def bucketAdd (b : Table V (Finset K)) (k : K) (v : V) : Table V (Finset K) :=
  b.insert v (insert k ((b.lookup v).getD ∅))

def bucketRemove (b : Table V (Finset K)) (k : K) (v : V) : Table V (Finset K) :=
  match b.lookup v with
  | none => b
  | some keys => if keys.erase k = ∅ then b.erase v else b.insert v (keys.erase k)

/-- The keys of each value of the table, without empty buckets. -/
def Buckets (t : Table K V) (b : Table V (Finset K)) : Prop :=
  ∀ v, b.lookup v = if t.fiber v = ∅ then none else some (t.fiber v)

theorem Buckets.empty : Buckets (∅ : Table K V) ∅ := fun _ => rfl

theorem Buckets.getD (h : Buckets t b) (v : V) : (b.lookup v).getD ∅ = t.fiber v := by
  rw [h v]
  split
  case isTrue he => rw [he, Option.getD_none]
  case isFalse => rfl

theorem Buckets.add (h : Buckets t b) (hk : t.lookup k = none) :
    Buckets (t.insert k v) (bucketAdd b k v) := by
  intro w
  rw [bucketAdd, lookup_insert_ite, h.getD]
  by_cases hw : w = v
  · subst hw
    rw [if_pos rfl, fiber_insert_self, if_neg (Finset.insert_ne_empty k _)]
  rw [if_neg hw, fiber_insert_ne t k hw, Finset.erase_eq_of_notMem (notMem_fiber hk w)]
  exact h w

theorem Buckets.erase (h : Buckets t b) (hk : t.lookup k = some v) :
    Buckets (t.erase k) (bucketRemove b k v) := by
  intro w
  have hne : t.fiber v ≠ ∅ := Finset.ne_empty_of_mem (mem_fiber.2 hk)
  have hb : b.lookup v = some (t.fiber v) := by rw [h v, if_neg hne]
  rw [bucketRemove, hb, fiber_erase]
  by_cases hw : w = v
  · subst hw
    by_cases he : (t.fiber w).erase k = ∅
    · simp only [he, if_true, lookup_erase_ite]
    · simp only [he, if_false, lookup_insert_ite, if_true]
  · have hf : (t.fiber w).erase k = t.fiber w :=
      Finset.erase_eq_of_notMem (notMem_fiber_of_ne hk hw)
    rw [hf, ← h w]
    by_cases he : (t.fiber v).erase k = ∅
    · simp only [he, if_true, lookup_erase_ite, hw, if_false]
    · simp only [he, if_false, lookup_insert_ite, hw]

end AqEngine.Lib.Table

namespace AqEngine.Lib

variable {K : Type} [LinearOrder K] {s : Finset K} {k : K}

/-- The keys of an index in the order in which they are read. -/
def ascending (s : Finset K) : List K := s.sort

@[simp] theorem mem_ascending : k ∈ ascending s ↔ k ∈ s := Finset.mem_sort _

@[simp] theorem length_ascending : (ascending s).length = s.card := Finset.length_sort _

-- The equality test of the keys need not be the one that comes with their order.
variable [DecidableEq K]

@[simp] theorem toFinset_ascending : (ascending s).toFinset = s := by
  ext k
  rw [List.mem_toFinset, mem_ascending]

theorem card_take_ascending (s : Finset K) (limit : Nat) :
    ((ascending s).take limit).toFinset.card = min limit s.card := by
  have hn : ((ascending s).take limit).Nodup :=
    (s.sort_nodup _).sublist (List.take_sublist _ _)
  rw [List.toFinset_card_of_nodup hn, List.length_take, length_ascending]

end AqEngine.Lib
