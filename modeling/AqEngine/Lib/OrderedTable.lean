import AqEngine.Lib.Table
import Mathlib.Algebra.Order.BigOperators.Group.List
import Mathlib.Algebra.Order.Ring.Nat
import Mathlib.Data.List.Sort

namespace AqEngine.Lib.Table

open List AList

section

variable {K V : Type} [LinearOrder K] {t u : Table K V} {k : K} {v : V}

def inOrder (t : Table K V) : List V := (t.entries.insertionSort fun a b => a.1 ≤ b.1).map (·.2)

def weight (t : Table K V) (f : V → Nat) : Nat := (t.entries.map fun e => f e.2).sum

theorem entries_perm (h : ∀ k, t.lookup k = u.lookup k) : t.entries.Perm u.entries := by
  apply lookup_ext t.nodupKeys u.nodupKeys
  intro k v
  change v ∈ t.lookup k ↔ v ∈ u.lookup k
  rw [h k]

theorem sorted_unique {l m : List (Sigma fun _ : K => V)} (hl : l.NodupKeys)
    (hsl : l.Pairwise fun a b => a.1 ≤ b.1) (hsm : m.Pairwise fun a b => a.1 ≤ b.1)
    (h : l.Perm m) : l = m := by
  refine List.Perm.eq_of_pairwise (fun a b ha hb hab hba => ?_) hsl hsm h
  exact List.NodupKeys.eq_of_fst_eq hl ha (h.mem_iff.2 hb) (le_antisymm hab hba)

instance : Std.Total fun a b : Sigma fun _ : K => V => a.1 ≤ b.1 := ⟨fun a b => le_total a.1 b.1⟩

instance : IsTrans (Sigma fun _ : K => V) fun a b => a.1 ≤ b.1 := ⟨fun _ _ _ => le_trans⟩

theorem inOrder_congr (h : ∀ k, t.lookup k = u.lookup k) : t.inOrder = u.inOrder := by
  have hp : (t.entries.insertionSort fun a b => a.1 ≤ b.1).Perm
      (u.entries.insertionSort fun a b => a.1 ≤ b.1) :=
    (perm_insertionSort _ _).trans ((entries_perm h).trans (perm_insertionSort _ _).symm)
  have hk : (t.entries.insertionSort fun a b => a.1 ≤ b.1).NodupKeys :=
    (perm_nodupKeys (perm_insertionSort _ _)).2 t.nodupKeys
  rw [inOrder, inOrder, sorted_unique hk (pairwise_insertionSort _ _)
    (pairwise_insertionSort _ _) hp]

theorem weight_congr (f : V → Nat) (h : ∀ k, t.lookup k = u.lookup k) :
    t.weight f = u.weight f := ((entries_perm h).map _).sum_eq

theorem weight_insert (f : V → Nat) (h : t.lookup k = none) :
    weight (t.insert k v) f = f v + t.weight f := by
  rw [weight, entries_insert_of_notMem (lookup_eq_none.1 h), map_cons,
    sum_cons, weight]

theorem weight_le (f : V → Nat) (h : ∀ k v, t.lookup k = some v → u.lookup k = some v) :
    t.weight f ≤ u.weight f := by
  have hs : t.entries ⊆ u.entries := fun e he =>
    mem_lookup_iff.1 (h e.1 e.2 (mem_lookup_iff.2 he))
  obtain ⟨l, hp, hsu⟩ := subperm_of_subset t.nodupKeys.nodup hs
  rw [weight, ← (hp.map _).sum_eq]
  exact (hsu.map _).sum_le_sum (fun _ _ => Nat.zero_le _)

end

variable {V : Type} {t : Table Nat V}

def ofList (l : List V) : Table Nat V where
  entries := l.mapIdx fun i v => ⟨i, v⟩
  nodupKeys := by
    have hrange : (l.mapIdx fun i v => (⟨i, v⟩ : Sigma fun _ : Nat => V)).keys =
        List.range l.length := by
      apply ext_getElem <;> simp [List.keys]
    rw [List.NodupKeys, hrange]
    exact nodup_range

theorem lookup_ofList (l : List V) (i : Nat) : (ofList l).lookup i = l[i]? := by
  ext v
  rw [← Option.mem_def, mem_lookup_iff, ofList, mem_mapIdx]
  constructor
  · rintro ⟨j, hj, heq⟩
    cases heq
    exact getElem?_eq_getElem hj
  · intro h
    obtain ⟨hi, rfl⟩ := List.getElem?_eq_some_iff.1 h
    exact ⟨i, hi, rfl⟩

theorem inOrder_ofList (l : List V) : (ofList l).inOrder = l := by
  have hs : (ofList l).entries.Pairwise fun a b => a.1 ≤ b.1 := by
    rw [pairwise_iff_getElem]
    intro i j hi hj hij
    simp only [ofList, getElem_mapIdx]
    exact hij.le
  rw [inOrder, List.Pairwise.insertionSort_eq hs]
  apply ext_getElem
  · simp [ofList]
  · simp [ofList]

theorem weight_ofList (f : V → Nat) (l : List V) : (ofList l).weight f = (l.map f).sum := by
  have hm : ((ofList l).entries.map fun e => f e.2) = l.map f := by
    apply ext_getElem
    · simp [ofList]
    · simp [ofList]
  rw [weight, hm]

theorem length_ofList (l : List V) : (ofList l).entries.length = l.length := by simp [ofList]

/-- As many rows as there are numbers below `n` fill all of them. -/
theorem exists_lookup_of_length {n i : Nat} (hlt : ∀ k v, t.lookup k = some v → k < n)
    (hl : t.entries.length = n) (hi : i < n) : ∃ v, t.lookup i = some v := by
  have hke : t.keys ⊆ List.range n := by
    intro k hk
    obtain ⟨v, hv⟩ := Option.isSome_iff_exists.1 (lookup_isSome.2 hk)
    exact mem_range.2 (hlt k v hv)
  have hp : t.keys.Perm (List.range n) := by
    refine (subperm_of_subset t.keys_nodup hke).perm_of_length_le ?_
    rw [length_range, ← hl, AList.keys, List.keys, length_map]
  exact Option.isSome_iff_exists.1
    (lookup_isSome.2 (AList.mem_keys.2 (hp.mem_iff.2 (mem_range.2 hi))))

end AqEngine.Lib.Table
