import AqEngine.Lib.Index
import Mathlib.Algebra.Order.BigOperators.Group.List
import Mathlib.Tactic.Abel

namespace AqEngine.Lib.Table

open List

variable {K V M : Type} {t : Table K V} {k : K} {v : V}

section

variable [AddCommGroup M] {f : V → M}

def sum (f : V → M) (t : Table K V) : M := (t.entries.map fun row => f row.2).sum

theorem sum_mapKeyed {g : K → V → V} (hg : ∀ k v, f (g k v) = f v) (t : Table K V) :
    sum f (t.mapKeyed g) = sum f t := by
  simp [sum, mapKeyed, Function.comp_def, hg]

variable [DecidableEq K]

theorem sum_erase (h : t.lookup k = some v) : sum f (t.erase k) = sum f t - f v := by
  have hk : k ∈ t.entries.keys :=
    AList.mem_keys.1 (AList.lookup_isSome.1 (Option.isSome_of_eq_some h))
  obtain ⟨w, front, back, hn, he, her⟩ := exists_of_kerase hk
  have hv : v = w := by
    have hm' : (⟨k, w⟩ : Sigma fun _ : K => V) ∈ t.entries := by
      rw [he]
      exact mem_append_right _ mem_cons_self
    have hw := AList.mem_lookup_iff.2 hm'
    rw [h] at hw
    injection hw
  subst hv
  have hera : sum f (t.erase k) = ((front ++ back).map fun row => f row.2).sum := by
    rw [← her]
    rfl
  have hs : sum f t = ((front ++ ⟨k, v⟩ :: back).map fun row => f row.2).sum := by
    rw [← he]
    rfl
  rw [hera, hs]
  simp only [map_append, map_cons, sum_append, sum_cons]
  abel

theorem sum_insert_eq (f : V → M) (t : Table K V) (k : K) (v : V) :
    sum f (t.insert k v) = f v + sum f (t.erase k) := sum_cons

theorem erase_of_none (h : t.lookup k = none) : t.erase k = t :=
  AList.ext (kerase_of_notMem_keys fun hm => AList.lookup_eq_none.1 h (AList.mem_keys.2 hm))

theorem sum_insert (h : t.lookup k = none) : sum f (t.insert k v) = sum f t + f v := by
  rw [sum_insert_eq, erase_of_none h, add_comm]

theorem sum_replace {w : V} (h : t.lookup k = some w) :
    sum f (t.insert k v) = sum f t - f w + f v := by
  rw [sum_insert_eq, sum_erase h, add_comm]

end

def total (f : V → Int) (t : Table K V) : Int := (t.entries.map fun row => f row.2).sum

theorem total_nonneg {f : V → Int} (hf : ∀ v, 0 ≤ f v) (t : Table K V) : 0 ≤ total f t := by
  refine sum_nonneg fun n hn => ?_
  obtain ⟨row, -, rfl⟩ := mem_map.1 hn
  exact hf row.2

variable [DecidableEq K] {f : V → Int} {w : V}

theorem total_erase (h : t.lookup k = some v) : total f (t.erase k) = total f t - f v := sum_erase h

theorem total_insert (h : t.lookup k = none) :
    total f (t.insert k v) = total f t + f v := sum_insert h

theorem total_insert_eq (f : V → Int) (t : Table K V) (k : K) (v : V) :
    total f (t.insert k v) = f v + total f (t.erase k) := sum_insert_eq f t k v

theorem total_erase_getD (hw : f w = 0) (t : Table K V) (k : K) :
    total f (t.erase k) = total f t - f ((t.lookup k).getD w) := by
  cases h : t.lookup k with
  | none =>
    have hi : total f (t.insert k w) = total f t + f w := total_insert h
    rw [total_insert_eq] at hi
    rw [Option.getD_none]
    omega
  | some v => exact total_erase h

theorem total_replace (h : t.lookup k = some w) :
    total f (t.insert k v) = total f t - f w + f v := sum_replace h

theorem total_modify {g : V → V} (hg : ∀ v, f (g v) = f v) (t : Table K V) (k : K) :
    total f (t.modify k g) = total f t := by
  unfold modify
  split
  · rfl
  next v hv =>
  rw [total_replace hv, hg]
  omega

end AqEngine.Lib.Table
