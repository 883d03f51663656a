import Mathlib.Data.List.Basic
import Mathlib.Order.Lattice

namespace AqEngine.Lib

variable {E T : Type} [LinearOrder T] {stamp : E → T} {l : List E} {e e' x : E}

/-- One of the entries, with a stamp that no entry exceeds. -/
structure Newest (stamp : E → T) (l : List E) (e : E) : Prop where
  mem : e ∈ l
  le : ∀ x ∈ l, stamp x ≤ stamp e

theorem Newest.unique (hs : ∀ x ∈ l, ∀ y ∈ l, stamp x = stamp y → x = y)
    (h : Newest stamp l e) (h' : Newest stamp l e') : e = e' :=
  hs e h.mem e' h'.mem (le_antisymm (h'.le e h.mem) (h.le e' h'.mem))

/-- A register that took the entries of `l` in some order: it holds nothing
before the first of them and a newest one after it. -/
inductive Holds (stamp : E → T) (R : Option E → Prop) (l : List E) : Prop
  | nothing (hl : l = []) (hR : R none)
  | newest (e : E) (he : Newest stamp l e) (hR : R (some e))

variable {R R' : Option E → Prop}

theorem Holds.skip (h : Holds stamp R l) (hs : ¬ R none)
    (hx : ∀ e, R (some e) → stamp x ≤ stamp e) : Holds stamp R (l ++ [x]) := by
  cases h with
  | nothing _ h => exact absurd h hs
  | newest e he h =>
    refine .newest e ⟨List.mem_append_left _ he.mem, fun y hy => ?_⟩ h
    rcases List.mem_append.1 hy with hy | hy
    · exact he.le y hy
    rw [List.mem_singleton.1 hy]
    exact hx e h

theorem Holds.take (h : Holds stamp R l) (hx : ∀ e, R (some e) → stamp e ≤ stamp x)
    (hR : R' (some x)) : Holds stamp R' (l ++ [x]) := by
  refine .newest x ⟨List.mem_append_right _ List.mem_cons_self, fun y hy => ?_⟩ hR
  rcases List.mem_append.1 hy with hy | hy
  · cases h with
    | nothing hl =>
      rw [hl] at hy
      cases hy
    | newest e he h => exact (he.le y hy).trans (hx e h)
  · rw [List.mem_singleton.1 hy]

end AqEngine.Lib
