import Mathlib.Data.List.Range
import Mathlib.Data.List.Chain

namespace AqEngine.Lib

open List

variable {α : Type} {a b c n : Nat}

/-- The numbers after `a` up to `b`, in order. -/
def segment (a b : Nat) : List Nat := List.range' (a + 1) (b - a)

@[simp] theorem mem_segment : n ∈ segment a b ↔ a < n ∧ n ≤ b := by
  rw [segment, List.mem_range'_1]
  omega

theorem nodup_segment (a b : Nat) : (segment a b).Nodup := nodup_range'

theorem segment_append (hab : a ≤ b) (hbc : b ≤ c) : segment a b ++ segment b c = segment a c := by
  have hl : c - a = (b - a) + (c - b) := by omega
  have hs : a + 1 + 1 * (b - a) = b + 1 := by omega
  rw [segment, segment, segment, hl, ← List.range'_append, hs]

theorem eq_segment_of_getElem {l : List Nat} (hl : l.length = b - a)
    (h : ∀ i (hi : i < l.length), l[i] = a + i + 1) : l = segment a b := by
  apply ext_getElem
  · rw [segment, length_range', hl]
  · intro i hi _
    rw [h i hi]
    simp only [segment, getElem_range']
    omega

theorem getElem?_filterMap_range' {f : Nat → Option α} {m : Nat} (start : Nat)
    (h : ∀ i < m, (f (start + i)).isSome) :
    ((List.range' start m).filterMap f).length = m ∧
      ∀ i < m, ((List.range' start m).filterMap f)[i]? = f (start + i) := by
  induction m generalizing start with
  | zero => simp
  | succ m ih =>
    obtain ⟨x, hx⟩ := Option.isSome_iff_exists.1 (h 0 (Nat.succ_pos m))
    rw [Nat.add_zero] at hx
    obtain ⟨hl, hg⟩ := ih (start + 1) fun i hi => by
      have := h (i + 1) (Nat.succ_lt_succ hi)
      rwa [← Nat.add_assoc, Nat.add_right_comm] at this
    rw [List.range'_succ, filterMap_cons_some hx]
    refine ⟨by rw [length_cons, hl], fun i hi => ?_⟩
    cases i with
    | zero => exact hx.symm
    | succ i =>
      rw [getElem?_cons_succ, hg i (Nat.lt_of_succ_lt_succ hi), Nat.add_right_comm,
        Nat.add_assoc]

/-- Pieces that start where the one before ends make up one segment, however
it was cut. -/
theorem flatMap_segment (lo hi : α → Nat) (first : α) (rest : List α)
    (hle : ∀ x ∈ first :: rest, lo x ≤ hi x)
    (hn : (first :: rest).IsChain fun x y => lo y = hi x) :
    (first :: rest).flatMap (fun x => segment (lo x) (hi x)) =
      segment (lo first) (hi ((first :: rest).getLast (cons_ne_nil first rest))) ∧
    hi first ≤ hi ((first :: rest).getLast (cons_ne_nil first rest)) := by
  induction rest generalizing first with
  | nil => simp
  | cons second rest ih =>
    obtain ⟨hlo, hrest⟩ := isChain_cons_cons.1 hn
    obtain ⟨hf, hl⟩ := ih second (fun x hx => hle x (mem_cons_of_mem first hx)) hrest
    have hfi := hle first mem_cons_self
    have hs := hle second (mem_cons_of_mem first mem_cons_self)
    rw [flatMap_cons, hf]
    constructor
    · rw [hlo]
      exact segment_append hfi (hlo ▸ hs.trans hl)
    · exact hlo ▸ hs.trans hl

end AqEngine.Lib
