import Mathlib.Data.List.Basic

namespace AqEngine.Lib

open List

variable {κ β : Type} {waits waits' : κ → β → Prop} {key : β → κ} {queue front back : List β}

/-- Whatever an entry of the queue has to wait for stands before it. -/
def Ahead (waits : κ → β → Prop) (key : β → κ) (queue : List β) : Prop :=
  ∀ front b back, queue = front ++ b :: back → ∀ k, waits k b → k ∈ front.map key

namespace Ahead

theorem nil : Ahead waits key [] := by
  intro front b back h
  exact absurd h (by simp)

theorem mono (h : Ahead waits key queue) (hi : ∀ k, ∀ b ∈ queue, waits' k b → waits k b) :
    Ahead waits' key queue := by
  intro front b back hq k hk
  have hb : b ∈ queue := by
    rw [hq]
    exact mem_append_right _ mem_cons_self
  exact h front b back hq k (hi k b hb hk)

theorem front_of_append (h : Ahead waits key (front ++ back)) : Ahead waits key front := by
  intro before b after hf k hk
  refine h before b (after ++ back) ?_ k hk
  rw [hf, append_assoc, cons_append]

theorem of_isPrefix (h : Ahead waits key queue) (hle : front <+: queue) :
    Ahead waits key front := by
  obtain ⟨back, rfl⟩ := hle
  exact h.front_of_append

theorem back_of_append (h : Ahead waits key (front ++ back))
    (hleft : ∀ k, ∀ b ∈ back, waits k b → k ∉ front.map key) : Ahead waits key back := by
  intro before b after hb k hk
  have hm := h (front ++ before) b after (by rw [hb, append_assoc]) k hk
  rw [map_append, mem_append] at hm
  refine hm.resolve_left (hleft k b ?_ hk)
  rw [hb]
  exact mem_append_right _ mem_cons_self

theorem map_iff {γ : Type} {f : γ → β} {items : List γ} : Ahead waits key (items.map f) ↔
      Ahead (fun k item => waits k (f item)) (fun item => key (f item)) items := by
  constructor
  · intro h front item back hi k hk
    have hm := h (front.map f) (f item) (back.map f) (by simp [hi]) k hk
    rwa [map_map] at hm
  · intro h front b back hq k hk
    obtain ⟨before, rest, rfl, rfl, hrest⟩ := map_eq_append_iff.1 hq
    obtain ⟨item, after, rfl, rfl, -⟩ := map_eq_cons_iff.1 hrest
    rw [map_map]
    exact h before item after rfl k hk

/-- A sorted queue that holds all that its entries wait for. -/
theorem of_pairwise {le : β → β → Prop} (hs : queue.Pairwise le)
    (hh : ∀ b ∈ queue, ∀ k, waits k b → ∃ b' ∈ queue, key b' = k ∧ ¬le b b' ∧ b' ≠ b) :
    Ahead waits key queue := by
  intro front b back hq k hk
  have hb : b ∈ queue := by
    rw [hq]
    exact mem_append_right _ mem_cons_self
  obtain ⟨b', hb', hke, hle, hne⟩ := hh b hb k hk
  rw [hq] at hb' hs
  obtain hb' | hb' := mem_append.1 hb'
  · exact mem_map.2 ⟨b', hb', hke⟩
  obtain rfl | hb' := mem_cons.1 hb'
  · exact absurd rfl hne
  obtain ⟨-, hs, -⟩ := pairwise_append.1 hs
  exact absurd (rel_of_pairwise_cons hs hb') hle

end Ahead

end AqEngine.Lib
