import Mathlib.Algebra.Group.Nat.Defs
import Mathlib.Data.List.Pairwise
import Mathlib.Tactic.Common

namespace AqEngine.Broker

open List Option

def maxWaiters : Nat := 4096

/-- A caller that waits for the permit of an account. `notified` is a wake-up
that it has not received, `checking` one that it received and did not act upon:
it is about to look at the lane. -/
structure Waiter where
  id : Nat
  cleanup : Bool
  (notified checking : Bool := false)
  deriving DecidableEq

/-- The queue of an account lane. The two maps of waiters are one list in the
order of their ids. `permits` counts the permits that are held. -/
structure LaneQueue where
  active : Bool := false
  sequence : Nat := 0
  waiting : List Waiter := []
  permits : Nat := 0
  deriving DecidableEq

inductive LaneAction where
  | acquire (cleanup : Bool)
  | receive (id : Nat)
  | check (id : Nat)
  | cancel (id : Nat)
  | release

namespace LaneQueue

variable (l : LaneQueue)

/-- Cleanup first, and the oldest within each priority. -/
def next : Option Waiter := (l.waiting.find? (·.cleanup)).or (l.waiting.find? fun w => !w.cleanup)

def modify (id : Nat) (f : Waiter → Waiter) : LaneQueue :=
  { l with waiting := l.waiting.map fun w => if w.id = id then f w else w }

def remove (id : Nat) : LaneQueue := { l with waiting := l.waiting.filter (·.id ≠ id) }

def wake : LaneQueue :=
  if l.active then l
  else l.next.elim l fun w => l.modify w.id ({ · with notified := true })

def grant : LaneQueue := { l with active := true, permits := l.permits + 1 }

def acquire (cleanup : Bool) : LaneQueue :=
  if !l.active && !l.waiting.any (·.cleanup) && (cleanup || l.waiting.isEmpty) then l.grant
  else if maxWaiters ≤ l.waiting.countP (·.cleanup = cleanup) then l
  else if 2 ^ 64 ≤ l.sequence + 1 then l
  else wake { l with
    sequence := l.sequence + 1
    waiting := l.waiting ++ [{ id := l.sequence, cleanup := cleanup }] }

def check (id : Nat) : LaneQueue :=
  if !l.active && l.next.any (·.id = id) then (l.remove id).grant
  else l.modify id ({ · with checking := false })

/-- The steps of the callers. A waiter can be dropped while it waits, whether
it was notified or not, but not while it looks at the lane. -/
def act : LaneAction → LaneQueue
  | .acquire cleanup => l.acquire cleanup
  | .receive id =>
    if l.waiting.any fun w => w.id = id && w.notified && !w.checking then
      l.modify id ({ · with notified := false, checking := true })
    else l
  | .check id => if l.waiting.any fun w => w.id = id && w.checking then l.check id else l
  | .cancel id =>
    if l.waiting.any fun w => w.id = id && !w.checking then (l.remove id).wake else l
  | .release =>
    if 0 < l.permits then wake { l with active := false, permits := l.permits - 1 } else l

def run (actions : List LaneAction) : LaneQueue := actions.foldl act {}

end LaneQueue

def Waiter.Before (w v : Waiter) : Prop :=
  w.cleanup = true ∧ v.cleanup = false ∨ w.cleanup = v.cleanup ∧ w.id < v.id

namespace LaneQueue

variable {l : LaneQueue}

def First (l : LaneQueue) (w : Waiter) : Prop := w ∈ l.waiting ∧ ∀ v ∈ l.waiting, v = w ∨ w.Before v

/-- The step gives a permit to a new caller past whom nobody waits, or to the
waiter that is served before all others. -/
def Grants (l : LaneQueue) (a : LaneAction) : Prop :=
  (∃ cleanup, a = .acquire cleanup ∧ ∀ w ∈ l.waiting, cleanup = true ∧ w.cleanup = false) ∨
    ∃ w, l.First w ∧ a = .check w.id ∧ (l.act a).waiting = l.waiting.filter (·.id ≠ w.id)

/-- Waiters stand in the order of their arrival, and `active` says whether a
permit is held. -/
structure Ordered (l : LaneQueue) : Prop where
  held : l.permits = l.active.toNat
  sorted : l.waiting.Pairwise (·.id < ·.id)
  fresh : ∀ w ∈ l.waiting, w.id < l.sequence

/-- If no permit is held, the waiter whose turn it is has a wake-up that it
did not act upon. -/
def Woken (l : LaneQueue) : Prop :=
  l.active = false → ∀ w, l.next = some w → w.notified = true ∨ w.checking = true

theorem next_first (hs : l.waiting.Pairwise (·.id < ·.id)) {w : Waiter}
    (hn : l.next = some w) : l.First w := by
  rw [next, or_eq_some_iff] at hn
  obtain hf | ⟨hno, hf⟩ := hn
  all_goals
    obtain ⟨hw, front, back, hsp, hfr⟩ := find?_eq_some_iff_append.mp hf
    rw [hsp, pairwise_append, pairwise_cons] at hs
    refine ⟨by simp [hsp], fun v hv => ?_⟩
    have hm := hv
    rw [hsp, mem_append, mem_cons] at hv
  · obtain hv | rfl | hv := hv
    · exact .inr (.inl ⟨hw, by simpa using hfr v hv⟩)
    · exact .inl rfl
    · refine .inr ?_
      cases hc : v.cleanup with
      | false => exact .inl ⟨hw, hc⟩
      | true => exact .inr ⟨by rw [hw, hc], hs.2.1.1 v hv⟩
  · have hc : v.cleanup = false := by simpa using find?_eq_none.mp hno v hm
    obtain hv | rfl | hv := hv
    · simpa [hc] using hfr v hv
    · exact .inl rfl
    · exact .inr (.inr ⟨by simpa [hc] using hw, hs.2.1.1 v hv⟩)

theorem First.unique {w v : Waiter} (hw : l.First w) (hv : l.First v) : w = v := by
  obtain rfl | hwv := hw.2 v hv.1
  · rfl
  obtain rfl | hvw := hv.2 w hw.1
  · rfl
  obtain ⟨hc, hn⟩ | ⟨hc, hlt⟩ := hwv <;> obtain ⟨hc', hn'⟩ | ⟨hc', hlt'⟩ := hvw
  · exact absurd (hc.symm.trans hn') nofun
  · exact absurd (hc.symm.trans (hc'.symm.trans hn)) nofun
  · exact absurd (hc'.symm.trans (hc.symm.trans hn')) nofun
  · exact absurd hlt' (Nat.lt_asymm hlt)

theorem next_isSome (h : l.waiting ≠ []) : ∃ w, l.next = some w := by
  obtain ⟨v, hv⟩ := exists_mem_of_ne_nil _ h
  rw [← isSome_iff_exists, next, isSome_or, Bool.or_eq_true]
  cases hc : v.cleanup with
  | false => exact .inr (find?_isSome.mpr ⟨v, hv, by simp [hc]⟩)
  | true => exact .inl (find?_isSome.mpr ⟨v, hv, hc⟩)

theorem Ordered.modify (h : l.Ordered) {f : Waiter → Waiter} (hid : ∀ w, (f w).id = w.id)
    (id : Nat) : (l.modify id f).Ordered := by
  have hs (w : Waiter) : (if w.id = id then f w else w).id = w.id := by
    split
    · exact hid w
    · rfl
  refine ⟨h.held, ?_, ?_⟩
  · simpa only [LaneQueue.modify, pairwise_map, hs] using h.sorted
  · simpa [LaneQueue.modify, hs] using h.fresh

theorem next_of_modify {f : Waiter → Waiter} (hc : ∀ w, (f w).cleanup = w.cleanup)
    {id : Nat} {v : Waiter} (hv : (l.modify id f).next = some v) :
    ∃ w, l.next = some w ∧ v = if w.id = id then f w else w := by
  have hs (w : Waiter) : (if w.id = id then f w else w).cleanup = w.cleanup := by
    split
    · exact hc w
    · rfl
  have hm : (l.modify id f).next = l.next.map fun w => if w.id = id then f w else w := by
    simp only [next, modify, find?_map, Function.comp_def, hs, map_or]
  rw [hm, map_eq_some_iff] at hv
  obtain ⟨w, hw, rfl⟩ := hv
  exact ⟨w, hw, rfl⟩

section

variable (h : l.Ordered)
include h

theorem Ordered.wake : l.wake.Ordered ∧ l.wake.Woken := by
  rw [LaneQueue.wake]
  split
  next ha => exact ⟨h, fun hi => by simp [ha] at hi⟩
  next hi =>
    cases hn : l.next with
    | none => exact ⟨h, fun _ w hw => by simp [hn] at hw⟩
    | some w =>
      refine ⟨h.modify (by simp) w.id, fun _ v hv => .inl ?_⟩
      obtain ⟨u, hu, rfl⟩ := next_of_modify (by simp) hv
      obtain rfl := Option.some.inj (hn.symm.trans hu)
      rw [if_pos rfl]

theorem Ordered.remove (id : Nat) : (l.remove id).Ordered :=
  ⟨h.held, h.sorted.filter _, fun w hw => h.fresh w (mem_filter.mp hw).1⟩

theorem Ordered.grant (hi : l.active = false) : l.grant.Ordered ∧ l.grant.Woken :=
  ⟨⟨by simp [LaneQueue.grant, h.held, hi], h.sorted, h.fresh⟩, nofun⟩

theorem Ordered.acquire (hwo : l.Woken) (cleanup : Bool) :
    (l.acquire cleanup).Ordered ∧ (l.acquire cleanup).Woken := by
  rw [LaneQueue.acquire]
  split_ifs with hf hfu hl
  · exact h.grant (by simp_all)
  · exact ⟨h, hwo⟩
  · exact ⟨h, hwo⟩
  · refine Ordered.wake ⟨h.held, ?_, ?_⟩
    · simpa [pairwise_append] using ⟨h.sorted, h.fresh⟩
    · simp only [mem_append, mem_singleton]
      rintro w (hw | rfl)
      · exact Nat.lt_succ_of_lt (h.fresh w hw)
      · exact Nat.lt_succ_self _

theorem Ordered.check (hwo : l.Woken) (id : Nat) :
    (l.check id).Ordered ∧ (l.check id).Woken := by
  rw [LaneQueue.check]
  split
  next hturn => exact (h.remove id).grant (by simp_all [LaneQueue.remove])
  next hturn =>
    refine ⟨h.modify (by simp) id, fun hi v hv => ?_⟩
    replace hi : l.active = false := hi
    obtain ⟨w, hw, rfl⟩ := next_of_modify (by simp) hv
    have ho : w.id ≠ id := by simpa [hi, hw] using hturn
    rw [if_neg ho]
    exact hwo hi w hw

theorem Ordered.act (hwo : l.Woken) (a : LaneAction) :
    (l.act a).Ordered ∧ (l.act a).Woken := by
  cases a with
  | acquire cleanup => exact h.acquire hwo cleanup
  | receive id =>
    rw [LaneQueue.act]
    split
    · refine ⟨h.modify (by simp) id, fun hi v hv => ?_⟩
      obtain ⟨w, hw, rfl⟩ := next_of_modify (by simp) hv
      split
      · exact .inr rfl
      · exact hwo hi w hw
    · exact ⟨h, hwo⟩
  | check id =>
    rw [LaneQueue.act]
    split
    · exact h.check hwo id
    · exact ⟨h, hwo⟩
  | cancel id =>
    rw [LaneQueue.act]
    split
    · exact (h.remove id).wake
    · exact ⟨h, hwo⟩
  | release =>
    rw [LaneQueue.act]
    split
    next _ =>
      refine Ordered.wake ⟨?_, h.sorted, h.fresh⟩
      have hb := Bool.toNat_le l.active
      have hc := h.held
      simp only [Bool.toNat_false]
      omega
    · exact ⟨h, hwo⟩

theorem Ordered.foldl (hw : l.Woken) (actions : List LaneAction) :
    (actions.foldl LaneQueue.act l).Ordered ∧ (actions.foldl LaneQueue.act l).Woken :=
  List.foldlRecOn (motive := fun l => l.Ordered ∧ l.Woken) actions LaneQueue.act ⟨h, hw⟩
    fun _ hl a _ => hl.1.act hl.2 a

end

@[simp]
theorem permits_wake : l.wake.permits = l.permits := by
  rw [wake]
  split
  · rfl
  · cases l.next <;> rfl

theorem grants_of_lt (h : l.Ordered) {a : LaneAction} (hg : l.permits < (l.act a).permits) :
    l.Grants a := by
  cases a with
  | acquire cleanup =>
    rw [act, acquire] at hg
    split_ifs at hg with hf hfu hl
    · refine .inl ⟨cleanup, rfl, fun w hw => ?_⟩
      simp only [Bool.and_eq_true, Bool.not_eq_true', Bool.or_eq_true, List.any_eq_false,
        Bool.not_eq_true, List.isEmpty_iff] at hf
      refine ⟨hf.2.resolve_right fun he => ?_, hf.1.2 w hw⟩
      simp [he] at hw
    · simp at hg
    · simp at hg
    · simp at hg
  | receive id =>
    rw [act] at hg
    split at hg <;> simp [modify] at hg
  | check id =>
    rw [act] at hg
    split_ifs at hg with hc
    · rw [check] at hg
      split_ifs at hg with hturn
      · have hwa : (l.act (.check id)).waiting = l.waiting.filter (·.id ≠ id) := by
          rw [act, if_pos hc, check, if_pos hturn, grant, remove]
        rw [Bool.and_eq_true, Option.any_eq_true] at hturn
        obtain ⟨w, hn, hid⟩ := hturn.2
        obtain rfl : w.id = id := of_decide_eq_true hid
        exact .inr ⟨w, next_first h.sorted hn, rfl, hwa⟩
      · simp [modify] at hg
    · simp at hg
  | cancel id =>
    rw [act] at hg
    split at hg <;> simp [remove] at hg
  | release =>
    rw [act] at hg
    split at hg <;> simp at hg
    omega

/-- What the lane owes its callers. A wake-up is delivered when the waiter has
looked at the lane. -/
structure Scheduled (l : LaneQueue) : Prop where
  single : l.permits ≤ 1
  arrival : l.waiting.Pairwise (·.id < ·.id) ∧ ∀ w ∈ l.waiting, w.id < l.sequence
  grants : ∀ a, l.permits < (l.act a).permits → l.Grants a
  woken : l.permits = 0 → l.waiting ≠ [] →
    ∃ w, l.First w ∧ (w.notified = true ∨ w.checking = true)
  served : l.permits = 0 → ∀ w, l.First w → w.checking = true → (l.act (.check w.id)).permits = 1

/-- After any steps of the callers at most one permit is held, permits are given
cleanup first and in the order of arrival, and no wake-up is lost. -/
theorem lane_schedule (actions : List LaneAction) : (run actions).Scheduled := by
  have hst : Ordered {} := ⟨rfl, .nil, nofun⟩
  obtain ⟨h, hwo⟩ : (run actions).Ordered ∧ (run actions).Woken := hst.foldl nofun actions
  have hidle : (run actions).permits = 0 → (run actions).active = false := by simp [h.held]
  refine ⟨?_, ⟨h.sorted, h.fresh⟩, fun a => grants_of_lt h, fun hfree hwa => ?_,
    fun hfree w hw hc => ?_⟩
  · rw [h.held]
    exact Bool.toNat_le _
  · obtain ⟨w, hne⟩ := next_isSome hwa
    exact ⟨w, next_first h.sorted hne, hwo (hidle hfree) w hne⟩
  · obtain ⟨v, hne⟩ := next_isSome (ne_nil_of_mem hw.1)
    obtain rfl := hw.unique (next_first h.sorted hne)
    have hlooks : (run actions).waiting.any (fun v => v.id = w.id && v.checking) = true :=
      any_eq_true.2 ⟨w, hw.1, by simp [hc]⟩
    rw [act, if_pos hlooks, check, if_pos (by simp [hidle hfree, hne])]
    simp [grant, remove, hfree]

end LaneQueue

end AqEngine.Broker
