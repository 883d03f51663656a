import AqEngine.Paper.Runs

namespace AqEngine.Paper

open List
open Broker (TradeUpdateEvent)

/-- The events of one submission. An order that cannot be paid at its own
price is turned down before it is pending. -/
inductive Lifecycle : List TradeUpdateEvent → Prop
  | refused : Lifecycle [.rejected]
  | pending : Lifecycle [.pendingNew]
  | rejected : Lifecycle [.pendingNew, .rejected]
  | cancelled : Lifecycle [.pendingNew, .cancelled]
  | filled (exits : Nat) : Lifecycle (.pendingNew :: .filled :: .replicate exits .partialFilled)
  | closed (exits : Nat) :
      Lifecycle (.pendingNew :: .filled :: (.replicate exits .partialFilled ++ [.closed]))

def Slot.submission : Slot → Option Nat
  | .vacant => none
  | .pending n _ => some n
  | .opened n _ => some n
  | .ended n => some n

/-- What the events of a submission tell about the slot it stands in. -/
inductive Tells (n : Nat) : Slot → List TradeUpdateEvent → Prop
  | pending {qty : Quantity} : Tells n (.pending n qty) [.pendingNew]
  | opened {lot : Lot} (exits : Nat) :
      Tells n (.opened n lot) (.pendingNew :: .filled :: .replicate exits .partialFilled)
  | ended {events : List TradeUpdateEvent} (h : Lifecycle events) : Tells n (.ended n) events
  | released {events : List TradeUpdateEvent} (h : Lifecycle events) : Tells n .vacant events

theorem Tells.lifecycle {n : Nat} {slot : Slot} {events : List TradeUpdateEvent}
    (h : Tells n slot events) : Lifecycle events := by
  cases h with
  | pending => exact .pending
  | opened exits => exact .filled exits
  | ended h => exact h
  | released h => exact h

namespace Book

variable {strays : Nat → Prop} {k k' : Book} {n m : Nat} {id : String} {slot : Slot}

def history (k : Book) (n : Nat) : List TradeUpdateEvent :=
  (k.emitted.filter (·.1 = n)).map Prod.snd

/-- A submission stands in one slot at most, and its events tell which. -/
structure Traced (k : Book) (n : Nat) : Prop where
  unused : k.submissions ≤ n → k.history n = [] ∧ ∀ id, (k.slots id).submission ≠ some n
  holder : ∀ i j, (k.slots i).submission = some n → (k.slots j).submission = some n → i = j
  tells : ∀ i, (k.slots i).submission = some n → Tells n (k.slots i) (k.history n)
  lifecycle : n < k.submissions → Lifecycle (k.history n)

theorem traced_start (cash : ℚ) (n : Nat) : (start cash).Traced n where
  unused _ := ⟨rfl, fun _ h => by cases h⟩
  holder _ _ h := by cases h
  tells _ h := by cases h
  lifecycle h := absurd h (Nat.not_lt_zero n)

theorem history_append (events : List TradeUpdateEvent)
    (he : k'.emitted = k.emitted ++ events.map (m, ·)) :
    k'.history n = k.history n ++ if m = n then events else [] := by
  rw [history, he, filter_append, map_append, filter_map]
  by_cases hm : m = n
  · simp [history, hm, Function.comp_def]
  · simp [history, hm, Function.comp_def]

theorem Traced.turn {old : Slot} (h : k.Traced n) (events : List TradeUpdateEvent)
    (hsl : k.slots id = old) (hold : old.submission = some m)
    (hk : slot.submission = some m ∨ slot.submission = none)
    (hs : k'.slots = Function.update k.slots id slot) (hc : k'.submissions = k.submissions)
    (he : k'.emitted = k.emitted ++ events.map (m, ·))
    (hte : ∀ told, Tells m old told → Tells m slot (told ++ events)) : k'.Traced n := by
  subst hsl
  have hhi : k'.history n = _ := history_append events he
  -- a submission gets no second slot
  have hh : ∀ i, (k'.slots i).submission = some n → (k.slots i).submission = some n := by
    intro i hi
    rw [hs] at hi
    by_cases hid : i = id
    · subst hid
      rw [Function.update_self] at hi
      obtain hsa | hn := hk
      · rw [hold, ← hsa, hi]
      rw [hn] at hi
      cases hi
    · rwa [Function.update_of_ne hid] at hi
  have hho := fun i j hi hj => h.holder i j (hh i hi) (hh j hj)
  by_cases hm : m = n
  · subst hm
    rw [if_pos rfl] at hhi
    have ht := hte _ (h.tells id hold)
    rw [← hhi] at ht
    refine ⟨fun hle => ?_, hho, fun i hi => ?_, fun _ => ht.lifecycle⟩
    · exact absurd hold ((h.unused (hc ▸ hle)).2 id)
    · obtain rfl := h.holder i id (hh i hi) hold
      rw [hs, Function.update_self]
      exact ht
  · rw [if_neg hm, append_nil] at hhi
    refine ⟨fun hle => ?_, hho, fun i hi => ?_, fun hlt => ?_⟩
    · have hu := h.unused (hc ▸ hle)
      exact ⟨hhi.trans hu.1, fun i hi => hu.2 i (hh i hi)⟩
    · have hid : i ≠ id := by
        rintro rfl
        exact hm (Option.some.inj (hold.symm.trans (hh i hi)))
      rw [hhi, hs, Function.update_of_ne hid]
      exact h.tells i (hh i hi)
    · rw [hhi]
      exact h.lifecycle (hc ▸ hlt)

theorem Traced.submit {slot : Nat → Slot} {event : TradeUpdateEvent} (h : k.Traced n)
    (hsl : ∀ m, (slot m).submission = some m) (ht : Tells n (slot n) [event]) :
    (k.submit id slot event).Traced n := by
  have hh : (k.submit id slot event).history n = _ := history_append [event] rfl
  have hs : (k.submit id slot event).slots = Function.update k.slots id (slot k.submissions) := rfl
  by_cases hn : k.submissions = n
  · subst hn
    obtain ⟨he, hno⟩ := h.unused le_rfl
    rw [he, if_pos rfl, nil_append] at hh
    have hid : ∀ i, ((k.submit id slot event).slots i).submission = some k.submissions →
      i = id := by
      intro i hi
      by_contra hne
      rw [hs, Function.update_of_ne hne] at hi
      exact hno i hi
    refine ⟨fun hle => absurd hle (Nat.not_succ_le_self _),
      fun i j hi hj => (hid i hi).trans (hid j hj).symm, fun i hi => ?_, fun _ => ?_⟩
    · rw [hid i hi, hh, hs, Function.update_self]
      exact ht
    · rw [hh]
      exact ht.lifecycle
  · rw [if_neg hn, append_nil] at hh
    have hid : ∀ i, ((k.submit id slot event).slots i).submission = some n → i ≠ id ∧
        (k.submit id slot event).slots i = k.slots i := by
      intro i hi
      by_cases hne : i = id
      · rw [hs, hne, Function.update_self, hsl] at hi
        exact absurd (Option.some.inj hi) hn
      · exact ⟨hne, by rw [hs, Function.update_of_ne hne]⟩
    have hhe : ∀ i, ((k.submit id slot event).slots i).submission = some n →
        (k.slots i).submission = some n := fun i hi => (hid i hi).2 ▸ hi
    refine ⟨fun hle => ?_, fun i j hi hj => h.holder i j (hhe i hi) (hhe j hj), fun i hi => ?_,
      fun hlt => ?_⟩
    · have hu := h.unused ((Nat.le_succ _).trans hle)
      exact ⟨hh.trans hu.1, fun i hi => hu.2 i (hhe i hi)⟩
    · rw [hh, (hid i hi).2]
      exact h.tells i (hhe i hi)
    · rw [hh]
      exact h.lifecycle ((Nat.lt_succ_iff.1 hlt).lt_of_ne (Ne.symm hn))

theorem Traced.move (h : k.Traced n) (hn : ¬ strays n) (hm : Move strays k k') : k'.Traced n := by
  cases hm with
  | accept _ _ hs => exact h.submit (fun _ => rfl) .pending
  | refuse _ hs => exact h.submit (fun _ => rfl) (.ended .refused)
  | resize hs =>
    refine h.turn [] hs rfl (.inl rfl) rfl rfl (by simp [put]) fun _ ht => ?_
    cases ht
    exact .pending
  | reject hs =>
    refine h.turn [.rejected] hs rfl (.inl rfl) rfl rfl rfl fun _ ht => ?_
    cases ht
    exact .ended .rejected
  | cancel hs =>
    refine h.turn [.cancelled] hs rfl (.inl rfl) rfl rfl rfl fun _ ht => ?_
    cases ht
    exact .ended .cancelled
  | fill hs =>
    refine h.turn [.filled] hs rfl (.inl rfl) rfl rfl rfl fun _ ht => ?_
    cases ht
    exact .opened 0
  | reduce hs =>
    refine h.turn [.partialFilled] hs rfl (.inl rfl) rfl rfl rfl fun _ ht => ?_
    cases ht with
    | opened exits =>
      rw [cons_append, cons_append, ← replicate_succ']
      exact .opened (exits + 1)
  | close hs =>
    refine h.turn [.closed] hs rfl (.inl rfl) rfl rfl rfl fun _ ht => ?_
    cases ht with
    | opened exits => exact .ended (.closed exits)
  | release hs =>
    refine h.turn [] hs rfl (.inr rfl) rfl rfl (by simp [put]) fun _ ht => ?_
    rw [append_nil]
    exact .released ht.lifecycle
  | @stray m hst =>
    have ho : m ≠ n := by
      rintro rfl
      exact hn hst
    have hh : (k.note m .cancelled).history n = k.history n := by
      rw [history_append [.cancelled] rfl, if_neg ho, append_nil]
    exact ⟨hh ▸ h.unused, h.holder, hh ▸ h.tells, hh ▸ h.lifecycle⟩

end Book

namespace PaperBroker

def history (b : PaperBroker) (n : Nat) : List TradeUpdateEvent :=
  (b.emitted.filter (·.order.submission = n)).map (·.event)

/-- The events of every submission that no stray cancellation names. -/
theorem order_lifecycle (cash : ℚ) (leverage : Nat) (fees : AssetFees) (actions : List Action)
    (n : Nat) (hn : n < ((PaperBroker.new cash leverage fees).run actions).submissions)
    (hstray : n ∉ (PaperBroker.new cash leverage fees).strayCancels actions) :
    Lifecycle (((PaperBroker.new cash leverage fees).run actions).history n) := by
  obtain ⟨k, hmo, h⟩ : Leads (· ≠ n) _ _ :=
    reaches_run (stands_new cash leverage fees) actions fun m hm => ne_of_mem_of_not_mem hm hstray
  have htr : k.Traced n := hmo.invariant (P := fun k => k.Traced n)
    (fun _ _ h hmov => h.move (fun hne => hne rfl) hmov) (Book.traced_start cash n)
  have hhi : k.history n = ((PaperBroker.new cash leverage fees).run actions).history n := by
    rw [Book.history, history, ← h.tallies.emitted, filter_map, map_map]
    rfl
  rw [← hhi]
  exact htr.lifecycle (h.tallies.submissions ▸ hn)

theorem order_lifecycle_closed :
    Lifecycle (((PaperBroker.new 100 1 {}).run [.submit (sampleRequest .simple none) sampleIds,
      sampleStep, .close "entry" 1 none, sampleStep,
      .close "entry" 0 none, sampleStep]).history 0) :=
  order_lifecycle 100 1 {} _ 0 (by decide +kernel) (by decide +kernel)

/-- An order that cannot be paid is never pending. A cancelled leg is reported
as the cancellation of its order, and a second cancellation is reported again. -/
theorem stray_cancellations :
    ((PaperBroker.new 1 1 {}).run [.submit (sampleRequest .simple (some 10)) sampleIds]).history 0 =
      [.rejected] ∧
    ((PaperBroker.new 100 1 {}).run [.submit (sampleRequest .bracket none) sampleIds, sampleStep,
      .cancel "take"]).history 0 = [.pendingNew, .filled, .cancelled] ∧
    ((PaperBroker.new 100 1 {}).run [.submit (sampleRequest .simple none) sampleIds,
      .cancel "entry", .cancel "entry"]).history 0 = [.pendingNew, .cancelled, .cancelled] := by
  decide +kernel

end PaperBroker

end AqEngine.Paper
