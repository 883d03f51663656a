import Mathlib.Data.List.AList

namespace AqEngine.Lib

open List AList

/-- A program point that the program asserts to be unreachable. -/
inductive Panic where
  | expectFailed (message : String)
  deriving DecidableEq, Repr

def expect {α : Type} (value : Option α) (message : String) : Except Panic α :=
  match value with
  | some a => .ok a
  | none => .error (.expectFailed message)

inductive ReservationState where
  | awaitingProof | confirmed
  deriving DecidableEq, Repr

structure Reservation (V : Type) where
  payload : V
  state : ReservationState

/-- What an outcome proves about the resource that was reserved for it. -/
inductive Settlement where
  | uncertain | refused | confirmed
  deriving DecidableEq, Repr

/-- Reservations by key, with the completion times of the confirmed ones in
the order in which they were confirmed. -/
structure Reservations (K V : Type) [DecidableEq K] where
  completed : List (K × Int) := []
  held : AList (fun _ : K => Reservation V) := ∅

namespace Reservations

variable {K V : Type} [DecidableEq K]

def reserve (k : K) (payload : V) (r : Reservations K V) : Reservations K V :=
  { r with held := r.held.insert k ⟨payload, .awaitingProof⟩ }

def release (k : K) (r : Reservations K V) : Reservations K V := { r with held := r.held.erase k }

/-- Only a reservation that still awaits proof is settled. A refusal frees
it; a confirmation keeps it until a later observation covers it. -/
def settle (k : K) (settlement : Settlement) (now : Int) (r : Reservations K V) :
    Except Panic (Reservations K V) :=
  if (r.held.lookup k).map (·.state) ≠ some .awaitingProof then .ok r
  else
    match settlement with
    | .uncertain => .ok r
    | .refused => .ok (r.release k)
    | .confirmed => do
      let entry ← expect (r.held.lookup k) "reservation was validated"
      .ok { completed := r.completed ++ [(k, now)]
            held := r.held.insert k { entry with state := .confirmed } }

/-- Drops completions from the front while they precede the observation,
together with their reservations. -/
def retireFront (observed : Int) :
    List (K × Int) → AList (fun _ : K => Reservation V) → Except Panic (Reservations K V)
  | [], held => .ok ⟨[], held⟩
  | front :: rest, held =>
    if front.2 < observed then do
      let popped ← expect (front :: rest).head? "front was present"
      retireFront observed rest (held.erase popped.1)
    else .ok ⟨front :: rest, held⟩

/-- Drops the completions that precede the observation and whose payload it
is about. -/
def retireWhere (about : V → Bool) (observed : Int) (r : Reservations K V) : Reservations K V :=
  let retired := (r.completed.filter fun c =>
    decide (c.2 < observed) && (r.held.lookup c.1).any (about ·.payload)).map (·.1)
  { completed := r.completed.filter fun c => !retired.contains c.1
    held := retired.foldl (fun held k => held.erase k) r.held }

/-- The completions are those of the confirmed reservations, once each. -/
structure WellFormed (r : Reservations K V) : Prop where
  nodup : (r.completed.map Prod.fst).Nodup
  confirmed : ∀ k, k ∈ r.completed.map Prod.fst ↔
    (r.held.lookup k).map (·.state) = some .confirmed

def Holds (r : Reservations K V) (k : K) (payload : V) : Prop :=
  (r.held.lookup k).map (·.payload) = some payload

/-- A reservation that is gone was refused while it awaited proof, or was
confirmed before the time up to which its payload has been observed. -/
def Accounted (refuses : K → Prop) (seen : V → Option Int) (before after : Reservations K V) :
    Prop :=
  ∀ k payload, before.Holds k payload → after.Holds k payload ∨
    refuses k ∧ (before.held.lookup k).map (·.state) = some .awaitingProof ∨
    ∃ done time, (before.held.lookup k).map (·.state) = some .confirmed ∧
      (k, done) ∈ before.completed ∧ seen payload = some time ∧ done < time

theorem wellFormed_empty : (⟨[], ∅⟩ : Reservations K V).WellFormed := by
  constructor <;> simp

variable {r : Reservations K V} {k : K} {refuses : K → Prop} {seen : V → Option Int}

theorem Accounted.refl (r : Reservations K V) : Accounted refuses seen r r := fun _ _ h => .inl h

theorem Accounted.mono {refuses' : K → Prop} {before after : Reservations K V}
    (h : Accounted refuses seen before after) (hr : ∀ k, refuses k → refuses' k) :
    Accounted refuses' seen before after :=
  fun k payload hk => (h k payload hk).imp_right (.imp_left (.imp_left (hr k)))

theorem Accounted.reserve {before : Reservations K V} (h : Accounted refuses seen before r)
    (payload : V) (hk : k ∉ r.held) : Accounted refuses seen before (r.reserve k payload) := by
  intro j held hj
  refine (h j held hj).imp_left fun hr => ?_
  have hne : j ≠ k := by
    rintro rfl
    rw [Holds, lookup_eq_none.mpr hk] at hr
    cases hr
  rwa [Holds, Reservations.reserve, lookup_insert_ne hne]

theorem holds_reserve (r : Reservations K V) (k : K) (payload : V) :
    (r.reserve k payload).Holds k payload := by
  rw [Holds, Reservations.reserve, lookup_insert]
  rfl

theorem WellFormed.state_of_completed (h : r.WellFormed) {done : Int}
    (hm : (k, done) ∈ r.completed) : (r.held.lookup k).map (·.state) = some .confirmed :=
  (h.confirmed k).mp (mem_map.mpr ⟨_, hm, rfl⟩)

theorem WellFormed.reserve (h : r.WellFormed) (payload : V) (hk : k ∉ r.held) :
    (r.reserve k payload).WellFormed where
  nodup := h.nodup
  confirmed := fun j => by
    by_cases hj : j = k
    · subst hj
      have hn : r.held.lookup j = none := lookup_eq_none.mpr hk
      have ho := (h.confirmed j).not.mpr (by simp [hn])
      simpa [Reservations.reserve] using ho
    · rw [Reservations.reserve, lookup_insert_ne hj]
      exact h.confirmed j

theorem settle_cases (r : Reservations K V) (k : K) (settlement : Settlement) (now : Int) :
    r.settle k settlement now = .ok r ∨
    (r.held.lookup k).map (·.state) = some .awaitingProof ∧
      (settlement = .refused ∧ r.settle k settlement now = .ok (r.release k) ∨
        settlement = .confirmed ∧ ∃ entry, r.held.lookup k = some entry ∧
          r.settle k settlement now =
            .ok { completed := r.completed ++ [(k, now)]
                  held := r.held.insert k { entry with state := .confirmed } }) := by
  by_cases hs : (r.held.lookup k).map (·.state) = some .awaitingProof
  · obtain ⟨entry, he, -⟩ := Option.map_eq_some_iff.mp hs
    cases settlement with
    | uncertain => exact .inl (by simp [settle, hs])
    | refused => exact .inr ⟨hs, .inl ⟨rfl, by simp [settle, hs]⟩⟩
    | confirmed =>
        refine .inr ⟨hs, .inr ⟨rfl, entry, he, ?_⟩⟩
        rw [settle, if_neg (not_not.mpr hs), he]
        rfl
  · exact .inl (by simp [settle, hs])

theorem WellFormed.release (h : r.WellFormed)
    (hk : (r.held.lookup k).map (·.state) = some .awaitingProof) :
    (r.release k).WellFormed where
  nodup := h.nodup
  confirmed := fun j => by
    by_cases hj : j = k
    · subst hj
      have ho := (h.confirmed j).not.mpr (by simp [hk])
      simpa [Reservations.release] using ho
    rw [Reservations.release, lookup_erase_ne hj]
    exact h.confirmed j

theorem WellFormed.confirm (h : r.WellFormed) {entry : Reservation V} (now : Int)
    (hk : (r.held.lookup k).map (·.state) = some .awaitingProof) :
    (⟨r.completed ++ [(k, now)], r.held.insert k { entry with state := .confirmed }⟩ :
      Reservations K V).WellFormed where
  nodup := by
    have ho := (h.confirmed k).not.mpr (by simp [hk])
    simpa [nodup_append, h.nodup] using fun a b hab hak => ho (by simpa [← hak] using ⟨b, hab⟩)
  confirmed := fun j => by
    by_cases hj : j = k
    · subst hj
      simp
    have hi := h.confirmed j
    simp only [mem_map] at hi ⊢
    rw [lookup_insert_ne hj, ← hi]
    simp [Ne.symm hj]

/-- Settling never fails, and frees nothing but its own reservation on a
refusal that comes while that still awaits proof. -/
theorem settle_spec (h : r.WellFormed) (k : K) (settlement : Settlement) (now : Int) :
    ∃ r', r.settle k settlement now = .ok r' ∧ r'.WellFormed ∧
      ∀ seen, Accounted (fun j => j = k ∧ settlement = .refused) seen r r' := by
  obtain hsa | ⟨hs, ⟨hre, hr⟩ | ⟨-, entry, he, hr⟩⟩ := settle_cases r k settlement now
  · exact ⟨r, hsa, h, fun _ => .refl r⟩
  · refine ⟨_, hr, h.release hs, fun seen j _ hj => ?_⟩
    by_cases hjk : j = k
    · exact .inr (.inl ⟨⟨hjk, hre⟩, hjk ▸ hs⟩)
    left
    rwa [Holds, Reservations.release, lookup_erase_ne hjk]
  · refine ⟨_, hr, h.confirm now hs, fun seen j _ hj => .inl ?_⟩
    by_cases hjk : j = k
    · subst hjk
      rw [Holds, he] at hj
      rwa [Holds, lookup_insert]
    · rwa [Holds, lookup_insert_ne hjk]

theorem WellFormed.pop {front : K × Int} {rest : List (K × Int)}
    {held : AList (fun _ : K => Reservation V)}
    (h : (⟨front :: rest, held⟩ : Reservations K V).WellFormed) :
    (⟨rest, held.erase front.1⟩ : Reservations K V).WellFormed := by
  obtain ⟨hn, hc⟩ := h
  simp only [map_cons, nodup_cons] at hn
  refine ⟨hn.2, fun j => ?_⟩
  by_cases hj : j = front.1
  · subst hj
    exact iff_of_false hn.1 (by simp)
  rw [lookup_erase_ne hj, ← hc j]
  simp [hj]

/-- Retiring from the front never fails, and frees only reservations whose
completion precedes the observation. -/
theorem retireFront_spec (observed : Int) {completed : List (K × Int)}
    {held : AList (fun _ : K => Reservation V)}
    (h : (⟨completed, held⟩ : Reservations K V).WellFormed) :
    ∃ r', retireFront observed completed held = .ok r' ∧ r'.WellFormed ∧
      Accounted refuses (fun _ => some observed) ⟨completed, held⟩ r' := by
  induction completed generalizing held with
  | nil => exact ⟨_, rfl, h, .refl _⟩
  | cons front rest ih =>
      unfold retireFront
      split
      · rename_i hlt
        obtain ⟨r', hr', hwf, hf⟩ := ih h.pop
        refine ⟨r', hr', hwf, fun j payload _ => ?_⟩
        by_cases hjf : j = front.1
        · have hm : (j, front.2) ∈ front :: rest := by simp [hjf]
          exact .inr (.inr ⟨front.2, observed, h.state_of_completed hm, hm, rfl, hlt⟩)
        have hl := lookup_erase_ne hjf (s := held)
        have hr := hf j payload (by rwa [Holds, hl])
        simp only [hl] at hr
        refine hr.imp_right (.imp_right ?_)
        rintro ⟨done, time, hs, hd, hrest⟩
        exact ⟨done, time, hs, mem_cons_of_mem _ hd, hrest⟩
      · exact ⟨_, rfl, h, .refl _⟩

theorem lookup_foldl_erase (keys : List K) (held : AList (fun _ : K => Reservation V)) (j : K) :
    (keys.foldl (fun held k => held.erase k) held).lookup j =
      if j ∈ keys then none else held.lookup j := by
  induction keys generalizing held with
  | nil => rfl
  | cons k keys ih =>
      rw [foldl_cons, ih]
      by_cases hjk : j = k
      · subst hjk
        simp
      · simp [hjk]

/-- Retiring by payload frees only confirmed reservations of that payload
whose completion precedes the observation. -/
theorem retireWhere_spec (h : r.WellFormed) (about : V → Bool) (observed : Int)
    (hs : ∀ payload, about payload = true → seen payload = some observed) :
    (r.retireWhere about observed).WellFormed ∧
      Accounted refuses seen r (r.retireWhere about observed) := by
  set retired := (r.completed.filter fun c =>
    decide (c.2 < observed) && (r.held.lookup c.1).any (about ·.payload)).map (·.1) with hr
  have hl : ∀ j, (r.retireWhere about observed).held.lookup j =
      if j ∈ retired then none else r.held.lookup j := lookup_foldl_erase retired r.held
  have hcom : (r.retireWhere about observed).completed =
      r.completed.filter fun c => !retired.contains c.1 := rfl
  refine ⟨⟨?_, fun j => ?_⟩, fun j payload hj => ?_⟩
  · exact h.nodup.sublist (filter_sublist.map Prod.fst)
  · rw [hl, hcom]
    by_cases hj : j ∈ retired
    · simp [hj]
    rw [if_neg hj, ← h.confirmed j]
    simp [hj]
  · by_cases hin : j ∈ retired
    · rw [mem_map] at hin
      obtain ⟨⟨k, done⟩, hm, rfl⟩ := hin
      obtain ⟨hc, hco⟩ := mem_filter.mp hm
      rw [Bool.and_eq_true, decide_eq_true_eq, Option.any_eq_true] at hco
      obtain ⟨hlt, entry, he, ha⟩ := hco
      obtain rfl : entry.payload = payload := by simpa [Holds, he] using hj
      exact .inr (.inr ⟨done, observed, h.state_of_completed hc, hc, hs _ ha, hlt⟩)
    · left
      rwa [Holds, hl, if_neg hin]

end Reservations

end AqEngine.Lib
