import Mathlib.Init

namespace AqEngine.Lib.Fallible

open List

variable {ε α β : Type} {x : Except ε α} {f : α → Except ε β} {b : β}

theorem bind_ok (a : α) (f : α → Except ε β) : (Except.ok a >>= f) = f a := rfl

theorem bind_eq_ok : (x >>= f) = .ok b ↔ ∃ a, x = .ok a ∧ f a = .ok b := by
  cases x with
  | error e => exact ⟨fun h => (nomatch h), fun ⟨_, h, _⟩ => (nomatch h)⟩
  | ok a => exact ⟨fun h => ⟨a, rfl, h⟩, fun ⟨_, h, hb⟩ => by cases h; exact hb⟩

theorem map_eq_ok {g : α → β} (h : x.map g = .ok b) : ∃ a, x = .ok a ∧ g a = b := by
  cases x with
  | error => cases h
  | ok a => exact ⟨a, rfl, Except.ok.inj h⟩

theorem map_eq_error {g : α → β} {e : ε} (h : x.map g = .error e) : x = .error e := by
  cases x with
  | error =>
    cases h
    rfl
  | ok => cases h

theorem error_of_not_ok (h : ∀ a, x ≠ .ok a) : ∃ e, x = .error e := by
  cases x with
  | error e => exact ⟨e, rfl⟩
  | ok a => exact absurd rfl (h a)

def refuseIf (c : Prop) [Decidable c] (e : ε) : Except ε Unit :=
  if c then .error e else .ok ()

variable {c : Prop} [Decidable c] {e : ε}

theorem refuseIf_eq_ok {u : Unit} : refuseIf c e = .ok u ↔ ¬ c := by
  by_cases hc : c <;> simp [refuseIf]

theorem refuseIf_bind_eq_ok {g : Unit → Except ε β} :
    (refuseIf c e >>= g) = .ok b ↔ ¬ c ∧ g () = .ok b := by
  rw [bind_eq_ok]
  exact ⟨fun ⟨_, h, hg⟩ => ⟨refuseIf_eq_ok.1 h, hg⟩, fun ⟨h, hg⟩ => ⟨(), refuseIf_eq_ok.2 h, hg⟩⟩

theorem refuseIf_bind_of_not {g : Unit → Except ε β} (h : ¬ c) : (refuseIf c e >>= g) = g () := by
  rw [refuseIf, if_neg h, bind_ok]

theorem ite_error_eq_ok {y : Except ε α} {a : α} :
    (if c then Except.error e else y) = .ok a ↔ ¬ c ∧ y = .ok a := by
  by_cases hc : c <;> simp [hc]

variable {σ : Type} {step : σ → α → Except ε σ} {l : List α} {s s' : σ}

/-- What holds between the two states of every step holds between the first
and the last state of a loop. -/
theorem foldlM_rel {R : σ → σ → Prop} (refl : ∀ s, R s s) (trans : ∀ s t u, R s t → R t u → R s u)
    (hstep : ∀ s a t, a ∈ l → step s a = .ok t → R s t)
    (h : l.foldlM step s = .ok s') : R s s' := by
  induction l generalizing s with
  | nil =>
    cases h
    exact refl _
  | cons a l ih =>
    obtain ⟨t, ht, h⟩ := bind_eq_ok.1 h
    exact trans s t s' (hstep s a t mem_cons_self ht)
      (ih (fun s b t hb => hstep s b t (mem_cons_of_mem a hb)) h)

/-- A loop that succeeds reaches each of its items. -/
theorem foldlM_reaches {a : α} (ha : a ∈ l) (h : l.foldlM step s = .ok s') :
    ∃ l₁ l₂ t t', l = l₁ ++ a :: l₂ ∧ l₁.foldlM step s = .ok t ∧ step t a = .ok t' := by
  obtain ⟨l₁, l₂, rfl⟩ := append_of_mem ha
  rw [foldlM_append] at h
  obtain ⟨t, h₁, h⟩ := bind_eq_ok.1 h
  obtain ⟨t', ht, -⟩ := bind_eq_ok.1 h
  exact ⟨l₁, l₂, t, t', rfl, h₁, ht⟩

/-- What every step leaves behind for its item, and no later step of another
item undoes, holds of every item after the loop. -/
theorem foldlM_forall {P : α → σ → Prop} (hd : ∀ s a t, a ∈ l → step s a = .ok t → P a t)
    (hk : ∀ s a b t, [a, b].Sublist l → P a s → step s b = .ok t → P a t)
    (h : l.foldlM step s = .ok s') : ∀ a ∈ l, P a s' := by
  induction l generalizing s with
  | nil => simp
  | cons b l ih =>
    obtain ⟨t, ht, hrest⟩ := bind_eq_ok.1 h
    intro a ha
    rcases mem_cons.1 ha with rfl | ha
    · have hf := hd s a t mem_cons_self ht
      refine foldlM_rel (R := fun s t => P a s → P a t) (fun _ hp => hp)
        (fun _ _ _ h h' hp => h' (h hp)) ?_ hrest hf
      intro s c t hc hs hp
      exact hk s a c t ((singleton_sublist.2 hc).cons_cons a) hp hs
    · exact ih (fun s c t hc => hd s c t (mem_cons_of_mem b hc))
        (fun s c d t hcd => hk s c d t (hcd.cons b)) hrest a ha

/-- What is kept about the items that were done holds of all of them after
the loop. -/
theorem foldlM_tracks {P : σ → List α → Prop}
    (hstep : ∀ s done a t, P s done → step s a = .ok t → P t (done ++ [a]))
    {done : List α} (hs : P s done) (h : l.foldlM step s = .ok s') : P s' (done ++ l) := by
  induction l generalizing s done with
  | nil =>
    cases h
    rwa [append_nil]
  | cons a l ih =>
    obtain ⟨t, ht, h⟩ := bind_eq_ok.1 h
    have := ih (hstep s done a t hs ht) h
    rwa [append_assoc] at this

/-- A loop succeeds when each of its steps does. -/
theorem foldlM_succeeds {P : σ → List α → Prop}
    (hstep : ∀ s done a rest, l = done ++ a :: rest → P s done →
      ∃ t, step s a = .ok t ∧ P t (done ++ [a]))
    (hs : P s []) : ∃ s', l.foldlM step s = .ok s' ∧ P s' l := by
  suffices h : ∀ rest done s, l = done ++ rest → P s done →
      ∃ s', rest.foldlM step s = .ok s' ∧ P s' l from h l [] s rfl hs
  intro rest
  induction rest with
  | nil =>
    intro done s hl hs
    rw [append_nil] at hl
    exact ⟨s, rfl, hl ▸ hs⟩
  | cons a rest ih =>
    intro done s hl hs
    obtain ⟨t, ht, hP⟩ := hstep s done a rest hl hs
    obtain ⟨s', hs', hP'⟩ := ih (done ++ [a]) t (by rw [hl, append_assoc]; rfl) hP
    refine ⟨s', ?_, hP'⟩
    rw [foldlM_cons, ht]
    exact hs'

theorem foldlM_fixed (hstep : ∀ a ∈ l, step s a = .ok s) : l.foldlM step s = .ok s := by
  induction l with
  | nil => rfl
  | cons a l ih =>
    rw [foldlM_cons, hstep a mem_cons_self]
    exact ih fun b hb => hstep b (mem_cons_of_mem a hb)

/-- A loop whose steps change nothing changes nothing, or stops with an error. -/
theorem foldlM_stay (hstep : ∀ a ∈ l, step s a = .ok s ∨ ∃ e, step s a = .error e) :
    l.foldlM step s = .ok s ∨ ∃ e, l.foldlM step s = .error e := by
  induction l with
  | nil => exact .inl rfl
  | cons a l ih =>
    rw [foldlM_cons]
    rcases hstep a mem_cons_self with h | ⟨e, h⟩
    · rw [h]
      exact ih fun b hb => hstep b (mem_cons_of_mem a hb)
    rw [h]
    exact .inr ⟨e, rfl⟩

end AqEngine.Lib.Fallible
