import Mathlib.Init

namespace AqEngine.Lib

variable {σ α : Type} {step : σ → α → Option σ} {s s' : σ} {a : α} {as bs : List α}

/-- The state after the actions `as` one after another; there is none when
one of them is not possible. -/
def runs (step : σ → α → Option σ) : σ → List α → Option σ
  | s, [] => some s
  | s, a :: as => (step s a).bind fun s' => runs step s' as

theorem runs_cons : runs step s (a :: as) = some s' ↔
    ∃ t, step s a = some t ∧ runs step t as = some s' := Option.bind_eq_some_iff

/-- What holds first and is kept by every step holds in the state reached. -/
theorem runs_invariant {P : σ → Prop} (hstep : ∀ s a s', P s → step s a = some s' → P s')
    (hs : P s) (h : runs step s as = some s') : P s' := by
  induction as generalizing s with
  | nil =>
    cases h
    exact hs
  | cons a as ih =>
    obtain ⟨t, ht, h⟩ := runs_cons.1 h
    exact ih (hstep s a t hs ht) h

/-- The same for runs in which every action is taken under a condition, on the
actions that follow it too. -/
theorem runs_invariant_before {P : σ → List α → Prop} {ok : σ → α → List α → Prop}
    (hstep : ∀ s a as s', P s (a :: as) → ok s a as → step s a = some s' → P s' as) (hs : P s as)
    (hok : ∀ bs a cs t, as = bs ++ a :: cs → runs step s bs = some t → ok t a cs)
    (h : runs step s as = some s') : P s' [] := by
  induction as generalizing s with
  | nil =>
    cases h
    exact hs
  | cons a as ih =>
    obtain ⟨t, ht, h⟩ := runs_cons.1 h
    refine ih (hstep s a as t hs (hok [] a as s rfl rfl) ht) ?_ h
    intro bs b cs u hbs hu
    exact hok (a :: bs) b cs u (by rw [hbs, List.cons_append]) (runs_cons.2 ⟨t, ht, hu⟩)

theorem runs_invariant_of {P : σ → Prop} {ok : σ → α → Prop}
    (hstep : ∀ s a s', P s → ok s a → step s a = some s' → P s') (hs : P s)
    (hok : ∀ bs a cs t, as = bs ++ a :: cs → runs step s bs = some t → ok t a)
    (h : runs step s as = some s') : P s' :=
  runs_invariant_before (P := fun s _ => P s) (fun s a _ s' => hstep s a s') hs hok h

/-- Where every step is possible and keeps what holds, so is every run. -/
theorem runs_total {P : σ → Prop} (hstep : ∀ s a, P s → ∃ s', step s a = some s' ∧ P s')
    (hs : P s) (as : List α) : ∃ s', runs step s as = some s' ∧ P s' := by
  induction as generalizing s with
  | nil => exact ⟨s, rfl, hs⟩
  | cons a as ih =>
    obtain ⟨t, ht, hP⟩ := hstep s a hs
    obtain ⟨s', hs', hP'⟩ := ih hP
    exact ⟨s', runs_cons.2 ⟨t, ht, hs'⟩, hP'⟩

/-- Whether every action of a run is taken under a condition. -/
def guarded (step : σ → α → Option σ) (ok : σ → α → Bool) : σ → List α → Bool
  | _, [] => true
  | s, a :: as => ok s a && (step s a).all fun s' => guarded step ok s' as

theorem ok_of_guarded {ok : σ → α → Bool} {cs : List α} (h : guarded step ok s as = true)
    (has : as = bs ++ a :: cs) (hbs : runs step s bs = some s') : ok s' a = true := by
  subst has
  induction bs generalizing s with
  | nil =>
    cases hbs
    rw [List.nil_append, guarded, Bool.and_eq_true] at h
    exact h.1
  | cons b bs ih =>
    obtain ⟨t, ht, hbs⟩ := runs_cons.1 hbs
    rw [List.cons_append, guarded, Bool.and_eq_true, ht] at h
    exact ih hbs h.2

end AqEngine.Lib
