import AqEngine.Lib.Runs
import Mathlib.Logic.Relation
import Mathlib.Tactic.Common

namespace AqEngine.Lib

/-- What a task does with the locks `L` and the data `σ` behind them. -/
inductive Code (L σ : Type) where
  | done
  | lock (l : L) (next : Code L σ)
  | unlock (l : L) (next : Code L σ)
  | act (f : σ → σ) (next : Code L σ)
  | branch (p : σ → Bool) (yes no : Code L σ)

structure Task (L σ : Type) where
  code : Code L σ
  held : List L := []

structure Tasks (L σ : Type) where
  data : σ
  tasks : List (Task L σ) := []

namespace Tasks

variable {L σ : Type}

/-- The task `k` waits for a lock that the task `j` holds. -/
def Waits (s : Tasks L σ) (k j : Nat) : Prop :=
  ∃ t u l next, s.tasks[k]? = some t ∧ t.code = .lock l next ∧ s.tasks[j]? = some u ∧ l ∈ u.held

def Deadlocked (s : Tasks L σ) : Prop := ∃ k, Relation.TransGen s.Waits k k

inductive Move (L σ : Type) where
  | start (code : Code L σ)
  | run (k : Nat)

/-- A task starts, or one that is not done takes its next step. A lock can be
taken while no task holds it. -/
def step [DecidableEq L] (s : Tasks L σ) : Move L σ → Option (Tasks L σ)
  | .start code => some { s with tasks := s.tasks ++ [⟨code, []⟩] }
  | .run k => (s.tasks[k]?).bind fun t =>
    match t.code with
    | .done => none
    | .lock l next =>
      if ∃ u ∈ s.tasks, l ∈ u.held then none
      else some { s with tasks := s.tasks.set k ⟨next, l :: t.held⟩ }
    | .unlock l next => some { s with tasks := s.tasks.set k ⟨next, t.held.erase l⟩ }
    | .act f next => some ⟨f s.data, s.tasks.set k ⟨next, t.held⟩⟩
    | .branch p yes no =>
      some { s with tasks := s.tasks.set k ⟨if p s.data then yes else no, t.held⟩ }

/-- Whether the next step of a task depends on the data. -/
def branches (s : Tasks L σ) : Move L σ → Bool
  | .start _ => false
  | .run k => (s.tasks[k]?).any fun t => match t.code with
    | .branch _ _ _ => true
    | _ => false

end Tasks

variable {L σ : Type} [DecidableEq L] {rank : L → Nat} {ok : σ → Prop}

/-- Each lock is taken above those that are held, on the branches that data
with `ok` can take. -/
def Code.Ordered (rank : L → Nat) (ok : σ → Prop) : List L → Code L σ → Prop
  | _, .done => True
  | held, .lock l next => (∀ m ∈ held, rank m < rank l) ∧ next.Ordered rank ok (l :: held)
  | held, .unlock l next => next.Ordered rank ok (held.erase l)
  | held, .act _ next => next.Ordered rank ok held
  | held, .branch p yes no =>
    ∀ d, ok d → if p d then yes.Ordered rank ok held else no.Ordered rank ok held

def Tasks.Ordered (rank : L → Nat) (ok : σ → Prop) (s : Tasks L σ) : Prop :=
  ∀ t ∈ s.tasks, t.code.Ordered rank ok t.held

namespace Tasks

variable {s s' : Tasks L σ} {j k : Nat}

theorem Ordered.set {data : σ} {t : Task L σ} (h : s.Ordered rank ok)
    (ht : t.code.Ordered rank ok t.held) : Ordered rank ok ⟨data, s.tasks.set k t⟩ := by
  intro u hu
  obtain hu | rfl := List.mem_or_eq_of_mem_set hu
  · exact h u hu
  · exact ht

theorem Ordered.step {m : Move L σ} (h : s.Ordered rank ok) (hok : s.branches m = true → ok s.data)
    (hm : ∀ code, m = .start code → code.Ordered rank ok []) (hs : s.step m = some s') :
    s'.Ordered rank ok := by
  cases m with
  | start code =>
    cases hs
    intro t ht
    obtain ht | rfl := by simpa using ht
    · exact h t ht
    · exact hm code rfl
  | run k =>
    obtain ⟨⟨code, held⟩, hk, hs⟩ := Option.bind_eq_some_iff.1 hs
    have ht := h _ (List.mem_of_getElem? hk)
    cases code with
    | done => cases hs
    | lock l next =>
      dsimp only at hs
      split at hs
      · cases hs
      · cases hs
        exact h.set ht.2
    | unlock l next | act f next =>
      cases hs
      exact h.set ht
    | branch p yes no =>
      cases hs
      refine h.set ?_
      have hd := ht _ (hok (by rw [branches, hk]; rfl))
      split at hd
      · rwa [if_pos ‹_›]
      · rwa [if_neg ‹_›]

/-- Along the tasks that wait for each other the locks they wait for rise. -/
theorem Ordered.rises (h : s.Ordered rank ok) (hkj : Relation.TransGen s.Waits k j) :
    ∃ t l next, s.tasks[k]? = some t ∧ t.code = .lock l next ∧
      ∀ u m after, s.tasks[j]? = some u → u.code = .lock m after → rank l < rank m := by
  induction hkj with
  | single hw =>
    obtain ⟨t, u, l, next, ht, hc, hu, hl⟩ := hw
    refine ⟨t, l, next, ht, hc, ?_⟩
    intro v m after hv hcode
    obtain rfl := Option.some.inj (hu.symm.trans hv)
    have ho := h u (List.mem_of_getElem? hu)
    rw [hcode] at ho
    exact ho.1 l hl
  | tail _ hw ih =>
    obtain ⟨t, l, next, ht, hc, hlt⟩ := ih
    obtain ⟨u, v, m, after, hu, hcu, hv, hm⟩ := hw
    refine ⟨t, l, next, ht, hc, ?_⟩
    intro w n rest hw hcw
    obtain rfl := Option.some.inj (hv.symm.trans hw)
    have ho := h v (List.mem_of_getElem? hv)
    rw [hcw] at ho
    exact Nat.lt_trans (hlt u m after hu hcu) (ho.1 m hm)

theorem Ordered.not_deadlocked (h : s.Ordered rank ok) : ¬ s.Deadlocked := by
  rintro ⟨k, hk⟩
  obtain ⟨t, l, next, ht, hc, hlt⟩ := h.rises hk
  exact Nat.lt_irrefl _ (hlt t l next ht hc)

end Tasks

end AqEngine.Lib
