import AqEngine.Broker.Snapshots
import AqEngine.Insights.RecoverySweep
import AqEngine.Journal.Encoding

namespace AqEngine.Pipeline

open Lib Broker Insights Table

/-- The insights that wait for one topic, and how far the sweep over them is. -/
structure Group where
  ids : Finset Uuid
  nonempty : ids.Nonempty
  revision : Option SnapshotReadRevision := none
  (after upper : Option Uuid := none)
  (active rerun : Bool := false)

structure SnapshotDependencies where
  groups : Table SnapshotKind Group := ∅
  owners : Table Uuid SnapshotKind := ∅

def kind : InsightPipeDeferral → Option SnapshotKind
  | .accountSnapshot => some .account
  | .positionSnapshot => some .positions
  | .quoteSnapshot symbol => some (.quote symbol)
  | _ => none

namespace Group

variable (g : Group) (id : Uuid)

def insert : Option Group → Group
  | none => { ids := {id}, nonempty := Finset.singleton_nonempty id }
  | some g => { g with ids := Insert.insert id g.ids, nonempty := Finset.insert_nonempty id g.ids }

/-- A group without insights is none. -/
def without : Option Group :=
  if h : (g.ids.erase id).Nonempty then
    some { g with ids := g.ids.erase id, nonempty := h } else none

def enroll : Group :=
  if g.active then
    if g.after.any (id ≤ ·) || g.upper.any (· < id) then { g with rerun := true } else g
  else { g with active := true, after := none, upper := none }

def present (revision : SnapshotReadRevision) : Group :=
  if g.revision = some revision then g
  else if g.active && g.after.isSome then { g with revision := some revision, rerun := true }
  else { g with revision := some revision, active := true, after := none, upper := none }

def bound : Uuid := g.upper.getD (g.ids.max' g.nonempty)

def pick : Option Uuid :=
  if g.after.any (g.bound ≤ ·) then none
  else (InsightCollection.range g.after g.bound g.ids).head?

/-- The loop of `next`: a sweep that is over starts again once if it has to. -/
def sweep (g : Group) : Group × Option Uuid :=
  if g.active then
    match g.pick with
    | some id => ({ g with upper := some g.bound, after := some id }, some id)
    | none =>
      if g.rerun then sweep { g with rerun := false, after := none, upper := none }
      else ({ g with upper := some g.bound, active := false }, none)
  else (g, none)
termination_by g.rerun.toNat
decreasing_by simp_all

def Due : Prop :=
  g.active = true ∧ (g.rerun = true ∨ (∀ a ∈ g.after, a < id) ∧ ∀ u ∈ g.upper, id ≤ u)

variable {g id}

theorem le_bound (hid : id ∈ g.ids) (h : ∀ u ∈ g.upper, id ≤ u) : id ≤ g.bound := by
  unfold bound
  cases hu : g.upper with
  | none => exact Finset.le_max' _ _ hid
  | some upper => exact h upper hu

theorem pick_eq : g.pick = (InsightCollection.range g.after g.bound g.ids).head? := by
  unfold pick
  split
  · next hs => rw [InsightCollection.range_eq_nil hs, List.head?_nil]
  · rfl

theorem enroll_same (g : Group) (id : Uuid) :
    (g.enroll id).ids = g.ids ∧ (g.enroll id).revision = g.revision := by
  unfold enroll
  split
  · split <;> exact ⟨rfl, rfl⟩
  · exact ⟨rfl, rfl⟩

theorem present_same (g : Group) (revision : SnapshotReadRevision) :
    (g.present revision).ids = g.ids ∧ (g.present revision).revision = some revision := by
  unfold present
  split
  · next hs => exact ⟨rfl, hs⟩
  · split <;> exact ⟨rfl, rfl⟩

theorem due_enroll (hd : g.Due id) (other : Uuid) : (g.enroll other).Due id := by
  unfold enroll
  rw [if_pos hd.1]
  split
  · exact ⟨hd.1, .inl rfl⟩
  · exact hd

theorem enroll_due : (g.enroll id).Due id := by
  unfold enroll
  split
  · next ha =>
    split
    · exact ⟨ha, .inl rfl⟩
    next hi =>
    simp only [Bool.or_eq_true, Option.any_eq_true, decide_eq_true_eq, not_or, not_exists, not_and,
      not_le, not_lt] at hi
    exact ⟨ha, .inr hi⟩
  · exact ⟨rfl, .inr ⟨by simp, by simp⟩⟩

theorem present_due {revision : SnapshotReadRevision} (h : g.revision ≠ some revision) (id : Uuid) :
    (g.present revision).Due id := by
  unfold present
  rw [if_neg h]
  split
  · next ha => exact ⟨(Bool.and_eq_true _ _ ▸ ha).1, .inl rfl⟩
  · exact ⟨rfl, .inr ⟨by simp, by simp⟩⟩

theorem sweep_spec (g : Group) : g.sweep.1.ids = g.ids ∧ g.sweep.1.revision = g.revision ∧
    (g.sweep.2 = none → g.sweep.1.active = false) ∧
    ∀ id ∈ g.ids, g.Due id → g.sweep.2 = some id ∨ g.sweep.1.Due id := by
  have hs := fun g : Group => InsightCollection.range_pairwise g.after g.bound g.ids
  fun_induction sweep with
  | case1 g ha first hp =>
    refine ⟨rfl, rfl, by simp, fun id hid hd => ?_⟩
    obtain ⟨-, hr | ⟨haf, hu⟩⟩ := hd
    · exact .inr ⟨ha, .inl hr⟩
    have hle := le_bound hid hu
    have hm := InsightCollection.mem_range.2 ⟨hid, haf, hle⟩
    rw [pick_eq] at hp
    obtain ⟨rest, hra⟩ := List.head?_eq_some_iff.1 hp
    have hs := hs g
    rw [hra] at hm hs
    obtain rfl | hm := List.mem_cons.1 hm
    · exact .inl rfl
    have hl := (List.pairwise_cons.1 hs).1 id hm
    exact .inr ⟨ha, .inr ⟨by rintro _ ⟨⟩; exact hl, by rintro _ ⟨⟩; exact hle⟩⟩
  | case2 g ha hp hr ih =>
    obtain ⟨hi, hre, hn, hd⟩ := ih
    exact ⟨hi, hre, hn, fun id hid _ => hd id hid ⟨ha, .inr ⟨by simp, by simp⟩⟩⟩
  | case3 g ha hp hr =>
    refine ⟨rfl, rfl, fun _ => rfl, fun id hid hd => ?_⟩
    obtain ⟨haf, hu⟩ := hd.2.resolve_left hr
    have hm := InsightCollection.mem_range.2 ⟨hid, haf, le_bound hid hu⟩
    rw [pick_eq, List.head?_eq_none_iff] at hp
    rw [hp] at hm
    cases hm
  | case4 g ha => exact ⟨rfl, rfl, fun _ => by simpa using ha, fun _ _ hd => .inr hd⟩

end Group

namespace SnapshotDependencies

variable (s : SnapshotDependencies) (id : Uuid)

def remove : SnapshotDependencies :=
  match s.owners.lookup id with
  | none => s
  | some kind => ⟨s.groups.alter kind (·.bind (·.without id)), s.owners.erase id⟩

def update (dependency : Option InsightPipeDeferral) : SnapshotDependencies × Bool :=
  let next := dependency.bind kind
  if s.owners.lookup id = next then (s, false)
  else
    let s := s.remove id
    match next with
    | none => (s, false)
    | some next =>
      (⟨s.groups.alter next fun g => some ((Group.insert id g).enroll id),
        s.owners.insert id next⟩, true)

def next (kind : SnapshotKind) (revision : SnapshotReadRevision) :
    SnapshotDependencies × Option Uuid :=
  match s.groups.lookup kind with
  | none => (s, none)
  | some g =>
    let r := (g.present revision).sweep
    ({ s with groups := s.groups.insert kind r.1 }, r.2)

inductive Call where
  | update (id : Uuid) (dependency : Option InsightPipeDeferral)
  | remove (id : Uuid)
  | next (kind : SnapshotKind) (revision : SnapshotReadRevision)

inductive Event where
  | entered (id : Uuid) (kind : SnapshotKind)
  | asked (kind : SnapshotKind) (revision : SnapshotReadRevision) (answer : Option Uuid)

/-- The index with what happened to it, the latest first. -/
structure History where
  now : SnapshotDependencies := {}
  log : List Event := []

def perform (h : History) : Call → History
  | .update id dependency =>
    let r := h.now.update id dependency
    ⟨r.1, (if r.2 then (dependency.bind kind).toList.map (.entered id) else []) ++ h.log⟩
  | .remove id => { h with now := h.now.remove id }
  | .next kind revision =>
    let r := h.now.next kind revision
    ⟨r.1, .asked kind revision r.2 :: h.log⟩

def run (calls : List Call) : History := calls.foldl perform {}

/-- The topic returned the insight since it entered, and in the calls with the
present revision. -/
def Served (kind : SnapshotKind) (revision : SnapshotReadRevision) (id : Uuid) : List Event → Prop
  | [] => False
  | .entered id' kind' :: log => ¬(id' = id ∧ kind' = kind) ∧ Served kind revision id log
  | .asked kind' revision' answer :: log =>
    if kind' = kind then revision' = revision ∧ (answer = some id ∨ Served kind revision id log)
    else Served kind revision id log

def waiting (kind : SnapshotKind) : Finset Uuid := (s.groups.lookup kind).elim ∅ (·.ids)

/-- Every insight of the group was returned, or is still before the sweep. -/
def Fair (log : List Event) (kind : SnapshotKind) (g : Group) : Prop :=
  ∀ revision, g.revision = some revision → ∀ id ∈ g.ids, Served kind revision id log ∨ g.Due id

structure Sound (s : SnapshotDependencies) (log : List Event) : Prop where
  owned : ∀ kind, s.waiting kind = s.owners.fiber kind
  fair : ∀ kind g, s.groups.lookup kind = some g → Fair log kind g

variable {s id} {log : List Event} {k kind : SnapshotKind} {g : Group}
  {revision : SnapshotReadRevision}

theorem mem_waiting : id ∈ s.waiting k ↔ ∃ g, s.groups.lookup k = some g ∧ id ∈ g.ids := by
  unfold waiting
  cases s.groups.lookup k <;> simp

theorem owners_remove : (s.remove id).owners.lookup id = none := by
  unfold remove
  split
  · assumption
  · exact AList.lookup_erase _ _

theorem Sound.remove (h : Sound s log) (id : Uuid) : Sound (s.remove id) log := by
  unfold SnapshotDependencies.remove
  split
  · exact h
  next kind hkind =>
  refine ⟨fun k => ?_, fun k g hg => ?_⟩
  · rw [waiting, lookup_alter, fiber_erase, ← h.owned]
    split
    · next hk =>
      rw [hk, waiting]
      cases s.groups.lookup kind with
      | none => rfl
      | some g =>
        change Option.elim (g.without id) ∅ (·.ids) = g.ids.erase id
        unfold Group.without
        split
        · rfl
        · next he => exact (Finset.not_nonempty_iff_eq_empty.1 he).symm
    · next hk =>
      rw [Finset.erase_eq_of_notMem, waiting]
      rw [h.owned]
      exact notMem_fiber_of_ne hkind hk
  · rw [lookup_alter] at hg
    split at hg
    · next hk =>
      obtain ⟨g₀, hg₀, hg⟩ := Option.bind_eq_some_iff.1 hg
      unfold Group.without at hg
      split at hg
      · cases hg
        exact fun r hr id' hid => h.fair k g₀ (hk ▸ hg₀) r hr id' (Finset.mem_of_mem_erase hid)
      · cases hg
    · exact h.fair k g hg

theorem Sound.enter (h : Sound s log) (hfree : s.owners.lookup id = none) :
    Sound ⟨s.groups.alter k fun g => some ((Group.insert id g).enroll id), s.owners.insert id k⟩
      (.entered id k :: log) := by
  obtain ⟨hi, hsa⟩ := (Group.insert id (s.groups.lookup k)).enroll_same id
  have hm : (Group.insert id (s.groups.lookup k)).ids = Insert.insert id (s.waiting k) := by
    unfold waiting
    cases s.groups.lookup k <;> rfl
  rw [hm] at hi
  refine ⟨fun kind => ?_, fun kind g hg revision hr id' hid' => ?_⟩
  · rw [waiting, lookup_alter]
    split
    · next hk =>
      subst hk
      rw [fiber_insert_self, ← h.owned]
      exact hi
    · next hk =>
      rw [fiber_insert_ne _ _ hk, Finset.erase_eq_of_notMem (notMem_fiber hfree _),
        ← h.owned]
      rfl
  rw [lookup_alter] at hg
  split at hg
  · next hk =>
    subst hk
    cases hg
    rw [hi] at hid'
    obtain rfl | hold := Finset.mem_insert.1 hid'
    · exact .inr Group.enroll_due
    obtain ⟨g, hg, hid⟩ := mem_waiting.1 hold
    rw [hsa, hg] at hr
    rw [hg]
    refine (h.fair kind g hg revision hr id' hid).imp (fun hs => ⟨?_, hs⟩)
      fun hd => Group.due_enroll hd id
    rintro ⟨rfl, -⟩
    exact notMem_fiber hfree kind (h.owned kind ▸ hold)
  · next hne =>
    exact (h.fair kind g hg revision hr id' hid').imp_left fun hs => ⟨fun heq => hne heq.2.symm, hs⟩

theorem Sound.update (h : Sound s log) (id : Uuid) (dependency : Option InsightPipeDeferral) :
    Sound (perform ⟨s, log⟩ (.update id dependency)).now
      (perform ⟨s, log⟩ (.update id dependency)).log := by
  simp only [perform, SnapshotDependencies.update]
  generalize dependency.bind kind = next
  split
  · exact h
  cases next with
  | none => exact h.remove id
  | some next => exact (h.remove id).enter owners_remove

theorem Fair.asked {answer : Option Uuid} (h : Fair log kind g)
    (hne : kind ≠ k) : Fair (.asked k revision answer :: log) kind g := by
  intro revision' hr id hid
  rw [Served, if_neg hne.symm]
  exact h revision' hr id hid

theorem Fair.sweep (h : Fair log k g) :
    Fair (.asked k revision (g.present revision).sweep.2 :: log) k
      (g.present revision).sweep.1 := by
  obtain ⟨hi, hs, -, hd⟩ := (g.present revision).sweep_spec
  obtain ⟨hi', hs'⟩ := g.present_same revision
  intro revision' hr id hid
  cases hr.symm.trans (hs.trans hs')
  rw [hi] at hid
  have hc : Served k revision id log ∨ (g.present revision).Due id := by
    by_cases hp : g.revision = some revision
    · rw [Group.present, if_pos hp]
      exact h revision hp id (hi' ▸ hid)
    · exact .inr (Group.present_due hp id)
  rw [Served, if_pos rfl]
  obtain hse | hpending := hc
  · exact .inl ⟨rfl, .inr hse⟩
  · exact (hd id hid hpending).imp_left fun ha => ⟨rfl, .inl ha⟩

theorem Sound.next (h : Sound s log) (k : SnapshotKind) (revision : SnapshotReadRevision) :
    Sound (s.next k revision).1 (.asked k revision (s.next k revision).2 :: log) := by
  unfold SnapshotDependencies.next
  split
  · next hn =>
    refine ⟨h.owned, fun kind g hg => (h.fair kind g hg).asked ?_⟩
    rintro rfl
    cases hn.symm.trans hg
  next g hg =>
  refine ⟨fun kind => ?_, fun kind g' hg' => ?_⟩
  · rw [← h.owned, waiting, lookup_insert_ite, waiting]
    split
    · next hk =>
      rw [hk, hg]
      exact (g.present revision).sweep_spec.1.trans (g.present_same revision).1
    · rfl
  · obtain ⟨rfl, rfl⟩ | ⟨hne, hg'⟩ := lookup_insert_cases hg'
    · exact (h.fair kind g hg).sweep
    · exact (h.fair kind g' hg').asked hne

theorem next_idle (h : (s.next k revision).2 = none)
    (hg : (s.next k revision).1.groups.lookup k = some g) :
    g.active = false ∧ g.revision = some revision := by
  unfold SnapshotDependencies.next at h hg
  split at h
  · next hn =>
    rw [hn] at hg
    cases hn.symm.trans hg
  next g₀ hg₀ =>
  simp only [hg₀, AList.lookup_insert, Option.some.injEq] at hg
  obtain ⟨-, hr, hi, -⟩ := (g₀.present revision).sweep_spec
  subst hg
  exact ⟨hi h, hr.trans (g₀.present_same revision).2⟩

theorem sound_run (calls : List Call) : Sound (run calls).now (run calls).log := by
  induction calls using List.reverseRecOn with
  | nil => exact ⟨fun _ => rfl, by simp [run]⟩
  | append_singleton calls call ih =>
    rw [run, List.foldl_concat]
    cases call with
    | update id dependency => exact ih.update id dependency
    | remove id => exact ih.remove id
    | next kind revision => exact ih.next kind revision

/-- A topic that returns nothing has returned all the insights that wait for it,
each since it entered, in the calls with the present revision. -/
theorem snapshot_dependencies_fair (calls : List Call) :
    let h := run calls
    (∀ kind g, h.now.groups.lookup kind = some g → g.ids.Nonempty) ∧
    (∀ id kind, h.now.owners.lookup id = some kind ↔
      ∃ g, h.now.groups.lookup kind = some g ∧ id ∈ g.ids) ∧
    ∀ kind revision, (h.now.next kind revision).2 = none →
      ∀ g, (h.now.next kind revision).1.groups.lookup kind = some g → ∀ id ∈ g.ids,
        Served kind revision id (perform h (.next kind revision)).log := by
  intro h
  have hsou := sound_run calls
  refine ⟨fun _ g _ => g.nonempty, fun id kind => ?_, fun kind revision hno g hg id hid => ?_⟩
  · rw [← mem_fiber, ← hsou.owned, mem_waiting]
  obtain ⟨hidl, hrev⟩ := next_idle hno hg
  refine ((hsou.next kind revision).fair kind g hg revision hrev id hid).resolve_right ?_
  exact fun hdue => Bool.false_ne_true (hidl.symm.trans hdue.1)

end SnapshotDependencies

end AqEngine.Pipeline
