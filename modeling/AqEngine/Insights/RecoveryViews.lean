import AqEngine.Insights.Types
import AqEngine.Lib.Runs
import AqEngine.Lib.Totals
import Mathlib.Data.Finset.Insert

namespace AqEngine.Insights

open Lib List Table
open Function (update)

abbrev Dependencies (K : Type) [LinearOrder K] :=
  { ids : List K // ids.length ≤ 16 ∧ ids.Pairwise (· < ·) }

/-- A row with the templates embedded in it. `data` stands for what a view
shows besides the state. -/
structure TreeRow (K D : Type) [LinearOrder K] where
  id : K
  state : InsightState
  dependencies : Dependencies K
  data : D
  children : List (TreeRow K D)

variable {K D : Type} [LinearOrder K]

instance : EmptyCollection (Dependencies K) := ⟨⟨[], by simp⟩⟩

structure Retained (D : Type) where
  state : InsightState
  data : D
  materialized : Bool

def Retained.capture (row : TreeRow K D) (materialized : Bool) : Retained D :=
  ⟨row.state, row.data, materialized⟩

/-- `counts` is zero where the map has no entry. -/
structure RecoveryViews (K D : Type) [LinearOrder K] where
  owners : Table K (Dependencies K) := ∅
  counts : K → Nat := fun _ => 0
  retained : K → Option (Retained D) := fun _ => none

namespace RecoveryViews

variable (v : RecoveryViews K D)

/-- A dependency that is not registered would be a failed assertion. -/
def release (id : K) : Option (RecoveryViews K D) :=
  if v.counts id = 0 then none
  else some { v with
    counts := update v.counts id (v.counts id - 1)
    retained := if v.counts id = 1 then update v.retained id none else v.retained }

def register (id : K) : RecoveryViews K D :=
  { v with counts := update v.counts id (v.counts id + 1) }

def setOwner (owner : K) (ids : Dependencies K) : RecoveryViews K D :=
  { v with owners := if ids.1 = [] then v.owners.erase owner else v.owners.insert owner ids }

def depends (owner : K) : Dependencies K := (v.owners.lookup owner).getD ∅

def replace (owner : K) (ids : Dependencies K) : Option (RecoveryViews K D) :=
  let previous := v.depends owner
  if previous = ids then some v
  else do
    let v ← (previous.1.filter (· ∉ ids.1)).foldlM release v
    let v := (ids.1.filter (· ∉ previous.1)).foldl register v
    let v := v.setOwner owner ids
    some (if v.owners.entries.isEmpty then {} else v)

def refresh (row : TreeRow K D) : Option (RecoveryViews K D) :=
  replace { v with retained := update v.retained row.id none } row.id
    (if row.state.isActive then row.dependencies else ∅)

def removeOwner (owner : K) : Option (RecoveryViews K D) := v.replace owner ∅

def retain (row : TreeRow K D) (materialized : Bool) : RecoveryViews K D :=
  if v.counts row.id = 0 then v
  else { v with retained := update v.retained row.id (some (.capture row materialized)) }

mutual

/-- Templates that were materialized are passed over with all that is below. -/
def retainTemplate (materialized : Finset K) (v : RecoveryViews K D) :
    TreeRow K D → RecoveryViews K D
  | ⟨id, state, dependencies, data, children⟩ =>
    if id ∈ materialized then v
    else retainTemplates materialized
      (v.retain ⟨id, state, dependencies, data, children⟩ false) children

-- The stack of pending templates gives out the last one first.
def retainTemplates (materialized : Finset K) (v : RecoveryViews K D) :
    List (TreeRow K D) → RecoveryViews K D
  | [] => v
  | child :: rest => retainTemplate materialized (retainTemplates materialized v rest) child

end

def beforePrune (v : RecoveryViews K D) (row : TreeRow K D) (materialized : Finset K) :
    RecoveryViews K D :=
  if row.state.isInactive then retainTemplates materialized (v.retain row true) row.children
  else v

end RecoveryViews

/-- The part of the collection that its recovery views depend on: the ids of all
rows that were ever added. -/
structure ViewedRows (K D : Type) [LinearOrder K] where
  materialized : Finset K := ∅
  views : RecoveryViews K D := {}

/-- The collection refreshes a row that it holds, prunes such a row, or removes
the tracking of an id. Between the actions a row changes in any way. -/
inductive ViewAction (K D : Type) [LinearOrder K] where
  | refresh (row : TreeRow K D)
  | prune (row : TreeRow K D)
  | remove (id : K)

/-- The owner that an action is about, and what it depends on afterwards. -/
def ViewAction.declares : ViewAction K D → K × Dependencies K
  | .refresh row => (row.id, if row.state.isActive then row.dependencies else ∅)
  | .prune row => (row.id, ∅)
  | .remove id => (id, ∅)

namespace ViewedRows

def act (c : ViewedRows K D) : ViewAction K D → Option (ViewedRows K D)
  | .refresh row => do
    let views ← c.views.refresh row
    some ⟨insert row.id c.materialized, views⟩
  | .prune row => do
    let views :=
      if row.id ∈ c.materialized then c.views.beforePrune row c.materialized else c.views
    let views ← views.removeOwner row.id
    some { c with views }
  | .remove id => do
    let views ← c.views.removeOwner id
    some { c with views }

def run (actions : List (ViewAction K D)) : Option (ViewedRows K D) := runs act {} actions

end ViewedRows

namespace RecoveryViews

variable {v v' : RecoveryViews K D} {ids : List K}

def dependents (v : RecoveryViews K D) (id : K) : Int :=
  Table.total (fun ids => if id ∈ ids.1 then 1 else 0) v.owners

/-- Views go exactly with the counts that are zero. -/
def Drops (v v' : RecoveryViews K D) : Prop :=
  ∀ i, v'.retained i = if v'.counts i = 0 then none else v.retained i

theorem Drops.self (h : Drops v v') : Drops v' v' := fun i => by
  rw [h i]
  split <;> rfl

theorem Drops.release (h : Drops v v) {id : K} (hid : v.counts id ≠ 0) :
    ∃ v', v.release id = some v' ∧ v'.owners = v.owners ∧ Drops v v' ∧
      ∀ i, v'.counts i = v.counts i - if id = i then 1 else 0 := by
  refine ⟨_, if_neg hid, rfl, fun i => ?_, fun i => ?_⟩
  · have hi := h i
    by_cases hne : i = id <;> by_cases ho : v.counts id = 1 <;> grind [Function.update_apply]
  · by_cases hne : i = id <;> grind [Function.update_apply]

theorem Drops.releases (h : Drops v v) (hids : ids.Nodup) (hc : ∀ i ∈ ids, v.counts i ≠ 0) :
    ∃ v', ids.foldlM RecoveryViews.release v = some v' ∧ v'.owners = v.owners ∧ Drops v v' ∧
      ∀ i, v'.counts i = v.counts i - if i ∈ ids then 1 else 0 := by
  induction ids generalizing v with
  | nil => exact ⟨v, rfl, rfl, h, by simp⟩
  | cons id ids ih =>
    obtain ⟨hid, hids⟩ := nodup_cons.1 hids
    obtain ⟨v₁, hv₁, ho₁, hd₁, hc₁⟩ := h.release (hc id mem_cons_self)
    obtain ⟨v', hv', ho, hd, hco⟩ := ih hd₁.self hids fun i hi => by
      rw [hc₁, if_neg (ne_of_mem_of_not_mem hi hid).symm]
      exact hc i (mem_cons_of_mem id hi)
    refine ⟨v', by simp [hv₁, hv'], ho.trans ho₁, fun i => ?_, fun i => ?_⟩
    · rw [hd i, hd₁ i]
      grind
    · grind

theorem registers (v : RecoveryViews K D) (hi : ids.Nodup) :
    (ids.foldl register v).owners = v.owners ∧ (ids.foldl register v).retained = v.retained ∧
      ∀ i, (ids.foldl register v).counts i = v.counts i + if i ∈ ids then 1 else 0 := by
  induction ids generalizing v with
  | nil => exact ⟨rfl, rfl, by simp⟩
  | cons id ids ih =>
    obtain ⟨hid, hi⟩ := nodup_cons.1 hi
    obtain ⟨ho, hr, hc⟩ := ih (v.register id) hi
    refine ⟨ho, hr, fun i => ?_⟩
    have hon : (v.register id).counts i = v.counts i + if i = id then 1 else 0 := by
      by_cases hne : i = id <;> simp [register, hne]
    grind

theorem depends_setOwner (v : RecoveryViews K D) (owner : K) (ids : Dependencies K) (o : K) :
    (v.setOwner owner ids).depends o = if o = owner then ids else v.depends o := by
  rw [setOwner, depends]
  split
  next hn =>
    rw [lookup_erase_ite]
    split
    · exact Subtype.ext hn.symm
    · rfl
  next =>
    rw [lookup_insert_ite]
    split <;> rfl

theorem dependents_setOwner (v : RecoveryViews K D) (owner : K) (ids : Dependencies K) (id : K) :
    (v.setOwner owner ids).dependents id = v.dependents id -
      (if id ∈ (v.depends owner).1 then 1 else 0) + if id ∈ ids.1 then 1 else 0 := by
  have he := total_erase_getD (w := ∅)
    (f := fun ids : Dependencies K => if id ∈ ids.1 then 1 else 0) (if_neg not_mem_nil)
    v.owners owner
  rw [dependents, dependents, depends, ← he, setOwner]
  split
  next hn => simp [hn]
  next => rw [total_insert_eq, Int.add_comm]

structure Sound (v : RecoveryViews K D) : Prop where
  counts : ∀ i, v.counts i = v.dependents i
  drops : Drops v v

theorem Sound.replace (h : v.Sound) (owner : K) (ids : Dependencies K) :
    ∃ v', v.replace owner ids = some v' ∧ v'.Sound ∧ Drops v v' ∧
      ∀ o, v'.depends o = if o = owner then ids else v.depends o := by
  have hm := dependents_setOwner v owner
  have hse := depends_setOwner v owner ids
  rw [RecoveryViews.replace]
  split
  next hs =>
    refine ⟨v, rfl, h, h.drops, fun o => ?_⟩
    split
    next ho => rw [ho, hs]
    next => rfl
  next =>
    have hc (i : K) : i ∈ (v.depends owner).1 → v.counts i ≠ 0 := fun hi => by
      have hpos : 0 ≤ (v.setOwner owner ∅).dependents i :=
        total_nonneg (fun l => by split <;> decide) _
      have hco := h.counts i
      have hn : i ∉ (∅ : Dependencies K).1 := not_mem_nil
      rw [hm, if_pos hi, if_neg hn] at hpos
      omega
    obtain ⟨v₁, hv₁, ho₁, hd₁, hc₁⟩ := h.drops.releases
      ((v.depends owner).2.2.nodup.filter (· ∉ ids.1)) fun i hi => hc i (mem_of_mem_filter hi)
    obtain ⟨ho₂, hr₂, hc₂⟩ := registers v₁ (ids.2.2.nodup.filter (· ∉ (v.depends owner).1))
    obtain ⟨v₂, hv₂⟩ : ∃ v₂, v₂ =
      ((ids.1.filter (· ∉ (v.depends owner).1)).foldl register v₁).setOwner owner ids := ⟨_, rfl⟩
    have how : v₂.owners = (v.setOwner owner ids).owners := by
      rw [hv₂, RecoveryViews.setOwner, RecoveryViews.setOwner, ho₂, ho₁]
    have ha (i : K) : v₂.counts i =
        v.counts i - (if i ∈ (v.depends owner).1 ∧ i ∉ ids.1 then 1 else 0) +
          if i ∈ ids.1 ∧ i ∉ (v.depends owner).1 then 1 else 0 := by
      rw [hv₂, RecoveryViews.setOwner, hc₂, hc₁]
      simp
    have hdr : Drops v v₂ := fun i => by
      have hr : v₂.retained i = v₁.retained i := by rw [hv₂, ← hr₂]; rfl
      have hi := h.drops i
      rw [hr, hd₁ i]
      grind
    have hso : v₂.Sound := by
      refine ⟨fun i => ?_, hdr.self⟩
      rw [dependents, how, ← dependents, hm, ← h.counts i]
      grind
    have hd (o : K) : v₂.depends o = if o = owner then ids else v.depends o := by
      rw [← hse, depends, how, depends]
    refine ⟨if v₂.owners.entries.isEmpty then {} else v₂, by rw [hv₁, hv₂]; rfl, ?_⟩
    split
    next he =>
      have hni : v₂.owners = ∅ := AList.ext (List.isEmpty_iff.1 he)
      refine ⟨⟨fun _ => rfl, fun _ => rfl⟩, fun _ => rfl, fun o => ?_⟩
      rw [← hd, depends, depends, hni]
    next => exact ⟨hso, hdr, hd⟩

/-- Views are captured for ids that are counted, and the view of an id that was
materialized is that of its own row. -/
structure Captures (materialized : Finset K) (v v' : RecoveryViews K D) : Prop where
  owners : v'.owners = v.owners
  counts : v'.counts = v.counts
  retained : ∀ i, v'.retained i = v.retained i ∨ v.counts i ≠ 0 ∧
    ∃ view, v'.retained i = some view ∧ (view.materialized = true ↔ i ∈ materialized)

theorem Captures.refl (m : Finset K) (v : RecoveryViews K D) : Captures m v v :=
  ⟨rfl, rfl, fun _ => .inl rfl⟩

theorem Captures.trans {m : Finset K} {v'' : RecoveryViews K D} (h : Captures m v v')
    (h' : Captures m v' v'') : Captures m v v'' := by
  refine ⟨h'.owners.trans h.owners, h'.counts.trans h.counts, fun i => ?_⟩
  obtain heq | ⟨hi, hv⟩ := h'.retained i
  · rw [heq]
    exact h.retained i
  · exact .inr ⟨h.counts ▸ hi, hv⟩

theorem captures_retain {m : Finset K} (v : RecoveryViews K D) {row : TreeRow K D} {b : Bool}
    (hrow : b = true ↔ row.id ∈ m) : Captures m v (v.retain row b) := by
  rw [retain]
  split
  next => exact .refl m v
  next hc =>
    refine ⟨rfl, rfl, fun i => ?_⟩
    by_cases hi : i = row.id
    · subst hi
      exact .inr ⟨hc, _, Function.update_self .., hrow⟩
    · exact .inl (Function.update_of_ne hi ..)

mutual

theorem captures_template (m : Finset K) (v : RecoveryViews K D) :
    (row : TreeRow K D) → Captures m v (retainTemplate m v row)
  | ⟨id, state, dependencies, data, children⟩ => by
    rw [retainTemplate]
    split
    next => exact .refl m v
    next hid =>
      exact (captures_retain v (by simpa using hid)).trans (captures_templates m _ children)

theorem captures_templates (m : Finset K) (v : RecoveryViews K D) :
    (rows : List (TreeRow K D)) → Captures m v (retainTemplates m v rows)
  | [] => .refl m v
  | child :: rest => (captures_templates m v rest).trans (captures_template m _ child)

end

theorem captures_beforePrune {m : Finset K} (v : RecoveryViews K D) {row : TreeRow K D}
    (hrow : row.id ∈ m) : Captures m v (v.beforePrune row m) := by
  rw [beforePrune]
  split
  next => exact (captures_retain v (by simpa using hrow)).trans (captures_templates m _ _)
  next => exact .refl m v

theorem Captures.sound {m : Finset K} (h : Captures m v v') (hv : v.Sound) : v'.Sound := by
  refine ⟨fun i => ?_, fun i => ?_⟩
  · rw [h.counts, dependents, h.owners]
    exact hv.counts i
  · rw [h.counts]
    have hi := hv.drops i
    have hr := h.retained i
    grind

end RecoveryViews

namespace ViewedRows

variable {c c' : ViewedRows K D} {a : ViewAction K D}

structure Sound (c : ViewedRows K D) : Prop where
  views : c.views.Sound
  canonical : ∀ i view, c.views.retained i = some view →
    (view.materialized = true ↔ i ∈ c.materialized)

/-- A view is released exactly with its last dependent, or when the row itself
is refreshed. A template never takes the place of a row's own view. -/
structure Steps (c : ViewedRows K D) (a : ViewAction K D) (c' : ViewedRows K D) : Prop where
  depends : ∀ o, c'.views.depends o =
    if o = a.declares.1 then a.declares.2 else c.views.depends o
  released : ∀ i view, c.views.retained i = some view →
    (c'.views.retained i = none ↔
      c'.views.dependents i = 0 ∨ ∃ row : TreeRow K D, a = .refresh row ∧ row.id = i)
  progress : ∀ i view view', c.views.retained i = some view → view.materialized = true →
    c'.views.retained i = some view' → view'.materialized = true

/-- A step forgets or captures views, and then replaces what its owner depends
on. -/
theorem Sound.steps (h : c.Sound) (a : ViewAction K D) {w : RecoveryViews K D} {rows : Finset K}
    (hw : w.Sound) (ho : w.owners = c.views.owners) (hm : c.materialized ⊆ rows)
    (hg : ∀ row, a = .refresh row → w.retained row.id = none)
    (hk : ∀ i, (∀ row, a = .refresh row → row.id ≠ i) →
      w.retained i = c.views.retained i ∧ (i ∈ rows ↔ i ∈ c.materialized) ∨
      ∃ view, w.retained i = some view ∧ (view.materialized = true ↔ i ∈ rows)) :
    ∃ views, w.replace a.declares.1 a.declares.2 = some views ∧ Sound ⟨rows, views⟩ ∧
      c.Steps a ⟨rows, views⟩ := by
  obtain ⟨views, hvi, hs, hd, hde⟩ := hw.replace a.declares.1 a.declares.2
  have hc : ∀ i view, views.retained i = some view → (view.materialized = true ↔ i ∈ rows) := by
    intro i view hv
    rw [hd i] at hv
    have hold := h.canonical i view
    grind
  refine ⟨views, hvi, ⟨hs, hc⟩, fun o => ?_, fun i view hv => ?_, fun i view view' hv how hv' => ?_⟩
  · rw [hde, RecoveryViews.depends, ho, RecoveryViews.depends]
  · rw [← hs.counts, hd i]
    grind
  · exact (hc i view' hv').2 (hm ((h.canonical i view hv).1 how))

theorem Sound.act (h : c.Sound) (a : ViewAction K D) :
    ∃ c', c.act a = some c' ∧ c'.Sound ∧ c.Steps a c' := by
  cases a with
  | refresh row =>
    have hf : RecoveryViews.Sound { c.views with
        retained := update c.views.retained row.id none } := by
      refine ⟨h.views.counts, fun i => ?_⟩
      by_cases hid : i = row.id
      · simp [hid]
      · simpa [hid] using h.views.drops i
    obtain ⟨views, hv, hstep⟩ := h.steps (.refresh row) hf rfl
      (Finset.subset_insert row.id _) (by simp) fun i hi => by
        have hne : i ≠ row.id := (hi row rfl).symm
        exact .inl ⟨by simp [hne], by simp [hne]⟩
    exact ⟨⟨_, views⟩, Option.bind_eq_some_iff.2 ⟨views, hv, rfl⟩, hstep⟩
  | prune row =>
    have hc : RecoveryViews.Captures c.materialized c.views
        (if row.id ∈ c.materialized then c.views.beforePrune row c.materialized else c.views) := by
      split
      next hrow => exact RecoveryViews.captures_beforePrune c.views hrow
      next => exact .refl _ _
    obtain ⟨views, hv, hstep⟩ := h.steps (.prune row) (hc.sound h.views)
      hc.owners (Finset.Subset.refl _) nofun fun i _ =>
        (hc.retained i).imp (fun hs => ⟨hs, Iff.rfl⟩) And.right
    exact ⟨⟨_, views⟩, Option.bind_eq_some_iff.2 ⟨views, hv, rfl⟩, hstep⟩
  | remove id =>
    obtain ⟨views, hv, hstep⟩ := h.steps (.remove id) h.views rfl (Finset.Subset.refl _) nofun
      fun _ _ => .inl ⟨rfl, Iff.rfl⟩
    exact ⟨⟨_, views⟩, Option.bind_eq_some_iff.2 ⟨views, hv, rfl⟩, hstep⟩

/-- In every run no assertion fails, the counts are those of the owners, only
what is counted has a view, and every step keeps to the rules for views. -/
theorem recovery_views (actions : List (ViewAction K D)) :
    ∃ c, run actions = some c ∧ (∀ i, c.views.counts i = c.views.dependents i) ∧
      (∀ i view, c.views.retained i = some view → c.views.counts i ≠ 0) ∧
      ∀ a, ∃ c', c.act a = some c' ∧ c.Steps a c' := by
  have hst : Sound ({} : ViewedRows K D) := ⟨⟨fun _ => rfl, fun _ => rfl⟩, nofun⟩
  obtain ⟨c, hc, h⟩ := runs_total (fun c a (h : c.Sound) => by
    obtain ⟨c', hc', hso, -⟩ := h.act a
    exact ⟨c', hc', hso⟩) hst actions
  refine ⟨c, hc, h.views.counts, fun i view hvi hi => ?_, fun a => ?_⟩
  · rw [h.views.drops i, if_pos hi] at hvi
    cases hvi
  · obtain ⟨c', hc', -, hste⟩ := h.act a
    exact ⟨c', hc', hste⟩

def sampleRow (id : Nat) (state : InsightState) (dependencies : Dependencies Nat) :
    TreeRow Nat Unit := ⟨id, state, dependencies, (), []⟩

/-- A row that comes back takes the view away from those who depend on it. -/
theorem view_superseded :
    let owner := ViewAction.refresh (sampleRow 1 .filled ⟨[2], by decide, by decide⟩)
    let pruned := ViewAction.prune (sampleRow 2 .closed ⟨[], by decide, by decide⟩)
    let row := ViewAction.refresh (sampleRow 2 .new ⟨[], by decide, by decide⟩)
    let seen := fun c : ViewedRows Nat Unit => ((c.views.retained 2).isSome, c.views.dependents 2)
    (run [row, owner, pruned]).map seen = some (true, 1) ∧
    (run [row, owner, pruned, row]).map seen = some (false, 1) := by
  decide +kernel

end ViewedRows

end AqEngine.Insights
