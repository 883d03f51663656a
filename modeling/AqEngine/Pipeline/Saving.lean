import AqEngine.Pipeline.DirtyRows

namespace AqEngine.Pipeline

open Lib Broker Insights Insights.InsightCollection List

namespace Owner

def start (c : InsightCollection) (p : InsightPipeline) : Owner :=
  { insights := c.enableExecutionPersistence, pipeline := p }

theorem live_start {c : InsightCollection} {p : InsightPipeline} (hk : c.Keyed)
    (hdi : c.executionDirty = ∅)
    (hd : ∀ id, (p.deferred.lookup id).isSome = true →
      (c.insights.lookup id).isSome = true) : (start c p).Live where
  keyed := hk
  dirty id hid := by
    rw [start, enableExecutionPersistence, hdi, Finset.empty_union, mem_toFinset] at hid
    exact AList.lookup_isSome.2 (AList.mem_keys.2 hid)
  deferred := hd
  enabled := rfl

def Settled (o : Owner) (view : DriverView) : Prop :=
  ∀ id row, o.row id = some row → o.unchanged id view row = true

def walk (view : DriverView) (ids : List Uuid) (o : Owner) : Owner :=
  ids.foldl (fun o id => (o.walkRow id view).walkFinished id) o

def pages (view : DriverView) (work : Nat) : Nat → Owner → Owner
  | 0, o => o
  | n + 1, o => pages view work n (o.persistPage view work)

section

variable {o : Owner} {view : DriverView} {id : Uuid}

/-- What saving keeps of a strategy whose rows are on disk. -/
structure Saving (view : DriverView) (o : Owner) : Prop extends o.Live where
  settled : o.Settled view

theorem Saving.saved (h : Saving view o) (id : Uuid) : Saving view (o.saved id view) where
  toLive := h.toLive.saved id view
  settled l row hrow := by
    rw [Owner.row, (saved_frame o id view).1] at hrow
    exact h.settled l row hrow

theorem Saving.examine (h : Saving view o) (id : Uuid) : Saving view (o.examine id view) ∧
    (o.examine id view).queued = o.queued ∧
    (o.examine id view).insights.executionDirty = o.insights.executionDirty.erase id := by
  unfold Owner.examine
  cases hrow : o.row id with
  | none =>
    refine ⟨h, rfl, (Finset.erase_eq_of_notMem fun hid => ?_).symm⟩
    have hp := h.dirty id hid
    rw [hrow] at hp
    cases hp
  | some row =>
    dsimp only
    rw [if_pos (h.settled id row hrow)]
    exact ⟨h.saved id, rfl, saved_dirty o id view⟩

theorem Saving.examineAll {ids : List Uuid} {work : Nat} (h : Saving view o)
    (hq : o.queued = ∅) (hw : ids.length ≤ work) :
    Saving view (examineAll view work ids o) ∧ (examineAll view work ids o).queued = ∅ ∧
    (examineAll view work ids o).insights.executionDirty =
      o.insights.executionDirty \ ids.toFinset := by
  induction ids generalizing work o with
  | nil =>
    rw [Owner.examineAll.eq_def]
    exact ⟨h, hq, by simp⟩
  | cons id ids ih =>
    obtain _ | work := work
    · cases hw
    obtain ⟨hs, he, hd⟩ := h.examine id
    obtain ⟨hs', he', hd'⟩ := ih hs (he.trans hq) (Nat.le_of_succ_le_succ hw)
    rw [Owner.examineAll, if_neg (by rw [hq]; exact Finset.notMem_empty id)]
    refine ⟨hs', he', ?_⟩
    rw [hd', hd, toFinset_cons, Finset.sdiff_insert, Finset.erase_sdiff_comm]

theorem roots_length (o : Owner) (view : DriverView) :
    (o.roots view).length ≤ 32 + view.pendingOwners.card := by
  rw [roots, length_ascending]
  refine (Finset.card_union_le _ _).trans (Nat.add_le_add_right ?_ _)
  rw [executionDirtyIds, card_take_ascending]
  exact min_le_left _ _

theorem Saving.persistPage {work : Nat} (h : Saving view o) (hq : o.queued = ∅)
    (hw : 32 + view.pendingOwners.card ≤ work) :
    Saving view (o.persistPage view work) ∧ (o.persistPage view work).queued = ∅ ∧
    (o.persistPage view work).insights.executionDirty.card ≤
      o.insights.executionDirty.card - 32 := by
  obtain ⟨hs, he, hd⟩ := h.examineAll hq ((o.roots_length view).trans hw)
  refine ⟨hs, he, ?_⟩
  have hp : (o.insights.executionDirtyIds 32).toFinset ⊆ o.insights.executionDirty := by
    intro id hid
    exact mem_ascending.1 (mem_of_mem_take (mem_toFinset.1 hid))
  have hrest : (o.persistPage view work).insights.executionDirty ⊆
      o.insights.executionDirty \ (o.insights.executionDirtyIds 32).toFinset := by
    rw [Owner.persistPage, hd, roots, toFinset_ascending]
    exact Finset.sdiff_subset_sdiff subset_rfl Finset.subset_union_left
  have hc := Finset.card_le_card hrest
  rw [Finset.card_sdiff_of_subset hp, executionDirtyIds, card_take_ascending] at hc
  omega

theorem Saving.pages {n work : Nat} (h : Saving view o) (hq : o.queued = ∅)
    (hw : 32 + view.pendingOwners.card ≤ work)
    (hc : o.insights.executionDirty.card ≤ 32 * n) :
    (pages view work n o).insights.hasExecutionDirty = false := by
  induction n generalizing o with
  | zero =>
    have hn : o.insights.executionDirty = ∅ := Finset.card_eq_zero.1 (by omega)
    rw [Owner.pages, hasExecutionDirty, hn]
    rfl
  | succ n ih =>
    obtain ⟨hs, he, hl⟩ := h.persistPage hq hw
    exact ih hs he (by omega)

theorem Saving.walkRow (h : Saving view o) (id : Uuid) : Saving view (o.walkRow id view) ∧
    (o.walkRow id view).queued = o.queued ∧
    (o.walkRow id view).insights.executionDirty = o.insights.executionDirty.erase id := by
  have hs : o.walkRow id view = o.examine id view := by
    unfold Owner.walkRow Owner.examine
    cases hrow : o.row id with
    | none => rfl
    | some row =>
      dsimp only
      rw [if_pos (h.settled id row hrow), if_pos (h.settled id row hrow)]
  rw [hs]
  exact h.examine id

theorem Saving.walk (ids : List Uuid) (h : Saving view o) : Saving view (walk view ids o) ∧
    (walk view ids o).queued = o.queued \ ids.toFinset ∧
    (walk view ids o).insights.executionDirty ⊆ o.insights.executionDirty := by
  induction ids generalizing o with
  | nil => exact ⟨h, by simp [Owner.walk], subset_rfl⟩
  | cons id ids ih =>
    obtain ⟨hs, hq, hd⟩ := h.walkRow id
    have hf : Saving view ((o.walkRow id view).walkFinished id) :=
      ⟨{ hs with }, hs.settled⟩
    obtain ⟨hs', hq', hd'⟩ := ih hf
    refine ⟨hs', hq'.trans ?_, hd'.trans ?_⟩
    · rw [walkFinished, hq, toFinset_cons, Finset.sdiff_insert, Finset.erase_sdiff_comm]
    · rw [walkFinished, hd]
      exact Finset.erase_subset id _

end

def Stuck (id : Uuid) (o : Owner) : Prop := id ∈ o.insights.executionDirty ∧ o.row id = none

/-- The actions that save rows, drop continuations or prune. -/
def saves : OwnerAction → Bool
  | .persistPage _ _ | .walkRow _ _ | .walkFinished _ | .sweep _ | .prune _ => true
  | _ => false

variable {o o' : Owner} {view : DriverView} {id l : Uuid}

section

variable (h : Stuck id o)
include h

theorem Stuck.of_frame (hr : o'.insights.insights = o.insights.insights)
    (hd : id ∈ o.insights.executionDirty → id ∈ o'.insights.executionDirty) : Stuck id o' :=
  ⟨hd h.1, by rw [Owner.row, hr]; exact h.2⟩

theorem Stuck.saved (hrow : (o.row l).isSome = true) :
    Stuck id (o.saved l view) := by
  refine h.of_frame (saved_frame o l view).1 fun hid => ?_
  rw [saved_dirty]
  refine Finset.mem_erase.2 ⟨?_, hid⟩
  rintro rfl
  rw [h.2] at hrow
  cases hrow

theorem Stuck.examine : Stuck id (o.examine l view) := by
  unfold Owner.examine
  cases hrow : o.row l with
  | none => exact h
  | some =>
    dsimp only
    split
    · exact h.saved (by rw [hrow]; rfl)
    · exact h

theorem Stuck.examineAll {ids : List Uuid} {work : Nat} :
    Stuck id (examineAll view work ids o) := by
  induction ids generalizing work o with
  | nil =>
    rw [Owner.examineAll.eq_def]
    exact h
  | cons l ids ih =>
    unfold Owner.examineAll
    split
    · exact ih h
    split
    · exact h
    · exact ih h.examine

theorem Stuck.sweep : Stuck id (o.sweep l) := by
  unfold Owner.sweep
  dsimp only
  split
  · unfold Owner.forget
    split
    · unfold markExecutionDirty
      split
      · exact h.of_frame rfl Finset.mem_insert_of_mem
      · exact h
    · exact h
  · exact h

theorem Stuck.prune :
    Stuck id { o with insights := o.insights.pruneTerminalInsight l } := by
  unfold pruneTerminalInsight
  split
  · obtain ⟨hr, hd, -⟩ :=
      removeTracking_frame { o.insights with insights := o.insights.insights.erase l } l
    refine ⟨by rw [hd]; exact h.1, ?_⟩
    rw [Owner.row, hr, Table.lookup_erase_ite]
    split
    · rfl
    · exact h.2
  · exact h

theorem Stuck.step {action : OwnerAction} (hs : saves action = true)
    (hstep : o.step action = some o') : Stuck id o' := by
  cases action with
  | persistPage =>
    cases hstep
    exact h.examineAll
  | walkRow l =>
    cases hstep
    unfold Owner.walkRow
    cases hrow : o.row l with
    | none => exact h
    | some =>
      dsimp only
      split
      · exact h.saved (by rw [hrow]; rfl)
      · exact h
  | walkFinished l =>
    cases hstep
    exact h
  | sweep l =>
    cases hstep
    exact h.sweep
  | prune l =>
    cases hstep
    exact h.prune
  | _ => cases hs

theorem Stuck.runs {actions : List OwnerAction}
    (hs : ∀ action ∈ actions, saves action = true)
    (hr : runs Owner.step o actions = some o') : Stuck id o' := by
  refine runs_invariant_of (P := Stuck id) (fun _ _ _ h hs hst => h.step hs hst) h ?_ hr
  intro earlier action later _ ha _
  exact hs action (by rw [ha]; simp)

end

/-- In every run in which a row is pruned only once its continuation is
forgotten, each dirty id has a row. A row that is on disk is cleared when it
is looked at, and when all of them are, the walk of what is queued and then
the pages clear everything. -/
theorem dirty_rows_live {c : InsightCollection} {p : InsightPipeline} {o : Owner}
    {actions : List OwnerAction} (hkeyed : c.Keyed) (hdirty : c.executionDirty = ∅)
    (hdeferred : ∀ id, (p.deferred.lookup id).isSome = true →
      (c.insights.lookup id).isSome = true)
    (hrun : runs Owner.step (start c p) actions = some o)
    (hprune : ∀ earlier action later t, actions = earlier ++ action :: later →
      runs Owner.step (start c p) earlier = some t → t.prunesForgotten action = true) :
    (∀ id ∈ o.insights.executionDirty, (o.row id).isSome = true) ∧
    (∀ view, ∀ id ∈ o.insights.executionDirty,
      (∀ row, o.row id = some row → o.unchanged id view row = true) →
      (o.walkRow id view).insights.executionDirty = o.insights.executionDirty.erase id) ∧
    ∀ view, o.Settled view → ∀ queue : List Uuid, queue.toFinset = o.queued →
      ∀ n work, 32 + view.pendingOwners.card ≤ work →
        o.insights.executionDirty.card ≤ 32 * n →
        (pages view work n (walk view queue o)).insights.hasExecutionDirty = false := by
  have hli : o.Live := runs_invariant_of (P := Live) (fun _ _ _ h => h.step)
    (live_start hkeyed hdirty hdeferred) hprune hrun
  refine ⟨hli.dirty, fun view id hid hsav => ?_, ?_⟩
  · obtain ⟨row, hrow⟩ := Option.isSome_iff_exists.1 (hli.dirty id hid)
    unfold Owner.walkRow
    rw [hrow]
    dsimp only
    rw [if_pos (hsav row hrow), saved_dirty]
  · intro view hse queue hque n work hwo hca
    obtain ⟨hsa, hqu, hle⟩ := Saving.walk queue ⟨hli, hse⟩
    rw [hque, Finset.sdiff_self] at hqu
    exact hsa.pages hqu hwo ((Finset.card_le_card hle).trans hca)

def savedView : DriverView where
  checkpointMatches _ _ _ := true
  hasUnpersistedIntents _ := false
  hasConsumableReceipts _ := false
  pendingOwners := ∅

/-- A strategy whose clock stands at `now`, with windows counted in its
units. -/
def contextAt (now : Time) : StrategyContext :=
  { idleContext with
    clock := ⟨now, now⟩
    addTimeIncrement := fun _ anchor periods => some (anchor + periods) }

def shortLived : Insight := { freshInsight with periodUnfilled := some 5 }

def shortLivedTurn (now : Time) : OwnerAction :=
  .turn shortLived.insightId plainDebug (contextAt now) (waitingAt [0] none) [] true

def otherInsight : Insight := { insightId := ⟨1 :: List.replicate 15 1, rfl⟩ }

/-- A new insight waits for room in the queue of the broker and is saved. Its
time to live runs out before there is room, and its row is saved again. -/
def expiringRun : List OwnerAction :=
  [.add shortLived, shortLivedTurn 0, .persistPage savedView 64, shortLivedTurn 5,
    .persistPage savedView 64]

theorem dirty_rows_live_swept : ∃ o,
    runs Owner.step (start {} (built [leafNamed "A"])) (expiringRun ++
      [.sweep shortLived.insightId, .persistPage savedView 64, .prune shortLived.insightId,
        .add otherInsight]) = some o ∧
    o.insights.executionDirty = {otherInsight.insightId} ∧
    (o.row otherInsight.insightId).isSome = true ∧
    (pages savedView 64 1 (walk savedView [] o)).insights.hasExecutionDirty = false := by
  have hre : (runs Owner.step (start {} (built [leafNamed "A"])) (expiringRun ++
      [.sweep shortLived.insightId, .persistPage savedView 64, .prune shortLived.insightId,
        .add otherInsight])).map (fun o => (o.insights.executionDirty, o.queued)) =
      some ({otherInsight.insightId}, ∅) := by decide +kernel
  obtain ⟨o, hrun, ho⟩ := Option.map_eq_some_iff.1 hre
  obtain ⟨hdi, hqu⟩ := Prod.mk.inj ho
  have hgu : guarded Owner.step prunesForgotten (start {} (built [leafNamed "A"]))
      (expiringRun ++ [.sweep shortLived.insightId, .persistPage savedView 64,
        .prune shortLived.insightId, .add otherInsight]) = true := by decide +kernel
  obtain ⟨hro, -, hcl⟩ := dirty_rows_live (c := {}) (by intro id row h; cases h) rfl
    (by intro id h; cases h) hrun fun _ _ _ _ => ok_of_guarded hgu
  refine ⟨o, hrun, hdi, hro _ (by rw [hdi]; exact Finset.mem_singleton_self _), ?_⟩
  refine hcl savedView (fun _ _ _ => rfl) [] hqu.symm 1 64 (by decide) ?_
  rw [hdi]
  decide

/-- When the row is pruned first, the sweep marks an id that has no row. No
page, walk, sweep or pruning clears it. -/
theorem swept_without_row : ∃ o,
    runs Owner.step (start {} (built [leafNamed "A"]))
      (expiringRun ++ [.prune shortLived.insightId, .sweep shortLived.insightId]) = some o ∧
    shortLived.insightId ∈ o.insights.executionDirty ∧ o.row shortLived.insightId = none ∧
    ∀ later o', (∀ action ∈ later, saves action = true) → runs Owner.step o later = some o' →
      o'.insights.hasExecutionDirty = true := by
  refine ⟨?o, ?run, ?dirty, ?row, fun later o' hsa hla =>
    decide_eq_true ⟨_, (Stuck.runs ⟨?dirty, ?row⟩ hsa hla).1⟩⟩
  case run => rfl
  all_goals decide +kernel

end Owner

end AqEngine.Pipeline
