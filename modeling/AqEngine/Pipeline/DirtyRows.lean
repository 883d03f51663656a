import AqEngine.Insights.CollectionIndexes
import AqEngine.Insights.Moves
import AqEngine.Pipeline.Fidelity
import AqEngine.Pipeline.Owner

namespace AqEngine.Insights.InsightCollection

open Lib

def Keyed (c : InsightCollection) : Prop :=
  ∀ id row, c.insights.lookup id = some row → row.insightId = id

/-- No row is lost, and only rows that are present become dirty. -/
structure Grows (c c' : InsightCollection) : Prop where
  rows : ∀ id, (c.insights.lookup id).isSome = true → (c'.insights.lookup id).isSome = true
  keyed : c.Keyed → c'.Keyed
  dirty : ∀ id ∈ c'.executionDirty, id ∈ c.executionDirty ∨ (c'.insights.lookup id).isSome = true
  enabled : c'.executionPersistenceEnabled = c.executionPersistenceEnabled

variable {c c' c'' : InsightCollection} {id : Uuid}

theorem Grows.refl (c : InsightCollection) : Grows c c :=
  ⟨fun _ h => h, fun h => h, fun _ h => .inl h, rfl⟩

theorem Grows.trans (h : Grows c c') (h' : Grows c' c'') : Grows c c'' where
  rows id hid := h'.rows id (h.rows id hid)
  keyed hc := h'.keyed (h.keyed hc)
  dirty id hid := by
    obtain hid | hrow := h'.dirty id hid
    · exact (h.dirty id hid).imp_right (h'.rows id)
    · exact .inr hrow
  enabled := h'.enabled.trans h.enabled

theorem Grows.of_subset (hr : c'.insights = c.insights) (hd : c'.executionDirty ⊆ c.executionDirty)
    (he : c'.executionPersistenceEnabled = c.executionPersistenceEnabled) : Grows c c' where
  rows id h := by
    rw [hr]
    exact h
  keyed h := by
    rw [Keyed, hr]
    exact h
  dirty id hid := .inl (hd hid)
  enabled := he

structure Frames (c c' : InsightCollection) : Prop where
  rows : c'.insights = c.insights
  dirty : c'.executionDirty = c.executionDirty
  enabled : c'.executionPersistenceEnabled = c.executionPersistenceEnabled

theorem Frames.grows (h : Frames c c') : Grows c c' := .of_subset h.rows h.dirty.subset h.enabled

theorem mem_of_mem_ite {b : Prop} [Decidable b] {s : Finset Uuid} {l : Uuid}
    (h : l ∈ if b then insert id s else s) : l = id ∨ l ∈ s := by
  split at h
  · exact Finset.mem_insert.1 h
  · exact .inr h

theorem grows_markExecutionDirty (hrow : (c.insights.lookup id).isSome = true) :
    Grows c (c.markExecutionDirty id) := by
  unfold markExecutionDirty
  split
  · refine ⟨fun _ h => h, fun h => h, fun l hl => ?_, rfl⟩
    obtain rfl | hl := Finset.mem_insert.1 hl
    · exact .inr hrow
    · exact .inl hl
  · exact .refl c

theorem removeSymbolTracking_frame (c : InsightCollection) (id : Uuid) :
    Frames c (c.removeSymbolTracking id) := by
  unfold removeSymbolTracking
  split <;> exact ⟨rfl, rfl, rfl⟩

theorem refreshSymbolTracking_frame (c : InsightCollection) (id : Uuid) :
    Frames c (c.refreshSymbolTracking id) := by
  have hr := removeSymbolTracking_frame c id
  unfold refreshSymbolTracking
  dsimp only
  split
  · exact ⟨rfl, rfl, rfl⟩
  split <;> exact { hr with }

theorem removeTracking_frame (c : InsightCollection) (id : Uuid) : Frames c (c.removeTracking id) :=
  have hr := removeSymbolTracking_frame c id
  { hr with }

theorem indexOrderIds_frame (c : InsightCollection) (id : Uuid) (orderIds : List String) :
    Frames c (c.indexOrderIdsForInsight id orderIds) := by
  obtain ⟨routes, tracked, hindex⟩ := indexOrderIdsForInsight_frame c id orderIds
  rw [hindex]
  exact ⟨rfl, rfl, rfl⟩

theorem updateStateTracking_frame (c : InsightCollection) (id : Uuid) (state : InsightState) :
    Frames c (c.updateStateTracking id state) := ⟨rfl, rfl, rfl⟩

theorem grows_updateSets (state : InsightState) (hrow : (c.insights.lookup id).isSome = true) :
    Grows c (c.updateSets id state) := by
  obtain ⟨active, ordered, terminal, hs⟩ := updateSets_frame c id state
  rw [hs]
  refine ⟨fun _ h => h, fun h => h, fun l hl => ?_, rfl⟩
  obtain rfl | hl := mem_of_mem_ite hl
  · exact .inr hrow
  · exact .inl hl

theorem grows_refreshRuntimeTracking (c : InsightCollection) (id : Uuid) :
    Grows c (c.refreshRuntimeTracking id) := by
  have hs := (refreshSymbolTracking_frame c id).grows
  unfold refreshRuntimeTracking
  dsimp only
  split
  · exact hs.trans (removeTracking_frame _ id).grows
  next row hrow =>
  have hindex := indexOrderIds_frame
    ((c.refreshSymbolTracking id).updateStateTracking id row.state) id
    ((c.refreshSymbolTracking id).trackedOrderIds row)
  refine ((hs.trans (updateStateTracking_frame _ _ _).grows).trans hindex.grows).trans
    (grows_updateSets row.state ?_)
  rw [hindex.rows]
  exact Option.isSome_of_eq_some hrow

variable {row : Insight}

theorem isSome_lookup_insert {t : Table Uuid Insight} {l : Uuid}
    (h : (t.lookup l).isSome = true) : (AList.lookup l (t.insert id row)).isSome = true := by
  rw [Table.lookup_insert_ite]
  split
  · rfl
  · exact h

theorem Keyed.insert (h : c.Keyed) (hid : row.insightId = id) :
    ∀ l row', AList.lookup l (c.insights.insert id row) = some row' → row'.insightId = l := by
  intro l row' hl
  obtain ⟨rfl, rfl⟩ | ⟨-, hl⟩ := Table.lookup_insert_cases hl
  · exact hid
  · exact h l row' hl

theorem Keyed.erase (h : c.Keyed) (id : Uuid) :
    ∀ l row, AList.lookup l (c.insights.erase id) = some row → row.insightId = l := by
  intro l row hl
  rw [Table.lookup_erase_ite] at hl
  split at hl
  · cases hl
  · exact h l row hl

theorem grows_insert (c : InsightCollection) (hid : row.insightId = id)
    (materialized : Finset Uuid) :
    Grows c { c with
      materializedInsightIds := materialized, insights := c.insights.insert id row } where
  rows _ h := isSome_lookup_insert h
  keyed h := h.insert hid
  dirty _ h := .inl h
  enabled := rfl

theorem grows_addInsight (c : InsightCollection) (insight : Insight) :
    Grows c (c.addInsight insight) :=
  (grows_insert c rfl _).trans (grows_refreshRuntimeTracking _ _)

theorem grows_restore {changed : Bool} (hid : row.insightId = id)
    (h : Grows { c with insights := c.insights.erase id } c') :
    Grows c (c'.restoreAfterUpdate row changed) := by
  subst hid
  have hp : Grows c { c' with insights := c'.insights.insert row.insightId row } := by
    refine ⟨fun l hl => ?_, fun hc => ?_, fun l hl => ?_, h.enabled⟩
    · by_cases hrow : l = row.insightId
      · rw [hrow, AList.lookup_insert]
        rfl
      · refine isSome_lookup_insert (h.rows l ?_)
        rw [AList.lookup_erase_ne hrow]
        exact hl
    · exact (h.keyed (hc.erase _)).insert rfl
    · exact (h.dirty l hl).imp_right isSome_lookup_insert
  unfold restoreAfterUpdate
  dsimp only
  split
  · exact hp.trans (grows_refreshRuntimeTracking _ _)
  · exact hp

theorem grows_mutate {change : Insight → Insight}
    (hch : ∀ row, c.insights.lookup id = some row → (change row).insightId = row.insightId) :
    Grows c (c.mutate id change) := by
  unfold mutate
  split
  · exact .refl c
  next row hrow =>
  refine ⟨fun _ h => isSome_lookup_insert h, fun hc => ?_, fun l hl => ?_, rfl⟩
  · exact hc.insert ((hch row hrow).trans (hc id row hrow))
  · obtain rfl | hl := mem_of_mem_ite hl
    · refine .inr ?_
      rw [AList.lookup_insert]
      rfl
    · exact .inl hl

theorem grows_executionPin (c : InsightCollection) (id : Uuid) : Grows c (c.executionPin id) :=
  .of_subset rfl subset_rfl rfl

end AqEngine.Insights.InsightCollection

namespace AqEngine.Pipeline

open Lib Insights InsightCollection Option

theorem grows_effect (c : InsightCollection) (hc : c.Keyed) (effect : ContextEffect) :
    Grows c (effect.perform c) := by
  cases effect with
  | addInsight insight => exact grows_addInsight c insight
  | enqueueBrokerCommand id => exact grows_executionPin c id
  | requestInsightCancellation id =>
    unfold ContextEffect.perform takeForUpdate
    dsimp only
    cases hrow : c.insights.lookup id with
    | none => exact .refl c
    | some row =>
      dsimp only [map_some]
      split
      · exact grows_restore (hc id row hrow) (.refl _)
      · exact .refl c

theorem grows_effects (effects : List ContextEffect) {c : InsightCollection} (hc : c.Keyed) :
    Grows c (effects.foldl ContextEffect.perform c) :=
  List.foldlRecOn effects _ (.refl c) fun d hd e _ => hd.trans (grows_effect d (hd.keyed hc) e)

section

variable {p : InsightPipeline} {id l : Uuid}

theorem isSome_deferred_forget (h : ((p.forgetContinuation id).1.deferred.lookup l).isSome = true) :
    (p.deferred.lookup l).isSome = true := by
  unfold InsightPipeline.forgetContinuation at h
  cases hid : p.deferred.lookup id with
  | none =>
    rw [hid] at h
    exact h
  | some =>
    rw [hid] at h
    dsimp only at h
    rw [Table.lookup_erase_ite] at h
    split at h
    · cases h
    · exact h

theorem isSome_deferred_turn {debug : DebugText} {ctx : StrategyContext} {leaves : Leaves}
    {i : Insight}
    (h : ((insightTurn debug ctx leaves p i).pipeline.deferred.lookup l).isSome = true) :
    (p.deferred.lookup l).isSome = true ∨ l = i.insightId := by
  by_cases hl : l = i.insightId
  · exact .inr hl
  refine .inl ?_
  rw [← (alike_insightTurn (Ne.symm hl)).deferred]
  exact h

theorem insightId_insightTurn (debug : DebugText) (ctx : StrategyContext) (leaves : Leaves)
    (p : InsightPipeline) (i : Insight) :
    (insightTurn debug ctx leaves p i).insight.insightId = i.insightId := by
  unfold insightTurn
  cases he : expires ctx ((p.pipeline.lookup i.state).getD []) i with
  | some =>
    unfold expires at he
    split at he
    · have ha : Acts True ctx.progress Set.univ ⟨i, []⟩ (hasExpired ctx ⟨i, []⟩).1 :=
        hasExpired_acts trivial fun _ => trivial
      have hid := (ha.moves trivial).insightId
      split at he
      · next _ hd =>
        cases he
        rw [hd] at hid
        exact hid
      · cases he
    · cases he
  | none =>
    have hr : (runStages debug leaves p i).insight.insightId = i.insightId :=
      (runPipe_keeps debug leaves).2 _ _ _ _ _ _ _
    dsimp only
    unfold conclude
    split
    · exact (pipelineFailed_edits _ _ _).insightId.trans hr
    case h_2 | h_3 =>
      split
      · exact (QuietEdits.aside (Insight.aside_setFirstOnFill _ _ _)).insightId.trans hr
      · exact hr
    all_goals exact hr

end

namespace Owner

structure Live (o : Owner) : Prop where
  keyed : o.insights.Keyed
  dirty : ∀ id ∈ o.insights.executionDirty, (o.row id).isSome = true
  deferred : ∀ id, (o.pipeline.deferred.lookup id).isSome = true → (o.row id).isSome = true
  enabled : o.insights.executionPersistenceEnabled = true

variable {o o' : Owner} {id : Uuid}

section

variable (h : o.Live)
include h

theorem Live.grows (hg : Grows o.insights o'.insights)
    (hd : ∀ id, (o'.pipeline.deferred.lookup id).isSome = true →
      (o.pipeline.deferred.lookup id).isSome = true ∨ (o'.row id).isSome = true) : o'.Live where
  keyed := hg.keyed h.keyed
  dirty id hid := by
    obtain hid | hrow := hg.dirty id hid
    · exact hg.rows id (h.dirty id hid)
    · exact hrow
  deferred id hid := by
    obtain hid | hrow := hd id hid
    · exact hg.rows id (h.deferred id hid)
    · exact hrow
  enabled := hg.enabled.trans h.enabled

theorem Live.collection {c : InsightCollection} (hg : Grows o.insights c) :
    { o with insights := c }.Live := h.grows hg fun _ hid => .inl hid

theorem Live.forget (id : Uuid) : (o.forget id).Live := by
  refine h.grows ?_ fun l hl => .inl (isSome_deferred_forget hl)
  unfold Owner.forget
  dsimp only
  split
  · next hf =>
    refine grows_markExecutionDirty (h.deferred id ?_)
    unfold InsightPipeline.forgetContinuation at hf
    cases hid : o.pipeline.deferred.lookup id with
    | none =>
      rw [hid] at hf
      cases hf
    | some => rfl
  · exact .refl _

theorem Live.turn (id : Uuid) (debug : DebugText) (ctx : StrategyContext)
    (leaves : Leaves) (effects : List ContextEffect) (touched : Bool) :
    (o.turn id debug ctx leaves effects touched).Live := by
  unfold Owner.turn
  split
  · exact h.forget id
  next row _ =>
  dsimp only
  have hd : (if (o.pipeline.deferred.lookup id).any (fun resume => row.state != resume.state)
      then o.forget id else o).Live := by
    split
    · exact h.forget id
    · exact h
  generalize (if (o.pipeline.deferred.lookup id).any (fun resume => row.state != resume.state)
      then o.forget id else o) = q at hd ⊢
  unfold takeForUpdate
  cases hlo : q.insights.insights.lookup id with
  | none => exact hd
  | some i =>
    dsimp only [map_some]
    have hi : i.insightId = id := hd.keyed id i hlo
    have hturn := insightId_insightTurn debug ctx leaves q.pipeline i
    have ho : { q.insights with insights := q.insights.insights.erase id }.Keyed :=
      hd.keyed.erase id
    have hr : Grows q.insights ((effects.foldl ContextEffect.perform
        { q.insights with insights := q.insights.insights.erase id }).restoreAfterUpdate
          (insightTurn debug ctx leaves q.pipeline i).insight touched) :=
      grows_restore (hturn.trans hi) (grows_effects effects ho)
    have hp : (AList.lookup id ((effects.foldl ContextEffect.perform
        { q.insights with insights := q.insights.insights.erase id }).restoreAfterUpdate
          (insightTurn debug ctx leaves q.pipeline i).insight touched).insights).isSome = true :=
      hr.rows id (by rw [hlo]; rfl)
    have hm : ∀ c : InsightCollection, (c.insights.lookup id).isSome = true →
        ∀ (b : Prop) [Decidable b], Grows c (if b then c.markExecutionDirty id else c) := by
      intro c hc b _
      split
      · exact grows_markExecutionDirty hc
      · exact .refl c
    have hf := hr.trans (hm _ hp (q.pipeline.executionCheckpoint id ≠
      (insightTurn debug ctx leaves q.pipeline i).pipeline.executionCheckpoint id))
    refine hd.grows hf fun l hl => ?_
    obtain hl | rfl := isSome_deferred_turn hl
    · exact .inl hl
    refine .inr (hf.rows _ ?_)
    rw [hi, hlo]
    rfl

theorem Live.beginFullPass : o.beginFullPass.Live := by
  unfold Owner.beginFullPass
  split
  · exact h
  -- every stale continuation is forgotten with its row present
  have hs : ∀ id ∈ o.staleIds, (o.row id).isSome = true := by
    intro id hid
    have hk := (List.mem_filter.1 hid).1
    exact h.deferred id (AList.lookup_isSome.2 (AList.mem_keys.2 hk))
  have hf := (List.foldlRecOn (motive := fun q : Owner => q.Live ∧
    ∀ id ∈ o.staleIds, (q.row id).isSome = true) o.staleIds (fun o id =>
      { o with
        pipeline := (o.pipeline.forgetContinuation id).1
        insights := o.insights.markExecutionDirty id }) ⟨h, hs⟩ fun q hq id hid => by
    have hg := grows_markExecutionDirty (hq.2 id hid)
    exact ⟨hq.1.grows hg fun l hl => .inl (isSome_deferred_forget hl),
      fun l hl => hg.rows l (hq.2 l hl)⟩).1
  exact { hf with }

theorem Live.sweep (id : Uuid) : (o.sweep id).Live := by
  unfold Owner.sweep
  dsimp only
  split
  · exact h.forget id
  · exact h

theorem Live.resumeSnapshotPipe (id : Uuid) (due : Bool) (debug : DebugText)
    (ctx : StrategyContext) (leaves : Leaves) (effects : List ContextEffect) (touched : Bool) :
    (o.resumeSnapshotPipe id due debug ctx leaves effects touched).Live := by
  unfold Owner.resumeSnapshotPipe
  split
  · exact h.forget id
  split
  · exact h
  split
  · exact h.turn id debug ctx leaves effects touched
  · exact h

theorem Live.update {change : Insight → Insight} (hc : o.keepsId id change = true)
    (changed : Bool) : (o.update id change changed).Live := by
  unfold Owner.update takeForUpdate
  unfold keepsId row at hc
  cases hrow : o.insights.insights.lookup id with
  | none => exact h
  | some row =>
    rw [hrow, all_some, beq_iff_eq] at hc
    exact h.collection (grows_restore (hc.trans (h.keyed id row hrow)) (.refl _))

end

theorem saved_dirty (o : Owner) (id : Uuid) (view : DriverView) :
    (o.saved id view).insights.executionDirty = o.insights.executionDirty.erase id := by
  unfold saved
  dsimp only
  split <;> rfl

theorem saved_frame (o : Owner) (id : Uuid) (view : DriverView) :
    (o.saved id view).insights.insights = o.insights.insights ∧
      (o.saved id view).insights.executionPersistenceEnabled =
        o.insights.executionPersistenceEnabled := by
  unfold saved
  dsimp only
  split <;> exact ⟨rfl, rfl⟩

theorem Live.saved (h : o.Live) (id : Uuid) (view : DriverView) : (o.saved id view).Live := by
  obtain ⟨hr, he⟩ := saved_frame o id view
  refine h.grows (.of_subset hr ?_ he) fun _ hid => .inl hid
  rw [saved_dirty]
  exact Finset.erase_subset _ _

theorem Live.examine (h : o.Live) (id : Uuid) (view : DriverView) : (o.examine id view).Live := by
  unfold Owner.examine
  split
  · exact h
  split
  · exact h.saved id view
  · exact { h with }

theorem Live.examineAll (view : DriverView) (work : Nat) (ids : List Uuid)
    (h : o.Live) : (examineAll view work ids o).Live := by
  induction ids generalizing work o with
  | nil => cases work <;> exact h
  | cons id ids ih =>
    unfold Owner.examineAll
    split
    · exact ih work h
    split
    · exact h
    · exact ih _ (h.examine id view)

theorem Live.walkRow (h : o.Live) (id : Uuid) (view : DriverView) : (o.walkRow id view).Live := by
  unfold Owner.walkRow
  split
  · exact h
  split
  · exact h.saved id view
  · exact h

theorem Live.prune (h : o.Live) (hd : o.pipeline.deferred.lookup id = none) :
    { o with insights := o.insights.pruneTerminalInsight id }.Live := by
  unfold pruneTerminalInsight
  split
  · next hp =>
    simp only [prunable, h.enabled, Bool.true_and, Bool.not_eq_true', Bool.or_eq_false_iff,
      decide_eq_false_iff_not] at hp
    obtain ⟨hr, hdi, he⟩ :=
      removeTracking_frame { o.insights with insights := o.insights.insights.erase id } id
    have ho : ∀ l, l ≠ id → (o.row l).isSome = true →
        (AList.lookup l ({ o.insights with insights := o.insights.insights.erase id }.removeTracking
          id).insights).isSome = true := by
      intro l hl hrow
      rw [hr, AList.lookup_erase_ne hl]
      exact hrow
    refine ⟨?_, fun l hl => ?_, fun l hl => ?_, he.trans h.enabled⟩
    · rw [Keyed, hr]
      exact h.keyed.erase id
    · rw [hdi] at hl
      refine ho l ?_ (h.dirty l hl)
      rintro rfl
      exact hp.1 hl
    · refine ho l ?_ (h.deferred l hl)
      rintro rfl
      rw [hd] at hl
      cases hl
  · exact h

/-- A row is pruned only while no continuation of it is deferred. -/
def prunesForgotten (o : Owner) : OwnerAction → Bool
  | .prune id => (o.pipeline.deferred.lookup id).isNone
  | _ => true

theorem Live.step (h : o.Live) {action : OwnerAction} (hp : o.prunesForgotten action = true)
    (hstep : o.step action = some o') : o'.Live := by
  cases action with
  | add insight =>
    cases hstep
    exact h.collection (grows_addInsight _ insight)
  | mutate id =>
    rw [Owner.step] at hstep
    split at hstep
    · next hk =>
      cases hstep
      refine h.collection (grows_mutate fun _ hrow => ?_)
      rw [keepsId, Owner.row, hrow, all_some] at hk
      exact eq_of_beq hk
    · cases hstep
  | refresh id =>
    cases hstep
    exact h.collection (grows_refreshRuntimeTracking _ id)
  | update id _ changed =>
    rw [Owner.step] at hstep
    split at hstep
    · next hk =>
      cases hstep
      exact h.update hk changed
    · cases hstep
  | enqueue id =>
    cases hstep
    exact h.collection (grows_executionPin _ id)
  | turn id debug ctx leaves effects touched =>
    cases hstep
    exact h.turn id debug ctx leaves effects touched
  | beginFullPass =>
    cases hstep
    exact h.beginFullPass
  | sweep id =>
    cases hstep
    exact h.sweep id
  | resumeSnapshotPipe id due debug ctx leaves effects touched =>
    cases hstep
    exact h.resumeSnapshotPipe id due debug ctx leaves effects touched
  | persistPage view work =>
    cases hstep
    exact h.examineAll view work _
  | walkRow id view =>
    cases hstep
    exact h.walkRow id view
  | walkFinished id =>
    cases hstep
    exact { h with }
  | prune id =>
    cases hstep
    exact h.prune (isNone_iff_eq_none.1 hp)

end Owner

end AqEngine.Pipeline
