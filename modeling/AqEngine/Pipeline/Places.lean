import AqEngine.Pipeline.Checkpoint
import AqEngine.Pipeline.Runs

namespace AqEngine.Pipeline

open Lib Insights Option AList

/-- The place of one insight in a composite, and of no other. -/
def mark (id : Uuid) (resumed : Table Uuid (InsightState × Nat)) :
    Table Uuid (InsightState × Nat) :=
  match resumed.lookup id with
  | none => ∅
  | some place => AList.singleton id place

mutual

def Pipe.view (id : Uuid) : Pipe → Pipe
  | .leaf config name version controlsExpiration => .leaf config name version controlsExpiration
  | .composite config kind resumed pipes =>
    .composite config kind (mark id resumed) (viewAll id pipes)

def viewAll (id : Uuid) : List Pipe → List Pipe
  | [] => []
  | pipe :: pipes => pipe.view id :: viewAll id pipes

end

section

variable {id : Uuid} {resumed other : Table Uuid (InsightState × Nat)} {i : Insight}
  {place : Option Nat}

theorem lookup_mark : (mark id resumed).lookup id = resumed.lookup id := by
  unfold mark
  cases h : resumed.lookup id with
  | none => rfl
  | some => exact lookup_insert (∅ : Table Uuid (InsightState × Nat))

theorem mark_congr (h : resumed.lookup id = other.lookup id) : mark id resumed = mark id other := by
  rw [mark, mark, h]

theorem mark_empty (h : resumed.lookup id = none) : mark id resumed = ∅ := by rw [mark, h]

theorem mark_some {place : InsightState × Nat} (h : resumed.lookup id = some place) :
    mark id resumed = AList.singleton id place := by rw [mark, h]

theorem erase_mark : (mark id resumed).erase id = ∅ := by
  unfold mark
  cases resumed.lookup id with
  | none => rfl
  | some =>
    apply AList.ext
    exact List.kerase_cons_eq rfl

theorem saveIndex_mark (h : i.insightId = id) :
    saveIndex (mark id resumed) i place = mark id (saveIndex resumed i place) := by
  subst h
  cases place with
  | none =>
    have hn : (saveIndex resumed i none).lookup i.insightId = none := lookup_erase _ _
    rw [mark_empty hn]
    exact erase_mark
  | some index =>
    have hs : (saveIndex resumed i (some index)).lookup i.insightId = some (i.state, index) :=
      lookup_insert _
    rw [mark_some hs]
    simp only [saveIndex, erase_mark]
    rfl

theorem resumeIndex_mark (h : i.insightId = id) :
    resumeIndex (mark id resumed) i = resumeIndex resumed i := by
  subst h
  rw [resumeIndex, resumeIndex, lookup_mark]

theorem mark_saveIndex (h : i.insightId ≠ id) :
    mark id (saveIndex resumed i place) = mark id resumed := by
  apply mark_congr
  cases place with
  | none => exact lookup_erase_ne (Ne.symm h)
  | some => rw [saveIndex, lookup_insert_ne (Ne.symm h), lookup_erase_ne (Ne.symm h)]

end

section

variable {id : Uuid}

@[simp] theorem config_view (pipe : Pipe) : (pipe.view id).config = pipe.config := by
  cases pipe <;> rfl

@[simp] theorem name_view (pipe : Pipe) : (pipe.view id).name = pipe.name := by
  cases pipe <;> rfl

@[simp] theorem controlsExpiration_view (pipe : Pipe) :
    (pipe.view id).controlsExpiration = pipe.controlsExpiration := by
  cases pipe <;> rfl

theorem Asked.view {debug : DebugText} {leaves : Leaves} {pipe : Pipe} {path : PipePath}
    {index start : Nat} {i : Insight} {run run' : PipeRun}
    (h : Asked debug leaves pipe path index start i run)
    (hr : runPipe debug leaves (pipe.view id) (path ++ [index]) i = run') :
    Asked debug leaves (pipe.view id) path index start i run' :=
  ⟨h.reached, by rw [config_view]; exact h.filter, hr⟩

/-- A pipe runs for an insight as the insight sees it: the places of other
insights neither matter nor change. -/
theorem run_view (debug : DebugText) (leaves : Leaves) (id : Uuid) :
    (∀ pipe path i, i.insightId = id → runPipe debug leaves (pipe.view id) path i =
        { runPipe debug leaves pipe path i with
          pipe := (runPipe debug leaves pipe path i).pipe.view id }) ∧
    ∀ pipes loop path index start i messages, i.insightId = id →
      runPipes debug leaves (viewAll id pipes) loop path index start i messages =
        { runPipes debug leaves pipes loop path index start i messages with
          pipes := viewAll id
            (runPipes debug leaves pipes loop path index start i messages).pipes } := by
  refine run_induct (P := fun pipe path i run => i.insightId = id →
      runPipe debug leaves (pipe.view id) path i = { run with pipe := run.pipe.view id })
    (Q := fun pipes loop path index start i messages run => i.insightId = id →
      runPipes debug leaves (viewAll id pipes) loop path index start i messages =
        { run with pipes := viewAll id run.pipes }) ?_ ?_ ?_ ?_ ?_ ?_ ?_
  · refine fun path i _ => ?_
    rw [Pipe.view, runPipe]
  · refine fun _ hr hid => ?_
    rw [Pipe.view, runPipe, resumeIndex_mark hid, hr hid]
    simp only [Pipe.view, saveIndex_mark hid]
  · refine fun _ => ?_
    rw [viewAll, runPipes]
  · refine fun hsk hrest hid => ?_
    rw [viewAll, runPipes_skip (by rw [config_view]; exact hsk), hrest hid]
    simp only [viewAll]
  · refine fun ha hr hso hid => ?_
    rw [viewAll, runPipes_suspend (ha.view (hr hid)) hso]
    simp only [viewAll]
  · refine fun ha hr hn hs hid => ?_
    rw [viewAll, runPipes_answer (ha.view (hr hid)) hn (by rw [name_view]; exact hs)]
    simp only [viewAll]
  · refine fun ha hr hn hs hrest hid => ?_
    have hrest := hrest (ha.insightId.trans hid)
    rw [viewAll, runPipes_continue (ha.view (hr hid)) hn (by rw [name_view]; exact hs)]
    simp only [hrest, viewAll]

theorem view_run (debug : DebugText) (leaves : Leaves) (id : Uuid) :
    (∀ pipe path i, i.insightId ≠ id →
      (runPipe debug leaves pipe path i).pipe.view id = pipe.view id) ∧
    ∀ pipes loop path index start i messages, i.insightId ≠ id →
      viewAll id (runPipes debug leaves pipes loop path index start i messages).pipes =
        viewAll id pipes := by
  refine run_induct (P := fun pipe _ i run => i.insightId ≠ id → run.pipe.view id = pipe.view id)
    (Q := fun pipes _ _ _ _ i _ run => i.insightId ≠ id → viewAll id run.pipes = viewAll id pipes)
    ?_ ?_ ?_ ?_ ?_ ?_ ?_
  · exact fun _ _ _ => rfl
  · refine fun _ hr hid => ?_
    rw [Pipe.view, Pipe.view, mark_saveIndex hid, hr hid]
  · exact fun _ => rfl
  · refine fun _ hrest hid => ?_
    rw [viewAll, viewAll, hrest hid]
  · refine fun _ hr _ hid => ?_
    rw [viewAll, viewAll, hr hid]
  · refine fun _ hr _ _ hid => ?_
    rw [viewAll, viewAll, hr hid]
  · refine fun ha hr _ _ hrest hid => ?_
    rw [viewAll, viewAll, hr hid, hrest (ha.insightId ▸ hid)]

mutual

theorem view_forget_self (id : Uuid) : ∀ pipe : Pipe,
    (pipe.forgetInsightContinuation id).view id = (pipe.view id).forgetInsightContinuation id
  | .leaf _ _ _ _ => rfl
  | .composite config kind resumed pipes => by
    rw [Pipe.forgetInsightContinuation, Pipe.view, Pipe.forgetInsightContinuation, lookup_mark]
    cases hp : resumed.lookup id with
    | none => rw [Pipe.view]
    | some place =>
      simp only [Pipe.view]
      rw [viewAll_forgetAt_self id place.2 pipes, mark_empty (lookup_erase _ _), erase_mark]

theorem viewAll_forgetAt_self (id : Uuid) : ∀ (index : Nat) (pipes : List Pipe),
    viewAll id (forgetAt id index pipes) = forgetAt id index (viewAll id pipes)
  | _, [] => by simp [forgetAt, viewAll]
  | 0, pipe :: pipes => by
    simp only [forgetAt, viewAll, view_forget_self id pipe]
  | index + 1, pipe :: pipes => by
    simp only [forgetAt, viewAll, viewAll_forgetAt_self id index pipes]

end

mutual

theorem view_forget_other {id other : Uuid} (h : other ≠ id) : ∀ pipe : Pipe,
    (pipe.forgetInsightContinuation other).view id = pipe.view id
  | .leaf _ _ _ _ => rfl
  | .composite config kind resumed pipes => by
    rw [Pipe.forgetInsightContinuation]
    cases hp : resumed.lookup other with
    | none => rfl
    | some place =>
      simp only [Pipe.view]
      rw [viewAll_forgetAt_other h place.2 pipes, mark_congr (lookup_erase_ne (Ne.symm h))]

theorem viewAll_forgetAt_other {id other : Uuid} (h : other ≠ id) :
    ∀ (index : Nat) (pipes : List Pipe), viewAll id (forgetAt other index pipes) = viewAll id pipes
  | _, [] => by simp [forgetAt]
  | 0, pipe :: pipes => by
    simp only [forgetAt, viewAll, view_forget_other h pipe]
  | index + 1, pipe :: pipes => by
    simp only [forgetAt, viewAll, viewAll_forgetAt_other h index pipes]

end

end

structure Alike (id : Uuid) (p q : InsightPipeline) : Prop where
  pipes : ∀ state, (p.pipeline.lookup state).map (viewAll id) =
    (q.pipeline.lookup state).map (viewAll id)
  deferred : p.deferred.lookup id = q.deferred.lookup id

section

variable {id : Uuid} {p q : InsightPipeline} {i : Insight} {debug : DebugText}
  {ctx : StrategyContext} {leaves : Leaves}

open InsightPipeline

theorem Alike.refl (id : Uuid) (p : InsightPipeline) : Alike id p p := ⟨fun _ => rfl, rfl⟩

theorem Alike.symm (h : Alike id p q) : Alike id q p :=
  ⟨fun state => (h.pipes state).symm, h.deferred.symm⟩

theorem Alike.trans {r : InsightPipeline} (h : Alike id p q) (h' : Alike id q r) : Alike id p r :=
  ⟨fun state => (h.pipes state).trans (h'.pipes state), h.deferred.trans h'.deferred⟩

theorem viewAll_getD (pipes : Option (List Pipe)) :
    viewAll id (pipes.getD []) = (pipes.map (viewAll id)).getD [] := by
  cases pipes <;> rfl

theorem map_lookup_insert {t u : Table InsightState (List Pipe)} {state : InsightState}
    {pipes others : List Pipe}
    (h : ∀ s, (t.lookup s).map (viewAll id) = (u.lookup s).map (viewAll id))
    (hp : viewAll id pipes = viewAll id others) (s : InsightState) :
    ((t.insert state pipes).lookup s).map (viewAll id) =
      ((u.insert state others).lookup s).map (viewAll id) := by
  rw [Table.lookup_insert_ite, Table.lookup_insert_ite]
  by_cases hs : s = state
  · rw [if_pos hs, if_pos hs, map_some, map_some, hp]
  · rw [if_neg hs, if_neg hs, h s]

theorem Alike.forget (h : Alike id p q) :
    Alike id (p.forgetContinuation id).1 (q.forgetContinuation id).1 := by
  unfold forgetContinuation
  rw [← h.deferred]
  cases p.deferred.lookup id with
  | none => exact h
  | some resume =>
    refine ⟨?_, ?_⟩
    · have hs := h.pipes resume.state
      cases hp : p.pipeline.lookup resume.state <;> cases hq : q.pipeline.lookup resume.state <;>
        rw [hp, hq] at hs
      case none.none =>
        simp only [hp, hq]
        exact h.pipes
      case some.some =>
        simp only [hp, hq]
        refine map_lookup_insert h.pipes ?_
        rw [viewAll_forgetAt_self, viewAll_forgetAt_self, Option.some.inj hs]
      all_goals cases hs
    · simp only [lookup_erase]

theorem Alike.dropStale (h : Alike i.insightId p q) :
    Alike i.insightId (dropStale p i) (dropStale q i) := by
  unfold Pipeline.dropStale
  rw [h.deferred]
  split
  · exact h.forget
  · exact h

theorem expires_viewAll (id : Uuid) (pipes : List Pipe) :
    expires ctx (viewAll id pipes) i = expires ctx pipes i := by
  have hm : ∀ pipes : List Pipe,
      expirationManagedByPipe (viewAll id pipes) i = expirationManagedByPipe pipes i := by
    intro pipes
    induction pipes with
    | nil => rfl
    | cons _ pipes ih =>
      simp only [expirationManagedByPipe, viewAll, List.any_cons, controlsExpiration_view,
        config_view] at ih ⊢
      rw [ih]
  rw [expires, expires, hm]

theorem viewAll_lookup_eq (h : Alike id p q) (state : InsightState) :
    viewAll id ((p.pipeline.lookup state).getD []) =
      viewAll id ((q.pipeline.lookup state).getD []) := by
  rw [viewAll_getD, viewAll_getD, h.pipes state]

theorem runStages_alike (debug : DebugText) (leaves : Leaves) (h : Alike i.insightId p q) :
    { runStages debug leaves p i with
      pipes := viewAll i.insightId (runStages debug leaves p i).pipes } =
    { runStages debug leaves q i with
      pipes := viewAll i.insightId (runStages debug leaves q i).pipes } := by
  rw [runStages, runStages]
  rw [← (run_view debug leaves i.insightId).2 _ _ _ _ _ _ _ rfl,
    ← (run_view debug leaves i.insightId).2 _ _ _ _ _ _ _ rfl, viewAll_lookup_eq h, h.deferred]

theorem Alike.insightTurn (h : Alike i.insightId p q) :
    (insightTurn debug ctx leaves p i).ending = (insightTurn debug ctx leaves q i).ending ∧
    (insightTurn debug ctx leaves p i).insight = (insightTurn debug ctx leaves q i).insight ∧
    (insightTurn debug ctx leaves p i).log = (insightTurn debug ctx leaves q i).log ∧
    Alike i.insightId (insightTurn debug ctx leaves p i).pipeline
      (insightTurn debug ctx leaves q i).pipeline := by
  have he : expires ctx ((p.pipeline.lookup i.state).getD []) i =
      expires ctx ((q.pipeline.lookup i.state).getD []) i := by
    rw [← expires_viewAll i.insightId, viewAll_lookup_eq h, expires_viewAll]
  have hru := runStages_alike debug leaves h
  rw [PipesRun.mk.injEq] at hru
  obtain ⟨hr, hi, hp, hsu, hl⟩ := hru
  have hso : (p.pipeline.lookup i.state).isSome = (q.pipeline.lookup i.state).isSome := by
    have hs := congrArg Option.isSome (h.pipes i.state)
    rw [isSome_map, isSome_map] at hs
    exact hs
  have hre : (runStages debug leaves p i).resume i.state =
      (runStages debug leaves q i).resume i.state := by
    rw [PipesRun.resume, PipesRun.resume, hsu, hr]
  unfold Pipeline.insightTurn
  rw [he]
  cases expires ctx ((q.pipeline.lookup i.state).getD []) i with
  | some => exact ⟨rfl, rfl, rfl, h⟩
  | none =>
    simp only [hr, hi, hl, hso, hre]
    refine ⟨trivial, trivial, trivial, ?_, ?_⟩
    · intro state
      cases (q.pipeline.lookup i.state).isSome with
      | true => exact map_lookup_insert h.pipes hp state
      | false => exact h.pipes state
    · cases (runStages debug leaves q i).resume i.state with
      | some => rw [lookup_insert, lookup_insert]
      | none => rw [lookup_erase, lookup_erase]

theorem Alike.runInsight (h : Alike i.insightId p q) :
    (runInsight debug ctx leaves p i).ending = (runInsight debug ctx leaves q i).ending ∧
    (runInsight debug ctx leaves p i).insight = (runInsight debug ctx leaves q i).insight ∧
    (runInsight debug ctx leaves p i).log = (runInsight debug ctx leaves q i).log ∧
    Alike i.insightId (runInsight debug ctx leaves p i).pipeline
      (runInsight debug ctx leaves q i).pipeline := h.dropStale.insightTurn

theorem alike_forget {other : Uuid} (h : other ≠ id) :
    Alike id (p.forgetContinuation other).1 p := by
  unfold forgetContinuation
  cases p.deferred.lookup other with
  | none => exact Alike.refl id p
  | some resume =>
    refine ⟨fun state => ?_, lookup_erase_ne (Ne.symm h)⟩
    cases hp : p.pipeline.lookup resume.state with
    | none => simp only [hp]
    | some =>
      simp only [hp]
      rw [Table.lookup_insert_ite]
      by_cases hs : state = resume.state
      · rw [if_pos hs, hs, hp, map_some, map_some, viewAll_forgetAt_other h]
      · rw [if_neg hs]

theorem alike_insightTurn (h : i.insightId ≠ id) :
    Alike id (insightTurn debug ctx leaves p i).pipeline p := by
  unfold insightTurn
  cases expires ctx ((p.pipeline.lookup i.state).getD []) i with
  | some => exact Alike.refl id p
  | none =>
    refine ⟨fun state => ?_, ?_⟩
    · have hv := (view_run debug leaves id).2 ((p.pipeline.lookup i.state).getD []) .stages [] 0
        ((p.deferred.lookup i.insightId).elim 0 (·.index)) i [] h
      cases hp : p.pipeline.lookup i.state with
      | none => simp only [isSome_none, Bool.false_eq_true, if_false]
      | some =>
        simp only [isSome_some, if_true]
        rw [Table.lookup_insert_ite]
        by_cases hs : state = i.state
        · rw [if_pos hs, hs, hp, map_some, map_some]
          rw [hp] at hv
          rw [runStages, hp, hv]
          rfl
        · rw [if_neg hs]
    · simp only
      cases (runStages debug leaves p i).resume i.state with
      | some =>
        simp only
        rw [lookup_insert_ne (Ne.symm h), lookup_erase_ne (Ne.symm h)]
      | none => exact lookup_erase_ne (Ne.symm h)

theorem alike_runInsight (h : i.insightId ≠ id) :
    Alike id (runInsight debug ctx leaves p i).pipeline p := by
  have hd : Alike id (dropStale p i) p := by
    unfold dropStale
    split
    · exact alike_forget h
    · exact Alike.refl id p
  exact (alike_insightTurn h).trans hd

end

end AqEngine.Pipeline
