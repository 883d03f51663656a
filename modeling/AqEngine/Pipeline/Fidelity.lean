import AqEngine.Lib.Runs
import AqEngine.Pipeline.Branches
import AqEngine.Pipeline.Transparency

namespace AqEngine.Pipeline

open Lib Insights List Option AList Table

/-- What happens to a pipeline after it was built. -/
inductive PipelineAction where
  | turn (debug : DebugText) (ctx : StrategyContext) (leaves : Leaves) (i : Insight)
  | forget (id : Uuid)
  | retain (active : Finset Uuid)

namespace PipelineAction

variable (p : InsightPipeline)

def perform : PipelineAction → InsightPipeline
  | .turn debug ctx leaves i => (runInsight debug ctx leaves p i).pipeline
  | .forget id => (p.forgetContinuation id).1
  | .retain active => p.retainActiveInsights active

/-- A full pass forgets every other continuation before it retains. -/
def possible : PipelineAction → Bool
  | .retain active => p.deferred.keys.all (· ∈ active)
  | _ => true

def step (action : PipelineAction) : Option InsightPipeline :=
  if action.possible p then some (action.perform p) else none

/-- A turn that resumes a continuation enters the branch that waits. -/
def Reenters : PipelineAction → Prop
  | .turn _ ctx _ i => ∀ resume pipes, p.deferred.lookup i.insightId = some resume →
      resume.state = i.state → p.pipeline.lookup i.state = some pipes → expires ctx pipes i = none →
      ReentersAt i resume.index pipes
  | _ => True

/-- What a turn of the insight shows: how it ended, the insight afterwards
and the leaves that ran. -/
def shown (id : Uuid) (p : InsightPipeline) : PipelineAction →
    List (TurnEnd × Insight × List LeafRun)
  | .turn debug ctx leaves i =>
    if i.insightId = id then
      let run := runInsight debug ctx leaves p i
      [(run.ending, run.insight, run.log)]
    else []
  | _ => []

end PipelineAction

def history (id : Uuid) : InsightPipeline → List PipelineAction →
    List (TurnEnd × Insight × List LeafRun)
  | _, [] => []
  | p, action :: actions => action.shown id p ++ history id (action.perform p) actions

section

variable {id : Uuid} {p q : InsightPipeline}

theorem Alike.lookup (h : Alike id p q) {state : InsightState} {pipes : List Pipe}
    (hp : p.pipeline.lookup state = some pipes) :
    ∃ others, q.pipeline.lookup state = some others ∧ viewAll id others = viewAll id pipes := by
  have hs := h.pipes state
  rw [hp, map_some] at hs
  exact map_eq_some_iff.1 hs.symm

theorem map_bareAll (id : Uuid) (pipes : Option (List Pipe)) :
    pipes.map bareAll = (pipes.map (viewAll id)).map bareAll := by
  rw [Option.map_map]
  congr 1
  funext pipes
  exact (bareAll_viewAll id pipes).symm

theorem Alike.retain (h : Alike id p q) (active : Finset Uuid) :
    Alike id (p.retainActiveInsights active) (q.retainActiveInsights active) where
  pipes state := by
    simp only [InsightPipeline.retainActiveInsights, lookup_mapRows, Option.map_map]
    have hv : viewAll id ∘ retainAll active =
        fun pipes => if id ∈ active then viewAll id pipes else bareAll pipes :=
      funext (viewAll_retainAll active id)
    rw [hv]
    by_cases ha : id ∈ active
    · simp only [if_pos ha]
      exact h.pipes state
    simp only [if_neg ha]
    rw [map_bareAll id, h.pipes state, ← map_bareAll]
  deferred := h.deferred

theorem alike_retain {active : Finset Uuid} (h : id ∈ active) :
    Alike id (p.retainActiveInsights active) p where
  pipes state := by
    simp only [InsightPipeline.retainActiveInsights, lookup_mapRows, Option.map_map]
    congr 1
    funext pipes
    rw [Function.comp_apply, viewAll_retainAll, if_pos h]
  deferred := rfl

theorem Alike.perform (h : Alike id p q) (action : PipelineAction) :
    Alike id (action.perform p) (action.perform q) := by
  cases action with
  | turn _ _ _ i =>
    by_cases hid : i.insightId = id
    · subst hid
      exact h.runInsight.2.2.2
    · exact (alike_runInsight hid).trans (h.trans (alike_runInsight hid).symm)
  | forget other =>
    by_cases hid : other = id
    · subst hid
      exact h.forget
    · exact (alike_forget hid).trans (h.trans (alike_forget hid).symm)
  | retain active => exact h.retain active

theorem Alike.shown (h : Alike id p q) (action : PipelineAction) :
    action.shown id p = action.shown id q := by
  cases action with
  | turn debug ctx leaves i =>
    by_cases hid : i.insightId = id
    · subst hid
      obtain ⟨he, hi, hl, -⟩ := @Alike.runInsight p q i debug ctx leaves h
      simp only [PipelineAction.shown, if_pos, he, hi, hl]
    · simp only [PipelineAction.shown, if_neg hid]
  | forget => rfl
  | retain => rfl

/-- An insight that cannot tell two pipelines apart never will. -/
theorem Alike.history (h : Alike id p q) (actions : List PipelineAction) :
    history id p actions = history id q actions := by
  induction actions generalizing p q with
  | nil => rfl
  | cons action actions ih =>
    rw [Pipeline.history, Pipeline.history, h.shown action, ih (h.perform action)]

end

structure Tidy (id : Uuid) (p : InsightPipeline) : Prop where
  waits : ∀ resume, p.deferred.lookup id = some resume →
    ∃ pipes, p.pipeline.lookup resume.state = some pipes ∧ CleanAt id resume.index pipes
  free : ∀ state pipes, p.pipeline.lookup state = some pipes →
    (∀ resume, p.deferred.lookup id = some resume → resume.state ≠ state) → FreeAll id pipes

section

variable {id : Uuid} {p q : InsightPipeline} {i : Insight} {debug : DebugText}
  {ctx : StrategyContext} {leaves : Leaves}

theorem Alike.tidy (h : Alike id p q) (hp : Tidy id p) : Tidy id q where
  waits resume hr := by
    rw [← h.deferred] at hr
    obtain ⟨pipes, hpipes, hc⟩ := hp.waits resume hr
    obtain ⟨others, hothers, hv⟩ := h.lookup hpipes
    refine ⟨others, hothers, ?_⟩
    rw [← cleanAt_viewAll, hv, cleanAt_viewAll]
    exact hc
  free state others hothers hs := by
    obtain ⟨pipes, hpipes, hv⟩ := h.symm.lookup hothers
    rw [← h.deferred] at hs
    rw [← freeAll_viewAll, ← hv, freeAll_viewAll]
    exact hp.free state pipes hpipes hs

theorem tidy_of_free (hn : p.deferred.lookup id = none)
    (hfree : ∀ state pipes, p.pipeline.lookup state = some pipes → FreeAll id pipes) : Tidy id p :=
  ⟨by simp [hn], fun state pipes hpipes _ => hfree state pipes hpipes⟩

theorem forget_deferred : (p.forgetContinuation id).1.deferred.lookup id = none := by
  unfold InsightPipeline.forgetContinuation
  cases h : p.deferred.lookup id with
  | none => exact h
  | some => exact lookup_erase _ _

theorem Tidy.forget (h : Tidy id p) : Tidy id (p.forgetContinuation id).1 := by
  refine tidy_of_free forget_deferred ?_
  unfold InsightPipeline.forgetContinuation
  cases hr : p.deferred.lookup id with
  | none => exact fun state pipes hpipes => h.free state pipes hpipes (by simp [hr])
  | some resume =>
    obtain ⟨waiting, hw, hc⟩ := h.waits resume hr
    intro state pipes hpipes
    simp only [hw] at hpipes
    obtain ⟨rfl, rfl⟩ | ⟨hs, hpipes⟩ := lookup_insert_cases hpipes
    · exact forgetAt_free hc
    · exact h.free state pipes hpipes (by simpa [hr] using Ne.symm hs)

theorem Tidy.dropStale (h : Tidy i.insightId p) : Tidy i.insightId (dropStale p i) := by
  unfold Pipeline.dropStale
  split
  · exact h.forget
  · exact h

theorem dropStale_cases (p : InsightPipeline) (i : Insight) :
    (dropStale p i).deferred.lookup i.insightId = none ∨
      dropStale p i = p ∧ ∀ resume, p.deferred.lookup i.insightId = some resume →
        resume.state = i.state := by
  unfold dropStale
  split
  · exact .inl forget_deferred
  next hs =>
  refine .inr ⟨rfl, fun resume hr => ?_⟩
  rw [hr] at hs
  simp only [any_some, bne_iff_ne, ne_eq, not_not] at hs
  exact hs.symm

theorem Tidy.entered (h : Tidy i.insightId p)
    (hs : ∀ resume, p.deferred.lookup i.insightId = some resume → resume.state = i.state)
    (hre : ∀ resume pipes, p.deferred.lookup i.insightId = some resume →
      p.pipeline.lookup i.state = some pipes → ReentersAt i resume.index pipes) :
    Entered i 0 ((p.deferred.lookup i.insightId).elim 0 (·.index))
      ((p.pipeline.lookup i.state).getD []) := by
  cases hr : p.deferred.lookup i.insightId with
  | none =>
    refine .inr ?_
    cases hpipes : p.pipeline.lookup i.state with
    | none => trivial
    | some pipes => exact h.free i.state pipes hpipes (by simp [hr])
  | some resume =>
    obtain ⟨pipes, hpipes, hc⟩ := h.waits resume hr
    rw [hs resume hr] at hpipes
    rw [hpipes]
    exact .inl ⟨Nat.zero_le _, hc, hre resume pipes hr hpipes⟩

theorem Tidy.insightTurn (h : Tidy i.insightId p)
    (hst : ∀ resume, p.deferred.lookup i.insightId = some resume → resume.state = i.state)
    (hre : ∀ resume pipes, p.deferred.lookup i.insightId = some resume →
      p.pipeline.lookup i.state = some pipes → expires ctx pipes i = none →
      ReentersAt i resume.index pipes) :
    Tidy i.insightId (insightTurn debug ctx leaves p i).pipeline := by
  unfold Pipeline.insightTurn
  cases he : expires ctx ((p.pipeline.lookup i.state).getD []) i with
  | some => exact h
  | none =>
    have hleft : Left i.insightId 0 (runStages debug leaves p i) := by
      refine (run_clean debug leaves).2 _ _ _ _ _ _ _ (h.entered hst ?_)
      intro resume pipes hr hpipes
      rw [hpipes] at he
      exact hre resume pipes hr hpipes he
    have ho : ∀ state pipes, state ≠ i.state → p.pipeline.lookup state = some pipes →
        FreeAll i.insightId pipes := by
      intro state pipes hne hpipes
      refine h.free state pipes hpipes fun resume hr => ?_
      rw [hst resume hr]
      exact Ne.symm hne
    cases hpipes : p.pipeline.lookup i.state with
    | none =>
      have hru : runStages debug leaves p i =
          ⟨PipeLoop.stages.exhausted debug [], i, [], none, []⟩ := by
        rw [runStages, hpipes]
        rfl
      simp only [hru, PipesRun.resume, isSome_none, Bool.false_eq_true, if_false]
      refine tidy_of_free (lookup_erase _ _) fun state pipes hs' => ?_
      refine ho state pipes ?_ hs'
      rintro rfl
      rw [hpipes] at hs'
      cases hs'
    | some =>
      simp only [isSome_some, if_true]
      cases hs : (runStages debug leaves p i).suspended with
      | none =>
        have hr : (runStages debug leaves p i).resume i.state = none := by
          rw [PipesRun.resume, hs]
        simp only [hr]
        refine tidy_of_free (lookup_erase _ _) fun state pipes hs' => ?_
        obtain ⟨rfl, rfl⟩ | ⟨hne, hs'⟩ := lookup_insert_cases hs'
        · exact hleft.free hs
        · exact ho state pipes hne hs'
      | some place =>
        have hd : (runStages debug leaves p i).result.deferred ≠ none := by
          intro hn
          rw [hleft.suspended.1 hn] at hs
          cases hs
        obtain ⟨dependency, hde⟩ := ne_none_iff_exists'.1 hd
        have hr : (runStages debug leaves p i).resume i.state =
            some ⟨i.state, place, dependency⟩ := by
          rw [PipesRun.resume, hs, hde]
        simp only [hr]
        refine ⟨fun resume hr => ?_, fun state pipes hs' hw => ?_⟩
        · rw [lookup_insert] at hr
          cases hr
          exact ⟨_, lookup_insert _, (hleft.clean place hs).2⟩
        · obtain ⟨rfl, rfl⟩ | ⟨hne, hs'⟩ := lookup_insert_cases hs'
          · exact absurd rfl (hw _ (lookup_insert _))
          · exact ho state pipes hne hs'

theorem Tidy.runInsight
    (h : Tidy i.insightId p) (hre : (PipelineAction.turn debug ctx leaves i).Reenters p) :
    Tidy i.insightId (runInsight debug ctx leaves p i).pipeline := by
  unfold Pipeline.runInsight
  obtain hn | ⟨heq, hs⟩ := dropStale_cases p i
  · exact h.dropStale.insightTurn (by simp [hn]) (by simp [hn])
  · rw [heq]
    exact h.insightTurn hs fun resume pipes hr => hre resume pipes hr (hs resume hr)

theorem Tidy.retain {active : Finset Uuid} (h : Tidy id p)
    (ha : ∀ resume, p.deferred.lookup id = some resume → id ∈ active) :
    Tidy id (p.retainActiveInsights active) := by
  by_cases hid : id ∈ active
  · exact (alike_retain hid).symm.tidy h
  refine ⟨fun resume hr => absurd (ha resume hr) hid, ?_⟩
  intro state pipes hpipes _
  rw [InsightPipeline.retainActiveInsights, lookup_mapRows] at hpipes
  obtain ⟨before, -, rfl⟩ := map_eq_some_iff.1 hpipes
  rw [← freeAll_viewAll, viewAll_retainAll, if_neg hid]
  exact freeAll_bareAll id before

theorem Tidy.step (h : ∀ id, Tidy id p) {action : PipelineAction} (hr : action.Reenters p)
    (hstep : action.step p = some q) (id : Uuid) : Tidy id q := by
  unfold PipelineAction.step at hstep
  split at hstep
  · next hpos =>
    cases hstep
    cases action with
    | turn _ _ _ i =>
      by_cases hid : i.insightId = id
      · subst hid
        exact (h i.insightId).runInsight hr
      · exact (alike_runInsight hid).symm.tidy (h id)
    | forget other =>
      by_cases hid : other = id
      · subst hid
        exact (h other).forget
      · exact (alike_forget hid).symm.tidy (h id)
    | retain =>
      refine (h id).retain fun _ hre => ?_
      have ha := List.all_eq_true.1 hpos id
        (AList.mem_keys.1 (lookup_isSome.1 (by rw [hre]; rfl)))
      exact of_decide_eq_true ha
  · cases hstep

end

section

def built (pipes : List Pipe) : InsightPipeline := pipes.foldl InsightPipeline.addPipe {}

namespace InsightPipeline

def tree (p : InsightPipeline) (state : InsightState) : Option (List Pipe) :=
  (p.pipeline.lookup state).map bareAll

def layout (p : InsightPipeline) (state : InsightState) : Option (List String) :=
  (p.pipeline.lookup state).map layouts

end InsightPipeline

/-- A pipe before its first turn, with labels that can be told apart. -/
structure Pipe.Registrable (controls : String → String → Bool) (pipe : Pipe) : Prop where
  plain : pipe.plain = true
  coded : pipe.coded controls = true
  bare : pipe.bare = pipe

variable {controls : String → String → Bool} {pipes others : List Pipe} {id : Uuid}
  {p q : InsightPipeline} {state : InsightState}

open InsightPipeline

theorem built_deferred (pipes : List Pipe) (p : InsightPipeline) :
    (pipes.foldl addPipe p).deferred = p.deferred := by
  induction pipes generalizing p with
  | nil => rfl
  | cons _ pipes ih => rw [foldl_cons, ih, addPipe]

theorem mem_of_built {bucket : List Pipe} (h : (built pipes).pipeline.lookup state = some bucket) :
    ∀ pipe ∈ bucket, pipe ∈ pipes := by
  have hf : ∀ (pipes : List Pipe) (p : InsightPipeline) (bucket : List Pipe),
      (pipes.foldl addPipe p).pipeline.lookup state = some bucket →
      ∀ pipe ∈ bucket, pipe ∈ (p.pipeline.lookup state).getD [] ∨ pipe ∈ pipes := by
    intro pipes
    induction pipes with
    | nil =>
      intro p bucket hb pipe hp
      rw [foldl_nil] at hb
      rw [hb]
      exact .inl hp
    | cons first pipes ih =>
      intro p bucket hb pipe hp
      obtain hm | hm := ih (p.addPipe first) bucket hb pipe hp
      · rw [addPipe, lookup_insert_ite] at hm
        split at hm
        · next hs =>
          rw [getD_some, mem_append, mem_singleton, ← hs] at hm
          obtain hm | rfl := hm
          · exact .inl hm
          · exact .inr mem_cons_self
        · exact .inl hm
      · exact .inr (mem_cons_of_mem first hm)
  intro pipe hp
  obtain hm | hm := hf pipes {} bucket h pipe hp
  · cases state <;> cases hm
  · exact hm

theorem bareAll_eq_map (pipes : List Pipe) : bareAll pipes = pipes.map Pipe.bare := by
  induction pipes with
  | nil => rfl
  | cons _ pipes ih => rw [bareAll, ih, map_cons]

theorem plainAll_iff : plainAll pipes = true ↔ ∀ pipe ∈ pipes, pipe.plain = true := by
  induction pipes with
  | nil => simp [plainAll]
  | cons pipe pipes ih => simp [plainAll, ih]

theorem codedAll_iff : codedAll controls pipes = true ↔
    ∀ pipe ∈ pipes, pipe.coded controls = true := by
  induction pipes with
  | nil => simp [codedAll]
  | cons pipe pipes ih => simp [codedAll, ih]

section

variable (hpipes : ∀ pipe ∈ pipes, pipe.Registrable controls)
  (hothers : ∀ pipe ∈ others, pipe.Registrable controls)
include hpipes

theorem built_bare {bucket : List Pipe} (h : (built pipes).pipeline.lookup state = some bucket) :
    bareAll bucket = bucket := by
  rw [bareAll_eq_map]
  refine (map_congr_left ?_).trans (List.map_id bucket)
  exact fun pipe hp => (hpipes pipe (mem_of_built h pipe hp)).bare

theorem tree_built : (built pipes).tree state = (built pipes).pipeline.lookup state := by
  rw [tree]
  cases h : (built pipes).pipeline.lookup state with
  | none => rfl
  | some => rw [map_some, built_bare hpipes h]

theorem tidy_built (id : Uuid) : Tidy id (built pipes) := by
  refine tidy_of_free (by rw [built, built_deferred]; rfl) fun _ bucket hb => ?_
  rw [← built_bare hpipes hb]
  exact freeAll_bareAll id bucket

include hothers

theorem tree_of_layout (h : (built pipes).layout state = (built others).layout state) :
    (built pipes).tree state = (built others).tree state := by
  unfold layout at h
  unfold tree
  cases hp : (built pipes).pipeline.lookup state with
  | none =>
    rw [hp] at h
    rw [map_eq_none_iff.1 h.symm]
  | some bucket =>
    rw [hp] at h
    obtain ⟨bucket', hq, h⟩ := map_eq_some_iff.1 h.symm
    have hm := fun pipe hpi => hpipes pipe (mem_of_built hp pipe hpi)
    have hm' := fun pipe hpi => hothers pipe (mem_of_built hq pipe hpi)
    rw [hq, map_some, map_some, bareAll_of_layouts controls bucket bucket'
      (plainAll_iff.2 fun pipe hpi => (hm pipe hpi).plain)
      (plainAll_iff.2 fun pipe hpi => (hm' pipe hpi).plain)
      (codedAll_iff.2 fun pipe hpi => (hm pipe hpi).coded)
      (codedAll_iff.2 fun pipe hpi => (hm' pipe hpi).coded) h.symm]

end

theorem Alike.tree (h : Alike id p q) (state : InsightState) : p.tree state = q.tree state := by
  rw [InsightPipeline.tree, InsightPipeline.tree, map_bareAll id, h.pipes state, ← map_bareAll]

theorem exists_other (id : Uuid) : ∃ other, id ≠ other := by
  by_cases h : id = default
  · refine ⟨⟨List.replicate 16 1, rfl⟩, ?_⟩
    rw [h]
    decide
  · exact ⟨default, h⟩

/-- Actions never change the trees: some insight does not notice. -/
theorem tree_perform (p : InsightPipeline) (action : PipelineAction) (state : InsightState) :
    (action.perform p).tree state = p.tree state := by
  cases action with
  | turn _ _ _ i =>
    obtain ⟨other, ho⟩ := exists_other i.insightId
    exact (alike_runInsight ho).tree state
  | forget id =>
    obtain ⟨other, ho⟩ := exists_other id
    exact (alike_forget ho).tree state
  | retain =>
    simp only [PipelineAction.perform, retainActiveInsights, tree, lookup_mapRows,
      Option.map_map]
    congr 1
    funext pipes
    rw [Function.comp_apply, ← bareAll_viewAll default, viewAll_retainAll]
    split
    · exact bareAll_viewAll default pipes
    · exact bareAll_bareAll pipes

theorem layout_eq_tree (p : InsightPipeline) (state : InsightState) :
    p.layout state = (p.tree state).map layouts := by
  rw [layout, tree, Option.map_map]
  congr 1
  funext pipes
  exact (layouts_bareAll pipes).symm

end

section

variable {id : Uuid} {p q : InsightPipeline} {resume : DeferredPipeResume}

open InsightPipeline

/-- A captured checkpoint restores the continuation in a pipeline with the same
tree for its state. -/
theorem Tidy.restore (h : Tidy id p) (hr : p.deferred.lookup id = some resume)
    (hb : q.pipeline.lookup resume.state = p.tree resume.state) :
    ∃ c restored, p.executionCheckpoint id = some c ∧
      q.restoreExecutionCheckpoint id c = (restored, .ok ()) ∧
      restored.deferred.lookup id = some resume ∧
      ((∀ state, q.pipeline.lookup state = p.tree state) → Alike id p restored) := by
  obtain ⟨pipes, hpipes, hc⟩ := h.waits resume hr
  obtain ⟨nested, stages, hn, hst, hv⟩ := restoreAt_view "saved pipeline index is out of range" hc
  have hq : q.pipeline.lookup resume.state = some (bareAll pipes) := by
    rw [hb, tree, hpipes, map_some]
  refine ⟨⟨resume.state, resume.index, resume.dependency, layouts pipes, nested⟩,
    ⟨q.pipeline.insert resume.state stages, q.deferred.insert id resume⟩, ?_, ?_,
    lookup_insert _, fun hall => ?_⟩
  · rw [executionCheckpoint, hr]
    simp only [bind_eq_bind, bind_some, hpipes, hn]
  · rw [restoreExecutionCheckpoint]
    simp only [hq, layouts_bareAll, ne_eq, not_true_eq_false, if_false, hst]
  · refine ⟨fun state => ?_, ?_⟩
    · rw [lookup_insert_ite]
      by_cases hs : state = resume.state
      · rw [if_pos hs, hs, hpipes, map_some, map_some, hv]
      rw [if_neg hs, hall, tree, Option.map_map]
      cases ho : p.pipeline.lookup state with
      | none => rfl
      | some others =>
        rw [map_some, map_some, Function.comp_apply, viewAll_bareAll]
        exact congrArg some (viewAll_of_free
          (h.free state others ho (by simpa [hr] using Ne.symm hs)))
    · rw [hr, lookup_insert]

theorem executionCheckpoint_eq_some {c : InsightPipelineCheckpoint}
    (hc : p.executionCheckpoint id = some c) :
    p.layout c.state = some c.layout ∧ (p.deferred.lookup id).map (·.state) = some c.state := by
  simp only [executionCheckpoint, bind_eq_bind, bind_eq_some_iff] at hc
  obtain ⟨resume, hr, pipes, hpipes, nested, -, hc⟩ := hc
  cases hc
  rw [layout, hpipes, hr]
  exact ⟨rfl, rfl⟩

theorem restore_refused {c : InsightPipelineCheckpoint} (hc : p.executionCheckpoint id = some c)
    (h : p.layout c.state ≠ q.layout c.state) :
    ∃ reason, q.restoreExecutionCheckpoint id c = (q, .error reason) := by
  rw [(executionCheckpoint_eq_some hc).1, layout] at h
  rw [restoreExecutionCheckpoint]
  cases hq : q.pipeline.lookup c.state with
  | none => exact ⟨_, rfl⟩
  | some others =>
    rw [hq, map_some] at h
    have hne : layouts others ≠ c.layout := fun heq => h (congrArg some heq.symm)
    simp only [ne_eq, hne, not_false_eq_true, if_true]
    exact ⟨_, rfl⟩

end

variable {controls : String → String → Bool} {pipes others : List Pipe}
  {actions : List PipelineAction} {p : InsightPipeline}

def Reentering (start : InsightPipeline) (actions : List PipelineAction) : Prop :=
  ∀ earlier action later q, actions = earlier ++ action :: later →
    runs (fun p a => PipelineAction.step p a) start earlier = some q → action.Reenters q

theorem runs_tidy (hpipes : ∀ pipe ∈ pipes, pipe.Registrable controls)
    (hru : runs (fun p a => PipelineAction.step p a) (built pipes) actions = some p)
    (hr : Reentering (built pipes) actions) :
    (∀ id, Tidy id p) ∧ ∀ state, p.tree state = (built pipes).tree state := by
  refine runs_invariant_of
    (P := fun p => (∀ id, Tidy id p) ∧ ∀ state, p.tree state = (built pipes).tree state)
    ?_ ⟨tidy_built hpipes, fun _ => rfl⟩ hr hru
  rintro p action q ⟨ht, htr⟩ hok hstep
  refine ⟨Tidy.step ht hok hstep, fun state => ?_⟩
  rw [← htr state]
  unfold PipelineAction.step at hstep
  split at hstep
  · cases hstep
    exact tree_perform p action state
  · cases hstep

/-- A continuation captured after any run is restored in a pipeline of the
same layout, and no later turn tells the two apart. Only the state of the
continuation counts for this: with another tree for it a pipeline refuses, and
trees of other states are not compared. -/
theorem checkpoint_fidelity (hpipes : ∀ pipe ∈ pipes, pipe.Registrable controls)
    (hothers : ∀ pipe ∈ others, pipe.Registrable controls)
    (hrun : runs (fun p a => PipelineAction.step p a) (built pipes) actions = some p)
    (hreenters : Reentering (built pipes) actions) {id : Uuid} {resume : DeferredPipeResume}
    (hresume : p.deferred.lookup id = some resume) :
    ∃ c, p.executionCheckpoint id = some c ∧
      ((built others).layout resume.state = (built pipes).layout resume.state →
        ∃ q, (built others).restoreExecutionCheckpoint id c = (q, .ok ()) ∧
          q.deferred.lookup id = some resume ∧
          ((∀ state, (built others).layout state = (built pipes).layout state) →
            ∀ later, history id q later = history id p later)) ∧
      ((built others).tree resume.state ≠ (built pipes).tree resume.state →
        ∃ reason, (built others).restoreExecutionCheckpoint id c = (built others, .error reason) ∧
          (built others).deferred.lookup id = none) := by
  obtain ⟨hti, htr⟩ := runs_tidy hpipes hrun hreenters
  have hsame : ∀ state, (built others).layout state = (built pipes).layout state →
      (built others).pipeline.lookup state = p.tree state := fun state hla => by
    rw [← tree_built hothers, tree_of_layout hothers hpipes hla, htr]
  obtain ⟨c, -, hc, -⟩ := (hti id).restore (q := ⟨p.pipeline.mapRows bareAll, ∅⟩) hresume
    (lookup_mapRows _ _ _)
  refine ⟨c, hc, fun hla => ?_, fun hdi => ?_⟩
  · obtain ⟨c', restored, hc', hre, hde, hal⟩ := (hti id).restore hresume (hsame _ hla)
    rw [hc] at hc'
    cases hc'
    exact ⟨restored, hre, hde, fun hall later =>
      ((hal fun state => hsame state (hall state)).history later).symm⟩
  · have hst := (executionCheckpoint_eq_some hc).2
    rw [hresume, map_some, Option.some.injEq] at hst
    have hla : p.layout c.state ≠ (built others).layout c.state := by
      intro heq
      rw [layout_eq_tree, htr, ← layout_eq_tree, ← hst] at heq
      exact hdi (tree_of_layout hpipes hothers heq).symm
    obtain ⟨reason, href⟩ := restore_refused hc hla
    refine ⟨reason, href, ?_⟩
    rw [built, built_deferred]
    rfl

/-- The leaf at `path` waits, and the others pass. A leaf that runs leaves
the insight with the given parent. -/
def waitingAt (path : PipePath) (parent : Option Uuid) : Leaves where
  ask q i :=
    (if q = path then ⟨false, true, none, "Waiting", some .brokerQueueCapacity⟩
      else .new true true none "Passing", { i with parentId := parent })
  insightId_ask _ _ := rfl

def sampleTurn (path : PipePath) (before after : Option Uuid) : PipelineAction :=
  .turn plainDebug idleContext (waitingAt path after) { freshInsight with parentId := before }

/-- Both `A` and `B` have to pass for an insight without a parent, and then
`C` for any insight. -/
def guardedPipes : List Pipe :=
  [.composite {} .and ∅ [.leaf { insightScope := .both } "A" "1.0" false,
      .leaf { insightScope := .both } "B" "1.0" false],
    .leaf { insightScope := .both } "C" "1.0" false]

theorem guardedPipes_registrable : ∀ pipe ∈ guardedPipes, pipe.Registrable fun _ _ => false := by
  intro pipe hp
  simp only [guardedPipes, mem_cons, not_mem_nil, or_false] at hp
  obtain rfl | rfl := hp
  · exact ⟨by decide +kernel, by decide +kernel, rfl⟩
  · exact ⟨by decide +kernel, by decide +kernel, rfl⟩

/-- The insight waits for `B`. A rebuilt pipeline resumes there. -/
theorem checkpoint_fidelity_guarded : ∃ p c q,
    runs (fun p a => PipelineAction.step p a) (built guardedPipes) [sampleTurn [0, 1] none none] =
      some p ∧
    p.executionCheckpoint freshInsight.insightId = some c ∧
    (built guardedPipes).restoreExecutionCheckpoint freshInsight.insightId c = (q, .ok ()) ∧
    history freshInsight.insightId q [sampleTurn [] none none] =
      history freshInsight.insightId p [sampleTurn [] none none] := by
  have hree : Reentering (built guardedPipes) [sampleTurn [0, 1] none none] := by
    intro earlier action later q hac hea
    cases earlier with
    | nil =>
      cases hac
      cases hea
      intro resume pipes hre
      cases hre
    | cons _ earlier =>
      have hle := congrArg List.length hac
      simp at hle
  obtain ⟨resume, hre⟩ : ∃ resume, ((sampleTurn [0, 1] none none).perform
      (built guardedPipes)).deferred.lookup freshInsight.insightId = some resume :=
    isSome_iff_exists.1 (by decide +kernel)
  obtain ⟨c, hc, hsa, -⟩ := checkpoint_fidelity guardedPipes_registrable guardedPipes_registrable
    rfl hree hre
  obtain ⟨q, hq, -, hhi⟩ := hsa rfl
  exact ⟨_, c, q, rfl, hc, hq, hhi (fun _ => rfl) _⟩

def someParent : Option Uuid := some default

/-- The rebuilt pipeline with the continuation of the other, if it takes it. -/
def recovered (id : Uuid) (rebuilt p : InsightPipeline) : Option InsightPipeline := do
  let c ← p.executionCheckpoint id
  match rebuilt.restoreExecutionCheckpoint id c with
  | (q, .ok ()) => some q
  | (_, .error _) => none

def samplePaths (p : InsightPipeline) (actions : List PipelineAction) : List (List PipePath) :=
  (history freshInsight.insightId p actions).map fun turn => turn.2.2.map (·.path)

/-- `B` waits and gives the insight a parent, so that the next turn skips
both of them and waits for `C`. The place of `B` is not part of the
checkpoint, but it counts again once the parent is taken away. Labels of
leaves do not tell where a name ends, and pipes of another state are not
compared. -/
theorem restored_turns_differ :
    (let reached := runs (fun p a => PipelineAction.step p a) (built guardedPipes)
        [sampleTurn [0, 1] none someParent, sampleTurn [1] someParent someParent]
      let later := [sampleTurn [] someParent none, sampleTurn [] none none]
      reached.map (samplePaths · later) = some [[[1]], [[0, 1], [1]]] ∧
      (reached.bind (recovered freshInsight.insightId (built guardedPipes))).map
        (samplePaths · later) = some [[[1]], [[0, 0], [0, 1], [1]]]) ∧
    ((runs (fun p a => PipelineAction.step p a) (built [.leaf {} "A@1" "2" false])
        [sampleTurn [0] none none]).bind
      (recovered freshInsight.insightId (built [.leaf {} "A" "1@2" false]))).isSome = true ∧
    (built [.leaf {} "A" "1@2" false]).tree .new ≠ (built [.leaf {} "A@1" "2" false]).tree .new ∧
    ((runs (fun p a => PipelineAction.step p a) (built [.leaf {} "A" "1" false])
        [sampleTurn [0] none none]).bind
      (recovered freshInsight.insightId
        (built [.leaf {} "A" "1" false, .leaf { targetState := .filled } "B" "1" false]))).isSome =
      true := by
  refine ⟨by decide +kernel, by decide +kernel, ?_, by decide +kernel⟩
  intro htr
  have hna := congrArg (Option.map (List.map Pipe.name)) htr
  exact absurd hna (by decide +kernel)

end AqEngine.Pipeline
