import AqEngine.Pipeline.Places

namespace AqEngine.Pipeline

open Lib Insights AList

section

mutual

def Pipe.Free (id : Uuid) : Pipe → Prop
  | .leaf _ _ _ _ => True
  | .composite _ _ resumed pipes => resumed.lookup id = none ∧ FreeAll id pipes

def FreeAll (id : Uuid) : List Pipe → Prop
  | [] => True
  | pipe :: pipes => pipe.Free id ∧ FreeAll id pipes

end

mutual

/-- The insight waits along one branch at most: below the place of a
composite, and nowhere beside it. -/
def Pipe.Clean (id : Uuid) : Pipe → Prop
  | .leaf _ _ _ _ => True
  | .composite _ _ resumed pipes =>
    match resumed.lookup id with
    | none => FreeAll id pipes
    | some (_, index) => CleanAt id index pipes

def CleanAt (id : Uuid) : Nat → List Pipe → Prop
  | _, [] => False
  | 0, pipe :: pipes => pipe.Clean id ∧ FreeAll id pipes
  | index + 1, pipe :: pipes => pipe.Free id ∧ CleanAt id index pipes

end

mutual

/-- A turn enters the branch in which the insight waits again: no filter keeps
it out of a composite on the way, and none was left in another state. -/
def Pipe.Reenters (i : Insight) : Pipe → Prop
  | .leaf _ _ _ _ => True
  | .composite _ _ resumed pipes =>
    match resumed.lookup i.insightId with
    | none => True
    | some (state, index) => state = i.state ∧ ReentersAt i index pipes

def ReentersAt (i : Insight) : Nat → List Pipe → Prop
  | _, [] => True
  | 0, pipe :: _ => pipe.Free i.insightId ∨ pipe.config.shouldRun i = true ∧ pipe.Reenters i
  | index + 1, _ :: pipes => ReentersAt i index pipes

end

variable {id : Uuid} {i : Insight} {pipe : Pipe} {index start : Nat}

theorem Pipe.Free.clean (h : pipe.Free id) : pipe.Clean id := by
  cases pipe with
  | leaf => trivial
  | composite =>
    rw [Pipe.Free] at h
    rw [Pipe.Clean, h.1]
    exact h.2

theorem Pipe.Free.reenters (h : pipe.Free i.insightId) : pipe.Reenters i := by
  cases pipe with
  | leaf => trivial
  | composite =>
    rw [Pipe.Free] at h
    rw [Pipe.Reenters, h.1]
    trivial

/-- What a loop finds: the insight waits at `start`, or not at all. -/
def Entered (i : Insight) (index start : Nat) (pipes : List Pipe) : Prop :=
  (index ≤ start ∧ CleanAt i.insightId (start - index) pipes ∧ ReentersAt i (start - index) pipes) ∨
    FreeAll i.insightId pipes

structure Left (id : Uuid) (index : Nat) (run : PipesRun) : Prop where
  suspended : run.result.deferred = none ↔ run.suspended = none
  free : run.suspended = none → FreeAll id run.pipes
  clean : ∀ place, run.suspended = some place → index ≤ place ∧ CleanAt id (place - index) run.pipes

theorem Entered.head {pipes : List Pipe} (hs : start ≤ index)
    (h : Entered i index start (pipe :: pipes)) :
    pipe.Clean i.insightId ∧ pipe.Reenters i ∧ FreeAll i.insightId pipes := by
  obtain ⟨hindex, hc, hr⟩ | hfree := h
  · have hz : start - index = 0 := by omega
    rw [hz] at hc hr
    rw [CleanAt] at hc
    rw [ReentersAt] at hr
    exact ⟨hc.1, hr.elim Pipe.Free.reenters (·.2), hc.2⟩
  · rw [FreeAll] at hfree
    exact ⟨hfree.1.clean, hfree.1.reenters, hfree.2⟩

theorem Entered.skip {pipes : List Pipe} (hs : index < start ∨ pipe.config.shouldRun i = false)
    (h : Entered i index start (pipe :: pipes)) :
    pipe.Free i.insightId ∧ Entered i (index + 1) start pipes := by
  obtain ⟨hindex, hc, hr⟩ | hfree := h
  · by_cases hlt : index < start
    · have hsu : start - index = start - (index + 1) + 1 := by omega
      rw [hsu] at hc hr
      rw [CleanAt] at hc
      rw [ReentersAt] at hr
      exact ⟨hc.1, .inl ⟨hlt, hc.2, hr⟩⟩
    · have hz : start - index = 0 := by omega
      rw [hz] at hc hr
      rw [CleanAt] at hc
      rw [ReentersAt] at hr
      obtain hfree | ⟨hru, -⟩ := hr
      · exact ⟨hfree, .inr hc.2⟩
      have hf := hs.resolve_left hlt
      rw [hru] at hf
      cases hf
  · rw [FreeAll] at hfree
    exact ⟨hfree.1, .inr hfree.2⟩

theorem Left.cons {run : PipesRun} (hp : pipe.Free id) (h : Left id (index + 1) run)
    (log : List LeafRun) : Left id index { run with pipes := pipe :: run.pipes, log } where
  suspended := h.suspended
  free hn := by
    rw [FreeAll]
    exact ⟨hp, h.free hn⟩
  clean place hpl := by
    obtain ⟨hindex, hc⟩ := h.clean place hpl
    refine ⟨by omega, ?_⟩
    have hs : place - index = place - (index + 1) + 1 := by omega
    rw [hs, CleanAt]
    exact ⟨hp, hc⟩

/-- A run that enters the branch of its insight leaves the insight waiting
along one branch, or nowhere. -/
theorem run_clean (debug : DebugText) (leaves : Leaves) :
    (∀ pipe path i, pipe.Clean i.insightId → pipe.Reenters i →
      ((runPipe debug leaves pipe path i).result.deferred = none →
        (runPipe debug leaves pipe path i).pipe.Free i.insightId) ∧
      (runPipe debug leaves pipe path i).pipe.Clean i.insightId) ∧
    ∀ pipes loop path index start i messages, Entered i index start pipes →
      Left i.insightId index (runPipes debug leaves pipes loop path index start i messages) := by
  refine run_induct (P := fun pipe _ i run => pipe.Clean i.insightId → pipe.Reenters i →
      (run.result.deferred = none → run.pipe.Free i.insightId) ∧ run.pipe.Clean i.insightId)
    (Q := fun pipes _ _ index start i _ run => Entered i index start pipes →
      Left i.insightId index run) ?_ ?_ ?_ ?_ ?_ ?_ ?_
  · exact fun _ _ _ _ => ⟨fun _ => trivial, trivial⟩
  · intro config kind resumed pipes path i run _ hru hc hr
    have he : Entered i 0 (resumeIndex resumed i) pipes := by
      rw [Pipe.Clean] at hc
      rw [Pipe.Reenters] at hr
      unfold resumeIndex
      cases hp : resumed.lookup i.insightId with
      | none =>
        rw [hp] at hc
        exact .inr hc
      | some place =>
        obtain ⟨state, index⟩ := place
        simp only [hp] at hc hr
        obtain ⟨rfl, hr⟩ := hr
        refine .inl ⟨Nat.zero_le _, ?_, ?_⟩
        · simpa [Option.filter] using hc
        · simpa [Option.filter] using hr
    have hleft := hru he
    constructor
    · intro hn
      rw [hleft.suspended.1 hn, Pipe.Free]
      exact ⟨lookup_erase _ _, hleft.free (hleft.suspended.1 hn)⟩
    · rw [Pipe.Clean]
      cases hp : run.suspended with
      | none =>
        have hl : (saveIndex resumed i none).lookup i.insightId = none := lookup_erase _ _
        rw [hl]
        exact hleft.free hp
      | some place =>
        have hl : (saveIndex resumed i (some place)).lookup i.insightId =
            some (i.state, place) := lookup_insert _
        rw [hl]
        exact (hleft.clean place hp).2
  · refine fun he => ⟨⟨fun _ => rfl, fun _ => PipeLoop.exhausted_deferred⟩, fun _ => ?_, ?_⟩
    · rw [FreeAll]
      trivial
    · rintro place ⟨⟩
  · refine fun hsk hrest he => ?_
    obtain ⟨hfree, he⟩ := he.skip hsk
    exact (hrest he).cons hfree _
  · refine fun ha hru hs he => ?_
    obtain ⟨hc, hr, hfree⟩ := he.head ha.reached
    refine ⟨⟨fun hn => ?_, fun hn => ?_⟩, fun hn => ?_, ?_⟩
    · rw [hn] at hs
      cases hs
    · cases hn
    · cases hn
    · rintro place ⟨⟩
      rw [Nat.sub_self, CleanAt]
      exact ⟨le_refl _, (hru hc hr).2, hfree⟩
  · refine fun ha hru hn hse he => ?_
    obtain ⟨hc, hr, hfree⟩ := he.head ha.reached
    refine ⟨⟨fun _ => rfl, fun _ => PipeLoop.settle_inl_deferred hn hse⟩, fun _ => ?_, ?_⟩
    · rw [FreeAll]
      exact ⟨(hru hc hr).1 hn, hfree⟩
    · rintro place ⟨⟩
  · refine fun ha hru hn _ hrest he => ?_
    obtain ⟨hc, hr, hfree⟩ := he.head ha.reached
    have hf := (hru hc hr).1 hn
    rw [← ha.insightId] at hfree hf ⊢
    exact (hrest (.inr hfree)).cons hf _

end

mutual

theorem free_view (id : Uuid) : ∀ pipe : Pipe, (pipe.view id).Free id ↔ pipe.Free id
  | .leaf _ _ _ _ => Iff.rfl
  | .composite _ _ resumed pipes => by
    rw [Pipe.view, Pipe.Free, Pipe.Free, lookup_mark, freeAll_viewAll id pipes]

theorem freeAll_viewAll (id : Uuid) : ∀ pipes : List Pipe,
    FreeAll id (viewAll id pipes) ↔ FreeAll id pipes
  | [] => Iff.rfl
  | pipe :: pipes => by
    rw [viewAll, FreeAll, FreeAll, free_view id pipe, freeAll_viewAll id pipes]

end

mutual

theorem clean_view (id : Uuid) : ∀ pipe : Pipe, (pipe.view id).Clean id ↔ pipe.Clean id
  | .leaf _ _ _ _ => Iff.rfl
  | .composite _ _ resumed pipes => by
    rw [Pipe.view, Pipe.Clean, Pipe.Clean, lookup_mark]
    cases resumed.lookup id with
    | none => exact freeAll_viewAll id pipes
    | some place => exact cleanAt_viewAll id place.2 pipes

theorem cleanAt_viewAll (id : Uuid) : ∀ (index : Nat) (pipes : List Pipe),
    CleanAt id index (viewAll id pipes) ↔ CleanAt id index pipes
  | _, [] => by simp only [viewAll, CleanAt]
  | 0, pipe :: pipes => by
    rw [viewAll, CleanAt, CleanAt, clean_view id pipe, freeAll_viewAll id pipes]
  | index + 1, pipe :: pipes => by
    rw [viewAll, CleanAt, CleanAt, free_view id pipe, cleanAt_viewAll id index pipes]

end

mutual

theorem view_of_free {id : Uuid} : ∀ {pipe : Pipe}, pipe.Free id → pipe.view id = pipe.bare
  | .leaf _ _ _ _, _ => rfl
  | .composite _ _ _ pipes, h => by
    rw [Pipe.Free] at h
    rw [Pipe.view, Pipe.bare, mark_empty h.1, viewAll_of_free h.2]

theorem viewAll_of_free {id : Uuid} : ∀ {pipes : List Pipe}, FreeAll id pipes →
    viewAll id pipes = bareAll pipes
  | [], _ => rfl
  | _ :: _, h => by
    rw [FreeAll] at h
    rw [viewAll, bareAll, view_of_free h.1, viewAll_of_free h.2]

end

mutual

theorem free_bare (id : Uuid) : ∀ pipe : Pipe, pipe.bare.Free id
  | .leaf _ _ _ _ => trivial
  | .composite _ _ _ pipes => by
    rw [Pipe.bare, Pipe.Free]
    exact ⟨rfl, freeAll_bareAll id pipes⟩

theorem freeAll_bareAll (id : Uuid) : ∀ pipes : List Pipe, FreeAll id (bareAll pipes)
  | [] => trivial
  | pipe :: pipes => by
    rw [bareAll, FreeAll]
    exact ⟨free_bare id pipe, freeAll_bareAll id pipes⟩

end

mutual

@[simp] theorem bare_bare : ∀ pipe : Pipe, pipe.bare.bare = pipe.bare
  | .leaf _ _ _ _ => rfl
  | .composite _ _ _ pipes => by simp only [Pipe.bare, bareAll_bareAll pipes]

@[simp] theorem bareAll_bareAll : ∀ pipes : List Pipe, bareAll (bareAll pipes) = bareAll pipes
  | [] => rfl
  | pipe :: pipes => by simp only [bareAll, bare_bare pipe, bareAll_bareAll pipes]

end

mutual

@[simp] theorem bare_view (id : Uuid) : ∀ pipe : Pipe, (pipe.view id).bare = pipe.bare
  | .leaf _ _ _ _ => rfl
  | .composite _ _ _ pipes => by simp only [Pipe.view, Pipe.bare, bareAll_viewAll id pipes]

@[simp] theorem bareAll_viewAll (id : Uuid) : ∀ pipes : List Pipe,
    bareAll (viewAll id pipes) = bareAll pipes
  | [] => rfl
  | pipe :: pipes => by simp only [viewAll, bareAll, bare_view id pipe, bareAll_viewAll id pipes]

end

theorem viewAll_bareAll (id : Uuid) (pipes : List Pipe) :
    viewAll id (bareAll pipes) = bareAll pipes := by
  rw [viewAll_of_free (freeAll_bareAll id pipes), bareAll_bareAll]

mutual

theorem forget_free {id : Uuid} : ∀ {pipe : Pipe}, pipe.Clean id →
    (pipe.forgetInsightContinuation id).Free id
  | .leaf _ _ _ _, _ => trivial
  | .composite _ _ resumed pipes, h => by
    rw [Pipe.Clean] at h
    rw [Pipe.forgetInsightContinuation]
    cases hp : resumed.lookup id with
    | none =>
      rw [hp] at h
      exact ⟨hp, h⟩
    | some place =>
      rw [hp] at h
      exact ⟨lookup_erase _ _, forgetAt_free h⟩

theorem forgetAt_free {id : Uuid} : ∀ {index : Nat} {pipes : List Pipe}, CleanAt id index pipes →
    FreeAll id (forgetAt id index pipes)
  | _, [], h => by simp only [CleanAt] at h
  | 0, _ :: _, h => by
    rw [CleanAt] at h
    rw [forgetAt, FreeAll]
    exact ⟨forget_free h.1, h.2⟩
  | _ + 1, _ :: _, h => by
    rw [CleanAt] at h
    rw [forgetAt, FreeAll]
    exact ⟨h.1, forgetAt_free h.2⟩

end

variable {active : Finset Uuid} {id : Uuid}

theorem lookup_retain (keys : List Uuid) (t : Table Uuid (InsightState × Nat)) :
    (keys.foldl (fun kept id => if id ∈ active then kept else kept.erase id) t).lookup id =
      if id ∈ keys ∧ id ∉ active then none else t.lookup id := by
  induction keys generalizing t with
  | nil => simp
  | cons key keys ih =>
    rw [List.foldl_cons, ih]
    by_cases hk : id = key
    · subst hk
      by_cases ha : id ∈ active
      · simp [ha]
      · simp [ha, lookup_erase]
    · have hstep : (if key ∈ active then t else t.erase key).lookup id = t.lookup id := by
        split
        · rfl
        · exact lookup_erase_ne hk
      rw [hstep]
      simp only [List.mem_cons, hk, false_or]

theorem mark_retain (t : Table Uuid (InsightState × Nat)) :
    mark id (t.keys.foldl (fun kept id => if id ∈ active then kept else kept.erase id) t) =
      if id ∈ active then mark id t else ∅ := by
  by_cases ha : id ∈ active
  · rw [if_pos ha]
    apply mark_congr
    rw [lookup_retain, if_neg fun h => h.2 ha]
  rw [if_neg ha]
  apply mark_empty
  rw [lookup_retain]
  split
  · rfl
  next h =>
  rw [lookup_eq_none]
  exact fun hk => h ⟨mem_keys.1 hk, ha⟩

mutual

/-- A retained insight does not notice; another waits nowhere afterwards. -/
theorem view_retain (active : Finset Uuid) (id : Uuid) : ∀ pipe : Pipe,
    (pipe.retainActiveInsights active).view id = if id ∈ active then pipe.view id else pipe.bare
  | .leaf _ _ _ _ => by
    rw [Pipe.retainActiveInsights, Pipe.view, Pipe.bare, ite_self]
  | .composite config kind resumed pipes => by
    rw [Pipe.retainActiveInsights, Pipe.view, mark_retain, viewAll_retainAll active id pipes]
    by_cases h : id ∈ active
    · simp only [if_pos h, Pipe.view]
    · simp only [if_neg h, Pipe.bare]

theorem viewAll_retainAll (active : Finset Uuid) (id : Uuid) : ∀ pipes : List Pipe,
    viewAll id (retainAll active pipes) = if id ∈ active then viewAll id pipes else bareAll pipes
  | [] => by rw [retainAll, viewAll, bareAll, ite_self]
  | pipe :: pipes => by
    rw [retainAll, viewAll, view_retain active id pipe, viewAll_retainAll active id pipes]
    by_cases h : id ∈ active
    · simp only [if_pos h, viewAll]
    · simp only [if_neg h, bareAll]

end

mutual

/-- The checkpoint of a branch restores the branch in pipes built the same. -/
theorem restore_view {id : Uuid} : ∀ {pipe : Pipe}, pipe.Clean id →
    ∃ restored, pipe.bare.restoreExecutionCheckpoint id (pipe.executionCheckpoint id) =
      .ok restored ∧
      restored.view id = pipe.view id
  | .leaf _ _ _ _, _ => ⟨_, rfl, rfl⟩
  | .composite config kind resumed pipes, h => by
    rw [Pipe.Clean] at h
    rw [Pipe.bare, Pipe.executionCheckpoint]
    cases hp : resumed.lookup id with
    | none =>
      rw [hp] at h
      refine ⟨_, rfl, ?_⟩
      rw [Pipe.view, Pipe.view, mark_empty (lookup_erase _ _), mark_empty hp,
        viewAll_bareAll, viewAll_of_free h]
    | some place =>
      obtain ⟨state, index⟩ := place
      rw [hp] at h
      obtain ⟨nested, restored, hn, hr, hv⟩ :=
        restoreAt_view "saved composite pipe index is out of range" h
      refine ⟨.composite config kind ((∅ : Table Uuid _).insert id (state, index)) restored, ?_, ?_⟩
      · simp only [hn, Option.map_some]
        cases nested
        all_goals
          simp only [PipeContinuationCheckpoint.place, Pipe.restoreExecutionCheckpoint,
            PipeContinuationCheckpoint.index, PipeContinuationCheckpoint.nested,
            PipeContinuationCheckpoint.state, hr]
          rfl
      · rw [Pipe.view, Pipe.view, hv, mark_some hp, mark_some (lookup_insert _)]

theorem restoreAt_view {id : Uuid} (missing : String) :
    ∀ {index : Nat} {pipes : List Pipe}, CleanAt id index pipes →
    ∃ nested restored, checkpointAt id index pipes = some nested ∧
      restoreAt id index (bareAll pipes) nested missing = .ok restored ∧
      viewAll id restored = viewAll id pipes
  | _, [], h => by simp only [CleanAt] at h
  | 0, pipe :: pipes, h => by
    rw [CleanAt] at h
    obtain ⟨restored, hr, hv⟩ := restore_view h.1
    refine ⟨_, restored :: bareAll pipes, rfl, ?_, ?_⟩
    · rw [bareAll, restoreAt, hr]
      rfl
    · rw [viewAll, viewAll, hv, viewAll_bareAll, viewAll_of_free h.2]
  | index + 1, pipe :: pipes, h => by
    rw [CleanAt] at h
    obtain ⟨nested, restored, hn, hr, hv⟩ := restoreAt_view missing h.2
    refine ⟨nested, pipe.bare :: restored, hn, ?_, ?_⟩
    · rw [bareAll, restoreAt, hr]
      rfl
    · rw [viewAll, viewAll, hv, view_of_free (free_bare id pipe), bare_bare, view_of_free h.1]

end

end AqEngine.Pipeline
