import AqEngine.Pipeline.Turn

namespace AqEngine.Pipeline

open Insights List

/-- The loop does not skip the pipe at `index`, which runs as `run`. -/
structure Asked (debug : DebugText) (leaves : Leaves) (pipe : Pipe) (path : PipePath)
    (index start : Nat) (i : Insight) (run : PipeRun) : Prop where
  reached : start ≤ index
  filter : pipe.config.shouldRun i = true
  run_eq : runPipe debug leaves pipe (path ++ [index]) i = run

section

variable {debug : DebugText} {leaves : Leaves} {pipe : Pipe} {pipes : List Pipe} {loop : PipeLoop}
  {path : PipePath} {index start : Nat} {i : Insight} {messages : List String} {run : PipeRun}

theorem runPipes_skip (h : index < start ∨ pipe.config.shouldRun i = false) :
    runPipes debug leaves (pipe :: pipes) loop path index start i messages =
      { runPipes debug leaves pipes loop path (index + 1) start i messages with
        pipes := pipe :: (runPipes debug leaves pipes loop path (index + 1)
          start i messages).pipes } := by
  have hs : (decide (index < start) || !pipe.config.shouldRun i) = true := by
    simpa using h
  exact if_pos hs

theorem Asked.not_skipped (h : Asked debug leaves pipe path index start i run) :
    ¬(decide (index < start) || !pipe.config.shouldRun i) = true := by
  simp [h.filter, h.reached]

variable (hask : Asked debug leaves pipe path index start i run)

include hask

theorem runPipes_suspend (h : run.result.deferred.isSome = true) :
    runPipes debug leaves (pipe :: pipes) loop path index start i messages =
      ⟨run.result, run.insight, run.pipe :: pipes, some index, run.log⟩ := by
  refine (if_neg hask.not_skipped).trans ?_
  rw [hask.run_eq, if_pos h]

theorem runPipes_answer {answer : InsightPipeResult} (h : run.result.deferred = none)
    (hs : loop.settle debug pipe.name run.result run.insight messages = .inl answer) :
    runPipes debug leaves (pipe :: pipes) loop path index start i messages =
      ⟨answer, run.insight, run.pipe :: pipes, none, run.log⟩ := by
  refine (if_neg hask.not_skipped).trans ?_
  rw [hask.run_eq, if_neg (by simp [h])]
  simp only [hs]

theorem runPipes_continue {messages' : List String} (h : run.result.deferred = none)
    (hs : loop.settle debug pipe.name run.result run.insight messages = .inr messages') :
    runPipes debug leaves (pipe :: pipes) loop path index start i messages =
      { runPipes debug leaves pipes loop path (index + 1) start run.insight messages' with
        pipes := run.pipe ::
          (runPipes debug leaves pipes loop path (index + 1) start run.insight messages').pipes
        log := run.log ++
          (runPipes debug leaves pipes loop path (index + 1) start
            run.insight messages').log } := by
  refine (if_neg hask.not_skipped).trans ?_
  rw [hask.run_eq, if_neg (by simp [h])]
  simp only [hs]

end

/-- Induction along a run: what each case of the two functions keeps holds of
every run of a pipe and of every run of a loop. -/
theorem run_induct {debug : DebugText} {leaves : Leaves}
    {P : Pipe → PipePath → Insight → PipeRun → Prop}
    {Q : List Pipe → PipeLoop → PipePath → Nat → Nat → Insight → List String → PipesRun → Prop}
    (leaf : ∀ {config name version controlsExpiration} path i,
      P (.leaf config name version controlsExpiration) path i
        ⟨(leaves.ask path i).1, (leaves.ask path i).2, .leaf config name version controlsExpiration,
          [⟨path, i, (leaves.ask path i).1, (leaves.ask path i).2⟩]⟩)
    (composite : ∀ {config kind resumed pipes path i run},
      run = runPipes debug leaves pipes (.composite kind) path 0 (resumeIndex resumed i) i [] →
      Q pipes (.composite kind) path 0 (resumeIndex resumed i) i [] run →
      P (.composite config kind resumed pipes) path i
        ⟨run.result, run.insight,
          .composite config kind (saveIndex resumed i run.suspended) run.pipes,
          run.log⟩)
    (nil : ∀ {loop path index start i messages},
      Q [] loop path index start i messages ⟨loop.exhausted debug messages, i, [], none, []⟩)
    (skip : ∀ {pipe pipes loop path index start i messages rest},
      index < start ∨ pipe.config.shouldRun i = false →
      Q pipes loop path (index + 1) start i messages rest →
      Q (pipe :: pipes) loop path index start i messages { rest with pipes := pipe :: rest.pipes })
    (suspend : ∀ {pipe pipes loop path index start i messages run},
      Asked debug leaves pipe path index start i run → P pipe (path ++ [index]) i run →
      run.result.deferred.isSome = true →
      Q (pipe :: pipes) loop path index start i messages
        ⟨run.result, run.insight, run.pipe :: pipes, some index, run.log⟩)
    (answer : ∀ {pipe pipes loop path index start i messages run answer},
      Asked debug leaves pipe path index start i run → P pipe (path ++ [index]) i run →
      run.result.deferred = none →
      loop.settle debug pipe.name run.result run.insight messages = .inl answer →
      Q (pipe :: pipes) loop path index start i messages
        ⟨answer, run.insight, run.pipe :: pipes, none, run.log⟩)
    (goOn : ∀ {pipe pipes loop path index start i messages run messages' rest},
      Asked debug leaves pipe path index start i run → P pipe (path ++ [index]) i run →
      run.result.deferred = none →
      loop.settle debug pipe.name run.result run.insight messages = .inr messages' →
      Q pipes loop path (index + 1) start run.insight messages' rest →
      Q (pipe :: pipes) loop path index start i messages
        { rest with pipes := run.pipe :: rest.pipes, log := run.log ++ rest.log }) :
    (∀ pipe path i, P pipe path i (runPipe debug leaves pipe path i)) ∧
    ∀ pipes loop path index start i messages, Q pipes loop path index start i messages
      (runPipes debug leaves pipes loop path index start i messages) := by
  have cons : ∀ pipe pipes, (∀ path i, P pipe path i (runPipe debug leaves pipe path i)) →
      (∀ loop path index start i messages, Q pipes loop path index start i messages
        (runPipes debug leaves pipes loop path index start i messages)) →
      ∀ loop path index start i messages, Q (pipe :: pipes) loop path index start i messages
        (runPipes debug leaves (pipe :: pipes) loop path index start i messages) := by
    intro pipe pipes hpi hp loop path index start i messages
    by_cases hsk : index < start ∨ pipe.config.shouldRun i = false
    · rw [runPipes_skip hsk]
      exact skip hsk (hp _ _ _ _ _ _)
    obtain ⟨hst, hf⟩ := not_or.1 hsk
    have hchild := hpi (path ++ [index]) i
    obtain ⟨run, hr⟩ : ∃ run, runPipe debug leaves pipe (path ++ [index]) i = run := ⟨_, rfl⟩
    rw [hr] at hchild
    have hask : Asked debug leaves pipe path index start i run :=
      ⟨not_lt.1 hst, eq_true_of_ne_false hf, hr⟩
    cases hd : run.result.deferred with
    | some =>
      have hso : run.result.deferred.isSome = true := by rw [hd]; rfl
      rw [runPipes_suspend hask hso]
      exact suspend hask hchild hso
    | none =>
      cases hs : loop.settle debug pipe.name run.result run.insight messages with
      | inl a =>
        rw [runPipes_answer hask hd hs]
        exact answer hask hchild hd hs
      | inr messages' =>
        rw [runPipes_continue hask hd hs]
        exact goOn hask hchild hd hs (hp _ _ _ _ _ _)
  have hl : ∀ config name version controlsExpiration path i,
      P (.leaf config name version controlsExpiration) path i
        (runPipe debug leaves (.leaf config name version controlsExpiration) path i) := by
    intro config name version controlsExpiration path i
    exact leaf path i
  have hc : ∀ config kind resumed pipes,
      (∀ loop path index start i messages, Q pipes loop path index start i messages
        (runPipes debug leaves pipes loop path index start i messages)) →
      ∀ path i, P (.composite config kind resumed pipes) path i
        (runPipe debug leaves (.composite config kind resumed pipes) path i) := by
    intro config kind resumed pipes hp path i
    exact composite rfl (hp _ _ _ _ _ _)
  have hn : ∀ loop path index start i messages, Q [] loop path index start i messages
      (runPipes debug leaves [] loop path index start i messages) := by
    intro loop path index start i messages
    exact nil
  exact ⟨fun pipe => @Pipe.rec _ _ hl hc hn cons pipe,
    fun pipes => @Pipe.rec_1 _ _ hl hc hn cons pipes⟩

variable (debug : DebugText) (leaves : Leaves) {loop : PipeLoop} {i : Insight}
  {messages : List String}

theorem PipeLoop.settle_inl_deferred {debug : DebugText} {name : String}
    {r answer : InsightPipeResult}
    (hr : r.deferred = none) (h : loop.settle debug name r i messages = .inl answer) :
    answer.deferred = none := by
  match loop with
  | .stages =>
    simp only [settle] at h
    split at h
    · cases h
    cases h
    exact hr
  | .composite .and =>
    simp only [settle] at h
    split at h
    · cases h
      rfl
    · cases h
  | .composite .or =>
    simp only [settle] at h
    split at h
    · cases h
      exact hr
    split at h
    · cases h
    split at h
    · cases h
      rfl
    · cases h

theorem PipeLoop.exhausted_deferred {debug : DebugText} :
    (loop.exhausted debug messages).deferred = none := by
  match loop with
  | .stages | .composite .and | .composite .or => rfl

theorem runPipe_keeps : (∀ pipe path i,
      (runPipe debug leaves pipe path i).pipe.config = pipe.config ∧
      (runPipe debug leaves pipe path i).pipe.name = pipe.name ∧
      (runPipe debug leaves pipe path i).insight.insightId = i.insightId) ∧
    ∀ pipes loop path index start i messages,
      (runPipes debug leaves pipes loop path index start i messages).insight.insightId =
        i.insightId := by
  refine run_induct
    (P := fun pipe _ i run => run.pipe.config = pipe.config ∧ run.pipe.name = pipe.name ∧
      run.insight.insightId = i.insightId)
    (Q := fun _ _ _ _ _ i _ run => run.insight.insightId = i.insightId) ?_ ?_ ?_ ?_ ?_ ?_ ?_
  · exact fun path i => ⟨rfl, rfl, leaves.insightId_ask path i⟩
  · exact fun _ h => ⟨rfl, rfl, h⟩
  · exact rfl
  · exact fun _ h => h
  · exact fun _ h _ => h.2.2
  · exact fun _ h _ _ => h.2.2
  · exact fun _ h _ _ hrest => hrest.trans h.2.2

theorem Asked.insightId {debug : DebugText} {leaves : Leaves} {pipe : Pipe} {path : PipePath}
    {index start : Nat} {run : PipeRun}
    (h : Asked debug leaves pipe path index start i run) :
    run.insight.insightId = i.insightId := by
  rw [← h.run_eq]
  exact ((runPipe_keeps debug leaves).1 pipe (path ++ [index]) i).2.2

theorem log_truthful : (∀ pipe path i, ∀ e ∈ (runPipe debug leaves pipe path i).log,
      leaves.ask e.path e.before = (e.result, e.after)) ∧
    ∀ pipes loop path index start i messages,
      ∀ e ∈ (runPipes debug leaves pipes loop path index start i messages).log,
        leaves.ask e.path e.before = (e.result, e.after) := by
  refine run_induct
    (P := fun _ _ _ run => ∀ e ∈ run.log, leaves.ask e.path e.before = (e.result, e.after))
    (Q := fun _ _ _ _ _ _ _ run => ∀ e ∈ run.log, leaves.ask e.path e.before = (e.result, e.after))
    ?_ ?_ ?_ ?_ ?_ ?_ ?_
  · refine fun path i e he => ?_
    rw [mem_singleton] at he
    subst he
    rfl
  · exact fun _ h => h
  · exact fun e he => (nomatch he)
  · exact fun _ h => h
  · exact fun _ h _ => h
  · exact fun _ h _ _ => h
  · exact fun _ h _ _ hrest e he => (mem_append.1 he).elim (h e) (hrest e)

/-- The leaves of a run lie below its path, and no leaf runs twice. -/
theorem log_paths : (∀ pipe path i,
      (∀ e ∈ (runPipe debug leaves pipe path i).log, ∃ q, e.path = path ++ q) ∧
      ((runPipe debug leaves pipe path i).log.map (·.path)).Nodup) ∧
    ∀ pipes loop path index start i messages,
      (∀ e ∈ (runPipes debug leaves pipes loop path index start i messages).log,
        ∃ n q, index ≤ n ∧ e.path = path ++ n :: q) ∧
      ((runPipes debug leaves pipes loop path index start i messages).log.map (·.path)).Nodup := by
  have hchild : ∀ {path : PipePath} {index : Nat} {log : List LeafRun},
      (∀ e ∈ log, ∃ q, e.path = path ++ [index] ++ q) →
      ∀ e ∈ log, ∃ n q, index ≤ n ∧ e.path = path ++ n :: q := by
    intro path index log h e he
    obtain ⟨q, hq⟩ := h e he
    exact ⟨index, q, le_refl index, by rw [hq, append_assoc]; rfl⟩
  refine run_induct (P := fun _ path _ run => (∀ e ∈ run.log, ∃ q, e.path = path ++ q) ∧
      (run.log.map (·.path)).Nodup)
    (Q := fun _ _ path index _ _ _ run =>
      (∀ e ∈ run.log, ∃ n q, index ≤ n ∧ e.path = path ++ n :: q) ∧ (run.log.map (·.path)).Nodup)
    ?_ ?_ ?_ ?_ ?_ ?_ ?_
  · refine fun path i => ⟨fun e he => ⟨[], ?_⟩, nodup_singleton _⟩
    rw [mem_singleton] at he
    subst he
    exact (append_nil path).symm
  · refine fun _ h => ⟨fun e he => ?_, h.2⟩
    obtain ⟨n, q, -, hq⟩ := h.1 e he
    exact ⟨n :: q, hq⟩
  · exact ⟨fun e he => (nomatch he), nodup_nil⟩
  · refine fun _ h => ⟨fun e he => ?_, h.2⟩
    obtain ⟨n, q, hn, hq⟩ := h.1 e he
    exact ⟨n, q, by omega, hq⟩
  · exact fun _ h _ => ⟨hchild h.1, h.2⟩
  · exact fun _ h _ _ => ⟨hchild h.1, h.2⟩
  · refine fun _ h _ _ hrest => ⟨?_, ?_⟩
    · intro e he
      obtain he | he := mem_append.1 he
      · exact hchild h.1 e he
      obtain ⟨n, q, hn, hq⟩ := hrest.1 e he
      exact ⟨n, q, by omega, hq⟩
    · rw [map_append]
      refine h.2.append hrest.2 ?_
      -- the two parts differ in the index at this level
      rw [disjoint_left]
      intro found hleft hr
      obtain ⟨e, he, rfl⟩ := mem_map.1 hleft
      obtain ⟨e', he', heq⟩ := mem_map.1 hr
      obtain ⟨q, hq⟩ := h.1 e he
      obtain ⟨n, q', hn, hq'⟩ := hrest.1 e' he'
      rw [hq, hq', append_assoc, append_cancel_left_eq] at heq
      obtain ⟨hindex, -⟩ := List.cons.inj heq
      omega

end AqEngine.Pipeline
