import AqEngine.Pipeline.Runs

namespace AqEngine.Pipeline

open Lib Insights List

def filterKey (i : Insight) : InsightState × String × StrategyType × Option Uuid :=
  (i.state, i.symbol, i.strategyType, i.parentId)

/-- No answer changed the state, nor anything that a filter reads. -/
def Steady (log : List LeafRun) : Prop := ∀ e ∈ log, filterKey e.after = filterKey e.before

theorem Steady.right {log log' : List LeafRun} (h : Steady (log ++ log')) : Steady log' :=
  fun e he => h e (mem_append_right _ he)

theorem shouldRun_congr {i j : Insight} (h : filterKey i = filterKey j) (config : PipeConfig) :
    config.shouldRun i = config.shouldRun j := by
  simp only [filterKey, Prod.mk.injEq] at h
  obtain ⟨-, hs, ht, hp⟩ := h
  simp only [PipeConfig.shouldRun, PipeConfig.matchesAssetAndAlpha, hs, ht]
  cases config.insightScope <;> simp only [InsightPipeScope.allows, hp]

/-- What no answer changes is as it was after a run. -/
theorem kept_of_log {β : Type} (f : Insight → β) (debug : DebugText) (leaves : Leaves) :
    (∀ pipe path i, (∀ e ∈ (runPipe debug leaves pipe path i).log, f e.after = f e.before) →
      f (runPipe debug leaves pipe path i).insight = f i) ∧
    ∀ pipes loop path index start i messages,
      (∀ e ∈ (runPipes debug leaves pipes loop path index start i messages).log,
        f e.after = f e.before) →
      f (runPipes debug leaves pipes loop path index start i messages).insight = f i := by
  refine run_induct
    (P := fun _ _ i run => (∀ e ∈ run.log, f e.after = f e.before) → f run.insight = f i)
    (Q := fun _ _ _ _ _ i _ run =>
      (∀ e ∈ run.log, f e.after = f e.before) → f run.insight = f i) ?_ ?_ ?_ ?_ ?_ ?_ ?_
  · exact fun _ _ hs => hs _ (mem_singleton.2 rfl)
  · exact fun _ h => h
  · exact fun _ => rfl
  · exact fun _ h => h
  · exact fun _ h _ => h
  · exact fun _ h _ _ => h
  · exact fun _ h _ _ hrest hs => (hrest fun e he => hs e (mem_append_right _ he)).trans
      (h fun e he => hs e (mem_append_left _ he))

/-- `later` answers as `final` does, or defers, and what it does to the
insight while it defers makes no difference to the final answer. -/
structure Postpones (later final : Leaves) : Prop where
  answers : ∀ path i, (final.ask path i).1.deferred = none
  same : ∀ path i, (later.ask path i).1.deferred = none → later.ask path i = final.ask path i
  again : ∀ path i, (later.ask path i).1.deferred.isSome = true →
    final.ask path (later.ask path i).2 = final.ask path i

variable {debug : DebugText} {later final : Leaves}

theorem run_answers (debug : DebugText) (hf : ∀ path i, (final.ask path i).1.deferred = none) :
    (∀ pipe path i, (runPipe debug final pipe path i).result.deferred = none) ∧
    ∀ pipes loop path index start i messages,
      (runPipes debug final pipes loop path index start i messages).result.deferred = none ∧
      (runPipes debug final pipes loop path index start i messages).suspended = none := by
  refine run_induct (P := fun _ _ _ run => run.result.deferred = none)
    (Q := fun _ _ _ _ _ _ _ run => run.result.deferred = none ∧ run.suspended = none)
    ?_ ?_ ?_ ?_ ?_ ?_ ?_
  · exact hf
  · exact fun _ h => h.1
  · exact ⟨PipeLoop.exhausted_deferred, rfl⟩
  · exact fun _ h => h
  · refine fun _ h hs => ?_
    rw [h] at hs
    cases hs
  · exact fun _ _ hn hse => ⟨PipeLoop.settle_inl_deferred hn hse, rfl⟩
  · exact fun _ _ _ _ hrest => hrest

/-- A run that was not suspended is the run in which all leaves answer at
once. -/
theorem run_eq_of_answered (h : Postpones later final) : (∀ pipe path i,
      (runPipe debug later pipe path i).result.deferred = none →
      runPipe debug later pipe path i = runPipe debug final pipe path i) ∧
    ∀ pipes loop path index start i messages,
      (runPipes debug later pipes loop path index start i messages).result.deferred = none →
      runPipes debug later pipes loop path index start i messages =
        runPipes debug final pipes loop path index start i messages := by
  refine run_induct (P := fun pipe path i run => run.result.deferred = none →
      run = runPipe debug final pipe path i)
    (Q := fun pipes loop path index start i messages run => run.result.deferred = none →
      run = runPipes debug final pipes loop path index start i messages) ?_ ?_ ?_ ?_ ?_ ?_ ?_
  · refine fun path i hn => ?_
    rw [runPipe, h.same path i hn]
  · refine fun _ hr hn => ?_
    rw [runPipe, ← hr hn]
  · refine fun _ => ?_
    rw [runPipes]
  · refine fun hsk hrest hn => ?_
    rw [runPipes_skip hsk, ← hrest hn]
  · refine fun _ _ hso hn => ?_
    rw [hn] at hso
    cases hso
  · refine fun ha hr hn hs _ => ?_
    rw [runPipes_answer ⟨ha.reached, ha.filter, (hr hn).symm⟩ hn hs]
  · refine fun ha hr hn hs hrest hd => ?_
    rw [runPipes_continue ⟨ha.reached, ha.filter, (hr hn).symm⟩ hn hs, ← hrest hd]

/-- The names under which composites answer with a text of their own. -/
def compositeNames : List String := ["AndPipe", "OrPipe"]

/-- What becomes of a text when the turn is taken up again. A composite that
waited leaves out the texts of the pipes it was done with, and the first of the
others may be a text that is cut itself. -/
inductive Cut (debug : DebugText) : Option String → Option String → Prop
  | same (text : Option String) : Cut debug text text
  | trans {text'' text' text : Option String} (h' : Cut debug text'' text')
      (h : Cut debug text' text) : Cut debug text'' text
  | list {first' first : Option String} (head : String) (earlier rest : List String)
      (h : Cut debug first' first) :
      Cut debug (some (head ++ debug.list (first'.toList ++ rest)))
        (some (head ++ debug.list (earlier ++ (first.toList ++ rest))))
  | passed {text' text : Option String} (name : String) (h : Cut debug text' text) :
      Cut debug (some ("Pipe " ++ name ++ " passed: " ++ debug.option text'))
        (some ("Pipe " ++ name ++ " passed: " ++ debug.option text))

/-- The texts that a loop has collected since it was taken up again, and those
it would have collected without that. -/
def Trimmed (debug : DebugText) (messages' messages : List String) : Prop :=
  ∃ earlier first' first rest, messages' = Option.toList first' ++ rest ∧
    messages = earlier ++ (Option.toList first ++ rest) ∧ Cut debug first' first

section

variable {messages' messages : List String} {text' text : Option String}

theorem Cut.getD (h : Cut debug text' text) (default : String) :
    Cut debug (some (text'.getD default)) (some (text.getD default)) := by
  induction h with
  | same => exact .same _
  | trans _ _ ih' ih => exact ih'.trans ih
  | list head earlier rest h => exact .list head earlier rest h
  | passed name h => exact .passed name h

theorem trimmed_nil (messages : List String) : Trimmed debug [] messages :=
  ⟨messages, none, none, [], rfl, by simp, .same none⟩

theorem Cut.trimmed (h : Cut debug text' text) (messages : List String) :
    Trimmed debug text'.toList (messages ++ text.toList) :=
  ⟨messages, text', text, [], by simp, by simp, h⟩

theorem Trimmed.append (h : Trimmed debug messages' messages) (texts : List String) :
    Trimmed debug (messages' ++ texts) (messages ++ texts) := by
  obtain ⟨earlier, first', first, rest, rfl, rfl, hcut⟩ := h
  exact ⟨earlier, first', first, rest ++ texts, by simp, by simp, hcut⟩

theorem Trimmed.cut (h : Trimmed debug messages' messages) (head : String) :
    Cut debug (some (head ++ debug.list messages')) (some (head ++ debug.list messages)) := by
  obtain ⟨earlier, first', first, rest, rfl, rfl, hcut⟩ := h
  exact .list head earlier rest hcut

end

/-- The same result but for the text of a composite. -/
structure InsightPipeResult.Agrees (debug : DebugText) (r' r : InsightPipeResult) : Prop where
  passed : r'.passed = r.passed
  success : r'.success = r.success
  pipeName : r'.pipeName = r.pipeName
  deferred : r'.deferred = r.deferred
  message : r'.message = r.message ∨
    r.pipeName ∈ compositeNames ∧ Cut debug r'.message r.message

theorem InsightPipeResult.Agrees.refl (r : InsightPipeResult) : r.Agrees debug r :=
  ⟨rfl, rfl, rfl, rfl, .inl rfl⟩

theorem InsightPipeResult.Agrees.cut {r' r : InsightPipeResult} (h : r'.Agrees debug r) :
    Cut debug r'.message r.message := by
  obtain heq | ⟨-, hcut⟩ := h.message
  · rw [heq]
    exact .same _
  · exact hcut

theorem Cut.agrees {passed success : Bool} {text' text : Option String} {name : String}
    (h : Cut debug text' text) (hn : name ∈ compositeNames) :
    (InsightPipeResult.new passed success text' name).Agrees debug
      (.new passed success text name) :=
  ⟨rfl, rfl, rfl, rfl, .inr ⟨hn, h⟩⟩

namespace PipeLoop

variable {loop : PipeLoop} {r' r : InsightPipeResult} {messages' messages : List String}

theorem settle_agrees (loop : PipeLoop) (name : String) (i : Insight) (h : r'.Agrees debug r)
    (hm : Trimmed debug messages' messages)
    (hm' : Trimmed debug (messages' ++ r'.message.toList) (messages ++ r.message.toList)) :
    (∃ answer' answer, loop.settle debug name r' i messages' = .inl answer' ∧
      loop.settle debug name r i messages = .inl answer ∧ answer'.Agrees debug answer) ∨
    ∃ next' next, loop.settle debug name r' i messages' = .inr next' ∧
      loop.settle debug name r i messages = .inr next ∧ Trimmed debug next' next := by
  have hpa := h.passed
  have hs := h.success
  match loop with
  | .stages =>
    simp only [settle, hpa, hs]
    by_cases hp : (r.success && r.passed) = true
    · exact .inr ⟨_, _, if_pos hp, if_pos hp, hm⟩
    · exact .inl ⟨_, _, if_neg hp, if_neg hp, h⟩
  | .composite .and =>
    simp only [settle, hpa, hs]
    by_cases hf : (!r.success || !r.passed) = true
    · exact .inl ⟨_, _, if_pos hf, if_pos hf, (hm'.cut _).agrees (by decide)⟩
    · exact .inr ⟨_, _, if_neg hf, if_neg hf, hm'⟩
  | .composite .or =>
    simp only [settle, hpa, hs]
    by_cases he : (i.state.isInactive || i.closing || i.cancelling) = true
    · exact .inl ⟨_, _, if_pos he, if_pos he, h⟩
    simp only [if_neg he]
    by_cases hf : (!r.success) = true
    · exact .inr ⟨_, _, if_pos hf, if_pos hf, hm'⟩
    simp only [if_neg hf]
    by_cases hp : r.passed = true
    · exact .inl ⟨_, _, if_pos hp, if_pos hp, (h.cut.passed name).agrees (by decide)⟩
    · exact .inr ⟨_, _, if_neg hp, if_neg hp, hm⟩

theorem exhausted_agrees (loop : PipeLoop) (hm : Trimmed debug messages' messages) :
    (loop.exhausted debug messages').Agrees debug (loop.exhausted debug messages) := by
  match loop with
  | .stages => exact .refl _
  | .composite .and | .composite .or => exact (hm.cut _).agrees (by decide)

end PipeLoop

structure PipesRun.Alike (debug : DebugText) (run' run : PipesRun) : Prop where
  result : run'.result.Agrees debug run.result
  insight : run'.insight = run.insight
  pipes : run'.pipes = run.pipes
  suspended : run'.suspended = run.suspended
  log : run'.log = run.log

variable {index start : Nat} {i j : Insight} {log resumed whole : List LeafRun}

/-- Once the start is passed, it does not matter to the rest of a loop, and the
texts collected so far matter only to its text. -/
theorem runPipes_alike (final : Leaves) (pipes : List Pipe) (loop : PipeLoop)
    (path : PipePath) {start' : Nat} (hst' : start' ≤ index) (hst : start ≤ index)
    (i : Insight) {messages' messages : List String} (hm : Trimmed debug messages' messages) :
    (runPipes debug final pipes loop path index start' i messages').Alike debug
      (runPipes debug final pipes loop path index start i messages) := by
  induction pipes generalizing index i messages' messages with
  | nil =>
    rw [runPipes, runPipes]
    exact ⟨PipeLoop.exhausted_agrees loop hm, rfl, rfl, rfl, rfl⟩
  | cons pipe pipes ih =>
    have hn' : start' ≤ index + 1 := by omega
    have hn : start ≤ index + 1 := by omega
    cases hf : pipe.config.shouldRun i with
    | false =>
      rw [runPipes_skip (.inr hf), runPipes_skip (.inr hf)]
      have h := ih hn' hn i hm
      exact ⟨h.result, h.insight, congrArg (pipe :: ·) h.pipes, h.suspended, h.log⟩
    | true =>
      obtain ⟨run, hr⟩ : ∃ run, runPipe debug final pipe (path ++ [index]) i = run := ⟨_, rfl⟩
      have ha' : Asked debug final pipe path index start' i run := ⟨hst', hf, hr⟩
      have ha : Asked debug final pipe path index start i run := ⟨hst, hf, hr⟩
      cases hd : run.result.deferred with
      | some =>
        have hso : run.result.deferred.isSome = true := by rw [hd]; rfl
        rw [runPipes_suspend ha' hso, runPipes_suspend ha hso]
        exact ⟨.refl _, rfl, rfl, rfl, rfl⟩
      | none =>
        obtain ⟨answer', answer, hs', hs, hag⟩ | ⟨next', next, hs', hs, hnext⟩ :=
          PipeLoop.settle_agrees loop pipe.name run.insight (.refl run.result) hm (hm.append _)
        · rw [runPipes_answer ha' hd hs', runPipes_answer ha hd hs]
          exact ⟨hag, rfl, rfl, rfl, rfl⟩
        rw [runPipes_continue ha' hd hs', runPipes_continue ha hd hs]
        have h := ih hn' hn run.insight hnext
        exact ⟨h.result, h.insight, congrArg (_ :: ·) h.pipes, h.suspended,
          congrArg (_ ++ ·) h.log⟩

def LeafRun.answer (e : LeafRun) : PipePath × InsightPipeResult × Insight :=
  (e.path, e.result, e.after)

/-- `log` ends with a deferral. The run that takes it up again begins with
the same leaf, and both together give the answers of an uninterrupted run. -/
def Resumes (log resumed whole : List LeafRun) : Prop :=
  ∃ done e first rest, log = done ++ [e] ∧ (∀ f ∈ done, f.result.deferred = none) ∧
    e.result.deferred.isSome = true ∧ resumed = first :: rest ∧ first.path = e.path ∧
    whole.map (·.answer) = done.map (·.answer) ++ resumed.map (·.answer)

theorem Resumes.prepend {done : List LeafRun} (h : Resumes log resumed whole)
    (hd : ∀ f ∈ done, f.result.deferred = none) :
    Resumes (done ++ log) resumed (done ++ whole) := by
  obtain ⟨before, e, first, rest, hl, hb, he, hr, hp, hw⟩ := h
  refine ⟨done ++ before, e, first, rest, ?_, ?_, he, hr, hp, ?_⟩
  · rw [hl, append_assoc]
  · intro f hf
    exact (mem_append.1 hf).elim (hd f) (hb f)
  · rw [map_append, hw, map_append, append_assoc]

theorem Resumes.append (h : Resumes log resumed whole)
    (after : List LeafRun) : Resumes log (resumed ++ after) (whole ++ after) := by
  obtain ⟨before, e, first, rest, hl, hb, he, hr, hp, hw⟩ := h
  refine ⟨before, e, first, rest ++ after, hl, hb, he, ?_, hp, ?_⟩
  · rw [hr, cons_append]
  · rw [map_append, hw, map_append, append_assoc]

theorem log_answers (debug : DebugText) (hf : ∀ path i, (final.ask path i).1.deferred = none)
    (pipe : Pipe) (path : PipePath) (i : Insight) :
    ∀ e ∈ (runPipe debug final pipe path i).log, e.result.deferred = none := by
  intro e he
  have h := hf e.path e.before
  rw [(log_truthful debug final).1 pipe path i e he] at h
  exact h

theorem resumeIndex_saveIndex {resumed : Table Uuid (InsightState × Nat)}
    (hid : j.insightId = i.insightId) (hs : j.state = i.state) :
    resumeIndex (saveIndex resumed i (some index)) j = index := by
  simp only [resumeIndex, saveIndex]
  rw [hid, AList.lookup_insert]
  simp [hs, Option.filter]

theorem saveIndex_saveIndex {resumed : Table Uuid (InsightState × Nat)}
    (hid : j.insightId = i.insightId) :
    saveIndex (saveIndex resumed i (some index)) j none = saveIndex resumed i none := by
  simp only [saveIndex]
  rw [hid]
  apply AList.ext
  have hf : List.kerase i.insightId ((⟨i.insightId, (i.state, index)⟩ :
      Sigma fun _ : Uuid => InsightState × Nat) ::
      List.kerase i.insightId (List.kerase i.insightId resumed.entries)) =
      List.kerase i.insightId (List.kerase i.insightId resumed.entries) := kerase_cons_eq rfl
  exact hf.trans
    (kerase_of_notMem_keys (notMem_keys_kerase i.insightId resumed.nodupKeys))

/-- What a resumed run has to do with the suspended one and with the run
that is not interrupted. -/
structure PipeRun.TakesUp (debug : DebugText) (run resumed whole : PipeRun) : Prop where
  result : resumed.result.Agrees debug whole.result
  insight : resumed.insight = whole.insight
  pipe : resumed.pipe = whole.pipe
  log : Resumes run.log resumed.log whole.log

structure PipesRun.TakesUp (debug : DebugText) (run resumed whole : PipesRun) : Prop where
  result : resumed.result.Agrees debug whole.result
  insight : resumed.insight = whole.insight
  pipes : resumed.pipes = whole.pipes
  log : Resumes run.log resumed.log whole.log

/-- The loop goes on at the pipe that waits. Its texts start anew. -/
def PipesRun.ResumesAt (debug : DebugText) (final : Leaves) (pipes : List Pipe) (loop : PipeLoop)
    (path : PipePath) (index start : Nat) (i : Insight) (messages : List String) (run : PipesRun) :
    Prop :=
  ∃ place, run.suspended = some place ∧ index ≤ place ∧ start ≤ place ∧
    run.TakesUp debug (runPipes debug final run.pipes loop path index place run.insight [])
      (runPipes debug final pipes loop path index start i messages)

/-- The pipe that waits is taken up; the pipes after it are still to come. -/
theorem resumesAt_suspend (h : Postpones later final) {pipe : Pipe} {pipes : List Pipe}
    {loop : PipeLoop} {path : PipePath} {messages : List String}
    {run : PipeRun} (ha : Asked debug later pipe path index start i run)
    (hst : Steady run.log)
    (ht : run.TakesUp debug (runPipe debug final run.pipe (path ++ [index]) run.insight)
      (runPipe debug final pipe (path ++ [index]) i)) :
    PipesRun.ResumesAt debug final (pipe :: pipes) loop path index start i messages
      ⟨run.result, run.insight, run.pipe :: pipes, some index, run.log⟩ := by
  have hk := (runPipe_keeps debug later).1 pipe (path ++ [index]) i
  have hke := (kept_of_log filterKey debug later).1 pipe (path ++ [index]) i
  rw [ha.run_eq] at hk hke
  have ha' : Asked debug final run.pipe path index index run.insight _ :=
    ⟨le_refl index, by rw [hk.1, shouldRun_congr (hke hst), ha.filter], rfl⟩
  have hw : Asked debug final pipe path index start i _ := ⟨ha.reached, ha.filter, rfl⟩
  refine ⟨index, rfl, le_refl index, ha.reached, ?_⟩
  have hn := (run_answers debug h.answers).1 pipe (path ++ [index]) i
  have hn' := (run_answers debug h.answers).1 run.pipe (path ++ [index]) run.insight
  have hi := ht.insight
  obtain ⟨answer', answer, hs', hs, hag⟩ | ⟨next', next, hs', hs, hnext⟩ :=
    PipeLoop.settle_agrees loop pipe.name (runPipe debug final pipe (path ++ [index]) i).insight
      ht.result (trimmed_nil messages) (ht.result.cut.trimmed messages)
  · rw [← hk.2.1, ← hi] at hs'
    rw [runPipes_answer ha' hn' hs', runPipes_answer hw hn hs]
    exact ⟨hag, hi, congrArg (· :: pipes) ht.pipe, ht.log⟩
  · rw [← hk.2.1, ← hi] at hs'
    rw [runPipes_continue ha' hn' hs', runPipes_continue hw hn hs]
    have hal := runPipes_alike final pipes loop path (Nat.le_succ index)
      (Nat.le_succ_of_le ha.reached) (runPipe debug final pipe (path ++ [index]) i).insight hnext
    rw [hi]
    refine ⟨hal.result, hal.insight, ?_, ?_⟩
    · rw [ht.pipe, hal.pipes]
    · rw [hal.log]
      exact ht.log.append _

/-- A suspended pipe that is run to its end gives what an uninterrupted run
gives: the same insight, the same result but for texts, and the answers that
were still missing. -/
theorem run_resumes (h : Postpones later final) :
    (∀ pipe path i, (runPipe debug later pipe path i).result.deferred.isSome = true →
      Steady (runPipe debug later pipe path i).log →
      (runPipe debug later pipe path i).TakesUp debug
        (runPipe debug final (runPipe debug later pipe path i).pipe path
          (runPipe debug later pipe path i).insight) (runPipe debug final pipe path i)) ∧
    ∀ pipes loop path index start i messages,
      (runPipes debug later pipes loop path index start i messages).result.deferred.isSome = true →
      Steady (runPipes debug later pipes loop path index start i messages).log →
      (runPipes debug later pipes loop path index start i messages).ResumesAt debug final pipes loop
        path index start i messages := by
  refine run_induct
    (P := fun pipe path i run => run.result.deferred.isSome = true → Steady run.log →
      run.TakesUp debug (runPipe debug final run.pipe path run.insight)
        (runPipe debug final pipe path i))
    (Q := fun pipes loop path index start i messages run => run.result.deferred.isSome = true →
      Steady run.log → run.ResumesAt debug final pipes loop path index start i messages)
    ?_ ?_ ?_ ?_ ?_ ?_ ?_
  · refine fun path i hs _ => ?_
    have hag := h.again path i hs
    rw [runPipe, runPipe]
    simp only [hag]
    refine ⟨.refl _, rfl, rfl, [], _, _, [], rfl, ?_, hs, rfl, rfl, ?_⟩
    · rintro f ⟨⟩
    · simp [LeafRun.answer]
  · intro _ kind resumed pipes path i _ hru hr hs hst
    obtain ⟨place, hsu, -, -, ht⟩ := hr hs hst
    have hid := (runPipe_keeps debug later).2 pipes (.composite kind) path 0
      (resumeIndex resumed i) i []
    have hk := (kept_of_log filterKey debug later).2 pipes (.composite kind) path 0
      (resumeIndex resumed i) i []
    rw [← hru] at hid hk
    have hstat := congrArg (·.1) (hk hst)
    have hn := (run_answers debug h.answers).2
    rw [runPipe, runPipe]
    simp only [hsu, resumeIndex_saveIndex hid hstat, (hn _ _ _ _ _ _ _).2, saveIndex_saveIndex hid]
    exact ⟨ht.result, ht.insight, by rw [ht.pipes], ht.log⟩
  · refine fun hs _ => ?_
    rw [PipeLoop.exhausted_deferred] at hs
    cases hs
  · refine fun hsk hrest hs hst => ?_
    obtain ⟨place, hsu, hindex, hsta, ht⟩ := hrest hs hst
    refine ⟨place, hsu, by omega, hsta, ?_⟩
    rw [runPipes_skip hsk, runPipes_skip (.inl (by omega))]
    exact ⟨ht.result, ht.insight, congrArg (_ :: ·) ht.pipes, ht.log⟩
  · exact fun ha ht hs _ hst => resumesAt_suspend h ha hst (ht hs hst)
  · refine fun _ _ hn hse hs _ => ?_
    rw [PipeLoop.settle_inl_deferred hn hse] at hs
    cases hs
  · intro pipe _ _ path index _ i _ _ _ _ ha _ hn hse hrest hs hst
    obtain ⟨place, hsu, hindex, _, ht⟩ := hrest hs hst.right
    have hsta := ha.reached
    have hw : runPipe debug final pipe (path ++ [index]) i = _ :=
      ((run_eq_of_answered h).1 pipe _ i (by rw [ha.run_eq]; exact hn)).symm.trans ha.run_eq
    have hd := log_answers debug h.answers pipe (path ++ [index]) i
    rw [hw] at hd
    refine ⟨place, hsu, by omega, by omega, ?_⟩
    rw [runPipes_continue ⟨hsta, ha.filter, hw⟩ hn hse, runPipes_skip (.inl (by omega))]
    exact ⟨ht.result, ht.insight, congrArg (_ :: ·) ht.pipes, ht.log.prepend hd⟩

end AqEngine.Pipeline
