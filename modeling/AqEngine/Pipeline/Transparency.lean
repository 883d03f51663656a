import AqEngine.Pipeline.Deferral

namespace AqEngine.Pipeline

open Insights List Option

variable {α : Type} {wanted wanted' : α → Nat}

/-- Each of `paths` in turn, as often as it defers and once more. -/
def script (wanted : α → Nat) (paths : List α) : List (α × Bool) :=
  paths.flatMap fun q => List.replicate (wanted q) (q, true) ++ [(q, false)]

theorem script_cons (q : α) (paths : List α) : script wanted (q :: paths) =
    List.replicate (wanted q) (q, true) ++ (q, false) :: script wanted paths := by
  simp [script]

theorem script_append (paths rest : List α) :
    script wanted (paths ++ rest) = script wanted paths ++ script wanted rest := flatMap_append

theorem script_congr {paths : List α} (h : ∀ q ∈ paths, wanted q = wanted' q) :
    script wanted paths = script wanted' paths := by
  induction paths with
  | nil => rfl
  | cons q paths ih =>
    rw [script_cons, script_cons, h q mem_cons_self,
      ih fun r hr => h r (mem_cons_of_mem q hr)]

theorem script_done {paths : List α} (h : ∀ q ∈ paths, wanted q = 0) :
    script wanted paths = paths.map fun q => (q, false) := by
  induction paths with
  | nil => rfl
  | cons q paths ih =>
    rw [script_cons, h q mem_cons_self, ih fun r hr => h r (mem_cons_of_mem q hr)]
    rfl

theorem script_pairwise (wanted : α → Nat) {paths : List α} (h : paths.Nodup) :
    (script wanted paths).Pairwise fun a b => a.2 = false → b.1 ≠ a.1 := by
  induction paths with
  | nil => exact List.Pairwise.nil
  | cons q paths ih =>
    obtain ⟨hq, hp⟩ := nodup_cons.1 h
    have hm : ∀ b ∈ script wanted paths, b.1 ∈ paths := by
      intro b hb
      obtain ⟨r, hr, hb⟩ := mem_flatMap.1 hb
      obtain hb | hb := mem_append.1 hb
      · rw [eq_of_mem_replicate hb]
        exact hr
      rw [mem_singleton.1 hb]
      exact hr
    rw [script_cons, pairwise_append]
    refine ⟨?_, pairwise_cons.2 ⟨?_, ih hp⟩, ?_⟩
    · rw [pairwise_replicate]
      exact .inr fun hf => nomatch hf
    · rintro ⟨r, deferred⟩ hr _ rfl
      exact hq (hm _ hr)
    · intro a ha _ _ hf
      rw [eq_of_mem_replicate ha] at hf
      cases hf

/-- How the leaves behave while one insight goes through its pipes: each
defers a number of times and then answers. What it does to the insight while
it defers makes no difference to its answer. -/
structure Behaviour where
  deferrals : PipePath → Nat
  defer : PipePath → Nat → Insight → InsightPipeResult × Insight
  answer : PipePath → Insight → InsightPipeResult × Insight
  deferred_defer : ∀ path n i, (defer path n i).1.deferred.isSome = true
  deferred_answer : ∀ path i, (answer path i).1.deferred = none
  insightId_defer : ∀ path n i, (defer path n i).2.insightId = i.insightId
  insightId_answer : ∀ path i, (answer path i).2.insightId = i.insightId
  answer_defer : ∀ path n i, answer path (defer path n i).2 = answer path i

def asked (log : List LeafRun) (path : PipePath) : Nat := (log.map (·.path)).count path

/-- An insight between the turns of its continuation, with the leaves that
ran in it so far. -/
structure Continuation where
  pipeline : InsightPipeline
  insight : Insight
  log : List LeafRun := []

namespace Behaviour

variable (b : Behaviour)

def atOnce : Leaves := ⟨b.answer, b.insightId_answer⟩

/-- The leaves in a turn, after those of `log` have run. -/
def leaves (log : List LeafRun) : Leaves where
  ask path i :=
    if asked log path < b.deferrals path then b.defer path (asked log path) i else b.answer path i
  insightId_ask path i := by
    split
    · exact b.insightId_defer path _ i
    · exact b.insightId_answer path i

variable {log : List LeafRun} {path : PipePath}

theorem leaves_of_lt (h : asked log path < b.deferrals path)
    (i : Insight) : (b.leaves log).ask path i = b.defer path (asked log path) i := if_pos h

theorem leaves_of_le (h : b.deferrals path ≤ asked log path)
    (i : Insight) : (b.leaves log).ask path i = b.answer path i := if_neg (not_lt.2 h)

theorem leaves_postpones (log : List LeafRun) : Postpones (b.leaves log) b.atOnce where
  answers := b.deferred_answer
  same path i hn := by
    by_cases h : asked log path < b.deferrals path
    · rw [b.leaves_of_lt h] at hn
      have hs := b.deferred_defer path (asked log path) i
      rw [hn] at hs
      cases hs
    · exact b.leaves_of_le (not_lt.1 h) i
  again path i hs := by
    by_cases h : asked log path < b.deferrals path
    · rw [b.leaves_of_lt h]
      exact b.answer_defer path (asked log path) i
    rw [b.leaves_of_le (not_lt.1 h), b.deferred_answer] at hs
    cases hs

variable (debug : DebugText) (ctx : Nat → StrategyContext) (p : InsightPipeline) (i : Insight)

def turn (ctx : StrategyContext) (c : Continuation) : TurnRun :=
  runInsight debug ctx (b.leaves c.log) c.pipeline c.insight

def next (ctx : StrategyContext) (c : Continuation) : Continuation :=
  ⟨(b.turn debug ctx c).pipeline, (b.turn debug ctx c).insight, c.log ++ (b.turn debug ctx c).log⟩

def after : Nat → Continuation
  | 0 => ⟨p, i, []⟩
  | n + 1 => b.next debug (ctx n) (after n)

def turnAt (n : Nat) : TurnRun := b.turn debug (ctx n) (b.after debug ctx p i n)

def Suspended (n : Nat) : Prop := ∀ m < n, (b.turnAt debug ctx p i m).ending = .suspended

end Behaviour

theorem InsightPipeResult.Agrees.trans {debug : DebugText} {r'' r' r : InsightPipeResult}
    (h' : r''.Agrees debug r') (h : r'.Agrees debug r) : r''.Agrees debug r := by
  refine ⟨h'.passed.trans h.passed, h'.success.trans h.success, h'.pipeName.trans h.pipeName,
    h'.deferred.trans h.deferred, ?_⟩
  obtain heq' | ⟨hn', hcut⟩ := h'.message
  · rw [heq']
    exact h.message
  · exact .inr ⟨h.pipeName ▸ hn', hcut.trans h.cut⟩

section

variable {debug : DebugText} {ctx : StrategyContext} {leaves : Leaves} {p : InsightPipeline}
  {i : Insight}

theorem expires_of_live (h : (insightTurn debug ctx leaves p i).ending ≠ .expired) :
    expires ctx ((p.pipeline.lookup i.state).getD []) i = none := by
  cases he : expires ctx ((p.pipeline.lookup i.state).getD []) i with
  | none => rfl
  | some =>
    rw [insightTurn, he] at h
    exact absurd rfl h

theorem insightTurn_ran (debug : DebugText) (leaves : Leaves)
    (h : expires ctx ((p.pipeline.lookup i.state).getD []) i = none) :
    (insightTurn debug ctx leaves p i).ending =
      verdict (runStages debug leaves p i).result (runStages debug leaves p i).insight ∧
    (insightTurn debug ctx leaves p i).log = (runStages debug leaves p i).log ∧
    (insightTurn debug ctx leaves p i).insight =
      conclude ctx.clock (i.state = .filled && i.firstOnFill) (runStages debug leaves p i).insight
        (verdict (runStages debug leaves p i).result (runStages debug leaves p i).insight) := by
  rw [insightTurn, h]
  exact ⟨rfl, rfl, rfl⟩

theorem verdict_suspended {r : InsightPipeResult} :
    verdict r i = .suspended ↔ r.deferred.isSome = true := by
  unfold verdict
  split
  case isTrue hs => simp [hs]
  case isFalse hn =>
    refine iff_of_false ?_ hn
    repeat' split
    all_goals exact TurnEnd.noConfusion

theorem insightTurn_suspended {index : Nat} {dependency : InsightPipeDeferral}
    (h : expires ctx ((p.pipeline.lookup i.state).getD []) i = none)
    (hindex : (runStages debug leaves p i).suspended = some index)
    (hd : (runStages debug leaves p i).result.deferred = some dependency) :
    (insightTurn debug ctx leaves p i).pipeline =
      ⟨p.pipeline.insert i.state (runStages debug leaves p i).pipes,
        (p.deferred.erase i.insightId).insert i.insightId ⟨i.state, index, dependency⟩⟩ ∧
    (insightTurn debug ctx leaves p i).insight = (runStages debug leaves p i).insight := by
  have hs : (p.pipeline.lookup i.state).isSome = true := by
    cases hp : p.pipeline.lookup i.state with
    | some => rfl
    | none =>
      rw [runStages, hp, getD_none, runPipes] at hindex
      cases hindex
  have he : verdict (runStages debug leaves p i).result (runStages debug leaves p i).insight =
      .suspended := verdict_suspended.2 (by rw [hd]; rfl)
  have hr : (runStages debug leaves p i).resume i.state =
      some ⟨i.state, index, dependency⟩ := by rw [PipesRun.resume, hindex, hd]
  rw [insightTurn, h]
  simp only [he, hr, hs, if_true]
  exact ⟨trivial, rfl⟩

end

/-- A leaf run without its texts: which leaf, and whether it deferred. -/
def LeafRun.shape (e : LeafRun) : PipePath × Bool := (e.path, e.result.deferred.isSome)

namespace Behaviour

variable {b : Behaviour} {debug : DebugText}

/-- What the pipes do in the next turn, unless the insight has expired. -/
def ran (b : Behaviour) (debug : DebugText) (c : Continuation) : PipesRun :=
  runStages debug (b.leaves c.log) c.pipeline c.insight

/-- What is left to do when every leaf answers at once from now on. -/
def rest (b : Behaviour) (debug : DebugText) (c : Continuation) : PipesRun :=
  runStages debug b.atOnce c.pipeline c.insight

def remaining (b : Behaviour) (log : List LeafRun) (path : PipePath) : Nat :=
  b.deferrals path - asked log path

/-- The turns so far and what is left come to one uninterrupted run. -/
structure Holds (b : Behaviour) (debug : DebugText) (whole : PipesRun) (i : Insight)
    (c : Continuation) : Prop where
  insightId : c.insight.insightId = i.insightId
  key : filterKey c.insight = filterKey i
  firstOnFill : (∀ e ∈ c.log, e.after.firstOnFill = e.before.firstOnFill) →
    c.insight.firstOnFill = i.firstOnFill
  resume : ∀ resume, c.pipeline.deferred.lookup i.insightId = some resume → resume.state = i.state
  result : (b.rest debug c).result.Agrees debug whole.result
  insight : (b.rest debug c).insight = whole.insight
  answers : whole.log.map (·.answer) =
    (c.log.filter (·.result.deferred.isNone)).map (·.answer) ++ (b.rest debug c).log.map (·.answer)
  script : script b.deferrals (whole.log.map (·.path)) =
    c.log.map (·.shape) ++ script (b.remaining c.log) ((b.rest debug c).log.map (·.path))

variable {log before : List LeafRun} {i : Insight}

theorem holds_start {p : InsightPipeline} (h : p.deferred.lookup i.insightId = none) :
    Holds b debug (runStages debug b.atOnce p i) i ⟨p, i, []⟩ where
  insightId := rfl
  key := rfl
  firstOnFill _ := rfl
  resume resume hr := by
    rw [h] at hr
    cases hr
  result := .refl _
  insight := rfl
  answers := rfl
  script := rfl

/-- A continuation is never dropped as long as the state does not change. -/
theorem Holds.dropStale {whole : PipesRun} {c : Continuation}
    (h : Holds b debug whole i c) : dropStale c.pipeline c.insight = c.pipeline := by
  have hs : c.insight.state = i.state := congrArg (·.1) h.key
  unfold Pipeline.dropStale
  rw [h.insightId]
  cases hr : c.pipeline.deferred.lookup i.insightId with
  | none => rfl
  | some resume => simp [hs, h.resume resume hr]

theorem asked_append (before log : List LeafRun) (q : PipePath) :
    asked (before ++ log) q = asked before q + asked log q := by
  rw [asked, map_append, count_append]
  rfl

theorem asked_eq_zero {q : PipePath} (h : q ∉ log.map (·.path)) :
    asked log q = 0 := count_eq_zero.2 h

theorem filter_answered (h : ∀ e ∈ log, e.result.deferred = none) :
    log.filter (·.result.deferred.isNone) = log := by
  rw [filter_eq_self]
  intro e he
  rw [h e he]
  rfl

theorem script_answered (h : ∀ e ∈ log, e.result.deferred = none)
    (hd : ∀ e ∈ log, b.remaining before e.path = 0) :
    script (b.remaining before) (log.map (·.path)) = log.map (·.shape) := by
  rw [script_done fun q hq => ?_, List.map_map]
  · refine map_congr_left fun e he => ?_
    rw [LeafRun.shape, h e he]
    rfl
  · obtain ⟨e, he, rfl⟩ := List.mem_map.1 hq
    exact hd e he

theorem script_resumes {resumed whole : List LeafRun}
    (hr : Resumes log resumed whole) (hn : (whole.map (·.path)).Nodup)
    (ha : ∀ e ∈ log, e.result.deferred.isSome = true ↔ asked before e.path < b.deferrals e.path) :
    script (b.remaining before) (whole.map (·.path)) =
      log.map (·.shape) ++ script (b.remaining (before ++ log)) (resumed.map (·.path)) := by
  obtain ⟨done, e, first, rest, rfl, hd, he, rfl, hp, hw⟩ := hr
  have hpa : whole.map (·.path) = done.map (·.path) ++ e.path :: rest.map (·.path) := by
    have h := congrArg (List.map (·.1)) hw
    simpa [List.map_map, Function.comp_def, LeafRun.answer, hp] using h
  rw [hpa] at hn ⊢
  obtain ⟨-, hrest, hdi⟩ := nodup_append.1 hn
  have hz : ∀ f ∈ done, b.remaining before f.path = 0 := by
    intro f hf
    have h := (ha f (mem_append_left _ hf)).not.1 (by rw [hd f hf]; decide)
    exact Nat.sub_eq_zero_of_le (not_lt.1 h)
  have hfr : e.path ∉ done.map (·.path) := fun hm => hdi _ hm _ mem_cons_self rfl
  have ho : b.remaining before e.path = b.remaining (before ++ (done ++ [e])) e.path + 1 := by
    have h := (ha e (mem_append_right _ (mem_singleton.2 rfl))).1 he
    have hs : asked [e] e.path = 1 := count_singleton_self
    rw [remaining, remaining, asked_append, asked_append, asked_eq_zero hfr, hs]
    omega
  have hl : ∀ q ∈ rest.map (·.path),
      b.remaining before q = b.remaining (before ++ (done ++ [e])) q := by
    intro q hq
    have hne : q ∉ (done ++ [e]).map (·.path) := by
      rw [map_append, mem_append]
      rintro (hm | hm)
      · exact hdi _ hm _ (mem_cons_of_mem _ hq) rfl
      · rw [map_singleton, mem_singleton] at hm
        exact (nodup_cons.1 hrest).1 (hm ▸ hq)
    rw [remaining, remaining, asked_append, asked_eq_zero hne]
    rfl
  rw [script_append, script_answered hd hz, script_cons, ho, script_congr hl,
    map_cons, hp, script_cons, replicate_succ, map_append]
  simp [LeafRun.shape, he]

theorem deferred_iff {e : LeafRun} (h : (b.leaves log).ask e.path e.before = (e.result, e.after)) :
    e.result.deferred.isSome = true ↔ asked log e.path < b.deferrals e.path := by
  have hr : e.result = ((b.leaves log).ask e.path e.before).1 := by rw [h]
  by_cases hlt : asked log e.path < b.deferrals e.path
  · rw [hr, b.leaves_of_lt hlt]
    simp [hlt, b.deferred_defer]
  rw [hr, b.leaves_of_le (not_lt.1 hlt), b.deferred_answer]
  simp [hlt]

section

variable {ctx : StrategyContext} {whole : PipesRun} {i : Insight} {c : Continuation}

theorem Holds.turn_eq (h : Holds b debug whole i c) (ctx : StrategyContext) :
    b.turn debug ctx c = insightTurn debug ctx (b.leaves c.log) c.pipeline c.insight := by
  rw [turn, runInsight, h.dropStale]

theorem answers_resumes {log resumed whole : List LeafRun} (h : Resumes log resumed whole) :
    whole.map (·.answer) =
      (log.filter (·.result.deferred.isNone)).map (·.answer) ++ resumed.map (·.answer) := by
  obtain ⟨done, e, first, rest, rfl, hd, he, rfl, -, hw⟩ := h
  have hdr : [e].filter (·.result.deferred.isNone) = [] := by
    simp [isSome_iff_ne_none.1 he]
  rw [filter_append, filter_answered hd, hdr, append_nil]
  exact hw

/-- A turn that defers leaves over what an uninterrupted run would still do. -/
theorem Holds.suspended (h : Holds b debug whole i c)
    (hen : (b.turn debug ctx c).ending = .suspended)
    (hs : Steady (b.turn debug ctx c).log) :
    Holds b debug whole i (b.next debug ctx c) ∧ (b.turn debug ctx c).log ≠ [] := by
  have hturn := h.turn_eq ctx
  have hli : expires ctx ((c.pipeline.pipeline.lookup c.insight.state).getD []) c.insight =
      none := by
    rw [hturn] at hen
    exact expires_of_live (by rw [hen]; exact TurnEnd.noConfusion)
  obtain ⟨hv, hl, -⟩ := insightTurn_ran debug (b.leaves c.log) hli
  rw [← hturn] at hv hl
  rw [hl] at hs ⊢
  have hso := verdict_suspended.1 (hv.symm.trans hen)
  obtain ⟨place, hpl, -, -, ht⟩ := (run_resumes (b.leaves_postpones c.log)).2 _ _ _ _ _ _ _ hso hs
  obtain ⟨dependency, hd⟩ := isSome_iff_exists.1 hso
  obtain ⟨hp, hi⟩ := insightTurn_suspended hli hpl hd
  rw [← hturn, ← ran] at hp hi
  have hid : (b.ran debug c).insight.insightId = c.insight.insightId :=
    (runPipe_keeps debug _).2 _ _ _ _ _ _ _
  have hk : filterKey (b.ran debug c).insight = filterKey c.insight :=
    (kept_of_log filterKey debug _).2 _ _ _ _ _ _ _ hs
  have hst : (b.ran debug c).insight.state = c.insight.state := congrArg (·.1) hk
  have hrest : b.rest debug (b.next debug ctx c) = runPipes debug b.atOnce (b.ran debug c).pipes
      .stages [] 0 place (b.ran debug c).insight [] := by
    rw [rest, next, runStages, hp, hi, hst, hid]
    simp only [AList.lookup_insert, getD_some, elim_some]
  have hr := ht.log
  have ha : ∀ e ∈ (b.ran debug c).log,
      e.result.deferred.isSome = true ↔ asked c.log e.path < b.deferrals e.path := fun e he =>
    deferred_iff ((log_truthful debug _).2 _ _ _ _ _ _ _ e he)
  have hn : ((b.rest debug c).log.map (·.path)).Nodup :=
    ((log_paths debug b.atOnce).2 _ _ _ _ _ _ _).2
  refine ⟨⟨?_, ?_, ?_, ?_, ?_, ?_, ?_, ?_⟩, ?_⟩
  · rw [next, hi]
    exact hid.trans h.insightId
  · rw [next, hi]
    exact hk.trans h.key
  · intro hf
    rw [next, hl] at hf
    rw [next, hi]
    exact ((kept_of_log (·.firstOnFill) debug _).2 _ _ _ _ _ _ _ fun e he =>
      hf e (mem_append_right _ he)).trans (h.firstOnFill fun e he => hf e (mem_append_left _ he))
  · intro resume hre
    rw [next, hp, ← h.insightId, AList.lookup_insert] at hre
    cases hre
    exact congrArg (·.1) h.key
  · rw [hrest]
    exact ht.result.trans h.result
  · rw [hrest]
    exact ht.insight.trans h.insight
  · rw [hrest, h.answers, next, hl, filter_append, map_append, append_assoc]
    exact congrArg (_ ++ ·) (answers_resumes hr)
  · rw [hrest, h.script, next, hl, map_append, append_assoc]
    exact congrArg (_ ++ ·) (script_resumes hr hn ha)
  · obtain ⟨done, e, first, rest, hru, -⟩ := hr
    rw [runStages, hru]
    exact append_ne_nil_of_right_ne_nil _ (cons_ne_nil _ _)

theorem Holds.answered (h : Holds b debug whole i c) (hl : (b.turn debug ctx c).ending ≠ .expired)
    (hen : (b.turn debug ctx c).ending ≠ .suspended) :
    b.turn debug ctx c = runInsight debug ctx b.atOnce c.pipeline c.insight ∧
    (b.turn debug ctx c).ending = verdict (b.rest debug c).result (b.rest debug c).insight ∧
    (b.turn debug ctx c).log = (b.rest debug c).log ∧
    (b.turn debug ctx c).insight =
      conclude ctx.clock (c.insight.state = .filled && c.insight.firstOnFill)
        (b.rest debug c).insight (b.turn debug ctx c).ending ∧
    ∀ e ∈ (b.rest debug c).log, e.result.deferred = none ∧ b.remaining c.log e.path = 0 := by
  rw [runInsight, h.dropStale]
  rw [h.turn_eq ctx] at hl hen ⊢
  have hl := expires_of_live hl
  obtain ⟨hv, hlo, hin⟩ := insightTurn_ran debug (b.leaves c.log) hl
  rw [← ran] at hv hlo hin
  rw [hv] at hen
  have hn := not_isSome_iff_eq_none.1 (verdict_suspended.not.1 hen)
  have hr : b.ran debug c = b.rest debug c :=
    (run_eq_of_answered (b.leaves_postpones c.log)).2 _ _ _ _ _ _ _ hn
  have heq : insightTurn debug ctx (b.leaves c.log) c.pipeline c.insight =
      insightTurn debug ctx b.atOnce c.pipeline c.insight := by
    simp only [insightTurn, hl, show runStages debug (b.leaves c.log) c.pipeline c.insight =
      runStages debug b.atOnce c.pipeline c.insight from hr]
  refine ⟨heq, by rw [hv, hr], by rw [hlo, hr], by rw [hin, hv, hr], ?_⟩
  intro e he
  have hn : e.result.deferred = none := by
    have ha := b.deferred_answer e.path e.before
    have ht : b.atOnce.ask e.path e.before = (e.result, e.after) :=
      (log_truthful debug b.atOnce).2 _ _ _ _ _ _ _ e he
    have hre : b.answer e.path e.before = (e.result, e.after) := ht
    rw [hre] at ha
    exact ha
  rw [← hr] at he
  have hi := deferred_iff ((log_truthful debug (b.leaves c.log)).2 _ _ _ _ _ _ _ e he)
  rw [hn] at hi
  exact ⟨hn, Nat.sub_eq_zero_of_le (not_lt.1 (hi.not.1 (by decide)))⟩

end

end Behaviour

/-- The same end of a turn, but that the text of a composite that failed is
cut. -/
def TurnEnd.Agrees (debug : DebugText) (byComposite : Prop) : TurnEnd → TurnEnd → Prop
  | .failed reason', .failed reason =>
    reason' = reason ∨ byComposite ∧ Cut debug (some reason') (some reason)
  | ending', ending => ending' = ending

theorem verdict_agrees {debug : DebugText} {r' r : InsightPipeResult} (h : r'.Agrees debug r)
    (i : Insight) : (verdict r' i).Agrees debug (r.pipeName ∈ compositeNames) (verdict r i) := by
  have hr : ∀ text : String → String,
      r'.message.getD (text r'.pipeName) = r.message.getD (text r.pipeName) ∨
      r.pipeName ∈ compositeNames ∧ Cut debug (some (r'.message.getD (text r'.pipeName)))
        (some (r.message.getD (text r.pipeName))) := by
    intro text
    rw [h.pipeName]
    obtain heq | ⟨hn, hcut⟩ := h.message
    · rw [heq]
      exact .inl rfl
    · exact .inr ⟨hn, hcut.getD _⟩
  unfold verdict
  rw [h.deferred, h.success, h.passed]
  split
  · rfl
  split
  · exact hr fun name => "Insight pipe " ++ name ++ " failed"
  split
  · split
    · rfl
    · exact hr fun name => "Insight pipe " ++ name ++ " did not pass"
  · rfl

namespace Behaviour

variable {b : Behaviour} {debug : DebugText} {ctx : Nat → StrategyContext} {p : InsightPipeline}
  {i : Insight}

theorem Suspended.pred {n : Nat} (h : b.Suspended debug ctx p i (n + 1)) :
    b.Suspended debug ctx p i n := fun m hm => h m (Nat.lt_succ_of_lt hm)

/-- As long as the turns defer, what is left is an uninterrupted run. Each of
them runs a leaf. -/
theorem holds_after (hne : p.deferred.lookup i.insightId = none)
    (hs : ∀ n, b.Suspended debug ctx p i (n + 1) → Steady (b.turnAt debug ctx p i n).log)
    (n : Nat) (h : b.Suspended debug ctx p i n) :
    Holds b debug (runStages debug b.atOnce p i) i (b.after debug ctx p i n) ∧
      n ≤ (b.after debug ctx p i n).log.length := by
  induction n with
  | zero => exact ⟨holds_start hne, Nat.zero_le _⟩
  | succ n ih =>
    obtain ⟨hh, hle⟩ := ih h.pred
    obtain ⟨hn, hl⟩ := hh.suspended (h n (Nat.lt_succ_self n)) (hs n h)
    refine ⟨hn, ?_⟩
    have hpos := length_pos_of_ne_nil hl
    simp only [after, next, length_append]
    omega

theorem script_of_answered {whole : PipesRun} {c : Continuation} (h : Holds b debug whole i c)
    (hd : ∀ e ∈ (b.rest debug c).log, e.result.deferred = none ∧ b.remaining c.log e.path = 0) :
    script b.deferrals (whole.log.map (·.path)) =
      (c.log ++ (b.rest debug c).log).map (·.shape) := by
  rw [h.script, script_answered (fun e he => (hd e he).1) fun e he => (hd e he).2, map_append]

/-- The leaves can defer only so often, so one of the turns answers. -/
theorem exists_answer (hne : p.deferred.lookup i.insightId = none)
    (hs : ∀ n, b.Suspended debug ctx p i (n + 1) → Steady (b.turnAt debug ctx p i n).log) :
    ∃ n, b.Suspended debug ctx p i n ∧ (b.turnAt debug ctx p i n).ending ≠ .suspended := by
  by_contra hn
  have ha : ∀ n, b.Suspended debug ctx p i n := by
    intro n
    induction n with
    | zero => exact fun m hm => absurd hm (Nat.not_lt_zero m)
    | succ n ih =>
      intro m hm
      obtain hlt | rfl := Nat.lt_succ_iff_lt_or_eq.1 hm
      · exact ih m hlt
      by_contra he
      exact hn ⟨m, ih, he⟩
  have hb : ∀ n, n ≤
      (script b.deferrals ((runStages debug b.atOnce p i).log.map (·.path))).length := by
    intro n
    obtain ⟨hh, hl⟩ := holds_after hne hs n (ha n)
    rw [hh.script, length_append, length_map]
    omega
  exact absurd (hb _) (Nat.not_succ_le_self _)

/-- The turns of a continuation end as one uninterrupted turn does, with the
same answers of the leaves, and no leaf runs again after its answer. In the last
turn every leaf answers at once. -/
theorem deferral_transparent (b : Behaviour) (debug : DebugText) (ctx : Nat → StrategyContext)
    (p : InsightPipeline) (i : Insight) (hnew : p.deferred.lookup i.insightId = none)
    (hlive : ∀ n, b.Suspended debug ctx p i n → (b.turnAt debug ctx p i n).ending ≠ .expired)
    (hsteady : ∀ n, b.Suspended debug ctx p i (n + 1) → Steady (b.turnAt debug ctx p i n).log) :
    ∃ n, b.Suspended debug ctx p i n ∧
      (let c := b.after debug ctx p i n
      b.turnAt debug ctx p i n = runInsight debug (ctx n) b.atOnce c.pipeline c.insight ∧
      c.insight.state = i.state ∧
      ((∀ e ∈ c.log, e.after.firstOnFill = e.before.firstOnFill) →
        c.insight.firstOnFill = i.firstOnFill) ∧
      ∃ j, (b.turnAt debug ctx p i n).insight =
          conclude (ctx n).clock (c.insight.state = .filled && c.insight.firstOnFill) j
            (b.turnAt debug ctx p i n).ending ∧
        (runInsight debug (ctx 0) b.atOnce p i).insight =
          conclude (ctx 0).clock (i.state = .filled && i.firstOnFill) j
            (runInsight debug (ctx 0) b.atOnce p i).ending) ∧
      (b.turnAt debug ctx p i n).ending.Agrees debug
        ((runStages debug b.atOnce p i).result.pipeName ∈ compositeNames)
        (runInsight debug (ctx 0) b.atOnce p i).ending ∧
      ((b.after debug ctx p i (n + 1)).log.filter (·.result.deferred.isNone)).map (·.answer) =
        (runInsight debug (ctx 0) b.atOnce p i).log.map (·.answer) ∧
      (b.after debug ctx p i (n + 1)).log.Pairwise
        fun e later => e.result.deferred = none → later.path ≠ e.path := by
  obtain ⟨n, hsu, hen⟩ := exists_answer hnew hsteady
  obtain ⟨hho, -⟩ := holds_after hnew hsteady n hsu
  obtain ⟨htu, hve, hlog, hin, hdo⟩ := hho.answered (hlive n hsu) hen
  -- the uninterrupted turn is not skipped either
  have hst : Holds b debug (runStages debug b.atOnce p i) i ⟨p, i, []⟩ := holds_start hnew
  have hfi : (insightTurn debug (ctx 0) (b.leaves []) p i).ending ≠ .expired := by
    have h := hlive 0 fun m hm => absurd hm (Nat.not_lt_zero m)
    rw [turnAt, after, hst.turn_eq] at h
    exact h
  obtain ⟨hen', hlog', hin'⟩ := insightTurn_ran debug b.atOnce (expires_of_live hfi)
  have hwh : runInsight debug (ctx 0) b.atOnce p i = insightTurn debug (ctx 0) b.atOnce p i := by
    rw [runInsight, hst.dropStale]
  rw [hwh]
  have haf : (b.after debug ctx p i (n + 1)).log =
      (b.after debug ctx p i n).log ++ (b.rest debug (b.after debug ctx p i n)).log := by
    rw [after, next, hlog]
  refine ⟨n, hsu, ⟨htu, congrArg (·.1) hho.key, hho.firstOnFill,
    (runStages debug b.atOnce p i).insight, ?_, ?_⟩, ?_, ?_, ?_⟩
  · rw [turnAt, hin, hho.insight]
  · rw [hin', hen']
  · rw [turnAt, hve, hen', hho.insight]
    exact verdict_agrees hho.result _
  · rw [haf, filter_append, map_append, filter_answered fun e he => (hdo e he).1,
      hlog', hho.answers]
  · have hno : ((runStages debug b.atOnce p i).log.map (·.path)).Nodup :=
      ((log_paths debug b.atOnce).2 _ _ _ _ _ _ _).2
    have hpa := script_pairwise b.deferrals hno
    rw [script_of_answered hho hdo, ← haf, pairwise_map] at hpa
    refine hpa.imp ?_
    intro e later h hnon
    exact h (by rw [LeafRun.shape, hnon]; rfl)

end Behaviour

def quoted (s : String) : String := "\"" ++ s ++ "\""

def plainDebug : DebugText where
  list texts := "[" ++ ", ".intercalate (texts.map quoted) ++ "]"
  option
    | none => "None"
    | some s => "Some(" ++ quoted s ++ ")"

def idleContext : StrategyContext where
  clock := ⟨0, 0⟩
  universeAsset _ := none
  progress _ := none
  enqueue _ _ _ := .error .queueFull
  cancelPendingEntry _ := .ok ()
  amendsLimitPrice := false
  amendsStopPrice := false
  addTimeIncrement _ _ _ := none

/-- Leaves that wait for room in the queue of the broker and leave the
insight alone while they do. -/
def Behaviour.waiting (deferrals : PipePath → Nat) (result : PipePath → InsightPipeResult)
    (change : PipePath → Insight → Insight) : Behaviour where
  deferrals
  defer _ _ i := (⟨false, true, none, "Waiting", some .brokerQueueCapacity⟩, i)
  answer path i := ({ result path with deferred := none },
    { change path i with insightId := i.insightId })
  deferred_defer _ _ _ := rfl
  deferred_answer _ _ := rfl
  insightId_defer _ _ _ := rfl
  insightId_answer _ _ := rfl
  answer_defer _ _ _ := rfl

def leafNamed (name : String) : Pipe := .leaf {} name "1.0" false

def bothPipeline : InsightPipeline :=
  ({} : InsightPipeline).addPipe (.composite {} .and ∅ [leafNamed "A", leafNamed "B"])

def twoStages : InsightPipeline :=
  (({} : InsightPipeline).addPipe (leafNamed "A")).addPipe (leafNamed "B")

def freshInsight : Insight := { insightId := default }

def lateRefusal : Behaviour :=
  .waiting (fun path => if path = [0, 1] then 1 else 0)
    (fun path => if path = [0, 1] then .new false true (some "b") "B"
      else .new true true (some "a") "A")
    (fun _ i => i)

/-- The second turn is the last: the continuation consumes the answers of
`A` and of `B` once each. -/
theorem late_refusal_transparent : ∃ n,
    lateRefusal.Suspended plainDebug (fun _ => idleContext) bothPipeline freshInsight n ∧
    ((lateRefusal.after plainDebug (fun _ => idleContext) bothPipeline
      freshInsight (n + 1)).log.filter
      (·.result.deferred.isNone)).map (·.path) = [[0, 0], [0, 1]] := by
  have hla : (lateRefusal.turnAt plainDebug (fun _ => idleContext) bothPipeline freshInsight
      1).ending ≠ .suspended := by decide +kernel
  obtain ⟨n, hsu, -, -, han, -⟩ := Behaviour.deferral_transparent lateRefusal plainDebug
    (fun _ => idleContext) bothPipeline freshInsight rfl
    (fun
      | 0, _ | 1, _ => by decide +kernel
      | n + 2, h => absurd (h 1 (by omega)) hla)
    (fun
      | 0, _ => by unfold Steady; decide +kernel
      | n + 1, h => absurd (h 1 (by omega)) hla)
  refine ⟨n, hsu, ?_⟩
  have hpa := congrArg (List.map (·.1)) han
  rw [List.map_map, List.map_map] at hpa
  refine hpa.trans ?_
  decide +kernel

def movesOn : Behaviour :=
  .waiting (fun path => if path = [1] then 1 else 0) (fun _ => .new true true none "A")
    (fun path i => if path = [0] then { i with state := .executed } else i)

/-- The text of a composite starts anew with every turn, and a continuation
is dropped when an earlier answer has changed the state. -/
theorem deferral_shows :
    ((lateRefusal.turnAt plainDebug (fun _ => idleContext) bothPipeline freshInsight 0).ending =
        .suspended ∧
      (lateRefusal.turnAt plainDebug (fun _ => idleContext) bothPipeline freshInsight 1).ending =
        .failed "AndPipe failed: [\"b\"]" ∧
      (runInsight plainDebug idleContext lateRefusal.atOnce bothPipeline freshInsight).ending =
        .failed "AndPipe failed: [\"a\", \"b\"]") ∧
    (movesOn.turnAt plainDebug (fun _ => idleContext) twoStages freshInsight 0).ending =
      .suspended ∧
      (movesOn.turnAt plainDebug (fun _ => idleContext) twoStages freshInsight 1).ending =
        .completed ∧
      ((movesOn.after plainDebug (fun _ => idleContext) twoStages freshInsight 2).log.filter
        (·.result.deferred.isNone)).map (·.path) = [[0]] ∧
      (runInsight plainDebug idleContext movesOn.atOnce twoStages freshInsight).log.map (·.path) =
        [[0], [1]] := by
  decide +kernel

end AqEngine.Pipeline
