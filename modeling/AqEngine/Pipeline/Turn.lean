import AqEngine.Pipeline.Pipe

namespace AqEngine.Pipeline

open Lib Insights

structure DeferredPipeResume where
  state : InsightState
  index : Nat
  dependency : InsightPipeDeferral
  deriving DecidableEq

/-- The pipes of each state, and the insights that wait in one of them. -/
def emptyBuckets : Table InsightState (List Pipe) :=
  [InsightState.new, .executed, .closed, .filled, .cancelled, .rejected].foldl (·.insert · []) ∅

structure InsightPipeline where
  pipeline : Table InsightState (List Pipe) := emptyBuckets
  deferred : Table Uuid DeferredPipeResume := ∅

def InsightPipeline.addPipe (p : InsightPipeline) (pipe : Pipe) : InsightPipeline :=
  let state := pipe.config.targetState
  { p with pipeline := p.pipeline.insert state ((p.pipeline.lookup state).getD [] ++ [pipe]) }

mutual

/-- A composite forgets its own place and those along the branch that waits. -/
def Pipe.forgetInsightContinuation (id : Uuid) : Pipe → Pipe
  | .leaf config name version controlsExpiration => .leaf config name version controlsExpiration
  | .composite config kind resumed pipes =>
    match resumed.lookup id with
    | none => .composite config kind resumed pipes
    | some (_, index) => .composite config kind (resumed.erase id) (forgetAt id index pipes)

def forgetAt (id : Uuid) : Nat → List Pipe → List Pipe
  | _, [] => []
  | 0, pipe :: pipes => pipe.forgetInsightContinuation id :: pipes
  | index + 1, pipe :: pipes => pipe :: forgetAt id index pipes

end

mutual

/-- Only the places of the insights in `active` are kept. -/
def Pipe.retainActiveInsights (active : Finset Uuid) : Pipe → Pipe
  | .leaf config name version controlsExpiration => .leaf config name version controlsExpiration
  | .composite config kind resumed pipes =>
    .composite config kind
      (resumed.keys.foldl (fun kept id => if id ∈ active then kept else kept.erase id) resumed)
      (retainAll active pipes)

def retainAll (active : Finset Uuid) : List Pipe → List Pipe
  | [] => []
  | pipe :: pipes => pipe.retainActiveInsights active :: retainAll active pipes

end

namespace InsightPipeline

variable (p : InsightPipeline) (id : Uuid)

def forgetContinuation : InsightPipeline × Bool :=
  match p.deferred.lookup id with
  | none => (p, false)
  | some resume =>
    ({ pipeline := match p.pipeline.lookup resume.state with
        | none => p.pipeline
        | some pipes => p.pipeline.insert resume.state (forgetAt id resume.index pipes)
       deferred := p.deferred.erase id }, true)

def retainActiveInsights (active : Finset Uuid) : InsightPipeline :=
  { p with pipeline := p.pipeline.mapRows (retainAll active) }

end InsightPipeline

inductive TurnEnd where
  | expired | suspended | completed | stopped
  | failed (reason : String)
  deriving DecidableEq

structure TurnRun where
  pipeline : InsightPipeline
  insight : Insight
  ending : TurnEnd
  log : List LeafRun

def canExpire (i : Insight) : Bool :=
  match i.state with
  | .new | .executed => i.periodUnfilled.isSome
  | .filled => i.periodTillTp.isSome
  | _ => false

def verdict (r : InsightPipeResult) (i : Insight) : TurnEnd :=
  if r.deferred.isSome then .suspended
  else if !r.success then
    .failed (r.message.getD ("Insight pipe " ++ r.pipeName ++ " failed"))
  else if !r.passed then
    if i.closing || i.cancelling || i.state.isInactive then .stopped
    else .failed (r.message.getD ("Insight pipe " ++ r.pipeName ++ " did not pass"))
  else .completed

/-- What the end of a turn does to the insight. Initial configuration is not
replayed, so the mark of the first fill goes when the pipes are through. -/
def conclude (t : Clock) (firstFill : Bool) (i : Insight) : TurnEnd → Insight
  | .failed reason => pipelineFailed t (.text reason) i
  | .completed | .stopped => if firstFill then i.setFirstOnFill t false else i
  | .expired | .suspended => i

variable (debug : DebugText) (ctx : StrategyContext) (leaves : Leaves)

/-- A pipe of the state has taken over the time to live. -/
def expirationManagedByPipe (pipes : List Pipe) (i : Insight) : Bool :=
  pipes.any fun pipe => pipe.controlsExpiration && pipe.config.matchesAssetAndAlpha i

def expires (pipes : List Pipe) (i : Insight) : Option Insight :=
  if canExpire i && !expirationManagedByPipe pipes i then
    match hasExpired ctx ⟨i, []⟩ with
    | (turn, true) => some turn.insight
    | (_, false) => none
  else none

variable (p : InsightPipeline)

/-- The pipes of the current state, from the one that waits or from the
first. -/
def runStages (i : Insight) : PipesRun :=
  runPipes debug leaves ((p.pipeline.lookup i.state).getD []) .stages [] 0
    ((p.deferred.lookup i.insightId).elim 0 (·.index)) i []

def PipesRun.resume (state : InsightState) (run : PipesRun) : Option DeferredPipeResume :=
  match run.suspended, run.result.deferred with
  | some index, some dependency => some ⟨state, index, dependency⟩
  | _, _ => none

def insightTurn (i : Insight) : TurnRun :=
  match expires ctx ((p.pipeline.lookup i.state).getD []) i with
  | some after => ⟨p, after, .expired, []⟩
  | none =>
    let run := runStages debug leaves p i
    let ending := verdict run.result run.insight
    let deferred := p.deferred.erase i.insightId
    { pipeline :=
        { pipeline := if (p.pipeline.lookup i.state).isSome then
            p.pipeline.insert i.state run.pipes else p.pipeline
          deferred := match run.resume i.state with
            | some resume => deferred.insert i.insightId resume
            | none => deferred }
      insight := conclude ctx.clock (i.state = .filled && i.firstOnFill) run.insight ending
      ending
      log := run.log }

/-- A continuation from another state is dropped before the turn. -/
def dropStale (i : Insight) : InsightPipeline :=
  if (p.deferred.lookup i.insightId).any (fun resume => i.state != resume.state) then
    (p.forgetContinuation i.insightId).1
  else p

def runInsight (i : Insight) : TurnRun := insightTurn debug ctx leaves (dropStale p i) i

end AqEngine.Pipeline
