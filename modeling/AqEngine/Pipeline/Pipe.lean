import AqEngine.Insights.Turns
import AqEngine.Journal.Encoding
import AqEngine.Lib.Index

namespace AqEngine.Pipeline

open Lib Insights

structure InsightPipeResult where
  (passed success : Bool)
  message : Option String
  pipeName : String
  deferred : Option InsightPipeDeferral := none
  deriving DecidableEq

/-- A passing result is always a successful one. -/
def InsightPipeResult.new (passed success : Bool) (message : Option String) (pipeName : String) :
    InsightPipeResult := ⟨passed, passed || success, message, pipeName, none⟩

inductive InsightPipeScope where
  | parentOnly | childOnly | both
  deriving DecidableEq, Repr

def InsightPipeScope.allows (i : Insight) : InsightPipeScope → Bool
  | .parentOnly => i.parentId.isNone
  | .childOnly => i.parentId.isSome
  | .both => true

structure PipeConfig where
  targetState : InsightState := .new
  allowStateChange : Bool := true
  (allowedAssets allowedAlphas : Option (Finset String) := none)
  insightScope : InsightPipeScope := .parentOnly
  deriving DecidableEq

def childAlphaSuffix : String := "-CHILD"

def stripChildSuffix (name : String) : Option String :=
  if childAlphaSuffix.toList.isSuffixOf name.toList then
    some (String.ofList (name.toList.take (name.length - childAlphaSuffix.length)))
  else none

/-- The alpha or one of those it is a child of is allowed. Each round takes a
suffix away, so the length of the name is enough fuel. -/
def alphaIsAllowed (allowedAlphas : Finset String) : Nat → String → Bool
  | fuel, candidate =>
    if candidate ∈ allowedAlphas || (candidate == "Testing" && "TestEntry" ∈ allowedAlphas) then
      true
    else match fuel, stripChildSuffix candidate with
    | fuel + 1, some parentName => alphaIsAllowed allowedAlphas fuel parentName
    | _, _ => false

namespace PipeConfig

variable (config : PipeConfig) (i : Insight)

def matchesAssetAndAlpha : Bool :=
  config.allowedAssets.all (fun set => set = ∅ || i.symbol ∈ set) &&
    config.allowedAlphas.all fun set =>
      set = ∅ || alphaIsAllowed set i.strategyType.toString.length i.strategyType.toString

def shouldRun : Bool := config.matchesAssetAndAlpha i && config.insightScope.allows i

end PipeConfig

inductive CompositeKind where
  | and | or
  deriving DecidableEq, Repr

def CompositeKind.name : CompositeKind → String
  | .and => "AndPipe"
  | .or => "OrPipe"

/-- A wrapped pipe. A composite keeps, for each insight that waits in it, the
state it was entered with and the index of the pipe that waits. -/
inductive Pipe where
  | leaf (config : PipeConfig) (name version : String) (controlsExpiration : Bool)
  | composite (config : PipeConfig) (kind : CompositeKind)
      (resumed : Table Uuid (InsightState × Nat)) (pipes : List Pipe)

namespace Pipe

def config : Pipe → PipeConfig
  | .leaf config _ _ _ => config
  | .composite config _ _ _ => config

def name : Pipe → String
  | .leaf _ name _ _ => name
  | .composite _ kind _ _ => kind.name

def version : Pipe → String
  | .leaf _ _ version _ => version
  | .composite _ _ _ _ => "1.0"

def controlsExpiration : Pipe → Bool
  | .leaf _ _ _ controlsExpiration => controlsExpiration
  | .composite _ _ _ _ => false

end Pipe

/-- The place of a pipe among the pipes of a state: an index for each level. -/
abbrev PipePath := List Nat

/-- How the leaves answer during one turn. A leaf may change anything of the
insight it is given, but not exchange the insight for another. -/
structure Leaves where
  ask : PipePath → Insight → InsightPipeResult × Insight
  insightId_ask : ∀ path i, (ask path i).2.insightId = i.insightId

structure LeafRun where
  path : PipePath
  before : Insight
  result : InsightPipeResult
  after : Insight
  deriving DecidableEq

/-- The debug format of the texts that composites print. -/
structure DebugText where
  list : List String → String
  option : Option String → String

/-- The three loops over pipes: the pipes of a state, and the two composites. -/
inductive PipeLoop where
  | stages
  | composite (kind : CompositeKind)
  deriving DecidableEq

namespace PipeLoop

variable (debug : DebugText)

/-- What a loop makes of the final result of one pipe: an answer, or the
texts with which it goes on. -/
def settle (name : String) (r : InsightPipeResult) (i : Insight) (messages : List String) :
    PipeLoop → InsightPipeResult ⊕ List String
  | .stages => if r.success && r.passed then .inr messages else .inl r
  | .composite .and =>
    let messages := messages ++ r.message.toList
    if !r.success || !r.passed then
      .inl (.new false true (some ("AndPipe failed: " ++ debug.list messages)) "AndPipe")
    else .inr messages
  | .composite .or =>
    -- a mutating rejection or exit is not overridden by another branch
    if i.state.isInactive || i.closing || i.cancelling then .inl r
    else if !r.success then .inr (messages ++ r.message.toList)
    else if r.passed then
      .inl (.new true true (some ("Pipe " ++ name ++ " passed: " ++
        debug.option r.message)) "OrPipe")
    else .inr messages

def exhausted (messages : List String) : PipeLoop → InsightPipeResult
  | .stages => .new true true none ""
  | .composite .and => .new true true (some ("All pipes passed: " ++ debug.list messages)) "AndPipe"
  | .composite .or =>
    .new false true (some ("No pipe passed. Errors: " ++ debug.list messages)) "OrPipe"

end PipeLoop

structure PipeRun where
  result : InsightPipeResult
  insight : Insight
  pipe : Pipe
  log : List LeafRun

structure PipesRun where
  result : InsightPipeResult
  insight : Insight
  pipes : List Pipe
  suspended : Option Nat
  log : List LeafRun

/-- The index at which a composite goes on. The saved place is of no use for
an insight that is in another state by now. -/
def resumeIndex (resumed : Table Uuid (InsightState × Nat)) (i : Insight) : Nat :=
  ((resumed.lookup i.insightId).filter fun saved => saved.1 == i.state).elim 0 (·.2)

def saveIndex (resumed : Table Uuid (InsightState × Nat)) (i : Insight) :
    Option Nat → Table Uuid (InsightState × Nat)
  | some index => (resumed.erase i.insightId).insert i.insightId (i.state, index)
  | none => resumed.erase i.insightId

variable (debug : DebugText) (leaves : Leaves)

mutual

def runPipe : Pipe → PipePath → Insight → PipeRun
  | .leaf config name version controlsExpiration, path, i =>
    let answer := leaves.ask path i
    ⟨answer.1, answer.2, .leaf config name version controlsExpiration,
      [⟨path, i, answer.1, answer.2⟩]⟩
  | .composite config kind resumed pipes, path, i =>
    let run := runPipes pipes (.composite kind) path 0 (resumeIndex resumed i) i []
    ⟨run.result, run.insight, .composite config kind (saveIndex resumed i run.suspended) run.pipes,
      run.log⟩

/-- The pipes from `index` on; those before `start` are skipped, and so are
those whose filter does not let the insight in. -/
def runPipes : List Pipe → PipeLoop → PipePath → Nat → Nat → Insight → List String → PipesRun
  | [], loop, _, _, _, i, messages => ⟨loop.exhausted debug messages, i, [], none, []⟩
  | pipe :: pipes, loop, path, index, start, i, messages =>
    if index < start || !pipe.config.shouldRun i then
      let rest := runPipes pipes loop path (index + 1) start i messages
      { rest with pipes := pipe :: rest.pipes }
    else
      let run := runPipe pipe (path ++ [index]) i
      if run.result.deferred.isSome then
        ⟨run.result, run.insight, run.pipe :: pipes, some index, run.log⟩
      else match loop.settle debug pipe.name run.result run.insight messages with
      | .inl answer => ⟨answer, run.insight, run.pipe :: pipes, none, run.log⟩
      | .inr messages =>
        let rest := runPipes pipes loop path (index + 1) start run.insight messages
        { rest with pipes := run.pipe :: rest.pipes, log := run.log ++ rest.log }

end

end AqEngine.Pipeline
