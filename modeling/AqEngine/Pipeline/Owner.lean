import AqEngine.Insights.Collection
import AqEngine.Pipeline.Checkpoint
import Mathlib.Data.Finset.Sort

namespace AqEngine.Insights.InsightCollection

open Lib

/-- The first rows to save. A burst is saved in pages. -/
def executionDirtyIds (c : InsightCollection) (limit : Nat) : List Uuid :=
  (ascending c.executionDirty).take limit

end AqEngine.Insights.InsightCollection

namespace AqEngine.Pipeline

open Lib Insights

/-- What the owner of a live strategy keeps between its turns. The ids in
`queued` wait for the walk that captures their rows. -/
structure Owner where
  insights : InsightCollection := {}
  pipeline : InsightPipeline := {}
  queued : Finset Uuid := ∅

/-- What a pipe may do to the collection while the row of its insight is out. -/
inductive ContextEffect where
  | addInsight (insight : Insight)
  | enqueueBrokerCommand (id : Uuid)
  | requestInsightCancellation (id : Uuid)

def ContextEffect.perform (c : InsightCollection) : ContextEffect → InsightCollection
  | .addInsight insight => c.addInsight insight
  | .enqueueBrokerCommand id => c.executionPin id
  | .requestInsightCancellation id =>
    match c.takeForUpdate id with
    | none => c
    | some (out, row) =>
      if row.state = .new ∨ row.state = .executed then
        out.restoreAfterUpdate { row with suppressChildEntries := true } true
      else c

/-- What the command driver knows when rows are to be saved. -/
structure DriverView where
  checkpointMatches : Uuid → Insight → Option InsightPipelineCheckpoint → Bool
  hasUnpersistedIntents : Uuid → Bool
  hasConsumableReceipts : Insight → Bool
  pendingOwners : Finset Uuid

namespace Owner

variable (o : Owner) (id : Uuid)

def row : Option Insight := o.insights.insights.lookup id

def activeRow : Option Insight := (o.row id).filter fun row => !row.state.isInactive

/-- A continuation that was forgotten has to be saved. -/
def forget : Owner :=
  { o with
    pipeline := (o.pipeline.forgetContinuation id).1
    insights :=
      if (o.pipeline.forgetContinuation id).2 then o.insights.markExecutionDirty id
      else o.insights }

def turn (debug : DebugText) (ctx : StrategyContext) (leaves : Leaves)
    (effects : List ContextEffect) (touched : Bool) : Owner :=
  match o.activeRow id with
  | none => o.forget id
  | some row =>
    let o :=
      if (o.pipeline.deferred.lookup id).any (fun resume => row.state != resume.state) then
        o.forget id
      else o
    let beforeContinuation := o.pipeline.executionCheckpoint id
    match o.insights.takeForUpdate id with
    | none => o
    | some (out, row) =>
      let run := insightTurn debug ctx leaves o.pipeline row
      let insights :=
        (effects.foldl ContextEffect.perform out).restoreAfterUpdate run.insight touched
      { o with
        insights :=
          if beforeContinuation ≠ run.pipeline.executionCheckpoint id then
            insights.markExecutionDirty id
          else insights
        pipeline := run.pipeline }

/-- The continuations that a full pass drops before its turns. -/
def staleIds : List Uuid :=
  o.pipeline.deferred.keys.filter fun id =>
    !((o.row id).any fun row => decide (id ∈ o.insights.activeInsightIds) &&
      (o.pipeline.deferred.lookup id).any fun resume => row.state == resume.state)

def beginFullPass : Owner :=
  if o.pipeline.deferred.keys.isEmpty then o
  else
    let active := o.insights.activeInsightIds
    let o := o.staleIds.foldl (fun o id =>
      { o with
        pipeline := (o.pipeline.forgetContinuation id).1
        insights := o.insights.markExecutionDirty id }) o
    { o with pipeline := o.pipeline.retainActiveInsights active }

def sweep : Owner :=
  let stale := (o.pipeline.deferred.lookup id).any fun resume =>
    !((o.row id).any fun row => !row.state.isInactive && row.state == resume.state)
  if stale then o.forget id else o

/-- A new snapshot at one insight that waits for it; `due` is set when the
insight has not tried this snapshot. -/
def resumeSnapshotPipe (due : Bool) (debug : DebugText) (ctx : StrategyContext) (leaves : Leaves)
    (effects : List ContextEffect) (touched : Bool) : Owner :=
  match o.activeRow id with
  | none => o.forget id
  | some row =>
    match o.pipeline.deferred.lookup id with
    | none => o
    | some resume =>
      if due || row.state != resume.state then o.turn id debug ctx leaves effects touched else o

variable (view : DriverView)

def unchanged (row : Insight) : Bool :=
  view.checkpointMatches id row (o.pipeline.executionCheckpoint id) &&
    !view.hasUnpersistedIntents id && !view.hasConsumableReceipts row

def saved : Owner :=
  { o with
    insights :=
      if id ∈ view.pendingOwners then o.insights.executionSaved id
      else (o.insights.executionSaved id).executionUnpin id }

/-- One root of the page: it is on disk, or the walk has to capture it. -/
def examine : Owner :=
  match o.row id with
  | none => o
  | some row =>
    if o.unchanged id view row then o.saved id view else { o with queued := insert id o.queued }

/-- The roots in order, as far as the budget goes. A queued root is free. -/
def examineAll : Nat → List Uuid → Owner → Owner
  | _, [], o => o
  | work, id :: ids, o =>
    if id ∈ o.queued then examineAll work ids o
    else match work with
    | 0 => o
    | work + 1 => examineAll work ids (o.examine id view)

def roots : List Uuid :=
  ascending ((o.insights.executionDirtyIds 32).toFinset ∪ view.pendingOwners)

def persistPage (work : Nat) : Owner := examineAll view work (o.roots view) o

/-- The walk at one row. A row that is not on disk goes into the next batch. -/
def walkRow : Owner :=
  match o.row id with
  | none => o
  | some row => if o.unchanged id view row then o.saved id view else o

def walkFinished : Owner := { o with queued := o.queued.erase id }

def update (change : Insight → Insight) (changed : Bool) : Owner :=
  match o.insights.takeForUpdate id with
  | none => o
  | some (out, row) => { o with insights := out.restoreAfterUpdate (change row) changed }

end Owner

inductive OwnerAction where
  | add (insight : Insight)
  | mutate (id : Uuid) (change : Insight → Insight)
  | refresh (id : Uuid)
  | update (id : Uuid) (change : Insight → Insight) (changed : Bool)
  | enqueue (id : Uuid)
  | turn (id : Uuid) (debug : DebugText) (ctx : StrategyContext) (leaves : Leaves)
      (effects : List ContextEffect) (touched : Bool)
  | beginFullPass
  | sweep (id : Uuid)
  | resumeSnapshotPipe (id : Uuid) (due : Bool) (debug : DebugText) (ctx : StrategyContext)
      (leaves : Leaves) (effects : List ContextEffect) (touched : Bool)
  | persistPage (view : DriverView) (work : Nat)
  | walkRow (id : Uuid) (view : DriverView)
  | walkFinished (id : Uuid)
  | prune (id : Uuid)

namespace Owner

def keepsId (o : Owner) (id : Uuid) (change : Insight → Insight) : Bool :=
  (o.row id).all fun row => (change row).insightId == row.insightId

def step (o : Owner) : OwnerAction → Option Owner
  | .add insight => some { o with insights := o.insights.addInsight insight }
  | .mutate id change =>
    if o.keepsId id change then some { o with insights := o.insights.mutate id change } else none
  | .refresh id => some { o with insights := o.insights.refreshRuntimeTracking id }
  | .update id change changed =>
    if o.keepsId id change then some (o.update id change changed) else none
  | .enqueue id => some { o with insights := o.insights.executionPin id }
  | .turn id debug ctx leaves effects touched => some (o.turn id debug ctx leaves effects touched)
  | .beginFullPass => some o.beginFullPass
  | .sweep id => some (o.sweep id)
  | .resumeSnapshotPipe id due debug ctx leaves effects touched =>
    some (o.resumeSnapshotPipe id due debug ctx leaves effects touched)
  | .persistPage view work => some (o.persistPage view work)
  | .walkRow id view => some (o.walkRow id view)
  | .walkFinished id => some (o.walkFinished id)
  | .prune id => some { o with insights := o.insights.pruneTerminalInsight id }

end Owner

end AqEngine.Pipeline
