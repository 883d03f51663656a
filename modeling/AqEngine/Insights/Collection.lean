import AqEngine.Insights.State
import AqEngine.Lib.Index
import AqEngine.Lib.Runs

namespace AqEngine.Insights

open Lib Broker

/-- The insights of one strategy with the indexes that are kept beside them. -/
structure InsightCollection where
  insights : Table Uuid Insight := ∅
  (dirtyInsightIds activeInsightIds orderedActiveInsightIds : Finset Uuid := ∅)
  activeBySymbol : Table String (Finset Uuid) := ∅
  activeSymbolById : Table Uuid String := ∅
  terminalPendingPrune : Finset Uuid := ∅
  lifetimeStateCounts : Table InsightState Nat := ∅
  lastKnownInsightState : Table Uuid InsightState := ∅
  orderIdToInsightId : Table String Uuid := ∅
  insightIdToOrderIds : Table Uuid (List String) := ∅
  orderIdIndexEnabled : Bool := true
  materializedInsightIds : Finset Uuid := ∅
  executionPersistenceEnabled : Bool := false
  (executionDirty executionPins : Finset Uuid := ∅)

def collectOrderIds (i : Insight) : List String :=
  i.orderId.toList ++ i.closeOrderId.toList ++
    [i.legs.takeProfit, i.legs.stopLoss, i.legs.trailingStop].filterMap (·.bind (·.orderId))

namespace InsightCollection

variable (c : InsightCollection) (id : Uuid)

def decrementStateCount (counts : Table InsightState Nat) (state : InsightState) :
    Table InsightState Nat := counts.tallyDown state

def updateStateTracking (state : InsightState) : InsightCollection :=
  { c with
    lastKnownInsightState := c.lastKnownInsightState.insert id state
    lifetimeStateCounts :=
      match c.lastKnownInsightState.lookup id with
      | some previous =>
        if previous ≠ state then (decrementStateCount c.lifetimeStateCounts previous).tallyUp state
        else c.lifetimeStateCounts
      | none => c.lifetimeStateCounts.tallyUp state }

def removeRoutes (routes : Table String Uuid) (orderIds : List String) : Table String Uuid :=
  orderIds.foldl (fun routes orderId => routes.erase orderId) routes

def insertRoutes (routes : Table String Uuid) (id : Uuid) (orderIds : List String) :
    Table String Uuid :=
  orderIds.foldl (fun routes orderId => routes.insert orderId id) routes

def indexOrderIdsForInsight (orderIds : List String) : InsightCollection :=
  if !c.orderIdIndexEnabled then c
  else match c.insightIdToOrderIds.lookup id with
  | some previous =>
    if previous = orderIds then c
    else
      { c with
        orderIdToInsightId := insertRoutes (removeRoutes c.orderIdToInsightId previous) id orderIds
        insightIdToOrderIds :=
          if orderIds = [] then c.insightIdToOrderIds.erase id
          else c.insightIdToOrderIds.insert id orderIds }
  | none =>
    if orderIds = [] then c
    else
      { c with
        orderIdToInsightId := insertRoutes c.orderIdToInsightId id orderIds
        insightIdToOrderIds := c.insightIdToOrderIds.insert id orderIds }

def removeSymbolTracking : InsightCollection :=
  match c.activeSymbolById.lookup id with
  | none => c
  | some symbol =>
    { c with
      activeSymbolById := c.activeSymbolById.erase id
      activeBySymbol := c.activeBySymbol.bucketRemove id symbol }

def activeSymbol (row : Option Insight) : Option String :=
  (row.filter fun row => !row.state.isInactive).map (·.symbol)

def refreshSymbolTracking : InsightCollection :=
  let symbol := activeSymbol (c.insights.lookup id)
  if symbol = c.activeSymbolById.lookup id then c
  else
    let c := c.removeSymbolTracking id
    match symbol with
    | none => c
    | some symbol =>
      { c with
        activeBySymbol := c.activeBySymbol.bucketAdd id symbol
        activeSymbolById := c.activeSymbolById.insert id symbol }

def removeTracking : InsightCollection :=
  let c := c.removeSymbolTracking id
  { c with
    dirtyInsightIds := c.dirtyInsightIds.erase id
    activeInsightIds := c.activeInsightIds.erase id
    orderedActiveInsightIds := c.orderedActiveInsightIds.erase id
    terminalPendingPrune := c.terminalPendingPrune.erase id
    lastKnownInsightState := c.lastKnownInsightState.erase id
    lifetimeStateCounts :=
      match c.lastKnownInsightState.lookup id with
      | some previous => decrementStateCount c.lifetimeStateCounts previous
      | none => c.lifetimeStateCounts
    insightIdToOrderIds := c.insightIdToOrderIds.erase id
    orderIdToInsightId :=
      match c.insightIdToOrderIds.lookup id with
      | some orderIds => removeRoutes c.orderIdToInsightId orderIds
      | none => c.orderIdToInsightId }

def trackedOrderIds (row : Insight) : List String :=
  if c.orderIdIndexEnabled then collectOrderIds row else []

def updateSets (state : InsightState) : InsightCollection :=
  let c :=
    { c with
      dirtyInsightIds := insert id c.dirtyInsightIds
      executionDirty :=
        if c.executionPersistenceEnabled then insert id c.executionDirty else c.executionDirty }
  if state.isInactive then
    { c with
      terminalPendingPrune := insert id c.terminalPendingPrune
      activeInsightIds := c.activeInsightIds.erase id
      orderedActiveInsightIds := c.orderedActiveInsightIds.erase id }
  else
    { c with
      terminalPendingPrune := c.terminalPendingPrune.erase id
      activeInsightIds := insert id c.activeInsightIds
      orderedActiveInsightIds := insert id c.orderedActiveInsightIds }

def refreshRuntimeTracking : InsightCollection :=
  let c := c.refreshSymbolTracking id
  match c.insights.lookup id with
  | none => c.removeTracking id
  | some row =>
    let orderIds := c.trackedOrderIds row
    ((c.updateStateTracking id row.state).indexOrderIdsForInsight id orderIds).updateSets id
      row.state

def addInsight (insight : Insight) : InsightCollection :=
  { c with
    materializedInsightIds := insert insight.insightId c.materializedInsightIds
    insights := c.insights.insert insight.insightId insight }.refreshRuntimeTracking
      insight.insightId

def takeForUpdate : Option (InsightCollection × Insight) :=
  (c.insights.lookup id).map fun row => ({ c with insights := c.insights.erase id }, row)

def restoreAfterUpdate (insight : Insight) (changed : Bool) : InsightCollection :=
  let c := { c with insights := c.insights.insert insight.insightId insight }
  if changed then c.refreshRuntimeTracking insight.insightId else c

/-- A row that is not saved yet, or that is pinned, is kept. -/
def prunable : Bool :=
  !(c.executionPersistenceEnabled &&
    (decide (id ∈ c.executionDirty) || decide (id ∈ c.executionPins)))

def pruneTerminalInsight : InsightCollection :=
  if c.prunable id then { c with insights := c.insights.erase id }.removeTracking id else c

def removeInsight : InsightCollection :=
  match c.insights.lookup id with
  | none => c
  | some _ => { c with insights := c.insights.erase id }.removeTracking id

def mutate (change : Insight → Insight) : InsightCollection :=
  match c.insights.lookup id with
  | none => c
  | some row =>
    { c with
      insights := c.insights.insert id (change row)
      executionDirty :=
        if c.executionPersistenceEnabled then insert id c.executionDirty else c.executionDirty }

def enableExecutionPersistence : InsightCollection :=
  { c with
    executionPersistenceEnabled := true
    executionDirty := c.executionDirty ∪ c.insights.keys.toFinset }

def executionPin : InsightCollection := { c with executionPins := insert id c.executionPins }

def executionUnpin : InsightCollection := { c with executionPins := c.executionPins.erase id }

def executionSaved : InsightCollection := { c with executionDirty := c.executionDirty.erase id }

def hasExecutionDirty : Bool := decide (c.executionDirty.Nonempty)

def markExecutionDirty : InsightCollection :=
  if c.executionPersistenceEnabled then { c with executionDirty := insert id c.executionDirty }
  else c

def insightIdForOrder (orderId : String) : Option Uuid := c.orderIdToInsightId.lookup orderId

def addCandidate (candidates : List Uuid) (orderId : String) : List Uuid :=
  match c.orderIdToInsightId.lookup orderId with
  | none => candidates
  | some mapped => if mapped ∈ candidates then candidates else candidates ++ [mapped]

/-- The insights that a trade event may belong to: the one it names, then
those its order and the legs of it are mapped to. -/
def candidateInsightIdsForTradeEvent (order : Order) : List Uuid :=
  let legs := order.legs.elim [] fun legs =>
    [legs.takeProfit, legs.stopLoss, legs.trailingStop].filterMap (·.bind (·.orderId))
  (order.orderId :: legs).foldl c.addCandidate ((order.insightId.bind Uuid.parseStr).toList)

/-- The collection knows the row as it is: its state, its symbol and its
orders. A caller of `restoreAfterUpdate` says no more than this when it says
that the row has not changed. -/
def tracks (row : Insight) : Prop :=
  c.lastKnownInsightState.lookup row.insightId = some row.state ∧
    c.activeSymbolById.lookup row.insightId = activeSymbol (some row) ∧
    (c.insightIdToOrderIds.lookup row.insightId).getD [] = c.trackedOrderIds row

instance (row : Insight) : Decidable (c.tracks row) := by
  unfold tracks
  infer_instance

end InsightCollection

inductive CollectionAction where
  | add (insight : Insight)
  | mutate (id : Uuid) (change : Insight → Insight)
  | refresh (id : Uuid)
  | take (id : Uuid)
  | restore (insight : Insight) (changed : Bool)
  | prune (id : Uuid)
  | remove (id : Uuid)
  | enableExecutionPersistence
  | executionPin (id : Uuid)
  | executionUnpin (id : Uuid)
  | executionSaved (id : Uuid)
  | markExecutionDirty (id : Uuid)

/-- A collection in use, with the ids of the rows that are out or that were
changed in place, and have not been restored or refreshed since. -/
structure CollectionUse where
  collection : InsightCollection := {}
  unsettled : Finset Uuid := ∅

namespace CollectionUse

variable (u : CollectionUse)

/-- The owner may do anything in any order, but it tells the truth when it
restores a row as unchanged. -/
def step : CollectionAction → Option CollectionUse
  | .add insight => some ⟨u.collection.addInsight insight, u.unsettled.erase insight.insightId⟩
  | .mutate id change => some ⟨u.collection.mutate id change, insert id u.unsettled⟩
  | .refresh id => some ⟨u.collection.refreshRuntimeTracking id, u.unsettled.erase id⟩
  | .take id => (u.collection.takeForUpdate id).map fun p => ⟨p.1, insert id u.unsettled⟩
  | .restore insight changed =>
    if changed = true ∨ u.collection.tracks insight then
      some ⟨u.collection.restoreAfterUpdate insight changed, u.unsettled.erase insight.insightId⟩
    else none
  | .prune id =>
    some ⟨u.collection.pruneTerminalInsight id,
      if u.collection.prunable id then u.unsettled.erase id else u.unsettled⟩
  | .remove id =>
    some ⟨u.collection.removeInsight id,
      if (u.collection.insights.lookup id).isSome then u.unsettled.erase id else u.unsettled⟩
  | .enableExecutionPersistence =>
    some { u with collection := u.collection.enableExecutionPersistence }
  | .executionPin id => some { u with collection := u.collection.executionPin id }
  | .executionUnpin id => some { u with collection := u.collection.executionUnpin id }
  | .executionSaved id => some { u with collection := u.collection.executionSaved id }
  | .markExecutionDirty id => some { u with collection := u.collection.markExecutionDirty id }

end CollectionUse

end AqEngine.Insights
