import AqEngine.Insights.Collection

namespace AqEngine.Insights

open Lib AList Table

namespace InsightCollection

/-- The indexes agree with each other: all of them follow from the state and
the symbol that each row had when it was refreshed last. -/
structure Indexed (c : InsightCollection) : Prop where
  active : ∀ id, id ∈ c.activeInsightIds ↔
    ∃ s, c.lastKnownInsightState.lookup id = some s ∧ s.isInactive = false
  ordered : c.orderedActiveInsightIds = c.activeInsightIds
  terminal : ∀ id, id ∈ c.terminalPendingPrune ↔
    ∃ s, c.lastKnownInsightState.lookup id = some s ∧ s.isInactive = true
  buckets : c.activeSymbolById.Buckets c.activeBySymbol
  tallies : c.lastKnownInsightState.Tallies c.lifetimeStateCounts

/-- The indexes know the row of `id`, or its absence, as it is. -/
structure Current (c : InsightCollection) (id : Uuid) : Prop where
  state : c.lastKnownInsightState.lookup id = (c.insights.lookup id).map (·.state)
  symbol : c.activeSymbolById.lookup id = activeSymbol (c.insights.lookup id)

variable {c : InsightCollection} {id : Uuid}

theorem removeSymbolTracking_spec (h : c.activeSymbolById.Buckets c.activeBySymbol) (id : Uuid) :
    ∃ byId bySymbol, c.removeSymbolTracking id =
        { c with activeSymbolById := byId, activeBySymbol := bySymbol } ∧
      byId.Buckets bySymbol ∧
      ∀ l, byId.lookup l = if l = id then none else c.activeSymbolById.lookup l := by
  unfold removeSymbolTracking
  cases hid : c.activeSymbolById.lookup id with
  | none =>
    refine ⟨_, _, rfl, h, fun l => ?_⟩
    by_cases hl : l = id
    · rw [if_pos hl, hl, hid]
    · rw [if_neg hl]
  | some => exact ⟨_, _, rfl, h.erase hid, lookup_erase_ite c.activeSymbolById id⟩

theorem refreshSymbolTracking_spec (h : c.activeSymbolById.Buckets c.activeBySymbol) (id : Uuid) :
    ∃ byId bySymbol, c.refreshSymbolTracking id =
        { c with activeSymbolById := byId, activeBySymbol := bySymbol } ∧
      byId.Buckets bySymbol ∧
      ∀ l, byId.lookup l =
        if l = id then activeSymbol (c.insights.lookup id) else c.activeSymbolById.lookup l := by
  unfold refreshSymbolTracking
  by_cases hs : activeSymbol (c.insights.lookup id) = c.activeSymbolById.lookup id
  · rw [if_pos hs]
    refine ⟨_, _, rfl, h, fun l => ?_⟩
    by_cases hl : l = id
    · rw [if_pos hl, hs, hl]
    · rw [if_neg hl]
  · rw [if_neg hs]
    obtain ⟨byId, bySymbol, hr, hb, hlo⟩ := removeSymbolTracking_spec h id
    simp only [hr]
    cases hsy : activeSymbol (c.insights.lookup id) with
    | none => exact ⟨_, _, rfl, hb, hlo⟩
    | some =>
      have hn : byId.lookup id = none := by rw [hlo, if_pos rfl]
      refine ⟨_, _, rfl, hb.add hn, fun l => ?_⟩
      rw [lookup_insert_ite, hlo]
      by_cases hl : l = id
      · rw [if_pos hl, if_pos hl]
      · rw [if_neg hl, if_neg hl, if_neg hl]

theorem updateStateTracking_tallies
    (h : c.lastKnownInsightState.Tallies c.lifetimeStateCounts) (id : Uuid) (state : InsightState) :
    Table.Tallies (c.updateStateTracking id state).lastKnownInsightState
      (c.updateStateTracking id state).lifetimeStateCounts := by
  unfold updateStateTracking
  cases hid : c.lastKnownInsightState.lookup id with
  | none => exact h.insert_new hid
  | some previous =>
    by_cases hs : previous = state
    · subst hs
      simp only [ne_eq]
      exact h.same hid
    simp only [ne_eq, hs]
    exact h.replace hid

theorem indexOrderIdsForInsight_frame (c : InsightCollection) (id : Uuid)
    (orderIds : List String) : ∃ routes tracked, c.indexOrderIdsForInsight id orderIds =
      { c with orderIdToInsightId := routes, insightIdToOrderIds := tracked } := by
  unfold indexOrderIdsForInsight
  repeat' split
  all_goals exact ⟨_, _, rfl⟩

/-- What a refresh of `id` leaves of the collection: only the indexes and the
sets of changed rows are written. -/
structure Kept (c c' : InsightCollection) : Prop where
  insights : c'.insights = c.insights
  orderIdIndexEnabled : c'.orderIdIndexEnabled = c.orderIdIndexEnabled
  materializedInsightIds : c'.materializedInsightIds = c.materializedInsightIds
  executionPersistenceEnabled : c'.executionPersistenceEnabled = c.executionPersistenceEnabled
  executionPins : c'.executionPins = c.executionPins

structure Tracks (c c' : InsightCollection) (id : Uuid) (state : Option InsightState)
    (symbol : Option String) : Prop where
  indexed : c'.Indexed
  state : ∀ l, c'.lastKnownInsightState.lookup l =
    if l = id then state else c.lastKnownInsightState.lookup l
  symbol : ∀ l, c'.activeSymbolById.lookup l =
    if l = id then symbol else c.activeSymbolById.lookup l

theorem removeTracking_tallies (h : c.Indexed) (id : Uuid) :
    Table.Tallies (c.removeTracking id).lastKnownInsightState
      (c.removeTracking id).lifetimeStateCounts := by
  obtain ⟨byId, bySymbol, hs, -, -⟩ := removeSymbolTracking_spec h.buckets id
  simp only [removeTracking, hs]
  cases hid : c.lastKnownInsightState.lookup id with
  | some => exact h.tallies.erase hid
  | none =>
    refine h.tallies.congr fun l => ?_
    rw [lookup_erase_ite]
    by_cases hl : l = id
    · rw [if_pos hl, hl, hid]
    · rw [if_neg hl]

theorem removeTracking_spec (h : c.Indexed) (id : Uuid) :
    Tracks c (c.removeTracking id) id none none ∧ Kept c (c.removeTracking id) ∧
      (c.removeTracking id).executionDirty = c.executionDirty := by
  have ht := removeTracking_tallies h id
  obtain ⟨byId, bySymbol, hsy, hb, hlo⟩ := removeSymbolTracking_spec h.buckets id
  simp only [removeTracking, hsy] at ht ⊢
  have hs := lookup_erase_ite c.lastKnownInsightState id
  refine ⟨⟨⟨fun l => ?_, by rw [h.ordered], fun l => ?_, hb, ht⟩, hs, hlo⟩,
    ⟨rfl, rfl, rfl, rfl, rfl⟩, trivial⟩
  · rw [Finset.mem_erase, h.active l, hs l]
    by_cases hl : l = id <;> simp [hl]
  · rw [Finset.mem_erase, h.terminal l, hs l]
    by_cases hl : l = id <;> simp [hl]

theorem updateSets_spec {state : InsightState} {before : Table Uuid InsightState}
    (hs : ∀ l, c.lastKnownInsightState.lookup l = if l = id then some state else before.lookup l)
    (ha : ∀ l, l ∈ c.activeInsightIds ↔ ∃ s, before.lookup l = some s ∧ s.isInactive = false)
    (ho : c.orderedActiveInsightIds = c.activeInsightIds)
    (hte : ∀ l, l ∈ c.terminalPendingPrune ↔ ∃ s, before.lookup l = some s ∧ s.isInactive = true)
    (hb : c.activeSymbolById.Buckets c.activeBySymbol)
    (ht : c.lastKnownInsightState.Tallies c.lifetimeStateCounts) :
    (c.updateSets id state).Indexed := by
  unfold updateSets
  cases hi : state.isInactive with
  | true =>
    refine ⟨fun l => ?_, by simp [ho], fun l => ?_, hb, ht⟩
    · simp only [if_true, Finset.mem_erase, ha l, hs l]
      by_cases hl : l = id <;> simp [hl, hi]
    · simp only [if_true, Finset.mem_insert, hte l, hs l]
      by_cases hl : l = id <;> simp [hl, hi]
  | false =>
    refine ⟨fun l => ?_, by simp [ho], fun l => ?_, hb, ht⟩
    · simp only [Bool.false_eq_true, if_false, Finset.mem_insert, ha l, hs l]
      by_cases hl : l = id <;> simp [hl, hi]
    · simp only [Bool.false_eq_true, if_false, Finset.mem_erase, hte l, hs l]
      by_cases hl : l = id <;> simp [hl, hi]

theorem updateSets_frame (c : InsightCollection) (id : Uuid) (state : InsightState) :
    ∃ active ordered terminal, c.updateSets id state =
      { c with
        dirtyInsightIds := insert id c.dirtyInsightIds
        executionDirty :=
          if c.executionPersistenceEnabled then insert id c.executionDirty else c.executionDirty
        activeInsightIds := active
        orderedActiveInsightIds := ordered
        terminalPendingPrune := terminal } := by
  unfold updateSets
  cases state.isInactive <;> exact ⟨_, _, _, rfl⟩

theorem refreshRuntimeTracking_spec (h : c.Indexed) (id : Uuid) :
    Tracks c (c.refreshRuntimeTracking id) id ((c.insights.lookup id).map (·.state))
      (activeSymbol (c.insights.lookup id)) ∧
    Kept c (c.refreshRuntimeTracking id) ∧
    (c.refreshRuntimeTracking id).executionDirty =
      (if c.executionPersistenceEnabled ∧ (c.insights.lookup id).isSome then
        insert id c.executionDirty else c.executionDirty) := by
  obtain ⟨byId, bySymbol, hsy, hb, hlo⟩ := refreshSymbolTracking_spec h.buckets id
  unfold refreshRuntimeTracking
  simp only [hsy]
  cases hrow : c.insights.lookup id with
  | none =>
    have hi : Indexed { c with activeSymbolById := byId, activeBySymbol := bySymbol } :=
      ⟨h.active, h.ordered, h.terminal, hb, h.tallies⟩
    obtain ⟨ht, hk, hdi⟩ := removeTracking_spec hi id
    refine ⟨⟨ht.indexed, ht.state, fun l => ?_⟩, { hk with }, ?_⟩
    · rw [ht.symbol l, hlo l]
      by_cases hl : l = id <;> simp [hl, activeSymbol]
    · rw [hdi]
      simp
  | some row =>
    simp only
    have hta := updateStateTracking_tallies
      (c := { c with activeSymbolById := byId, activeBySymbol := bySymbol }) h.tallies id row.state
    obtain ⟨routes, tracked, hr⟩ := indexOrderIdsForInsight_frame
      (updateStateTracking
        { c with activeSymbolById := byId, activeBySymbol := bySymbol } id row.state)
      id (trackedOrderIds { c with activeSymbolById := byId, activeBySymbol := bySymbol } row)
    rw [hr]
    have hs := fun l => lookup_insert_ite c.lastKnownInsightState id l row.state
    generalize hd : ({ updateStateTracking
        { c with activeSymbolById := byId, activeBySymbol := bySymbol } id row.state with
        orderIdToInsightId := routes, insightIdToOrderIds := tracked } : InsightCollection) = d
    have hi : (d.updateSets id row.state).Indexed := by
      subst hd
      exact updateSets_spec hs h.active h.ordered h.terminal hb hta
    obtain ⟨active, ordered, terminal, hse⟩ := updateSets_frame d id row.state
    rw [hse] at hi ⊢
    subst hd
    refine ⟨⟨hi, hs, fun l => ?_⟩, ⟨rfl, rfl, rfl, rfl, rfl⟩, ?_⟩
    · rw [← hrow]
      exact hlo l
    · simp [updateStateTracking]

/-- What the claims of the indexes come to when every row is refreshed. -/
structure Represents (c : InsightCollection) : Prop where
  active : ∀ id, id ∈ c.activeInsightIds ↔
    ∃ row, c.insights.lookup id = some row ∧ row.state.isInactive = false
  ordered : c.orderedActiveInsightIds = c.activeInsightIds
  terminal : ∀ id, id ∈ c.terminalPendingPrune ↔
    ∃ row, c.insights.lookup id = some row ∧ row.state.isInactive = true
  symbol : ∀ id symbol, c.activeSymbolById.lookup id = some symbol ↔
    ∃ row, c.insights.lookup id = some row ∧ row.state.isInactive = false ∧ row.symbol = symbol
  bucket : ∀ id symbol, c.activeSymbolById.lookup id = some symbol ↔
    ∃ ids, c.activeBySymbol.lookup symbol = some ids ∧ id ∈ ids
  nonempty : ∀ symbol ids, c.activeBySymbol.lookup symbol = some ids → ids ≠ ∅
  known : ∀ id, c.lastKnownInsightState.lookup id = (c.insights.lookup id).map (·.state)
  count : ∀ state n, c.lifetimeStateCounts.lookup state = some n ↔
    n ≠ 0 ∧ n = (c.insights.keys.toFinset.filter
      fun id => c.lastKnownInsightState.lookup id = some state).card

end InsightCollection

namespace CollectionUse

open InsightCollection

variable {u u' : CollectionUse} {a : CollectionAction}

/-- The indexes agree with each other at any time, and with every row that
is neither out nor changed since its last refresh. -/
structure Sound (u : CollectionUse) : Prop where
  indexed : u.collection.Indexed
  current : ∀ id, id ∉ u.unsettled → u.collection.Current id

/-- Only rows and what concerns their saving differ; no index is touched. -/
def Relisted (c c' : InsightCollection) : Prop :=
  ∃ rows materialized enabled dirty pins, c' =
    { c with
      insights := rows
      materializedInsightIds := materialized
      executionPersistenceEnabled := enabled
      executionDirty := dirty
      executionPins := pins }

/-- What one step comes to: the refresh or the removal of one id, or no change
of the indexes, where a row that counts as settled is as it was or known as
it is. -/
inductive Steps (u : CollectionUse) : CollectionUse → Prop
  | refreshed (c : InsightCollection) (id : Uuid) (listed : Relisted u.collection c)
      (other : ∀ l, l ≠ id → c.insights.lookup l = u.collection.insights.lookup l) :
    Steps u ⟨c.refreshRuntimeTracking id, u.unsettled.erase id⟩
  | erased (id : Uuid) :
    Steps u ⟨removeTracking { u.collection with insights := u.collection.insights.erase id } id,
      u.unsettled.erase id⟩
  | kept (c : InsightCollection) (unsettled : Finset Uuid) (listed : Relisted u.collection c)
      (rows : ∀ l, l ∉ unsettled →
        (l ∉ u.unsettled ∧ c.insights.lookup l = u.collection.insights.lookup l) ∨
          ∃ row, row.insightId = l ∧ c.insights.lookup l = some row ∧ u.collection.tracks row) :
    Steps u ⟨c, unsettled⟩

theorem steps_of_step (hstep : u.step a = some u') : Steps u u' := by
  have hs : ∀ {c}, Relisted u.collection c → c.insights = u.collection.insights →
      Steps u { u with collection := c } :=
    fun hc hr => .kept _ _ hc fun l hl => .inl ⟨hl, by rw [hr]⟩
  have hse : Relisted u.collection u.collection := ⟨_, _, _, _, _, rfl⟩
  cases a with
  | add insight =>
    cases hstep
    exact .refreshed _ _ ⟨_, _, _, _, _, rfl⟩ fun l hl => lookup_insert_ne hl
  | mutate id =>
    cases hstep
    unfold InsightCollection.mutate
    cases u.collection.insights.lookup id with
    | none => exact .kept _ _ hse fun l hl => .inl ⟨fun hm => hl (Finset.mem_insert_of_mem hm), rfl⟩
    | some row =>
      refine .kept _ _ ⟨_, _, _, _, _, rfl⟩ fun l hl => .inl ?_
      obtain ⟨hne, hm⟩ := not_or.1 (Finset.mem_insert.not.1 hl)
      exact ⟨hm, lookup_insert_ne hne⟩
  | refresh id =>
    cases hstep
    exact .refreshed _ _ hse fun _ _ => rfl
  | take id =>
    obtain ⟨⟨c, row⟩, hta, rfl⟩ := Option.map_eq_some_iff.1 hstep
    obtain ⟨taken, -, heq⟩ := Option.map_eq_some_iff.1 hta
    cases heq
    refine .kept _ _ ⟨_, _, _, _, _, rfl⟩ fun l hl => .inl ?_
    obtain ⟨hne, hm⟩ := not_or.1 (Finset.mem_insert.not.1 hl)
    exact ⟨hm, lookup_erase_ne hne⟩
  | restore insight changed =>
    rw [step] at hstep
    split at hstep
    case isFalse => cases hstep
    case isTrue ht =>
      cases hstep
      cases changed with
      | true => exact .refreshed _ _ ⟨_, _, _, _, _, rfl⟩ fun l hl => lookup_insert_ne hl
      | false =>
        obtain ht | htr := ht
        · cases ht
        refine .kept _ _ ⟨_, _, _, _, _, rfl⟩ fun l hl => ?_
        by_cases hid : l = insight.insightId
        · exact .inr ⟨insight, hid.symm, by rw [hid]; exact lookup_insert _, htr⟩
        · exact .inl ⟨fun hm => hl (Finset.mem_erase.2 ⟨hid, hm⟩), lookup_insert_ne hid⟩
  | prune id =>
    cases hstep
    unfold pruneTerminalInsight
    cases u.collection.prunable id with
    | true => exact .erased id
    | false => exact hs hse rfl
  | remove id =>
    cases hstep
    unfold removeInsight
    cases u.collection.insights.lookup id with
    | none => exact hs hse rfl
    | some row => exact .erased id
  | markExecutionDirty id =>
    cases hstep
    unfold markExecutionDirty
    split
    · exact hs ⟨_, _, _, _, _, rfl⟩ rfl
    · exact hs hse rfl
  | enableExecutionPersistence | executionPin id | executionUnpin id | executionSaved id =>
    cases hstep
    exact hs ⟨_, _, _, _, _, rfl⟩ rfl

theorem Relisted.indexed {c c' : InsightCollection} (h : Relisted c c') (hc : c.Indexed) :
    c'.Indexed := by
  obtain ⟨_, _, _, _, _, rfl⟩ := h
  exact { hc with }

/-- After a refresh or removal of `id`, the indexes know what is stored
under `id`; the other rows and what is known of them are as before. -/
theorem Sound.of_tracks (h : u.Sound) {c c' : InsightCollection} {id : Uuid}
    (hc : Relisted u.collection c)
    (ho : ∀ l, l ≠ id → c.insights.lookup l = u.collection.insights.lookup l)
    (ht : Tracks c c' id ((c.insights.lookup id).map (·.state))
      (activeSymbol (c.insights.lookup id)))
    (hk : c'.insights = c.insights) : Sound ⟨c', u.unsettled.erase id⟩ where
  indexed := ht.indexed
  current l hl := by
    obtain ⟨_, _, _, _, _, rfl⟩ := hc
    by_cases hid : l = id
    · subst hid
      exact ⟨by rw [ht.state, if_pos rfl, hk], by rw [ht.symbol, if_pos rfl, hk]⟩
    have hcu := h.current l fun hm => hl (Finset.mem_erase.2 ⟨hid, hm⟩)
    constructor
    · rw [ht.state, if_neg hid, hk, ho l hid]
      exact hcu.state
    · rw [ht.symbol, if_neg hid, hk, ho l hid]
      exact hcu.symbol

theorem Steps.sound (hstep : Steps u u') (h : u.Sound) : u'.Sound := by
  cases hstep with
  | refreshed c id hc ho =>
    obtain ⟨ht, hk, -⟩ := refreshRuntimeTracking_spec (hc.indexed h.indexed) id
    exact h.of_tracks hc ho ht hk.insights
  | erased id =>
    have hc : Relisted u.collection
      { u.collection with insights := u.collection.insights.erase id } := ⟨_, _, _, _, _, rfl⟩
    obtain ⟨ht, hk, -⟩ := removeTracking_spec (hc.indexed h.indexed) id
    refine h.of_tracks hc (fun l hl => lookup_erase_ne hl) ?_ hk.insights
    rw [lookup_erase]
    exact ht
  | kept c _ hc hr =>
    refine ⟨hc.indexed h.indexed, fun l hl => ?_⟩
    obtain ⟨_, _, _, _, _, rfl⟩ := hc
    obtain ⟨hs, hrow⟩ | ⟨row, rfl, hrow, hst, hsy, -⟩ := hr l hl
    · have hcu := h.current l hs
      exact ⟨by rw [hrow]; exact hcu.state, by rw [hrow]; exact hcu.symbol⟩
    · exact ⟨by rw [hrow]; exact hst, by rw [hrow]; exact hsy⟩

theorem sound_new (enabled : Bool) : Sound { collection.orderIdIndexEnabled := enabled } where
  indexed := ⟨by simp, rfl, by simp, Table.Buckets.empty, Table.Tallies.empty⟩
  current _ _ := ⟨rfl, rfl⟩

def sampleInsight : Insight := { insightId := default, symbol := "X", orderId := some "1" }

def sampleSibling : Insight :=
  { insightId := ⟨List.replicate 16 1, rfl⟩, symbol := "X", orderId := some "1" }

end CollectionUse

end AqEngine.Insights
