import AqEngine.Insights.CollectionIndexes

namespace AqEngine.Insights

open Lib Broker List Table

namespace InsightCollection

variable {c c' : InsightCollection} {id : Uuid} {orderIds : List String}

def indexed (c : InsightCollection) (id : Uuid) : List String :=
  (c.insightIdToOrderIds.lookup id).getD []

/-- Every indexed order id is mapped to an insight it is indexed for. -/
def Routed (c : InsightCollection) : Prop :=
  ∀ id o, o ∈ c.indexed id → ∃ owner, c.orderIdToInsightId.lookup o = some owner ∧
    o ∈ c.indexed owner

/-- An order id that the index gives up for one insight is indexed for no
other. -/
def Separate (c c' : InsightCollection) : Prop :=
  ∀ id o, o ∈ c.indexed id → o ∉ c'.indexed id → ∀ other, other ≠ id → o ∉ c.indexed other

/-- The order ids of `id` become `orderIds`. If they change, the routes of
the old ones are dropped, whoever they lead to. -/
structure Reroutes (c c' : InsightCollection) (id : Uuid) (orderIds : List String) : Prop where
  indexed : ∀ l, c'.indexed l = if l = id then orderIds else c.indexed l
  routes : (orderIds = c.indexed id ∧ c'.orderIdToInsightId = c.orderIdToInsightId) ∨
    ∀ o, c'.orderIdToInsightId.lookup o =
      if o ∈ orderIds then some id
      else if o ∈ c.indexed id then none else c.orderIdToInsightId.lookup o

theorem lookup_removeRoutes (routes : Table String Uuid) (orderIds : List String) (o : String) :
    (removeRoutes routes orderIds).lookup o = if o ∈ orderIds then none else routes.lookup o := by
  unfold removeRoutes
  induction orderIds generalizing routes with
  | nil => simp
  | cons first orderIds ih =>
    rw [foldl_cons, ih, lookup_erase_ite]
    by_cases ho : o = first <;> by_cases hm : o ∈ orderIds <;> simp [hm]

theorem lookup_insertRoutes (routes : Table String Uuid) (id : Uuid) (orderIds : List String)
    (o : String) :
    (insertRoutes routes id orderIds).lookup o =
      if o ∈ orderIds then some id else routes.lookup o := by
  unfold insertRoutes
  induction orderIds generalizing routes with
  | nil => simp
  | cons first orderIds ih =>
    rw [foldl_cons, ih, lookup_insert_ite]
    by_cases ho : o = first <;> by_cases hm : o ∈ orderIds <;> simp [hm]

theorem Reroutes.of_same (ht : c'.insightIdToOrderIds = c.insightIdToOrderIds)
    (hr : c'.orderIdToInsightId = c.orderIdToInsightId) (id : Uuid) :
    Reroutes c c' id (c.indexed id) where
  indexed l := by
    have hi : c'.indexed l = c.indexed l := by rw [InsightCollection.indexed, ht]; rfl
    by_cases hl : l = id
    · rw [if_pos hl, hi, hl]
    · rw [if_neg hl, hi]
  routes := .inl ⟨rfl, hr⟩

theorem mem_keys_of_indexed {o : String} (h : o ∈ c.indexed id) :
    id ∈ c.insightIdToOrderIds.keys := by
  by_contra hid
  rw [indexed, AList.lookup_eq_none.2 hid] at h
  cases h

theorem Reroutes.congr {d d' : InsightCollection} (h : Reroutes c c' id orderIds)
    (ht : d.insightIdToOrderIds = c.insightIdToOrderIds)
    (hr : d.orderIdToInsightId = c.orderIdToInsightId)
    (ht' : d'.insightIdToOrderIds = c'.insightIdToOrderIds)
    (hr' : d'.orderIdToInsightId = c'.orderIdToInsightId) : Reroutes d d' id orderIds := by
  have hi : d.indexed = c.indexed := by funext l; rw [InsightCollection.indexed, ht]; rfl
  have hi' : d'.indexed = c'.indexed := by
    funext l; rw [InsightCollection.indexed, ht']; rfl
  refine ⟨?_, ?_⟩
  · rw [hi, hi']
    exact h.indexed
  · rw [hi, hr, hr']
    exact h.routes

theorem indexOrderIdsForInsight_reroutes (hen : c.orderIdIndexEnabled = true) (id : Uuid)
    (orderIds : List String) :
    Reroutes c (c.indexOrderIdsForInsight id orderIds) id orderIds := by
  unfold indexOrderIdsForInsight
  simp only [hen, Bool.not_true, Bool.false_eq_true, if_false]
  cases hp : c.insightIdToOrderIds.lookup id with
  | some previous =>
    have hold : c.indexed id = previous := by rw [indexed, hp]; rfl
    by_cases hs : previous = orderIds
    · simp only [if_pos hs]
      subst hs
      rw [← hold]
      exact .of_same rfl rfl id
    · simp only [if_neg hs]
      refine ⟨fun l => ?_, .inr fun o => ?_⟩
      · by_cases he : orderIds = []
        · subst he
          simp only [indexed, if_true, lookup_erase_ite]
          split <;> rfl
        · simp only [indexed, if_neg he, lookup_insert_ite]
          split <;> rfl
      · rw [lookup_insertRoutes, lookup_removeRoutes, hold]
  | none =>
    have hold : c.indexed id = [] := by rw [indexed, hp]; rfl
    by_cases he : orderIds = []
    · simp only [if_pos he]
      subst he
      rw [← hold]
      exact .of_same rfl rfl id
    · simp only [if_neg he]
      refine ⟨fun l => ?_, .inr fun o => ?_⟩
      · simp only [indexed, lookup_insert_ite]
        split <;> rfl
      · rw [lookup_insertRoutes, hold]
        simp

theorem removeTracking_reroutes (h : c.Indexed) (id : Uuid) :
    Reroutes c (c.removeTracking id) id [] := by
  obtain ⟨byId, bySymbol, hs, -, -⟩ := removeSymbolTracking_spec h.buckets id
  simp only [removeTracking, hs]
  refine ⟨fun l => ?_, ?_⟩
  · simp only [indexed, lookup_erase_ite]
    split <;> rfl
  · cases hp : c.insightIdToOrderIds.lookup id with
    | some previous =>
      have hold : c.indexed id = previous := by rw [indexed, hp]; rfl
      refine .inr fun o => ?_
      rw [lookup_removeRoutes, hold]
      simp
    | none =>
      have hold : c.indexed id = [] := by rw [indexed, hp]; rfl
      exact .inl ⟨hold.symm, rfl⟩

theorem refreshRuntimeTracking_reroutes (h : c.Indexed) (he : c.orderIdIndexEnabled = true)
    (id : Uuid) :
    Reroutes c (c.refreshRuntimeTracking id) id
      ((c.insights.lookup id).elim [] collectOrderIds) := by
  obtain ⟨byId, bySymbol, hsy, hb, -⟩ := refreshSymbolTracking_spec h.buckets id
  unfold refreshRuntimeTracking
  simp only [hsy]
  cases hrow : c.insights.lookup id with
  | none =>
    have hi : Indexed { c with activeSymbolById := byId, activeBySymbol := bySymbol } :=
      ⟨h.active, h.ordered, h.terminal, hb, h.tallies⟩
    exact (removeTracking_reroutes hi id).congr rfl rfl rfl rfl
  | some row =>
    have ht : trackedOrderIds { c with activeSymbolById := byId, activeBySymbol := bySymbol }
        row = collectOrderIds row := if_pos he
    have hindex := indexOrderIdsForInsight_reroutes (c := updateStateTracking
        { c with activeSymbolById := byId, activeBySymbol := bySymbol } id row.state)
      he id (collectOrderIds row)
    obtain ⟨active, ordered, terminal, hs⟩ := updateSets_frame
      (indexOrderIdsForInsight (updateStateTracking
        { c with activeSymbolById := byId, activeBySymbol := bySymbol } id row.state) id
        (collectOrderIds row)) id row.state
    simp only [ht, hs]
    exact hindex.congr rfl rfl rfl rfl

/-- The routes stay complete exactly if no order id of another insight is
given up. -/
theorem Reroutes.routed_iff (h : Reroutes c c' id orderIds) (hroute : c.Routed) :
    c'.Routed ↔ c.Separate c' := by
  have hot : ∀ {l}, l ≠ id → c'.indexed l = c.indexed l := fun {l} hl => by
    rw [h.indexed, if_neg hl]
  have hs : c'.indexed id = orderIds := by rw [h.indexed, if_pos rfl]
  obtain ⟨hsa, hr⟩ | hr := h.routes
  · have hi : ∀ l, c'.indexed l = c.indexed l := by
      intro l
      by_cases hl : l = id
      · rw [hl, hs, hsa]
      · exact hot hl
    constructor
    · intro _ l o hb ha
      rw [hi] at ha
      exact absurd hb ha
    · intro _ l o ho
      rw [hi] at ho
      obtain ⟨owner, hro, howner⟩ := hroute l o ho
      exact ⟨owner, by rw [hr, hro], by rw [hi]; exact howner⟩
  constructor
  · intro hr' l o hb ha other hne hsh
    have hl : l = id := by
      by_contra hl
      rw [hot hl] at ha
      exact ha hb
    subst hl
    rw [hs] at ha
    -- the other insight still carries `o`, but the route of `o` is gone
    obtain ⟨owner, hro, -⟩ := hr' other o (by rw [hot hne]; exact hsh)
    rw [hr, if_neg ha, if_pos hb] at hro
    cases hro
  · intro hu l o ho
    by_cases hn : o ∈ orderIds
    · exact ⟨id, by rw [hr, if_pos hn], by rw [hs]; exact hn⟩
    have hl : l ≠ id := by
      rintro rfl
      rw [hs] at ho
      exact hn ho
    rw [hot hl] at ho
    have hold : o ∉ c.indexed id := fun hold => hu id o hold (by rw [hs]; exact hn) l hl ho
    obtain ⟨owner, hro, howner⟩ := hroute l o ho
    have hne : owner ≠ id := fun heq => hold (heq ▸ howner)
    refine ⟨owner, by rw [hr, if_neg hn, if_neg hold, hro], ?_⟩
    rw [hot hne]
    exact howner

/-- Each order of an insight that is present leads to an insight that is
present and has the order, also from a trade event of that order. -/
def RoutesOrders (c : InsightCollection) : Prop :=
  ∀ id row o, c.insights.lookup id = some row → o ∈ collectOrderIds row →
    ∃ owner ownerRow, c.insightIdForOrder o = some owner ∧
      c.insights.lookup owner = some ownerRow ∧ o ∈ collectOrderIds ownerRow ∧
      ∀ event : Order, event.orderId = o → owner ∈ c.candidateInsightIdsForTradeEvent event

theorem mem_addCandidate {candidates : List Uuid} (o : String) (h : id ∈ candidates) :
    id ∈ c.addCandidate candidates o := by
  unfold addCandidate
  split
  · exact h
  split
  · exact h
  · exact mem_append_left _ h

theorem mem_foldl_addCandidate {candidates : List Uuid} (orders : List String)
    (h : id ∈ candidates) : id ∈ orders.foldl c.addCandidate candidates := by
  induction orders generalizing candidates with
  | nil => exact h
  | cons o orders ih => exact ih (mem_addCandidate o h)

theorem mem_candidates {o : String} {event : Order} (h : c.orderIdToInsightId.lookup o = some id)
    (hevent : event.orderId = o) : id ∈ c.candidateInsightIdsForTradeEvent event := by
  unfold candidateInsightIdsForTradeEvent
  rw [foldl_cons]
  apply mem_foldl_addCandidate
  subst hevent
  simp only [addCandidate, h]
  split
  case isTrue hm => exact hm
  case isFalse => exact mem_append_right _ (mem_singleton.2 rfl)

end InsightCollection

namespace CollectionUse

open InsightCollection

variable {u u' : CollectionUse} {a : CollectionAction}

/-- The order ids that are indexed for a settled insight are its own. -/
structure TracksOrders (u : CollectionUse) : Prop where
  enabled : u.collection.orderIdIndexEnabled = true
  orders : ∀ id, id ∉ u.unsettled →
    u.collection.indexed id = (u.collection.insights.lookup id).elim [] collectOrderIds

theorem TracksOrders.of_reroutes (h : u.TracksOrders) {c : InsightCollection} {id : Uuid}
    (hr : Reroutes u.collection c id ((c.insights.lookup id).elim [] collectOrderIds))
    (he : c.orderIdIndexEnabled = u.collection.orderIdIndexEnabled)
    (ho : ∀ l, l ≠ id → c.insights.lookup l = u.collection.insights.lookup l) :
    TracksOrders ⟨c, u.unsettled.erase id⟩ where
  enabled := he.trans h.enabled
  orders l hl := by
    rw [hr.indexed l]
    by_cases hid : l = id
    · rw [if_pos hid, hid]
    rw [if_neg hid, ho l hid]
    exact h.orders l fun hm => hl (Finset.mem_erase.2 ⟨hid, hm⟩)

/-- An order id of an insight that the row it is left with does not carry is
indexed for no other insight. -/
def Unshared (u u' : CollectionUse) : Prop :=
  ∀ id o, id ∉ u'.unsettled → o ∈ u.collection.indexed id →
    o ∉ (u'.collection.insights.lookup id).elim [] collectOrderIds →
    ∀ other, other ≠ id → o ∉ u.collection.indexed other

/-- What one step does to the routes, with the row of the touched insight. -/
structure StepsOrders (u u' : CollectionUse) : Prop where
  reroutes : ∃ id orderIds, Reroutes u.collection u'.collection id orderIds ∧
    (id ∈ u'.unsettled → orderIds = u.collection.indexed id)
  tracks : u'.TracksOrders

theorem StepsOrders.routed_iff (h : StepsOrders u u') (hr : u.collection.Routed) :
    u'.collection.Routed ↔ u.Unshared u' := by
  obtain ⟨touched, orderIds, hre, hsettled⟩ := h.reroutes
  rw [hre.routed_iff hr]
  constructor
  · intro hs id o hid ho hrow
    exact hs id o ho (by rwa [h.tracks.orders id hid])
  · intro hs id o ho hno
    -- only the touched insight gives up an order id, and only when it is settled
    have hid : id ∉ u'.unsettled := by
      intro hid
      rw [hre.indexed] at hno
      split at hno
      · next heq => exact hno (hsettled (heq ▸ hid) ▸ heq ▸ ho)
      · exact hno ho
    exact hs id o hid ho (by rwa [← h.tracks.orders id hid])

theorem Steps.orders (hstep : Steps u u') (hs : u.Sound) (h : u.TracksOrders) :
    StepsOrders u u' := by
  cases hstep with
  | refreshed c id hc hot =>
    have hi := hc.indexed hs.indexed
    obtain ⟨-, hk, -⟩ := refreshRuntimeTracking_spec hi id
    obtain ⟨_, _, _, _, _, rfl⟩ := hc
    have hr := (refreshRuntimeTracking_reroutes hi h.enabled id).congr
      (d := u.collection) rfl rfl rfl rfl
    rw [← hk.insights] at hr
    refine ⟨⟨id, _, hr, fun hid => absurd rfl (Finset.mem_erase.1 hid).1⟩,
      h.of_reroutes hr hk.orderIdIndexEnabled fun l hl => ?_⟩
    rw [hk.insights]
    exact hot l hl
  | erased id =>
    have hc : Relisted u.collection
      { u.collection with insights := u.collection.insights.erase id } := ⟨_, _, _, _, _, rfl⟩
    have hi := hc.indexed hs.indexed
    obtain ⟨-, hk, -⟩ := removeTracking_spec hi id
    have hr := (removeTracking_reroutes hi id).congr (d := u.collection) rfl rfl rfl rfl
    refine ⟨⟨id, _, hr, fun hid => absurd rfl (Finset.mem_erase.1 hid).1⟩,
      h.of_reroutes ?_ hk.orderIdIndexEnabled fun l hl => ?_⟩
    · rw [hk.insights, AList.lookup_erase]
      exact hr
    · rw [hk.insights]
      exact AList.lookup_erase_ne hl
  | kept c _ hc hro =>
    obtain ⟨_, _, _, _, _, rfl⟩ := hc
    refine ⟨⟨default, _, .of_same (by rfl) (by rfl) default, fun _ => rfl⟩, h.enabled,
      fun l hl => ?_⟩
    obtain ⟨hse, hrow⟩ | ⟨row, rfl, hrow, -, -, ho⟩ := hro l hl
    · rw [hrow]
      exact h.orders l hse
    · rw [hrow]
      exact ho.trans (if_pos h.enabled)

theorem TracksOrders.routesOrders (h : u.TracksOrders) (hro : u.collection.Routed)
    (hs : u.unsettled = ∅) : u.collection.RoutesOrders := by
  have hor : ∀ id, u.collection.indexed id =
      (u.collection.insights.lookup id).elim [] collectOrderIds := by
    intro id
    apply h.orders id
    rw [hs]
    exact Finset.notMem_empty id
  intro id row o hrow ho
  obtain ⟨owner, hr, howner⟩ := hro id o (by rw [hor, hrow]; exact ho)
  rw [hor] at howner
  cases how : u.collection.insights.lookup owner with
  | none =>
    rw [how] at howner
    cases howner
  | some ownerRow =>
    rw [how] at howner
    exact ⟨owner, ownerRow, hr, how, howner, fun _ => mem_candidates hr⟩

/-- If no step takes an order id from one insight that is also indexed for
another, every order of a refreshed insight has its route. The first step
that does so leaves an insight without one. -/
theorem order_routes {actions : List CollectionAction} (h : runs step {} actions = some u) :
    ((∀ before a after t t', actions = before ++ a :: after → runs step {} before = some t →
        t.step a = some t' → t.Unshared t') →
      u.unsettled = ∅ → u.collection.RoutesOrders) ∧
    (u.collection.Routed → ∀ a u', u.step a = some u' →
      (u'.collection.Routed ↔ u.Unshared u')) := by
  have htr : u.Sound ∧ u.TracksOrders := by
    refine runs_invariant (P := fun t => t.Sound ∧ t.TracksOrders) (fun t a t' ht hstep => ?_)
      ⟨sound_new true, ⟨rfl, fun _ _ => rfl⟩⟩ h
    exact ⟨(steps_of_step hstep).sound ht.1, ((steps_of_step hstep).orders ht.1 ht.2).tracks⟩
  constructor
  · intro hun hse
    have hro : (u.Sound ∧ u.TracksOrders) ∧ u.collection.Routed := by
      refine runs_invariant_of (P := fun t => (t.Sound ∧ t.TracksOrders) ∧ t.collection.Routed)
        (fun t a t' ht (hok : ∀ t', t.step a = some t' → t.Unshared t') hstep => ?_)
        ⟨⟨sound_new true, ⟨rfl, fun _ _ => rfl⟩⟩, ?_⟩ ?_ h
      · have hor := (steps_of_step hstep).orders ht.1.1 ht.1.2
        exact ⟨⟨(steps_of_step hstep).sound ht.1.1, hor.tracks⟩,
          (hor.routed_iff ht.2).2 (hok t' hstep)⟩
      · rintro id o ⟨⟩
      · exact fun before a after t hac ht t' => hun before a after t t' hac ht
    exact htr.2.routesOrders hro.2 hse
  · intro hro a u' hstep
    exact ((steps_of_step hstep).orders htr.1 htr.2).routed_iff hro

theorem order_routes_of_replacement : ∃ u : CollectionUse,
    runs step {} [.add sampleInsight,
      .mutate sampleInsight.insightId (fun row => { row with orderId := some "2" }),
      .refresh sampleInsight.insightId] = some u ∧
    u.collection.insightIdForOrder "1" = none ∧
    u.collection.insightIdForOrder "2" = some sampleInsight.insightId ∧
    u.collection.RoutesOrders := by
  refine ⟨?u, ?run, ?_, ?_, (order_routes ?run).1 ?single ?_⟩
  case run => rfl
  case single =>
    intro before a after t t' hac ht _ id o _ ho _ other hne hot
    have hpr : before ∈ List.inits [.add sampleInsight,
        .mutate sampleInsight.insightId (fun row => { row with orderId := some "2" }),
        .refresh sampleInsight.insightId] := (mem_inits _ _).2 ⟨a :: after, hac.symm⟩
    simp only [List.inits, map_cons, map_nil, mem_cons, not_mem_nil,
      or_false] at hpr
    -- nothing is ever indexed for another insight
    have hke : ∀ l ∈ t.collection.insightIdToOrderIds.keys, l = sampleInsight.insightId := by
      obtain rfl | rfl | rfl | rfl := hpr <;> cases ht <;> decide
    exact hne ((hke other (mem_keys_of_indexed hot)).trans
      (hke id (mem_keys_of_indexed ho)).symm)
  all_goals decide

/-- Two insights have one order. When the first of them leaves, the second
can no longer be found by it. -/
theorem shared_order_loses_route : ∃ u : CollectionUse,
    runs step {} [.add sampleInsight, .add sampleSibling, .remove sampleInsight.insightId] =
      some u ∧
    u.unsettled = ∅ ∧ u.collection.insights.lookup sampleSibling.insightId = some sampleSibling ∧
    "1" ∈ collectOrderIds sampleSibling ∧ u.collection.insightIdForOrder "1" = none ∧
    ∀ event : Order, event.orderId = "1" → event.insightId = none → event.legs = none →
      u.collection.candidateInsightIdsForTradeEvent event = [] := by
  refine ⟨_, rfl, by decide, by decide, by decide, by decide, ?_⟩
  intro event hor hin hlegs
  rw [candidateInsightIdsForTradeEvent, hor, hin, hlegs]
  decide

end CollectionUse

end AqEngine.Insights
