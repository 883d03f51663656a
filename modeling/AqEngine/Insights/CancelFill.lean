import AqEngine.Insights.Lifecycle
import Mathlib.Data.List.TakeWhile
import Mathlib.Data.List.Induction

namespace AqEngine.Insights

open Lib Broker Insight List

variable (round : Asset → F64 → F64)

def isCancel (e : Evidence) : Bool := e.event == .cancelled || e.event == .expired

/-- An insight whose entry order is working and has no execution on record. -/
structure WorkingEntry (i : Insight) (ticket : String) : Prop where
  state : i.state = .new ∨ i.state = .executed
  unfilled : i.entryFilledQuantity = none
  orderId : i.orderId = none ∨ i.orderId = some ticket

/-- Stream evidence about the entry order: a cumulative snapshot of at most
`q` at a usable price, or the end of the order, whatever quantity it
carries. -/
structure EntryEvidence (i : Insight) (ticket : String) (q : ℚ) (e : Evidence) : Prop where
  source : e.source = .tradeStream
  nonempty : ticket ≠ ""
  orderId : e.order.orderId = ticket
  symbol : e.order.asset.symbol = i.symbol
  side : e.order.side = i.side
  belongs : e.order.insightId = some i.insightId.toString ∨ i.orderId = some ticket
  event : isCancel e = true ∨
    e.event = .partialFilled ∧ validFill round e.order = true ∧
      ∃ m, e.order.filledQty = .finite m ∧ m ≤ q

/-- The insight `j` while its entry order is still working, after snapshots
of which the largest is `recorded`. -/
structure Tracking (i : Insight) (ticket : String) (recorded : Option ℚ) (j : Insight) :
    Prop where
  insightId : j.insightId = i.insightId
  symbol : j.symbol = i.symbol
  side : j.side = i.side
  state : j.state = .new ∨ j.state = .executed
  orderId : j.orderId = i.orderId ∨ j.orderId = some ticket
  quantity : j.entryFilledQuantity = recorded.map .finite
  positive : ∀ m ∈ recorded, 0 < m
  price : recorded.isSome = true → ∃ p, j.filledPrice = some p ∧ p.isPositive = true

variable {i j : Insight} {ticket : String} {q : ℚ} {recorded : Option ℚ} {e : Evidence}

theorem Tracking.start (h : WorkingEntry i ticket) : Tracking i ticket none i where
  insightId := rfl
  symbol := rfl
  side := rfl
  state := h.state
  orderId := .inl rfl
  quantity := h.unfilled
  positive := by simp
  price := by simp

theorem attributed_of_entry (hj : j.insightId = i.insightId) (hs : j.symbol = i.symbol)
    (hid : j.orderId = i.orderId ∨ j.orderId = some ticket)
    (he : EntryEvidence round i ticket q e) :
    attributed j e.order e.source = true := by
  have hm : tradeEventMatchesInsight j e.order = true := by
    obtain hb | hb := he.belongs
    · simp [tradeEventMatchesInsight, hb, hj]
    have : j.orderId = some e.order.orderId := by
      rw [he.orderId]
      obtain h | h := hid
      · rw [h, hb]
      · exact h
    simp [tradeEventMatchesInsight, this]
  simp [attributed, hm, hs, he.symbol, he.orderId, he.nonempty]

theorem entryOrder_of_tracking (hw : WorkingEntry i ticket)
    (ht : Tracking i ticket recorded j) (he : EntryEvidence round i ticket q e) :
    entryOrder j e.order = true := by
  have hid : j.orderId = none ∨ j.orderId = some ticket := by
    obtain h | h := ht.orderId
    · rw [h]
      exact hw.orderId
    · exact .inr h
  obtain h | h := hid <;> simp [entryOrder, h, he.orderId]

theorem accountingUpdate_open (t : Clock) (order : Order) (event : TradeUpdateEvent)
    (source : OrderEvidenceSource) (hs : j.state ≠ .closed) :
    accountingUpdate t j order event source = none := by
  simp [accountingUpdate, hs]

theorem deliver_stream (ha : attributed j e.order e.source = true)
    (hs : j.state ≠ .closed) (hsource : e.source = .tradeStream) :
    deliver round j e = (reduceOwned round e.clock j e.order e.event e.source).1 := by
  have hh : closesFromHistory round j e.order e.event e.source = false := by
    simp [closesFromHistory, hsource]
  simp [deliver, reduceBrokerOrder, ha, hh,
    accountingUpdate_open e.clock e.order e.event e.source hs]

theorem deliver_tracking (hw : WorkingEntry i ticket) (ht : Tracking i ticket recorded j)
    (he : EntryEvidence round i ticket q e) :
    entryOrder j e.order = true ∧
      deliver round j e = (reduceOwned round e.clock j e.order e.event e.source).1 := by
  have ha := attributed_of_entry round ht.insightId ht.symbol ht.orderId he
  have ho : j.state ≠ .closed := by obtain h | h := ht.state <;> simp [h]
  exact ⟨entryOrder_of_tracking round hw ht he, deliver_stream round ha ho he.source⟩

def observe (recorded : Option ℚ) (m : ℚ) : Option ℚ :=
  match recorded with
  | none => some m
  | some r => some (max r m)

theorem reduceOwned_snapshot (t : Clock) (order : Order) (source : OrderEvidenceSource)
    (hs : j.state = .new ∨ j.state = .executed) (hside : order.side = j.side)
    (he : entryOrder j order = true) (hvalid : validFill round order = true) :
    (reduceOwned round t j order .partialFilled source).1 =
      if order.filledQty ≤ j.entryFilledQuantity.getD 0 then j
      else partialFillEntry round t j order := by
  have hk : keptFill j order .partialFilled = none := by simp [keptFill, endsEntry]
  obtain hs | hs := hs <;> simp only [reduceOwned, hk, reduceTransition, hs] <;>
    simp only [hside, he, hvalid, beq_self_eq_true, Bool.and_self, if_true] <;>
    split <;> rfl

theorem tracking_snapshot (hw : WorkingEntry i ticket)
    (ht : Tracking i ticket recorded j) (he : EntryEvidence round i ticket q e)
    (hevent : e.event = .partialFilled) (hvalid : validFill round e.order = true) {m : ℚ}
    (hm : e.order.filledQty = .finite m) :
    Tracking i ticket (observe recorded m) (deliver round j e) := by
  obtain ⟨hen, hd⟩ := deliver_tracking round hw ht he
  have hm0 : 0 < m := by
    obtain ⟨n, hn, hpos⟩ := F64.isPositive_iff.mp ((validFill_iff round e.order).mp hvalid).1
    rw [hm] at hn
    cases hn
    exact hpos
  rw [hd, hevent, reduceOwned_snapshot round e.clock e.order e.source ht.state
      (he.side.trans ht.side.symm) hen hvalid]
  split
  · rename_i hle
    -- An older snapshot: a fill of at least this quantity is on record.
    cases recorded with
    | none =>
        rw [ht.quantity, hm] at hle
        exact absurd ((F64.finite_le_zero m).mp hle) (not_le.mpr hm0)
    | some r =>
        rw [ht.quantity, hm] at hle
        have hma : max r m = r := max_eq_left ((F64.finite_le m r).mp hle)
        rw [observe, hma]
        exact ht
  · rename_i hgt
    have hx := execution_partialFillEntry round e.clock j e.order ht.state hvalid hgt
    have hne : observe recorded m = some m := by
      cases recorded with
      | none => rfl
      | some r =>
          rw [ht.quantity, hm] at hgt
          have hlt : ¬ m ≤ r := fun h => hgt ((F64.finite_le m r).mpr h)
          rw [observe, max_eq_right (le_of_not_ge hlt)]
    rw [hne]
    have hid : (partialFillEntry round e.clock j e.order).orderId =
        if j.state = .new then some e.order.orderId else j.orderId :=
      congrArg Execution.orderId hx
    refine
      { insightId := (congrArg Execution.insightId hx).trans ht.insightId
        symbol := (congrArg Execution.symbol hx).trans ht.symbol
        side := (congrArg Execution.side hx).trans ht.side
        state := .inr (congrArg Execution.state hx)
        orderId := ?_
        quantity := by rw [Option.map_some, ← hm]; exact congrArg Execution.entryFilledQuantity hx
        positive := by simpa using hm0
        price := fun _ => ⟨orderPrice round e.order, congrArg Execution.filledPrice hx,
          ((validFill_iff round e.order).mp hvalid).2⟩ }
    by_cases hs : j.state = .new
    · right
      rw [hid, if_pos hs, he.orderId]
    rw [hid, if_neg hs]
    exact ht.orderId

theorem deliver_cancel_kept (hw : WorkingEntry i ticket) {m : ℚ}
    (ht : Tracking i ticket (some m) j) (he : EntryEvidence round i ticket q e)
    (hc : isCancel e = true) :
    (deliver round j e).execution =
      { j.execution with
        orderId := some e.order.orderId
        suppressChildEntries := true
        state := .filled } := by
  obtain ⟨hent, hd⟩ := deliver_tracking round hw ht he
  obtain ⟨p, hp, hp0⟩ := ht.price rfl
  have hfill := recordedFill_of_positive ht.quantity hp
    (F64.isPositive_iff.mpr ⟨m, rfl, ht.positive m rfl⟩) hp0
  simp only [isCancel, Bool.or_eq_true, beq_iff_eq] at hc
  have hen : endsEntry j e.order e.event = true :=
    endsEntry_of ht.state hent (by obtain h | h := hc <;> simp [h])
  rw [hd]
  simp only [reduceOwned, keptFill, hen, hfill]
  exact execution_preserveRemainder e.clock j e.order e.event ⟨ht.quantity, hp⟩

theorem deliver_cancel_empty (hw : WorkingEntry i ticket)
    (ht : Tracking i ticket none j) (he : EntryEvidence round i ticket q e)
    (hca : isCancel e = true) :
    (deliver round j e).execution = { j.execution with state := .cancelled } := by
  obtain ⟨hen, hd⟩ := deliver_tracking round hw ht he
  have hfill : recordedFill j = none := by simp [recordedFill, ht.quantity]
  have hk : keptFill j e.order e.event = none := by simp [keptFill, hfill]
  have hn : j.state.next .cancelled = .cancelled :=
    InsightState.next_eq_requested (by obtain h | h := ht.state <;> simp [h])
  have hst := congrArg Execution.state (execution_sync round e.clock j e.order)
  dsimp only [execution] at hst
  have hta : reduceTransition round e.clock j e.order e.event e.source =
      ((syncBrokerManagedLevels round e.clock j e.order).orderCancelled e.clock
        (.text "Order cancelled"), .terminal) := by
    simp only [isCancel, Bool.or_eq_true, beq_iff_eq] at hca
    obtain hc | hc := hca <;> obtain hs | hs := ht.state <;>
      simp [reduceTransition, hs, hc, hen]
  rw [hd]
  simp only [reduceOwned, hk, hta]
  rw [execution_orderCancelled, execution_sync, hst, hn]

theorem deliver_settled (hs : j.state = .filled ∨ j.state = .cancelled) (hside : j.side = i.side)
    (he : EntryEvidence round i ticket q e) : deliver round j e = j := by
  have ho : j.state ≠ .closed := by obtain h | h := hs <;> simp [h]
  have hk : keptFill j e.order e.event = none := by
    obtain h | h := hs <;> simp [keptFill, endsEntry, h]
  have hsa : e.order.side = j.side := he.side.trans hside.symm
  have hevent : e.event = .cancelled ∨ e.event = .expired ∨ e.event = .partialFilled := by
    obtain hc | hp := he.event
    · simp only [isCancel, Bool.or_eq_true, beq_iff_eq] at hc
      tauto
    · exact .inr (.inr hp.1)
  have ht : (reduceTransition round e.clock j e.order e.event e.source).1 = j := by
    obtain h | h | h := hevent <;> obtain hs | hs := hs <;>
      simp [reduceTransition, hs, h, hsa]
  by_cases ha : attributed j e.order e.source = true
  · rw [deliver_stream round ha ho he.source, reduceOwned, hk]
    exact ht
  · simp [deliver, reduceBrokerOrder, ha]

theorem deliverAll_settled (hs : j.state = .filled ∨ j.state = .cancelled)
    (hside : j.side = i.side) {es : List Evidence}
    (hes : ∀ e ∈ es, EntryEvidence round i ticket q e) : deliverAll round j es = j := by
  induction es with
  | nil => rfl
  | cons e es ih =>
      have he := deliver_settled round hs hside (hes e (by simp))
      change deliverAll round (deliver round j e) es = j
      rw [he]
      exact ih fun e' he' => hes e' (by simp [he'])

/-- Before the order ends, the record is the largest snapshot delivered. -/
theorem deliverAll_snapshots (hw : WorkingEntry i ticket) {es : List Evidence}
    (hes : ∀ e ∈ es, EntryEvidence round i ticket q e) (hs : ∀ e ∈ es, isCancel e = false) :
    ∃ recorded, Tracking i ticket recorded (deliverAll round i es) ∧
      (∀ r ∈ recorded, ∃ e ∈ es, e.order.filledQty = .finite r) ∧
      (∀ e ∈ es, ∃ m r, e.order.filledQty = .finite m ∧ recorded = some r ∧ m ≤ r) := by
  induction es using List.reverseRecOn with
  | nil => exact ⟨none, Tracking.start hw, by simp, by simp⟩
  | append_singleton es e ih =>
      obtain ⟨recorded, ht, ha, hb⟩ :=
        ih (fun e he => hes e (by simp [he])) (fun e he => hs e (by simp [he]))
      have he := hes e (by simp)
      obtain ⟨hevent, hvalid, m, hm, -⟩ := he.event.resolve_left (by simp [hs e (by simp)])
      rw [deliverAll_append]
      refine ⟨observe recorded m, tracking_snapshot round hw ht he hevent hvalid hm, ?_, ?_⟩
      · intro r hr
        cases recorded with
        | none =>
            obtain rfl : m = r := by simpa [observe] using hr
            exact ⟨e, by simp, hm⟩
        | some r0 =>
            obtain rfl : max r0 m = r := by simpa [observe] using hr
            obtain hma | hma := max_choice r0 m
            · obtain ⟨e', he', hq⟩ := ha r0 rfl
              exact ⟨e', by simp [he'], by rw [hma, hq]⟩
            · exact ⟨e, by simp, by rw [hma, hm]⟩
      · intro e' he'
        rw [mem_append, mem_singleton] at he'
        obtain he' | rfl := he'
        · obtain ⟨m', r, hm', rfl, hle⟩ := hb e' he'
          exact ⟨m', max r m, hm', rfl, hle.trans (le_max_left r m)⟩
        cases recorded with
        | none => exact ⟨m, m, hm, rfl, le_rfl⟩
        | some r => exact ⟨m, max r m, hm, rfl, le_max_right r m⟩

/-- Snapshots of one entry order, the largest of quantity `q`, and the end
of that order, delivered in some order with repetitions. -/
structure CancelVersusFill (i : Insight) (ticket : String) (q : ℚ) (es : List Evidence) :
    Prop where
  working : WorkingEntry i ticket
  evidence : ∀ e ∈ es, EntryEvidence round i ticket q e
  largest : ∃ e ∈ es, e.event = .partialFilled ∧ e.order.filledQty = .finite q
  ended : ∃ e ∈ es, isCancel e = true

def KeepsPosition (q : ℚ) (j : Insight) : Prop :=
  j.state = .filled ∧ j.entryFilledQuantity = some (.finite q) ∧ j.suppressChildEntries = true

variable {es : List Evidence}

theorem split_at_end (h : ∃ e ∈ es, isCancel e = true) :
    ∃ c late, es = es.takeWhile (fun e => !isCancel e) ++ c :: late ∧ isCancel c = true := by
  obtain ⟨c, late, hl⟩ : ∃ c late, es.dropWhile (fun e => !isCancel e) = c :: late := by
    refine exists_cons_of_ne_nil fun hn => ?_
    obtain ⟨e, he, hc⟩ := h
    simpa [hc] using dropWhile_eq_nil_iff.mp hn e he
  refine ⟨c, late, ?_, ?_⟩
  · rw [← hl]
    exact takeWhile_append_dropWhile.symm
  · simpa [hl] using head?_dropWhile_not (fun e => !isCancel e) es

/-- The run's outcome is decided when the order ends: the largest snapshot
delivered by then is kept, and without one the insight is cancelled. -/
theorem cancel_versus_fill_outcome {i : Insight} {ticket : String} {q : ℚ}
    (h : CancelVersusFill round i ticket q es) :
    ∃ recorded : Option ℚ, (∀ r ∈ recorded, ∃ e ∈ es.takeWhile (fun e => !isCancel e),
        e.order.filledQty = .finite r) ∧
      (∀ e ∈ es.takeWhile (fun e => !isCancel e), ∃ m r,
        e.order.filledQty = .finite m ∧ recorded = some r ∧ m ≤ r) ∧
      (recorded = none → (deliverAll round i es).state = .cancelled) ∧
      (∀ r, recorded = some r → KeepsPosition r (deliverAll round i es)) := by
  obtain ⟨c, late, hsp, hc⟩ := split_at_end h.ended
  set early := es.takeWhile (fun e => !isCancel e)
  have hev : ∀ e ∈ early ++ c :: late, EntryEvidence round i ticket q e := by
    rw [← hsp]
    exact h.evidence
  have hsn : ∀ e ∈ early, isCancel e = false := fun e he => by simpa using mem_takeWhile_imp he
  obtain ⟨recorded, ht, ha, hb⟩ := deliverAll_snapshots round h.working
    (fun e he => hev e (mem_append_left _ he)) hsn
  have hce := hev c (by simp)
  have hl : ∀ e ∈ late, EntryEvidence round i ticket q e := fun e he => hev e (by simp [he])
  have hr : deliverAll round i es =
      deliverAll round (deliver round (deliverAll round i early) c) late := by
    rw [hsp]
    simp [deliverAll]
  refine ⟨recorded, ha, hb, ?_, ?_⟩
  · rintro rfl
    have hx := deliver_cancel_empty round h.working ht hce hc
    have hs : (deliver round (deliverAll round i early) c).state = .cancelled :=
      congrArg Execution.state hx
    have hside := (congrArg Execution.side hx).trans ht.side
    rw [hr, deliverAll_settled round (.inr hs) hside hl]
    exact hs
  · rintro r rfl
    have hx := deliver_cancel_kept round h.working ht hce hc
    have hs : (deliver round (deliverAll round i early) c).state = .filled :=
      congrArg Execution.state hx
    have hside := (congrArg Execution.side hx).trans ht.side
    rw [hr, deliverAll_settled round (.inl hs) hside hl]
    exact ⟨hs, (congrArg Execution.entryFilledQuantity hx).trans ht.quantity,
      congrArg Execution.suppressChildEntries hx⟩

/-- The position survives exactly when the full snapshot was delivered
before the first report of the order's end. -/
theorem cancel_versus_fill_iff {i : Insight} {ticket : String} {q : ℚ} {es : List Evidence}
    (h : CancelVersusFill round i ticket q es) :
    KeepsPosition q (deliverAll round i es) ↔
      ∃ e ∈ es.takeWhile (fun e => !isCancel e), e.order.filledQty = .finite q := by
  obtain ⟨recorded, hat, hbo, hem, hke⟩ := cancel_versus_fill_outcome round h
  constructor
  · rintro ⟨hs, hq, -⟩
    cases recorded with
    | none =>
        rw [hem rfl] at hs
        cases hs
    | some r =>
        obtain rfl : r = q := by simpa [(hke r rfl).2.1] using hq
        exact hat r rfl
  · rintro ⟨e, he, hqe⟩
    obtain ⟨m, r, hm, hr, hle⟩ := hbo e he
    obtain ⟨e', he', hr'⟩ := hat r hr
    have hrq : r ≤ q := by
      have hsn : isCancel e' = false := by simpa using mem_takeWhile_imp he'
      obtain ⟨-, -, m', hm', hle'⟩ := (h.evidence e'
        ((takeWhile_subset _) he')).event.resolve_left (by simp [hsn])
      rw [hr'] at hm'
      cases hm'
      exact hle'
    have hqr : q ≤ r := by
      rw [hqe] at hm
      cases hm
      exact hle
    rw [le_antisymm hqr hrq]
    exact hke r hr

def sampleSnapshot : Evidence := sampleReport "1" .buy 2 1 .partialFilled

def sampleCancel : Evidence := sampleReport "1" .buy 2 1 .cancelled

theorem sampleSnapshot_entry :
    EntryEvidence dynamicRoundForAsset sampleInsight "1" 2 sampleSnapshot where
  source := rfl
  nonempty := by decide
  orderId := rfl
  symbol := rfl
  side := rfl
  belongs := .inl rfl
  event := .inr ⟨rfl, by decide +kernel, 2, rfl, le_rfl⟩

theorem sampleCancel_entry :
    EntryEvidence dynamicRoundForAsset sampleInsight "1" 2 sampleCancel where
  source := rfl
  nonempty := by decide
  orderId := rfl
  symbol := rfl
  side := rfl
  belongs := .inl rfl
  event := .inl rfl

theorem sample_cancelVersusFill (h : es.Perm [sampleSnapshot, sampleCancel]) :
    CancelVersusFill dynamicRoundForAsset sampleInsight "1" 2 es where
  working := ⟨.inl rfl, rfl, .inl rfl⟩
  evidence := fun e he => by
    have hm := h.mem_iff.mp he
    simp only [mem_cons, not_mem_nil, or_false] at hm
    obtain rfl | rfl := hm
    · exact sampleSnapshot_entry
    · exact sampleCancel_entry
  largest := ⟨sampleSnapshot, h.mem_iff.mpr (by simp), rfl, rfl⟩
  ended := ⟨sampleCancel, h.mem_iff.mpr (by simp), rfl⟩

/-- A cancellation that overtakes the only snapshot leaves the insight
cancelled while the broker holds two units, although the cancellation
itself reports them. -/
theorem cancel_before_snapshot_loses_position :
    CancelVersusFill dynamicRoundForAsset sampleInsight "1" 2 [sampleCancel, sampleSnapshot] ∧
      (deliverAll dynamicRoundForAsset sampleInsight
        [sampleCancel, sampleSnapshot]).state = .cancelled :=
  ⟨sample_cancelVersusFill (List.Perm.swap _ _ _), by decide +kernel⟩

theorem snapshot_before_cancel_keeps_position :
    KeepsPosition 2 (deliverAll dynamicRoundForAsset sampleInsight
      [sampleSnapshot, sampleCancel]) :=
  (cancel_versus_fill_iff dynamicRoundForAsset
    (sample_cancelVersusFill (List.Perm.refl _))).mpr ⟨sampleSnapshot, by simp [isCancel,
      sampleSnapshot, sampleCancel, sampleReport], rfl⟩

end AqEngine.Insights
