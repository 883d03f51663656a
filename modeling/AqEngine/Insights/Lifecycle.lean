import AqEngine.Insights.Evidence

namespace AqEngine.Insights

open Lib Broker Insight

/-- The lifecycle of an insight, each state also following itself. -/
def InsightState.follows : InsightState → InsightState → Bool
  | .new, _ => true
  | .executed, s => s != .new
  | .filled, s => s == .filled || s == .closed
  | .cancelled, s => s == .cancelled || s == .filled
  | .rejected, s => s == .rejected || s == .filled
  | .closed, s => s == .closed

theorem follows_self (s : InsightState) : s.follows s = true := by
  cases s <;> rfl

variable (round : Asset → F64 → F64) {i : Insight} {order : Order} {source : OrderEvidenceSource}

theorem reduces_follows {event : TradeUpdateEvent} {x : Execution}
    (h : Reduces round i order event source x) : i.state.follows x.state = true := by
  cases h with
  | unchanged | accounted _ hs => exact follows_self i.state
  | closed _ _ _ _ _ _ hs =>
      cases hst : i.state <;> simp_all [InsightState.isActive, InsightState.follows]
  | remainderKept _ _ hs | entryFilled hs | partialFilled hs
  | lateFilled hs => obtain hs | hs := hs <;> rw [hs] <;> rfl
  | accepted hs | partialClosed _ _ hs => rw [hs]; rfl
  | entryEnded _ hs hended =>
      obtain hs | hs := hs <;> obtain rfl | rfl := hended <;> rw [hs] <;> rfl

theorem deliver_follows (i : Insight) (e : Evidence) :
    i.state.follows (deliver round i e).state = true :=
  reduces_follows round (deliver_reduces round i e)

theorem reduceTransition_closed (t : Clock) (order : Order)
    (event : TradeUpdateEvent) (source : OrderEvidenceSource) (hs : i.state = .closed) :
    reduceTransition round t i order event source = (i, .ignored) := by
  cases event <;> simp [reduceTransition, hs]

theorem deliver_closed (e : Evidence) (hs : i.state = .closed) :
    ∃ a, deliver round i e = { i with positionAccounting := a } := by
  have hh : closesFromHistory round i e.order e.event e.source = false := by
    simp [closesFromHistory, hs, InsightState.isActive]
  have hk : keptFill i e.order e.event = none := by simp [keptFill, endsEntry, hs]
  unfold deliver reduceBrokerOrder
  split
  · exact ⟨i.positionAccounting, rfl⟩
  split
  · rename_i j hu
    obtain ⟨-, a, rfl⟩ := accountingUpdate_eq_some hu
    exact ⟨some a, rfl⟩
  refine ⟨i.positionAccounting, ?_⟩
  simp [hh, reduceOwned, hk, reduceTransition_closed round e.clock e.order e.event e.source hs]

theorem deliverAll_closed (es : List Evidence) (hs : i.state = .closed) :
    ∃ a, deliverAll round i es = { i with positionAccounting := a } := by
  refine deliverAll_invariant round (P := fun j => ∃ a, j = { i with positionAccounting := a })
    ?_ ⟨i.positionAccounting, rfl⟩ es
  rintro _ e ⟨a, rfl⟩
  obtain ⟨b, hb⟩ := deliver_closed round (i := { i with positionAccounting := a }) e hs
  exact ⟨b, hb⟩

/-- Evidence that names none of the insight's identities, except the answer
to its own submission: a response without an insight id arrives through the
command's receipt while the insight has no order yet. -/
def Foreign (i : Insight) (e : Evidence) : Prop :=
  e.order.asset.symbol ≠ i.symbol ∨ e.order.orderId = "" ∨
    tradeEventMatchesInsight i e.order = false ∧
      ¬ (e.source = .submitResponse ∧ e.order.insightId = none ∧ i.orderId = none)

theorem correlatedResponse_unmatched (h : correlatedResponse i order source = true)
    (hm : tradeEventMatchesInsight i order = false) :
    source = .submitResponse ∧ order.insightId = none ∧ i.orderId = none := by
  simp only [correlatedResponse, Bool.and_eq_true, beq_iff_eq, Option.isNone_iff_eq_none] at h
  refine ⟨h.1.1, h.1.2, ?_⟩
  cases hid : i.orderId with
  | none => rfl
  | some id =>
      have heq : id = order.orderId := by simpa [hid] using h.2
      simp [tradeEventMatchesInsight, hid, heq] at hm

theorem deliver_foreign {e : Evidence} (h : Foreign i e) : deliver round i e = i := by
  have ha : attributed i e.order e.source = false := by
    obtain hs | hid | ⟨hm, hr⟩ := h
    · simp [attributed, hs.symm]
    · simp [attributed, hid]
    · have hco : correlatedResponse i e.order e.source = false := by
        by_contra hc
        exact hr (correlatedResponse_unmatched (by simpa using hc) hm)
      simp [attributed, hm, hco]
  simp [deliver, reduceBrokerOrder, ha]

/-- In every run of evidence the state moves only along the lifecycle, a
closed insight keeps everything but its accounting, and foreign evidence
changes nothing. -/
theorem evidence_lifecycle (i : Insight) (es : List Evidence) :
    (∀ e, (deliverAll round i es).state.follows (deliverAll round i (es ++ [e])).state = true) ∧
    ((deliverAll round i es).state = .closed → ∀ later, ∃ a,
      deliverAll round i (es ++ later) =
        { deliverAll round i es with positionAccounting := a }) ∧
    (∀ e, Foreign (deliverAll round i es) e →
      deliverAll round i (es ++ [e]) = deliverAll round i es) := by
  refine ⟨fun e => ?_, fun hs later => ?_, fun e he => ?_⟩
  · rw [deliverAll_append]
    exact deliver_follows round _ e
  · have hap : deliverAll round i (es ++ later) =
        deliverAll round (deliverAll round i es) later := by simp [deliverAll]
    rw [hap]
    exact deliverAll_closed round later hs
  · rw [deliverAll_append]
    exact deliver_foreign round he

/-- The answer to a submission binds an order that the insight does not know
under any identity. -/
theorem submit_response_binds_unmatched_order :
    tradeEventMatchesInsight sampleInsight sampleOrder = false ∧
      (deliver dynamicRoundForAsset sampleInsight
        ⟨⟨0, 0⟩, sampleOrder, .accepted, .submitResponse⟩).state = .executed := by
  decide

theorem evidence_lifecycle_closed :
    tradeEventMatchesInsight sampleInsight (sampleReport "1" .sell 2 20 .closed).order = true ∧
    ∃ a, deliverAll dynamicRoundForAsset { sampleInsight with state := .closed }
        [sampleReport "1" .sell 2 20 .closed] =
      { sampleInsight with state := .closed, positionAccounting := a } :=
  ⟨by decide, (evidence_lifecycle dynamicRoundForAsset { sampleInsight with state := .closed }
    []).2.1 rfl [sampleReport "1" .sell 2 20 .closed]⟩

end AqEngine.Insights
