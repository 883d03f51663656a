import AqEngine.Insights.Moves
import AqEngine.Insights.Lifecycle

namespace AqEngine.Insights

open Lib Broker Insight

variable (ctx : StrategyContext)

theorem quiet_submitNew (s : Turn) : Quiet s.insight (submitNew ctx s).1.insight := by
  have ha : Acts True ctx.progress Set.univ s (validate ctx s).1 :=
    validate_acts trivial fun _ => trivial
  have hv := ha.quiet
  unfold submitNew
  dsimp only
  split
  · exact Quiet.refl _
  rename_i hn
  split
  · exact Quiet.refl _
  split
  · rename_i r reason hr
    rw [hr] at hv
    refine hv.trans (Quiet.ended ?_ rfl (execution_orderRejected ctx.clock r.insight reason))
    have hs : s.insight.state = .new := by simp_all
    obtain h | ⟨-, h⟩ := hv.state
    · rw [h, hs]
      rfl
    · exact h
  · rename_i r hr
    rw [hr] at hv
    exact hv.trans (quiet_queueMutation ctx _ _ _ _ r)

theorem quiet_submit (s : Turn) : Quiet s.insight (submit ctx s).1.insight := by
  unfold submit
  cases hp : pollMutation ctx .submit s with
  | some r =>
    have ha : Acts True ctx.progress ∅ s r.1 := pollMutation_acts hp
    exact ha.quiet
  | none => exact quiet_submitNew ctx s

def Exposed (i : Insight) : Prop := ∃ q, i.entryFilledQuantity = some q ∧ 0 < q

/-- A recorded execution belongs to a live or closed position, and while
the order still works it can be kept as one. -/
structure FillKept (i : Insight) : Prop where
  live : Exposed i → i.state.unexposed = false
  usable : Exposed i → i.state = .executed → (recordedFill i).isSome = true

theorem exposed_congr {i k : Insight} (h : k.entryFilledQuantity = i.entryFilledQuantity) :
    Exposed k ↔ Exposed i := by
  rw [Exposed, Exposed, h]

theorem recordedFill_congr {i k : Insight} (hq : k.entryFilledQuantity = i.entryFilledQuantity)
    (hp : k.filledPrice = i.filledPrice) : recordedFill k = recordedFill i := by
  rw [recordedFill, recordedFill, hq, hp]

theorem FillKept.quiet {i k : Insight} (h : FillKept i) (hq : Quiet i k) : FillKept k := by
  have he := exposed_congr hq.quantity
  constructor
  · intro hk
    obtain hs | ⟨hi, -⟩ := hq.state
    · rw [hs]
      exact h.live (he.mp hk)
    rw [h.live (he.mp hk)] at hi
    cases hi
  · intro hk hs
    rw [recordedFill_congr hq.quantity hq.price]
    obtain hst | ⟨-, hi⟩ := hq.state
    · exact h.usable (he.mp hk) (hst.symm.trans hs)
    rw [hs] at hi
    cases hi

variable (round : Asset → F64 → F64)

variable {i : Insight} {e : Evidence}

theorem FillKept.working (h : FillKept i) (hs : i.state = .new ∨ i.state = .executed)
    (hfill : recordedFill i = none) : ¬ Exposed i := by
  intro hi
  obtain hs | hs := hs
  · have hl := h.live hi
    rw [hs] at hl
    cases hl
  have hu := h.usable hi hs
  rw [hfill] at hu
  cases hu

theorem exposed_of_validFill {k : Insight} (hvalid : validFill round e.order = true)
    (hq : k.entryFilledQuantity = some e.order.filledQty) : Exposed k := by
  obtain ⟨q, hq', hpos⟩ := F64.isPositive_iff.mp ((validFill_iff round e.order).mp hvalid).1
  exact ⟨e.order.filledQty, hq, by rw [hq']; exact (F64.zero_lt_finite q).mpr hpos⟩

theorem fillKept_of_live {k : Insight} (hs : k.state = .filled ∨ k.state = .closed) :
    FillKept k where
  live := fun _ => by obtain h | h := hs <;> rw [h] <;> rfl
  usable := fun _ he => by obtain h | h := hs <;> rw [h] at he <;> cases he

theorem deliver_fillKept (h : FillKept i) :
    FillKept (deliver round i e) ∧ (Exposed i → Exposed (deliver round i e)) := by
  have hr := deliver_reduces round i e
  generalize hx : (deliver round i e).execution = x at hr
  have hq : (deliver round i e).entryFilledQuantity = x.entryFilledQuantity :=
    congrArg Execution.entryFilledQuantity hx
  have hp : (deliver round i e).filledPrice = x.filledPrice := congrArg Execution.filledPrice hx
  have hs : (deliver round i e).state = x.state := congrArg Execution.state hx
  cases hr with
  | unchanged | accounted => exact ⟨h.quiet ⟨hq, hp, .inl hs⟩, (exposed_congr hq).mpr⟩
  | closed => exact ⟨fillKept_of_live (.inr hs), (exposed_congr hq).mpr⟩
  | remainderKept | partialClosed => exact ⟨fillKept_of_live (.inl hs), (exposed_congr hq).mpr⟩
  | entryFilled _ hvalid | lateFilled _ _ hvalid =>
      exact ⟨fillKept_of_live (.inl hs), fun _ => exposed_of_validFill round hvalid hq⟩
  | partialFilled _ hvalid =>
      obtain ⟨hq0, hp0⟩ := (validFill_iff round e.order).mp hvalid
      have hfill := recordedFill_of_positive hq hp hq0 hp0
      refine ⟨⟨fun _ => by rw [hs]; rfl, fun _ _ => by rw [hfill]; rfl⟩,
        fun _ => exposed_of_validFill round hvalid hq⟩
  | accepted hne =>
      have hn : ¬ Exposed i := fun hi => by
        have hl := h.live hi
        rw [hne] at hl
        cases hl
      exact ⟨⟨fun hk => absurd ((exposed_congr hq).mp hk) hn,
        fun hk => absurd ((exposed_congr hq).mp hk) hn⟩, fun hi => absurd hi hn⟩
  | entryEnded _ hw _ hfill =>
      have hn := h.working hw hfill
      exact ⟨⟨fun hk => absurd ((exposed_congr hq).mp hk) hn,
        fun hk => absurd ((exposed_congr hq).mp hk) hn⟩, fun hi => absurd hi hn⟩

theorem apply_fillKept (step : InsightStep) {i : Insight} (h : FillKept i) :
    FillKept (step.apply round i) ∧ (Exposed i → Exposed (step.apply round i)) := by
  have quiet : ∀ k, Quiet i k → FillKept k ∧ (Exposed i → Exposed k) :=
    fun k hk => ⟨h.quiet hk, (exposed_congr hk.quantity).mpr⟩
  obtain ⟨e, rfl⟩ | ⟨ctx, rfl⟩ | ha := perform_acts round i step
  · exact deliver_fillKept round h
  · exact quiet _ (quiet_submit ctx ⟨i, []⟩)
  · rw [← InsightStep.insight_perform]
    exact quiet _ ha.quiet

def applyAll (i : Insight) (steps : List InsightStep) : Insight :=
  steps.foldl (InsightStep.apply round) i

theorem applyAll_fillKept (steps : List InsightStep) {i : Insight} (h : FillKept i) :
    FillKept (applyAll round i steps) ∧ (Exposed i → Exposed (applyAll round i steps)) := by
  induction steps generalizing i with
  | nil => exact ⟨h, id⟩
  | cons step steps ih =>
      obtain ⟨hstep, he⟩ := apply_fillKept round step h
      obtain ⟨hrest, hr⟩ := ih hstep
      exact ⟨hrest, fun hi => hr (he hi)⟩

/-- Exposure is never lost: from the moment a positive entry execution is
recorded, in any run, the insight is executed, filled or closed and keeps
an execution on record. -/
theorem exposure_never_lost (i : Insight) (hfresh : ¬ Exposed i) (before after : List InsightStep)
    (hexposed : Exposed (applyAll round i before)) :
    let k := applyAll round (applyAll round i before) after
    Exposed k ∧ (k.state = .executed ∨ k.state = .filled ∨ k.state = .closed) := by
  have hst : FillKept i := ⟨fun hi => absurd hi hfresh, fun hi => absurd hi hfresh⟩
  obtain ⟨hbe, -⟩ := applyAll_fillKept round before hst
  obtain ⟨haf, hke⟩ := applyAll_fillKept round after hbe
  have hk := hke hexposed
  refine ⟨hk, ?_⟩
  have hli := haf.live hk
  revert hli
  cases (applyAll round (applyAll round i before) after).state <;>
    simp [InsightState.unexposed]

theorem exposure_never_lost_after_cancel :
    let k := applyAll dynamicRoundForAsset (applyAll dynamicRoundForAsset sampleInsight
      [.evidence (sampleReport "1" .buy 1 1 .partialFilled)])
      [.pipelineFailure ⟨0, 0⟩ (.text "failed"), .evidence (sampleReport "1" .buy 1 1 .cancelled)]
    Exposed k ∧ (k.state = .executed ∨ k.state = .filled ∨ k.state = .closed) :=
  exposure_never_lost dynamicRoundForAsset sampleInsight (fun ⟨_, hq, _⟩ => by cases hq) _ _
    ⟨1, by decide +kernel, by decide +kernel⟩

end AqEngine.Insights
