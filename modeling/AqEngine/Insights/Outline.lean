import AqEngine.Insights.Evidence

namespace AqEngine.Insights

open Lib Broker Insight

section

variable (t : Clock) (i : Insight)

@[simp] theorem outline_setQuantity (quantity : Option F64) :
    (i.setQuantity t quantity).outline = i.outline := by
  unfold setQuantity
  split
  · rfl
  · exact outline_updateState t _ _ _

theorem outline_positionFilled (price quantity : F64) (orderId : String)
    (commission : Option F64) :
    (i.positionFilled t price quantity orderId commission).outline = i.outline := by
  unfold positionFilled setFirstOnFill
  split
  · exact outline_updateState t _ _ _
  · exact (outline_updateState t _ _ _).trans (outline_updateState t _ _ _)

theorem outline_observeAccounting (accounting : Option PositionCloseAccounting) :
    (i.observeAccounting t accounting).outline = i.outline := by
  cases accounting with
  | none => rfl
  | some a =>
    obtain h | ⟨-, h⟩ := observePositionAccounting_cases t i a
    · rw [observeAccounting, h]
    · rw [observeAccounting, h]
      rfl

theorem outline_acceptIfNew (order : Order) : (acceptIfNew t i order).outline = i.outline := by
  unfold acceptIfNew
  split
  · exact outline_updateState t _ _ _
  · rfl

theorem outline_partialFilled (quantity price : F64) (commission : Option F64) :
    (i.partialFilled t quantity price commission).outline = i.outline := by
  unfold partialFilled
  split
  · rfl
  · exact outline_updateState t _ _ _

end

section

variable {round : Asset → F64 → F64} {t : Clock} {i : Insight} {order : Order} {P : Insight → Prop}
  (hout : ∀ i j, j.outline = i.outline → P i → P j)
  (hsync : ∀ i, P i → P (syncBrokerManagedLevels round t i order))

include hout hsync

theorem fillEntry_keeps (h : P i) : P (fillEntry round t i order) :=
  hsync _ (hout _ _ (outline_positionFilled t i _ _ _ _) h)

/-- What depends on the outline only and is kept when the levels follow the
broker is kept by every transition, with a replaced entry apart. -/
theorem reduceTransition_keeps {event : TradeUpdateEvent} {source : OrderEvidenceSource}
    (hreplace : event = .replaced → P (replaceEntry round t i order)) (h : P i) :
    P (reduceTransition round t i order event source).1 := by
  have hg : ∀ (b : Bool) (r : Insight × OrderReduction), P r.1 →
      P (if b = true then r else (i, .ignored)).1 := by
    intro b r hr
    split
    · exact hr
    · exact h
  have hkept : ∀ j, j.outline = i.outline → P j := fun j hj => hout i j hj h
  have ha := hkept _ (outline_acceptIfNew t i order)
  dsimp only [reduceTransition]
  split
  iterate 4
    next => exact hg _ _ (hsync _ (hkept _ (outline_updateState t _ _ _)))
  iterate 2
    next => exact hg _ _ (fillEntry_keeps hout hsync ha)
  iterate 2
    next =>
      refine hg _ _ ?_
      split
      · exact h
      · exact hsync _ (hout _ _ (outline_partialFilled t _ _ _ _) ha)
  next =>
    refine hg _ _ ?_
    simp only [partialCloseExit]
    split
    · exact h
    · exact hkept _ (outline_updateState t _ _ _)
  iterate 6
    next => exact hg _ _ (hout _ _ (outline_updateState t _ _ _) (hsync i h))
  next => exact hg _ _ (hreplace rfl)
  iterate 2
    next =>
      refine hg _ _ ?_
      simp only [closeExit]
      split
      · exact h
      · refine hout (syncBrokerManagedLevels round t i order) _ ?_ (hsync i h)
        exact (outline_observeAccounting t _ _).trans (outline_updateState t _ _ _)
  iterate 2
    next => exact hg _ _ (fillEntry_keeps hout hsync (hkept _ rfl))
  exact h

end

theorem deliver_keeps {round : Asset → F64 → F64} {i : Insight} {e : Evidence} {P : Insight → Prop}
    (hout : ∀ i j, j.outline = i.outline → P i → P j)
    (hsync : ∀ i, P i → P (syncBrokerManagedLevels round e.clock i e.order))
    (hreplace : e.event = .replaced → P (replaceEntry round e.clock i e.order)) (h : P i) :
    P (deliver round i e) := by
  unfold deliver reduceBrokerOrder
  split
  · exact h
  split
  · next j hu =>
    obtain ⟨-, a, rfl⟩ := accountingUpdate_eq_some hu
    exact hout i _ rfl h
  split
  · exact hout i _ ((outline_observeAccounting _ _ _).trans (outline_updateState _ _ _ _)) h
  unfold reduceOwned
  split
  · refine hout i _ ?_ h
    exact (outline_updateState _ _ _ _).trans
      ((outline_positionFilled _ _ _ _ _ _).trans (outline_setQuantity _ _ _))
  · exact reduceTransition_keeps hout hsync hreplace h

theorem pendingMutations_deliver (round : Asset → F64 → F64) (i : Insight) (e : Evidence) :
    (deliver round i e).pendingMutations = i.pendingMutations := by
  have hsync := fun j => (aside_sync round e.clock j e.order).pending
  refine deliver_keeps (P := fun j => j.pendingMutations = i.pendingMutations) ?_ ?_ ?_ rfl
  · exact fun _ _ hj h => (congrArg Outline.pendingMutations hj).trans h
  · exact fun j h => (hsync j).trans h
  · intro _
    dsimp only [replaceEntry]
    rw [hsync]
    split <;> split <;> rfl

end AqEngine.Insights
