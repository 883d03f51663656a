import AqEngine.Insights.Exposure

namespace AqEngine.Insights

open Lib Broker Insight List

def allCalls (round : Asset → F64 → F64) : Insight → List InsightStep → List ContextCall
  | _, [] => []
  | i, step :: steps => (step.perform round i).calls ++ allCalls round (step.apply round i) steps

def ContextCall.isSubmit : ContextCall → Bool
  | .enqueued _ (.submit _) => true
  | _ => false

def submits (calls : List ContextCall) : Nat := calls.countP (·.isSubmit)

def SubmitAnswers (i : Insight) (step : InsightStep) : Prop :=
  ∀ p ∈ i.pendingMutations, p.kind = .submit → ∀ completion,
    step.progress p.receipt = some (.completed completion) → completion.outcome ≠ .acknowledged

section

variable {progress : BrokerCommandReceipt → Option BrokerCommandProgress}
  {kinds : Set MutationKind} {s s' : Turn}

theorem Moves.enqueued (h : Moves progress kinds s s') {receipt : BrokerCommandReceipt}
    {action : BrokerCommandAction} (hc : ContextCall.enqueued receipt action ∈ s'.calls) :
    ContextCall.enqueued receipt action ∈ s.calls ∨ mutationKind action ∈ kinds := by
  refine h.invariant (P := fun a => ContextCall.enqueued receipt action ∈ a.calls →
    ContextCall.enqueued receipt action ∈ s.calls ∨ mutationKind action ∈ kinds) ?_ .inl hc
  intro a b ha hm hc
  cases hm with
  | edit h => exact ha hc
  | gate | consume =>
    obtain hc | hc := mem_append.1 hc
    · exact ha hc
    · cases mem_singleton.1 hc
  | queue hkind =>
    obtain hc | hc := mem_append.1 hc
    · exact ha hc
    cases mem_singleton.1 hc
    exact .inr hkind

theorem Moves.submits (h : Moves progress kinds s s') (hk : MutationKind.submit ∉ kinds)
    (hs : submits s.calls = 0) : submits s'.calls = 0 := by
  unfold Insights.submits at hs ⊢
  rw [countP_eq_zero] at hs ⊢
  intro call hc hsubmit
  match call, hsubmit with
  | .enqueued receipt (.submit request), _ =>
    obtain hb | hkind := h.enqueued hc
    · exact hs _ hb rfl
    · exact hk hkind

theorem mem_eraseIdx_of_ne {α : Type} {l : List α} {index : Nat} {a b : α}
    (hindex : l[index]? = some b) (ha : a ∈ l) (hne : a ≠ b) : a ∈ l.eraseIdx index := by
  obtain ⟨k, hk⟩ := getElem?_of_mem ha
  refine mem_eraseIdx_iff_getElem?.2 ⟨k, ?_, hk⟩
  rintro rfl
  exact hne (Option.some.inj (hk.symm.trans hindex))

/-- A mutation is dropped only when the broker's answer about it is definite. -/
theorem Moves.keeps_submit {p : PendingInsightMutation} (h : Moves progress kinds s s')
    (hkind : p.kind = .submit)
    (hpr : ∀ completion, progress p.receipt = some (.completed completion) →
      completion.outcome.isAmbiguous = true)
    (hp : p ∈ s.insight.pendingMutations) : p ∈ s'.insight.pendingMutations := by
  refine h.invariant (P := fun a => p ∈ a.insight.pendingMutations) ?_ hp
  intro a b ha hm
  cases hm with
  | edit h =>
    rw [h.pending]
    exact ha
  | gate => exact ha
  | consume hindex _ hpending _ hsubmit =>
    rw [hpending]
    refine mem_eraseIdx_of_ne hindex ha ?_
    rintro rfl
    obtain ⟨completion, hc, hd, -⟩ := hsubmit hkind
    rw [hpr completion hc] at hd
    cases hd
  | queue _ _ _ hpending =>
    rw [hpending]
    exact mem_append_left _ ha

def Spent (i : Insight) : Prop := i.Begun ∨ ¬ i.Free .submit

theorem Moves.spent (h : Moves progress kinds s s') (hk : MutationKind.submit ∉ kinds)
    (ha : ∀ p ∈ s.insight.pendingMutations, p.kind = .submit → ∀ completion,
      progress p.receipt = some (.completed completion) → completion.outcome ≠ .acknowledged)
    (hs : Spent s.insight) : Spent s'.insight := by
  refine (h.invariant (P := fun a => Spent a.insight ∧ ∀ p ∈ a.insight.pendingMutations,
    p.kind = .submit → p ∈ s.insight.pendingMutations) ?_ ⟨hs, fun p hp _ => hp⟩).1
  rintro a b ⟨hsp, hpa⟩ hm
  cases hm with
  | edit h =>
    unfold Spent Free
    rw [h.pending]
    exact ⟨hsp.imp h.begun id, hpa⟩
  | gate => exact ⟨hsp, hpa⟩
  | @consume _ pending j hindex _ hpending hbegun hsubmit =>
    have hme := mem_of_getElem? hindex
    refine ⟨?_, fun p hp => hpa p (mem_of_mem_eraseIdx (hpending ▸ hp))⟩
    obtain hst | hpe := hsp
    · exact .inl (hbegun hst)
    by_cases hkind : pending.kind = .submit
    · obtain ⟨completion, hc, -, hd⟩ := hsubmit hkind
      exact .inl (hd (ha pending (hpa pending hme hkind) hkind completion hc))
    -- the pending submission is another one
    unfold Free at hpe
    push Not at hpe
    obtain ⟨p, hp, hpk⟩ := hpe
    refine .inr fun hfree => hfree p ?_ hpk
    rw [hpending]
    refine mem_eraseIdx_of_ne hindex hp ?_
    rintro rfl
    exact hkind hpk
  | queue hkind _ _ hpending hbegun =>
    constructor
    · obtain hst | hpe := hsp
      · exact .inl (hbegun hst)
      · refine .inr fun hfree => hpe fun p hp => hfree p ?_
        rw [hpending]
        exact mem_append_left _ hp
    · intro p hp hpk
      rw [hpending] at hp
      obtain hp | hp := mem_append.1 hp
      · exact hpa p hp hpk
      rw [mem_singleton] at hp
      subst hp
      rw [← hpk] at hk
      exact absurd hkind hk

end

section

variable {ctx : StrategyContext} {s : Turn}

theorem validate_ok {r : Turn} (h : validate ctx s = (r, .ok ())) : r = s := by
  unfold validate at h
  split at h
  · cases h
  split at h
  · cases h
  next r' he =>
  have hs : r' = s := by
    unfold hasExpired at he
    cases hd : expireIfDue ctx s with
    | none =>
      rw [hd] at he
      exact (congrArg Prod.fst he).symm
    | some =>
      rw [hd] at he
      cases he
  split at h
  · cases h
  cases h
  exact hs

/-- A submission is enqueued only for an entry that has not begun, while none
is pending, and then it is pending. -/
theorem submit_cases (ctx : StrategyContext) (s : Turn) :
    Moves ctx.progress {.cancel} s (submit ctx s).1 ∨
      ¬ Spent s.insight ∧ Moves ctx.progress {.submit} s (submit ctx s).1 ∧
        ¬ (submit ctx s).1.insight.Free .submit ∧
        ∃ receipt request, (submit ctx s).1.calls = s.calls ++
          [.enqueued receipt (.submit request)] := by
  unfold submit
  cases hp : pollMutation ctx .submit s with
  | some r => exact .inl ((pollMutation_acts hp).moves trivial)
  | none =>
    have hfree := free_of_pollMutation hp
    unfold submitNew
    dsimp only
    split
    · exact .inl .refl
    next hn =>
    simp only [Bool.or_eq_true, bne_iff_ne, not_or, not_not] at hn
    obtain ⟨⟨-, ho⟩, hs⟩ := hn
    split
    · exact .inl .refl
    have hm : Moves ctx.progress {.cancel} s (validate ctx s).1 := by
      refine (validate_acts (Set.mem_singleton _) fun hfilled => ?_).moves trivial
      rw [hs] at hfilled
      cases hfilled
    split
    · next r _ hr =>
      rw [hr] at hm
      exact .inl (hm.trans (Moves.edit (.rejected _ _ _)))
    next r hr =>
    obtain rfl := validate_ok hr
    have hq : Acts True ctx.progress {.submit} r
        (queueMutation ctx .submit (.submit (orderRequest r.insight)) .submit none r).1 :=
      queueMutation_acts .submit none rfl fun _ => hfree
    have hq := hq.moves trivial
    have hsp : ¬ Spent r.insight := by
      rintro ((hso | hleft) | hpe)
      · exact ho hso
      · exact hleft hs
      · exact hpe hfree
    unfold queueMutation at hq ⊢
    cases he : ctx.enqueue r.insight.insightId (.submit (orderRequest r.insight)) none with
    | error error => exact .inl .refl
    | ok receipt =>
      rw [he] at hq
      refine .inr ⟨hsp, hq, ?_, receipt, orderRequest r.insight, rfl⟩
      intro hno
      refine hno ⟨.submit, receipt, .submit⟩ ?_ rfl
      dsimp only [Turn.modify]
      rw [(aside_stateLog _ _ _).pending]
      exact mem_append_right _ (mem_singleton.2 rfl)

end

section

variable {ctx : StrategyContext} {s : Turn} {i : Insight}

structure Closable (i : Insight) (quantity : F64) : Prop where
  free : i.Free .close
  idle : i.closing = false
  filled : i.state = .filled
  positive : 0 < quantity
  within : quantity ≤ i.remainingQuantity

theorem remainingQuantity_ne_nan (i : Insight) : i.remainingQuantity ≠ .nan := by
  have hm : ∀ x : F64, F64.max x 0 ≠ .nan := by
    intro x
    unfold F64.max
    split
    · exact fun h => nomatch h
    next hx =>
    rw [if_neg (fun h => nomatch h)]
    split
    · exact fun h => nomatch h
    · exact hx
  exact hm _

theorem tryClosePartial_closes {quantity : F64} {price : Option F64}
    {receipt : BrokerCommandReceipt}
    {orderId : String} {q : F64} {limit : Option F64} (hc : s.calls = [])
    (h : ContextCall.enqueued receipt (.close orderId q limit) ∈
      (tryClosePartial ctx quantity price s).1.calls) : Closable s.insight q := by
  unfold tryClosePartial at h
  cases hp : pollMutation ctx .close s with
  | some r =>
    rw [hp] at h
    have hm : Moves ctx.progress ∅ s r.1 := (pollMutation_acts hp).moves trivial
    obtain hb | hkind := hm.enqueued h
    · rw [hc] at hb
      cases hb
    · cases hkind
  | none =>
    rw [hp] at h
    dsimp only at h
    split at h
    · rw [hc] at h
      cases h
    next ha =>
    split at h
    · rw [hc] at h
      cases h
    next hg =>
    simp only [Bool.or_eq_true, not_or, Bool.not_eq_true] at ha
    simp only [Bool.or_eq_true, bne_iff_ne, Bool.not_eq_true', decide_eq_true_eq, not_or, not_not,
      Bool.not_eq_false] at hg
    obtain ⟨⟨⟨hfilled, hf⟩, hpos⟩, hw⟩ := hg
    cases ho : s.insight.orderId with
    | none =>
      rw [ho] at h
      rw [hc] at h
      cases h
    | some order =>
      rw [ho] at h
      dsimp only at h
      have hq : q = quantity := by
        unfold queueMutation at h
        cases he : ctx.enqueue s.insight.insightId (.close order quantity price) none with
        | error error =>
          rw [he] at h
          rw [hc] at h
          cases h
        | ok =>
          rw [he] at h
          dsimp only [Turn.call, Turn.modify] at h
          rw [hc, nil_append, mem_singleton] at h
          cases h
          rfl
      subst hq
      obtain ⟨x, rfl⟩ := F64.isFinite_iff.1 hf
      refine ⟨free_of_pollMutation hp, ha.2, hfilled, ?_, ?_⟩
      · rw [F64.finite_le_zero, not_le] at hpos
        exact (F64.zero_lt_finite x).2 hpos
      · cases hr : s.insight.remainingQuantity with
        | finite y =>
          rw [hr, F64.finite_lt, not_lt] at hw
          exact (F64.finite_le x y).2 hw
        | infinity negative =>
          rw [hr] at hw
          cases negative with
          | false => rfl
          | true => exact absurd rfl hw
        | nan => exact absurd hr (remainingQuantity_ne_nan s.insight)

theorem hasExpired_calls (ctx : StrategyContext) (s : Turn) : (hasExpired ctx s).1.calls = s.calls ∨
      (hasExpired ctx s).1.calls = (expireNow ctx s).1.calls := by
  have hl : ∀ (condition : Bool) (text : String) (s : Turn),
      (logWhen ctx.clock condition text s).calls = s.calls := by
    intro condition text s
    unfold logWhen
    split <;> rfl
  unfold hasExpired
  cases h : expireIfDue ctx s with
  | none => exact .inl rfl
  | some r =>
    obtain ⟨⟨anchor, periods⟩, -, h⟩ := Option.bind_eq_some_iff.1 h
    dsimp only at h
    split at h
    · cases h
    cases h
    refine .inr ?_
    rw [hl, hl]

end

section

variable (round : Asset → F64 → F64) {i : Insight} (step : InsightStep)

theorem perform_moves (hd : i.Distinct) :
    Moves step.progress {.submit}ᶜ ⟨i, []⟩ (step.perform round i) ∨ ∃ ctx, step = .submit ctx := by
  obtain ⟨e, rfl⟩ | hsubmit | ha := perform_acts round i step
  · exact .inl (Moves.edit (deliver_edits round e i))
  · exact .inr hsubmit
  refine .inl ((ha.moves hd).mono ?_)
  cases step <;> simp [InsightStep.kinds]

theorem perform_moves_univ (hd : i.Distinct) :
    Moves step.progress Set.univ ⟨i, []⟩ (step.perform round i) := by
  obtain hm | ⟨ctx, rfl⟩ := perform_moves round step hd
  · exact hm.mono (Set.subset_univ _)
  obtain hm | ⟨-, hm, -⟩ := submit_cases ctx ⟨i, []⟩
  all_goals exact hm.mono (Set.subset_univ _)

theorem apply_distinct (hd : i.Distinct) : (step.apply round i).Distinct := by
  rw [← InsightStep.insight_perform]
  exact (perform_moves_univ round step hd).distinct hd

/-- A step enqueues no Submit and keeps an entry spent, or enqueues one for
an entry that was not spent and is now. -/
theorem perform_submits (hd : i.Distinct) (ha : SubmitAnswers i step) :
    submits (step.perform round i).calls = 0 ∧ (Spent i → Spent (step.apply round i)) ∨
      submits (step.perform round i).calls = 1 ∧ ¬ Spent i ∧ Spent (step.apply round i) := by
  rw [← InsightStep.insight_perform]
  obtain hm | ⟨ctx, rfl⟩ := perform_moves round step hd
  · exact .inl ⟨hm.submits (by simp) rfl, hm.spent (by simp) ha⟩
  obtain hm | ⟨hs, -, hp, receipt, request, hc⟩ := submit_cases ctx ⟨i, []⟩
  · exact .inl ⟨hm.submits (by simp) rfl, hm.spent (by simp) ha⟩
  refine .inr ⟨?_, hs, .inr hp⟩
  rw [InsightStep.perform, hc]
  rfl

theorem perform_closes (hd : i.Distinct)
    {receipt : BrokerCommandReceipt} {orderId : String} {quantity : F64} {price : Option F64}
    (h : ContextCall.enqueued receipt (.close orderId quantity price) ∈
      (step.perform round i).calls) :
    Closable i quantity := by
  have ho : ∀ kinds : Set MutationKind,
      Moves step.progress kinds ⟨i, []⟩ (step.perform round i) → MutationKind.close ∈ kinds := by
    intro kinds hm
    obtain hb | hkind := hm.enqueued h
    · cases hb
    · exact hkind
  obtain ⟨e, rfl⟩ | ⟨ctx, rfl⟩ | ha := perform_acts round i step
  · cases h
  · obtain hm | ⟨-, hm, -⟩ := submit_cases ctx ⟨i, []⟩
    all_goals cases ho _ hm
  have hkind := ho _ (ha.moves hd)
  cases step with
  | close ctx => exact tryClosePartial_closes rfl h
  | expire ctx =>
    obtain heq | ⟨-, hfilled⟩ := hkind
    · cases heq
    obtain hc | hc := hasExpired_calls ctx ⟨i, []⟩
    · rw [InsightStep.perform, hc] at h
      cases h
    rw [InsightStep.perform, hc] at h
    simp only [expireNow, hfilled] at h
    exact tryClosePartial_closes rfl h
  | cleanup ctx =>
    obtain heq | ⟨-, hfilled⟩ := hkind
    · cases heq
    simp only [InsightStep.perform, cleanup, hfilled] at h
    exact tryClosePartial_closes rfl h
  | submit | evidence | pollSubmission | pollTerminal | cancel | cancelOrderById | takeProfit
  | stopLoss | entryPrice | replace | pipelineFailure | firstFillHandled | requestCancellation =>
    cases hkind

end

variable (round : Asset → F64 → F64) {i : Insight} (steps : List InsightStep)

theorem applyAll_distinct (hd : i.Distinct) : (applyAll round i steps).Distinct := by
  induction steps generalizing i with
  | nil => exact hd
  | cons step steps ih => exact ih (apply_distinct round step hd)

def RunAnswers (i : Insight) (steps : List InsightStep) : Prop :=
  ∀ earlier step later, steps = earlier ++ step :: later →
    SubmitAnswers (applyAll round i earlier) step

theorem RunAnswers.head {step : InsightStep} {steps : List InsightStep}
    (h : RunAnswers round i (step :: steps)) : SubmitAnswers i step := h [] step steps rfl

theorem RunAnswers.tail {step : InsightStep} {steps : List InsightStep}
    (h : RunAnswers round i (step :: steps)) : RunAnswers round (step.apply round i) steps :=
  fun earlier next later heq => h (step :: earlier) next later (by rw [heq, cons_append])

theorem submits_of_spent (hd : i.Distinct) (ha : RunAnswers round i steps) (hs : Spent i) :
    submits (allCalls round i steps) = 0 := by
  induction steps generalizing i with
  | nil => rfl
  | cons step steps ih =>
    obtain ⟨hn, hk⟩ | ⟨-, hf, -⟩ := perform_submits round step hd ha.head
    · rw [allCalls, submits, countP_append, ← submits, hn, Nat.zero_add]
      exact ih (apply_distinct round step hd) ha.tail (hk hs)
    · exact absurd hs hf

theorem submits_le_one (hd : i.Distinct)
    (ha : RunAnswers round i steps) : submits (allCalls round i steps) ≤ 1 := by
  induction steps generalizing i with
  | nil => exact Nat.zero_le 1
  | cons step steps ih =>
    have hrest := apply_distinct round step hd
    rw [allCalls, submits, countP_append, ← submits, ← submits]
    obtain ⟨hn, -⟩ | ⟨ho, -, hs⟩ := perform_submits round step hd ha.head
    · rw [hn, Nat.zero_add]
      exact ih hrest ha.tail
    · rw [ho, submits_of_spent round steps hrest ha.tail hs]

/-- Over the whole life of an insight: one pending mutation of each kind, one
Submit, no Close beside another or beyond the filled remainder, and a Submit
is kept as long as its outcome is uncertain. -/
theorem mutations_owned (i : Insight) (hfresh : i.pendingMutations = []) (steps : List InsightStep)
    (hanswers : RunAnswers round i steps) :
    submits (allCalls round i steps) ≤ 1 ∧
    (((applyAll round i steps).pendingMutations.map (·.kind)).Nodup) ∧
    ∀ earlier step later, steps = earlier ++ step :: later →
      let j := applyAll round i earlier
      ((j.pendingMutations.map (·.kind)).Nodup) ∧
      (∀ receipt orderId quantity price,
        ContextCall.enqueued receipt (.close orderId quantity price) ∈
          (step.perform round j).calls →
        (∀ p ∈ j.pendingMutations, p.kind ≠ .close) ∧ j.closing = false ∧ j.state = .filled ∧
          0 < quantity ∧ quantity ≤ j.remainingQuantity) ∧
      ∀ p ∈ j.pendingMutations, p.kind = .submit →
        (∀ completion, step.progress p.receipt = some (.completed completion) →
          completion.outcome.isAmbiguous = true) →
        p ∈ (step.apply round j).pendingMutations := by
  have hdi : i.Distinct := by
    rw [Distinct, hfresh]
    exact nodup_nil
  refine ⟨submits_le_one round steps hdi hanswers,
    applyAll_distinct round steps hdi, ?_⟩
  intro earlier step later _
  have hj := applyAll_distinct round earlier hdi
  refine ⟨hj, ?_, ?_⟩
  · intro receipt orderId quantity price hca
    have hcl := perform_closes round step hj hca
    exact ⟨hcl.free, hcl.idle, hcl.filled, hcl.positive, hcl.within⟩
  · intro p hp hkind hpr
    rw [← InsightStep.insight_perform]
    exact (perform_moves_univ round step hj).keeps_submit hkind hpr hp

def answering (answer : Option BrokerCommandProgress) : StrategyContext where
  clock := ⟨0, 0⟩
  universeAsset _ := some sampleAsset
  progress _ := answer
  enqueue id _ group := .ok ⟨⟨"1"⟩, id.toString, group⟩
  cancelPendingEntry _ := .ok ()
  amendsLimitPrice := false
  amendsStopPrice := false
  addTimeIncrement _ _ _ := none

def entryInsight : Insight := { insightId := default, symbol := "EURUSD", quantity := some 2 }

def uncertain : BrokerCommandProgress :=
  .completed ⟨⟨⟨"1"⟩, entryInsight.insightId.toString, none⟩, 0, some 0, 0, .ambiguous "timeout"⟩

def uncertainSteps : List InsightStep :=
  [.submit (answering none), .submit (answering (some uncertain)),
    .cancel (answering (some uncertain)), .submit (answering (some uncertain))]

theorem mutations_owned_uncertain :
    submits (allCalls dynamicRoundForAsset entryInsight uncertainSteps) = 1 ∧
    (∃ p ∈ (applyAll dynamicRoundForAsset entryInsight uncertainSteps).pendingMutations,
      p.kind = .submit) ∧
    ((applyAll dynamicRoundForAsset entryInsight uncertainSteps).pendingMutations.map
      (·.kind)).Nodup := by
  have han : RunAnswers dynamicRoundForAsset entryInsight uncertainSteps := by
    intro earlier step later hst p _ _ completion hco
    have hmem : step ∈ uncertainSteps := by
      rw [hst]
      exact mem_append_right _ mem_cons_self
    simp only [uncertainSteps, mem_cons, not_mem_nil, or_false] at hmem
    obtain rfl | rfl | rfl | rfl := hmem <;> cases hco
    all_goals exact fun h => nomatch h
  obtain ⟨hsu, hno, -⟩ := mutations_owned dynamicRoundForAsset entryInsight rfl uncertainSteps han
  have hso : 1 ≤ submits (allCalls dynamicRoundForAsset entryInsight uncertainSteps) := by
    decide +kernel
  exact ⟨Nat.le_antisymm hsu hso, by decide +kernel, hno⟩

end AqEngine.Insights
