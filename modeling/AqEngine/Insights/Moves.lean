import AqEngine.Insights.Outline
import AqEngine.Insights.Turns
import Mathlib.Data.List.Nodup
import Mathlib.Logic.Relation

namespace AqEngine.Insights

open Lib Broker List Option

namespace Insight

/-- The entry is under way or over: there is a broker order, or the insight
has left its first state. -/
def Begun (i : Insight) : Prop := i.orderId.isSome = true ∨ i.state ≠ .new

def Distinct (i : Insight) : Prop := (i.pendingMutations.map (·.kind)).Nodup

def Free (i : Insight) (kind : MutationKind) : Prop := ∀ p ∈ i.pendingMutations, p.kind ≠ kind

theorem begun_of_execution {i j : Insight} (h : j.execution = i.execution) (hi : i.Begun) :
    j.Begun := by
  have ho : j.orderId = i.orderId := congrArg Execution.orderId h
  have hs : j.state = i.state := congrArg Execution.state h
  rw [Begun, ho, hs]
  exact hi

theorem begun_ended {i j : Insight} {s : InsightState} (hs : s = .cancelled ∨ s = .rejected)
    (h : j.execution = { i.execution with state := i.state.next s }) : j.Begun := by
  have hst : j.state = i.state.next s := congrArg Execution.state h
  refine .inr ?_
  rw [hst, InsightState.next]
  obtain rfl | rfl := hs
  · split <;> decide
  · split <;> decide

end Insight

open Insight

def mutationKind : BrokerCommandAction → MutationKind
  | .amendEntry _ _ _ => .amendEntry
  | .submit _ => .submit
  | .cancel _ => .cancel
  | .close _ _ _ => .close
  | .replace _ _ _ => .replace
  | .takeProfit _ _ _ => .takeProfit
  | .stopLoss _ _ _ => .stopLoss

/-- States in which no entry execution is on record. -/
def InsightState.unexposed : InsightState → Bool
  | .new | .cancelled | .rejected => true
  | _ => false

/-- An operation that records no execution and ends only what has none. -/
structure Quiet (i k : Insight) : Prop where
  quantity : k.entryFilledQuantity = i.entryFilledQuantity
  price : k.filledPrice = i.filledPrice
  state : k.state = i.state ∨ i.state.unexposed = true ∧ k.state.unexposed = true

namespace Quiet

theorem refl (i : Insight) : Quiet i i := ⟨rfl, rfl, .inl rfl⟩

theorem trans {i j k : Insight} (hij : Quiet i j) (hjk : Quiet j k) : Quiet i k where
  quantity := hjk.quantity.trans hij.quantity
  price := hjk.price.trans hij.price
  state := by
    obtain hij | ⟨hi, hj⟩ := hij.state
    · rw [← hij]
      exact hjk.state
    obtain hjk | ⟨-, hk⟩ := hjk.state
    · exact .inr ⟨hi, hjk ▸ hj⟩
    · exact .inr ⟨hi, hk⟩

theorem of_execution {i k : Insight} (h : k.execution = i.execution) : Quiet i k where
  quantity := congrArg Execution.entryFilledQuantity h
  price := congrArg Execution.filledPrice h
  state := .inl (congrArg Execution.state h)

theorem ended {i k : Insight} {s : InsightState} (hi : i.state.unexposed = true)
    (hs : s.unexposed = true) (h : k.execution = { i.execution with state := i.state.next s }) :
    Quiet i k where
  quantity := congrArg Execution.entryFilledQuantity h
  price := congrArg Execution.filledPrice h
  state := by
    have hst : k.state = i.state.next s := congrArg Execution.state h
    have hn : i.state.next s = s :=
      InsightState.next_eq_requested fun hf => by simp [hf, InsightState.unexposed] at hi
    exact .inr ⟨hi, by rw [hst, hn]; exact hs⟩

end Quiet

/-- A change of the insight that leaves its mutations alone and does not
undo its entry. -/
structure Edits (i j : Insight) : Prop where
  insightId : j.insightId = i.insightId
  pending : j.pendingMutations = i.pendingMutations
  begun : i.Begun → j.Begun

theorem Edits.rejected (t : Clock) (reason : Message) (i : Insight) :
    Edits i (i.orderRejected t reason) where
  insightId := congrArg Execution.insightId (execution_orderRejected t i reason)
  pending := pendingMutations_updateState t _ _ i
  begun _ := begun_ended (.inr rfl) (execution_orderRejected t i reason)

theorem Edits.cancelled (t : Clock) (reason : Message) (i : Insight) :
    Edits i (i.orderCancelled t reason) where
  insightId := congrArg Execution.insightId (execution_orderCancelled t i reason)
  pending := pendingMutations_updateState t _ _ i
  begun _ := begun_ended (.inl rfl) (execution_orderCancelled t i reason)

structure QuietEdits (i j : Insight) : Prop extends Edits i j, Quiet i j

namespace QuietEdits

variable {i j k : Insight}

theorem refl (i : Insight) : QuietEdits i i := ⟨⟨rfl, rfl, id⟩, .refl i⟩

theorem trans (hij : QuietEdits i j) (hjk : QuietEdits j k) : QuietEdits i k where
  insightId := hjk.insightId.trans hij.insightId
  pending := hjk.pending.trans hij.pending
  begun hi := hjk.begun (hij.begun hi)
  toQuiet := hij.toQuiet.trans hjk.toQuiet

theorem aside (h : Aside i j) : QuietEdits i j :=
  ⟨⟨congrArg Execution.insightId h.execution, h.pending, begun_of_execution h.execution⟩,
    .of_execution h.execution⟩

theorem logged (t : Clock) (m : Message) (i : Insight) : QuietEdits i (i.stateLog t m) :=
  .aside (aside_stateLog t m i)

theorem rejected (t : Clock) (reason : Message) (hi : i.state.unexposed = true) :
    QuietEdits i (i.orderRejected t reason) :=
  ⟨.rejected t reason i, .ended hi rfl (execution_orderRejected t i reason)⟩

theorem cancelled (t : Clock) (reason : Message) (hi : i.state.unexposed = true) :
    QuietEdits i (i.orderCancelled t reason) :=
  ⟨.cancelled t reason i, .ended hi rfl (execution_orderCancelled t i reason)⟩

end QuietEdits

/-- What the operations on an insight are made of. Mutations of the given
kinds may be queued, one only while no other of its kind is pending. A
submission is consumed on a definite outcome, and its entry has begun then
unless the broker only acknowledged it. -/
inductive Move (progress : BrokerCommandReceipt → Option BrokerCommandProgress)
    (kinds : Set MutationKind) : Turn → Turn → Prop
  | edit {s : Turn} {j : Insight} (h : Edits s.insight j) : Move progress kinds s ⟨j, s.calls⟩
  | gate {s : Turn} (receipt : BrokerCommandReceipt) :
      Move progress kinds s (s.call (.entryCancelled receipt))
  | consume {s : Turn} {index : Nat} {pending : PendingInsightMutation} {j : Insight}
      (hindex : s.insight.pendingMutations[index]? = some pending)
      (hid : j.insightId = s.insight.insightId)
      (hpending : j.pendingMutations = s.insight.pendingMutations.eraseIdx index)
      (hbegun : s.insight.Begun → j.Begun)
      (hsubmit : pending.kind = .submit → ∃ completion,
        progress pending.receipt = some (.completed completion) ∧
        completion.outcome.isAmbiguous = false ∧
        (completion.outcome ≠ .acknowledged → j.Begun)) :
      Move progress kinds s ⟨j, s.calls ++ [.reduced pending.receipt]⟩
  | queue {s : Turn} {action : BrokerCommandAction} {effect : MutationEffect}
      {receipt : BrokerCommandReceipt} {j : Insight} (hkind : mutationKind action ∈ kinds)
      (hfree : s.insight.Free (mutationKind action)) (hid : j.insightId = s.insight.insightId)
      (hpending : j.pendingMutations =
        s.insight.pendingMutations ++ [⟨mutationKind action, receipt, effect⟩])
      (hbegun : s.insight.Begun → j.Begun) :
      Move progress kinds s ⟨j, s.calls ++ [.enqueued receipt action]⟩

abbrev Moves (progress : BrokerCommandReceipt → Option BrokerCommandProgress)
    (kinds : Set MutationKind) : Turn → Turn → Prop := Relation.ReflTransGen (Move progress kinds)

section

variable {progress : BrokerCommandReceipt → Option BrokerCommandProgress}
  {kinds kinds' : Set MutationKind} {s s' : Turn}

theorem Moves.edit {j : Insight} (h : Edits s.insight j) : Moves progress kinds s ⟨j, s.calls⟩ :=
  .single (.edit h)

theorem Moves.mono (hk : kinds ⊆ kinds') (h : Moves progress kinds s s') :
    Moves progress kinds' s s' := by
  refine Relation.ReflTransGen.mono ?_ s s' h
  intro a b hm
  cases hm with
  | edit h => exact .edit h
  | gate receipt => exact .gate receipt
  | consume hindex hid hpending hbegun hsubmit => exact .consume hindex hid hpending hbegun hsubmit
  | queue hkind hfree hid hpending hbegun => exact .queue (hk hkind) hfree hid hpending hbegun

theorem Moves.invariant {P : Turn → Prop} (hstep : ∀ a b, P a → Move progress kinds a b → P b)
    (h : Moves progress kinds s s') (hs : P s) : P s' := by
  induction h with
  | refl => exact hs
  | tail _ hm ih => exact hstep _ _ ih hm

theorem Moves.insightId (h : Moves progress kinds s s') :
    s'.insight.insightId = s.insight.insightId := by
  refine h.invariant (P := fun a => a.insight.insightId = s.insight.insightId) ?_ rfl
  intro a b ha hm
  cases hm with
  | edit h => exact h.insightId.trans ha
  | gate => exact ha
  | consume _ hid | queue _ _ hid => exact hid.trans ha

theorem Moves.distinct (h : Moves progress kinds s s') (hs : s.insight.Distinct) :
    s'.insight.Distinct := by
  refine h.invariant (P := fun a => a.insight.Distinct) ?_ hs
  intro a b ha hm
  unfold Distinct at ha ⊢
  cases hm with
  | edit h =>
    rw [h.pending]
    exact ha
  | gate => exact ha
  | consume _ _ hpending =>
    rw [hpending]
    exact ha.sublist ((eraseIdx_sublist _ _).map _)
  | queue _ hfree _ hpending =>
    rw [hpending, map_append, map_singleton, ← concat_eq_append, nodup_concat]
    refine ⟨?_, ha⟩
    rw [List.mem_map]
    rintro ⟨p, hp, hkind⟩
    exact hfree p hp hkind

theorem Moves.free {kind : MutationKind} (hkind : kind ∉ kinds) (h : Moves progress kinds s s')
    (hs : s.insight.Free kind) : s'.insight.Free kind := by
  refine h.invariant (P := fun a => a.insight.Free kind) ?_ hs
  intro a b ha hm
  unfold Free at ha ⊢
  cases hm with
  | edit h =>
    rw [h.pending]
    exact ha
  | gate => exact ha
  | consume _ _ hpending =>
    rw [hpending]
    exact fun p hp => ha p (mem_of_mem_eraseIdx hp)
  | queue hq _ _ hpending =>
    rw [hpending]
    intro p hp
    obtain hp | hp := mem_append.1 hp
    · exact ha p hp
    rw [mem_singleton] at hp
    subst hp
    exact fun heq => hkind (heq ▸ hq)

end

/-- What an operation of the strategy does to an insight. It is made of moves
in fair circumstances, where no mutation is queued beside one of its kind. -/
structure Acts (fair : Prop) (progress : BrokerCommandReceipt → Option BrokerCommandProgress)
    (kinds : Set MutationKind) (s s' : Turn) : Prop where
  quiet : Quiet s.insight s'.insight
  moves : fair → Moves progress kinds s s'

namespace Acts

variable {fair : Prop} {progress : BrokerCommandReceipt → Option BrokerCommandProgress}
  {kinds : Set MutationKind} {s s' s'' : Turn}

theorem refl : Acts fair progress kinds s s := ⟨.refl _, fun _ => .refl⟩

theorem trans (h : Acts fair progress kinds s s') (h' : Acts fair progress kinds s' s'') :
    Acts fair progress kinds s s'' where
  quiet := h.quiet.trans h'.quiet
  moves hf := (h.moves hf).trans (h'.moves hf)

theorem edit {j : Insight} (h : QuietEdits s.insight j) : Acts fair progress kinds s ⟨j, s.calls⟩ :=
  ⟨h.toQuiet, fun _ => .edit h.toEdits⟩

theorem gate (receipt : BrokerCommandReceipt) :
    Acts fair progress kinds s (s.call (.entryCancelled receipt)) :=
  ⟨.refl _, fun _ => .single (.gate receipt)⟩

end Acts

section

variable {fair : Prop} {ctx : StrategyContext} {kinds : Set MutationKind} {s : Turn}
  {kind : MutationKind} {completion : BrokerCommandCompletion} (t : Clock) {index : Nat}
  {pending : PendingInsightMutation} {p : Protection}

theorem aside_applyEffect (effect : MutationEffect) (i : Insight) :
    Aside i (applyEffect t effect i) := by
  cases effect with
  | submit =>
    dsimp only [applyEffect]
    split
    · exact .refl i
    · exact ⟨rfl, rfl⟩
  | takeProfit levels =>
    have hs := aside_setTakeProfitLevels t i levels
    exact ⟨hs.execution, hs.pending⟩
  | stopLoss levels =>
    have hs := aside_setStopLossLevels t i levels
    exact ⟨hs.execution, hs.pending⟩
  | amendEntry limitPrice =>
    have hl : Aside i (if limitPrice.isSome then i.setLimitPrice t limitPrice else i) := by
      split
      · exact aside_setLimitPrice t i _
      · exact .refl i
    dsimp only [applyEffect]
    split
    · split
      · exact hl.trans (aside_setStopPrice t _ _)
      · exact hl
    · exact .refl i
  | replace price => exact (aside_setLimitPrice t i _).trans (aside_setQuantity t _ _)
  | cancel | close price => exact .refl i

theorem edits_acknowledge (pending : PendingInsightMutation) (i : Insight) :
    QuietEdits i (acknowledge t pending i) := by
  refine .trans ?_ (.logged t _ _)
  split
  · exact .refl i
  · exact .aside (aside_applyEffect t pending.effect i)

theorem edits_decline (kind : MutationKind) (reason : String) (i : Insight) :
    QuietEdits i (decline t kind reason i) := by
  unfold decline
  split
  · exact .aside ⟨rfl, rfl⟩
  · exact .aside ⟨rfl, rfl⟩
  · split
    · next hn => exact .rejected t _ (by rw [hn]; rfl)
    · exact .refl i
  · exact .refl i

theorem edits_neverDispatched (kind : MutationKind) (i : Insight) :
    QuietEdits i (neverDispatched t kind i) := by
  unfold neverDispatched
  split
  · next h => exact .cancelled t _ (by rw [h.2]; rfl)
  · exact .refl i

theorem begun_decline (reason : String) (i : Insight) : (decline t .submit reason i).Begun := by
  by_cases hn : i.state = .new
  · rw [decline, if_pos hn]
    exact begun_ended (.inr rfl) (execution_orderRejected t i _)
  rw [decline, if_neg hn]
  exact .inr hn

theorem begun_neverDispatched (i : Insight) : (neverDispatched t .submit i).Begun := by
  by_cases hn : i.state = .new
  · rw [neverDispatched, if_pos ⟨rfl, hn⟩]
    exact begun_ended (.inl rfl) (execution_orderCancelled t i _)
  rw [neverDispatched, if_neg fun h => hn h.2]
  exact .inr hn

theorem begun_of_bound {receipt : BrokerCommandReceipt} {order : Order} {i : Insight}
    (hou : completion.outcome = .orderResponse order)
    (h : unboundResponse kind receipt completion i = false) : i.Begun := by
  simp only [unboundResponse, hou, Bool.or_eq_false_iff, Bool.and_eq_false_iff,
    bne_eq_false_iff_eq, Bool.not_eq_false', Bool.or_eq_true, beq_iff_eq] at h
  obtain ⟨⟨⟨(ho | hs) | hr, -⟩, -⟩, -⟩ := h
  · refine .inl ?_
    rw [ho]
    rfl
  · refine .inr ?_
    obtain hs | hs := hs
    · rw [hs]
      exact fun heq => nomatch heq
    rw [hs]
    exact fun heq => nomatch heq
  · simp only [rejectedSubmit, Bool.and_eq_true, beq_iff_eq] at hr
    refine .inr ?_
    rw [hr.1.1.1.1.2]
    exact fun heq => nomatch heq

def withoutMutation (index : Nat) (i : Insight) : Insight :=
  { i with pendingMutations := i.pendingMutations.eraseIdx index }

theorem consume_edits (ctx : StrategyContext) (kind : MutationKind) (index : Nat)
    (pending : PendingInsightMutation) (outcome : BrokerCommandOutcome) (s : Turn) :
    QuietEdits (withoutMutation index s.insight)
      (consume ctx kind index pending outcome s).1.insight := by
  cases outcome with
  | acknowledged | orderResponse order => exact edits_acknowledge ctx.clock pending _
  | declined reason => exact edits_decline ctx.clock kind reason _
  | cancelledBeforeDispatch => exact edits_neverDispatched ctx.clock kind _
  | ambiguous reason => exact .refl _

theorem consume_calls (ctx : StrategyContext) (kind : MutationKind) (index : Nat)
    (pending : PendingInsightMutation) (outcome : BrokerCommandOutcome) (s : Turn) :
    (consume ctx kind index pending outcome s).1.calls = s.calls ++ [.reduced pending.receipt] := by
  cases outcome <;> rfl

theorem consume_begun (hd : completion.outcome.isAmbiguous = false)
    (hb : unboundResponse .submit pending.receipt completion s.insight = false)
    (ha : completion.outcome ≠ .acknowledged) :
    (consume ctx .submit index pending completion.outcome s).1.insight.Begun := by
  cases ho : completion.outcome with
  | acknowledged => exact absurd ho ha
  | orderResponse =>
    have hbegun : (withoutMutation index s.insight).Begun := begun_of_bound ho hb
    exact (edits_acknowledge ctx.clock pending _).begun hbegun
  | declined reason => exact begun_decline ctx.clock reason _
  | cancelledBeforeDispatch => exact begun_neverDispatched ctx.clock _
  | ambiguous reason =>
    rw [ho] at hd
    cases hd

theorem consume_acts
    (hindex : s.insight.pendingMutations[index]? = some pending) (hkind : pending.kind = kind)
    (hp : ctx.progress pending.receipt = some (.completed completion))
    (hsubmit : kind = .submit → completion.outcome.isAmbiguous = false ∧
      unboundResponse kind pending.receipt completion s.insight = false) :
    Acts fair ctx.progress kinds s (consume ctx kind index pending completion.outcome s).1 := by
  have he := consume_edits ctx kind index pending completion.outcome s
  have her : Quiet s.insight (withoutMutation index s.insight) := ⟨rfl, rfl, .inl rfl⟩
  refine ⟨her.trans he.toQuiet, fun _ => ?_⟩
  have hturn : (consume ctx kind index pending completion.outcome s).1 =
      ⟨(consume ctx kind index pending completion.outcome s).1.insight,
        s.calls ++ [.reduced pending.receipt]⟩ := by
    rw [← consume_calls ctx kind index pending completion.outcome s]
  rw [hturn]
  refine .single (.consume hindex he.insightId he.pending he.begun fun h => ?_)
  obtain rfl := hkind.symm.trans h
  obtain ⟨hd, hb⟩ := hsubmit rfl
  exact ⟨completion, hp, hd, consume_begun hd hb⟩

theorem pollMutation_cases {r : Turn × InsightMutationResult}
    (h : pollMutation ctx kind s = some r) :
    (r.1 = s ∧ r.2 ≠ .ok .applied) ∨ ∃ index pending completion,
      s.insight.pendingMutations[index]? = some pending ∧ pending.kind = kind ∧
      ctx.progress pending.receipt = some (.completed completion) ∧
      r = consume ctx kind index pending completion.outcome s ∧
      (kind = .submit → completion.outcome.isAmbiguous = false ∧
        unboundResponse kind pending.receipt completion s.insight = false) := by
  obtain ⟨index, hf, h⟩ := bind_eq_some_iff.1 h
  obtain ⟨pending, hindex, h⟩ := bind_eq_some_iff.1 h
  have hkind : pending.kind = kind := by
    obtain ⟨hlt, hp, -⟩ := findIdx?_eq_some_iff_getElem.1 hf
    rw [getElem?_eq_getElem hlt] at hindex
    cases hindex
    exact eq_of_beq hp
  split at h
  iterate 3
    cases h
    exact .inl ⟨rfl, nofun⟩
  next completion hpr =>
  cases h
  unfold pollCompletion
  by_cases ha : completion.outcome.isAmbiguous = true
  · rw [if_pos ha]
    split
    · next ht =>
      refine .inr ⟨index, pending, completion, hindex, hkind, hpr, rfl, fun hsubmit => ?_⟩
      rw [hsubmit] at ht
      simp [terminalCleanup] at ht
    · exact .inl ⟨rfl, nofun⟩
  rw [if_neg ha]
  split
  · exact .inl ⟨rfl, nofun⟩
  next hb =>
  exact .inr ⟨index, pending, completion, hindex, hkind, hpr, rfl, fun _ =>
    ⟨eq_false_of_ne_true ha, eq_false_of_ne_true hb⟩⟩

theorem pollMutation_acts {r : Turn × InsightMutationResult}
    (h : pollMutation ctx kind s = some r) : Acts fair ctx.progress kinds s r.1 := by
  obtain ⟨hs, -⟩ | ⟨_, _, _, hindex, hkind, hp, rfl, hsubmit⟩ := pollMutation_cases h
  · rw [hs]
    exact .refl
  · exact consume_acts hindex hkind hp hsubmit

theorem free_of_pollMutation (h : pollMutation ctx kind s = none) : s.insight.Free kind := by
  unfold pollMutation at h
  cases hf : s.insight.pendingMutations.findIdx? (·.kind == kind) with
  | none =>
    intro p hp hkind
    have ha := findIdx?_eq_none_iff.1 hf p hp
    rw [hkind, beq_self_eq_true] at ha
    cases ha
  | some =>
    obtain ⟨hlt, -, -⟩ := findIdx?_eq_some_iff_getElem.1 hf
    rw [hf] at h
    simp only [bind_eq_bind, bind_some, getElem?_eq_getElem hlt] at h
    split at h <;> cases h

theorem free_of_applied {r : Turn} (hd : s.insight.Distinct)
    (h : pollMutation ctx kind s = some (r, .ok .applied)) : r.insight.Free kind := by
  obtain ⟨-, hn⟩ | ⟨index, pending, completion, hindex, hkind, -, heq, -⟩ := pollMutation_cases h
  · exact absurd rfl hn
  have hpending := (consume_edits ctx kind index pending completion.outcome s).pending
  rw [← heq] at hpending
  intro p hp hk
  rw [hpending] at hp
  -- every other mutation is of another kind
  obtain ⟨hlt, rfl⟩ := List.getElem?_eq_some_iff.1 hindex
  have hn := ((getElem_cons_eraseIdx_perm hlt).map PendingInsightMutation.kind).nodup_iff.2 hd
  rw [map_cons, nodup_cons] at hn
  refine hn.1 ?_
  rw [hkind, ← hk]
  exact List.mem_map_of_mem hp

theorem pollIgnoringResult_acts (kind : MutationKind) :
    Acts fair ctx.progress kinds s (pollIgnoringResult ctx kind s) := by
  unfold pollIgnoringResult
  cases h : pollMutation ctx kind s with
  | none => exact .refl
  | some r => exact pollMutation_acts h

theorem pollPendingSubmission_acts :
    Acts fair ctx.progress kinds s (pollPendingSubmission ctx s).1 := by
  unfold pollPendingSubmission
  cases h : pollMutation ctx .submit s with
  | none => exact .refl
  | some r => exact pollMutation_acts h

theorem pollTerminalMutations_acts :
    Acts fair ctx.progress kinds s (pollTerminalMutations ctx s) := by
  unfold pollTerminalMutations
  split
  · exact List.foldlRecOn _ _ .refl fun _ hs kind _ => hs.trans (pollIgnoringResult_acts kind)
  · exact .refl

theorem quiet_queueMutation (ctx : StrategyContext) (kind : MutationKind)
    (action : BrokerCommandAction) (effect : MutationEffect) (group : Option BrokerOperationGroup)
    (s : Turn) : Quiet s.insight (queueMutation ctx kind action effect group s).1.insight := by
  unfold queueMutation
  split
  · exact .refl _
  · exact .of_execution (aside_stateLog _ _ _).execution

theorem queueMutation_acts {action : BrokerCommandAction} (effect : MutationEffect)
    (group : Option BrokerOperationGroup) (hkind : mutationKind action ∈ kinds)
    (hfree : fair → s.insight.Free (mutationKind action)) :
    Acts fair ctx.progress kinds s
      (queueMutation ctx (mutationKind action) action effect group s).1 := by
  refine ⟨quiet_queueMutation ctx _ action effect group s, fun hf => ?_⟩
  unfold queueMutation
  cases ctx.enqueue s.insight.insightId action group with
  | error error => exact .refl
  | ok =>
    exact (Relation.ReflTransGen.single (.queue hkind (hfree hf) rfl rfl id)).trans
      (Moves.edit (QuietEdits.logged _ _ _).toEdits)

theorem cancelWorking_acts (hkind : MutationKind.cancel ∈ kinds) :
    Acts fair ctx.progress kinds s (cancelWorking ctx s).1 := by
  unfold cancelWorking
  cases hp : pollMutation ctx .cancel s with
  | some r => exact pollMutation_acts hp
  | none =>
    dsimp only
    split
    · exact .refl
    cases s.insight.orderId with
    | none => exact .refl
    | some orderId =>
      have hq : Acts fair ctx.progress kinds s
          (queueMutation ctx .cancel (.cancel orderId) .cancel none s).1 :=
        queueMutation_acts .cancel none hkind fun _ => free_of_pollMutation hp
      dsimp only
      split
      · next r _ hr =>
        rw [hr] at hq
        exact hq
      next r _ hr =>
      rw [hr] at hq
      exact hq.trans (.edit ⟨⟨rfl, rfl, id⟩, rfl, rfl, .inl rfl⟩)

theorem cancel_acts (hkind : MutationKind.cancel ∈ kinds) :
    Acts fair ctx.progress kinds s (cancel ctx s).1 := by
  unfold cancel
  cases hp : pollMutation ctx .submit s with
  | none => exact cancelWorking_acts hkind
  | some r =>
    obtain ⟨r, result⟩ := r
    have ha : Acts fair ctx.progress kinds s r := pollMutation_acts hp
    cases result with
    | error error => exact ha
    | ok state =>
      cases state with
      | applied =>
        have hf : Acts fair ctx.progress kinds r (r.modify ({ · with cancelling := false })) :=
          .edit ⟨⟨rfl, rfl, id⟩, rfl, rfl, .inl rfl⟩
        exact (ha.trans hf).trans (cancelWorking_acts hkind)
      | pending receipt =>
        dsimp only
        cases ctx.cancelPendingEntry receipt with
        | error error => exact ha
        | ok => exact (ha.trans (.gate receipt)).trans (.edit ⟨⟨rfl, rfl, id⟩, rfl, rfl, .inl rfl⟩)

theorem cancelOrderById_acts (orderId : String) (hkind : MutationKind.cancel ∈ kinds) :
    Acts fair ctx.progress kinds s (cancelOrderById ctx orderId s).1 := by
  unfold cancelOrderById
  cases hp : pollMutation ctx .cancel s with
  | some r => exact pollMutation_acts hp
  | none => exact queueMutation_acts .cancel none hkind fun _ => free_of_pollMutation hp

theorem tryClosePartial_acts (quantity : F64) (price : Option F64)
    (hkind : MutationKind.close ∈ kinds) :
    Acts fair ctx.progress kinds s (tryClosePartial ctx quantity price s).1 := by
  unfold tryClosePartial
  cases hp : pollMutation ctx .close s with
  | some r => exact pollMutation_acts hp
  | none =>
    dsimp only
    split
    · exact .refl
    split
    · exact .refl
    cases s.insight.orderId with
    | none => exact .refl
    | some orderId =>
      have hq : Acts fair ctx.progress kinds s
          (queueMutation ctx .close (.close orderId quantity price) (.close price) none s).1 :=
        queueMutation_acts (.close price) none hkind fun _ => free_of_pollMutation hp
      dsimp only
      split
      · next r _ hr =>
        rw [hr] at hq
        exact hq
      next r _ hr =>
      rw [hr] at hq
      exact hq.trans (.edit ⟨⟨rfl, rfl, id⟩, rfl, rfl, .inl rfl⟩)

structure Protects (p : Protection) : Prop where
  aside : ∀ t levels (i : Insight), Aside i (p.set t levels i)
  kind : ∀ orderId price quantity, mutationKind (p.action orderId price quantity) = p.kind

theorem takeProfit_protects : Protects takeProfit where
  aside t levels i := aside_setTakeProfitLevels t i levels
  kind _ _ _ := rfl

theorem stopLoss_protects : Protects stopLoss where
  aside t levels i := aside_setStopLossLevels t i levels
  kind _ _ _ := rfl

theorem changeProtection_acts (hp : Protects p) (levels : Option (List F64))
    (group : Option BrokerOperationGroup) (hkind : p.kind ∈ kinds)
    (hfree : fair → s.insight.Free p.kind) :
    Acts fair ctx.progress kinds s (changeProtection ctx p levels group s).1 := by
  unfold changeProtection
  dsimp only
  split
  · exact .refl
  split
  · exact .edit (.aside (hp.aside _ _ _))
  split
  · exact .refl
  split
  · exact .refl
  next price _ _ orderId _ =>
  rw [← hp.kind orderId price s.insight.remainingQuantity] at hkind hfree ⊢
  exact queueMutation_acts _ group hkind hfree

theorem updateProtection_acts (hp : Protects p) (levels : Option (List F64))
    (group : Option BrokerOperationGroup) (hkind : p.kind ∈ kinds)
    (hd : fair → s.insight.Distinct) :
    Acts fair ctx.progress kinds s (updateProtection ctx p levels group s).1 := by
  unfold updateProtection
  split
  · next r hpo =>
    exact (pollMutation_acts hpo).trans
      (changeProtection_acts hp _ group hkind fun hf => free_of_applied (hd hf) hpo)
  · next r _ hpo => exact pollMutation_acts hpo
  · next hpo => exact changeProtection_acts hp _ group hkind fun _ => free_of_pollMutation hpo

theorem amendEntry_acts (price : F64) (stop : Bool) (hkind : MutationKind.amendEntry ∈ kinds)
    (hfree : fair → s.insight.Free .amendEntry) :
    Acts fair ctx.progress kinds s (amendEntry ctx price stop s).1 := by
  unfold amendEntry
  dsimp only
  split
  · exact .refl
  split
  · refine .edit (.aside ?_)
    unfold setEntryComponent
    split
    · exact aside_setStopPrice _ _ _
    · exact aside_setLimitPrice _ _ _
  split
  · exact .refl
  split
  · exact .refl
  split
  · exact .refl
  split
  · exact .refl
  · exact queueMutation_acts _ none hkind hfree

theorem amendAfterSubmission_acts (price : F64) (stop : Bool)
    (hkind : MutationKind.amendEntry ∈ kinds) (hfree : fair → s.insight.Free .amendEntry) :
    Acts fair ctx.progress kinds s (amendAfterSubmission ctx price stop s).1 := by
  have ha : Acts fair ctx.progress kinds s (pollPendingSubmission ctx s).1 :=
    pollPendingSubmission_acts
  have hk : fair → (pollPendingSubmission ctx s).1.insight.Free .amendEntry := fun hf =>
    (pollPendingSubmission_acts.moves hf).free (Set.notMem_empty _) (hfree hf)
  unfold amendAfterSubmission
  split
  · split
    · next r _ hr =>
      rw [hr] at ha
      exact ha
    · next r _ hr =>
      rw [hr] at ha
      exact ha
    · next r hr =>
      rw [hr] at ha hk
      exact ha.trans (amendEntry_acts price stop hkind hk)
  · exact amendEntry_acts price stop hkind hfree

theorem updateEntryPrice_acts (price : F64) (stop : Bool)
    (hkind : MutationKind.amendEntry ∈ kinds) (hd : fair → s.insight.Distinct) :
    Acts fair ctx.progress kinds s (updateEntryPrice ctx price stop s).1 := by
  unfold updateEntryPrice
  dsimp only
  split
  · exact (pollIgnoringResult_acts .amendEntry).trans (.edit (.logged _ _ _))
  split
  · next r hp =>
    exact (pollMutation_acts hp).trans (amendAfterSubmission_acts price stop hkind fun hf =>
        free_of_applied (hd hf) hp)
  · next r _ hp => exact pollMutation_acts hp
  · next hp => exact amendAfterSubmission_acts price stop hkind fun _ => free_of_pollMutation hp

theorem replacePendingOrder_acts (price quantity : F64) (hkind : MutationKind.replace ∈ kinds) :
    Acts fair ctx.progress kinds s (replacePendingOrder ctx price quantity s).1 := by
  unfold replacePendingOrder
  cases hp : pollMutation ctx .replace s with
  | some r => exact pollMutation_acts hp
  | none =>
    dsimp only
    split
    · exact .refl
    cases s.insight.orderId with
    | none => exact .refl
    | some => exact queueMutation_acts _ none hkind fun _ => free_of_pollMutation hp

theorem logWhen_acts (condition : Bool) (text : String) :
    Acts fair ctx.progress kinds s (logWhen ctx.clock condition text s) := by
  unfold logWhen
  split
  · exact .edit (.logged _ _ _)
  · exact .refl

section

variable (hcancel : MutationKind.cancel ∈ kinds)
  (hclose : s.insight.state = .filled → MutationKind.close ∈ kinds)

include hcancel hclose

theorem expireNow_acts : Acts fair ctx.progress kinds s (expireNow ctx s).1 := by
  unfold expireNow
  split
  · next hn =>
    split
    · exact .edit (.rejected _ _ (by rw [hn]; rfl))
    · exact cancel_acts hcancel
  · exact cancel_acts hcancel
  · next hs => exact tryClosePartial_acts _ none (hclose hs)
  · exact .refl

theorem hasExpired_acts : Acts fair ctx.progress kinds s (hasExpired ctx s).1 := by
  unfold hasExpired
  cases h : expireIfDue ctx s with
  | none => exact .refl
  | some r =>
    obtain ⟨⟨anchor, periods⟩, -, h⟩ := bind_eq_some_iff.1 h
    dsimp only at h
    split at h
    · cases h
    cases h
    exact ((expireNow_acts hcancel hclose).trans (logWhen_acts _ _)).trans (logWhen_acts _ _)

theorem cleanup_acts : Acts fair ctx.progress kinds s (cleanup ctx s).1 := by
  unfold cleanup
  split
  · next hn =>
    split
    · exact .edit (.cancelled _ _ (by rw [hn]; rfl))
    · exact cancel_acts hcancel
  · next hs => exact tryClosePartial_acts _ none (hclose hs)
  · exact cancel_acts hcancel
  · exact pollPendingSubmission_acts

theorem validate_acts : Acts fair ctx.progress kinds s (validate ctx s).1 := by
  have he : Acts fair ctx.progress kinds s (hasExpired ctx s).1 := hasExpired_acts hcancel hclose
  unfold validate
  split
  · exact .refl
  split
  · next r hr =>
    rw [hr] at he
    exact he
  next r hr =>
  rw [hr] at he
  split
  · exact he
  · exact he

end

theorem pipelineFailed_edits (t : Clock) (reason : Message) (i : Insight) :
    QuietEdits i (pipelineFailed t reason i) := by
  unfold pipelineFailed
  split
  · exact .logged t _ i
  next _ =>
  split
  · exact .logged t _ i
  next _ =>
  split
  · refine .rejected t reason ?_
    cases hs : i.state <;> simp_all [InsightState.unexposed, InsightState.isInactive]
  · exact .refl i

theorem requestCancellation_edits (i : Insight) : QuietEdits i (requestCancellation i) := by
  unfold requestCancellation
  split
  · exact ⟨⟨rfl, rfl, id⟩, rfl, rfl, .inl rfl⟩
  · exact .refl i

theorem deliver_edits (round : Asset → F64 → F64) (e : Evidence) (i : Insight) :
    Edits i (deliver round i e) := by
  have hc := deliver_reduces round i e
  generalize hx : (deliver round i e).execution = x at hc
  have hid : (deliver round i e).insightId = x.insightId := congrArg Execution.insightId hx
  have ho : (deliver round i e).orderId = x.orderId := congrArg Execution.orderId hx
  have hst : (deliver round i e).state = x.state := congrArg Execution.state hx
  refine ⟨?_, pendingMutations_deliver round i e, ?_⟩
  · rw [hid]
    cases hc <;> rfl
  · unfold Begun
    rw [ho, hst]
    cases hc with
    | unchanged | accounted => exact id
    | entryEnded _ _ hended =>
      intro _
      refine .inr ?_
      obtain rfl | rfl := hended
      · exact (nomatch ·)
      · exact (nomatch ·)
    | _ => exact fun _ => .inr (nomatch ·)

end

namespace InsightStep

def perform (round : Asset → F64 → F64) (i : Insight) : InsightStep → Turn
  | .evidence e => ⟨deliver round i e, []⟩
  | .submit ctx => (AqEngine.Insights.submit ctx ⟨i, []⟩).1
  | .pollSubmission ctx => (pollPendingSubmission ctx ⟨i, []⟩).1
  | .pollTerminal ctx => pollTerminalMutations ctx ⟨i, []⟩
  | .cancel ctx => (AqEngine.Insights.cancel ctx ⟨i, []⟩).1
  | .cancelOrderById ctx orderId => (AqEngine.Insights.cancelOrderById ctx orderId ⟨i, []⟩).1
  | .close ctx quantity price => (tryClosePartial ctx quantity price ⟨i, []⟩).1
  | .takeProfit ctx levels group => (updateTakeProfitInGroup ctx levels group ⟨i, []⟩).1
  | .stopLoss ctx levels => (updateStopLoss ctx levels ⟨i, []⟩).1
  | .entryPrice ctx price stop => (updateEntryPrice ctx price stop ⟨i, []⟩).1
  | .replace ctx price quantity => (replacePendingOrder ctx price quantity ⟨i, []⟩).1
  | .expire ctx => (hasExpired ctx ⟨i, []⟩).1
  | .cleanup ctx => (AqEngine.Insights.cleanup ctx ⟨i, []⟩).1
  | .pipelineFailure t reason => ⟨pipelineFailed t reason i, []⟩
  | .firstFillHandled t => ⟨i.setFirstOnFill t false, []⟩
  | .requestCancellation => ⟨AqEngine.Insights.requestCancellation i, []⟩

theorem insight_perform (round : Asset → F64 → F64) (i : Insight) (step : InsightStep) :
    (step.perform round i).insight = step.apply round i := by
  cases step <;> rfl

def progress : InsightStep → BrokerCommandReceipt → Option BrokerCommandProgress
  | .submit ctx | .pollSubmission ctx | .pollTerminal ctx | .cancel ctx | .cancelOrderById ctx _
  | .close ctx _ _ | .takeProfit ctx _ _ | .stopLoss ctx _ | .entryPrice ctx _ _
  | .replace ctx _ _ | .expire ctx | .cleanup ctx => ctx.progress
  | .evidence _ | .pipelineFailure _ _ | .firstFillHandled _ | .requestCancellation => fun _ => none

end InsightStep

/-- The kinds of mutation a step that is no submission may queue. -/
def InsightStep.kinds (i : Insight) : InsightStep → Set MutationKind
  | .cancel _ | .cancelOrderById _ _ => {.cancel}
  | .close _ _ _ => {.close}
  | .takeProfit _ _ _ => {.takeProfit}
  | .stopLoss _ _ => {.stopLoss}
  | .entryPrice _ _ _ => {.amendEntry}
  | .replace _ _ _ => {.replace}
  | .expire _ | .cleanup _ => {kind | kind = .cancel ∨ kind = .close ∧ i.state = .filled}
  | _ => ∅

theorem perform_acts (round : Asset → F64 → F64) (i : Insight) (step : InsightStep) :
    (∃ e, step = .evidence e) ∨ (∃ ctx, step = .submit ctx) ∨
      Acts i.Distinct step.progress (step.kinds i) ⟨i, []⟩ (step.perform round i) := by
  cases step with
  | evidence e => exact .inl ⟨e, rfl⟩
  | submit ctx => exact .inr (.inl ⟨ctx, rfl⟩)
  | pollSubmission ctx => exact .inr (.inr pollPendingSubmission_acts)
  | pollTerminal ctx => exact .inr (.inr pollTerminalMutations_acts)
  | cancel ctx => exact .inr (.inr (cancel_acts rfl))
  | cancelOrderById ctx orderId => exact .inr (.inr (cancelOrderById_acts orderId rfl))
  | close ctx quantity price => exact .inr (.inr (tryClosePartial_acts quantity price rfl))
  | takeProfit ctx levels group =>
    exact .inr (.inr (updateProtection_acts takeProfit_protects levels group rfl id))
  | stopLoss ctx levels =>
    exact .inr (.inr (updateProtection_acts stopLoss_protects levels none rfl id))
  | entryPrice ctx price stop => exact .inr (.inr (updateEntryPrice_acts price stop rfl id))
  | replace ctx price quantity => exact .inr (.inr (replacePendingOrder_acts price quantity rfl))
  | expire ctx => exact .inr (.inr (hasExpired_acts (.inl rfl) fun hs => .inr ⟨rfl, hs⟩))
  | cleanup ctx => exact .inr (.inr (cleanup_acts (.inl rfl) fun hs => .inr ⟨rfl, hs⟩))
  | pipelineFailure t reason => exact .inr (.inr (.edit (pipelineFailed_edits t reason i)))
  | firstFillHandled t => exact .inr (.inr (.edit (.aside (aside_setFirstOnFill t i false))))
  | requestCancellation => exact .inr (.inr (.edit (requestCancellation_edits i)))

end AqEngine.Insights
