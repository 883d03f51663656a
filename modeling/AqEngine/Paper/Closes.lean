import AqEngine.Paper.Account

namespace AqEngine.Paper.PaperBroker

open List
open Broker (Time)

structure Waits (symbol : String) (request : CloseRequest) (b : PaperBroker) : Prop where
  queued : request ∈ b.closeOrdersQueue
  held : (b.positions.lookup (symbol, request.orderId)).isSome

variable {b : PaperBroker} {k : Book} {symbol : String} {request : CloseRequest} {action : Action}
  {bars : Bars} {time : Time} {bar : Bar}

theorem Waits.act (h : Waits symbol request b) (hs : Stands b k) (hbar : action.bars = none) :
    Waits symbol request (b.act action) := by
  obtain ⟨position, hpos⟩ := Option.isSome_iff_exists.1 h.held
  obtain ⟨-, -, -, -, -, -, hk⟩ := opened_of_position hs hpos
  have ht : Turns (fun _ => True) False k b (b.act action) :=
    turns_act hs hbar (fun _ _ => trivial) False.elim
  refine ⟨ht.asked.queue request h.queued hk, ?_⟩
  rw [ht.asked.mild.quiet.2]
  exact h.held

theorem Waits.run (h : Waits symbol request b) (hs : Stands b k) (waits : List Action)
    (hw : ∀ action ∈ waits, action.bars = none) : Waits symbol request (b.run waits) := by
  induction waits generalizing b k with
  | nil => exact h
  | cons action waits ih =>
    obtain ⟨k', -, hs'⟩ : Leads (fun _ => True) k (b.act action) :=
      reaches_act hs action fun _ _ => trivial
    exact ih (h.act hs (hw action mem_cons_self)) hs'
      fun action hm => hw action (mem_cons_of_mem _ hm)

theorem tradeLog_processCloseRequest {n : Nat} {lot : Lot} {order : Order} {position : Position}
    (ho : Opened b request.orderId n lot order position)
    (hbar : bars.lookup order.asset.symbol = some bar) (exitId : String) :
    (processCloseRequest bars time b request exitId).tradeLog = b.tradeLog ++
      [exitOf order position (request.price.getD bar.close) (requestedQty position request.qty)
        time] := by
  simp only [processCloseRequest, ho.known.found, hbar]
  rw [closePositionForOrder, ho.known.id, ho.held]
  exact (fields_finishClose _ _ _ _ _ _).2

theorem closing_eq (hbar : action.bars = some (bars, time)) :
    ∃ exitIds, ∀ queue, b.closing queue action =
      closePass bars time exitIds (b.closing [] action) queue := by
  cases action with
  | step bars time _ exitIds | flush bars time exitIds =>
    cases hbar
    exact ⟨exitIds, fun _ => rfl⟩
  | _ => cases hbar

theorem closePass_append (exitIds : Nat → String) (pre post : List CloseRequest) :
    closePass bars time exitIds b (pre ++ request :: post) = (post.zipIdx (pre.length + 1)).foldl
      (fun b item => processCloseRequest bars time b item.1 (exitIds item.2))
      (processCloseRequest bars time (closePass bars time exitIds b pre) request
        (exitIds pre.length)) := by
  simp [closePass, zipIdx_append, foldl_append]

theorem Waits.executed (h : Waits symbol request b) (hst : Stands b k)
    (hbar : action.bars = some (bars, time)) (hsy : bars.lookup symbol = some bar) :
    ∃ pre post, b.closeOrdersQueue = pre ++ request :: post ∧ ∀ position,
      (b.closing pre action).positions.lookup (symbol, request.orderId) = some position →
      ∃ record, record.tradeType = .exit ∧ record.orderId = request.orderId ∧
        record.qty = requestedQty position request.qty ∧
        record.price = request.price.getD bar.close ∧
        (b.closing pre action).tradeLog ++ [record] <+: (b.act action).tradeLog := by
  obtain ⟨pre, post, hq⟩ := append_of_mem h.queued
  refine ⟨pre, post, hq, fun position hpos => ?_⟩
  obtain ⟨exitIds, hc⟩ := closing_eq (b := b) hbar
  obtain ⟨⟨k', -, hs'⟩, -⟩ : Carries (fun _ => True) False ⟨pre, _⟩ bars time k b
      (b.closing pre action) := passes_closing hst hbar fun _ h => h
  obtain ⟨n, lot, order, -, ho, hs, -⟩ := opened_of_position hs' hpos
  have hl : (processCloseRequest bars time _ request (exitIds pre.length)).tradeLog = _ :=
    tradeLog_processCloseRequest ho (hs ▸ hsy) _
  have ha : (b.act action).tradeLog = (b.closing (pre ++ request :: post) action).tradeLog := by
    obtain ⟨hn, -⟩ | ⟨-, heq⟩ := act_closing hst hbar
    · simp [hn] at hq
    · rw [heq, ← hq]
      rfl
  obtain ⟨⟨k'', -, hs''⟩, -⟩ : Carries (fun _ => True) False ⟨[request], fun _ => none⟩ bars time k'
      (b.closing pre action) _ :=
    passes_processCloseRequest bars time hs' mem_cons_self nofun (exitIds pre.length) rfl
  have hrest : Carries (fun _ => True) False ⟨post, fun _ => none⟩ bars time k'' _ _ :=
    passes_closePass bars time exitIds (post.zipIdx (pre.length + 1)) hs''
      (fun _ hi => fst_mem_of_mem_zipIdx hi) nofun
  refine ⟨exitOf order position (request.price.getD bar.close) (requestedQty position request.qty)
    time, rfl, ho.known.id, rfl, rfl, ?_⟩
  rw [ha, hc (pre ++ request :: post), closePass_append, ← hc pre, ← hl]
  exact (deeds_grow hrest.deeds).1

theorem Waits.lost (h : Waits symbol request b) (hst : Stands b k)
    (hbar : action.bars = some (bars, time)) (hsy : bars.lookup symbol = none) :
    (b.act action).closeOrdersQueue = [] ∧
      ∀ id, (b.act action).positions.lookup (symbol, id) = b.positions.lookup (symbol, id) := by
  obtain ⟨hn, -⟩ | ⟨-, heq⟩ := act_closing hst hbar
  · exact absurd (hn ▸ h.queued) not_mem_nil
  have hc : Carries (fun _ => True) False ⟨b.closeOrdersQueue, _⟩ bars time k b _ :=
    passes_closing hst hbar fun _ h => h
  rw [heq]
  refine ⟨rfl, fun id => (Lib.Table.lookup_mapKeyed _ _ _).trans ?_⟩
  rw [hsy]
  exact Option.map_id'.trans (Apart.deeds hc.deeds (symbol, id) hsy)

/-- An accepted close request waits as long as no bar comes. The first bar of
its symbol takes what it asks for, as far as the position still holds it. If
other bars come first, the request is lost and the position stays. -/
theorem accepted_close_executed (cash : ℚ) (leverage : Nat) (fees : AssetFees)
    (actions waits : List Action) (id : String) (qty : ℚ) (price : Option ℚ)
    (accepted : PaperBroker) :
    let b := (PaperBroker.new cash leverage fees).run actions
    let c := accepted.run waits
    b.closePosition id qty price = .ok accepted → (∀ action ∈ waits, action.bars = none) →
    ∃ symbol position request, b.positions.lookup (symbol, id) = some position ∧
      request = ⟨id, requestedQty position qty, price⟩ ∧ request ∈ c.closeOrdersQueue ∧
      (c.positions.lookup (symbol, id)).isSome ∧
      (∀ action bars time, action.bars = some (bars, time) → bars.lookup symbol = none →
        (c.act action).closeOrdersQueue = [] ∧
        (c.act action).positions.lookup (symbol, id) = c.positions.lookup (symbol, id)) ∧
      ∀ action bars time bar, action.bars = some (bars, time) → bars.lookup symbol = some bar →
        ∃ pre post, c.closeOrdersQueue = pre ++ request :: post ∧ ∀ left,
          (c.closing pre action).positions.lookup (symbol, id) = some left →
          ∃ record, record.tradeType = .exit ∧ record.orderId = id ∧
            record.qty = min request.qty left.qty ∧ record.price = price.getD bar.close ∧
            (c.closing pre action).tradeLog ++ [record] <+: (c.act action).tradeLog := by
  intro b c hac hwaits
  obtain ⟨k, hst⟩ := stands_run cash leverage fees actions
  obtain ⟨order, position, -, hhe, hpos, heq⟩ := closePosition_eq_ok hac
  have hqu : Stands accepted k ∧
      Waits order.asset.symbol ⟨id, requestedQty position qty, price⟩ accepted := by
    subst heq
    exact ⟨hst.of_eq rfl, mem_append_right _ mem_cons_self,
      Option.isSome_of_eq_some hhe⟩
  obtain ⟨k', -, hst'⟩ : Leads (fun _ => True) k c := reaches_run hqu.1 waits fun _ _ => trivial
  have hwa := hqu.2.run hqu.1 waits hwaits
  refine ⟨_, position, _, hhe, rfl, hwa.queued, hwa.held, fun action bars time hbar hsy => ?_,
    fun action bars time bar hbar hsy => ?_⟩
  · obtain ⟨hqueue, hpositions⟩ := hwa.lost hst' hbar hsy
    exact ⟨hqueue, hpositions id⟩
  obtain ⟨pre, post, hque, hex⟩ := hwa.executed hst' hbar hsy
  refine ⟨pre, post, hque, fun left hleft => ?_⟩
  obtain ⟨record, hty, hid, hqty, hprice, hlog⟩ := hex left hleft
  refine ⟨record, hty, hid, ?_, hprice, hlog⟩
  rw [hqty, requestedQty, if_neg (not_le.2 hpos)]

/-- The close of half a position is accepted, and a step brings a bar of
another symbol only. The request is gone and the position is whole. -/
theorem accepted_close_lost :
    (sampleRun .simple [.close "entry" 1 none]).closeOrdersQueue = [⟨"entry", 1, none⟩] ∧
    (sampleRun .simple [.close "entry" 1 none, barStep "Y" ⟨1, 1, 1, 1⟩]).closeOrdersQueue = [] ∧
    (sampleRun .simple [.close "entry" 1 none, barStep "Y" ⟨1, 1, 1, 1⟩,
      sampleStep]).positions.entries.map (·.2.qty) = [2] := by
  decide +kernel

theorem accepted_close_executed_half :
    ∃ record ∈ (sampleRun .simple [.close "entry" 1 none, .drain 0, sampleStep]).tradeLog,
      record.tradeType = .exit ∧ record.qty = 1 ∧ record.price = 11 := by
  have hok : ((sampleRun .simple []).closePosition "entry" 1 none).isOk = true := by decide +kernel
  cases hac : (sampleRun .simple []).closePosition "entry" 1 none with
  | error e =>
    rw [hac] at hok
    cases hok
  | ok accepted =>
    have hrun : accepted = sampleRun .simple [.close "entry" 1 none] := by
      rw [sampleRun, run_concat, act, ← append_nil (sampleEntry .simple), ← sampleRun, hac]
      rfl
    obtain ⟨symbol, position, request, hpos, rfl, -, -, -, hex⟩ :=
      accepted_close_executed 100 1 {} _ [.drain 0] "entry" 1 none accepted hac
        (by simp [Action.bars])
    obtain rfl : symbol = "X" := by
      have hkey := AList.mem_keys.1 (AList.lookup_isSome.1 (Option.isSome_of_eq_some hpos))
      rw [show ((PaperBroker.new 100 1 {}).run _).positions.keys = [("X", "entry")] by
        decide +kernel, mem_singleton] at hkey
      exact congrArg Prod.fst hkey
    obtain ⟨pre, post, hqueue, hrecord⟩ := hex sampleStep _ _ _ rfl rfl
    have hlength : (accepted.run [.drain 0]).closeOrdersQueue.length = 1 := by
      rw [hrun]
      decide +kernel
    obtain rfl : pre = [] := by
      rw [hqueue, length_append, length_cons] at hlength
      exact length_eq_zero_iff.1 (by omega)
    obtain ⟨left, hleft, hqty⟩ := Option.any_eq_true _ _ |>.1 (show
      ((sampleRun .simple [.close "entry" 1 none]).run [.drain 0] |>.closing []
        sampleStep).positions.lookup ("X", "entry") |>.any (decide <| 2 = ·.qty) from by
        decide +kernel)
    obtain ⟨record, htype, -, hq, hprice, hlog⟩ := hrecord left (hrun ▸ hleft)
    refine ⟨record, ?_, htype, ?_, hprice⟩
    · rw [hrun] at hlog
      exact hlog.subset (mem_append_right _ mem_cons_self)
    · have hp : (((PaperBroker.new 100 1 {}).run (sampleEntry .simple ++ [])).positions.lookup
          ("X", "entry")).map Position.qty = some 2 := by decide +kernel
      rw [hpos] at hp
      rw [hq, ← of_decide_eq_true hqty, requestedQty, Option.some.inj hp]
      decide +kernel

end AqEngine.Paper.PaperBroker
