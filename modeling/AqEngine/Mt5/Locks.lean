import AqEngine.Lib.Locks

namespace AqEngine.Mt5

open Lib

def maxQueueLen : Nat := 10000

inductive Mt5RpcAction where
  | getTickerInfo | getHistory | getExecutionFillHistory | getPositionValuations | getLatestQuote
  | getLatestBar | getOrders | reconcileOrders | getSubmission | estimateMargin | getPositions
  | getAccount | getAccountCashFlows | submitOrder | cancelOrder | updateOrder | amendEntry
  | closePosition | closeAllPositions | subscribeBars | unsubscribeBars
  deriving DecidableEq

/-- The reads and subscriptions; the other actions trade. -/
def Mt5RpcAction.canRetryAfterTransportFailure : Mt5RpcAction → Bool
  | .getTickerInfo | .getHistory | .getExecutionFillHistory | .getPositionValuations
  | .getLatestQuote | .getLatestBar | .getOrders | .reconcileOrders | .getSubmission
  | .estimateMargin | .getPositions | .getAccount | .getAccountCashFlows | .subscribeBars
  | .unsubscribeBars => true
  | _ => false

structure Mt5RpcRequest where
  requestId : Nat
  action : Mt5RpcAction
  payload : String
  deriving DecidableEq

structure Mt5RpcResponse where
  requestId : Nat
  ok : Bool
  (message payload : Option String := none)
  deriving DecidableEq

/-- What the bridge's locks guard: the requests that wait for a socket, and the
ids of those whose senders wait for a response. -/
structure Mt5Bridge where
  rpcQueue : List Mt5RpcRequest := []
  pendingRpc : List Nat := []
  deriving DecidableEq

namespace Mt5Bridge

variable (s : Mt5Bridge)

def register (id : Nat) : Mt5Bridge := { s with pendingRpc := id :: s.pendingRpc }

def push (q : Mt5RpcRequest) : Mt5Bridge := { s with rpcQueue := s.rpcQueue ++ [q] }

def forget (id : Nat) : Mt5Bridge := { s with pendingRpc := s.pendingRpc.filter (· ≠ id) }

def purge (id : Nat) : Mt5Bridge :=
  { s with rpcQueue := s.rpcQueue.filter fun q => q.requestId ≠ id }

def drainRpcRequests (n : Nat) : Mt5Bridge := { s with rpcQueue := s.rpcQueue.drop n }

/-- A disconnected socket does not prove that the terminal never executed a
command, so only what does not trade is put back. -/
def requeueOne (pending : List Nat) (queue : List Mt5RpcRequest) (q : Mt5RpcRequest) :
    List Mt5RpcRequest :=
  if q.action.canRetryAfterTransportFailure = true ∧ q.requestId ∈ pending ∧
      ¬ (queue.any fun queued => queued.requestId = q.requestId) = true then q :: queue
  else queue

def requeueUnansweredRequests (requests : List Mt5RpcRequest) : Mt5Bridge :=
  { s with rpcQueue := requests.reverse.foldl (requeueOne s.pendingRpc) s.rpcQueue }

/-- The sender of the request is taken from the map, if it is there. -/
def applyRpcResponse (r : Mt5RpcResponse) : Mt5Bridge := s.forget r.requestId

end Mt5Bridge

inductive Lock where
  | pendingRpc | rpcQueue
  deriving DecidableEq

/-- How the wait for the answer to a request ends. -/
inductive Fate where
  | answered | closed | timedOut | cancelled
  deriving DecidableEq

abbrev LockCode := Code Lock Mt5Bridge

/-- A guard that lives for one statement. -/
def guarding (l : Lock) (f : Mt5Bridge → Mt5Bridge) (next : LockCode) : LockCode :=
  .lock l (.act f (.unlock l next))

def cleanup (requestId : Nat) (next : LockCode) : LockCode :=
  guarding .pendingRpc (·.forget requestId) (guarding .rpcQueue (·.purge requestId) next)

/-- Both guards are temporaries of the one expression that builds the result:
the first is held while the second is taken. -/
def diagnostics (next : LockCode) : LockCode :=
  .lock .pendingRpc (.lock .rpcQueue (.unlock .rpcQueue (.unlock .pendingRpc next)))

def afterWait (requestId : Nat) (next : LockCode) : Fate → LockCode
  | .answered => .done
  | .closed | .cancelled => cleanup requestId .done
  | .timedOut =>
    diagnostics (guarding .rpcQueue id (guarding .pendingRpc id (cleanup requestId next)))

def isFull (s : Mt5Bridge) : Bool := maxQueueLen ≤ s.rpcQueue.length

/-- One attempt of a request, with whether its debug message is built, and
`next` for the attempt after a timeout. -/
def attempt (q : Mt5RpcRequest) (debug : Bool) (fate : Fate) (next : LockCode) : LockCode :=
  guarding .pendingRpc (·.register q.requestId) <|
    .lock .rpcQueue <| .branch isFull
      (guarding .pendingRpc (·.forget q.requestId) (.unlock .rpcQueue .done))
      (.act (·.push q) (.unlock .rpcQueue
        (if debug then guarding .pendingRpc id (afterWait q.requestId next fate)
          else afterWait q.requestId next fate)))

def requestRpc : List (Mt5RpcRequest × Bool × Fate) → LockCode
  | [] => .done
  | (q, debug, fate) :: attempts => attempt q debug fate (requestRpc attempts)

inductive Operation where
  | request (attempts : List (Mt5RpcRequest × Bool × Fate))
  | enqueue (q : Mt5RpcRequest)
  | drain (maxRequests : Nat)
  | requeue (requests : List Mt5RpcRequest)
  | respond (r : Mt5RpcResponse)
  | cleanup (requestId : Nat)
  | diagnostics | clear

def Operation.code : Operation → LockCode
  | .request attempts => requestRpc (attempts.take 2)
  | .enqueue q =>
    .lock .rpcQueue (.branch isFull (.unlock .rpcQueue .done)
      (.act (·.push q) (.unlock .rpcQueue .done)))
  | .drain maxRequests => guarding .rpcQueue (·.drainRpcRequests maxRequests) .done
  | .requeue requests =>
    .lock .pendingRpc (.lock .rpcQueue (.act (·.requeueUnansweredRequests requests)
      (.unlock .rpcQueue (.unlock .pendingRpc .done))))
  | .respond r => guarding .pendingRpc (·.applyRpcResponse r) .done
  | .cleanup requestId => Mt5.cleanup requestId .done
  | .diagnostics => Mt5.diagnostics .done
  | .clear =>
    guarding .rpcQueue (fun s => { s with rpcQueue := [] })
      (guarding .pendingRpc (fun s => { s with pendingRpc := [] }) .done)

/-- The map is locked before the queue. -/
def Lock.rank : Lock → Nat
  | .pendingRpc => 0
  | .rpcQueue => 1

def roomy (s : Mt5Bridge) : Prop := isFull s = false

/-- An operation starts, or one that was started takes its next step. -/
def move : Operation ⊕ Nat → Tasks.Move Lock Mt5Bridge
  | .inl op => .start op.code
  | .inr k => .run k

def lockStep (s : Tasks Lock Mt5Bridge) (m : Operation ⊕ Nat) : Option (Tasks Lock Mt5Bridge) :=
  s.step (move m)

def findsRoom (s : Tasks Lock Mt5Bridge) (m : Operation ⊕ Nat) : Bool :=
  !s.branches (move m) || !isFull s.data

theorem ordered_afterWait (requestId : Nat) {next : LockCode}
    (h : next.Ordered Lock.rank roomy []) (fate : Fate) :
    (afterWait requestId next fate).Ordered Lock.rank roomy [] := by
  cases fate with
  | timedOut =>
    simpa [afterWait, cleanup, diagnostics, guarding, Code.Ordered, Lock.rank] using h
  | _ => simp [afterWait, cleanup, guarding, Code.Ordered]

theorem ordered_requestRpc (attempts : List (Mt5RpcRequest × Bool × Fate)) :
    (requestRpc attempts).Ordered Lock.rank roomy [] := by
  induction attempts with
  | nil => trivial
  | cons a attempts ih =>
    obtain ⟨q, debug, fate⟩ := a
    have hw := ordered_afterWait q.requestId ih fate
    refine ⟨by simp, by simp, fun s (hs : isFull s = false) => ?_⟩
    rw [hs]
    cases debug with
    | false => exact hw
    | true => exact ⟨by simp, hw⟩

theorem ordered_code (op : Operation) : op.code.Ordered Lock.rank roomy [] := by
  cases op with
  | request attempts => exact ordered_requestRpc _
  | _ => simp [Operation.code, cleanup, diagnostics, guarding, Code.Ordered, Lock.rank]

/-- No operations wait for each other in a cycle, in any interleaving in which
the queue has room whenever an operation looks. -/
theorem locks_never_cycle (bridge : Mt5Bridge) (moves : List (Operation ⊕ Nat))
    (s : Tasks Lock Mt5Bridge) (hroom : guarded lockStep findsRoom ⟨bridge, []⟩ moves = true)
    (h : runs lockStep ⟨bridge, []⟩ moves = some s) : ¬ s.Deadlocked := by
  have hstep : ∀ s m s', s.Ordered Lock.rank roomy → findsRoom s m = true →
      lockStep s m = some s' → s'.Ordered Lock.rank roomy := by
    intro s m s' ho hok hs
    refine ho.step (fun hb => ?_) (fun code hm => ?_) hs
    · rw [findsRoom, hb] at hok
      simpa [roomy] using hok
    · cases m with
      | inl op =>
        cases hm
        exact ordered_code op
      | inr k => cases hm
  have ho := runs_invariant_of hstep (fun _ ht => by cases ht)
    (fun _ _ _ _ hm hr => ok_of_guarded hroom hm hr) h
  exact ho.not_deadlocked

/-- A request that finds the queue full locks the map while it holds the queue. -/
theorem full_queue_deadlocks :
    ∃ s, runs lockStep ⟨{ rpcQueue := List.replicate maxQueueLen ⟨0, .getOrders, ""⟩ }, []⟩
      [.inl (.request [(⟨1, .getOrders, ""⟩, false, .answered)]), .inl (.requeue []),
        .inr 0, .inr 0, .inr 0, .inr 0, .inr 0, .inr 1] = some s ∧ s.Deadlocked := by
  have hfull : isFull { rpcQueue := List.replicate maxQueueLen ⟨0, .getOrders, ""⟩ } = true := by
    simp [isFull]
  generalize ({ rpcQueue := List.replicate _ _ } : Mt5Bridge) = bridge at hfull ⊢
  have hreg : isFull (bridge.register 1) = true := hfull
  refine ⟨⟨bridge.register 1,
    [⟨guarding .pendingRpc (·.forget 1) (.unlock .rpcQueue .done), [.rpcQueue]⟩,
      ⟨.lock .rpcQueue (.act (·.requeueUnansweredRequests [])
        (.unlock .rpcQueue (.unlock .pendingRpc .done))), [.pendingRpc]⟩]⟩, ?_, 0, ?_⟩
  · simp [runs, lockStep, move, Tasks.step, Operation.code, requestRpc, attempt, guarding, hreg]
  · exact .tail (b := 1) (.single ⟨_, _, .pendingRpc, _, rfl, rfl, rfl, by simp⟩)
      ⟨_, _, .rpcQueue, _, rfl, rfl, rfl, by simp⟩

theorem locks_never_cycle_requeue :
    ∃ s, runs lockStep ⟨{}, []⟩ [.inl (.request [(⟨1, .getOrders, ""⟩, true, .timedOut)]),
      .inl (.requeue []), .inr 0, .inr 0, .inr 0, .inr 0, .inr 0, .inr 1] = some s ∧
      ¬ s.Deadlocked := by
  obtain ⟨s, hs⟩ : ∃ s, runs lockStep ⟨{}, []⟩
      [.inl (.request [(⟨1, .getOrders, ""⟩, true, .timedOut)]),
        .inl (.requeue []), .inr 0, .inr 0, .inr 0, .inr 0, .inr 0, .inr 1] = some s := ⟨_, rfl⟩
  exact ⟨s, hs, locks_never_cycle {} _ s (by decide +kernel) hs⟩

end AqEngine.Mt5
