import AqEngine.Broker.SnapshotReads

namespace AqEngine.Broker

open Lib List Option

/-- A request belongs to another generation, or to another membership of its
symbol. -/
def SnapshotRequest.Outdated (r : SnapshotRequest) (s : SnapshotState) : Prop :=
  r.generation ≠ s.generation ∨
    ∃ symbol membership, r.subject = .quote symbol membership ∧ s.member symbol ≠ some membership

namespace SnapshotFeed

open SnapshotState BrokerSnapshotCache

def sent (f : SnapshotFeed) : List SnapshotRequest :=
  f.requests ++ f.natives.map NativeDelivery.request ++ f.delivered.map Prod.fst

def Fresh (f : SnapshotFeed) (r : SnapshotRequest) : Prop :=
  (∃ t ∈ f.tickets, r.subject = t.subject ∧ r.generation = t.generation ∧ r.observed = f.clock) ∨
  (r.subject = .account ∧ r.generation = f.cache.state.generation ∧ r.observed ≤ f.clock) ∨
  ∃ x ∈ f.receptions, r.subject.membership = x.subscription.membership ∧
    r.generation = f.cache.state.generation ∧ r.observed = x.observed

/-- What one action adds to the requests and what comes before them. -/
structure Sends (f f' : SnapshotFeed) : Prop where
  clock : f.clock ≤ f'.clock
  sent : ∀ r ∈ f'.sent, r ∈ f.sent ∨ f.Fresh r
  receptions : ∀ x ∈ f'.receptions, x ∈ f.receptions ∨
    (x.observed = f.clock ∧ (x.symbol, x.subscription) ∈ f.subscriptions)
  tickets : ∀ t ∈ f'.tickets, t ∈ f.tickets ∨
    (t.generation = f.cache.state.generation ∧
      (t.subject.membership = 0 ∨
        ∃ symbol, f.cache.state.member symbol = some t.subject.membership))
  subscriptions : ∀ x ∈ f'.subscriptions, x ∈ f.subscriptions ∨
    x.2 = f.cache.dependencyRevision (.quote x.1)

section

variable {f f' : SnapshotFeed} {action : SnapshotAction} {r : SnapshotRequest}
  {c : BrokerSnapshotCache}

theorem Sends.of_cache (cache : BrokerSnapshotCache) : f.Sends { f with cache } :=
  ⟨le_rfl, fun _ h => .inl h, fun _ h => .inl h, fun _ h => .inl h, fun _ h => .inl h⟩

theorem Sends.of_delivered (response : SnapshotResponse)
    (cache : BrokerSnapshotCache) (hr : r ∈ f.sent) :
    f.Sends { f with cache, delivered := (r, response) :: f.delivered } := by
  refine { Sends.of_cache f.cache with sent := fun q hq => .inl ?_ }
  simp only [SnapshotFeed.sent, mem_append, map_cons, mem_cons] at hq hr ⊢
  obtain (hq | hq) | rfl | hq := hq
  · exact .inl (.inl hq)
  · exact .inl (.inr hq)
  · exact hr
  · exact .inr hq

theorem Sends.of_request (hr : f.Fresh r) : f.Sends { f with requests := r :: f.requests } := by
  refine { Sends.of_cache f.cache with sent := fun q hq => ?_ }
  simp only [SnapshotFeed.sent, cons_append, mem_cons] at hq
  obtain rfl | hq := hq
  · exact .inr hr
  · exact .inl hq

/-- Whatever was asked or sent carries numbers that the cache has given out
and times that have passed. -/
structure Issued (f : SnapshotFeed) : Prop where
  sent : ∀ r ∈ f.sent, r.generation ≤ f.cache.state.generation ∧
    r.subject.membership ≤ f.cache.state.nextMembership ∧ r.observed ≤ f.clock
  receptions : ∀ x ∈ f.receptions,
    x.subscription.membership ≤ f.cache.state.nextMembership ∧ x.observed ≤ f.clock
  tickets : ∀ t ∈ f.tickets, t.generation ≤ f.cache.state.generation ∧
    t.subject.membership ≤ f.cache.state.nextMembership
  subscriptions : ∀ x ∈ f.subscriptions, x.2.membership ≤ f.cache.state.nextMembership
  numbered : f.cache.state.Numbered

theorem Issued.sends (h : f.Issued) (hs : f.Sends f')
    (ha : f.cache.state.Advances f'.cache.state) : f'.Issued := by
  have hc := hs.clock
  have hge := ha.generation
  have hn := ha.next
  refine ⟨fun r hr => ?_, fun x hx => ?_, fun t ht => ?_, fun x hx => ?_, ha.numbered h.numbered⟩
  · obtain hr | ⟨t, ht, hsu, hg, hobserved⟩ | ⟨hsu, hg, hobserved⟩ |
      ⟨x, hx, hme, hg, hobserved⟩ := hs.sent r hr
    · obtain ⟨hi, hme, hp⟩ := h.sent r hr
      exact ⟨hi.trans hge, hme.trans hn, hp.trans hc⟩
    · rw [hsu, hg]
      exact ⟨(h.tickets t ht).1.trans hge, (h.tickets t ht).2.trans hn, hobserved.trans_le hc⟩
    · rw [hsu]
      exact ⟨hg.trans_le hge, Nat.zero_le _, hobserved.trans hc⟩
    · obtain ⟨hi, hp⟩ := h.receptions x hx
      rw [hme, hobserved]
      exact ⟨hg.trans_le hge, hi.trans hn, hp.trans hc⟩
  · obtain hx | ⟨hobserved, hx⟩ := hs.receptions x hx
    · exact ⟨(h.receptions x hx).1.trans hn, (h.receptions x hx).2.trans hc⟩
    · exact ⟨(h.subscriptions _ hx).trans hn, hobserved.trans_le hc⟩
  · obtain ht | ⟨hg, hz | ⟨symbol, hm⟩⟩ := hs.tickets t ht
    · have hi := h.tickets t ht
      omega
    · omega
    · have hi := h.numbered.member symbol _ hm
      omega
  · obtain hx | hx := hs.subscriptions x hx
    · exact (h.subscriptions x hx).trans hn
    rw [hx, dependencyRevision]
    cases hl : f.cache.state.quotes.lookup x.1 with
    | none => exact Nat.zero_le _
    | some slot =>
      have hm : f.cache.state.member x.1 = some slot.membership :=
        map_eq_some_iff.2 ⟨slot, hl, rfl⟩
      exact (h.numbered.member x.1 _ hm).trans hn

/-- What is sent for a membership that was given out after `membership` was
the last one is observed at `time` or later. -/
structure Since (membership : Nat) (time : Instant) (f : SnapshotFeed) : Prop where
  clock : time ≤ f.clock
  sent : ∀ r ∈ f.sent, membership < r.subject.membership → time ≤ r.observed
  receptions : ∀ x ∈ f.receptions, membership < x.subscription.membership → time ≤ x.observed

theorem Issued.since (h : f.Issued) : f.Since f.cache.state.nextMembership f.clock where
  clock := le_rfl
  sent r hr hl := absurd (h.sent r hr).2.1 (not_le.2 hl)
  receptions x hx hl := absurd (h.receptions x hx).1 (not_le.2 hl)

theorem Since.sends {membership : Nat} {time : Instant} (h : f.Since membership time)
    (hs : f.Sends f') : f'.Since membership time where
  clock := h.clock.trans hs.clock
  sent r hr hl := by
    obtain hr | ⟨t, ht, -, -, hobserved⟩ | ⟨hsu, -, -⟩ | ⟨x, hx, hm, -, hobserved⟩ := hs.sent r hr
    · exact h.sent r hr hl
    · rw [hobserved]
      exact h.clock
    · rw [hsu] at hl
      exact absurd hl (Nat.not_lt_zero _)
    · rw [hobserved]
      exact h.receptions x hx (hm ▸ hl)
  receptions x hx hl := by
    obtain hx | ⟨hobserved, -⟩ := hs.receptions x hx
    · exact h.receptions x hx hl
    rw [hobserved]
    exact h.clock

/-- A response to a request of the current generation has brought the entry. -/
def Attests (f : SnapshotFeed) (subject : SnapshotSubject) (e : SnapshotEntry)
    (observed : Option Instant) : Prop :=
  ∃ r response, (r, response) ∈ f.delivered ∧ r.subject = subject ∧
    r.generation = f.cache.state.generation ∧ response.entry = some e ∧
    ∀ t, observed = some t → t = r.observed

def Sourced (f : SnapshotFeed) : Prop :=
  ∀ subject e observed, f.cache.state.entry subject = some (e, observed) →
    f.Attests subject e observed

theorem Sourced.quiet (h : f.Sourced) (hen : ∀ subject x, f'.cache.state.entry subject = some x →
      f.cache.state.entry subject = some x ∧ f'.cache.state.generation = f.cache.state.generation)
    (hd : ∀ x ∈ f.delivered, x ∈ f'.delivered) : f'.Sourced := by
  intro subject e observed he
  obtain ⟨he, hg⟩ := hen subject _ he
  obtain ⟨r, response, hr, hs, hc, hre, hobserved⟩ := h subject e observed he
  exact ⟨r, response, hd _ hr, hs, hc.trans hg.symm, hre, hobserved⟩

theorem Sourced.delivery (h : f.Sourced) {response : SnapshotResponse}
    (hd : Delivery f.cache c r response.entry) :
    { f with cache := c, delivered := (r, response) :: f.delivered }.Sourced := by
  obtain rfl | ⟨entry, observed, haccepts, hinstalls, he, hobserved⟩ | ⟨haccepts, -, hdisowns⟩ := hd
  · exact h.quiet (fun _ _ hx => ⟨hx, rfl⟩) fun _ hx => mem_cons_of_mem _ hx
  · intro subject e t hen
    by_cases hs : subject = r.subject
    · subst hs
      rw [hinstalls.entry] at hen
      cases hen
      refine ⟨r, response, mem_cons_self, rfl, ?_, he, hobserved⟩
      exact (accepts_iff.1 haccepts).1.symm.trans hinstalls.same.symm
    · rw [hinstalls.other subject hs] at hen
      obtain ⟨q, answer, hq, hqs, hc, ha, hqt⟩ := h subject e t hen
      exact ⟨q, answer, mem_cons_of_mem _ hq, hqs, hc.trans hinstalls.same.symm, ha, hqt⟩
  · refine h.quiet (fun subject x hx => ⟨?_, hdisowns.same⟩) fun _ hx => mem_cons_of_mem _ hx
    obtain hsa | hn := hdisowns.entry subject
    · rw [← hsa, hx]
    rw [hn] at hx
    cases hx

theorem Delivery.advances {c' : BrokerSnapshotCache}
    {e : Option SnapshotEntry} (h : Delivery c c' r e) : c.state.Advances c'.state := by
  obtain rfl | ⟨_, _, -, hinstalls, -, -⟩ | ⟨-, -, hdisowns⟩ := h
  · exact .refl _
  · exact hinstalls.advances
  · exact hdisowns.advances

/-- One action sends what it may send, moves the cache forward, and leaves
whatever can be read backed by a response. -/
structure Moves (f f' : SnapshotFeed) : Prop where
  sends : f.Sends f'
  advances : f.cache.state.Advances f'.cache.state
  sourced : f'.Sourced

theorem Sourced.asks (h : f.Sourced) (hs : f.Sends f') (hc : f'.cache = f.cache)
    (hd : f'.delivered = f.delivered) : f.Moves f' := by
  refine ⟨hs, by rw [hc]; exact .refl _, h.quiet (fun _ x hx => ?_) fun x hx => ?_⟩
  · rw [hc] at hx ⊢
    exact ⟨hx, rfl⟩
  · rw [hd]
    exact hx

theorem Sourced.same (h : f.Sourced) : f.Moves f := h.asks (.of_cache f.cache) rfl rfl

theorem Sourced.tracks (h : f.Sourced) (hn : f.cache.state.Numbered)
    (ht : f.cache.state.Tracks c.state) : f.Moves { f with cache := c } := by
  refine ⟨.of_cache c, ht.advances hn, h.quiet (fun _ x hx => ?_) fun _ hx => hx⟩
  exact ⟨ht.entry hx, ht.generation⟩

theorem Fences.moves (h : f.cache.state.Fences c.state) : f.Moves { f with cache := c } := by
  refine ⟨.of_cache c, h.advances, fun _ e _ he => ?_⟩
  rw [h.entry] at he
  cases he

theorem Delivery.moves {response : SnapshotResponse}
    (h : Delivery f.cache c r response.entry) (hr : r ∈ f.sent) (hs : f.Sourced) :
    f.Moves { f with cache := c, delivered := (r, response) :: f.delivered } :=
  ⟨.of_delivered response c hr, Delivery.advances h, hs.delivery h⟩

theorem generation_of_request {worker generation : Nat}
    (h : c.requestGeneration worker = some generation) : generation = c.state.generation := by
  unfold requestGeneration at h
  split at h
  · exact (Option.some.inj h).symm
  · cases h

theorem step_moves (hn : f.cache.state.Numbered) (hs : f.Sourced)
    (h : f.step action = some f') : f.Moves f' := by
  cases action with
  | elapse duration =>
    cases h
    have hcl := le_add_of_nonneg_right (a := f.clock) (Int.natCast_nonneg duration)
    exact hs.asks { Sends.of_cache f.cache with clock := hcl } rfl rfl
  | setSymbols =>
    obtain ⟨r, hr, rfl⟩ := map_eq_some_iff.1 h
    unfold setSymbols at hr
    split at hr
    · cases hr
      exact hs.same
    obtain ⟨state, hst, hr⟩ := bind_eq_some_iff.1 hr
    cases hr
    exact hs.tracks hn ((retain_tracks f.cache.state _).trans (addSymbols_tracks hst))
  | setCapacitySymbols =>
    cases h
    unfold setCapacitySymbols
    split
    · exact hs.same
    exact hs.tracks hn ⟨rfl, le_rfl, rfl, rfl, rfl, rfl, rfl, rfl, rfl, fun _ _ hsl => .inl hsl⟩
  | invalidate =>
    obtain ⟨c, hc, rfl⟩ := map_eq_some_iff.1 h
    obtain ⟨state, hst, rfl⟩ := map_eq_some_iff.1 hc
    exact Fences.moves (fence_fences hn hst)
  | claimWorker =>
    obtain ⟨r, hr, rfl⟩ := map_eq_some_iff.1 h
    unfold claimWorker at hr
    split at hr
    · cases hr
      exact hs.same
    split at hr
    · cases hr
      exact hs.same
    obtain ⟨worker, -, hr⟩ := bind_eq_some_iff.1 hr
    obtain ⟨state, hst, hr⟩ := bind_eq_some_iff.1 hr
    cases hr
    exact Fences.moves (fence_worker hn hst)
  | releaseWorker worker =>
    obtain ⟨c, hc, rfl⟩ := map_eq_some_iff.1 h
    unfold releaseWorker at hc
    split at hc
    · cases hc
      exact hs.same
    obtain ⟨state, hst, rfl⟩ := map_eq_some_iff.1 hc
    exact Fences.moves (fence_worker hn hst)
  | ask worker subject =>
    rw [step] at h
    split at h
    · cases h
    next hqu =>
    obtain ⟨generation, hg, rfl⟩ := map_eq_some_iff.1 h
    refine hs.asks { Sends.of_cache f.cache with tickets := fun t ht => ?_ } rfl rfl
    obtain rfl | ht := mem_cons.1 ht
    · refine .inr ⟨generation_of_request hg, .inl ?_⟩
      cases subject with
      | quote symbol => exact absurd rfl hqu
      | _ => rfl
    · exact .inl ht
  | askQuotes worker =>
    obtain ⟨requests, hre, rfl⟩ := map_eq_some_iff.1 h
    refine hs.asks { Sends.of_cache f.cache with tickets := fun t ht => ?_ } rfl rfl
    obtain ht | ht := mem_append.1 ht
    · obtain ⟨r, hr, rfl⟩ := List.mem_map.1 ht
      unfold quoteRequests at hre
      split at hre
      · cases hre
        obtain ⟨⟨symbol, slot⟩, hsl, rfl⟩ := List.mem_map.1 hr
        have hl : f.cache.state.quotes.lookup symbol = some slot :=
          AList.mem_lookup_iff.2 (mem_filter.1 hsl).1
        exact .inr ⟨rfl, .inr ⟨symbol, map_eq_some_iff.2 ⟨slot, hl, rfl⟩⟩⟩
      · cases hre
    · exact .inl ht
  | dispatch ticket =>
    obtain ⟨hti, h⟩ := ite_none_right_eq_some.1 h
    cases h
    exact hs.asks (.of_request (.inl ⟨ticket, hti.1, rfl, rfl, rfl⟩)) rfl rfl
  | seedAccount worker =>
    obtain ⟨hobserved, h⟩ := ite_none_right_eq_some.1 h
    obtain ⟨generation, hg, rfl⟩ := map_eq_some_iff.1 h
    exact hs.asks (.of_request (.inr (.inl ⟨rfl, generation_of_request hg, hobserved⟩))) rfl rfl
  | respond =>
    obtain ⟨hrequ, h⟩ := ite_none_right_eq_some.1 h
    obtain ⟨c, hc, rfl⟩ := map_eq_some_iff.1 h
    exact Delivery.moves (deliver_delivery hc)
      (mem_append_left _ (mem_append_left _ hrequ)) hs
  | subscribe symbol =>
    cases h
    refine hs.asks { Sends.of_cache f.cache with subscriptions := fun x hx => ?_ } rfl rfl
    obtain rfl | hx := mem_cons.1 hx
    · exact .inr rfl
    · exact .inl hx
  | receive symbol =>
    obtain ⟨hsu, h⟩ := ite_none_right_eq_some.1 h
    cases h
    refine hs.asks { Sends.of_cache f.cache with receptions := fun x hx => ?_ } rfl rfl
    obtain rfl | hx := mem_cons.1 hx
    · exact .inr ⟨rfl, hsu⟩
    · exact .inl hx
  | readSource reception =>
    obtain ⟨hrec, h⟩ := ite_none_right_eq_some.1 h
    cases h
    unfold SnapshotFeed.readSource
    dsimp only
    split
    · next hsa =>
      refine hs.asks { Sends.of_cache f.cache with sent := fun q hq => ?_ } rfl rfl
      simp only [SnapshotFeed.sent, map_cons, mem_append, mem_cons] at hq
      obtain (hq | rfl | hq) | hq := hq
      · exact .inl (mem_append_left _ (mem_append_left _ hq))
      · simp only [SnapshotReadRevision.sameSubscription, Bool.and_eq_true,
          decide_eq_true_eq] at hsa
        exact .inr (.inr (.inr ⟨reception, hrec, hsa.2, rfl, rfl⟩))
      · exact .inl (mem_append_left _ (mem_append_right _ hq))
      · exact .inl (mem_append_right _ hq)
    · exact hs.same
  | respondNative delivery quote =>
    obtain ⟨hd, h⟩ := ite_none_right_eq_some.1 h
    obtain ⟨c, hc, rfl⟩ := map_eq_some_iff.1 h
    have he : Delivery f.cache c delivery.request (SnapshotResponse.quote quote).entry :=
      deliverNative_delivery hd.2 hc
    exact Delivery.moves he
      (mem_append_left _ (mem_append_right _ (List.mem_map_of_mem hd.1))) hs

end

variable {f f' : SnapshotFeed} {actions : List SnapshotAction} {cache : BrokerSnapshotCache}

def start (cache : BrokerSnapshotCache) (clock : Instant) : SnapshotFeed := { cache, clock }

structure Reached (f : SnapshotFeed) : Prop where
  issued : f.Issued
  sourced : f.Sourced
  indexed : f.cache.state.Indexed

theorem reached_start {identity : Uuid} {accountId : String} {freshness : SnapshotFreshness}
    (h : BrokerSnapshotCache.new identity accountId freshness = .ok cache) (clock : Instant) :
    (start cache clock).Reached := by
  have hs : cache.state = {} := by
    unfold BrokerSnapshotCache.new at h
    split at h
    · cases h
    cases h
    rfl
  refine ⟨⟨nofun, nofun, nofun, nofun, ?_⟩, fun subject e _ he => ?_, fun t ht => ?_⟩
  · rw [start, hs]
    exact ⟨nofun, nofun⟩
  · rw [start, hs] at he
    cases subject <;> cases he
  · rw [start, hs] at ht
    cases ht

theorem Reached.step {action : SnapshotAction} (h : f.Reached) (hstep : f.step action = some f') :
    f'.Reached ∧ f.Moves f' := by
  have hm := step_moves h.issued.numbered h.sourced hstep
  exact ⟨⟨h.issued.sends hm.sends hm.advances, hm.sourced, hm.advances.indexed h.indexed⟩, hm⟩

theorem Reached.runs (h : f.Reached) (hr : Lib.runs SnapshotFeed.step f actions = some f') :
    f'.Reached :=
  runs_invariant (P := Reached) (fun _ _ _ hf hstep => (hf.step hstep).1) h hr

theorem Reached.advances (h : f.Reached) (hr : Lib.runs SnapshotFeed.step f actions = some f') :
    f.cache.state.Advances f'.cache.state ∧ f'.Since f.cache.state.nextMembership f.clock := by
  refine (runs_invariant (P := fun g => g.Reached ∧ f.cache.state.Advances g.cache.state ∧
    g.Since f.cache.state.nextMembership f.clock) ?_ ⟨h, .refl _, h.issued.since⟩ hr).2
  rintro g action g' ⟨hg, ha, hs⟩ hstep
  obtain ⟨hg', hm⟩ := hg.step hstep
  exact ⟨hg', ha.trans hm.advances, hs.sends hm.sends⟩

theorem Reached.outdated {r : SnapshotRequest} {c : BrokerSnapshotCache} {e : Option SnapshotEntry}
    (h : f.Reached) (hru : Lib.runs SnapshotFeed.step f actions = some f') (hr : r ∈ f.sent)
    (ho : r.Outdated f.cache.state) (hd : Delivery f'.cache c r e) :
    c = f'.cache := by
  obtain ⟨ha, -⟩ := h.advances hru
  obtain ⟨hg, hm, -⟩ := h.issued.sent r hr
  have hre : f'.cache.state.accepts r.generation = true →
      ¬ f'.cache.state.Barred r.subject → False := by
    intro haccepts hfree
    obtain hot | ⟨symbol, membership, hs, hme⟩ := ho
    · have hc := (accepts_iff.1 haccepts).1
      have hf := ha.generation
      omega
    rw [hs] at hm
    refine hfree (ha.barred (.inr ⟨symbol, membership, hs, hm, hme⟩))
  obtain hsa | ⟨_, _, haccepts, hinstalls, -, -⟩ | ⟨haccepts, hfree, -⟩ := hd
  · exact hsa
  · exact (hre haccepts hinstalls.free).elim
  · exact (hre haccepts hfree).elim

structure Ordered (s s' : SnapshotState) : Prop where
  account : ∀ t t', s.account = some t → s'.account = some t' → t.observed ≤ t'.observed
  orders : ∀ t t', s.orders = some t → s'.orders = some t' → t.observed ≤ t'.observed
  positions : ∀ t t', s.positions = some t → s'.positions = some t' → t.observed ≤ t'.observed
  quote : ∀ symbol slot slot' t t', s.quotes.lookup symbol = some slot → slot.value = some t →
    s'.quotes.lookup symbol = some slot' → slot'.value = some t' → t.observed ≤ t'.observed

theorem entry_quote {s : SnapshotState} {symbol : String} {slot : QuoteSlot} {t : Timed Quote}
    (hs : s.quotes.lookup symbol = some slot) (ht : slot.value = some t) :
    s.entry (.quote symbol slot.membership) = some (.quote t.value, some t.observed) := by
  rw [entry, quoteValue, hs, filter_some, if_pos (decide_eq_true rfl), bind_some, ht]
  rfl

theorem Reached.ordered (h : f.Reached) (hru : Lib.runs SnapshotFeed.step f actions = some f')
    (hsa : f'.cache.state.generation = f.cache.state.generation) :
    Ordered f.cache.state f'.cache.state := by
  obtain ⟨had, hsi⟩ := h.advances hru
  have hre := h.runs hru
  have hk : ∀ subject e t e' t', f.cache.state.entry subject = some (e, some t) →
      f'.cache.state.entry subject = some (e', some t') → t ≤ t' := by
    intro subject e t e' t' he he'
    obtain ⟨e'', t'', hl, ht⟩ | ⟨-, hn⟩ := had.kept hsa subject e t he
    · rw [hl] at he'
      cases he'
      exact ht
    rw [hn] at he'
    cases he'
  refine ⟨fun t t' ht ht' => ?_, fun t t' ht ht' => ?_, fun t t' ht ht' => ?_,
    fun symbol _ slot' t t' hs ht hs' ht' => ?_⟩
  · exact hk .account _ _ _ _ (by rw [entry, ht]; rfl) (by rw [entry, ht']; rfl)
  · exact hk .orders _ _ _ _ (by rw [entry, ht]; rfl) (by rw [entry, ht']; rfl)
  · exact hk .positions _ _ _ _ (by rw [entry, ht]; rfl) (by rw [entry, ht']; rfl)
  · have hb := entry_quote hs ht
    have ha := entry_quote hs' ht'
    by_cases hme : slot'.membership ≤ f.cache.state.nextMembership
    · have hm := had.member symbol slot'.membership (map_eq_some_iff.2 ⟨slot', hs', rfl⟩) hme
      rw [member, hs, map_some, Option.some.injEq] at hm
      rw [← hm] at ha
      exact hk _ _ _ _ _ hb ha
    · -- a later membership: its requests are sent after the time of the first state
      obtain ⟨r, response, hr, -, -, -, hobserved⟩ := h.sourced _ _ _ hb
      obtain ⟨r', response', hr', hsu', -, -, ho'⟩ := hre.sourced _ _ _ ha
      have hse : r ∈ f.sent := mem_append_right _ (List.mem_map.2 ⟨(r, response), hr, rfl⟩)
      have hse' : r' ∈ f'.sent :=
        mem_append_right _ (List.mem_map.2 ⟨(r', response'), hr', rfl⟩)
      rw [hobserved _ rfl, ho' _ rfl]
      refine (h.issued.sent r hse).2.2.trans (hsi.sent r' hse' ?_)
      rw [hsu']
      exact not_le.1 hme

/-- What the reads of a cache return came with a response to a request of the
current generation and, for a quote, of the current membership. -/
structure Attested (f : SnapshotFeed) : Prop where
  account : ∀ now value, f.cache.accountAt now = .ok value →
    ∃ observed, f.Attests .account (.account value) observed
  positions : ∀ now value, f.cache.positions now = .ok value →
    ∃ observed, f.Attests .positions (.positions value) observed
  orders : ∀ now value, f.cache.orderCapacity now = .ok value →
    ∃ observed, f.Attests .orders (.orders value) observed
  cashFlows : ∀ now value, f.cache.accountCashFlows now = .ok value →
    f.Attests .cashFlows (.cashFlows value) none
  quote : ∀ now symbol wallNow value, f.cache.quoteAt now symbol wallNow = .ok value →
    ∃ membership observed, f.cache.state.member symbol = some membership ∧
      f.Attests (.quote symbol membership) (.quote value) observed

theorem Sourced.attested (h : f.Sourced) : f.Attested where
  account now value hr := by
    unfold accountAt at hr
    split at hr
    · cases hr
    obtain ⟨observed, hi⟩ := readTimed_eq_ok hr
    exact ⟨some observed, h .account _ _ (by rw [entry, hi]; rfl)⟩
  positions now value hr := by
    obtain ⟨observed, hi⟩ := positions_eq_ok hr
    exact ⟨some observed, h .positions _ _ (by rw [entry, hi]; rfl)⟩
  orders now value hr := by
    unfold BrokerSnapshotCache.orderCapacity at hr
    split at hr
    · cases hr
    split at hr
    · cases hr
    obtain ⟨-, -, hr⟩ := Fallible.bind_eq_ok.1 hr
    obtain ⟨observed, hi⟩ := readTimed_eq_ok hr
    exact ⟨some observed, h .orders _ _ (by rw [entry, hi]; rfl)⟩
  cashFlows now value hr := by
    unfold accountCashFlows at hr
    split at hr
    · cases hr
    · cases hr
    · next _ _ hf =>
      split at hr
      · cases hr
      next hc =>
      cases hr
      simp only [Bool.or_eq_true, decide_eq_true_eq, not_or, not_not] at hc
      refine h .cashFlows _ _ ?_
      rw [entry, hf, filter_some, if_pos (decide_eq_true hc.2)]
      rfl
  quote now symbol wallNow value hr := by
    unfold quoteAt at hr
    split at hr
    · cases hr
    split at hr
    · cases hr
    next slot hs =>
    obtain ⟨quote, hq, hr⟩ := Fallible.bind_eq_ok.1 hr
    obtain ⟨observed, hv⟩ := readTimed_eq_ok hq
    have hsa : quote = value := by
      split at hr
      · split at hr
        · cases hr
        · cases hr
      cases hr
      rfl
    subst hsa
    exact ⟨slot.membership, some observed, map_eq_some_iff.2 ⟨slot, hs, rfl⟩,
      h _ _ _ (entry_quote hs hv)⟩

/-- Along every run of a cache and its requests: reads are backed by the
current generation, outdated responses change nothing, observations do not go
back within a generation, another account blocks every read for ever, and the
position index answers as a scan, except that it says nothing about positions
that a snapshot without all ids may hide. -/
theorem snapshot_fencing {identity : Uuid} {accountId : String} {freshness : SnapshotFreshness}
    {clock : Instant} {later : List SnapshotAction}
    (hnew : BrokerSnapshotCache.new identity accountId freshness = .ok cache)
    (hruns : Lib.runs step (start cache clock) actions = some f)
    (hlater : Lib.runs step f later = some f') :
    f.Attested ∧
    (∀ r ∈ f.requests, r.Outdated f.cache.state → ∀ response c,
      f'.cache.deliver r response = some c → c = f'.cache) ∧
    (∀ d ∈ f.natives, d.request.Outdated f.cache.state → ∀ quote lease enabled c,
      quote.symbol = d.symbol → f'.cache.deliverNative d quote lease enabled = some c →
      c = f'.cache) ∧
    (f'.cache.state.generation = f.cache.state.generation →
      Ordered f.cache.state f'.cache.state) ∧
    (f.cache.state.accountChanged = true → f'.cache.Blocked) ∧
    (∀ generation observed account c, f.cache.state.accepts generation = true →
      trim account.accountId ≠ f.cache.expectedAccount →
      f.cache.publishAccount generation observed account = some c →
      c.state.accountChanged = true) ∧
    (∀ generation observed positions c, f.cache.state.accepts generation = true →
      positions.length ≤ maxSnapshotPositions →
      Timed.isLater f.cache.state.positions observed = false →
      (∃ p ∈ positions, trim p.accountId ≠ f.cache.expectedAccount) →
      f.cache.publishPositions generation observed positions = some c →
      c.state.accountChanged = true) ∧
    (∀ now positions order symbol, f.cache.positions now = .ok positions →
      isBlank order = false → order.utf8ByteSize ≤ 512 → isBlank symbol = false →
      f.cache.positionByOrderId now order symbol =
        match scanPositions positions order with
        | some p => if p.asset.symbol ≠ symbol then .error .invalid else .ok (some p)
        | none =>
          if positions.all (·.indexId.isSome) then .ok none else .error .missing) ∧
    ∀ generation observed positions (i j : Nat) (p q : Position) (id : String), i ≠ j →
      positions[i]? = some p → positions[j]? = some q → p.indexId = some id → q.indexId = some id →
      (∀ p ∈ positions, trim p.accountId = f.cache.expectedAccount) →
      f.cache.publishPositions generation observed positions = some f.cache := by
  have hre := (reached_start hnew clock).runs hruns
  refine ⟨hre.sourced.attested, fun r hr hou response c hc => ?_,
    fun d hd hou quote lease enabled c hsy hc => ?_, hre.ordered hlater,
    fun hch => ?_, fun _ _ _ _ => publishAccount_changed,
    fun _ _ _ _ => publishPositions_changed,
    fun _ _ _ _ hpo => positionByOrderId_eq hre.indexed hpo,
    fun _ _ _ _ _ _ _ _ => publishPositions_duplicate⟩
  · have hse : r ∈ f.sent := mem_append_left _ (mem_append_left _ hr)
    exact hre.outdated hlater hse hou (deliver_delivery hc)
  · have hse : d.request ∈ f.sent :=
      mem_append_left _ (mem_append_right _ (List.mem_map_of_mem hd))
    exact hre.outdated hlater hse hou
      (deliverNative_delivery hsy hc)
  · exact blocked_of_changed ((hre.advances hlater).1.changed hch)

def sampleCache : BrokerSnapshotCache where
  identity := default
  expectedAccount := "A"
  freshness := ⟨5, 5, 5, 1⟩

def sampleRequest : SnapshotRequest := ⟨.account, 1, 0⟩

theorem snapshot_fencing_late : ∃ f,
    Lib.runs step (start sampleCache 0) [.claimWorker, .ask 1 .account,
      .dispatch ⟨1, .account, 1⟩ (fun _ => false) 0, .invalidate] = some f ∧
    sampleRequest ∈ f.requests ∧
    ∀ response c, f.cache.deliver sampleRequest response = some c → c = f.cache := by
  have hnew : BrokerSnapshotCache.new default "A" ⟨5, 5, 5, 1⟩ = .ok sampleCache := rfl
  have hst (f : SnapshotFeed) : Lib.runs step f [] = some f := rfl
  refine ⟨?f, ?run, ?asked,
    (snapshot_fencing hnew ?run (hst _)).2.1 sampleRequest ?asked (.inl ?outdated)⟩
  case run => rfl
  all_goals decide +kernel

def sampleAsset : Asset := ⟨"S", true, true, none, none, none, none⟩

def samplePosition (orderId : String) : Position where
  accountId := "A"
  orderId := some orderId
  asset := sampleAsset
  avgEntryPrice := 1
  qty := 1
  marketValue := 1
  costBasis := 1
  currentPrice := 1
  unrealizedPnl := 0
  realizedPnl := 0
  entryCommission := 0
  marginRequired := none

def overlongId : String := .ofList (List.replicate 513 'x')

def sampleAccount : Account := ⟨"A", 1, 1, "USD", 1, 0, none⟩

/-- Two positions with one overlong id are installed. The scan for another id
finds nothing, and the lookup does not say so. -/
theorem overlong_ids_installed :
    (Lib.runs step (start sampleCache 0) [.claimWorker, .ask 1 .account,
      .dispatch ⟨1, .account, 1⟩ (fun _ => false) 0, .ask 1 .positions,
      .dispatch ⟨1, .positions, 1⟩ (fun _ => false) 0,
      .respond sampleRequest (.account sampleAccount),
      .respond ⟨.positions, 1, 0⟩
        (.positions [samplePosition overlongId, samplePosition overlongId])]).map (fun f =>
      (f.cache.positions 0, f.cache.positionByOrderId 0 "other" "S")) =
      some (.ok [samplePosition overlongId, samplePosition overlongId], .error .missing) ∧
    scanPositions [samplePosition overlongId, samplePosition overlongId] "other" = none := by
  decide +kernel

end SnapshotFeed

end AqEngine.Broker
