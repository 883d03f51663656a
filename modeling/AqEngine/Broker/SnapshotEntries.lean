import AqEngine.Broker.SnapshotFeed
import AqEngine.Lib.Index

namespace AqEngine.Broker

open Lib Option

inductive SnapshotEntry where
  | account (value : Account)
  | orders (value : OrderCapacitySnapshot)
  | positions (value : List Position)
  | cashFlows (value : AccountCashFlows)
  | quote (value : Quote)

def SnapshotResponse.entry : SnapshotResponse → Option SnapshotEntry
  | .account value => some (.account value)
  | .orders value => (orderCapacity value).map .orders
  | .positions value => some (.positions value)
  | .cashFlows value => some (.cashFlows value)
  | .quote value => some (.quote value)

def Timed.entry {α : Type} (wrap : α → SnapshotEntry) (t : Timed α) :
    SnapshotEntry × Option Instant := (wrap t.value, some t.observed)

namespace SnapshotState

variable (s : SnapshotState)

def member (symbol : String) : Option Nat := (s.quotes.lookup symbol).map (·.membership)

def quoteValue (symbol : String) (membership : Nat) : Option (Timed Quote) :=
  ((s.quotes.lookup symbol).filter fun slot => slot.membership = membership).bind (·.value)

/-- What is installed for a subject, with the time it was observed. Cash
flows of another generation cannot be read. -/
def entry : SnapshotSubject → Option (SnapshotEntry × Option Instant)
  | .account => s.account.map (·.entry .account)
  | .orders => s.orders.map (·.entry .orders)
  | .positions => s.positions.map (·.entry .positions)
  | .cashFlows => (s.cashFlows.filter fun x => x.1 = s.generation).map fun x =>
      (.cashFlows x.2, none)
  | .quote symbol membership => (s.quoteValue symbol membership).map (·.entry .quote)

/-- Nothing is installed for the subject any more: the account is another
one, or the symbol was removed. -/
def Barred (subject : SnapshotSubject) : Prop :=
  s.accountChanged = true ∨ ∃ symbol membership, subject = .quote symbol membership ∧
    membership ≤ s.nextMembership ∧ s.member symbol ≠ some membership

structure Numbered : Prop where
  member : ∀ symbol membership, s.member symbol = some membership → membership ≤ s.nextMembership
  cashFlows : ∀ x, s.cashFlows = some x → x.1 ≤ s.generation

def Indexed : Prop :=
  ∀ t, s.positions = some t →
    indexPositions t.value = some (s.positionsByOrder, s.positionIdsComplete)

/-- How a state comes after another one. Within a generation an entry gives
way only to a later observation, or for ever. -/
structure Advances (s s' : SnapshotState) : Prop where
  generation : s.generation ≤ s'.generation
  next : s.nextMembership ≤ s'.nextMembership
  changed : s.accountChanged = true → s'.accountChanged = true
  member : ∀ symbol membership, s'.member symbol = some membership →
    membership ≤ s.nextMembership → s.member symbol = some membership
  numbered : s.Numbered → s'.Numbered
  indexed : s.Indexed → s'.Indexed
  kept : s'.generation = s.generation → ∀ subject e t, s.entry subject = some (e, some t) →
    (∃ e' t', s'.entry subject = some (e', some t') ∧ t ≤ t') ∨
      (s'.Barred subject ∧ s'.entry subject = none)
  closed : ∀ subject x, s.Barred subject → s'.entry subject = some x → s.entry subject = some x

section

variable {s s' s'' : SnapshotState} {subject : SnapshotSubject}

theorem Advances.barred (h : s.Advances s') (hbar : s.Barred subject) : s'.Barred subject := by
  obtain hc | ⟨symbol, membership, rfl, hn, hm⟩ := hbar
  · exact .inl (h.changed hc)
  refine .inr ⟨symbol, membership, rfl, hn.trans h.next, fun hno => ?_⟩
  exact hm (h.member symbol membership hno hn)

theorem Advances.refl (s : SnapshotState) : s.Advances s where
  generation := le_rfl
  next := le_rfl
  changed h := h
  member _ _ h _ := h
  numbered h := h
  indexed h := h
  kept _ _ e t h := .inl ⟨e, t, h, le_rfl⟩
  closed _ _ _ h := h

theorem Advances.trans (h : s.Advances s') (h' : s'.Advances s'') : s.Advances s'' where
  generation := h.generation.trans h'.generation
  next := h.next.trans h'.next
  changed hc := h'.changed (h.changed hc)
  member symbol membership hnow hn :=
    h.member symbol membership (h'.member symbol membership hnow (hn.trans h.next)) hn
  numbered hnu := h'.numbered (h.numbered hnu)
  indexed hi := h'.indexed (h.indexed hi)
  kept hg subject e t he := by
    -- the generation does not move in between either
    have hf : s'.generation = s.generation := le_antisymm (hg ▸ h'.generation) h.generation
    obtain ⟨e', t', he', ht⟩ | ⟨hbar, hno⟩ := h.kept hf subject e t he
    · obtain ⟨e'', t'', he'', ht'⟩ | hgo := h'.kept (hg.trans hf.symm) subject e' t' he'
      · exact .inl ⟨e'', t'', he'', ht.trans ht'⟩
      · exact .inr hgo
    · refine .inr ⟨h'.barred hbar, ?_⟩
      cases hl : s''.entry subject with
      | none => rfl
      | some x =>
        rw [h'.closed subject x hbar hl] at hno
        cases hno
  closed subject x hbar he := h.closed subject x hbar (h'.closed subject x (h.barred hbar) he)

/-- The counters go on and the memberships stay. -/
structure Frame (s s' : SnapshotState) : Prop where
  generation : s.generation ≤ s'.generation
  next : s'.nextMembership = s.nextMembership
  changed : s.accountChanged = true → s'.accountChanged = true
  member : ∀ symbol, s'.member symbol = s.member symbol
  cashFlows : ∀ x, s'.cashFlows = some x → s.cashFlows = some x ∨ x.1 = s'.generation

theorem Frame.advances (h : s.Frame s') (hi : s.Indexed → s'.Indexed)
    (hk : s'.generation = s.generation → ∀ subject e t, s.entry subject = some (e, some t) →
      (∃ e' t', s'.entry subject = some (e', some t') ∧ t ≤ t') ∨
        (s'.Barred subject ∧ s'.entry subject = none))
    (hc : ∀ subject x, s.Barred subject → s'.entry subject = some x →
      s.entry subject = some x) : s.Advances s' where
  generation := h.generation
  next := h.next.ge
  changed := h.changed
  member symbol _ hm _ := (h.member symbol).symm.trans hm
  numbered hn := by
    refine ⟨fun symbol membership hm => ?_, fun x hx => ?_⟩
    · rw [h.next]
      exact hn.member symbol membership ((h.member symbol).symm.trans hm)
    · obtain hx | hx := h.cashFlows x hx
      · exact (hn.cashFlows x hx).trans h.generation
      · exact hx.le
  indexed := hi
  kept := hk
  closed := hc

/-- A new generation starts empty. -/
structure Fences (s s' : SnapshotState) : Prop extends Frame s s' where
  newer : s.generation < s'.generation
  entry : ∀ subject, s'.entry subject = none

theorem Fences.advances (h : s.Fences s') : s.Advances s' := by
  refine h.toFrame.advances (fun _ t ht => ?_) (fun hs => absurd hs h.newer.ne') fun _ x _ hx => ?_
  · have hn := h.entry .positions
    rw [SnapshotState.entry, ht] at hn
    cases hn
  · rw [h.entry] at hx
    cases hx

/-- A response is installed: nothing else changes. -/
structure Installs (s s' : SnapshotState) (subject : SnapshotSubject) (e : SnapshotEntry)
    (observed : Option Instant) : Prop extends Frame s s' where
  same : s'.generation = s.generation
  other : ∀ other, other ≠ subject → s'.entry other = s.entry other
  entry : s'.entry subject = some (e, observed)
  later : ∀ e' t, s.entry subject = some (e', some t) → ∃ t', observed = some t' ∧ t ≤ t'
  free : ¬ s.Barred subject
  indexed : s.Indexed → s'.Indexed

theorem Installs.advances {e : SnapshotEntry} {observed : Option Instant}
    (h : s.Installs s' subject e observed) : s.Advances s' := by
  refine h.toFrame.advances h.indexed (fun _ other e' t ho => ?_) fun other x hbar hx => ?_
  · by_cases hs : other = subject
    · subst hs
      obtain ⟨t', rfl, ht⟩ := h.later e' t ho
      exact .inl ⟨e, t', h.entry, ht⟩
    · exact .inl ⟨e', t, by rw [h.other other hs, ho], le_rfl⟩
  · have hs : other ≠ subject := by
      rintro rfl
      exact h.free hbar
    rw [← h.other other hs, hx]

structure Disowns (s s' : SnapshotState) : Prop extends Frame s s' where
  same : s'.generation = s.generation
  disowned : s'.accountChanged = true
  entry : ∀ subject, s'.entry subject = s.entry subject ∨ s'.entry subject = none
  positions : s'.positions = none

theorem Disowns.advances (h : s.Disowns s') : s.Advances s' := by
  refine h.toFrame.advances (fun _ t ht => ?_) (fun _ subject e t he => ?_) fun subject x _ hx => ?_
  · rw [h.positions] at ht
    cases ht
  · obtain hs | hn := h.entry subject
    · exact .inl ⟨e, t, hs.trans he, le_rfl⟩
    · exact .inr ⟨.inl h.disowned, hn⟩
  · obtain hs | hn := h.entry subject
    · rw [← hs, hx]
    rw [hn] at hx
    cases hx

end

section

variable {s s' : SnapshotState} {generation : Nat} {symbol : String}

theorem increment_eq_some {n m : Nat} (h : increment n = some m) : m = n + 1 := by
  unfold increment at h
  split at h
  · exact (Option.some.inj h).symm
  · cases h

theorem fence_fences (hnu : s.Numbered) (h : s.fence = some s') : s.Fences s' := by
  obtain ⟨g, hg, h⟩ := bind_eq_some_iff.1 h
  cases h
  have hne := increment_eq_some hg
  have hl : ∀ symbol, AList.lookup symbol (s.quotes.mapRows fun slot =>
      { slot with value := none }) = (s.quotes.lookup symbol).map fun slot =>
      { slot with value := none } := Table.lookup_mapRows s.quotes _
  have hn : s.generation < g := by omega
  refine ⟨⟨hn.le, rfl, id, fun symbol => ?_, fun _ hx => .inl hx⟩, hn, fun subject => ?_⟩
  · rw [member, hl, map_map]
    rfl
  · cases subject with
    | account | orders | positions => rfl
    | cashFlows =>
      rw [entry, map_eq_none_iff, filter_eq_none_iff]
      intro x hx
      have hold := hnu.cashFlows x hx
      rw [decide_eq_true_eq]
      dsimp only
      omega
    | quote symbol membership =>
      rw [entry, quoteValue, hl]
      cases s.quotes.lookup symbol with
      | none => rfl
      | some slot => by_cases hs : slot.membership = membership <;> simp [hs]

theorem fence_worker {last : Nat} {worker : Option Nat} {closed : Bool} (hnu : s.Numbered)
    (h : { s with nextWorker := last, worker := worker, closed := closed }.fence = some s') :
    s.Fences s' := by
  have hfe := fun hn => fence_fences hn h
  obtain ⟨hf, hne, he⟩ := hfe ⟨hnu.member, hnu.cashFlows⟩
  exact ⟨{ hf with }, hne, he⟩

/-- Symbols come and go; what is installed for the others stays. -/
structure Tracks (s s' : SnapshotState) : Prop where
  generation : s'.generation = s.generation
  next : s.nextMembership ≤ s'.nextMembership
  changed : s'.accountChanged = s.accountChanged
  cashFlows : s'.cashFlows = s.cashFlows
  account : s'.account = s.account
  orders : s'.orders = s.orders
  positions : s'.positions = s.positions
  index : s'.positionsByOrder = s.positionsByOrder
  complete : s'.positionIdsComplete = s.positionIdsComplete
  quotes : ∀ symbol slot, s'.quotes.lookup symbol = some slot → s.quotes.lookup symbol = some slot ∨
    (s.nextMembership < slot.membership ∧ slot.membership ≤ s'.nextMembership ∧ slot.value = none)

theorem Tracks.refl (s : SnapshotState) : s.Tracks s :=
  ⟨rfl, le_rfl, rfl, rfl, rfl, rfl, rfl, rfl, rfl, fun _ _ h => .inl h⟩

theorem Tracks.trans {s'' : SnapshotState} (h : s.Tracks s') (h' : s'.Tracks s'') :
    s.Tracks s'' where
  generation := h'.generation.trans h.generation
  next := h.next.trans h'.next
  changed := h'.changed.trans h.changed
  cashFlows := h'.cashFlows.trans h.cashFlows
  account := h'.account.trans h.account
  orders := h'.orders.trans h.orders
  positions := h'.positions.trans h.positions
  index := h'.index.trans h.index
  complete := h'.complete.trans h.complete
  quotes symbol slot hs := by
    obtain hs | ⟨hne, hn, hno⟩ := h'.quotes symbol slot hs
    · obtain hs | ⟨hne, hn, hno⟩ := h.quotes symbol slot hs
      · exact .inl hs
      · exact .inr ⟨hne, hn.trans h'.next, hno⟩
    · exact .inr ⟨h.next.trans_lt hne, hn, hno⟩

theorem Tracks.entry_eq (h : s.Tracks s') {subject : SnapshotSubject}
    (hq : subject.isQuote = false) : s'.entry subject = s.entry subject := by
  cases subject with
  | quote => cases hq
  | _ => simp only [SnapshotState.entry, h.account, h.orders, h.positions,
    h.cashFlows, h.generation]

theorem Tracks.entry (h : s.Tracks s') {subject : SnapshotSubject}
    {x : SnapshotEntry × Option Instant} (hx : s'.entry subject = some x) :
    s.entry subject = some x := by
  cases subject with
  | quote symbol =>
    obtain ⟨t, ht, rfl⟩ := map_eq_some_iff.1 hx
    obtain ⟨slot, hs, hv⟩ := bind_eq_some_iff.1 ht
    obtain ⟨hs, hm⟩ := filter_eq_some_iff.1 hs
    obtain hb | ⟨-, -, hn⟩ := h.quotes symbol slot hs
    · refine map_eq_some_iff.2 ⟨t, bind_eq_some_iff.2 ⟨slot, ?_, hv⟩, rfl⟩
      exact filter_eq_some_iff.2 ⟨hb, hm⟩
    rw [hn] at hv
    cases hv
  | _ => rwa [h.entry_eq rfl] at hx

theorem Tracks.advances (h : s.Tracks s') (hnu : s.Numbered) : s.Advances s' where
  generation := h.generation.ge
  next := h.next
  changed hc := h.changed.trans hc
  member symbol membership hm hn := by
    obtain ⟨slot, hs, rfl⟩ := map_eq_some_iff.1 hm
    obtain hs | ⟨hne, -, -⟩ := h.quotes symbol slot hs
    · exact map_eq_some_iff.2 ⟨slot, hs, rfl⟩
    · omega
  numbered _ := by
    refine ⟨fun symbol membership hm => ?_, fun x hx => ?_⟩
    · obtain ⟨slot, hs, rfl⟩ := map_eq_some_iff.1 hm
      obtain hs | ⟨-, hn, -⟩ := h.quotes symbol slot hs
      · exact (hnu.member symbol _ (map_eq_some_iff.2 ⟨slot, hs, rfl⟩)).trans h.next
      · exact hn
    · rw [h.generation]
      exact hnu.cashFlows x (h.cashFlows.symm.trans hx)
  indexed hi t ht := by
    rw [h.index, h.complete]
    exact hi t (h.positions.symm.trans ht)
  kept _ subject e t he := by
    cases hen : s'.entry subject with
    | some x =>
      rw [h.entry hen] at he
      cases he
      exact .inl ⟨e, t, rfl, le_rfl⟩
    | none =>
      refine .inr ⟨?_, rfl⟩
      cases subject with
      | quote symbol membership =>
        -- the slot is gone, and its number is not given again
        rw [SnapshotState.entry, quoteValue] at he hen
        obtain ⟨t', ht', -⟩ := map_eq_some_iff.1 he
        obtain ⟨slot, hs, hv⟩ := bind_eq_some_iff.1 ht'
        obtain ⟨hs, hme⟩ := filter_eq_some_iff.1 hs
        have hmemb : s.member symbol = some membership :=
          map_eq_some_iff.2 ⟨slot, hs, of_decide_eq_true hme⟩
        have hn := hnu.member symbol membership hmemb
        refine .inr ⟨symbol, membership, rfl, hn.trans h.next, fun hno => ?_⟩
        obtain ⟨slot', hs', hsa⟩ := map_eq_some_iff.1 hno
        obtain hb | ⟨hne, -, -⟩ := h.quotes symbol slot' hs'
        · rw [hs] at hb
          cases hb
          rw [hs', filter_some, if_pos hme, bind_some, hv] at hen
          cases hen
        · omega
      | _ =>
        rw [h.entry_eq rfl, he] at hen
        cases hen
  closed subject x _ hx := h.entry hx

theorem addSymbol_tracks (h : s.addSymbol symbol = some s') : s.Tracks s' := by
  unfold addSymbol at h
  split at h
  · cases h
    exact .refl s
  obtain ⟨membership, hm, h⟩ := bind_eq_some_iff.1 h
  obtain ⟨revision, -, h⟩ := bind_eq_some_iff.1 h
  cases h
  have hn := increment_eq_some hm
  refine ⟨rfl, by dsimp only; omega, rfl, rfl, rfl, rfl, rfl, rfl, rfl, fun l _ hs => ?_⟩
  obtain ⟨-, rfl⟩ | ⟨-, hs⟩ := Table.lookup_insert_cases hs
  · exact .inr ⟨by dsimp only; omega, le_rfl, rfl⟩
  · exact .inl hs

theorem addSymbols_tracks {symbols : List String}
    (h : symbols.foldlM SnapshotState.addSymbol s = some s') : s.Tracks s' := by
  induction symbols generalizing s with
  | nil =>
    cases h
    exact .refl _
  | cons _ symbols ih =>
    obtain ⟨t, ht, h⟩ := bind_eq_some_iff.1 h
    exact (addSymbol_tracks ht).trans (ih h)

theorem retain_tracks (s : SnapshotState) (keep : String → Bool) :
    s.Tracks { s with quotes := s.quotes.retain keep } := by
  refine ⟨rfl, le_rfl, rfl, rfl, rfl, rfl, rfl, rfl, rfl, fun _ _ hs => .inl ?_⟩
  rw [Table.lookup_retain] at hs
  split at hs
  · exact hs
  · cases hs

end

end SnapshotState

/-- How a response came to an end: it was refused, or it was installed, or it
was found to be about another account. -/
inductive Delivery (c c' : BrokerSnapshotCache) (r : SnapshotRequest) (e : Option SnapshotEntry) :
    Prop where
  | refused (h : c' = c)
  | installed (entry : SnapshotEntry) (observed : Option Instant)
      (haccepts : c.state.accepts r.generation = true)
      (hinstalls : c.state.Installs c'.state r.subject entry observed) (he : e = some entry)
      (hobserved : ∀ t, observed = some t → t = r.observed)
  | disowned (haccepts : c.state.accepts r.generation = true)
      (hfree : ¬ c.state.Barred r.subject) (hdisowns : c.state.Disowns c'.state)

namespace BrokerSnapshotCache

open SnapshotState

variable {c c' : BrokerSnapshotCache} {generation : Nat} {observed : Instant} {s : SnapshotState}
  {subject : SnapshotSubject} {e : SnapshotEntry} {quote : Quote}

theorem accepts_iff : s.accepts generation = true ↔
    s.generation = generation ∧ s.closed = false ∧ s.accountChanged = false := by
  simp [SnapshotState.accepts, and_assoc]

theorem free_of_accepts (h : s.accepts generation = true) (hq : subject.isQuote = false) :
    ¬ s.Barred subject := by
  rintro (hc | ⟨symbol, membership, rfl, -, -⟩)
  · rw [(accepts_iff.1 h).2.2] at hc
    cases hc
  · cases hq

theorem le_of_not_isLater {α : Type} {old : Option (Timed α)}
    (h : Timed.isLater old observed = false) {wrap : α → SnapshotEntry}
    {t : Instant} (ht : old.map (·.entry wrap) = some (e, some t)) : t ≤ observed := by
  obtain ⟨v, rfl, hv⟩ := map_eq_some_iff.1 ht
  cases hv
  rw [Timed.isLater, any_some, decide_eq_false_iff_not] at h
  exact not_lt.1 h

theorem delivery_observed (haccepts : c.state.accepts generation = true)
    (hinstalls : c.state.Installs c'.state subject e (some observed)) :
    Delivery c c' ⟨subject, generation, observed⟩ (some e) :=
  .installed e (some observed) haccepts hinstalls rfl fun _ h => (Option.some.inj h).symm

theorem publishAccount_delivery {account : Account}
    (h : c.publishAccount generation observed account = some c') :
    Delivery c c' ⟨.account, generation, observed⟩ (some (.account account)) := by
  unfold publishAccount at h
  split at h
  · cases h
    exact .refused rfl
  next haccepts =>
  rw [Bool.not_eq_true, Bool.not_eq_false'] at haccepts
  have hfree : ¬ c.state.Barred .account := free_of_accepts haccepts rfl
  split at h
  · obtain ⟨revision, -, h⟩ := bind_eq_some_iff.1 h
    cases h
    refine .disowned haccepts hfree ⟨⟨le_rfl, rfl, fun _ => rfl, fun _ => rfl, fun _ hx => .inl hx⟩,
      rfl, rfl, fun subject => ?_, rfl⟩
    cases subject with
    | account | positions => exact .inr rfl
    | _ => exact .inl rfl
  split at h
  · cases h
    exact .refused rfl
  split at h
  · cases h
    exact .refused rfl
  next hl =>
  obtain ⟨revision, -, h⟩ := bind_eq_some_iff.1 h
  cases h
  rw [Bool.not_eq_true] at hl
  refine delivery_observed haccepts ⟨⟨le_rfl, rfl, id, fun _ => rfl, fun _ hx => .inl hx⟩, rfl,
    fun other ho => ?_, rfl, fun e t ht => ⟨observed, rfl, le_of_not_isLater hl ht⟩, hfree,
    id⟩
  cases other with
  | account => exact absurd rfl ho
  | _ => rfl

theorem publishOrders_delivery (orders : List Order) :
    Delivery c (c.publishOrders generation observed orders) ⟨.orders, generation, observed⟩
      ((Broker.orderCapacity orders).map .orders) := by
  unfold publishOrders
  split
  · exact .refused rfl
  split
  · exact .refused rfl
  next _ hv =>
  split
  · exact .refused rfl
  next haccepts =>
  rw [Bool.or_eq_true, not_or, Bool.not_eq_true, Bool.not_eq_false', Bool.not_eq_true] at haccepts
  obtain ⟨haccepts, hl⟩ := haccepts
  rw [hv]
  refine delivery_observed haccepts ⟨⟨le_rfl, rfl, id, fun _ => rfl, fun _ hx => .inl hx⟩, rfl,
    fun other ho => ?_, rfl, fun e t ht => ⟨observed, rfl, le_of_not_isLater hl ht⟩,
    free_of_accepts haccepts rfl, id⟩
  cases other with
  | orders => exact absurd rfl ho
  | _ => rfl

theorem publishCashFlows_delivery (flows : AccountCashFlows) :
    Delivery c (c.publishCashFlows generation flows) ⟨.cashFlows, generation, observed⟩
      (some (.cashFlows flows)) := by
  unfold publishCashFlows
  split
  · exact .refused rfl
  next haccepts =>
  rw [Bool.or_eq_true, Bool.or_eq_true, not_or, not_or, Bool.not_eq_true,
    Bool.not_eq_false'] at haccepts
  obtain ⟨⟨haccepts, -⟩, -⟩ := haccepts
  have hg : generation = c.state.generation := (accepts_iff.1 haccepts).1.symm
  refine .installed (.cashFlows flows) none haccepts ⟨⟨le_rfl, rfl, id, fun _ => rfl,
    fun x hx => ?_⟩, rfl, fun other ho => ?_, ?_, fun e t ht => ?_,
    free_of_accepts haccepts rfl, id⟩ rfl nofun
  · cases hx
    exact .inr hg
  · cases other with
    | cashFlows => exact absurd rfl ho
    | _ => rfl
  · simp [entry, hg]
  · obtain ⟨x, -, hx⟩ := map_eq_some_iff.1 ht
    cases hx

theorem publishPositions_delivery {positions : List Position}
    (h : c.publishPositions generation observed positions = some c') :
    Delivery c c' ⟨.positions, generation, observed⟩ (some (.positions positions)) := by
  unfold publishPositions at h
  split at h
  · cases h
    exact .refused rfl
  dsimp only at h
  split at h
  · cases h
    exact .refused rfl
  next _ _ hindex =>
  split at h
  · cases h
    exact .refused rfl
  split at h
  · cases h
    exact .refused rfl
  next haccepts =>
  rw [Bool.or_eq_true, not_or, Bool.not_eq_true, Bool.not_eq_false', Bool.not_eq_true] at haccepts
  obtain ⟨haccepts, hl⟩ := haccepts
  have hfree : ¬ c.state.Barred .positions := free_of_accepts haccepts rfl
  have how := (accepts_iff.1 haccepts).2.2
  obtain ⟨revision, -, h⟩ := bind_eq_some_iff.1 h
  cases h
  cases hc : positions.any fun p => decide (trim p.accountId ≠ c.expectedAccount) with
  | true =>
    refine .disowned haccepts hfree ⟨⟨le_rfl, rfl, fun _ => rfl, fun _ => rfl, fun _ hx => .inl hx⟩,
      rfl, rfl, fun subject => ?_, rfl⟩
    cases subject with
    | account | positions => exact .inr rfl
    | _ => exact .inl rfl
  | false =>
    rw [hc] at hindex
    refine delivery_observed haccepts ⟨⟨le_rfl, rfl, ?_, fun _ => rfl, fun _ hx => .inl hx⟩, rfl,
      fun other ho => ?_, rfl, fun e t ht => ⟨observed, rfl, le_of_not_isLater hl ht⟩, hfree,
      fun _ t ht => ?_⟩
    · rw [how]
      exact fun hc => nomatch hc
    · cases other with
      | positions => exact absurd rfl ho
      | _ => rfl
    · cases ht
      exact hindex

theorem publishQuoteObservation_delivery {symbol : String} {membership : Nat}
    {native : Option NativeQuoteObservation}
    (h : c.publishQuoteObservation generation observed symbol membership quote native = some c') :
    Delivery c c' ⟨.quote symbol membership, generation, observed⟩ (some (.quote quote)) := by
  unfold publishQuoteObservation at h
  split at h
  · cases h
    exact .refused rfl
  split at h
  · cases h
    exact .refused rfl
  next haccepts =>
  rw [Bool.not_eq_true, Bool.not_eq_false'] at haccepts
  split at h
  · cases h
    exact .refused rfl
  next slot hs =>
  split at h
  · cases h
    exact .refused rfl
  next hcu =>
  simp only [Bool.or_eq_true, not_or, decide_eq_true_eq, not_not, Bool.not_eq_true] at hcu
  obtain ⟨⟨rfl, -⟩, hla⟩ := hcu
  obtain ⟨revision, -, h⟩ := bind_eq_some_iff.1 h
  cases h
  have hlo := fun l => Table.lookup_insert_ite c.state.quotes symbol l
    (⟨slot.membership, revision, some ⟨quote, observed⟩, native⟩ : QuoteSlot)
  refine delivery_observed haccepts ⟨⟨le_rfl, rfl, id, fun l => ?_, fun _ hx => .inl hx⟩, rfl,
    fun other ho => ?_, ?_, fun e t ht => ?_, ?_, id⟩
  · rw [member, member, hlo]
    split
    · next hl =>
      rw [hl, hs]
      rfl
    · rfl
  · cases other with
    | quote l m =>
      rw [entry, entry, quoteValue, quoteValue, hlo]
      split
      · next hl =>
        subst hl
        have hm : slot.membership ≠ m := by
          rintro rfl
          exact ho rfl
        rw [hs, filter_some_neg (by simp [hm]), filter_some_neg (by simp [hm])]
      · rfl
    | _ => rfl
  · rw [entry, quoteValue, hlo, if_pos rfl, filter_some, if_pos (decide_eq_true rfl)]
    rfl
  · rw [entry, quoteValue, hs, filter_some, if_pos (decide_eq_true rfl)] at ht
    exact ⟨observed, rfl, le_of_not_isLater hla ht⟩
  · rintro (hc | ⟨l, m, hsu, -, hme⟩)
    · rw [(accepts_iff.1 haccepts).2.2] at hc
      cases hc
    · cases hsu
      rw [member, hs] at hme
      exact hme rfl

theorem deliver_delivery {r : SnapshotRequest} {response : SnapshotResponse}
    (h : c.deliver r response = some c') : Delivery c c' r response.entry := by
  obtain ⟨subject, generation, observed⟩ := r
  unfold deliver at h
  split at h
  · next hs =>
    cases hs
    exact publishAccount_delivery h
  · next hs =>
    cases hs
    cases h
    exact publishOrders_delivery _
  · next hs =>
    cases hs
    exact publishPositions_delivery h
  · next hs =>
    cases hs
    cases h
    exact publishCashFlows_delivery _
  · next hs =>
    cases hs
    exact publishQuoteObservation_delivery h
  · cases h

theorem deliverNative_delivery {d : NativeDelivery} {lease : Nat} {enabled : Bool}
    (hs : quote.symbol = d.symbol) (h : c.deliverNative d quote lease enabled = some c') :
    Delivery c c' d.request (some (.quote quote)) := by
  unfold deliverNative publishNativeQuote at h
  split at h
  · cases h
    exact .refused rfl
  rw [hs] at h
  exact publishQuoteObservation_delivery h

end BrokerSnapshotCache

end AqEngine.Broker
