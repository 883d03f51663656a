import AqEngine.Journal.FillEffects

namespace AqEngine.Broker

open Lib Fallible LiveSync List Option

namespace FillLedger

variable {l l' : FillLedger} {k : FillKey} {nowUs : Int} {n : Nat} {entries : List FillEntry}
  {batch : ExecutionFillBatch} {e : FillEntry}

structure Follows (l : FillLedger) (entries : List FillEntry) : Prop where
  sound : l.Sound
  holds : ∀ k, Holds FillEntry.asOfUs (l.register k).Reflects (entries.filter (·.key = k))

theorem Follows.empty : Follows {} [] := ⟨.empty, fun _ => .nothing rfl .unseen⟩

theorem Follows.congr (h : Follows l entries) (hl : l'.Sound)
    (hr : ∀ k, l'.register k = l.register k) : Follows l' entries := by
  refine ⟨hl, fun k => ?_⟩
  rw [hr k]
  exact h.holds k

theorem Follows.grows (h : Follows l entries) (hg : Grows n l l') : Follows l' entries :=
  h.congr hg.sound fun k => hg.register h.sound k

theorem Follows.snoc (h : Follows l entries) (hc : Changes n e.key l l')
    (hs : Holds FillEntry.asOfUs (l'.register e.key).Reflects
      (entries.filter (·.key = e.key) ++ [e])) : Follows l' (entries ++ [e]) := by
  refine ⟨hc.sound, fun k => ?_⟩
  by_cases hk : k = e.key
  · subst hk
    simpa using hs
  rw [hc.others k hk]
  simpa [Ne.symm hk] using h.holds k

theorem Follows.record {j : BrokerCommandJournal} (h : Follows l entries)
    (hok : l.record j batch nowUs = .ok l') : Follows l' (entries ++ batch.entries) := by
  obtain ⟨l₁, h₁, hg⟩ := record_eq_ok hok
  have hs : Follows l (entries ++ []) := by rwa [append_nil]
  have ht := foldlM_tracks (P := fun l done => Follows l (entries ++ done))
    (fun l done e l' hl hstep => ?_) hs h₁
  · exact ht.grows (hg ht.sound)
  · obtain ⟨hc, hta⟩ := changes_takeEntry hl.sound hstep
    rw [← append_assoc]
    exact hl.snoc hc (hta.holds (hl.holds _))

def active (l : FillLedger) (k : FillKey) : Option ExecutionFillInput := (l.register k).active

/-- The newest entry of a fill decides whether it counts, and with which facts. -/
theorem Follows.active_facts (h : Follows l entries)
    (hd : ∀ x ∈ entries, ∀ y ∈ entries, x.key = y.key → x.asOfUs = y.asOfUs → x = y)
    (he : Newest FillEntry.asOfUs (entries.filter (·.key = k)) e) :
    (l.active k).map (·.fill.facts) = e.facts := by
  cases h.holds k with
  | nothing hn =>
    rw [hn] at he
    cases he.mem
  | newest e' he' hR =>
    have heq : e' = e := by
      refine he'.unique (fun x hx y hy hxy => ?_) he
      simp only [mem_filter, decide_eq_true_eq] at hx hy
      exact hd x hx.1 y hy.1 (hx.2.trans hy.2.symm) hxy
    subst heq
    exact hR.active_facts

theorem Follows.active_none (h : Follows l entries) (hn : entries.filter (·.key = k) = []) :
    l.active k = none := by
  cases h.holds k with
  | nothing _ hR => exact map_eq_none_iff.1 hR.active_facts
  | newest e he =>
    rw [hn] at he
    cases he.mem

end FillLedger

/-- Entries about one fill that name the same execution and the same owner. -/
def FillEntry.Agrees : FillEntry → FillEntry → Prop
  | .observation a, .observation b => a.fill.sameIdentity b.fill = true ∧ a.insightId = b.insightId
  | .observation a, .invalidation v => v.matchesFill a.fill = true
  | .invalidation v, .observation a => v.matchesFill a.fill = true
  | .invalidation v, .invalidation w => { v with asOfUs := w.asOfUs } = w

instance (x y : FillEntry) : Decidable (x.Agrees y) := by
  cases x <;> cases y <;> unfold FillEntry.Agrees <;> infer_instance

/-- The entries of each fill agree and have times of their own. -/
structure FillEntry.Agreeing (entries : List FillEntry) : Prop where
  agrees : ∀ x ∈ entries, ∀ y ∈ entries, x.key = y.key → x.Agrees y
  distinct : ∀ x ∈ entries, ∀ y ∈ entries, x.key = y.key → x.asOfUs = y.asOfUs → x = y

theorem FillEntry.Agreeing.mono {entries all : List FillEntry} (h : FillEntry.Agreeing all)
    (hs : ∀ x ∈ entries, x ∈ all) : FillEntry.Agreeing entries where
  agrees x hx y hy := h.agrees x (hs x hx) y (hs y hy)
  distinct x hx y hy := h.distinct x (hs x hx) y (hs y hy)

namespace FillLedger

section

variable {l l' : FillLedger} {k : FillKey} {nowUs asOfUs : Int} {epoch n : Nat}
  {entries all : List FillEntry} {batch : ExecutionFillBatch} {input : ExecutionFillInput}
  {v : ExecutionFillInvalidation} {e : FillEntry}

/-- Every observation that a head keeps was delivered for that fill. -/
def Keeps (l : FillLedger) (entries : List FillEntry) : Prop :=
  ∀ k shown old, (l.register k).shown = some shown → shown.saved.input = some old →
    .observation old ∈ entries ∧ old.fill.key = k

def Owns (l : FillLedger) (batch : ExecutionFillBatch) : Prop :=
  ∀ o, batch.owner = some o → ∀ e ∈ batch.entries, ∀ shown, (l.register e.key).shown = some shown →
    shown.epoch = o.executionEpoch ∧
      ∀ old id, shown.saved.input = some old → old.insightId = some id → id = o.insightId

/-- What is known of a ledger inside the transaction of a batch whose entries
are among `all`. -/
structure Ready (all entries : List FillEntry) (batch : ExecutionFillBatch) (l : FillLedger) :
    Prop where
  follows : Follows l entries
  keeps : Keeps l entries
  owns : Owns l batch
  known : ∀ x ∈ entries, x ∈ all

variable {shown : Shown} {old : ExecutionFillInput} {epoch' : Nat} {row : FillRow}
  {invalidation : Option ExecutionFillInvalidation} {j : BrokerCommandJournal}

theorem ownedBy_same {recorded : Option String} (h : input.insightId = recorded) :
    input.ownedBy recorded = input := by
  unfold ExecutionFillInput.ownedBy
  rw [← h]
  cases hid : input.insightId <;> simp [← hid]

theorem Follows.removal_known (h : Follows l entries) (hv : (l.register k).removal = some v) :
    .invalidation v ∈ entries ∧ v.key = k := by
  cases h.holds k with
  | nothing _ hR =>
    generalize l.register k = r at hR hv
    cases hR
    cases hv
  | newest e he hR =>
    have hm := mem_filter.1 he.mem
    generalize l.register k = r at hR hv
    cases hR with
    | active => cases hv
    | fenced | removed =>
      cases hv
      exact ⟨hm.1, of_decide_eq_true hm.2⟩

theorem invalidatePositionCheck_ok (hl : l.Sound) (hn : 0 < nowUs)
    (hr : l.lastSequence + 1 ≤ i64Max.toNat) (provider : String) (position : Option String)
    (asOfUs : Int) : ∃ l', l.invalidatePositionCheck nowUs provider position asOfUs = .ok l' := by
  unfold invalidatePositionCheck
  cases position with
  | none => exact ⟨l, rfl⟩
  | some position =>
    dsimp only
    cases hold : l.positionChecks.lookup (provider, position) with
    | none => exact ⟨l, rfl⟩
    | some old =>
      have hs := hl.checks _ old hold
      have hse : (UInt64.ofNat (l.maxSequence + 1)).toNat = l.lastSequence + 1 := by
        rw [hl.maxSequence_eq]
        refine Nat.mod_eq_of_lt (lt_of_le_of_lt hr ?_)
        decide
      have hvalid : PositionQuantityRecord.validate ⟨UInt64.ofNat (l.maxSequence + 1),
          UInt64.ofNat old.executionEpoch, nowUs,
          PositionCheckRow.revoked old (provider, position) asOfUs⟩ = .ok () := by
        refine validate_ok_iff.2 ⟨⟨fun hz => ?_, ?_, hs.epoch_ne, hs.epoch_le, hn,
          lt_of_lt_of_le hs.asOf_pos (le_max_right _ _), hs.sequence_ne, ?_, hs.provider,
          hs.position, hs.symbol, hs.insight⟩, fun c hc => (nomatch hc)⟩
        · have := congrArg UInt64.toNat hz
          rw [hse] at this
          exact Nat.succ_ne_zero _ this
        · exact UInt64.le_iff_toNat_le.2 (hse ▸ hr)
        · exact UInt64.lt_iff_toNat_lt.2 (hse ▸ Nat.lt_succ_of_le hs.sequence_le)
      have ha : l.appendPositionCheck nowUs old.executionEpoch
          (PositionCheckRow.revoked old (provider, position) asOfUs) = .ok _ :=
        bind_eq_ok.2 ⟨(), orJournal_eq_ok.2 hvalid, rfl⟩
      exact ⟨_, bind_eq_ok.2 ⟨_, ha, rfl⟩⟩

theorem revise_ok (hl : l.Sound) (hn : 0 < nowUs) (hr : l.lastSequence + 2 ≤ i64Max.toNat)
    (clock : Option String) (epoch : Nat) (input : ExecutionFillInput) :
    ∃ l', l.revise clock nowUs epoch input = .ok l' := by
  obtain ⟨hc, -⟩ := changes_appendHead hl epoch nowUs input.fill.key (.observation input)
    input.fill.asOfUs
  obtain ⟨l₁, h₁⟩ := invalidatePositionCheck_ok hc.sound hn hr input.fill.provider
    input.fill.positionId input.fill.asOfUs
  exact ⟨_, bind_eq_ok.2 ⟨l₁, h₁, rfl⟩⟩

theorem bury_ok (hl : l.Sound) (hn : 0 < nowUs) (hr : l.lastSequence + 1 ≤ i64Max.toNat)
    (v : ExecutionFillInvalidation) : ∃ l', l.bury nowUs v = .ok l' := by
  obtain ⟨l₁, h₁⟩ := invalidatePositionCheck_ok hl hn hr v.provider v.positionId v.asOfUs
  exact ⟨_, bind_eq_ok.2 ⟨l₁, h₁, rfl⟩⟩

/-- The head of a fill follows its newest entry: an observation of that time is
the one shown, and a removal of that time hides it. -/
theorem Follows.head_newest (h : Follows l entries) (hs : (l.register k).shown = some shown) :
    (∃ last old, .observation last ∈ entries ∧ last.fill.key = k ∧
      shown.asOfUs = last.fill.asOfUs ∧ shown.saved = .observation old ∧
      old.fill.facts = last.fill.facts) ∨
    ∃ last old first, (l.register k).removal = some last ∧ shown.asOfUs = last.asOfUs ∧
      shown.saved = .invalidated old first := by
  cases h.holds k with
  | nothing _ hR =>
    generalize l.register k = r at hR hs
    cases hR
    cases hs
  | newest e he hR =>
    have hm := mem_filter.1 he.mem
    generalize l.register k = r at hR hs
    cases hR with
    | active hfacts =>
      cases hs
      exact .inl ⟨_, _, hm.1, of_decide_eq_true hm.2, rfl, rfl, hfacts⟩
    | fenced => cases hs
    | removed =>
      cases hs
      exact .inr ⟨_, _, _, rfl, rfl, rfl⟩

theorem Follows.head_input (h : Follows l entries) (hsh : (l.register k).shown = some shown) :
    ∃ old, shown.saved.input = some old := by
  obtain ⟨_, old, -, -, -, hs, -⟩ | ⟨_, old, _, -, -, hs⟩ := h.head_newest hsh
  · exact ⟨old, by rw [hs]; rfl⟩
  · exact ⟨old, by rw [hs]; rfl⟩

/-- An observation is refused only for a head of another execution, owner or
epoch, or for other facts at the head's time. -/
theorem observeAgain_ok (hl : l.Sound) (hnow : 0 < nowUs)
    (hr : l.lastSequence + 2 ≤ i64Max.toNat) {hd : FillHead}
    (hep : ∀ o, batch.owner = some o → row.executionEpoch = o.executionEpoch)
    (hp : row.saved.intoParts = .ok (old, invalidation))
    (hi : old.fill.sameIdentity input.fill = true) (howner : old.insightId = input.insightId)
    (hs : input.fill.asOfUs = hd.asOfUs → invalidation = none ∧ old.fill.facts = input.fill.facts) :
    ∃ l', l.observeAgain batch nowUs input hd row = .ok l' := by
  have he : input.ownedBy old.insightId = input := ownedBy_same howner.symm
  have hno : ¬ batch.owner.any (·.executionEpoch ≠ row.executionEpoch) = true := by
    cases howner : batch.owner with
    | none => simp
    | some o => simp [hep o howner]
  unfold observeAgain
  rw [refuseIf_bind_of_not hno, hp, bind_ok]
  dsimp only
  split
  · exact ⟨_, rfl⟩
  rw [he, refuseIf_bind_of_not (by simp [hi, howner])]
  split
  · exact ⟨_, rfl⟩
  next hc =>
  have hne : ¬ input.fill.asOfUs = hd.asOfUs := by
    intro heq
    obtain ⟨hn, hfacts⟩ := hs heq
    exact hc ⟨by rw [hn]; rfl, ExecutionFill.sameFacts_iff.2 hfacts, howner⟩
  rw [refuseIf_bind_of_not hne]
  exact revise_ok hl hnow hr _ _ _

theorem intoParts_of_input {saved : SavedFill} (h : saved.input = some old) :
    ∃ invalidation, saved.intoParts = .ok (old, invalidation) := by
  cases saved with
  | positionCheck => cases h
  | invalidated _ v =>
    cases h
    exact ⟨some v, rfl⟩
  | observation =>
    cases h
    exact ⟨none, rfl⟩

theorem removeAgain_ok (hl : l.Sound) (hn : 0 < nowUs)
    (hr : l.lastSequence + 2 ≤ i64Max.toNat) {hd : FillHead}
    (hp : row.saved.intoParts = .ok (old, invalidation))
    (hm : v.matchesFill old.fill = true)
    (howner : ∀ o, batch.owner = some o → row.executionEpoch = o.executionEpoch ∧
      ∀ id, old.insightId = some id → id = o.insightId)
    (hs : v.asOfUs = hd.asOfUs → invalidation.isSome) :
    ∃ l' added, l.removeAgain batch.owner nowUs v hd row = .ok (l', added) := by
  have how : ¬ batch.owner.any (fun o => o.executionEpoch != row.executionEpoch ||
      old.insightId.any (· != o.insightId)) = true := by
    cases ho : batch.owner with
    | none => simp
    | some o =>
      obtain ⟨he, hid⟩ := howner o ho
      cases hold : old.insightId with
      | none => simp [he]
      | some id => simp [he, hid id hold]
  unfold removeAgain
  rw [hp, bind_ok]
  dsimp only
  rw [refuseIf_bind_of_not (by simp only [hm, Bool.true_eq_false, false_or]; exact how)]
  split
  · exact ⟨_, _, rfl⟩
  cases hi : invalidation with
  | none =>
    have hne : ¬ v.asOfUs = hd.asOfUs := by
      intro heq
      have := hs heq
      rw [hi] at this
      cases this
    rw [refuseIf_bind_of_not hne]
    obtain ⟨hc, -⟩ := changes_appendHead hl row.executionEpoch nowUs v.key
      (.invalidated old v) v.asOfUs
    obtain ⟨l₁, h₁⟩ := bury_ok hc.sound hn hr v
    exact ⟨_, _, bind_eq_ok.2 ⟨l₁, h₁, rfl⟩⟩
  | some =>
    obtain ⟨hc, -⟩ := changes_setWatermark hl v.key v.asOfUs
    obtain ⟨l₁, h₁⟩ := bury_ok hc.sound hn (Nat.le_of_succ_le hr) v
    exact ⟨_, _, bind_eq_ok.2 ⟨l₁, h₁, rfl⟩⟩

theorem known_snoc (hk : ∀ x ∈ entries, x ∈ all) (he : e ∈ all) :
    ∀ x ∈ entries ++ [e], x ∈ all := by
  intro x hx
  obtain hx | hx := mem_append.1 hx
  · exact hk x hx
  rw [mem_singleton.1 hx]
  exact he

theorem owner_of_mem_entries {o : FillHistoryOwner} (howner : batch.owner = some o)
    (he : .observation input ∈ batch.entries) : input.insightId = some o.insightId := by
  obtain ⟨⟨account, o'⟩, hh, rfl⟩ := map_eq_some_iff.1 howner
  refine batch.rows_owned account o' hh input ?_
  simpa [ExecutionFillBatch.entries] using he

theorem Keeps.grows (h : Keeps l entries) (hl : l.Sound) (hg : Grows n l l') :
    Keeps l' entries := by
  intro k shown old hs
  rw [hg.register hl k] at hs
  exact h k shown old hs

variable (ha : FillEntry.Agreeing all)

include ha

theorem suppressed_ok (h : Follows l entries)
    (hkn : ∀ x ∈ entries, x ∈ all) (hi : .observation input ∈ all) :
    ∃ hidden l', l.suppressed input.fill = .ok (hidden, l') := by
  unfold suppressed
  cases hv : l.invalidated.lookup input.fill.key with
  | none => exact ⟨_, _, rfl⟩
  | some v =>
    obtain ⟨hme, hk⟩ := h.removal_known (v := v) hv
    have hm : v.matchesFill input.fill = true := ha.agrees _ (hkn _ hme) _ hi hk
    dsimp only
    rw [refuseIf_bind_of_not (by simp [hm])]
    split
    · exact ⟨_, _, rfl⟩
    · exact ⟨_, _, rfl⟩

theorem Ready.recordFill_ok (h : Ready all entries batch l)
    (hro : input ∈ batch.rows) (hi : .observation input ∈ all) (hn : 0 < nowUs)
    (hr : l.lastSequence + 2 ≤ i64Max.toNat) (epoch : Nat) :
    ∃ l', l.recordFill batch epoch nowUs input = .ok l' := by
  obtain ⟨hidden, l₁, hs⟩ := suppressed_ok ha h.follows h.known hi
  unfold recordFill
  rw [hs, bind_ok]
  obtain ⟨rfl, -⟩ | ⟨rfl, hv, hc, hre⟩ := suppressed_eq_ok h.follows.sound hs
  · exact ⟨_, rfl⟩
  have hr₁ : l₁.lastSequence + 2 ≤ i64Max.toNat := (Nat.add_le_add_right hc.rows.last 2).trans hr
  dsimp only
  rw [if_neg Bool.false_ne_true]
  split
  · exact revise_ok hc.sound hn hr₁ _ _ _
  next hd row hh =>
  have hsh : (l.register input.fill.key).shown =
      some ⟨hd.asOfUs, row.executionEpoch, row.saved⟩ := by
    rw [← shown_of_head hh, hre]
  have he : .observation input ∈ batch.entries :=
    mem_append_left _ (List.mem_map.2 ⟨input, hro, rfl⟩)
  obtain ⟨old, hold⟩ := h.follows.head_input hsh
  obtain ⟨invalidation, hp⟩ := intoParts_of_input hold
  obtain ⟨hm, hk⟩ := h.keeps _ _ old hsh hold
  obtain ⟨hid, howner⟩ : old.fill.sameIdentity input.fill = true ∧
      old.insightId = input.insightId := ha.agrees _ (h.known _ hm) _ hi hk
  refine observeAgain_ok hc.sound hn hr₁ (fun o ho => ?_) hp hid howner ?_
  · exact (h.owns o ho _ he _ hsh).1
  · intro ht
    obtain ⟨last, shownInput, hlast, hla, hl, hsav, hfacts⟩ |
      ⟨last, _, _, hrem, hl, -⟩ := h.follows.head_newest hsh
    · have hsa : FillEntry.observation last = .observation input :=
        ha.distinct _ (h.known _ hlast) _ hi hla (hl.symm.trans ht.symm)
      cases hsa
      rw [show row.saved = .observation shownInput from hsav] at hp
      cases hp
      exact ⟨rfl, hfacts⟩
    · have hlt := hv last hrem
      rw [ht, show hd.asOfUs = last.asOfUs from hl] at hlt
      exact absurd hlt (lt_irrefl _)

theorem Ready.removeFill_ok (h : Ready all entries batch l)
    (hro : v ∈ batch.invalidations) (hv : .invalidation v ∈ all) (hn : 0 < nowUs)
    (hr : l.lastSequence + 2 ≤ i64Max.toNat) :
    ∃ l' added, l.removeFill batch.owner nowUs v = .ok (l', added) := by
  unfold removeFill
  cases hh : l.head v.key with
  | none =>
    obtain ⟨l₁, h₁⟩ := bury_ok h.follows.sound hn (Nat.le_of_succ_le hr) v
    exact ⟨_, _, bind_eq_ok.2 ⟨l₁, h₁, rfl⟩⟩
  | some entry =>
    obtain ⟨hd, row⟩ := entry
    have hs := shown_of_head hh
    have he : .invalidation v ∈ batch.entries :=
      mem_append_right _ (List.mem_map.2 ⟨v, hro, rfl⟩)
    obtain ⟨old, hold⟩ := h.follows.head_input hs
    obtain ⟨invalidation, hp⟩ := intoParts_of_input hold
    obtain ⟨hme, hk⟩ := h.keeps _ _ old hs hold
    have hm : v.matchesFill old.fill = true := ha.agrees _ (h.known _ hme) _ hv hk
    refine removeAgain_ok h.follows.sound hn hr hp hm (fun o ho => ?_) ?_
    · obtain ⟨hep, hid⟩ := h.owns o ho _ he _ hs
      exact ⟨hep, fun id => hid old id hold⟩
    · intro ht
      obtain ⟨last, _, hla, hl, hlas, -, -⟩ | ⟨last, _, first, -, -, hsav⟩ :=
        h.follows.head_newest hs
      · have hsa : FillEntry.observation last = .invalidation v :=
          ha.distinct _ (h.known _ hla) _ hv hl (hlas.symm.trans ht.symm)
        cases hsa
      rw [show row.saved = .invalidated _ first from hsav] at hp
      cases hp
      rfl

theorem Ready.applyInvalidation_ok (h : Ready all entries batch l) (hr : v ∈ batch.invalidations)
    (hv : .invalidation v ∈ all) (hn : 0 < nowUs)
    (hro : l.lastSequence + 2 ≤ i64Max.toNat) :
    ∃ l' added, l.applyInvalidation batch.owner nowUs v = .ok (l', added) := by
  have hre := h.removeFill_ok ha hr hv hn hro
  unfold applyInvalidation
  rw [batch.invalidations_valid v hr]
  cases hold : l.invalidated.lookup v.key with
  | none => exact hre
  | some old =>
    obtain ⟨hm, hk⟩ := h.follows.removal_known hold
    have hs : { old with asOfUs := v.asOfUs } = v := ha.agrees _ (h.known _ hm) _ hv hk
    dsimp only
    rw [refuseIf_bind_of_not (by simp [hs])]
    split
    · exact ⟨_, _, rfl⟩
    · exact hre

theorem Keeps.origin (h : Keeps l entries)
    (hkn : ∀ x ∈ entries, x ∈ all) (he : e ∈ all)
    (ht : FillRegister.Takes epoch' e (l.register e.key) (l'.register e.key)) {shown' : Shown}
    {new : ExecutionFillInput} (hsh : (l'.register e.key).shown = some shown')
    (hn : shown'.saved.input = some new) :
    (shown'.epoch = epoch' ∧ e = .observation new) ∨
      ∃ shown old, (l.register e.key).shown = some shown ∧ shown'.epoch = shown.epoch ∧
        shown.saved.input = some old ∧ (new = old ∨ e = .observation new) := by
  obtain hst | ⟨shown, old, hs, hep, hold, hc⟩ := ht.origin hsh hn
  · exact .inl hst
  refine .inr ⟨shown, old, hs, hep, hold, hc.imp id ?_⟩
  rintro ⟨input, rfl, hn⟩
  obtain ⟨hm, hk⟩ := h _ _ old hs hold
  have hsa : old.insightId = input.insightId := (ha.agrees _ (hkn _ hm) _ he hk).2
  rw [hn, ownedBy_same hsa.symm]

theorem Keeps.taken (h : Keeps l entries)
    (hkn : ∀ x ∈ entries, x ∈ all) (he : e ∈ all) (hc : Changes n e.key l l')
    (ht : FillRegister.Takes epoch' e (l.register e.key) (l'.register e.key)) :
    Keeps l' (entries ++ [e]) := by
  have hm : ∀ k shown old, (l.register k).shown = some shown → shown.saved.input = some old →
      .observation old ∈ entries ++ [e] ∧ old.fill.key = k := fun k shown old hsh hold =>
    ⟨mem_append_left _ (h k shown old hsh hold).1, (h k shown old hsh hold).2⟩
  intro k shown' new hsh hn
  by_cases hk : k = e.key
  · subst hk
    obtain ⟨-, rfl⟩ | ⟨shown, old, hs, -, hold, rfl | rfl⟩ := h.origin ha hkn he ht hsh hn
    · exact ⟨mem_append_right _ mem_cons_self, rfl⟩
    · exact hm _ _ _ hs hold
    · exact ⟨mem_append_right _ mem_cons_self, rfl⟩
  · rw [hc.others k hk] at hsh
    exact hm _ _ _ hsh hn

theorem Ready.taken (h : Ready all entries batch l)
    (hr : e ∈ batch.entries) (he : e ∈ all)
    (hep : ∀ o, batch.owner = some o → epoch' = o.executionEpoch)
    (hc : Changes n e.key l l')
    (ht : FillRegister.Takes epoch' e (l.register e.key) (l'.register e.key)) :
    Ready all (entries ++ [e]) batch l' := by
  have hf : Follows l' (entries ++ [e]) := h.follows.snoc hc (ht.holds (h.follows.holds _))
  refine ⟨hf, h.keeps.taken ha h.known he hc ht, ?_, known_snoc h.known he⟩
  intro o howner x hx shown' hsh
  by_cases hk : x.key = e.key
  · rw [hk] at hsh
    obtain ⟨new, hn⟩ := hf.head_input hsh
    have hne : e = .observation new → ∀ id, new.insightId = some id → id = o.insightId := by
      rintro rfl id hid
      rw [owner_of_mem_entries howner hr] at hid
      exact (Option.some.inj hid).symm
    obtain ⟨hst, hi⟩ | ⟨shown, old, hs, hsa, hold, hca⟩ := h.keeps.origin ha h.known he ht hsh hn
    · refine ⟨hst.trans (hep o howner), fun old id hold hid => ?_⟩
      rw [hn] at hold
      cases hold
      exact hne hi id hid
    · obtain ⟨hshow, hshown⟩ := h.owns o howner _ hr shown hs
      refine ⟨hsa.trans hshow, fun _ id ho' hid => ?_⟩
      rw [hn] at ho'
      cases ho'
      obtain rfl | hi := hca
      · exact hshown new id hold hid
      · exact hne hi id hid
  · rw [hc.others x.key hk] at hsh
    exact h.owns o howner x hx shown' hsh

theorem Ready.takeEntry_ok (h : Ready all entries batch l)
    (hro : e ∈ batch.entries) (he : e ∈ all) (hn : 0 < nowUs)
    (hr : l.lastSequence + 2 ≤ i64Max.toNat) (epoch : Nat) :
    ∃ l', takeEntry batch epoch nowUs l e = .ok l' := by
  cases e with
  | observation =>
    exact h.recordFill_ok ha (by simpa [ExecutionFillBatch.entries] using hro) he hn hr epoch
  | invalidation v =>
    have hv : v ∈ batch.invalidations := by simpa [ExecutionFillBatch.entries] using hro
    obtain ⟨l', added, hok⟩ := h.applyInvalidation_ok ha hv he hn hr
    exact ⟨l', by rw [takeEntry, hok]; rfl⟩

/-- The loops over a batch end, with at most two rows for each entry. -/
theorem Ready.takeEntries_ok (h : Ready all entries batch l)
    (hk : ∀ x ∈ batch.entries, x ∈ all) (hn : 0 < nowUs)
    (hro : l.lastSequence + 2 * batch.entries.length ≤ i64Max.toNat) (epoch : Nat) :
    ∃ l', batch.entries.foldlM (takeEntry batch epoch nowUs) l = .ok l' ∧
      Ready all (entries ++ batch.entries) batch l' ∧
      l'.lastSequence ≤ l.lastSequence + 2 * batch.entries.length := by
  refine foldlM_succeeds (P := fun l' done => Ready all (entries ++ done) batch l' ∧
    l'.lastSequence ≤ l.lastSequence + 2 * done.length) ?_ ⟨by rwa [append_nil], Nat.le_refl _⟩
  rintro l₁ done e rest hs ⟨hre, hl⟩
  have hr : e ∈ batch.entries := by
    rw [hs]
    simp
  have hle : batch.entries.length = done.length + (rest.length + 1) := by
    rw [hs, length_append, length_cons]
  obtain ⟨l₂, hok⟩ := hre.takeEntry_ok ha hr (hk e hr) hn (by omega) epoch
  obtain ⟨hc, ht⟩ := changes_takeEntry hre.follows.sound hok
  have he : ∀ o, batch.owner = some o →
      (batch.owner.map (·.executionEpoch)).getD epoch = o.executionEpoch := by
    intro o ho
    rw [ho]
    rfl
  refine ⟨l₂, hok, ?_, ?_⟩
  · rw [← append_assoc]
    exact hre.taken ha hr (hk e hr) he hc ht
  · have := hc.rows.last
    rw [length_append, length_singleton]
    omega

def AcceptsComparison (l : FillLedger) (epoch : Nat) (batch : ExecutionFillBatch) (nowUs : Int) :
    Prop :=
  ∀ l₁ l₂ appended, l.recordFills batch epoch nowUs = .ok l₁ →
    l₁.applyInvalidations batch nowUs = .ok (l₂, appended) →
    ∃ l₃, (if appended then l₂.noteClock batch.historyClock else l₂).persistPositionCheck batch
      nowUs = .ok l₃

theorem Ready.record_ok (h : Ready all entries batch l) (hk : ∀ x ∈ batch.entries, x ∈ all)
    (hvalid : j.validateHistory batch = .ok ()) (hn : 0 < nowUs)
    (hr : l.lastSequence + 2 * batch.entries.length ≤ i64Max.toNat)
    (hc : l.AcceptsComparison j.lifecycle.epoch batch nowUs) :
    ∃ l', l.record j batch nowUs = .ok l' := by
  obtain ⟨l₂, ht, -, -⟩ := h.takeEntries_ok ha hk hn hr j.lifecycle.epoch
  obtain ⟨l₁, appended, h₁, h₂⟩ := takeEntries_iff.1 ht
  obtain ⟨l₃, h₃⟩ := hc l₁ l₂ appended h₁ h₂
  exact ⟨l₃, bind_eq_ok.2 ⟨(), hvalid, bind_eq_ok.2 ⟨l₁, h₁, bind_eq_ok.2 ⟨_, h₂, h₃⟩⟩⟩⟩

def Tracked (all entries : List FillEntry) (l : FillLedger) : Prop :=
  (∀ x ∈ entries, x ∈ all) → Follows l entries ∧ Keeps l entries

theorem Tracked.taken (h : Tracked all entries l)
    (hok : takeEntry batch epoch nowUs l e = .ok l') : Tracked all (entries ++ [e]) l' := by
  intro hkn
  have hb : ∀ x ∈ entries, x ∈ all := fun x hx => hkn x (mem_append_left _ hx)
  have he : e ∈ all := hkn e (mem_append_right _ mem_cons_self)
  obtain ⟨hf, hk⟩ := h hb
  obtain ⟨hc, ht⟩ := changes_takeEntry hf.sound hok
  exact ⟨hf.snoc hc (ht.holds (hf.holds _)), hk.taken ha hb he hc ht⟩

omit ha in
theorem Keeps.record (hf : Follows l entries) (hk : Keeps l entries)
    (ha : FillEntry.Agreeing (entries ++ batch.entries))
    (hok : l.record j batch nowUs = .ok l') : Keeps l' (entries ++ batch.entries) := by
  obtain ⟨l₁, h₁, hg⟩ := record_eq_ok hok
  have hs : Tracked (entries ++ batch.entries) (entries ++ []) l := by
    intro _
    rw [append_nil]
    exact ⟨hf, hk⟩
  have ht := foldlM_tracks
    (P := fun l done => Tracked (entries ++ batch.entries) (entries ++ done) l)
    (fun l done e l' hl hstep => by simpa using hl.taken ha hstep) hs h₁
  obtain ⟨hf₁, hk₁⟩ := ht fun x hx => hx
  exact hk₁.grows hf₁.sound (hg hf₁.sound)

end

end FillLedger

/-- What happens to the ledger over time. A batch may come from any process,
before or after a restart: the journal it is recorded through is its own. -/
inductive FillAction where
  | record (j : BrokerCommandJournal) (batch : ExecutionFillBatch) (nowUs : Int)
      (commit : FillCommit)
  | retire (candidates : List Nat)
  | resume

/-- The store and the entries of the batches it accepted so far. -/
structure FillHistory where
  store : FillStore := {}
  accepted : List FillEntry := []

namespace FillHistory

variable {h : FillHistory} {k : FillKey}

def step (h : FillHistory) : FillAction → FillHistory
  | .record j batch nowUs commit =>
    match h.store.recordExecutionFills j batch nowUs commit with
    | (s, .ok ()) => ⟨s, h.accepted ++ batch.entries⟩
    | (s, .error _) => ⟨s, h.accepted⟩
  | .retire candidates => { h with store := h.store.retireHandedOff candidates }
  | .resume =>
    { h with store := { h.store with capture := { h.store.capture with paused := false } } }

def run (as : List FillAction) : FillHistory := as.foldl step {}

variable {s : FillStore} {j : BrokerCommandJournal} {batch : ExecutionFillBatch} {nowUs : Int}

theorem recordExecutionFills_cases {s' : FillStore} {commit : FillCommit}
    {answer : Except BrokerCommandError Unit}
    (h : s.recordExecutionFills j batch nowUs commit = (s', answer)) :
    (∃ e, answer = .error e ∧ s'.ledger = s.ledger) ∨
      (answer = .ok () ∧ s.ledger.record j batch nowUs = .ok s'.ledger) := by
  unfold FillStore.recordExecutionFills at h
  split at h
  · cases h
    exact .inl ⟨_, rfl, rfl⟩
  cases hb : s.ledger.record j batch nowUs with
  | error e =>
    rw [hb] at h
    cases h
    exact .inl ⟨_, rfl, rfl⟩
  | ok l =>
    rw [hb] at h
    cases commit with
    | committed =>
      cases h
      exact .inr ⟨rfl, rfl⟩
    | overLimit | failed =>
      cases h
      exact .inl ⟨_, rfl, rfl⟩

/-- A batch is refused without a trace in the ledger, or recorded as a whole. -/
theorem step_record (h : FillHistory) (j : BrokerCommandJournal) (batch : ExecutionFillBatch)
    (nowUs : Int) (commit : FillCommit) :
    (∃ s, h.step (.record j batch nowUs commit) = ⟨s, h.accepted⟩ ∧ s.ledger = h.store.ledger) ∨
    ∃ s, h.step (.record j batch nowUs commit) = ⟨s, h.accepted ++ batch.entries⟩ ∧
      h.store.ledger.record j batch nowUs = .ok s.ledger := by
  cases ha : h.store.recordExecutionFills j batch nowUs commit with
  | mk s =>
    obtain ⟨e, rfl, hs⟩ | ⟨rfl, hok⟩ := recordExecutionFills_cases ha
    · exact .inl ⟨s, by simp only [step, ha], hs⟩
    · exact .inr ⟨s, by simp only [step, ha], hok⟩

/-- A row goes only if it is a candidate, not the last one, and neither a head
nor a comparison refers to it. -/
theorem lookup_retire (s : FillStore) (candidates : List Nat) (n : Nat) :
    (s.retireHandedOff candidates).ledger.fills.lookup n = s.ledger.fills.lookup n ∨
    ((s.retireHandedOff candidates).ledger.fills.lookup n = none ∧ n ∈ candidates ∧
      n < s.ledger.maxSequence ∧
      (∀ k h, s.ledger.heads.lookup k = some h → h.sequence ≠ n) ∧
      ∀ k row, s.ledger.positionChecks.lookup k = some row → row.ledgerSequence ≠ n) := by
  unfold FillStore.retireHandedOff
  rw [Table.lookup_retain]
  split
  · exact .inl rfl
  next hg =>
  rw [Bool.not_eq_true, Bool.not_eq_false', Bool.and_eq_true, Bool.and_eq_true,
    Bool.not_eq_true', decide_eq_true_eq, contains_iff_mem] at hg
  obtain ⟨⟨hc, hlt⟩, hkep⟩ := hg
  have hr := mt contains_iff_mem.2 (Bool.eq_false_iff.1 hkep)
  rw [mem_append, not_or] at hr
  have hke : ∀ {V : Type} (t : Table FillKey V) k v, t.lookup k = some v → k ∈ t.keys :=
    fun t k v hk => AList.mem_keys.1 (AList.lookup_isSome.1 (by rw [hk]; rfl))
  refine .inr ⟨rfl, hc, hlt, fun k h hk hn => hr.1 ?_, fun k row hk hn => hr.2 ?_⟩
  · exact mem_filterMap.2 ⟨k, hke _ k h hk, by rw [hk, ← hn]; rfl⟩
  · exact mem_filterMap.2 ⟨k, hke _ k row hk, by rw [hk, ← hn]; rfl⟩

theorem retire_register (hs : s.ledger.Sound) (candidates : List Nat) :
    (s.retireHandedOff candidates).ledger.Sound ∧
      ∀ k, (s.retireHandedOff candidates).ledger.register k = s.ledger.register k := by
  have hhe : ∀ k h, s.ledger.heads.lookup k = some h →
      (s.retireHandedOff candidates).ledger.fills.lookup h.sequence =
        s.ledger.fills.lookup h.sequence := by
    intro k h hk
    obtain hsa | ⟨-, -, -, hh, -⟩ := lookup_retire s candidates h.sequence
    · exact hsa
    · exact absurd rfl (hh k h hk)
  refine ⟨⟨fun n row hrow => ?_, fun hpos => ?_, fun k h hk => ?_, hs.checks⟩, fun k => ?_⟩
  · obtain hsa | ⟨hn, -⟩ := lookup_retire s candidates n
    · exact hs.bound n row (hsa ▸ hrow)
    · rw [hn] at hrow
      cases hrow
  · change ((s.retireHandedOff candidates).ledger.fills.lookup s.ledger.lastSequence).isSome
    obtain hsa | ⟨-, -, hlt, -⟩ := lookup_retire s candidates s.ledger.lastSequence
    · rw [hsa]
      exact hs.top hpos
    rw [hs.maxSequence_eq] at hlt
    exact absurd hlt (Nat.lt_irrefl _)
  · rw [hhe k h hk]
    exact hs.linked k h hk
  · have hh : (s.retireHandedOff candidates).ledger.head k = s.ledger.head k := by
      change (s.ledger.heads.lookup k).bind _ = (s.ledger.heads.lookup k).bind _
      cases hk : s.ledger.heads.lookup k with
      | none => rfl
      | some h => rw [bind_some, bind_some, hhe k h hk]
    unfold FillLedger.register
    rw [hh]
    rfl

/-- A store that accepted the entries and, if they agree, keeps them. -/
structure Consistent (h : FillHistory) : Prop where
  follows : h.store.ledger.Follows h.accepted
  keeps : FillEntry.Agreeing h.accepted → h.store.ledger.Keeps h.accepted

theorem Consistent.step (hh : h.Consistent) (a : FillAction) : (h.step a).Consistent := by
  cases a with
  | record j batch nowUs commit =>
    obtain ⟨s, hs, hsa⟩ | ⟨s, hs, hok⟩ := h.step_record j batch nowUs commit
    · rw [hs]
      exact ⟨hsa ▸ hh.follows, hsa ▸ hh.keeps⟩
    · rw [hs]
      refine ⟨hh.follows.record hok, fun ha => ?_⟩
      have hb := hh.keeps (ha.mono fun x hx => mem_append_left _ hx)
      exact FillLedger.Keeps.record hh.follows hb ha hok
  | retire candidates =>
    obtain ⟨hso, hr⟩ := retire_register hh.follows.sound candidates
    refine ⟨hh.follows.congr hso hr, fun ha k shown old hsh => ?_⟩
    change ((h.store.retireHandedOff candidates).ledger.register k).shown = some shown at hsh
    rw [hr k] at hsh
    exact hh.keeps ha k shown old hsh
  | resume => exact ⟨hh.follows, hh.keeps⟩

theorem run_invariant {P : FillHistory → Prop} (hs : P {}) (hstep : ∀ h a, P h → P (h.step a))
    (as : List FillAction) : P (run as) :=
  List.foldlRecOn as step hs fun h hh a _ => hstep h a hh

theorem consistent_run (as : List FillAction) : (run as).Consistent :=
  run_invariant ⟨.empty, fun _ _ _ _ hn => (nomatch hn)⟩ (fun _ a hh => hh.step a) as

/-- The conditions under which a batch of agreeing entries must be taken: the
capture is open, the history's owner is the one saved, the heads of its fills
belong to it, its comparison is not refused, and there are sequences left. -/
structure Admissible (h : FillHistory) (j : BrokerCommandJournal) (batch : ExecutionFillBatch)
    (nowUs : Int) : Prop where
  agreeing : FillEntry.Agreeing (h.accepted ++ batch.entries)
  unpaused : h.store.capture.paused = false
  owner : j.validateHistory batch = .ok ()
  owns : h.store.ledger.Owns batch
  clock : 0 < nowUs
  room : h.store.ledger.lastSequence + 2 * batch.entries.length ≤ i64Max.toNat
  comparison : h.store.ledger.AcceptsComparison j.lifecycle.epoch batch nowUs

theorem Admissible.accepted (hh : h.Consistent) (ha : h.Admissible j batch nowUs) :
    (h.store.recordExecutionFills j batch nowUs .committed).2 = .ok () := by
  have hb := hh.keeps (ha.agreeing.mono fun x hx => mem_append_left _ hx)
  have hr : FillLedger.Ready (h.accepted ++ batch.entries) h.accepted batch h.store.ledger :=
    ⟨hh.follows, hb, ha.owns, fun x hx => mem_append_left _ hx⟩
  obtain ⟨l, hl⟩ := hr.record_ok ha.agreeing (fun x hx => mem_append_right _ hx) ha.owner
    ha.clock ha.room ha.comparison
  unfold FillStore.recordExecutionFills
  rw [if_neg (by rw [ha.unpaused]; exact Bool.false_ne_true), hl]
  rfl

theorem accepted_isPrefix (as bs : List FillAction) :
    (run as).accepted <+: (run (as ++ bs)).accepted := by
  unfold run
  rw [foldl_append]
  refine List.foldlRecOn (motive := fun h => (as.foldl step {}).accepted <+: h.accepted) bs
    step prefix_rfl ?_
  intro h hh b _
  refine hh.trans ?_
  cases b with
  | record j batch nowUs commit =>
    obtain ⟨s, hs, -⟩ | ⟨s, hs, -⟩ := h.step_record j batch nowUs commit
    · rw [hs]
    · rw [hs]
      exact prefix_append _ _
  | retire | resume => exact prefix_rfl

/-- Whatever the order, the repetition and the grouping of agreeing entries, a
fill counts as the newest accepted entry says, an older one changes nothing,
a refused batch leaves the ledger as it was, and an admissible one is taken. -/
theorem fill_ledger_confluent {as : List FillAction}
    (hagree : FillEntry.Agreeing (run as).accepted) :
    (∀ k e, Newest FillEntry.asOfUs ((run as).accepted.filter (·.key = k)) e →
      ((run as).store.ledger.active k).map (·.fill.facts) = e.facts) ∧
    (∀ k, (run as).accepted.filter (·.key = k) = [] → (run as).store.ledger.active k = none) ∧
    (∀ bs k e, FillEntry.Agreeing (run (as ++ bs)).accepted →
      Newest FillEntry.asOfUs ((run as).accepted.filter (·.key = k)) e →
      (∀ x ∈ (run (as ++ bs)).accepted, x.key = k → x.asOfUs ≤ e.asOfUs) →
      ((run (as ++ bs)).store.ledger.active k).map (·.fill.facts) = e.facts) ∧
    (∀ j batch nowUs commit s error,
      (run as).store.recordExecutionFills j batch nowUs commit = (s, .error error) →
        s.ledger = (run as).store.ledger) ∧
    ∀ j batch nowUs, (run as).Admissible j batch nowUs →
      ((run as).store.recordExecutionFills j batch nowUs .committed).2 = .ok () := by
  have hc := consistent_run as
  refine ⟨fun k e => hc.follows.active_facts hagree.distinct, fun k => hc.follows.active_none, ?_,
    ?_, fun j batch nowUs ha => ha.accepted hc⟩
  · intro bs k e hag' he hle
    have hmem := mem_filter.1 he.mem
    refine (consistent_run (as ++ bs)).follows.active_facts hag'.distinct ⟨?_, fun x hx => ?_⟩
    · exact mem_filter.2 ⟨(accepted_isPrefix as bs).subset hmem.1, hmem.2⟩
    · obtain ⟨hx, hk⟩ := mem_filter.1 hx
      exact hle x hx (of_decide_eq_true hk)
  · intro j batch nowUs commit s error h
    obtain ⟨_, -, hsa⟩ | ⟨hok, -⟩ := recordExecutionFills_cases h
    · exact hsa
    · cases hok

def sampleInput (price : F64) (asOfUs : Int) : ExecutionFillInput where
  insightId := some "insight"
  fill :=
    { version := 1, provider := "generic-deals-v1", fillId := "deal", orderId := "order"
      positionId := none, symbol := "FUTURE", side := .buy, effect := .entry, quantity := 2
      price, occurredAtUs := 5, asOfUs, cash := none, accountNotional := none }

def sampleRemoval (reason : ExecutionFillInvalidationReason) (asOfUs : Int) :
    ExecutionFillInvalidation where
  provider := "generic-deals-v1"
  fillId := "deal"
  orderId := "order"
  positionId := none
  symbol := "FUTURE"
  side := .buy
  effect := .entry
  occurredAtUs := 5
  asOfUs
  reason

def observe (input : ExecutionFillInput) (h : input.validate = .ok ()) : FillAction :=
  .record ⟨"strategy", "account", {}, 1, ∅, ∅, ∅, ∅, ∅⟩
    { rows := [input]
      rows_valid := fun _ hx => mem_singleton.1 hx ▸ h
      rows_le := by simp [maxFillBatchRows]
      rows_owned := by simp
      invalidations_valid := by simp
      invalidations_le := by simp } 100 .committed

def remove (v : ExecutionFillInvalidation) (h : v.validate = .ok ()) : FillAction :=
  .record ⟨"strategy", "account", {}, 1, ∅, ∅, ∅, ∅, ∅⟩
    { rows := []
      invalidations := [v]
      rows_valid := by simp
      rows_le := by simp
      rows_owned := by simp
      invalidations_valid := fun _ hx => mem_singleton.1 hx ▸ h
      invalidations_le := by simp [maxFillBatchRows] } 100 .committed

/-- A correction arrives before the observation it corrects, and the removal
of an older state of the fill last. -/
theorem fill_ledger_confluent_replayed :
    let as := [observe (sampleInput 11 30) (by decide +kernel),
      observe (sampleInput 10 10) (by decide +kernel),
      remove (sampleRemoval .brokerCancelled 20) (by decide +kernel)]
    (run as).accepted.length = 3 ∧
      ((run as).store.ledger.active ("generic-deals-v1", "deal")).map (·.fill.facts) =
        some (sampleInput 11 30).fill.facts := by
  intro as
  have hag : FillEntry.Agreeing (run as).accepted := ⟨by decide +kernel, by decide +kernel⟩
  have hne : Newest FillEntry.asOfUs
      ((run as).accepted.filter (·.key = ("generic-deals-v1", "deal")))
      (.observation (sampleInput 11 30)) := ⟨by decide +kernel, by decide +kernel⟩
  exact ⟨by decide +kernel, (fill_ledger_confluent hag).1 _ _ hne⟩

/-- Two removals of one fill that give different reasons: the second one to
arrive is refused, so what a delayed observation between them does depends
on their order. -/
theorem removal_reason_breaks_confluence :
    let early := remove (sampleRemoval .brokerCancelled 10) (by decide +kernel)
    let late := remove (sampleRemoval .brokerDeleted 20) (by decide +kernel)
    let delayed := observe (sampleInput 10 15) (by decide +kernel)
    ((run [early, late, delayed]).store.ledger.active ("generic-deals-v1", "deal")).isSome = true ∧
      (run [late, early, delayed]).store.ledger.active ("generic-deals-v1", "deal") = none := by
  decide +kernel

end FillHistory

end AqEngine.Broker
