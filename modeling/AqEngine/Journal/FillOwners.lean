import AqEngine.Journal.FillRuns

namespace AqEngine.Broker

open Lib Fallible LiveSync List

/-- An observation that names the owner was newer than every entry before it. -/
def Leads (id : String) (entries : List FillEntry) : Prop :=
  ∃ before input, before ++ [.observation input] <+: entries ∧ input.insightId = some id ∧
    ∀ x ∈ before, x.asOfUs < input.fill.asOfUs

theorem Leads.of_isPrefix {id : String} {entries entries' : List FillEntry} (h : Leads id entries)
    (hp : entries <+: entries') : Leads id entries' := by
  obtain ⟨before, input, hb, hrest⟩ := h
  exact ⟨before, input, hb.trans hp, hrest⟩

theorem leads_snoc {id : String} {entries : List FillEntry} {e : FillEntry} :
    Leads id (entries ++ [e]) ↔ Leads id entries ∨
      ∃ input, e = .observation input ∧ input.insightId = some id ∧
        ∀ x ∈ entries, x.asOfUs < input.fill.asOfUs := by
  constructor
  · rintro ⟨before, input, hp, hid, hn⟩
    obtain heq | hp := prefix_concat_iff.1 hp
    · obtain ⟨rfl, rfl⟩ := append_singleton_inj.1 heq
      exact .inr ⟨input, rfl, hid, hn⟩
    · exact .inl ⟨before, input, hp, hid, hn⟩
  · rintro (h | ⟨input, rfl, hid, hn⟩)
    · exact h.of_isPrefix (prefix_append _ _)
    · exact ⟨entries, input, prefix_rfl, hid, hn⟩

namespace FillRegister

variable {r r' : FillRegister} {epoch : Nat} {e : FillEntry} {entries : List FillEntry} {t : Int}

def owner (r : FillRegister) : Option String :=
  r.shown.bind fun shown => shown.saved.input.bind (·.insightId)

theorem older_of (h : Holds FillEntry.asOfUs r.Reflects entries)
    (hs : ∀ shown, r.shown = some shown → shown.asOfUs < t)
    (hr : ∀ v ∈ r.removal, v.asOfUs < t) : ∀ x ∈ entries, x.asOfUs < t := by
  intro x hx
  cases h with
  | nothing hni =>
    rw [hni] at hx
    cases hx
  | newest newest hn hR =>
    refine (hn.le x hx).trans_lt ?_
    cases hR with
    | active | removed => exact hs _ rfl
    | fenced => exact hr _ rfl

theorem passed_of (h : Holds FillEntry.asOfUs r.Reflects entries)
    (ht : (∃ shown, r.shown = some shown ∧ t ≤ shown.asOfUs) ∨
      ∃ v, r.removal = some v ∧ t ≤ v.asOfUs) : ¬ ∀ x ∈ entries, x.asOfUs < t := by
  intro ha
  have hn : ∃ x ∈ entries, t ≤ x.asOfUs := by
    cases h with
    | nothing _ hR =>
      cases hR
      simp at ht
    | newest x hx hR =>
      refine ⟨x, hx.mem, ?_⟩
      cases hR with
      | active | fenced | removed => simpa [FillEntry.asOfUs] using ht
  obtain ⟨x, hx, hle⟩ := hn
  exact absurd (ha x hx) (not_lt.2 hle)

theorem Takes.owner (ht : Takes epoch e r r') (h : Holds FillEntry.asOfUs r.Reflects entries)
    (howner : ∀ id, r.owner = some id ↔ Leads id entries) (id : String) :
    r'.owner = some id ↔ Leads id (entries ++ [e]) := by
  rw [leads_snoc, ← howner id]
  cases e with
  | observation input =>
    have hl : (∃ input', FillEntry.observation input = .observation input' ∧
        input'.insightId = some id ∧ ∀ x ∈ entries, x.asOfUs < input'.fill.asOfUs) ↔
        input.insightId = some id ∧ ∀ x ∈ entries, x.asOfUs < input.fill.asOfUs := by
      simp
    rw [hl]
    cases ht with
    | hidden hv =>
      have hp := passed_of h (.inr ⟨_, rfl, hv⟩)
      simp [hp]
    | stale _ hlt =>
      have hp := passed_of h (.inl ⟨_, rfl, hlt.le⟩)
      simp only [hp, and_false, or_false]
      rfl
    | @refreshed _ _ old _ _ _ _ hk =>
      change old.insightId = some id ↔ old.insightId = some id ∨ _
      refine ⟨.inl, fun h => h.elim (fun h => h) fun hn => ?_⟩
      rw [hk, ExecutionFillInput.ownedBy, hn.1]
      rfl
    | started hv =>
      have holder := older_of h (fun _ => nofun) hv
      simpa [FillRegister.owner, SavedFill.input] using fun _ => holder
    | @revised shown old removal hv hlt hold hk =>
      have holder := older_of h (fun shown hsh => by cases hsh; exact hlt) hv
      have hb : FillRegister.owner ⟨some shown, removal⟩ = old.insightId := by
        simp [FillRegister.owner, hold]
      rw [hb]
      change (input.ownedBy old.insightId).insightId = some id ↔ _
      unfold ExecutionFillInput.ownedBy at hk ⊢
      cases hi : input.insightId with
      | none => simp
      | some =>
        cases hr : old.insightId with
        | none => simpa using fun _ => holder
        | some =>
          rw [hi, hr] at hk
          cases hk rfl
          simpa using fun h _ => h
  | invalidation v =>
    have hs : r'.owner = r.owner := by
      cases ht with
      | repeated | stale | unseen | removed | again => rfl
    simp [hs]

end FillRegister

namespace FillLedger

variable {l l' : FillLedger} {entries : List FillEntry}

def owner (l : FillLedger) (k : FillKey) : Option String := (l.register k).owner

/-- The ledger took the entries, and its owners are those who led. -/
structure Owned (l : FillLedger) (entries : List FillEntry) : Prop where
  follows : Follows l entries
  owners : ∀ k id, l.owner k = some id ↔ Leads id (entries.filter (·.key = k))

variable {batch : ExecutionFillBatch} {nowUs : Int}

theorem Owned.congr (h : Owned l entries) (hl : l'.Sound)
    (hr : ∀ k, l'.register k = l.register k) : Owned l' entries := by
  refine ⟨h.follows.congr hl hr, fun k id => ?_⟩
  rw [owner, hr k]
  exact h.owners k id

theorem Owned.taken {epoch : Nat} {e : FillEntry}
    (h : Owned l entries) (hok : takeEntry batch epoch nowUs l e = .ok l') :
    Owned l' (entries ++ [e]) := by
  obtain ⟨hc, ht⟩ := changes_takeEntry h.follows.sound hok
  refine ⟨h.follows.snoc hc (ht.holds (h.follows.holds _)), fun k id => ?_⟩
  by_cases hk : k = e.key
  · subst hk
    simpa [owner] using ht.owner (h.follows.holds _) (h.owners _) id
  · rw [owner, hc.others k hk]
    simpa [Ne.symm hk, owner] using h.owners k id

theorem Owned.record {j : BrokerCommandJournal}
    (h : Owned l entries) (hok : l.record j batch nowUs = .ok l') :
    Owned l' (entries ++ batch.entries) := by
  obtain ⟨l₁, h₁, hgr⟩ := record_eq_ok hok
  have hs : Owned l (entries ++ []) := by rwa [append_nil]
  have ht := foldlM_tracks (P := fun l done => Owned l (entries ++ done))
    (fun l done e l' hl hstep => by simpa using hl.taken hstep) hs h₁
  have hg := hgr ht.follows.sound
  exact ht.congr hg.sound fun k => hg.register ht.follows.sound k

end FillLedger

namespace FillHistory

theorem owned_run (as : List FillAction) : (run as).store.ledger.Owned (run as).accepted := by
  refine run_invariant (P := fun h => h.store.ledger.Owned h.accepted) ⟨.empty, ?_⟩ ?_ as
  · simp [Leads, FillLedger.owner, FillLedger.register, FillLedger.head, FillRegister.owner]
  intro h a hh
  cases a with
  | record j batch nowUs commit =>
    obtain ⟨s, hs, hsa⟩ | ⟨s, hs, hok⟩ := h.step_record j batch nowUs commit
    · rw [hs, hsa]
      exact hh
    · rw [hs]
      exact hh.record hok
  | retire candidates =>
    obtain ⟨hso, hr⟩ := retire_register hh.follows.sound candidates
    exact hh.congr hso hr
  | resume => exact hh

/-- The recorded owner of a fill is the one that an accepted observation named
when it was newer than all before it. A recorded owner stays, and an observation
newer than all the others gives its owner in every order. -/
theorem fill_owner_recorded (as : List FillAction) (k : FillKey) (id : String) :
    ((run as).store.ledger.owner k = some id ↔ Leads id ((run as).accepted.filter (·.key = k))) ∧
    ((run as).store.ledger.owner k = some id →
      ∀ bs, (run (as ++ bs)).store.ledger.owner k = some id) ∧
    ∀ input, .observation input ∈ (run as).accepted → input.fill.key = k →
      input.insightId = some id →
      (∀ x ∈ (run as).accepted, x.key = k → x ≠ .observation input →
        x.asOfUs < input.fill.asOfUs) → (run as).store.ledger.owner k = some id := by
  have how := (owned_run as).owners k id
  refine ⟨how, fun h bs => ?_, fun input hmem hkey hid hne => how.2 ?_⟩
  · refine ((owned_run (as ++ bs)).owners k id).2 ((how.1 h).of_isPrefix ?_)
    exact (accepted_isPrefix as bs).filter _
  · have hfi : .observation input ∈ (run as).accepted.filter (·.key = k) :=
      mem_filter.2 ⟨hmem, decide_eq_true hkey⟩
    obtain ⟨before, after, hsp, hfir⟩ := eq_append_cons_of_mem hfi
    refine ⟨before, input, ⟨after, by rw [hsp]; simp⟩, hid, fun x hx => ?_⟩
    have hx' := mem_filter.1 (hsp ▸ mem_append_left _ hx)
    exact hne x hx'.1 (of_decide_eq_true hx'.2) fun heq => hfir (heq ▸ hx)

/-- The owned observation is the older one. Only when it arrives first is its
owner recorded. -/
theorem late_owner_lost :
    let owned := observe (sampleInput 12 10) (by decide +kernel)
    let anonymous := observe { sampleInput 12 20 with insightId := none } (by decide +kernel)
    (run [owned, anonymous]).accepted.length = 2 ∧ (run [anonymous, owned]).accepted.length = 2 ∧
      (run [owned, anonymous]).store.ledger.owner ("generic-deals-v1", "deal") = some "insight" ∧
      (run [anonymous, owned]).store.ledger.owner ("generic-deals-v1", "deal") = none := by
  decide +kernel

end FillHistory

end AqEngine.Broker
