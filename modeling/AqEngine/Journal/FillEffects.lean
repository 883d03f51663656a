import AqEngine.Journal.FillRegister
import Mathlib.Data.List.MinMax

namespace AqEngine.Broker

open Lib Fallible LiveSync List Option AList Table

namespace FillLedger

variable {l l' : FillLedger} {k k' : FillKey} {nowUs asOfUs : Int} {epoch : Nat}

def register (l : FillLedger) (k : FillKey) : FillRegister where
  shown := (l.head k).map fun entry => ⟨entry.1.asOfUs, entry.2.executionEpoch, entry.2.saved⟩
  removal := l.invalidated.lookup k

/-- A comparison that can be withdrawn: its record passes its check. -/
structure CheckSound (k : FillKey) (row : PositionCheckRow) (last : Nat) : Prop where
  provider : identity k.1 128 = true
  position : identity k.2 128 = true
  symbol : identity row.check.snapshot.symbol 256 = true
  insight : identity row.insightId 128 = true
  epoch_ne : UInt64.ofNat row.executionEpoch ≠ 0
  epoch_le : UInt64.ofNat row.executionEpoch ≤ i64Max
  sequence_ne : UInt64.ofNat row.ledgerSequence ≠ 0
  sequence_le : (UInt64.ofNat row.ledgerSequence).toNat ≤ last
  asOf_pos : 0 < row.asOfUs

/-- Every head has its row, and the last row is always there. -/
structure Sound (l : FillLedger) : Prop where
  bound : ∀ n row, l.fills.lookup n = some row → n ≤ l.lastSequence
  top : 0 < l.lastSequence → (l.fills.lookup l.lastSequence).isSome
  linked : ∀ k h, l.heads.lookup k = some h → (l.fills.lookup h.sequence).isSome
  checks : ∀ k row, l.positionChecks.lookup k = some row → CheckSound k row l.lastSequence

theorem Sound.empty : Sound {} where
  bound _ _ h := nomatch h
  top h := absurd h (Nat.lt_irrefl 0)
  linked _ _ h := nomatch h
  checks _ _ h := nomatch h

theorem CheckSound.mono {row : PositionCheckRow} {m n : Nat} (h : CheckSound k row m)
    (hmn : m ≤ n) : CheckSound k row n :=
  { h with sequence_le := h.sequence_le.trans hmn }

theorem Sound.maxSequence_eq (hl : l.Sound) : l.maxSequence = l.lastSequence := by
  refine Nat.le_antisymm (max_le_of_forall_le _ _ fun n hn => ?_) ?_
  · obtain ⟨row, hrow⟩ := isSome_iff_exists.1 (lookup_isSome.2 (AList.mem_keys.2 hn))
    exact hl.bound n row hrow
  · rcases Nat.eq_zero_or_pos l.lastSequence with h | h
    · rw [h]
      exact Nat.zero_le _
    · exact le_max_of_le (AList.mem_keys.1 (lookup_isSome.1 (hl.top h))) (Nat.le_refl _)

/-- From one ledger to a later one with at most `n` rows more, numbered on
from the last one. -/
structure Appends (n : Nat) (l l' : FillLedger) : Prop where
  kept : ∀ i ≤ l.lastSequence, l'.fills.lookup i = l.fills.lookup i
  added : ∀ i, l.lastSequence < i → i ≤ l'.lastSequence → (l'.fills.lookup i).isSome
  le : l.lastSequence ≤ l'.lastSequence
  last : l'.lastSequence ≤ l.lastSequence + n

variable {m n : Nat} {l'' : FillLedger} {o : FillHistoryOwner} {provider : String}
  {check : PositionQuantityCheck} {sequence : Nat} {batch : ExecutionFillBatch} {row : FillRow}
  {input : ExecutionFillInput} {v : ExecutionFillInvalidation} {hd : FillHead}
  {owner : Option FillHistoryOwner} {appended : Bool} {t : Int} {j : BrokerCommandJournal}

theorem Appends.same (hf : l'.fills = l.fills) (hl : l'.lastSequence = l.lastSequence) :
    Appends n l l' where
  kept i _ := by rw [hf]
  added i hlt hle := absurd hle (by omega)
  le := hl.ge
  last := by omega

theorem Appends.refl : Appends n l l := .same rfl rfl

theorem Appends.mono (h : Appends m l l') (hmn : m ≤ n) : Appends n l l' :=
  { h with last := h.last.trans (Nat.add_le_add_left hmn _) }

theorem Appends.trans (h : Appends m l l') (h' : Appends n l' l'') : Appends (m + n) l l'' where
  kept i hi := (h'.kept i (hi.trans h.le)).trans (h.kept i hi)
  added i hlt hle := by
    by_cases hi : i ≤ l'.lastSequence
    · rw [h'.kept i hi]
      exact h.added i hlt hi
    · exact h'.added i (not_le.1 hi) hle
  le := h.le.trans h'.le
  last := by
    have := h.last
    have := h'.last
    omega

/-- From one ledger to a later one with the same heads and removals, and at
most `n` rows more. -/
structure Grows (n : Nat) (l l' : FillLedger) : Prop where
  sound : l'.Sound
  heads : l'.heads = l.heads
  invalidated : l'.invalidated = l.invalidated
  rows : Appends n l l'

theorem Grows.refl (hl : l.Sound) : Grows n l l := ⟨hl, rfl, rfl, .refl⟩

theorem Grows.trans (h : Grows m l l') (h' : Grows n l' l'') : Grows (m + n) l l'' :=
  ⟨h'.sound, h'.heads.trans h.heads, h'.invalidated.trans h.invalidated, h.rows.trans h'.rows⟩

theorem Grows.register (hl : l.Sound) (h : Grows n l l') (k : FillKey) :
    l'.register k = l.register k := by
  have hhe : l'.head k = l.head k := by
    unfold FillLedger.head
    rw [h.heads]
    cases hh : l.heads.lookup k with
    | none => rfl
    | some hd =>
      obtain ⟨row, hrow⟩ := isSome_iff_exists.1 (hl.linked k hd hh)
      rw [bind_some, bind_some, h.rows.kept _ (hl.bound _ _ hrow)]
  unfold FillLedger.register
  rw [hhe, h.invalidated]

theorem grows_append (hl : l.Sound) (epoch : Nat) (nowUs : Int) (saved : SavedFill) :
    Grows 1 l (l.append epoch nowUs saved) where
  sound := by
    refine ⟨fun n row h => ?_, fun _ => ?_, fun k h hh => ?_, fun k row h => ?_⟩
    · rcases lookup_insert_cases h with ⟨rfl, _⟩ | ⟨_, h⟩
      · exact Nat.le_refl _
      · exact (hl.bound n row h).trans (Nat.le_succ _)
    · exact isSome_iff_exists.2 ⟨_, lookup_insert l.fills⟩
    · change (AList.lookup h.sequence (l.fills.insert _ _)).isSome
      rw [lookup_insert_ite]
      split
      · rfl
      · exact hl.linked k h hh
    · exact (hl.checks k row h).mono (Nat.le_succ _)
  heads := rfl
  invalidated := rfl
  rows := by
    refine ⟨fun i _ => ?_, fun i hlt hle => ?_, Nat.le_succ _, Nat.le_refl _⟩
    · change AList.lookup i (l.fills.insert _ _) = _
      rw [lookup_insert_ite, if_neg (by omega)]
    · obtain rfl : i = l.lastSequence + 1 := Nat.le_antisymm hle hlt
      exact isSome_iff_exists.2 ⟨_, lookup_insert l.fills⟩

theorem grows_noteClock (hl : l.Sound) (clock : Option String) : Grows 0 l (l.noteClock clock) := by
  cases clock with
  | none => exact .refl hl
  | some c =>
    unfold noteClock
    dsimp only
    split
    · exact .refl hl
    · exact ⟨{ hl with }, rfl, rfl, .same rfl rfl⟩

theorem grows_appendPositionCheck (hl : l.Sound) {o : PositionQuantityObservation}
    (h : l.appendPositionCheck nowUs epoch o = .ok l') : Grows 1 l l' := by
  obtain ⟨-, -, h⟩ := bind_eq_ok.1 h
  cases h
  exact grows_append hl _ _ _

theorem grows_invalidatePositionCheck (hl : l.Sound) {position : Option String}
    (h : l.invalidatePositionCheck nowUs provider position asOfUs = .ok l') : Grows 1 l l' := by
  unfold invalidatePositionCheck at h
  cases position with
  | none =>
    cases h
    exact .refl hl
  | some position =>
    dsimp only at h
    cases hold : l.positionChecks.lookup (provider, position) with
    | none =>
      rw [hold] at h
      cases h
      exact .refl hl
    | some =>
      rw [hold] at h
      obtain ⟨l₁, h₁, h⟩ := bind_eq_ok.1 h
      cases h
      have hg := grows_appendPositionCheck hl h₁
      refine ⟨⟨hg.sound.bound, hg.sound.top, hg.sound.linked, fun k row hrow => ?_⟩, hg.heads,
        hg.invalidated, hg.rows.trans (n := 0) (.same rfl rfl)⟩
      rw [lookup_erase_ite] at hrow
      split at hrow
      · cases hrow
      · exact hg.sound.checks k row hrow

theorem validate_ok_iff {record : PositionQuantityRecord} : record.validate = .ok () ↔
    (record.sequence ≠ 0 ∧ record.sequence ≤ i64Max ∧ record.executionEpoch ≠ 0 ∧
      record.executionEpoch ≤ i64Max ∧ 0 < record.recordedAtUs ∧ 0 < record.observation.asOfUs ∧
      record.observation.ledgerSequence ≠ 0 ∧
      record.observation.ledgerSequence < record.sequence ∧
      identity record.observation.provider 128 = true ∧
      identity record.observation.positionId 128 = true ∧
      identity record.observation.symbol 256 = true ∧
      identity record.observation.insightId 128 = true) ∧
    ∀ c, record.observation.check = some c → c.validate record.observation = .ok () := by
  unfold PositionQuantityRecord.validate
  rw [refuseIf_bind_eq_ok]
  refine and_congr ?_ ?_
  · simp only [not_or, UInt64.not_lt, UInt64.not_le, Int.not_le, Bool.not_eq_false]
  · cases record.observation.check with
    | none => simp
    | some c => simp

theorem checkSound_of_append (hl : l.Sound) (h : l.appendPositionCheck nowUs o.executionEpoch
      (checkObservation provider o check sequence) = .ok l') :
    CheckSound (provider, check.snapshot.positionId)
      ⟨o.insightId, o.executionEpoch, sequence, check.snapshot.asOfUs, check⟩ l'.lastSequence := by
  obtain ⟨_, hvalid, h⟩ := bind_eq_ok.1 h
  cases h
  obtain ⟨⟨-, -, hne, hle, -, hpos, hs, hlt, hpr, hp, hsy, hi⟩, -⟩ :=
    validate_ok_iff.1 (orJournal_eq_ok.1 hvalid)
  refine ⟨hpr, hp, hsy, hi, hne, hle, hs, ?_, hpos⟩
  have hm : (UInt64.ofNat (l.maxSequence + 1)).toNat ≤ l.maxSequence + 1 := by
    exact Nat.mod_le _ _
  rw [hl.maxSequence_eq] at hm hlt
  exact (Nat.lt_of_lt_of_le hlt hm).le

theorem grows_savePositionCheck (hl : l.Sound)
    (h : l.savePositionCheck nowUs provider o check sequence = .ok l') : Grows 1 l l' := by
  obtain ⟨l₁, h₁, h⟩ := bind_eq_ok.1 h
  cases h
  have hg := grows_appendPositionCheck hl h₁
  refine ⟨⟨hg.sound.bound, hg.sound.top, hg.sound.linked, fun k row hrow => ?_⟩, hg.heads,
    hg.invalidated, hg.rows.trans (n := 0) (.same rfl rfl)⟩
  rcases lookup_insert_cases hrow with ⟨rfl, rfl⟩ | ⟨_, hrow⟩
  · have hs := checkSound_of_append hl h₁
    exact hs
  · exact hg.sound.checks k row hrow

theorem grows_refreshPositionCheck (hl : l.Sound)
    (h : l.refreshPositionCheck nowUs provider o check sequence = .ok l') : Grows 1 l l' := by
  unfold refreshPositionCheck at h
  dsimp only at h
  split at h
  · exact grows_savePositionCheck hl h
  next old hold =>
  split at h
  · cases h
    exact .refl hl
  split at h
  · obtain ⟨-, h⟩ := refuseIf_bind_eq_ok.1 h
    cases h
    exact .refl hl
  next _ _ =>
  split at h
  next hsa =>
    cases h
    refine ⟨⟨hl.bound, hl.top, hl.linked, fun k row hrow => ?_⟩, rfl, rfl, .same rfl rfl⟩
    rcases lookup_insert_cases hrow with ⟨rfl, rfl⟩ | ⟨_, hrow⟩
    · have hs := hl.checks _ old hold
      have hsy : check.snapshot.symbol = old.check.snapshot.symbol := by rw [← hsa.1]
      refine { hs with symbol := ?_, asOf_pos := ?_ }
      · exact hsy ▸ hs.symbol
      · have := hs.asOf_pos
        change 0 < check.snapshot.asOfUs
        omega
    · exact hl.checks k row hrow
  · exact grows_savePositionCheck hl h

theorem grows_persistPositionCheck (hl : l.Sound)
    (h : l.persistPositionCheck batch nowUs = .ok l') : Grows 1 l l' := by
  unfold persistPositionCheck at h
  split at h
  · split at h
    · cases h
    · unfold comparePosition at h
      dsimp only at h
      split at h
      · cases h
        exact .refl hl
      · exact grows_refreshPositionCheck hl h
  · cases h
    exact .refl hl

/-- A change of one fill with at most `n` rows more: the others keep their
state. -/
structure Changes (n : Nat) (k : FillKey) (l l' : FillLedger) : Prop where
  sound : l'.Sound
  rows : Appends n l l'
  others : ∀ k', k' ≠ k → l'.register k' = l.register k'

theorem Grows.changes (hl : l.Sound) (h : Grows n l l') (k : FillKey) : Changes n k l l' :=
  ⟨h.sound, h.rows, fun k' _ => h.register hl k'⟩

theorem Changes.refl (hl : l.Sound) : Changes n k l l := ⟨hl, .refl, fun _ _ => rfl⟩

theorem Changes.trans (h : Changes m k l l') (h' : Changes n k l' l'') : Changes (m + n) k l l'' :=
  ⟨h'.sound, h.rows.trans h'.rows, fun k' hk => (h'.others k' hk).trans (h.others k' hk)⟩

theorem Changes.mono (h : Changes m k l l') (hmn : m ≤ n) : Changes n k l l' :=
  { h with rows := h.rows.mono hmn }

theorem register_setHead (k' : FillKey) (hrow : l.fills.lookup n = some row)
    : (l.setHead k ⟨n, t⟩).register k' =
      if k' = k then ⟨some ⟨t, row.executionEpoch, row.saved⟩, l.invalidated.lookup k'⟩
      else l.register k' := by
  have hh : (l.setHead k ⟨n, t⟩).head k' = if k' = k then some (⟨n, t⟩, row) else l.head k' := by
    unfold head setHead
    rw [lookup_insert_ite]
    split
    · rw [bind_some, hrow, map_some]
    · rfl
  unfold register
  rw [hh]
  split <;> rfl

theorem sound_setHead (hl : l.Sound) (hrow : l.fills.lookup n = some row) :
    (l.setHead k ⟨n, t⟩).Sound := by
  refine ⟨hl.bound, hl.top, fun k' h hh => ?_, hl.checks⟩
  rcases lookup_insert_cases hh with ⟨rfl, rfl⟩ | ⟨_, hh⟩
  · exact isSome_iff_exists.2 ⟨row, hrow⟩
  · exact hl.linked k' h hh

theorem changes_appendHead (hl : l.Sound) (epoch : Nat) (nowUs : Int) (k : FillKey)
    (saved : SavedFill) (t : Int) :
    let l' := (l.append epoch nowUs saved).setHead k ⟨l.lastSequence + 1, t⟩
    Changes 1 k l l' ∧ l'.register k = ⟨some ⟨t, epoch, saved⟩, (l.register k).removal⟩ := by
  have hg := grows_append hl epoch nowUs saved
  have hrow : (l.append epoch nowUs saved).fills.lookup (l.lastSequence + 1) =
      some ⟨epoch, nowUs, saved⟩ := lookup_insert l.fills
  refine ⟨⟨sound_setHead hg.sound hrow, hg.rows.trans (n := 0) (.same rfl rfl),
    fun k' hk => ?_⟩, ?_⟩
  · rw [register_setHead k' hrow, if_neg hk]
    exact hg.register hl k'
  · rw [register_setHead k hrow, if_pos rfl]
    rfl

theorem changes_setWatermark (hl : l.Sound) (k : FillKey) (t : Int) :
    Changes 0 k l (l.setWatermark k t) ∧ (l.setWatermark k t).register k =
      ⟨(l.register k).shown.map fun shown => { shown with asOfUs := t },
        (l.register k).removal⟩ := by
  have hlo : ∀ k', (l.setWatermark k t).heads.lookup k' =
      if k' = k then (l.heads.lookup k').map fun h => { h with asOfUs := t }
      else l.heads.lookup k' := fun k' => lookup_modify l.heads k k' _
  refine ⟨⟨⟨hl.bound, hl.top, fun k' h hh => ?_, hl.checks⟩, .same rfl rfl, fun k' hk => ?_⟩, ?_⟩
  · rw [hlo] at hh
    split at hh
    · obtain ⟨h₀, hh₀, rfl⟩ := map_eq_some_iff.1 hh
      exact hl.linked k' h₀ hh₀
    · exact hl.linked k' h hh
  · unfold register head
    rw [hlo, if_neg hk]
    rfl
  · unfold register head
    rw [hlo, if_pos rfl]
    cases l.heads.lookup k with
    | none => rfl
    | some h =>
      rw [map_some, bind_some, bind_some]
      change FillRegister.mk (((l.fills.lookup h.sequence).map _).map _) _ = _
      cases l.fills.lookup h.sequence with
      | none => rfl
      | some => rfl

theorem changes_revise (hl : l.Sound) {clock : Option String}
    (h : l.revise clock nowUs epoch input = .ok l') :
    Changes 2 input.fill.key l l' ∧ l'.register input.fill.key =
      ⟨some ⟨input.fill.asOfUs, epoch, .observation input⟩,
        (l.register input.fill.key).removal⟩ := by
  obtain ⟨l₂, h₂, h⟩ := bind_eq_ok.1 h
  cases h
  obtain ⟨hc, hr⟩ := changes_appendHead hl epoch nowUs input.fill.key (.observation input)
    input.fill.asOfUs
  have hg := grows_invalidatePositionCheck hc.sound h₂
  have hg' := hg.trans (grows_noteClock hg.sound clock)
  refine ⟨hc.trans (hg'.changes hc.sound _), ?_⟩
  rw [hg'.register hc.sound]
  exact hr

theorem changes_bury (hl : l.Sound) (h : l.bury nowUs v = .ok l') :
    Changes 1 v.key l l' ∧ l'.register v.key = ⟨(l.register v.key).shown, some v⟩ := by
  obtain ⟨l₁, h₁, h⟩ := bind_eq_ok.1 h
  cases h
  have hg := grows_invalidatePositionCheck hl h₁
  have hs : ∀ k', (l₁.register k').shown = (l.register k').shown := fun k' => by
    rw [hg.register hl]
  refine ⟨⟨⟨hg.sound.bound, hg.sound.top, hg.sound.linked, hg.sound.checks⟩,
    hg.rows.trans (n := 0) (.same rfl rfl), fun k' hk => ?_⟩, ?_⟩
  · rw [← hg.register hl]
    unfold register
    rw [lookup_insert_ite, if_neg hk]
    rfl
  · rw [← hs]
    unfold register
    rw [lookup_insert]
    rfl

theorem suppressed_eq_ok (hl : l.Sound) {fill : ExecutionFill} {hidden : Bool}
    (h : l.suppressed fill = .ok (hidden, l')) :
    (hidden = true ∧ l' = l ∧
      ∃ v, (l.register fill.key).removal = some v ∧ fill.asOfUs ≤ v.asOfUs) ∨
    (hidden = false ∧ (∀ v ∈ (l.register fill.key).removal, v.asOfUs < fill.asOfUs) ∧
      Changes 0 fill.key l l' ∧ l'.register fill.key = ⟨(l.register fill.key).shown, none⟩) := by
  unfold suppressed at h
  cases hv : l.invalidated.lookup fill.key with
  | none =>
    rw [hv] at h
    cases h
    refine .inr ⟨rfl, fun v hm => ?_, .refl hl, ?_⟩
    · rw [show (l.register fill.key).removal = none from hv] at hm
      cases hm
    · rw [← show (l.register fill.key).removal = none from hv]
  | some v =>
    rw [hv] at h
    obtain ⟨-, h⟩ := refuseIf_bind_eq_ok.1 h
    split at h
    next hle =>
      cases h
      exact .inl ⟨rfl, rfl, v, hv, hle⟩
    next hle =>
    cases h
    refine .inr ⟨rfl, fun w hw => ?_, ⟨{ hl with },
      .same rfl rfl, fun _ hk => ?_⟩, ?_⟩
    · rw [show (l.register fill.key).removal = some v from hv] at hw
      cases hw
      exact not_le.1 hle
    · unfold register
      rw [lookup_erase_ite, if_neg hk]
      rfl
    · unfold register
      rw [lookup_erase]
      rfl

theorem intoParts_eq_ok {saved : SavedFill} {old : ExecutionFillInput}
    {invalidation : Option ExecutionFillInvalidation}
    (h : saved.intoParts = .ok (old, invalidation)) :
    (saved = .observation old ∧ invalidation = none) ∨
      ∃ v, saved = .invalidated old v ∧ invalidation = some v := by
  cases saved with
  | positionCheck => cases h
  | invalidated o v =>
    cases h
    exact .inr ⟨v, rfl, rfl⟩
  | observation o =>
    cases h
    exact .inl ⟨rfl, rfl⟩

theorem shown_of_head (h : l.head k = some (hd, row)) :
    (l.register k).shown = some ⟨hd.asOfUs, row.executionEpoch, row.saved⟩ := by
  unfold register
  rw [h]
  rfl

theorem changes_observeAgain (hl : l.Sound) {epoch₀ : Nat}
    {removal : Option ExecutionFillInvalidation} (hv : ∀ v ∈ removal, v.asOfUs < input.fill.asOfUs)
    (hh : l.head input.fill.key = some (hd, row))
    (hg : (l.register input.fill.key).removal = none)
    (h : l.observeAgain batch nowUs input hd row = .ok l') :
    Changes 2 input.fill.key l l' ∧ FillRegister.Observes epoch₀ input
      ⟨(l.register input.fill.key).shown, removal⟩ (l'.register input.fill.key) := by
  have hsh := shown_of_head hh
  have hse : l.register input.fill.key =
      ⟨some ⟨hd.asOfUs, row.executionEpoch, row.saved⟩, none⟩ := by rw [← hsh, ← hg]
  obtain ⟨-, h⟩ := refuseIf_bind_eq_ok.1 h
  obtain ⟨⟨old, invalidation⟩, hp, h⟩ := bind_eq_ok.1 h
  rw [hsh]
  dsimp only at h
  split at h
  next hlt =>
    cases h
    rw [hse]
    exact ⟨.refl hl, .stale hv hlt⟩
  next hle =>
  obtain ⟨hk, h⟩ := refuseIf_bind_eq_ok.1 h
  split at h
  next hs =>
    cases h
    obtain ⟨hc, hr⟩ := changes_setWatermark hl input.fill.key input.fill.asOfUs
    refine ⟨hc.mono (by omega), ?_⟩
    rw [hr, hse]
    obtain ⟨hsa, -⟩ | ⟨v, -, hso⟩ := intoParts_eq_ok hp
    · rw [hsa]
      exact .refreshed hv (not_lt.1 hle) (ExecutionFill.sameFacts_iff.1 hs.2.1) hs.2.2
    rw [hso] at hs
    exact absurd hs.1 (by simp)
  next =>
  obtain ⟨hne, h⟩ := refuseIf_bind_eq_ok.1 h
  obtain ⟨hc, hr⟩ := changes_revise hl h
  refine ⟨hc, ?_⟩
  change l'.register input.fill.key = ⟨some ⟨input.fill.asOfUs, _, _⟩, _⟩ at hr
  rw [hr]
  have hlt : hd.asOfUs < input.fill.asOfUs := lt_of_le_of_ne (not_lt.1 hle) (Ne.symm hne)
  have hold : row.saved.input = some old := by
    obtain ⟨hsa, -⟩ | ⟨v, hsa, -⟩ := intoParts_eq_ok hp <;> rw [hsa] <;> rfl
  change FillRegister.Observes _ _ _ ⟨_, (l.register input.fill.key).removal⟩
  rw [hg]
  exact .revised hv hlt hold fun ho => not_not.1 fun hne => hk (.inr ⟨ho, hne⟩)

theorem changes_recordFill (hl : l.Sound) (h : l.recordFill batch epoch nowUs input = .ok l') :
    Changes 2 input.fill.key l l' ∧
      FillRegister.Observes ((batch.owner.map (·.executionEpoch)).getD epoch) input
        (l.register input.fill.key) (l'.register input.fill.key) := by
  obtain ⟨⟨hidden, l₁⟩, hs, h⟩ := bind_eq_ok.1 h
  obtain ⟨rfl, hsa, v, hv, hle⟩ | ⟨rfl, hv, hc, hr⟩ := suppressed_eq_ok hl hs
  · obtain rfl : l₁ = l' := Except.ok.inj h
    rw [hsa]
    refine ⟨.refl hl, ?_⟩
    rw [show l.register input.fill.key = ⟨(l.register input.fill.key).shown, some v⟩ by rw [← hv]]
    exact .hidden hle
  · have hg : (l₁.register input.fill.key).removal = none := by rw [hr]
    have hsh : (l₁.register input.fill.key).shown = (l.register input.fill.key).shown := by
      rw [hr]
    dsimp only at h
    split at h
    next hco => cases hco
    next =>
    split at h
    next hh =>
      obtain ⟨hc', hr'⟩ := changes_revise hc.sound h
      refine ⟨hc.trans hc', ?_⟩
      have hn : (l.register input.fill.key).shown = none := by
        rw [← hsh]
        unfold register
        rw [hh]
        rfl
      rw [hr', hg, show l.register input.fill.key =
        ⟨none, (l.register input.fill.key).removal⟩ by rw [← hn]]
      exact .started hv
    next _ _ hh =>
    obtain ⟨hc', ho⟩ := changes_observeAgain hc.sound hv hh hg h
    rw [hsh] at ho
    exact ⟨(hc.trans hc').mono (by omega), ho⟩

theorem changes_removeAgain (hl : l.Sound)
    (hold : ∀ old ∈ (l.register v.key).removal, old.asOfUs < v.asOfUs)
    (hh : l.head v.key = some (hd, row))
    (h : l.removeAgain owner nowUs v hd row = .ok (l', appended)) :
    Changes 2 v.key l l' ∧ FillRegister.Removes v (l.register v.key) (l'.register v.key) := by
  have hs : l.register v.key =
      ⟨some ⟨hd.asOfUs, row.executionEpoch, row.saved⟩, (l.register v.key).removal⟩ := by
    rw [← shown_of_head hh]
  obtain ⟨⟨old, invalidation⟩, hp, h⟩ := bind_eq_ok.1 h
  obtain ⟨-, h⟩ := refuseIf_bind_eq_ok.1 h
  split at h
  next hlt =>
    cases h
    refine ⟨.refl hl, ?_⟩
    rw [hs]
    exact .stale hlt hold
  next hle =>
  obtain ⟨hsa, rfl⟩ | ⟨first, hsa, rfl⟩ := intoParts_eq_ok hp
  · obtain ⟨hne, h⟩ := refuseIf_bind_eq_ok.1 h
    obtain ⟨l₁, h₁, h⟩ := bind_eq_ok.1 h
    cases h
    obtain ⟨hc, hr⟩ := changes_appendHead hl row.executionEpoch nowUs v.key
      (.invalidated old v) v.asOfUs
    obtain ⟨hc', hr'⟩ := changes_bury hc.sound h₁
    refine ⟨hc.trans hc', ?_⟩
    rw [hr', hr, hs, hsa]
    exact .removed hold (lt_of_le_of_ne (not_lt.1 hle) (Ne.symm hne))
  · obtain ⟨l₁, h₁, h⟩ := bind_eq_ok.1 h
    cases h
    obtain ⟨hc, hr⟩ := changes_setWatermark hl v.key v.asOfUs
    obtain ⟨hc', hr'⟩ := changes_bury hc.sound h₁
    refine ⟨(hc.trans hc').mono (by omega), ?_⟩
    rw [hr', hr, hs, hsa]
    exact .again hold (not_lt.1 hle)

theorem changes_removeFill (hl : l.Sound)
    (hold : ∀ old ∈ (l.register v.key).removal, old.asOfUs < v.asOfUs)
    (h : l.removeFill owner nowUs v = .ok (l', appended)) :
    Changes 2 v.key l l' ∧ FillRegister.Removes v (l.register v.key) (l'.register v.key) := by
  unfold removeFill at h
  cases hh : l.head v.key with
  | none =>
    rw [hh] at h
    obtain ⟨l₁, h₁, h⟩ := bind_eq_ok.1 h
    cases h
    obtain ⟨hc, hr⟩ := changes_bury hl h₁
    refine ⟨hc.mono (by omega), ?_⟩
    have hn : (l.register v.key).shown = none := by
      unfold register
      rw [hh]
      rfl
    rw [hr, show l.register v.key = ⟨none, (l.register v.key).removal⟩ by rw [← hn]]
    exact .unseen hold
  | some =>
    rw [hh] at h
    exact changes_removeAgain hl hold hh h

theorem changes_applyInvalidation (hl : l.Sound)
    (h : l.applyInvalidation owner nowUs v = .ok (l', appended)) :
    Changes 2 v.key l l' ∧ FillRegister.Removes v (l.register v.key) (l'.register v.key) := by
  obtain ⟨-, -, h⟩ := bind_eq_ok.1 h
  cases hv : l.invalidated.lookup v.key with
  | none =>
    rw [hv] at h
    refine changes_removeFill hl (fun old hold => ?_) h
    rw [show (l.register v.key).removal = none from hv] at hold
    cases hold
  | some old =>
    have hr : (l.register v.key).removal = some old := hv
    rw [hv] at h
    obtain ⟨-, h⟩ := refuseIf_bind_eq_ok.1 h
    split at h
    next hle =>
      cases h
      refine ⟨.refl hl, ?_⟩
      rw [show l.register v.key = ⟨(l.register v.key).shown, some old⟩ by rw [← hr]]
      exact .repeated hle
    next hle =>
    refine changes_removeFill hl (fun w hw => ?_) h
    rw [hr] at hw
    cases hw
    exact not_le.1 hle

def takeEntry (batch : ExecutionFillBatch) (epoch : Nat) (nowUs : Int) (l : FillLedger) :
    FillEntry → Except BrokerCommandError FillLedger
  | .observation input => l.recordFill batch epoch nowUs input
  | .invalidation v => (l.applyInvalidation batch.owner nowUs v).map (·.1)

theorem takeEntries_iff : batch.entries.foldlM (takeEntry batch epoch nowUs) l = .ok l' ↔
    ∃ l₁ appended, l.recordFills batch epoch nowUs = .ok l₁ ∧
      l₁.applyInvalidations batch nowUs = .ok (l', appended) := by
  have hr : ∀ (vs : List ExecutionFillInvalidation) (l : FillLedger) (flag : Bool),
      vs.foldlM (fun l v => takeEntry batch epoch nowUs l (.invalidation v)) l = .ok l' ↔
        ∃ appended, vs.foldlM (fun (s : FillLedger × Bool) v => do
          let r ← s.1.applyInvalidation batch.owner nowUs v
          .ok (r.1, s.2 || r.2)) (l, flag) = .ok (l', appended) := by
    intro vs
    induction vs with
    | nil =>
      intro l flag
      constructor
      · intro h
        cases h
        exact ⟨flag, rfl⟩
      · rintro ⟨_, h⟩
        cases h
        rfl
    | cons v vs ih =>
      intro l flag
      rw [foldlM_cons, foldlM_cons, takeEntry]
      cases l.applyInvalidation batch.owner nowUs v with
      | error e =>
        constructor
        · intro h
          cases h
        · rintro ⟨_, h⟩
          cases h
      | ok s => exact ih s.1 (flag || s.2)
  rw [ExecutionFillBatch.entries, foldlM_append, bind_eq_ok]
  simp only [foldlM_map]
  constructor
  · rintro ⟨l₁, h₁, h₂⟩
    obtain ⟨appended, h₂⟩ := (hr _ l₁ false).1 h₂
    exact ⟨l₁, appended, h₁, h₂⟩
  · rintro ⟨l₁, appended, h₁, h₂⟩
    exact ⟨l₁, h₁, (hr _ l₁ false).2 ⟨appended, h₂⟩⟩

theorem changes_takeEntry {e : FillEntry} (hl : l.Sound)
    (h : takeEntry batch epoch nowUs l e = .ok l') :
    Changes 2 e.key l l' ∧ FillRegister.Takes ((batch.owner.map (·.executionEpoch)).getD epoch) e
      (l.register e.key) (l'.register e.key) := by
  cases e with
  | observation => exact changes_recordFill hl h
  | invalidation v =>
    obtain ⟨⟨l₁, added⟩, ho, -⟩ := map_eq_ok h
    rw [takeEntry, ho] at h
    cases h
    exact changes_applyInvalidation hl ho

/-- A batch is recorded entry by entry; after that no fill changes. -/
theorem record_eq_ok (h : l.record j batch nowUs = .ok l') :
    ∃ l₁, batch.entries.foldlM (takeEntry batch j.lifecycle.epoch nowUs) l = .ok l₁ ∧
      (l₁.Sound → Grows 1 l₁ l') := by
  obtain ⟨-, -, h⟩ := bind_eq_ok.1 h
  obtain ⟨l₁, h₁, h⟩ := bind_eq_ok.1 h
  obtain ⟨⟨l₂, appended⟩, h₂, h⟩ := bind_eq_ok.1 h
  refine ⟨l₂, takeEntries_iff.2 ⟨l₁, appended, h₁, h₂⟩, fun hl => ?_⟩
  have hc : Grows 0 l₂ (if appended then l₂.noteClock batch.historyClock else l₂) := by
    cases appended with
    | false => exact .refl hl
    | true => exact grows_noteClock hl _
  exact hc.trans (grows_persistPositionCheck hc.sound h)

def Extends (l l' : FillLedger) : Prop := l.Sound → l'.Sound ∧ ∃ n, Appends n l l'

theorem Extends.refl (l : FillLedger) : Extends l l := fun hl => ⟨hl, 0, .refl⟩

theorem Extends.trans (h : Extends l l') (h' : Extends l' l'') : Extends l l'' := by
  intro hl
  obtain ⟨hl', m, hm⟩ := h hl
  obtain ⟨hl'', n, hn⟩ := h' hl'
  exact ⟨hl'', m + n, hm.trans hn⟩

theorem extends_record (h : l.record j batch nowUs = .ok l') : Extends l l' := by
  obtain ⟨l₁, h₁, hg⟩ := record_eq_ok h
  have ht : Extends l l₁ := by
    refine foldlM_rel .refl (fun _ _ _ => .trans) (fun l e l' _ hstep hl => ?_) h₁
    obtain ⟨hc, -⟩ := changes_takeEntry hl hstep
    exact ⟨hc.sound, _, hc.rows⟩
  exact ht.trans fun hl => ⟨(hg hl).sound, _, (hg hl).rows⟩

end FillLedger

end AqEngine.Broker
