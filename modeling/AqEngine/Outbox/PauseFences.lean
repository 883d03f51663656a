import AqEngine.Lib.Runs
import AqEngine.Outbox.Pauses

namespace AqEngine.LiveSync

open Lib Fallible List Option AList Table

inductive GapAction where
  | block (scope : Scope) (span : BlockedSpan) (capacity : CaptureCapacity) (nowUs : Int)
  | reconcile (scope : Scope) (generation retained : Nat) (nowUs : Int)
  | adopt (owner : CaptureOwner) (latest : Option String)
  | importGap (owner : CaptureOwner) (source : AnalyticsCapturePause) (retained limit : Nat)
  | suspend (scope : Scope) (run : String) (startedAtUs : Int) (retained limit : Nat)

/-- The pauses with every generation that a scope ever had and the scopes
whose pause another runtime took. The last two serve the statements only. -/
structure GapHistory where
  gaps : CaptureGaps := {}
  seen : List (Scope × Nat) := []
  retired : List Scope := []

namespace CaptureGaps

variable (codec : PauseCodec) (s : CaptureGaps)

/-- One transaction; which of several latest pauses is adopted is open. -/
def act : GapAction → Option CaptureGaps
  | .block scope span capacity nowUs => some (s.recordCapturePauseLocked scope span capacity nowUs)
  | .reconcile scope generation retained nowUs =>
    some (s.completeCaptureReconciliation scope generation retained nowUs).1
  | .adopt owner latest =>
    if s.isLatest owner latest then some (s.adoptLatestCapturePause owner latest).1 else none
  | .importGap owner source retained limit =>
    some (s.handoffJournalPause codec owner source retained limit).1
  | .suspend scope run startedAtUs retained limit =>
    some (s.recordSourceSuspensionLocked codec scope run startedAtUs retained limit).1

end CaptureGaps

namespace GapHistory

variable (codec : PauseCodec) (h : GapHistory)

def next (gaps : CaptureGaps) : GapHistory where
  gaps := gaps
  seen := gaps.pauses.entries.map (fun row => (row.1, row.2.generation)) ++ h.seen
  retired := (h.gaps.pauses.keys.filter fun scope => (gaps.pauses.lookup scope).isNone) ++ h.retired

def step (a : GapAction) : Option GapHistory := (h.gaps.act codec a).map h.next

/-- No scope whose pause another runtime took gets one again. -/
def leavesRetired (a : GapAction) : Bool :=
  (h.gaps.act codec a).all fun gaps => h.retired.all fun scope => (gaps.pauses.lookup scope).isNone

end GapHistory

/-- The runtime and the run in which a gap began, as far as they are known. -/
def CapturePause.origin (runtime : String) (row : CapturePause) : Option String × Option String :=
  (if row.originRuntimeUnknown then none else some (row.originRuntimeId.getD runtime),
    row.originRunId)

namespace CaptureGaps

variable {codec : PauseCodec} {s s' : CaptureGaps} {row row' pause : CapturePause} {scope : Scope}

/-- How the pause of a scope goes on: it stays, it ends, or it gets a new
generation. -/
def Up (row row' : CapturePause) : Prop :=
  row' = row ∨ (row'.generation = row.generation ∧ row'.isOpen = false) ∨
    row.generation < row'.generation

def Raises (t t' : Table Scope CapturePause) : Prop :=
  ∀ scope row, t.lookup scope = some row →
    t'.lookup scope = none ∨ ∃ row', t'.lookup scope = some row' ∧ Up row row'

theorem Raises.refl (t : Table Scope CapturePause) : Raises t t :=
  fun _ row hrow => .inr ⟨row, hrow, .inl rfl⟩

theorem raises_insert {t : Table Scope CapturePause}
    (h : ∀ row, t.lookup scope = some row → Up row row') : Raises t (t.insert scope row') := by
  intro other row hrow
  right
  rw [lookup_insert_ite]
  by_cases ho : other = scope
  · subst ho
    rw [if_pos rfl]
    exact ⟨row', rfl, h row hrow⟩
  rw [if_neg ho]
  exact ⟨row, hrow, .inl rfl⟩

theorem raises_erase {t t' : Table Scope CapturePause} (h : Raises t t') (scope : Scope) :
    Raises t (t'.erase scope) := by
  intro other row hrow
  rw [lookup_erase_ite]
  by_cases ho : other = scope
  · rw [if_pos ho]
    exact .inl rfl
  rw [if_neg ho]
  exact h other row hrow

/-- The pause after a blocking is open and of a new generation. -/
structure Blocks (old : Option CapturePause) (row : CapturePause) : Prop where
  isOpen : row.isOpen = true
  generation : ∀ before, old = some before → row.generation = before.generation + 1

theorem blocks_of {f : Option CapturePause → CapturePause} (hn : (f none).isOpen = true)
    (hs : ∀ row, (f (some row)).isOpen = true ∧ (f (some row)).generation = row.generation + 1)
    (old : Option CapturePause) : Blocks old (f old) := by
  cases old with
  | none => exact ⟨hn, fun _ => nofun⟩
  | some row => exact ⟨(hs row).1, fun _ h => by cases h; exact (hs row).2⟩

theorem blocks_blocked (scope : Scope) (span : BlockedSpan) (capacity : CaptureCapacity)
    (nowUs : Int) (old : Option CapturePause) :
    Blocks old (.blocked scope span capacity nowUs old) :=
  blocks_of rfl (fun _ => ⟨rfl, rfl⟩) old

theorem Blocks.raises (h : Blocks (s.pauses.lookup scope) row) :
    Raises s.pauses (s.pauses.insert scope row) :=
  raises_insert fun before hb => .inr (.inr (by rw [h.generation before hb]; omega))

theorem reconciliation_cases (s : CaptureGaps) (scope : Scope) (generation retained : Nat)
    (nowUs : Int) :
    ((s.completeCaptureReconciliation scope generation retained nowUs).1 = s ∧
      (s.completeCaptureReconciliation scope generation retained nowUs).2 ≠ .ok true) ∨
    ∃ row, s.pauses.lookup scope = some row ∧ row.generation = generation ∧ row.isOpen = true ∧
      retained ≤ row.limitBytes / 5 * 4 ∧
      s.completeCaptureReconciliation scope generation retained nowUs =
        ({ s with pauses := s.pauses.insert scope { row with resumedAtUs := some nowUs } },
          .ok true) := by
  unfold completeCaptureReconciliation
  split
  · exact .inl ⟨rfl, nofun⟩
  cases hrow : s.pauses.lookup scope with
  | none => exact .inl ⟨rfl, nofun⟩
  | some row =>
    by_cases hc : row.generation = generation ∧ row.isOpen = true ∧
        retained ≤ row.limitBytes / 5 * 4
    · simp only
      rw [if_pos hc]
      exact .inr ⟨row, rfl, hc.1, hc.2.1, hc.2.2, rfl⟩
    simp only
    rw [if_neg hc]
    exact .inl ⟨rfl, nofun⟩

section

variable {owner : CaptureOwner} {latest : Option String} {runtime : String}

def oldScope (owner : CaptureOwner) (runtime : String) : Scope :=
  ⟨runtime, owner.strategy, owner.session⟩

theorem oldScope_eq_iff : oldScope owner runtime = owner.scope ↔ runtime = owner.runtime := by
  simp [oldScope, CaptureOwner.scope]

theorem latest_open (h : s.isLatest owner (some runtime) = true)
    (hrow : s.pauses.lookup (oldScope owner runtime) = some pause) :
    pause.isOpen = true ∧ ∀ other row, s.pauses.lookup (oldScope owner other) = some row →
      row.isOpen = true → row.lastBlockedAtUs ≤ pause.lastBlockedAtUs := by
  obtain ⟨found, hf, h⟩ := (Option.any_eq_true _ _).1 h
  rw [show s.pauses.lookup ⟨runtime, owner.strategy, owner.session⟩ = some pause from hrow] at hf
  cases hf
  rw [Bool.and_eq_true, List.all_eq_true] at h
  refine ⟨h.1, fun other row hot ho => ?_⟩
  have hm := h.2 ⟨oldScope owner other, row⟩ (mem_lookup_iff.1 hot)
  simpa [oldScope, ho] using hm

/-- An adoption finds nothing or is refused, it finds the owner's own pause,
or the pause of one runtime goes over. -/
theorem adoption_cases (hl : s.isLatest owner latest = true) :
    ((s.adoptLatestCapturePause owner latest).1 = s ∧
      ∀ row, (s.adoptLatestCapturePause owner latest).2 ≠ .ok (some row)) ∨
    (∃ pause, s.pauses.lookup owner.scope = some pause ∧ pause.isOpen = true ∧
      pause.ownerRunId = some owner.run ∧ latest = some owner.runtime ∧
      s.adoptLatestCapturePause owner latest = (s, .ok (some pause))) ∨
    ∃ runtime pause, latest = some runtime ∧
      s.pauses.lookup (oldScope owner runtime) = some pause ∧ pause.isOpen = true ∧
      s.adoptLatestCapturePause owner latest =
        ({ s with pauses :=
            let pauses := s.pauses.insert owner.scope (s.handedOver owner runtime pause)
            if runtime = owner.runtime then pauses else pauses.erase (oldScope owner runtime) },
          .ok (some (s.handedOver owner runtime pause))) := by
  unfold adoptLatestCapturePause
  split
  · exact .inl ⟨rfl, fun _ => nofun⟩
  cases latest with
  | none => exact .inl ⟨rfl, fun _ => nofun⟩
  | some runtime =>
    cases hrow : s.pauses.lookup (oldScope owner runtime) with
    | none =>
      simp only [oldScope] at hrow
      simp only [hrow]
      exact .inl ⟨trivial, fun _ => nofun⟩
    | some pause =>
      have ho := (latest_open hl hrow).1
      by_cases how : runtime = owner.runtime ∧ pause.ownerRunId = some owner.run
      · obtain ⟨rfl, hr⟩ := how
        refine .inr (.inl ⟨pause, hrow, ho, hr, rfl, ?_⟩)
        simp only [oldScope] at hrow
        simp only [hrow, hr, and_self, ↓reduceIte]
      · simp only [oldScope] at hrow
        simp only [hrow]
        rw [if_neg how]
        split
        · exact .inl ⟨rfl, fun _ => nofun⟩
        split
        · exact .inl ⟨rfl, fun _ => nofun⟩
        split
        · exact .inl ⟨rfl, fun _ => nofun⟩
        · exact .inr (.inr ⟨runtime, pause, rfl, hrow, ho, rfl⟩)

theorem joined_self (s : CaptureGaps) (owner : CaptureOwner) (pause : CapturePause) :
    s.joined owner owner.runtime pause = pause := if_pos rfl

theorem joined_some (hne : runtime ≠ owner.runtime) (h : s.pauses.lookup owner.scope = some row) :
    s.joined owner runtime pause = merged pause owner.runtime row := by
  rw [joined, if_neg hne, h]

theorem generation_handedOver (hrow : s.pauses.lookup (oldScope owner runtime) = some pause)
    (howner : s.pauses.lookup owner.scope = some row) :
    row.generation < (s.handedOver owner runtime pause).generation := by
  by_cases hr : runtime = owner.runtime
  · rw [oldScope_eq_iff.2 hr, howner] at hrow
    cases hrow
    rw [handedOver, hr, joined_self]
    exact Nat.lt_succ_self _
  · rw [handedOver, joined_some hr howner]
    exact Nat.lt_succ_of_le (Nat.le_max_right _ _)

/-- The open pauses that an adoption brings together, with their runtimes. -/
def taken (s : CaptureGaps) (owner : CaptureOwner) (runtime : String) (pause : CapturePause) :
    List (String × CapturePause) :=
  (runtime, pause) :: if runtime = owner.runtime then []
    else (((s.pauses.lookup owner.scope).filter (·.isOpen)).map fun row =>
      (owner.runtime, row)).toList

end

section

variable {owner : CaptureOwner} {source : AnalyticsCapturePause} {retained limit : Nat}
  {saved : JournalGapHandoff} {result : CaptureGaps × Option AnalyticsCaptureHandoffReceipt}

theorem importGap_eq_ok (h : s.importGap codec owner source retained limit = .ok result) :
    ∃ receipt pause, Blocks (s.pauses.lookup owner.scope) pause ∧
      result.1.pauses = s.pauses.insert owner.scope pause ∧ result.2 = some receipt ∧
      receipt.malformed codec = false ∧ receipt.pauseId = codec.stableId source ∧
      receipt.journalSourceId = source.journalSourceId ∧
      receipt.sourceGeneration = source.generation ∧ receipt.strategyId = source.strategyId ∧
      receipt.accountId = source.accountId ∧
      result.1.handoffs = s.handoffs.insert source.journalSourceId
        ⟨source.generation, source.executionEpoch, source.strategyId, source.accountId,
          codec.stableId source, receipt⟩ := by
  obtain ⟨-, h⟩ := refuseIf_bind_eq_ok.1 h
  obtain ⟨hr, h⟩ := refuseIf_bind_eq_ok.1 h
  cases h
  exact ⟨_, _, blocks_of (f := .imported owner.run source retained limit) rfl
    (fun _ => ⟨rfl, rfl⟩) _,
    rfl, rfl, by simpa using hr, rfl, rfl, rfl, rfl, rfl, rfl⟩

/-- The gap was handed over before, and its receipt is as it was. -/
structure Answers (codec : PauseCodec) (source : AnalyticsCapturePause)
    (saved : JournalGapHandoff) : Prop where
  lineage : ¬(saved.strategyId ≠ source.strategyId ∨ saved.accountId ≠ source.accountId ∨
    saved.sourceGeneration = 0 ∨ saved.sourceEpoch = 0 ∨
    source.generation < saved.sourceGeneration ∨ source.executionEpoch < saved.sourceEpoch)
  generation : source.generation = saved.sourceGeneration
  pauseId : ¬saved.pauseId ≠ codec.stableId source
  length : ¬2048 < codec.receiptLen saved.receipt
  covers : ¬(!saved.receipt.covers codec source) = true
  valid : source.malformed codec = false

theorem Answers.handoff (h : Answers codec source saved)
    (hs : s.handoffs.lookup source.journalSourceId = some saved) (owner : CaptureOwner)
    (retained limit : Nat) :
    s.handoffJournalPause codec owner source retained limit = (s, .ok (some saved.receipt)) := by
  have hn : s.importNext codec owner source retained limit saved = .ok (s, some saved.receipt) := by
    unfold importNext
    rw [refuseIf_bind_of_not h.lineage, if_pos h.generation, refuseIf_bind_of_not h.pauseId,
      refuseIf_bind_of_not h.length, refuseIf_bind_of_not h.covers]
  unfold handoffJournalPause
  simp only [h.valid, hs, hn, Bool.false_eq_true, ↓reduceIte]

/-- An import is refused, it is answered with the saved receipt, or it blocks
the owner's scope for a gap newer than the one handed over before. -/
theorem import_cases (s : CaptureGaps) (codec : PauseCodec) (owner : CaptureOwner)
    (source : AnalyticsCapturePause) (retained limit : Nat) :
    ((s.handoffJournalPause codec owner source retained limit).1 = s ∧
      ∀ receipt, (s.handoffJournalPause codec owner source retained limit).2 ≠ .ok (some receipt)) ∨
    (∃ saved, s.handoffs.lookup source.journalSourceId = some saved ∧ Answers codec source saved) ∨
    ∃ result, s.importGap codec owner source retained limit = .ok result ∧
      s.handoffJournalPause codec owner source retained limit = (result.1, .ok result.2) ∧
      source.malformed codec = false ∧
      ∀ saved, s.handoffs.lookup source.journalSourceId = some saved →
        saved.sourceGeneration < source.generation := by
  unfold handoffJournalPause
  by_cases hm : source.malformed codec = true
  · rw [if_pos hm]
    exact .inl ⟨rfl, nofun⟩
  rw [if_neg hm]
  have hvalid : source.malformed codec = false := Bool.eq_false_iff.2 hm
  cases hs : s.handoffs.lookup source.journalSourceId with
  | none =>
    by_cases hf : maxJournalGapSources ≤ s.handoffs.entries.length
    · simp only [if_pos hf]
      exact .inl ⟨trivial, nofun⟩
    simp only [if_neg hf]
    cases hi : s.importGap codec owner source retained limit with
    | error error => exact .inl ⟨rfl, nofun⟩
    | ok result => exact .inr (.inr ⟨result, rfl, rfl, hvalid, nofun⟩)
  | some saved =>
    cases hn : s.importNext codec owner source retained limit saved with
    | error error =>
      simp only [hn]
      exact .inl ⟨trivial, nofun⟩
    | ok result =>
      have hr := hn
      obtain ⟨hl, hn⟩ := refuseIf_bind_eq_ok.1 hn
      split at hn
      · next hg =>
        obtain ⟨hid, hn⟩ := refuseIf_bind_eq_ok.1 hn
        obtain ⟨hle, hn⟩ := refuseIf_bind_eq_ok.1 hn
        obtain ⟨hc, -⟩ := refuseIf_bind_eq_ok.1 hn
        exact .inr (.inl ⟨saved, rfl, hl, hg, hid, hle, hc, hvalid⟩)
      · next _ =>
        refine .inr (.inr ⟨result, hn, by simp only [hr], hvalid, fun _ hs' => ?_⟩)
        cases hs'
        omega

theorem import_writes (s : CaptureGaps) (codec : PauseCodec) (owner : CaptureOwner)
    (source : AnalyticsCapturePause) (retained limit : Nat) :
    (s.handoffJournalPause codec owner source retained limit).1 = s ∨
    ∃ result, s.importGap codec owner source retained limit = .ok result ∧
      s.handoffJournalPause codec owner source retained limit = (result.1, .ok result.2) ∧
      ∀ saved, s.handoffs.lookup source.journalSourceId = some saved →
        saved.sourceGeneration < source.generation := by
  rcases import_cases s codec owner source retained limit with
    ⟨hs, -⟩ | ⟨saved, hsa, ha⟩ | ⟨result, hi, heq, -, hn⟩
  · exact .inl hs
  · rw [ha.handoff hsa]
    exact .inl rfl
  · exact .inr ⟨result, hi, heq, hn⟩

end

inductive Changes (s : CaptureGaps) : Table Scope CapturePause → Prop
  | same : Changes s s.pauses
  | blocked {scope : Scope} {row : CapturePause} : Blocks (s.pauses.lookup scope) row →
      Changes s (s.pauses.insert scope row)
  | ended {scope : Scope} {row : CapturePause} {nowUs : Int} : s.pauses.lookup scope = some row →
      row.isOpen = true → Changes s (s.pauses.insert scope { row with resumedAtUs := some nowUs })
  | adopted {owner : CaptureOwner} {runtime : String} {pause : CapturePause} :
      s.pauses.lookup (oldScope owner runtime) = some pause → pause.isOpen = true →
      Changes s
        (let pauses := s.pauses.insert owner.scope (s.handedOver owner runtime pause)
        if runtime = owner.runtime then pauses else pauses.erase (oldScope owner runtime))

variable {owner : CaptureOwner} {source : AnalyticsCapturePause} {retained limit : Nat}

theorem Changes.raises {t' : Table Scope CapturePause} (h : Changes s t') : Raises s.pauses t' := by
  cases h with
  | same => exact .refl _
  | blocked hbl => exact hbl.raises
  | ended hrow =>
    refine raises_insert fun _ hb => .inr (.inl ?_)
    rw [hrow] at hb
    cases hb
    exact ⟨rfl, rfl⟩
  | @adopted owner runtime pause hrow _ =>
    have hi : Raises s.pauses (s.pauses.insert owner.scope (s.handedOver owner runtime pause)) :=
      raises_insert fun _ hb => .inr (.inr (generation_handedOver hrow hb))
    split
    · exact hi
    · exact raises_erase hi _

/-- The handed over gaps of a source go on to later generations only. -/
def Later (t t' : Table String JournalGapHandoff) : Prop :=
  ∀ id saved, t.lookup id = some saved → ∃ saved', t'.lookup id = some saved' ∧
    (saved' = saved ∨ saved.sourceGeneration < saved'.sourceGeneration)

theorem Later.refl (t : Table String JournalGapHandoff) : Later t t :=
  fun _ saved hs => ⟨saved, hs, .inl rfl⟩

theorem Later.trans {t t' t'' : Table String JournalGapHandoff} (h : Later t t')
    (h' : Later t' t'') : Later t t'' := by
  intro id saved hs
  obtain ⟨saved', hs', heq⟩ := h id saved hs
  obtain ⟨saved'', hs'', heq'⟩ := h' id saved' hs'
  refine ⟨saved'', hs'', ?_⟩
  rcases heq with rfl | hlt
  · exact heq'
  rcases heq' with rfl | hlt'
  · exact .inr hlt
  · exact .inr (hlt.trans hlt')

theorem act_changes {a : GapAction} (h : s.act codec a = some s') :
    Changes s s'.pauses ∧ Later s.handoffs s'.handoffs := by
  cases a with
  | block scope span capacity nowUs =>
    cases h
    exact ⟨.blocked (blocks_blocked scope span capacity nowUs _), .refl _⟩
  | reconcile scope generation retained nowUs =>
    cases h
    rcases reconciliation_cases s scope generation retained nowUs with
      ⟨hs, -⟩ | ⟨row, hrow, -, ho, -, heq⟩
    · rw [hs]
      exact ⟨.same, .refl _⟩
    rw [heq]
    exact ⟨.ended hrow ho, .refl _⟩
  | adopt owner =>
    obtain ⟨hl, h⟩ := ite_none_right_eq_some.1 h
    cases h
    rcases adoption_cases hl with
      ⟨hs, -⟩ | ⟨pause, -, -, -, -, heq⟩ | ⟨runtime, pause, -, hrow, ho, heq⟩
    · rw [hs]
      exact ⟨.same, .refl _⟩
    · rw [heq]
      exact ⟨.same, .refl _⟩
    · rw [heq]
      exact ⟨.adopted hrow ho, .refl _⟩
  | importGap owner source retained limit =>
    cases h
    rcases import_writes s codec owner source retained limit with
      hs | ⟨result, hi, heq, hn⟩
    · rw [hs]
      exact ⟨.same, .refl _⟩
    obtain ⟨receipt, pause, hb, hp, -, -, -, -, -, -, -, hh⟩ := importGap_eq_ok hi
    rw [heq, hp, hh]
    refine ⟨.blocked hb, fun id saved hsa => ?_⟩
    rw [lookup_insert_ite]
    by_cases hid : id = source.journalSourceId
    · rw [if_pos hid]
      rw [hid] at hsa
      exact ⟨_, rfl, .inr (hn saved hsa)⟩
    rw [if_neg hid]
    exact ⟨saved, hsa, .inl rfl⟩
  | suspend scope run startedAtUs retained limit =>
    cases h
    unfold recordSourceSuspensionLocked
    simp only
    split
    · exact ⟨.same, .refl _⟩
    split
    · exact ⟨.same, .refl _⟩
    · exact ⟨.blocked (blocks_of (f := .suspended scope run startedAtUs _ retained limit) rfl
        (fun _ => ⟨rfl, rfl⟩) _), .refl _⟩

section

variable {owner : CaptureOwner} {latest : Option String}

end

end CaptureGaps

namespace GapHistory

open CaptureGaps

variable {codec : PauseCodec} {h h' : GapHistory} {a : GapAction}

/-- Every generation a scope ever had is at most the one it has now, unless
another runtime took its pause. -/
structure Fenced (h : GapHistory) : Prop where
  seen : ∀ p ∈ h.seen, p.1 ∈ h.retired ∨
    ∃ row, h.gaps.pauses.lookup p.1 = some row ∧ p.2 ≤ row.generation
  retired : ∀ scope ∈ h.retired, h.gaps.pauses.lookup scope = none

theorem Up.le {row row' : CapturePause} (h : Up row row') : row.generation ≤ row'.generation := by
  rcases h with rfl | ⟨heq, -⟩ | hlt
  · exact le_rfl
  · exact heq.ge
  · exact hlt.le

theorem stays_retired (hl : h.leavesRetired codec a = true) {gaps : CaptureGaps}
    (ha : h.gaps.act codec a = some gaps) :
    ∀ scope ∈ h.retired, gaps.pauses.lookup scope = none := by
  rw [leavesRetired, ha, all_some, List.all_eq_true] at hl
  exact fun scope hs => isNone_iff_eq_none.1 (hl scope hs)

theorem Fenced.step (hf : h.Fenced) (hlea : h.leavesRetired codec a = true)
    (hstep : h.step codec a = some h') : h'.Fenced := by
  obtain ⟨gaps, ha, rfl⟩ := map_eq_some_iff.1 hstep
  have hr := stays_retired hlea ha
  have hl : ∀ scope, h.gaps.pauses.lookup scope ≠ none → gaps.pauses.lookup scope = none →
      scope ∈ (h.next gaps).retired := by
    intro scope hso hn
    refine mem_append_left _ (mem_filter.2 ⟨?_, by rw [hn]; rfl⟩)
    rw [← AList.mem_keys, ← lookup_isSome]
    exact isSome_iff_ne_none.2 hso
  constructor
  · intro p hp
    rcases mem_append.1 hp with hp | hp
    · obtain ⟨row, hrow, rfl⟩ := List.mem_map.1 hp
      exact .inr ⟨row.2, mem_lookup_iff.2 hrow, le_rfl⟩
    rcases hf.seen p hp with hm | ⟨row, hrow, hle⟩
    · exact .inl (mem_append_right _ hm)
    rcases (act_changes ha).1.raises p.1 row hrow with hn | ⟨row', hrow', hup⟩
    · exact .inl (hl p.1 (by rw [hrow]; nofun) hn)
    · exact .inr ⟨row', hrow', hle.trans (Up.le hup)⟩
  · intro scope hs
    rcases mem_append.1 hs with hs | hs
    · exact isNone_iff_eq_none.1 (mem_filter.1 hs).2
    · exact hr scope hs

/-- A pause that is opened, or goes on with another blocking, has a generation
that its scope never had. -/
theorem Fenced.fresh (hf : h.Fenced) (hl : h.leavesRetired codec a = true)
    (hstep : h.step codec a = some h') {scope : Scope} {row' : CapturePause}
    (hrow' : h'.gaps.pauses.lookup scope = some row') (ho : row'.isOpen = true)
    (hch : h.gaps.pauses.lookup scope ≠ some row') {generation : Nat}
    (hs : (scope, generation) ∈ h.seen) : generation < row'.generation := by
  obtain ⟨gaps, ha, rfl⟩ := map_eq_some_iff.1 hstep
  rcases hf.seen _ hs with hm | ⟨row, hrow, hle⟩
  · cases hrow'.symm.trans (stays_retired hl ha scope hm)
  rcases (act_changes ha).1.raises scope row hrow with hn | ⟨row'', hr'', hup⟩
  · cases hrow'.symm.trans hn
  cases hrow'.symm.trans hr''
  rcases hup with rfl | ⟨-, hc⟩ | hlt
  · exact absurd hrow hch
  · rw [ho] at hc
    cases hc
  · exact lt_of_le_of_lt hle hlt

def sampleScope (runtime : String) : Scope := ⟨runtime, "strategy", "session"⟩

end GapHistory

end AqEngine.LiveSync
