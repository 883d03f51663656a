import AqEngine.Journal.FillExport
import AqEngine.Journal.FillRuns

namespace AqEngine.Broker

open Lib Fallible LiveSync List

variable {c : FillCodec SavedFill} {scope : FillScope} {nowUs : Int} {n : Nat}

/-- The records of a page are those of the rows with their sequences, in a
ledger that wrote `log` from its first row on. -/
structure Shows (log : List FillRow) (records : List ExecutionFillRecord)
    (checks : List PositionQuantityRecord) : Prop where
  records : ∀ r ∈ records, ∃ row input invalidation, log[r.sequence.toNat - 1]? = some row ∧
    row.saved.intoParts = .ok (input, invalidation) ∧
    r = FillLedger.fillRecord r.sequence.toNat row input invalidation
  checks : ∀ r ∈ checks, ∃ row o, log[r.sequence.toNat - 1]? = some row ∧
    row.saved = .positionCheck o ∧ r = FillLedger.positionRecord r.sequence.toNat row o

variable {log : List FillRow} {records : List ExecutionFillRecord}
  {checks : List PositionQuantityRecord}

theorem Shows.sub {records' : List ExecutionFillRecord}
    {checks' : List PositionQuantityRecord} (h : Shows log records checks)
    (hr : ∀ r ∈ records', r ∈ records) (hc : ∀ r ∈ checks', r ∈ checks) :
    Shows log records' checks' :=
  ⟨fun r hm => h.records r (hr r hm), fun r hm => h.checks r (hc r hm)⟩

theorem Shows.append (h : Shows log records checks) (more : List FillRow) :
    Shows (log ++ more) records checks := by
  have hl : ∀ {i : Nat} {row : FillRow}, log[i]? = some row → (log ++ more)[i]? = some row :=
    fun hi => by
      rw [getElem?_append_left (List.getElem?_eq_some_iff.1 hi).1]
      exact hi
  constructor
  · intro r hm
    obtain ⟨row, input, invalidation, hrow, hp, hr⟩ := h.records r hm
    exact ⟨row, input, invalidation, hl hrow, hp, hr⟩
  · intro r hm
    obtain ⟨row, o, hrow, hs, hr⟩ := h.checks r hm
    exact ⟨row, o, hl hrow, hs, hr⟩

namespace FillLedger

variable {l : FillLedger} {log : List FillRow} {d d' : PageDraft} {row : FillRow}
  {records : List ExecutionFillRecord} {checks : List PositionQuantityRecord}

theorem toNat_ofNat_of_le (h : n ≤ i64Max.toNat) : (UInt64.ofNat n).toNat = n := by
  exact Nat.mod_eq_of_lt (lt_of_le_of_lt h (by decide))

theorem shows_snoc_check {o : PositionQuantityObservation}
    (h : Shows log records checks) (hn : n ≤ i64Max.toNat) (hrow : log[n - 1]? = some row)
    (hs : row.saved = .positionCheck o) :
    Shows log records (checks ++ [positionRecord n row o]) := by
  have hse : (positionRecord n row o).sequence.toNat = n := toNat_ofNat_of_le hn
  refine ⟨h.records, fun r hr => ?_⟩
  obtain hr | hr := mem_append.1 hr
  · exact h.checks r hr
  rw [mem_singleton.1 hr, hse]
  exact ⟨row, o, hrow, hs, rfl⟩

theorem shows_snoc_record {input : ExecutionFillInput}
    {invalidation : Option ExecutionFillInvalidation} (h : Shows log records checks)
    (hn : n ≤ i64Max.toNat) (hrow : log[n - 1]? = some row)
    (hp : row.saved.intoParts = .ok (input, invalidation)) :
    Shows log (records ++ [fillRecord n row input invalidation]) checks := by
  have hs : (fillRecord n row input invalidation).sequence.toNat = n := toNat_ofNat_of_le hn
  refine ⟨fun r hr => ?_, h.checks⟩
  obtain hr | hr := mem_append.1 hr
  · exact h.records r hr
  rw [mem_singleton.1 hr, hs]
  exact ⟨row, input, invalidation, hrow, hp, rfl⟩

theorem shows_draftRow (h : Shows log d.records d.positionChecks) (hn : n ≤ i64Max.toNat)
    (hrow : log[n - 1]? = some row) (hok : draftRow c d n row = .ok d') :
    Shows log d'.records d'.positionChecks := by
  unfold draftRow at hok
  cases hs : row.saved with
  | positionCheck o =>
    rw [hs] at hok
    obtain ⟨-, -, hok⟩ := bind_eq_ok.1 hok
    cases hok
    exact shows_snoc_check h hn hrow hs
  | invalidated input v | observation input =>
    rw [hs] at hok
    obtain ⟨⟨input', invalidation⟩, hp, hok⟩ := bind_eq_ok.1 hok
    obtain ⟨-, -, hok⟩ := bind_eq_ok.1 hok
    cases hok
    exact shows_snoc_record h hn hrow (hs ▸ hp)

theorem shows_draftRows {limit : Nat} {rows : List (Nat × FillRow)}
    (h : Shows log d.records d.positionChecks)
    (hr : ∀ e ∈ rows, e.1 ≤ i64Max.toNat ∧ log[e.1 - 1]? = some e.2)
    (hok : draftRows c limit d rows = .ok d') : Shows log d'.records d'.positionChecks := by
  induction rows generalizing d with
  | nil =>
    cases hok
    exact h
  | cons e rows ih =>
    obtain ⟨n, row⟩ := e
    obtain ⟨-, hok⟩ := refuseIf_bind_eq_ok.1 hok
    split at hok
    · cases hok
      exact h
    obtain ⟨d₁, hd₁, hok⟩ := bind_eq_ok.1 hok
    obtain ⟨hn, hrow⟩ := hr (n, row) mem_cons_self
    exact ih (shows_draftRow h hn hrow hd₁) (fun e he => hr e (mem_cons_of_mem _ he)) hok

theorem mem_rowsBetween {after through : Nat} {e : Nat × FillRow}
    (h : e ∈ l.rowsBetween after through) : l.fills.lookup e.1 = some e.2 := by
  obtain ⟨m, -, hm⟩ := mem_filterMap.1 h
  obtain ⟨row, hrow, rfl⟩ := Option.map_eq_some_iff.1 hm
  exact hrow

/-- A page of the rows after `cursor` in a ledger that ends with `last`. -/
structure Offers (scope : FillScope) (log : List FillRow) (cursor last : Nat)
    (page : ExecutionFillPage) : Prop where
  shows : Shows log page.records page.positionChecks
  source : page.sourceId = scope.evidenceSourceId
  strategy : page.strategyId = scope.strategyId
  account : page.accountId = scope.accountId
  after : page.afterSequence.toNat = cursor
  through : page.throughSequence.toNat = last

variable {cursor last : Nat} {page : ExecutionFillPage} {t : ExecutionFillTransfer}

theorem Offers.halve (h : Offers scope log cursor last page) :
    Offers scope log cursor last (FillLedger.halve page) := by
  refine { h with shows := ?_ }
  exact h.shows.sub (fun r hr => mem_of_mem_filter hr) (fun r hr => mem_of_mem_filter hr)

theorem offers_executionFillPage (hl : l.Sound) {limit : Nat}
    (hlo : ∀ n row, l.fills.lookup n = some row → log[n - 1]? = some row)
    (hc : cursor ≤ l.lastSequence)
    (hok : l.executionFillPage c scope nowUs cursor none limit = .ok page) :
    Offers scope log cursor l.lastSequence page ∧ l.lastSequence ≤ i64Max.toNat := by
  obtain ⟨hh, hok⟩ := refuseIf_bind_eq_ok.1 hok
  obtain ⟨-, hok⟩ := refuseIf_bind_eq_ok.1 hok
  obtain ⟨d, hd, hok⟩ := bind_eq_ok.1 hok
  cases hok
  rw [hl.maxSequence_eq, not_lt] at hh
  refine ⟨⟨?_, rfl, rfl, rfl, toNat_ofNat_of_le (hc.trans hh), ?_⟩, hh⟩
  · refine shows_draftRows ⟨by simp, by simp⟩ (fun e he => ?_) hd
    have hrow := mem_rowsBetween (mem_of_mem_take he)
    exact ⟨(hl.bound _ _ hrow).trans hh, hlo _ _ hrow⟩
  · rw [hl.maxSequence_eq]
    exact toNat_ofNat_of_le hh

/-- A frozen transfer is a valid page, unchanged, in an envelope of its own. -/
structure Frozen (c : FillCodec SavedFill) (page : ExecutionFillPage)
    (t : ExecutionFillTransfer) : Prop where
  valid : validateExecutionFillPage page = .ok ()
  text : c.toJson page = .ok t.body
  size : t.body.utf8ByteSize ≤ executionFillTransferBytes
  envelope : t = .ofBody page (c.checksum t.body) t.body

theorem frozen_of_fromPage (hok : ExecutionFillTransfer.fromPage c page = .ok t) :
    Frozen c page t := by
  obtain ⟨_, hvalid, hok⟩ := bind_eq_ok.1 hok
  obtain ⟨body, ht, hok⟩ := bind_eq_ok.1 hok
  obtain ⟨hs, hok⟩ := refuseIf_bind_eq_ok.1 hok
  cases hok
  exact ⟨hvalid, ht, not_lt.1 hs, rfl⟩

theorem frozen_of_fit {fuel : Nat} (h : Offers scope log cursor last page)
    (hok : fit c fuel page = .ok t) :
    ∃ page', Offers scope log cursor last page' ∧ Frozen c page' t := by
  induction fuel generalizing page with
  | zero => cases hok
  | succ fuel ih =>
    obtain ⟨text, -, hok⟩ := bind_eq_ok.1 hok
    split at hok
    · exact ⟨page, h, frozen_of_fromPage (orJournal_eq_ok.1 hok)⟩
    split at hok
    · cases hok
    · exact ih h.halve hok

theorem scope_of_valid (h : validateExecutionFillPage page = .ok ()) :
    page.version ∈ [executionFillVersion, executionFillPageVersion,
      executionPositionCheckPageVersion] ∧
    page.nextSequence.toNat ≤ page.throughSequence.toNat ∧
    page.nextSequence.toNat ≤ i64Max.toNat := by
  obtain ⟨hs, -⟩ := refuseIf_bind_eq_ok.1 h
  have hw : page.wellScoped = true := by simpa using hs
  simp only [ExecutionFillPage.wellScoped, Bool.and_eq_true, decide_eq_true_eq] at hw
  obtain ⟨⟨⟨⟨hf, -⟩, hn⟩, ht⟩, -⟩ := hw
  refine ⟨?_, UInt64.le_iff_toNat_le.1 hn, UInt64.le_iff_toNat_le.1 (UInt64.le_trans hn ht)⟩
  have hk : page.versionKnown = true := by
    obtain ⟨⟨⟨⟨⟨⟨⟨⟨⟨hk, -⟩, -⟩, -⟩, -⟩, -⟩, -⟩, -⟩, -⟩, -⟩ := hf
    exact hk
  exact contains_iff_mem.1 hk

theorem Frozen.page_eq (h : Frozen c page t) : t.page c = .ok page := by
  have hv := (scope_of_valid h.valid).1
  have hr := c.fromJson_toJson page t.body h.text h.valid
  have hne := c.toJson_ne page t.body h.text
  have hen := h.envelope
  unfold ExecutionFillTransfer.page
  generalize t.body = body at *
  subst hen
  have hs : body.utf8ByteSize ≤ executionFillTransferBytes := h.size
  rw [refuseIf_bind_of_not, hr, bind_ok, h.valid, bind_ok,
    refuseIf_bind_of_not (by simp [ExecutionFillTransfer.ofBody]),
    refuseIf_bind_of_not (by simp [ExecutionFillTransfer.ofBody])]
  · rintro (he | hl | hu | hsu)
    · exact hne he
    · exact absurd hs (not_le.2 hl)
    · exact hu hv
    · exact hsu rfl

end FillLedger

namespace FillExport

/-- What is done to the export. A crash loses nothing but the answer, so a
restart is no action of its own. -/
inductive Action where
  | record (j : BrokerCommandJournal) (batch : ExecutionFillBatch) (nowUs : Int)
      (commit : FillCommit)
  | resumeCapture
  | prepare (nowUs : Int) (commit : Commit)
  | acknowledge (receipt : ExecutionFillExportReceipt) (commit retirement : Commit)

/-- The export with every row that was ever recorded and the pages that were
acknowledged, in order. -/
structure Run where
  state : FillExport := {}
  log : List FillRow := []
  acked : List ExecutionFillPage := []

def newRows (l l' : FillLedger) : List FillRow :=
  (Lib.segment l.lastSequence l'.lastSequence).filterMap l'.fills.lookup

def pendingPage (c : FillCodec SavedFill) (s : FillExport) : List ExecutionFillPage :=
  match s.row.pendingJson with
  | none => []
  | some body => (c.fromJson body).toOption.toList

def Run.step (c : FillCodec SavedFill) (scope : FillScope) (r : Run) : Action → Run
  | .record j batch nowUs commit =>
    let store := (r.state.store.recordExecutionFills j batch nowUs commit).1
    { r with
      state := { r.state with store := store }
      log := r.log ++ newRows r.state.store.ledger store.ledger }
  | .resumeCapture =>
    { r with
      state := { r.state with
        store := { r.state.store with
          capture := { r.state.store.capture with paused := false } } } }
  | .prepare nowUs commit =>
    { r with state := (r.state.prepareExecutionFillExport c scope nowUs commit).1 }
  | .acknowledge receipt commit retirement =>
    let state := (r.state.acknowledgeExecutionFillExport scope receipt commit retirement).1
    { r with
      state
      acked := if state.row.cursor = r.state.row.cursor then r.acked
        else r.acked ++ pendingPage c r.state }

def run (c : FillCodec SavedFill) (scope : FillScope) (r : Run) (as : List Action) : Run :=
  as.foldl (Run.step c scope) r

variable {s : FillExport} {r : Run} {log : List FillRow}

/-- The transfer that waits for its receipt: a valid page of the rows after
the cursor. -/
structure Waiting (c : FillCodec SavedFill) (scope : FillScope) (log : List FillRow)
    (s : FillExport) (page : ExecutionFillPage) (t : ExecutionFillTransfer) : Prop where
  frozen : FillLedger.Frozen c page t
  shows : Shows log page.records page.positionChecks
  source : t.sourceId = scope.evidenceSourceId
  strategy : t.strategyId = scope.strategyId
  account : t.accountId = scope.accountId
  after : page.afterSequence.toNat = s.row.cursor
  next : page.nextSequence.toNat ≤ s.store.ledger.lastSequence
  row : s.row.pendingTransferId = some t.transferId ∧
    s.row.pendingNext = some t.nextSequence.toNat ∧ s.row.pendingJson = some t.body

/-- The rows past the cursor are all there, and every row is the one that was
recorded. -/
structure Stored (log : List FillRow) (s : FillExport) : Prop where
  sound : s.store.ledger.Sound
  length : log.length = s.store.ledger.lastSequence
  rows : ∀ n row, s.store.ledger.fills.lookup n = some row → 0 < n ∧ log[n - 1]? = some row
  present : ∀ n, s.row.cursor < n → n ≤ s.store.ledger.lastSequence →
    (s.store.ledger.fills.lookup n).isSome
  cursor : s.row.cursor ≤ s.store.ledger.lastSequence

structure Intact (c : FillCodec SavedFill) (scope : FillScope) (r : Run) : Prop where
  stored : Stored r.log r.state
  covered : r.acked.flatMap ExecutionFillPage.stream = Lib.segment 0 r.state.row.cursor
  acked : ∀ page ∈ r.acked, validateExecutionFillPage page = .ok () ∧
    Shows r.log page.records page.positionChecks
  pending : (r.state.row.pendingTransferId = none ∧ r.state.row.pendingNext = none ∧
    r.state.row.pendingJson = none) ∨ ∃ page t, Waiting c scope r.log r.state page t

variable {page : ExecutionFillPage} {t : ExecutionFillTransfer}

theorem Intact.empty : Intact c scope {} where
  stored :=
    { sound := .empty
      length := rfl
      rows := fun _ _ h => nomatch h
      present := fun n h h' => absurd (Nat.lt_of_lt_of_le h h') (Nat.lt_irrefl 0)
      cursor := Nat.le_refl 0 }
  covered := rfl
  acked := by simp
  pending := .inl ⟨rfl, rfl, rfl⟩

theorem Waiting.resume_eq (h : Waiting c scope log s page t) : s.resume c scope t.body = .ok t := by
  have hr := c.fromJson_toJson page t.body h.frozen.text h.frozen.valid
  have ha : t.afterSequence = page.afterSequence := by rw [h.frozen.envelope]; rfl
  have he : ExecutionFillTransfer.ofBody page t.transferId t.body = t := by
    rw [h.frozen.envelope]
    rfl
  unfold resume
  rw [refuseIf_bind_of_not (not_lt.2 h.frozen.size), hr, orJournal_eq_ok.2 rfl, bind_ok, h.row.1]
  dsimp only
  rw [he, h.frozen.page_eq, orJournal_eq_ok.2 rfl, bind_ok, refuseIf_bind_of_not]
  simp only [h.source, h.strategy, h.account, h.row.2.1, ha, h.after, ne_eq, not_true,
    or_self, not_false_iff]

theorem Waiting.append {store : FillStore} (h : Waiting c scope log s page t)
    (hl : s.store.ledger.lastSequence ≤ store.ledger.lastSequence) (more : List FillRow) :
    Waiting c scope (log ++ more) { s with store := store } page t :=
  { h with
    shows := h.shows.append more
    next := h.next.trans hl }

theorem getElem?_newRows {l l' : FillLedger} {k : Nat} (h : FillLedger.Appends k l l')
    (hlo : log.length = l.lastSequence) :
    (newRows l l').length = l'.lastSequence - l.lastSequence ∧
    ∀ n row, l.lastSequence < n → n ≤ l'.lastSequence → l'.fills.lookup n = some row →
      (log ++ newRows l l')[n - 1]? = some row := by
  obtain ⟨hl, hg⟩ := getElem?_filterMap_range' (f := l'.fills.lookup) (l.lastSequence + 1)
    (m := l'.lastSequence - l.lastSequence) fun i _ => h.added _ (by omega) (by omega)
  refine ⟨hl, fun n row hlt _ hrow => ?_⟩
  obtain ⟨i, rfl⟩ := Nat.exists_eq_add_of_lt hlt
  rw [getElem?_append_right (by omega), hlo,
    show l.lastSequence + i + 1 - 1 - l.lastSequence = i by omega, ← hrow]
  rw [newRows, Lib.segment, hg i (by omega), Nat.add_right_comm]

theorem Stored.extend {store : FillStore} {k : Nat} (h : Stored log s)
    (hs : store.ledger.Sound) (ha : FillLedger.Appends k s.store.ledger store.ledger) :
    Stored (log ++ newRows s.store.ledger store.ledger) { s with store := store } := by
  obtain ⟨hlen, hne⟩ := getElem?_newRows ha h.length
  refine ⟨hs, ?_, fun n row hrow => ?_, fun n hlt hle => ?_, h.cursor.trans ha.le⟩
  · rw [length_append, h.length, hlen]
    exact Nat.add_sub_of_le ha.le
  · by_cases hn : n ≤ s.store.ledger.lastSequence
    · rw [ha.kept n hn] at hrow
      obtain ⟨hpos, hl⟩ := h.rows n row hrow
      rw [getElem?_append_left (List.getElem?_eq_some_iff.1 hl).1]
      exact ⟨hpos, hl⟩
    · exact ⟨by omega, hne n row (not_le.1 hn) (hs.bound n row hrow) hrow⟩
  · by_cases hn : n ≤ s.store.ledger.lastSequence
    · rw [ha.kept n hn]
      exact h.present n hlt hn
    · exact ha.added n (not_le.1 hn) hle

/-- A retired row was handed off, and neither a head, a comparison nor the
next sequence depends on it. -/
theorem lookup_retired (s : FillExport) (n : Nat) :
    s.retired.store.ledger.fills.lookup n = s.store.ledger.fills.lookup n ∨
    (s.retired.store.ledger.fills.lookup n = none ∧ n ≤ s.row.cursor ∧
      n < s.store.ledger.maxSequence ∧
      (∀ k h, s.store.ledger.heads.lookup k = some h → h.sequence ≠ n) ∧
      ∀ k row, s.store.ledger.positionChecks.lookup k = some row → row.ledgerSequence ≠ n) := by
  obtain hs | ⟨hn, hc, hrest⟩ := FillHistory.lookup_retire s.store s.retirementCandidates n
  · exact .inl hs
  have hm := mem_filter.1 (mem_of_mem_take hc)
  exact .inr ⟨hn, (mem_segment.1 hm.1).2, hrest⟩

theorem Stored.retired (h : Stored log s) : Stored log s.retired := by
  obtain ⟨hso, -⟩ := FillHistory.retire_register h.sound s.retirementCandidates
  refine ⟨hso, h.length, fun n row hrow => ?_, fun n hlt hle => ?_, h.cursor⟩
  · obtain hs | ⟨hn, -⟩ := lookup_retired s n
    · exact h.rows n row (hs ▸ hrow)
    · rw [hn] at hrow
      cases hrow
  · obtain hs | ⟨-, hc, -⟩ := lookup_retired s n
    · rw [hs]
      exact h.present n hlt hle
    · exact absurd hlt (not_lt.2 hc)

theorem Intact.retired (h : Intact c scope r) :
    Intact c scope { r with state := r.state.retired } where
  stored := h.stored.retired
  covered := h.covered
  acked := h.acked
  pending := by
    obtain hi | ⟨page, t, hw⟩ := h.pending
    · exact .inl hi
    · exact .inr ⟨page, t, { hw with next := hw.next }⟩

theorem retire_cases (s : FillExport) (scope : FillScope) (commit : Commit) :
    (s.retireHandedOffCloudHistory scope commit).1 = s ∨
      (s.retireHandedOffCloudHistory scope commit).1 = s.retired := by
  unfold retireHandedOffCloudHistory
  split
  · cases commit with
    | reported | unreported => exact .inr rfl
    | lost => exact .inl rfl
  · exact .inl rfl

theorem Intact.freeze (h : Intact c scope r)
    (hok : r.state.nextTransfer c scope nowUs = .ok (some t)) :
    Intact c scope { r with state := r.state.freeze t } ∧
      ∃ page, Waiting c scope r.log (r.state.freeze t) page t := by
  obtain ⟨first, hfi, hok⟩ := bind_eq_ok.1 hok
  obtain ⟨ho, -⟩ := FillLedger.offers_executionFillPage h.stored.sound
    (fun n row hrow => (h.stored.rows n row hrow).2) h.stored.cursor hfi
  split at hok
  · cases hok
  obtain ⟨t', ht', hok⟩ := bind_eq_ok.1 hok
  cases hok
  obtain ⟨page, hp, hf⟩ := FillLedger.frozen_of_fit ho ht'
  have ht := (FillLedger.scope_of_valid hf.valid).2.1
  have hw : Waiting c scope r.log (r.state.freeze t) page t :=
    { frozen := hf
      shows := hp.shows
      source := by
        rw [hf.envelope]
        exact hp.source
      strategy := by
        rw [hf.envelope]
        exact hp.strategy
      account := by
        rw [hf.envelope]
        exact hp.account
      after := hp.after
      next := hp.through ▸ ht
      row := ⟨rfl, rfl, rfl⟩ }
  refine ⟨⟨?_, h.covered, h.acked, .inr ⟨page, t, hw⟩⟩, page, hw⟩
  exact ⟨h.stored.sound, h.stored.length, h.stored.rows, h.stored.present, h.stored.cursor⟩

theorem Intact.acknowledge (h : Intact c scope r) (hw : Waiting c scope r.log r.state page t) :
    Intact c scope ⟨r.state.acknowledged t.nextSequence.toNat, r.log, r.acked ++ [page]⟩ := by
  have he := exact_of_validate hw.frozen.valid
  have hne : t.nextSequence = page.nextSequence := by
    rw [hw.frozen.envelope]
    rfl
  have hlt : r.state.row.cursor < t.nextSequence.toNat := by
    rw [hne, ← hw.after]
    exact he.increasing
  refine ⟨⟨h.stored.sound, h.stored.length, h.stored.rows, fun n hn hle => ?_, ?_⟩, ?_, ?_,
    .inl ⟨rfl, rfl, rfl⟩⟩
  · exact h.stored.present n (hlt.trans hn) hle
  · rw [hne]
    exact hw.next
  · rw [flatMap_append, flatMap_singleton, h.covered, he.exact, hw.after, hne]
    exact segment_append (Nat.zero_le _) (hne ▸ hlt.le)
  · intro p hp
    obtain hp | hp := mem_append.1 hp
    · exact h.acked p hp
    rw [mem_singleton.1 hp]
    exact ⟨hw.frozen.valid, hw.shows⟩

def Matches (s : FillExport) (receipt : ExecutionFillExportReceipt) : Prop :=
  s.row.cursor = receipt.afterSequence.toNat ∧ s.row.pendingTransferId = some receipt.transferId ∧
    s.row.pendingNext = some receipt.nextSequence.toNat

def Repeats (s : FillExport) (receipt : ExecutionFillExportReceipt) : Prop :=
  s.row.cursor = receipt.nextSequence.toNat ∧ s.row.lastTransferId = some receipt.transferId

variable {receipt : ExecutionFillExportReceipt} {commit retirement : Commit}
  {t : ExecutionFillTransfer}

theorem acknowledge_cases (s : FillExport) (scope : FillScope)
    (receipt : ExecutionFillExportReceipt) (commit retirement : Commit) :
    let result := s.acknowledgeExecutionFillExport scope receipt commit retirement
    let next := s.acknowledged receipt.nextSequence.toNat
    (result.1 = s ∧ ((∃ e, result.2 = .error e) ∨ s.Repeats receipt)) ∨
      (result.1 = s.retired ∧ s.Repeats receipt) ∨
      (s.Matches receipt ∧ (result.1 = s ∨ result.1 = next ∨ result.1 = next.retired)) := by
  intro result next
  unfold result acknowledgeExecutionFillExport
  split
  · exact .inl ⟨rfl, .inl ⟨_, rfl⟩⟩
  split
  next hr =>
    obtain hs | hre := retire_cases s scope retirement
    · exact .inl ⟨hs, .inr hr⟩
    · exact .inr (.inl ⟨hre, hr⟩)
  split
  · exact .inl ⟨rfl, .inl ⟨_, rfl⟩⟩
  next hm =>
    simp only [ne_eq, not_or, not_not] at hm
    refine .inr (.inr ⟨hm, ?_⟩)
    cases commit with
    | reported => exact .inr (retire_cases next scope retirement)
    | lost => exact .inl rfl
    | unreported => exact .inr (.inl rfl)

theorem Intact.waiting_of_matches (h : Intact c scope r) (hm : r.state.Matches receipt) :
    ∃ page t, Waiting c scope r.log r.state page t ∧
      receipt.nextSequence.toNat = t.nextSequence.toNat ∧
      r.state.row.cursor < receipt.nextSequence.toNat ∧ pendingPage c r.state = [page] := by
  obtain ⟨hno, -, -⟩ | ⟨page, t, hw⟩ := h.pending
  · rw [hm.2.1] at hno
    cases hno
  have hn : receipt.nextSequence.toNat = t.nextSequence.toNat :=
    Option.some.inj (hm.2.2.symm.trans hw.row.2.1)
  refine ⟨page, t, hw, hn, ?_, ?_⟩
  · rw [hn, hw.frozen.envelope, ← hw.after]
    exact (exact_of_validate hw.frozen.valid).increasing
  · rw [pendingPage, hw.row.2.2]
    simp [c.fromJson_toJson page t.body hw.frozen.text hw.frozen.valid, Except.toOption]

theorem step_record (h : Intact c scope r) (j : BrokerCommandJournal)
    (batch : ExecutionFillBatch) (nowUs : Int) (commit : FillCommit) :
    ∃ store k, store.ledger.Sound ∧ FillLedger.Appends k r.state.store.ledger store.ledger ∧
      r.step c scope (.record j batch nowUs commit) =
        { r with
          state := { r.state with store := store }
          log := r.log ++ newRows r.state.store.ledger store.ledger } := by
  cases ha : r.state.store.recordExecutionFills j batch nowUs commit with
  | mk store =>
    have he : FillLedger.Extends r.state.store.ledger store.ledger := by
      obtain ⟨_, -, hs⟩ | ⟨-, hok⟩ := FillHistory.recordExecutionFills_cases ha
      · rw [hs]
        exact .refl _
      · exact FillLedger.extends_record hok
    obtain ⟨hso, k, hap⟩ := he h.stored.sound
    exact ⟨store, k, hso, hap, by simp only [Run.step, ha]⟩

section

variable (h : Intact c scope r)
include h

/-- A receipt changes nothing, retires rows, or acknowledges the transfer that
waits for it. -/
theorem step_acknowledge (receipt : ExecutionFillExportReceipt) (commit retirement : Commit) :
    let r' := r.step c scope (.acknowledge receipt commit retirement)
    r' = r ∨ r' = { r with state := r.state.retired } ∨
    ∃ page t, Waiting c scope r.log r.state page t ∧
      (r' = ⟨r.state.acknowledged t.nextSequence.toNat, r.log, r.acked ++ [page]⟩ ∨
        r' = ⟨(r.state.acknowledged t.nextSequence.toNat).retired, r.log, r.acked ++ [page]⟩) := by
  intro r'
  unfold r'
  simp only [Run.step]
  obtain ⟨hs, -⟩ | ⟨hr, -⟩ | ⟨hm, hd⟩ := acknowledge_cases r.state scope receipt commit retirement
  · rw [hs, if_pos rfl]
    exact .inl rfl
  · rw [hr, if_pos (show r.state.retired.row.cursor = r.state.row.cursor from rfl)]
    exact .inr (.inl rfl)
  · obtain ⟨page, t, hw, hn, hlt, hp⟩ := h.waiting_of_matches hm
    obtain hs | hd | hd := hd
    · rw [hs, if_pos rfl]
      exact .inl rfl
    · have hne : ¬ (r.state.acknowledged receipt.nextSequence.toNat).row.cursor =
          r.state.row.cursor := ne_of_gt hlt
      rw [hd, if_neg hne, hp, hn]
      exact .inr (.inr ⟨page, t, hw, .inl rfl⟩)
    · have hne : ¬ (r.state.acknowledged receipt.nextSequence.toNat).retired.row.cursor =
          r.state.row.cursor := ne_of_gt hlt
      rw [hd, if_neg hne, hp, hn]
      exact .inr (.inr ⟨page, t, hw, .inr rfl⟩)

theorem Intact.step (a : Action) : Intact c scope (r.step c scope a) := by
  cases a with
  | record j batch nowUs commit =>
    obtain ⟨store, k, hso, ha, hstep⟩ := step_record h j batch nowUs commit
    rw [hstep]
    refine ⟨h.stored.extend hso ha, h.covered, fun page hp => ?_, ?_⟩
    · obtain ⟨hvalid, hsh⟩ := h.acked page hp
      exact ⟨hvalid, hsh.append _⟩
    · obtain hi | ⟨page, t, hw⟩ := h.pending
      · exact .inl hi
      · exact .inr ⟨page, t, hw.append ha.le _⟩
  | resumeCapture =>
    obtain ⟨hs, hc, hac, hpending⟩ := h
    refine ⟨{ hs with }, hc, hac, ?_⟩
    obtain hi | ⟨page, t, hw⟩ := hpending
    · exact .inl hi
    · exact .inr ⟨page, t, { hw with next := hw.next }⟩
  | prepare nowUs commit =>
    simp only [Run.step, prepareExecutionFillExport]
    split
    · exact h
    split
    · exact h
    · exact h
    next t ht =>
      cases commit with
      | reported | unreported => exact (h.freeze ht).1
      | lost => exact h
  | acknowledge receipt commit retirement =>
    obtain hstep | hstep | ⟨page, t, hw, hstep | hstep⟩ :=
      step_acknowledge h receipt commit retirement
    · rw [hstep]
      exact h
    · rw [hstep]
      exact h.retired
    · rw [hstep]
      exact h.acknowledge hw
    · rw [hstep]
      exact (h.acknowledge hw).retired

theorem intact_run (as : List Action) : Intact c scope (run c scope r as) := by
  induction as generalizing r with
  | nil => exact h
  | cons a as ih => exact ih (h.step a)

theorem acked_step_le (a : Action) :
    r.acked.length ≤ (r.step c scope a).acked.length := by
  cases a with
  | record | resumeCapture | prepare => exact Nat.le_refl _
  | acknowledge receipt commit retirement =>
    obtain hstep | hstep | ⟨page, t, hw, hstep | hstep⟩ :=
      step_acknowledge h receipt commit retirement <;> simp [hstep]

theorem acked_le (as : List Action) :
    r.acked.length ≤ (run c scope r as).acked.length := by
  induction as generalizing r with
  | nil => exact Nat.le_refl _
  | cons a as ih => exact (acked_step_le h a).trans (ih (h.step a))

theorem Waiting.step (hw : Waiting c scope r.log r.state page t) (a : Action)
    (ha : (r.step c scope a).acked.length = r.acked.length) :
    Waiting c scope (r.step c scope a).log (r.step c scope a).state page t := by
  cases a with
  | record j batch nowUs commit =>
    obtain ⟨store, k, -, hap, hstep⟩ := step_record h j batch nowUs commit
    rw [hstep]
    exact hw.append hap.le _
  | resumeCapture => exact { hw with next := hw.next }
  | prepare nowUs commit =>
    simp only [Run.step, prepareExecutionFillExport, hw.row.2.2]
    exact hw
  | acknowledge receipt commit retirement =>
    obtain hstep | hstep | ⟨page', t', -, hstep | hstep⟩ :=
      step_acknowledge h receipt commit retirement
    · rw [hstep]
      exact hw
    · rw [hstep]
      exact { hw with next := hw.next }
    · rw [hstep] at ha
      simp at ha
    · rw [hstep] at ha
      simp at ha

theorem Waiting.run
    (hw : Waiting c scope r.log r.state page t) (as : List Action)
    (ha : (FillExport.run c scope r as).acked.length = r.acked.length) :
    Waiting c scope (FillExport.run c scope r as).log
      (FillExport.run c scope r as).state page t := by
  induction as generalizing r with
  | nil => exact hw
  | cons a as ih =>
    have hrest := acked_le (h.step a) as
    have ho := acked_step_le h a
    change (FillExport.run c scope (r.step c scope a) as).acked.length = _ at ha
    have hs : (r.step c scope a).acked.length = r.acked.length := by omega
    exact ih (h.step a) (hw.step h a hs) (ha.trans hs.symm)

theorem prepare_waiting
    (hok : (r.state.prepareExecutionFillExport c scope nowUs commit).2 = .ok (some t)) :
    ∃ page, Waiting c scope r.log (r.step c scope (.prepare nowUs commit)).state page t := by
  obtain ⟨-, -, hno⟩ | ⟨page, t', hw⟩ := h.pending
  · simp only [prepareExecutionFillExport, hno] at hok
    simp only [Run.step, prepareExecutionFillExport, hno]
    cases hn : r.state.nextTransfer c scope nowUs with
    | error e =>
      rw [hn] at hok
      cases hok
    | ok next =>
      cases next with
      | none =>
        rw [hn] at hok
        cases hok
      | some t' =>
        rw [hn] at hok
        cases commit with
        | reported =>
          cases hok
          exact (h.freeze hn).2
        | lost | unreported => cases hok
  · simp only [prepareExecutionFillExport, hw.row.2.2, hw.resume_eq] at hok
    simp only [Run.step, prepareExecutionFillExport, hw.row.2.2]
    cases hok
    exact ⟨page, hw⟩

theorem Intact.count (n : Nat) :
    (r.acked.flatMap fun page => page.sequences.map UInt64.toNat).count n =
      if 0 < n ∧ n ≤ r.state.row.cursor then 1 else 0 := by
  have hp : (r.acked.flatMap fun page => page.sequences.map UInt64.toNat).Perm
      (r.acked.flatMap ExecutionFillPage.stream) :=
    List.Perm.flatMap_left _ fun page _ => ExecutionFillPage.stream_perm.symm
  rw [hp.count_eq, h.covered, (nodup_segment _ _).count]
  simp

end

/-- The export of the fills, over every interleaving with recording, repeated,
stale and foreign receipts, retirement and crashes: the acknowledged pages
carry each recorded row up to the cursor once and as it was recorded; a
prepared transfer is answered unchanged until its receipt; a receipt of
neither the pending nor the last transfer changes nothing, and one of the
last transfer only retires rows; no retired row is needed any more. -/
theorem fill_export_exact (c : FillCodec SavedFill) (scope : FillScope) (as : List Action) :
    let r := run c scope {} as
    r.acked.flatMap ExecutionFillPage.stream = Lib.segment 0 r.state.row.cursor ∧
    (∀ n, (r.acked.flatMap fun page => page.sequences.map UInt64.toNat).count n =
      if 0 < n ∧ n ≤ r.state.row.cursor then 1 else 0) ∧
    (∀ page ∈ r.acked, page.Exact ∧ Shows r.log page.records page.positionChecks) ∧
    r.state.row.cursor ≤ r.log.length ∧
    (∀ nowUs commit t,
      (r.state.prepareExecutionFillExport c scope nowUs commit).2 = .ok (some t) →
      ∀ bs, (run c scope (r.step c scope (.prepare nowUs commit)) bs).acked.length =
        r.acked.length → ∀ laterUs later,
      ((run c scope (r.step c scope (.prepare nowUs commit)) bs).state.prepareExecutionFillExport
        c scope laterUs later).2 = .ok (some t)) ∧
    (∀ receipt commit retirement, ¬ r.state.Matches receipt → ¬ r.state.Repeats receipt →
      (r.state.acknowledgeExecutionFillExport scope receipt commit retirement).1 = r.state ∧
      ∃ e, (r.state.acknowledgeExecutionFillExport scope receipt commit retirement).2 =
        .error e) ∧
    (∀ receipt commit retirement, ¬ r.state.Matches receipt → r.state.Repeats receipt →
      (r.state.acknowledgeExecutionFillExport scope receipt commit retirement).1 = r.state ∨
      (r.state.acknowledgeExecutionFillExport scope receipt commit retirement).1 =
        r.state.retired) ∧
    ∀ n row, r.state.store.ledger.fills.lookup n = some row →
      r.state.retired.store.ledger.fills.lookup n = none →
      n ≤ r.state.row.cursor ∧ n < r.state.store.ledger.lastSequence ∧
      (∀ k h, r.state.store.ledger.heads.lookup k = some h → h.sequence ≠ n) ∧
      ∀ k check, r.state.store.ledger.positionChecks.lookup k = some check →
        check.ledgerSequence ≠ n := by
  intro r
  have h : Intact c scope r := intact_run .empty as
  refine ⟨h.covered, h.count, fun page hpa => ?_, ?_, ?_, ?_, ?_, ?_⟩
  · obtain ⟨hvalid, hsh⟩ := h.acked page hpa
    exact ⟨exact_of_validate hvalid, hsh⟩
  · rw [h.stored.length]
    exact h.stored.cursor
  · intro nowUs commit t hok bs hac laterUs later
    obtain ⟨page, hw⟩ := prepare_waiting h hok
    have hla := Waiting.run (h.step (.prepare nowUs commit)) hw bs hac
    simp only [prepareExecutionFillExport, hla.row.2.2, hla.resume_eq]
    rfl
  · intro receipt commit retirement hma hre
    obtain ⟨hsa, her | hre'⟩ | ⟨-, hre'⟩ | ⟨hma', -⟩ :=
      acknowledge_cases r.state scope receipt commit retirement
    · exact ⟨hsa, her⟩
    · exact absurd hre' hre
    · exact absurd hre' hre
    · exact absurd hma' hma
  · intro receipt commit retirement hma hre
    obtain ⟨hsa, -⟩ | ⟨hret, -⟩ | ⟨hma', -⟩ :=
      acknowledge_cases r.state scope receipt commit retirement
    · exact .inl hsa
    · exact .inr hret
    · exact absurd hma' hma
  · intro n row hrow hgo
    obtain hsa | ⟨-, hcu, hlt, hhe, hch⟩ := lookup_retired r.state n
    · rw [hsa, hrow] at hgo
      cases hgo
    rw [h.stored.sound.maxSequence_eq] at hlt
    exact ⟨hcu, hlt, hhe, hch⟩

def sampleScope : FillScope := ⟨"source", "strategy", "account", true⟩

def samplePage : ExecutionFillPage where
  version := 1
  sourceId := "source"
  strategyId := "strategy"
  accountId := "account"
  afterSequence := 0
  throughSequence := 2
  nextSequence := 2
  hasMore := false
  records := [⟨1, 1, 100, FillHistory.sampleInput 10 10, none⟩,
    ⟨2, 1, 100, FillHistory.sampleInput 11 30, none⟩]
  positionChecks := []
  generatedAtUs := 200
  coverage := "observed_broker_fills_since_ledger_installation"
  valuationBasis := "broker_reported_cash_no_inferred_notional_multiplier_or_fx"
  recoveryComplete := none

def sampleCodec : FillCodec SavedFill where
  toJson page := if page = samplePage then .ok "page" else .error "another page"
  fromJson text := if text = "page" then .ok samplePage else .error "another text"
  checksum text := text ++ "#"
  savedBytes _ := 10
  toJson_ne page text h := by
    split at h
    · cases h
      decide
    · cases h
  fromJson_toJson page text h _ := by
    split at h
    next heq =>
      cases h
      rw [if_pos rfl, heq]
    next => cases h

def recordOf : FillAction → List Action
  | .record j batch nowUs commit => [.record j batch nowUs commit]
  | _ => []

theorem early_valid : (FillHistory.sampleInput 10 10).validate = .ok () := by decide +kernel

theorem late_valid : (FillHistory.sampleInput 11 30).validate = .ok () := by decide +kernel

/-- The receipt of the last transfer, delivered again after a crash: it does
not match a pending transfer, and a row is deleted. -/
theorem repeated_receipt_retires :
    let r := run sampleCodec sampleScope {}
      (recordOf (FillHistory.observe (FillHistory.sampleInput 10 10) early_valid) ++
        recordOf (FillHistory.observe (FillHistory.sampleInput 11 30) late_valid) ++
        [.prepare 200 .reported,
          .acknowledge ⟨"source", "page#", 0, 2⟩ .reported (.lost "crash")])
    r.acked = [samplePage] ∧ r.state.row.pendingTransferId = none ∧
      (r.state.store.ledger.fills.lookup 1).isSome = true ∧
      ((r.state.acknowledgeExecutionFillExport sampleScope ⟨"source", "page#", 0, 2⟩ .reported
        .reported).1.store.ledger.fills.lookup 1).isSome = false := by
  decide +kernel

end FillExport

end AqEngine.Broker
