import AqEngine.Journal.Migration

namespace AqEngine.Broker

open Lib Fallible Table List

/-- A history of the two files: the opening of the journal, the request for a
move, the steps of a move, an end of the process at any point, and the changes
of rows in between. The tables as they were when the last move began are kept
for comparison. -/
structure MigrationRun where
  state : CloudHistory
  legacy : HistoryTable → Slot

inductive HistoryAction where
  | reopen (capacity : Option PhysicalCaptureLimit)
  | separate (limit : PhysicalCaptureLimit)
  | advance (commit : Commit) (projected : Nat)
  | stop
  | write (t : HistoryTable) (rowid : Int) (row : List Value)
  | erase (t : HistoryTable) (rowid : Int)

namespace MigrationRun

open CloudHistory

variable (scope : HistoryIdentity) (sha256 : List UInt8 → List UInt8)

def start (content : HistoryTable → Option TableImage) (target : Option HistoryStore) :
    MigrationRun where
  state := ⟨⟨none, fun t => (content t).elim .missing .stored, target⟩, .closed⟩
  legacy := fun t => (content t).elim .missing .stored

def step (r : MigrationRun) : HistoryAction → MigrationRun
  | .reopen capacity =>
    if r.state.journal = .closed then { r with state := r.state.reopen scope capacity } else r
  | .separate limit =>
    match r.state.journal with
    | .recording .source => ⟨r.state.separate limit, r.state.files.source⟩
    | .recording .target => { r with state := r.state.separate limit }
    | _ => r
  | .advance commit projected => { r with state := r.state.advance scope sha256 commit projected }
  | .stop => { r with state := { r.state with journal := .closed } }
  | .write t rowid row => { r with state := r.state.change t (·.insert rowid row) }
  | .erase t rowid =>
    -- no statement deletes the only row of a table
    if t.singleton = [] then { r with state := r.state.change t (·.erase rowid) } else r

def run (content : HistoryTable → Option TableImage) (target : Option HistoryStore)
    (actions : List HistoryAction) : MigrationRun :=
  actions.foldl (step scope sha256) (start content target)

def Closed (legacy : HistoryTable → Slot) (d : HistoryFiles) : Prop :=
  (Unmarked d ∧ (d.location = some none → Opened d)) ∨ Marked scope legacy d ∨ Ready scope d

def Fitting (legacy : HistoryTable → Slot) (d : HistoryFiles) : Journal → Prop
  | .closed => Closed scope legacy d
  | .recording .source => Unmarked d ∧ Opened d
  | .recording .target => Ready scope d
  | .migrating limit point => limit.validate = .ok limit ∧
    ((Unmarked d ∧ Opened d ∧ legacy = d.source ∧
        (point = .prepare ∨ point = .mark ∧ d.location = some none)) ∨
      (Marked scope legacy d ∧ Reached scope d point))

def Sound (r : MigrationRun) : Prop := Fitting scope r.legacy r.state.files r.state.journal

variable {scope sha256} {r : MigrationRun} {files : HistoryFiles} {legacy : HistoryTable → Slot}
  {d : HistoryFiles} {journal : Journal} {limit : PhysicalCaptureLimit}
  {source : HistoryTable → Slot} {t : HistoryTable} {slot : Slot}

theorem Fitting.closed (h : Fitting scope legacy d journal) : Closed scope legacy d := by
  match journal, h with
  | .closed, h => exact h
  | .recording .source, ⟨hu, ho⟩ => exact .inl ⟨hu, fun _ => ho⟩
  | .recording .target, h => exact .inr (.inr h)
  | .migrating _ _, ⟨_, .inl ⟨hu, ho, _⟩⟩ => exact .inl ⟨hu, fun _ => ho⟩
  | .migrating _ _, ⟨_, .inr ⟨hm, _⟩⟩ => exact .inr (.inl hm)

theorem owner_unmarked (h : Unmarked d) : d.owner = .source := by
  obtain hl | hl := h.location <;> rw [HistoryFiles.owner, hl]

theorem owner_marked (h : Marked scope legacy d) : d.owner = .source := by
  obtain ⟨limit, hl, -⟩ := h.location
  rw [HistoryFiles.owner, hl]
  rfl

theorem owner_ready (h : Ready scope d) : d.owner = .target := by
  obtain ⟨limit, hl, -⟩ := h.location
  rw [HistoryFiles.owner, hl]
  rfl

/-- Where the owner changes, the history has been moved. -/
def Handed (legacy : HistoryTable → Slot) (d d' : HistoryFiles) : Prop :=
  d.owner = .source → d'.owner = .target → Moved legacy d'

theorem sound_migrated {point next : MigrationPoint} {projected : Nat} (h : Sound scope r)
    (hj : r.state.journal = .migrating limit point)
    (hstep : r.state.files.migrateStep scope sha256 limit projected point = .ok (files, next)) :
    Sound scope ⟨⟨files, if next = .finished then .recording .target else .migrating limit next⟩,
        r.legacy⟩ ∧ Handed r.legacy r.state.files files := by
  rw [Sound, hj] at h
  obtain ⟨hl, ⟨hu, ho, hle, hp⟩ | ⟨hm, hre⟩⟩ := h
  · obtain ⟨hn, ho', hsource, rfl, hlo⟩ | ⟨hn, rfl⟩ := hu.step ho hl hp hstep
    · refine ⟨⟨hl, .inl ⟨hn, ho', hle.trans hsource.symm, .inr ⟨rfl, hlo⟩⟩⟩, ?_⟩
      intro _ ht
      cases (owner_unmarked hn).symm.trans ht
    · rw [← hle] at hn
      refine ⟨⟨hl, .inr ⟨hn, trivial⟩⟩, ?_⟩
      intro _ ht
      cases (owner_marked hn).symm.trans ht
  · obtain ⟨hn, hr'⟩ | ⟨hr, hmo, rfl⟩ := hm.step hre hstep
    · have hne : next ≠ .finished := by
        rintro rfl
        exact hr'
      rw [if_neg hne]
      refine ⟨⟨hl, .inr ⟨hn, hr'⟩⟩, ?_⟩
      intro _ ht
      cases (owner_marked hn).symm.trans ht
    · exact ⟨hr, fun _ _ => hmo⟩

theorem handed_refl (legacy : HistoryTable → Slot) (d : HistoryFiles) : Handed legacy d d := by
  intro hsource ht
  cases hsource.symm.trans ht

theorem sound_advance (h : Sound scope r) (commit : Commit) (projected : Nat) :
    Sound scope { r with state := r.state.advance scope sha256 commit projected } ∧
      Handed r.legacy r.state.files (r.state.advance scope sha256 commit projected).files := by
  have hk : Sound scope { r with state := { r.state with journal := .closed } } ∧
      Handed r.legacy r.state.files r.state.files := ⟨Fitting.closed h, handed_refl _ _⟩
  cases hj : r.state.journal with
  | closed | recording =>
    simp only [CloudHistory.advance, hj]
    exact ⟨h, handed_refl _ _⟩
  | migrating limit point =>
    cases hstep : r.state.files.migrateStep scope sha256 limit projected point with
    | error e =>
      simp only [CloudHistory.advance, hj, hstep]
      exact hk
    | ok result =>
      obtain ⟨hs, hh⟩ := sound_migrated h hj hstep
      simp only [CloudHistory.advance, hj, hstep]
      cases commit with
      | reported => exact ⟨hs, hh⟩
      | lost => exact hk
      | unreported => exact ⟨Fitting.closed hs, hh⟩

theorem current_withLegacySchema (h : ∀ t, source t ≠ .moved) (ht : t ≠ .analyticsCapture) :
    Slot.Current t (withLegacySchema source t) := by
  rw [withLegacySchema, if_neg ht]
  have ha : t.added = [] := by cases t <;> first | rfl | exact absurd rfl ht
  cases hs : source t with
  | missing => exact ⟨_, rfl, Slot.seed_stored t _, by simp [ha]⟩
  | stored image => exact ⟨_, rfl, Slot.seed_stored t image, by simp [ha]⟩
  | moved => exact absurd hs (h t)

theorem withLegacySchema_ne_moved (h : ∀ t, source t ≠ .moved)
    (t : HistoryTable) : withLegacySchema source t ≠ .moved := by
  by_cases ht : t = .analyticsCapture
  · rw [withLegacySchema, if_pos ht]
    exact h t
  obtain ⟨image, hi, -⟩ := current_withLegacySchema h ht
  rw [hi]
  exact Slot.noConfusion

theorem handed_of_location {d' : HistoryFiles}
    (h : d'.location = d.location) : Handed legacy d d' := by
  intro hsource ht
  have howner : d'.owner = d.owner := by rw [HistoryFiles.owner, h, ← HistoryFiles.owner]
  cases ht.symm.trans (howner.trans hsource)

theorem validate_eq_ok {limit' : PhysicalCaptureLimit} (h : limit.validate = .ok limit') :
    limit' = limit := by
  obtain ⟨-, h⟩ := ite_error_eq_ok.1 h
  cases h
  rfl

theorem resumed_copying (capacity : Option PhysicalCaptureLimit)
    (h : resumed scope files capacity ⟨1, .copying, limit⟩ = .ok journal) :
    ∃ limit', limit'.validate = .ok limit' ∧ journal = .migrating limit' .prepare := by
  obtain ⟨-, h⟩ := refuseIf_bind_eq_ok.1 h
  obtain ⟨limit', hvalid, h⟩ := bind_eq_ok.1 h
  cases h
  refine ⟨limit', ?_, rfl⟩
  rwa [← validate_eq_ok hvalid] at hvalid

theorem resumed_ready (capacity : Option PhysicalCaptureLimit)
    (h : resumed scope files capacity ⟨1, .ready, limit⟩ = .ok journal) :
    journal = .recording .target := by
  obtain ⟨-, h⟩ := refuseIf_bind_eq_ok.1 h
  obtain ⟨limit', -, h⟩ := bind_eq_ok.1 h
  cases ht : files.target with
  | none => simp [ht] at h
  | some st =>
    cases hi : st.identity with
    | none => simp [ht, hi] at h
    | some =>
      simp only [ht, hi] at h
      obtain ⟨-, h⟩ := refuseIf_bind_eq_ok.1 h
      cases h
      rfl

theorem sound_reopen (h : Closed scope r.legacy r.state.files)
    (capacity : Option PhysicalCaptureLimit) :
    Sound scope { r with state := r.state.reopen scope capacity } ∧
      Handed r.legacy r.state.files (r.state.reopen scope capacity).files := by
  obtain ⟨hu, ho⟩ | hm | hr := h
  · obtain hl | hl := hu.location
    · simp only [reopen, hl]
      refine ⟨⟨⟨.inl rfl, withLegacySchema_ne_moved hu.source, ?_⟩, ?_⟩, ?_⟩
      · intro hn
        cases hn
      · intro t ht
        exact current_withLegacySchema hu.source ht
      · exact handed_of_location hl.symm
    · simp only [reopen, hl]
      exact ⟨⟨hu, ho hl⟩, handed_refl _ _⟩
  · obtain ⟨limit, hl, hli⟩ := hm.location
    simp only [reopen, hl]
    refine ⟨?_, handed_refl _ _⟩
    cases hre : resumed scope r.state.files capacity ⟨1, .copying, limit⟩ with
    | error e => exact .inr (.inl hm)
    | ok =>
      obtain ⟨limit', hvalid, rfl⟩ := resumed_copying capacity hre
      exact ⟨hvalid, .inr ⟨hm, trivial⟩⟩
  · obtain ⟨limit, hl, hli⟩ := hr.location
    simp only [reopen, hl]
    refine ⟨?_, handed_refl _ _⟩
    cases hre : resumed scope r.state.files capacity ⟨1, .ready, limit⟩ with
    | error e => exact .inr (.inr hr)
    | ok =>
      cases resumed_ready capacity hre
      exact hr

theorem sound_separate (h : Sound scope r) (limit : PhysicalCaptureLimit) :
    Sound scope (r.step scope sha256 (.separate limit)) ∧
      Handed (r.step scope sha256 (.separate limit)).legacy r.state.files
        (r.step scope sha256 (.separate limit)).state.files := by
  cases hj : r.state.journal with
  | closed | migrating limit =>
    simp only [step, hj]
    exact ⟨h, handed_refl _ _⟩
  | recording owner =>
    rw [Sound, hj] at h
    cases hl : limit.validate with
    | error e =>
      cases owner with
      | source =>
        simp only [step, hj, separate, hl]
        exact ⟨.inl ⟨h.1, fun _ => h.2⟩, handed_refl _ _⟩
      | target =>
        simp only [step, hj, separate, hl]
        exact ⟨.inr (.inr h), handed_refl _ _⟩
    | ok =>
      cases validate_eq_ok hl
      cases owner with
      | source =>
        simp only [step, hj, separate, hl]
        exact ⟨⟨hl, .inl ⟨h.1, h.2, rfl, .inl rfl⟩⟩, handed_refl _ _⟩
      | target =>
        simp only [step, hj, separate, hl]
        obtain ⟨stored, hlo, -⟩ := h.location
        refine ⟨⟨⟨limit, ?_, hl⟩, h.source, h.target⟩, ?_⟩
        · simp [hlo]
        · intro hsource
          cases hsource.symm.trans (owner_ready h)

theorem current_mapRows {f : Table Int (List Value) → Table Int (List Value)}
    (hf : t.singleton ≠ [] → ∀ rows : Table Int (List Value), (rows.lookup 1).isSome →
      ((f rows).lookup 1).isSome) (h : Slot.Current t slot) : Slot.Current t (slot.mapRows f) := by
  obtain ⟨image, rfl, hse, ha⟩ := h
  exact ⟨_, rfl, fun hs => hf hs _ (hse hs), ha⟩

theorem mapRows_ne_moved (f : Table Int (List Value) → Table Int (List Value))
    (h : slot ≠ .moved) : slot.mapRows f ≠ .moved := by
  cases slot with
  | missing | stored => exact Slot.noConfusion
  | moved => exact absurd rfl h

theorem sound_change (h : Sound scope r) (t : HistoryTable)
    (f : Table Int (List Value) → Table Int (List Value))
    (hf : t.singleton ≠ [] → ∀ rows : Table Int (List Value), (rows.lookup 1).isSome →
      ((f rows).lookup 1).isSome) :
    Sound scope { r with state := r.state.change t f } ∧
      Handed r.legacy r.state.files (r.state.change t f).files := by
  cases hj : r.state.journal with
  | closed | migrating =>
    simp only [change, hj]
    exact ⟨h, handed_refl _ _⟩
  | recording owner =>
    rw [Sound, hj] at h
    simp only [change, hj]
    cases owner with
    | source =>
      obtain ⟨hun, ho⟩ := h
      refine ⟨⟨⟨hun.location, fun u => ?_, hun.target⟩, fun u hu => ?_⟩, handed_of_location rfl⟩
      · by_cases hut : u = t
        · subst hut
          simpa using mapRows_ne_moved f (hun.source u)
        · simpa [hut] using hun.source u
      · by_cases hut : u = t
        · subst hut
          simpa using current_mapRows hf (ho u hu)
        · simpa [hut] using ho u hu
    | target =>
      obtain ⟨st, hta, hi, ht⟩ := h.target
      refine ⟨⟨h.location, h.source,
        { st with tables := Function.update st.tables t ((st.tables t).mapRows f) }, ?_, hi,
        fun u => ?_⟩, handed_of_location rfl⟩
      · simp [hta]
      · by_cases hut : u = t
        · subst hut
          obtain ⟨image, him⟩ := ht u
          exact ⟨{ image with rows := f image.rows }, by simp [him, Slot.mapRows]⟩
        · simpa [hut] using ht u

theorem sound_step (h : Sound scope r) (a : HistoryAction) : Sound scope (r.step scope sha256 a) ∧
      Handed (r.step scope sha256 a).legacy r.state.files (r.step scope sha256 a).state.files := by
  cases a with
  | reopen capacity =>
    simp only [step]
    split
    case isTrue hc =>
      rw [Sound, hc] at h
      exact sound_reopen h capacity
    case isFalse => exact ⟨h, handed_refl _ _⟩
  | separate limit => exact sound_separate h limit
  | advance commit projected => exact sound_advance h commit projected
  | stop => exact ⟨Fitting.closed h, handed_refl _ _⟩
  | write t rowid =>
    refine sound_change h t _ fun _ _ _ => ?_
    by_cases ho : (1 : Int) = rowid
    · subst ho
      simp [AList.lookup_insert]
    · rwa [AList.lookup_insert_ne ho]
  | erase t rowid =>
    simp only [step]
    split
    case isTrue hs => exact sound_change h t _ fun hne => absurd hs hne
    case isFalse => exact ⟨h, handed_refl _ _⟩

theorem sound_start (content : HistoryTable → Option TableImage) (target : Option HistoryStore) :
    Sound scope (start content target) := by
  refine .inl ⟨⟨.inl rfl, fun t => ?_, fun h => (nomatch h)⟩, fun h => (nomatch h)⟩
  change (content t).elim Slot.missing Slot.stored ≠ Slot.moved
  cases content t <;> exact Slot.noConfusion

theorem sound_run (content : HistoryTable → Option TableImage) (target : Option HistoryStore)
    (actions : List HistoryAction) : Sound scope (run scope sha256 content target actions) :=
  List.foldlRecOn actions _ (sound_start content target) fun _ hr a _ => (sound_step hr a).1

/-- Tables that can be moved: their columns are the known ones, all row ids
are positive and no row is too large. -/
def Supported (legacy : HistoryTable → Slot) : Prop :=
  ∀ t, ∃ src, toMove legacy t = .stored src ∧ src.columns = t.schema ++ t.added ∧
    ∀ k row, src.rows.lookup k = some row → 0 < k ∧ TableImage.rowSize row ≤ copyRowBytes

/-- Whatever sizes are measured, the move comes to its end when they are within
the limit and the process is left to run. -/
def Finishes (scope : HistoryIdentity) (sha256 : List UInt8 → List UInt8)
    (limit : PhysicalCaptureLimit) (r : MigrationRun) : Prop :=
  ∃ n, ∀ sizes : List Nat, n ≤ sizes.length → (∀ b ∈ sizes, b ≤ limit.physicalLimitBytes) →
    ((sizes.map (HistoryAction.advance .reported)).foldl (step scope sha256) r).state.journal =
        .recording .target ∧
      Moved r.legacy
        ((sizes.map (HistoryAction.advance .reported)).foldl (step scope sha256) r).state.files

section

variable {d d' : HistoryFiles} {limit : PhysicalCaptureLimit} {point next : MigrationPoint}
  {t : HistoryTable} {rest : List HistoryTable} {st : HistoryStore} {src : TableImage}

theorem finishes_recording (hm : Moved legacy d) :
    Finishes scope sha256 limit ⟨⟨d, .recording .target⟩, legacy⟩ := by
  refine ⟨0, fun sizes hl hsi => ?_⟩
  clear hl hsi
  have hs : (sizes.map (HistoryAction.advance .reported)).foldl (step scope sha256)
      ⟨⟨d, .recording .target⟩, legacy⟩ = ⟨⟨d, .recording .target⟩, legacy⟩ := by
    induction sizes with
    | nil => rfl
    | cons b sizes ih => exact ih
  rw [hs]
  exact ⟨rfl, hm⟩

theorem finishes_step (hstep : ∀ b ≤ limit.physicalLimitBytes,
      d.migrateStep scope sha256 limit b point = .ok (d', next))
    (h : Finishes scope sha256 limit
      ⟨⟨d', if next = .finished then .recording .target else .migrating limit next⟩, legacy⟩) :
    Finishes scope sha256 limit ⟨⟨d, .migrating limit point⟩, legacy⟩ := by
  obtain ⟨n, hn⟩ := h
  refine ⟨n + 1, fun sizes hl hs => ?_⟩
  cases sizes with
  | nil => cases hl
  | cons b sizes =>
    have ha : step scope sha256 ⟨⟨d, .migrating limit point⟩, legacy⟩ (.advance .reported b) =
        ⟨⟨d', if next = .finished then .recording .target else .migrating limit next⟩, legacy⟩ := by
      simp only [step, CloudHistory.advance, hstep b (hs b mem_cons_self)]
    rw [map_cons, foldl_cons, ha]
    exact hn sizes (Nat.le_of_succ_le_succ hl) fun b hb => hs b (mem_cons_of_mem _ hb)

theorem finishes_via (h : Marked scope legacy d) (hr : Reached scope d point)
    (hstep : ∀ b ≤ limit.physicalLimitBytes,
      d.migrateStep scope sha256 limit b point = .ok (d', next))
    (hn : Marked scope legacy d' → Reached scope d' next →
      Finishes scope sha256 limit ⟨⟨d', .migrating limit next⟩, legacy⟩) :
    Finishes scope sha256 limit ⟨⟨d, .migrating limit point⟩, legacy⟩ := by
  refine finishes_step hstep ?_
  obtain ⟨h', hr'⟩ | ⟨-, hm, rfl⟩ := h.step hr (hstep 0 (Nat.zero_le _))
  · have hne : next ≠ .finished := by
      rintro rfl
      exact hr'
    rw [if_neg hne]
    exact hn h' hr'
  · exact finishes_recording hm

theorem named_columns (t : HistoryTable) : Named (t.schema ++ t.added) := by
  cases t <;> exact ⟨by decide, by decide⟩

theorem forM_eq_ok {α : Type} {f : α → Except BrokerCommandError Unit} {l : List α}
    (h : ∀ a ∈ l, f a = .ok ()) : l.forM f = .ok () := by
  induction l with
  | nil => rfl
  | cons a l ih =>
    change (f a >>= fun _ => l.forM f) = .ok ()
    rw [h a mem_cons_self]
    exact ih fun b hb => h b (mem_cons_of_mem _ hb)

theorem digest_stored {image : TableImage} (h : Named image.columns) :
    (Slot.stored image).digest sha256 = .ok (sha256 image.digestBytes) := by
  rw [Slot.digest, columns_stored.2 ⟨h, rfl⟩, bind_ok]

theorem digestsAgree_verify (sha256 : List UInt8 → List UInt8) (hi : Installed scope d.source st)
    (hd : ∀ t ∈ HistoryTable.all, (st.progressOf t).complete = true)
    (ht : t ∈ HistoryTable.all) : d.digestsAgree sha256 st t = .ok () := by
  obtain ⟨src, tgt, hs, htg, hc⟩ := hi.tables t
  obtain ⟨hco, hr⟩ := hc.complete (hd t ht)
  have hn : Named tgt.columns := hc.columns ▸ named_columns t
  have hb : tgt.digestBytes = src.digestBytes := by
    rw [TableImage.digestBytes, TableImage.digestBytes, after_congr hr]
  rw [HistoryFiles.digestsAgree, hs, htg, digest_stored (hco ▸ hn), digest_stored hn, hb]
  exact refuseIf_eq_ok.2 (by simp)

/-- How far a point is from the end of the move. -/
def rank : MigrationPoint → Nat
  | .prepare => 20
  | .mark => 19
  | .createFile => 18
  | .identify => 17
  | .upgrade .create => 16
  | .upgrade .seed => 15
  | .upgrade .addColumns => 14
  | .install => 13
  | .copy _ rest => rest.length + 3
  | .verify => 2
  | .choose => 1
  | .finished => 0

theorem rank_copyFrom (rest : List HistoryTable) : rank (.copyFrom rest) = rest.length + 2 := by
  cases rest <;> rfl

theorem migrateStep_succeeds (sha256 : List UInt8 → List UInt8) (limit : PhysicalCaptureLimit)
    (h : Marked scope legacy d) (hr : Reached scope d point)
    (hc : ∀ t rest, point ≠ .copy t rest) :
    ∃ d' next, (∀ b ≤ limit.physicalLimitBytes,
      d.migrateStep scope sha256 limit b point = .ok (d', next)) ∧ rank next < rank point := by
  cases point with
  | prepare =>
    obtain ⟨stored, hl, -⟩ := h.location
    refine ⟨_, _, fun b _ => refuseIf_bind_eq_ok.2 ⟨?_, rfl⟩, by decide⟩
    simp [HistoryFiles.hasLocation, hl]
  | mark | createFile | choose => exact ⟨_, _, fun _ _ => rfl, by decide⟩
  | identify =>
    obtain ⟨st, hst⟩ := Option.ne_none_iff_exists'.1 hr
    have hid : st.identity.getD scope = scope := by
      obtain rfl | hi := h.target st hst
      · rfl
      rw [hi.identity]
      rfl
    refine ⟨_, _, fun b _ => refuseIf_bind_eq_ok.2 ⟨?_, rfl⟩, by decide⟩
    rw [hst]
    exact not_not.2 hid
  | upgrade u => exact ⟨_, _, fun _ _ => rfl, by cases u <;> decide⟩
  | install => exact ⟨_, _, fun b hb => refuseIf_bind_eq_ok.2 ⟨not_lt.2 hb, rfl⟩, by decide⟩
  | copy t rest => exact absurd rfl (hc t rest)
  | verify =>
    obtain ⟨st, hta, hi, hd⟩ := hr
    refine ⟨d, .choose, fun b _ => ?_, by decide⟩
    have ha := forM_eq_ok fun t ht => digestsAgree_verify sha256 hi hd ht
    simp only [HistoryFiles.migrateStep, hta, ha, bind_ok]
  | finished => exact hr.elim

/-- A step of the copy succeeds on a table that can be moved, and leaves fewer
rows of the table for later, or none. -/
theorem copy_succeeds (sha256 : List UInt8 → List UInt8) (limit : PhysicalCaptureLimit)
    (rest : List HistoryTable) (h : Marked scope legacy d) (hsu : Supported legacy)
    (ht : d.target = some st)
    (hi : Installed scope d.source st) (hs : d.source t = .stored src) :
    ∃ d' next, (∀ b ≤ limit.physicalLimitBytes,
        d.migrateStep scope sha256 limit b (.copy t rest) = .ok (d', next)) ∧
      (next = .copyFrom rest ∨ next = .copy t rest ∧ d'.source = d.source ∧
        ∃ st', d'.target = some st' ∧ (src.rows.after (st'.progressOf t).cursor).length <
          (src.rows.after (st.progressOf t).cursor).length) := by
  obtain ⟨src', hm, hc, hr⟩ := hsu t
  obtain ⟨src'', tgt, hs', htg, hcopy⟩ := hi.tables t
  rw [h.toMove_eq hi.current, hs] at hm
  cases hm
  have hpos : ∀ k ≤ 0, src.rows.lookup k = none := by
    intro k hk
    by_contra hso
    obtain ⟨row, hrow⟩ := Option.ne_none_iff_exists'.1 hso
    exact absurd (hr k row hrow).1 (not_lt.2 hk)
  have hcop : ∀ r : HistoryFiles × MigrationPoint,
      (∀ b ≤ limit.physicalLimitBytes, d.copyPage st limit b t rest src.columns = .ok r) →
      ∀ b ≤ limit.physicalLimitBytes,
        d.migrateStep scope sha256 limit b (.copy t rest) = .ok r := by
    intro r hp b hb
    simp only [HistoryFiles.migrateStep, ht]
    rw [copyTable_eq_ok hs htg]
    exact ⟨hc ▸ named_columns t, hcopy.columns.trans hc.symm, hpos, hp b hb⟩
  cases hco : (st.progressOf t).complete with
  | true => exact ⟨_, _, hcop _ fun b _ => copyPage_complete _ hco, .inl rfl⟩
  | false =>
    refine ⟨_, _, hcop _ fun b hb => (copyPage_eq_ok hs hco).2
      ⟨⟨fun e he => (hr e.1 e.2 (mem_page he).1).2, hb⟩, rfl⟩, ?_⟩
    by_cases hsh : (nextPage src (st.progressOf t)).length < copyPageRows
    · exact .inl (if_pos hsh)
    refine .inr ⟨if_neg hsh, rfl, _, rfl, ?_⟩
    rw [progressOf_copied]
    exact length_after_lastKey (by decide) (not_lt.1 hsh)

theorem finishes_copy (hsu : Supported legacy)
    (hrest : ∀ d, Marked scope legacy d → Reached scope d (.copyFrom rest) →
      Finishes scope sha256 limit ⟨⟨d, .migrating limit (.copyFrom rest)⟩, legacy⟩)
    (n : Nat) : ∀ d st, Marked scope legacy d →
      Reached scope d (.copy t rest) → d.target = some st → d.source t = .stored src →
      (src.rows.after (st.progressOf t).cursor).length = n →
      Finishes scope sha256 limit ⟨⟨d, .migrating limit (.copy t rest)⟩, legacy⟩ := by
  induction n using Nat.strong_induction_on with
  | _ n ih =>
    intro d st h hr ht hs hl
    obtain ⟨st', -, ht', hi, -⟩ := id hr
    cases ht.symm.trans ht'
    obtain ⟨d', next, hstep, hn⟩ := copy_succeeds sha256 limit rest h hsu ht hi hs
    obtain rfl | ⟨rfl, hsource, st', ht', hfewer⟩ := hn
    · exact finishes_via h hr hstep (hrest d')
    rw [hl] at hfewer
    refine finishes_via h hr hstep fun h' hr' => ?_
    exact ih _ hfewer d' st' h' hr' ht' (by rw [hsource, hs]) rfl

theorem finishes_reached (hsu : Supported legacy) (n : Nat) : ∀ d point,
    Marked scope legacy d → Reached scope d point → rank point = n →
    Finishes scope sha256 limit ⟨⟨d, .migrating limit point⟩, legacy⟩ := by
  induction n using Nat.strong_induction_on with
  | _ n ih =>
    intro d point h hr hra
    subst hra
    by_cases hc : ∃ t rest, point = .copy t rest
    · obtain ⟨t, rest, rfl⟩ := hc
      obtain ⟨st, -, ht, hi, -⟩ := id hr
      obtain ⟨src, -, hs, -⟩ := hi.tables t
      have hlt : rank (.copyFrom rest) < rank (.copy t rest) := by
        rw [rank_copyFrom]
        exact Nat.lt_succ_self _
      exact finishes_copy hsu (fun d h hr => ih _ hlt d _ h hr rfl) _ d st h hr ht hs rfl
    · obtain ⟨d', next, hstep, hlt⟩ := migrateStep_succeeds sha256 limit h hr
        fun t rest heq => hc ⟨t, rest, heq⟩
      exact finishes_via h hr hstep fun h' hr' => ih _ hlt d' next h' hr' rfl

theorem finishes_first_mark (h : Unmarked d) (ho : Opened d)
    (hl : limit.validate = .ok limit) (hlo : d.location = some none)
    (hs : Supported d.source) :
    Finishes scope sha256 limit ⟨⟨d, .migrating limit .mark⟩, d.source⟩ := by
  have hstep : d.migrateStep scope sha256 limit 0 .mark = .ok (_, .createFile) := rfl
  obtain ⟨-, -, -, hn, -⟩ | ⟨hm, -⟩ := h.step ho hl (.inr ⟨rfl, hlo⟩) hstep
  · cases hn
  · exact finishes_step (fun _ _ => rfl) (finishes_reached hs _ _ _ hm trivial rfl)

theorem finishes_unmarked (h : Unmarked d) (ho : Opened d) (hl : limit.validate = .ok limit)
    (hp : point = .prepare ∨ point = .mark ∧ d.location = some none)
    (hfree : d.hasLocation = true ∨ d.target = none) (hsu : Supported d.source) :
    Finishes scope sha256 limit ⟨⟨d, .migrating limit point⟩, d.source⟩ := by
  obtain rfl | ⟨rfl, hlo⟩ := hp
  · have hstep : ∀ b ≤ limit.physicalLimitBytes, d.migrateStep scope sha256 limit b .prepare =
        .ok ({ d with location := some (d.location.getD none) }, .mark) := by
      intro b _
      refine refuseIf_bind_eq_ok.2 ⟨?_, rfl⟩
      rintro ⟨hno, hs⟩
      obtain hloca | ht := hfree
      · cases hno.symm.trans hloca
      rw [ht] at hs
      cases hs
    obtain ⟨hn, ho', -, -, hlo⟩ | ⟨-, hn⟩ := h.step ho hl (.inl rfl) (hstep 0 (Nat.zero_le _))
    · exact finishes_step hstep (finishes_first_mark hn ho' hl hlo hsu)
    · cases hn
  · exact finishes_first_mark h ho hl hlo hsu

end

theorem source_moved_iff (h : Sound scope r) (t : HistoryTable) :
    r.state.files.source t = .moved ↔ r.state.files.owner = .target := by
  obtain ⟨hu, -⟩ | hma | hr := Fitting.closed h
  · rw [owner_unmarked hu]
    exact ⟨fun hm => absurd hm (hu.source t), HistoryOwner.noConfusion⟩
  · rw [owner_marked hma]
    exact ⟨fun hm => absurd hm (hma.source t), HistoryOwner.noConfusion⟩
  · exact ⟨fun _ => owner_ready hr, fun _ => hr.source t⟩

theorem recording_owner (h : Sound scope r) {owner : HistoryOwner}
    (hj : r.state.journal = .recording owner) : owner = r.state.files.owner := by
  rw [Sound, hj] at h
  cases owner with
  | source => exact (owner_unmarked h.1).symm
  | target => exact (owner_ready h).symm

/-- The old database says that a move is under way. -/
def Copies (d : HistoryFiles) : Prop := ∃ l, d.location = some (some l) ∧ l.state = .copying

theorem marked_of_copies (h : Sound scope r) (hc : Copies r.state.files) :
    Marked scope r.legacy r.state.files := by
  obtain ⟨l, hl, hs⟩ := hc
  obtain ⟨hu, -⟩ | hm | hr := Fitting.closed h
  · obtain hn | hn := hu.location <;> cases hl.symm.trans hn
  · exact hm
  · obtain ⟨limit, hr, -⟩ := hr.location
    cases hl.symm.trans hr
    cases hs

theorem reopen_resumes (h : Sound scope r) (hco : Copies r.state.files)
    (hcl : r.state.journal = .closed) {capacity : Option PhysicalCaptureLimit}
    (hc : ∀ c, capacity = some c → c.validate = .ok c) :
    ∃ limit, r.step scope sha256 (.reopen capacity) =
      { r with state := { r.state with journal := .migrating limit .prepare } } := by
  obtain ⟨stored, hl, hs⟩ := (marked_of_copies h hco).location
  have hvalid : (capacity.getD stored).validate = .ok (capacity.getD stored) := by
    cases capacity with
    | none => exact hs
    | some c => exact hc c rfl
  have hr : resumed scope r.state.files capacity ⟨1, .copying, stored⟩ =
      .ok (.migrating (capacity.getD stored) .prepare) :=
    refuseIf_bind_eq_ok.2 ⟨by simp, bind_eq_ok.2 ⟨_, hvalid, rfl⟩⟩
  refine ⟨capacity.getD stored, ?_⟩
  simp only [step, hcl, reopen, hl, hr]
  rfl

theorem finishes_of_migrating (h : Sound scope r)
    {point : MigrationPoint} (hj : r.state.journal = .migrating limit point)
    (hfree : r.state.files.hasLocation = true ∨ r.state.files.target = none)
    (hs : Supported r.legacy) : Finishes scope sha256 limit r := by
  obtain ⟨⟨files, journal⟩, legacy⟩ := r
  cases hj
  obtain ⟨hli, ⟨hu, ho, hl, hp⟩ | ⟨hm, hr⟩⟩ := h
  · change legacy = files.source at hl
    subst hl
    exact finishes_unmarked hu ho hli hp hfree hs
  · exact finishes_reached hs _ _ _ hm hr rfl

/-- In every run one of the two files owns the history, and the journal
records to that one. While a move is under way the old tables stay as they
were. The new file is made the owner only when it holds exactly the tables to
be moved. A move of tables that can be moved comes to its end, also when it was
interrupted before at any points. -/
theorem cloud_history_moved_exactly (scope : HistoryIdentity) (sha256 : List UInt8 → List UInt8)
    (content : HistoryTable → Option TableImage) (target : Option HistoryStore)
    (actions : List HistoryAction) :
    let r := run scope sha256 content target actions
    (∀ owner, r.state.journal = .recording owner → owner = r.state.files.owner) ∧
      (∀ t, r.state.files.source t = .moved ↔ r.state.files.owner = .target) ∧
      (Copies r.state.files → ∀ t, t ≠ .analyticsCapture → r.state.files.source t = r.legacy t) ∧
      (∀ a, r.state.files.owner = .source →
        (r.step scope sha256 a).state.files.owner = .target →
        Moved (r.step scope sha256 a).legacy (r.step scope sha256 a).state.files) ∧
      (∀ limit point, r.state.journal = .migrating limit point →
        (r.state.files.hasLocation = true ∨ r.state.files.target = none) → Supported r.legacy →
        Finishes scope sha256 limit r) ∧
      (Copies r.state.files → r.state.journal = .closed →
        ∀ capacity, (∀ c, capacity = some c → c.validate = .ok c) →
        ∃ limit, r.step scope sha256 (.reopen capacity) =
          { r with state := { r.state with journal := .migrating limit .prepare } }) := by
  intro r
  have hso : Sound scope r := sound_run content target actions
  refine ⟨fun owner => recording_owner hso, source_moved_iff hso,
    fun hco => (marked_of_copies hso hco).same, fun a => (sound_step hso a).2,
    fun limit point hjo hfree => finishes_of_migrating hso hjo hfree,
    fun hco hcl capacity hca => reopen_resumes hso hco hcl hca⟩

def sampleContent (rowid : Int) : HistoryTable → Option TableImage
  | .fillHistoryClocks =>
    some ⟨HistoryTable.schema .fillHistoryClocks,
      AList.singleton rowid [.text "clock", .integer 7]⟩
  | _ => none

def sampleLimit : PhysicalCaptureLimit := ⟨64 * 1024 * 1024, 8 * 1024 * 1024⟩

def sampleMove (rowid : Int) (restarts : List HistoryAction) : MigrationRun :=
  run ⟨"s", "a", "source"⟩ id (sampleContent rowid) none
    ([.reopen none, .separate sampleLimit] ++
      List.replicate 20 (.advance .reported 4096) ++ restarts)

example : (sampleMove 3 []).state.journal = .recording .target := by decide +kernel

/-- A row id that is not positive is refused, and refused again when the
journal is opened the next time. -/
theorem nonpositive_rowid_never_moved :
    (sampleMove 0 []).state.journal = .closed ∧ (sampleMove 0 []).state.files.owner = .source ∧
      (sampleMove 0 (.reopen none :: List.replicate 20 (.advance .reported 4096))).state.journal =
        .closed ∧
      (sampleMove 0 (.reopen none :: List.replicate 20
        (.advance .reported 4096))).state.files.owner =
        .source := by
  decide +kernel

end MigrationRun

end AqEngine.Broker
