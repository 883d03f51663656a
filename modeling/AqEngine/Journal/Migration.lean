import AqEngine.Journal.CloudHistory

namespace AqEngine.Broker

open Lib Fallible Table List Option

namespace TableImage

variable {image : TableImage} {values : List (String × Value)} {names : List String}

theorem seed_of_isSome (h : values ≠ [] → (image.rows.lookup 1).isSome) :
    image.seed values = image := by
  rw [seed, if_pos]
  by_cases hv : values = []
  · exact .inl hv
  · exact .inr (h hv)

theorem isSome_seed (image : TableImage) (h : values ≠ []) :
    ((image.seed values).rows.lookup 1).isSome := by
  unfold seed
  split
  case isTrue hd => exact hd.resolve_left h
  case isFalse => simp [AList.lookup_insert]

theorem lookup_seed_ne (image : TableImage) {k : Int} (hk : k ≠ 1) :
    (image.seed values).rows.lookup k = image.rows.lookup k := by
  unfold seed
  split
  case isTrue => rfl
  case isFalse => exact AList.lookup_insert_ne hk

theorem addColumns_of_mem (h : ∀ name ∈ names, name ∈ image.columns) :
    image.addColumns names = image := by
  induction names with
  | nil => rfl
  | cons name names ih =>
    rw [addColumns, foldl_cons, if_pos (h name mem_cons_self)]
    exact ih fun name hn => h name (mem_cons_of_mem _ hn)

theorem addColumns_keeps (image : TableImage) (names : List String) :
    image.columns ⊆ (image.addColumns names).columns ∧
      ∀ k, ((image.addColumns names).rows.lookup k).isSome = (image.rows.lookup k).isSome := by
  induction names generalizing image with
  | nil => exact ⟨fun _ h => h, fun _ => rfl⟩
  | cons name names ih =>
    rw [addColumns, foldl_cons]
    by_cases hn : name ∈ image.columns
    · rw [if_pos hn]
      exact ih image
    rw [if_neg hn]
    obtain ⟨hco, hr⟩ := ih ⟨image.columns ++ [name], image.rows.mapRows (· ++ [.null])⟩
    refine ⟨fun c hc => hco (mem_append_left _ hc), fun k => ?_⟩
    refine (hr k).trans ?_
    rw [lookup_mapRows, isSome_map]

theorem mem_addColumns (image : TableImage) (names : List String) :
    ∀ name ∈ names, name ∈ (image.addColumns names).columns := by
  induction names generalizing image with
  | nil => simp
  | cons first names ih =>
    intro name hn
    rw [addColumns, foldl_cons]
    by_cases hf : first ∈ image.columns
    · rw [if_pos hf]
      obtain rfl | hn := mem_cons.1 hn
      · exact (addColumns_keeps image names).1 hf
      · exact ih image name hn
    · rw [if_neg hf]
      obtain rfl | hn := mem_cons.1 hn
      · exact (addColumns_keeps _ names).1 (mem_append_right _ mem_cons_self)
      · exact ih _ name hn

end TableImage

namespace Slot

variable {t : HistoryTable} {slot : Slot}

/-- A table as a migration brings it up to date before it is copied. -/
def upgraded (t : HistoryTable) (slot : Slot) : Slot := ((slot.create t).seed t).addColumns t

def Seeded (t : HistoryTable) (image : TableImage) : Prop :=
  t.singleton ≠ [] → (image.rows.lookup 1).isSome

def Current (t : HistoryTable) (slot : Slot) : Prop :=
  ∃ image, slot = .stored image ∧ Seeded t image ∧ ∀ name ∈ t.added, name ∈ image.columns

variable {image : TableImage}

theorem addColumns_stored (hs : Seeded t image) : Seeded t (image.addColumns t.added) ∧
      ∀ name ∈ t.added, name ∈ (image.addColumns t.added).columns := by
  refine ⟨fun h => ?_, image.mem_addColumns t.added⟩
  rw [(image.addColumns_keeps t.added).2]
  exact hs h

theorem seed_stored (t : HistoryTable) (image : TableImage) :
    Seeded t (image.seed t.singleton) := image.isSome_seed

theorem upgraded_seeded (hs : Seeded t image) :
    upgraded t (.stored image) = .stored (image.addColumns t.added) := by
  change Slot.stored ((image.seed t.singleton).addColumns t.added) = _
  rw [TableImage.seed_of_isSome hs]

theorem upgraded_of_current (h : Current t slot) : slot.upgraded t = slot := by
  obtain ⟨image, rfl, hs, ha⟩ := h
  rw [upgraded_seeded hs, TableImage.addColumns_of_mem ha]

theorem upgraded_create (slot : Slot) : (slot.create t).upgraded t = slot.upgraded t := by
  cases slot <;> rfl

theorem upgraded_seed (slot : Slot) : (slot.seed t).upgraded t = slot.upgraded t := by
  cases slot with
  | stored image =>
    change upgraded t (.stored (image.seed t.singleton)) = _
    rw [upgraded_seeded (seed_stored t image)]
    rfl
  | missing | moved => rfl

theorem upgraded_addColumns (hs : Seeded t image) :
    ((Slot.stored image).addColumns t).upgraded t = (Slot.stored image).upgraded t := by
  change upgraded t (.stored (image.addColumns t.added)) = _
  obtain ⟨hs', ha⟩ := addColumns_stored hs
  rw [upgraded_seeded hs', upgraded_seeded hs, TableImage.addColumns_of_mem ha]

end Slot

section

variable (scope : HistoryIdentity) (legacy : HistoryTable → Slot) (d : HistoryFiles)

/-- Of one table: what was copied of the old rows, and all of them once the
copy is complete. -/
structure Copying (t : HistoryTable) (src tgt : TableImage) (p : CopyProgress) : Prop where
  source : Slot.Seeded t src
  target : Slot.Seeded t tgt
  columns : tgt.columns = t.schema ++ t.added
  copied : CopiedTo 0 p.cursor src.rows tgt.rows
  complete : p.complete = true →
    tgt.columns = src.columns ∧ ∀ k, tgt.rows.lookup k = src.rows.lookup k

structure Installed (source : HistoryTable → Slot) (st : HistoryStore) : Prop where
  identity : st.identity = some scope
  current : Slot.Current .analyticsCapture (source .analyticsCapture)
  tables : ∀ t, ∃ src tgt, source t = .stored src ∧ st.tables t = .stored tgt ∧
    Copying t src tgt (st.progressOf t)

/-- Before the row with the location, the old database owns the history. -/
structure Unmarked : Prop where
  location : d.location = none ∨ d.location = some none
  source : ∀ t, d.source t ≠ .moved
  target : d.location = some none → d.target = none

def Opened : Prop := ∀ t, t ≠ .analyticsCapture → Slot.Current t (d.source t)

/-- During the copy the old database still owns the history, and its tables
change only to be brought up to date. -/
structure Marked : Prop where
  location : ∃ limit, d.location = some (some ⟨1, .copying, limit⟩) ∧ limit.validate = .ok limit
  source : ∀ t, d.source t ≠ .moved
  opened : Opened d
  same : ∀ t, t ≠ .analyticsCapture → d.source t = legacy t
  upgraded : (d.source .analyticsCapture).upgraded .analyticsCapture =
    (legacy .analyticsCapture).upgraded .analyticsCapture
  target : ∀ st, d.target = some st → st = {} ∨ Installed scope d.source st

structure Ready : Prop where
  location : ∃ limit, d.location = some (some ⟨1, .ready, limit⟩) ∧ limit.validate = .ok limit
  source : ∀ t, d.source t = .moved
  target : ∃ st, d.target = some st ∧ st.identity = some scope ∧
    ∀ t, ∃ image, st.tables t = .stored image

def Reached : MigrationPoint → Prop
  | .prepare => True
  | .mark => True
  | .createFile => True
  | .identify => d.target ≠ none
  | .upgrade .create => d.target ≠ none
  | .upgrade .seed => d.target ≠ none ∧ ∃ image, d.source .analyticsCapture = .stored image
  | .upgrade .addColumns => d.target ≠ none ∧
    ∃ image, d.source .analyticsCapture = .stored image ∧ Slot.Seeded .analyticsCapture image
  | .install => d.target ≠ none ∧ Slot.Current .analyticsCapture (d.source .analyticsCapture)
  | .copy t rest => ∃ st before, d.target = some st ∧ Installed scope d.source st ∧
    HistoryTable.all = before ++ t :: rest ∧ ∀ u ∈ before, (st.progressOf u).complete = true
  | .verify => ∃ st, d.target = some st ∧ Installed scope d.source st ∧
    ∀ u ∈ HistoryTable.all, (st.progressOf u).complete = true
  | .choose => ∃ st, d.target = some st ∧ Installed scope d.source st ∧
    ∀ u ∈ HistoryTable.all, (st.progressOf u).complete = true
  | .finished => False

end

variable {scope : HistoryIdentity} {legacy : HistoryTable → Slot} {d d' : HistoryFiles}
  {sha256 : List UInt8 → List UInt8} {limit : PhysicalCaptureLimit} {projected : Nat}
  {point next : MigrationPoint} {t : HistoryTable} {st : HistoryStore}

theorem reached_copyFrom (before rest : List HistoryTable) (ht : d.target = some st)
    (hi : Installed scope d.source st) (ha : HistoryTable.all = before ++ rest)
    (hd : ∀ u ∈ before, (st.progressOf u).complete = true) :
    Reached scope d (.copyFrom rest) := by
  cases rest with
  | nil =>
    rw [append_nil] at ha
    exact ⟨st, ht, hi, by rwa [ha]⟩
  | cons t rest => exact ⟨st, before, ht, hi, ha, hd⟩

theorem apply_of_current {slot : Slot} (h : Slot.Current .analyticsCapture slot) (u : Upgrade) :
    u.apply slot = slot := by
  obtain ⟨image, rfl, hs, ha⟩ := h
  cases u with
  | create => rfl
  | seed => exact congrArg Slot.stored (TableImage.seed_of_isSome hs)
  | addColumns => exact congrArg Slot.stored (TableImage.addColumns_of_mem ha)

theorem upgrade_of_current
    (h : Slot.Current .analyticsCapture (d.source .analyticsCapture)) (u : Upgrade) :
    d.upgrade u = d := by
  rw [HistoryFiles.upgrade, apply_of_current h, Function.update_eq_self]

theorem apply_ne_moved {slot : Slot} (h : slot ≠ .moved) (u : Upgrade) : u.apply slot ≠ .moved := by
  cases slot with
  | missing | stored => cases u <;> exact Slot.noConfusion
  | moved => exact absurd rfl h

theorem source_upgrade (d : HistoryFiles) (u : Upgrade) :
    (d.upgrade u).source .analyticsCapture = u.apply (d.source .analyticsCapture) := by
  simp [HistoryFiles.upgrade]

theorem source_upgrade_ne (d : HistoryFiles) (u : Upgrade) (ht : t ≠ .analyticsCapture) :
    (d.upgrade u).source t = d.source t :=
  Function.update_of_ne ht ..

theorem reached_upgrade (hsource : d.source .analyticsCapture ≠ .moved) {u : Upgrade}
    (hr : Reached scope d (.upgrade u)) : Reached scope (d.upgrade u) u.next := by
  cases u with
  | create =>
    refine ⟨hr, ?_⟩
    rw [source_upgrade]
    cases hs : d.source .analyticsCapture with
    | missing => exact ⟨_, rfl⟩
    | stored image => exact ⟨image, rfl⟩
    | moved => exact absurd hs hsource
  | seed =>
    obtain ⟨ht, image, hi⟩ := hr
    refine ⟨ht, _, ?_, Slot.seed_stored _ image⟩
    rw [source_upgrade, hi]
    rfl
  | addColumns =>
    obtain ⟨ht, image, hi, hse⟩ := hr
    refine ⟨ht, _, ?_, Slot.addColumns_stored hse⟩
    rw [source_upgrade, hi]
    rfl

theorem Marked.upgrade (h : Marked scope legacy d) {u : Upgrade}
    (hr : Reached scope d (.upgrade u)) : Marked scope legacy (d.upgrade u) where
  location := h.location
  source t := by
    by_cases ht : t = .analyticsCapture
    · subst ht
      rw [source_upgrade]
      exact apply_ne_moved (h.source _) u
    rw [source_upgrade_ne d u ht]
    exact h.source t
  opened t ht := by
    rw [source_upgrade_ne d u ht]
    exact h.opened t ht
  same t ht := by rw [source_upgrade_ne d u ht, h.same t ht]
  upgraded := by
    rw [source_upgrade, ← h.upgraded]
    cases u with
    | create => exact Slot.upgraded_create _
    | seed => exact Slot.upgraded_seed _
    | addColumns =>
      obtain ⟨-, image, him, hs⟩ := hr
      rw [him]
      exact Slot.upgraded_addColumns hs
  target st hst := by
    obtain hn | hi := h.target st hst
    · exact .inl hn
    rw [upgrade_of_current hi.current]
    exact .inr hi

theorem upgraded_missing (t : HistoryTable) :
    ∃ tgt, Slot.upgraded t .missing = .stored tgt ∧ Slot.Seeded t tgt ∧
      tgt.columns = t.schema ++ t.added ∧
      ∀ k, tgt.rows.lookup k ≠ none → k = 1 ∧ t.singleton ≠ [] := by
  refine ⟨_, rfl, (Slot.addColumns_stored (Slot.seed_stored t _)).1, ?_, fun k hk => ?_⟩
  · cases t <;> rfl
  · rw [ne_none_iff_isSome, (TableImage.addColumns_keeps _ _).2] at hk
    by_cases hs : t.singleton = []
    · rw [TableImage.seed, if_pos (.inl hs)] at hk
      cases hk
    refine ⟨?_, hs⟩
    by_contra hne
    rw [TableImage.lookup_seed_ne _ hne] at hk
    cases hk

theorem Marked.current (h : Marked scope legacy d)
    (hc : Slot.Current .analyticsCapture (d.source .analyticsCapture)) (t : HistoryTable) :
    Slot.Current t (d.source t) := by
  by_cases ht : t = .analyticsCapture
  · subst ht
    exact hc
  · exact h.opened t ht

theorem installed_new (h : ∀ t, Slot.Current t (d.source t)) :
    Installed scope d.source (HistoryStore.installed {} scope) where
  identity := rfl
  current := h _
  tables t := by
    obtain ⟨src, hsr, hse, -⟩ := h t
    obtain ⟨tgt, htg, ht, hc, ho⟩ := upgraded_missing t
    refine ⟨src, tgt, hsr, htg, hse, ht, hc, ⟨?_, ?_⟩, fun hd => (nomatch hd)⟩
    · intro k hpos hle
      exact absurd hpos (not_lt.2 hle)
    · intro k hk
      by_contra hne
      obtain ⟨rfl, hsi⟩ := ho k hne
      have hs := hse hsi
      rw [hk] at hs
      cases hs

theorem Installed.again (h : Installed scope d.source st) : st.installed scope = st := by
  have ht : (fun t => (st.tables t).upgraded t) = st.tables := by
    funext t
    obtain ⟨src, tgt, -, htg, hc⟩ := h.tables t
    apply Slot.upgraded_of_current
    refine ⟨tgt, htg, hc.target, fun _ hn => ?_⟩
    rw [hc.columns]
    exact mem_append_right _ hn
  have hi : some (st.identity.getD scope) = st.identity := by rw [h.identity]; rfl
  change HistoryStore.mk (some (st.identity.getD scope)) st.progress
    (fun t => (st.tables t).upgraded t) = st
  rw [ht, hi]

theorem Marked.withTarget (h : Marked scope legacy d)
    (hst : st = {} ∨ Installed scope d.source st) :
    Marked scope legacy { d with target := some st } :=
  ⟨h.location, h.source, h.opened, h.same, h.upgraded, fun _ hst' => by cases hst'; exact hst⟩

theorem Marked.install (h : Marked scope legacy d) (hr : Reached scope d .install) :
    Marked scope legacy { d with target := d.target.map (·.installed scope) } ∧
      Reached scope { d with target := d.target.map (·.installed scope) }
        (.copyFrom HistoryTable.all) := by
  obtain ⟨ht, hc⟩ := hr
  obtain ⟨st, hst⟩ := ne_none_iff_exists'.1 ht
  have hi : Installed scope d.source (st.installed scope) := by
    obtain rfl | hi := h.target st hst
    · exact installed_new (h.current hc)
    · rwa [hi.again]
  rw [hst]
  exact ⟨h.withTarget (.inr hi), reached_copyFrom [] _ rfl hi rfl (by simp)⟩

def Named (names : List String) : Prop :=
  names ≠ [] ∧ ¬ (names.any fun name =>
    name.isEmpty || !name.toList.all fun c => c.isAlphanum || c == '_') = true

theorem columns_stored {image : TableImage} {names : List String} :
    (Slot.stored image).columns = .ok names ↔ Named image.columns ∧ names = image.columns := by
  rw [Slot.columns, refuseIf_bind_eq_ok, refuseIf_bind_eq_ok, ← and_assoc]
  exact and_congr_right fun _ => ⟨fun h => by cases h; rfl, fun h => by rw [h]⟩

variable {src tgt : TableImage} {rest : List HistoryTable}

def nextPage (src : TableImage) (p : CopyProgress) : List (Sigma fun _ : Int => List Value) :=
  src.rows.page copyPageRows p.cursor

structure Fits (limit : PhysicalCaptureLimit) (projected : Nat)
    (page : List (Sigma fun _ : Int => List Value)) : Prop where
  rows : ∀ e ∈ page, TableImage.rowSize e.2 ≤ copyRowBytes
  capacity : projected ≤ limit.physicalLimitBytes

variable {r : HistoryFiles × MigrationPoint} {names : List String}

theorem copyPage_complete (names : List String) (h : (st.progressOf t).complete = true) :
    d.copyPage st limit projected t rest names = .ok (d, .copyFrom rest) := if_pos h

theorem copyPage_eq_ok (hs : d.source t = .stored src) (h : (st.progressOf t).complete = false) :
    d.copyPage st limit projected t rest names = .ok r ↔
      Fits limit projected (nextPage src (st.progressOf t)) ∧
        r = ({ d with target := some (st.copied t names (nextPage src (st.progressOf t))) },
          if (nextPage src (st.progressOf t)).length < copyPageRows then .copyFrom rest
          else .copy t rest) := by
  have hp : (d.sourceRows t).page copyPageRows (st.progressOf t).cursor =
      nextPage src (st.progressOf t) := by rw [HistoryFiles.sourceRows, hs]; rfl
  rw [HistoryFiles.copyPage, if_neg (by simp [h]), hp, refuseIf_bind_eq_ok, commitOperational,
    refuseIf_bind_eq_ok]
  constructor
  · rintro ⟨hro, hc, hr⟩
    cases hr
    exact ⟨⟨fun e he => not_lt.1 fun hlt => hro ⟨e, he, hlt⟩, not_lt.1 hc⟩, rfl⟩
  · rintro ⟨hf, rfl⟩
    exact ⟨fun ⟨e, he, hlt⟩ => absurd (hf.rows e he) (not_le.2 hlt), not_lt.2 hf.capacity, rfl⟩

theorem copyTable_eq_ok (hsr : d.source t = .stored src) (ht : st.tables t = .stored tgt) :
    d.copyTable st limit projected t rest = .ok r ↔
      Named src.columns ∧ tgt.columns = src.columns ∧ (∀ k ≤ 0, src.rows.lookup k = none) ∧
        d.copyPage st limit projected t rest src.columns = .ok r := by
  have hr : d.sourceRows t = src.rows := by rw [HistoryFiles.sourceRows, hsr]; rfl
  rw [HistoryFiles.copyTable, hsr, ht, hr]
  constructor
  · intro h
    obtain ⟨names, hna, h⟩ := bind_eq_ok.1 h
    obtain ⟨found, hf, h⟩ := bind_eq_ok.1 h
    obtain ⟨hn, rfl⟩ := columns_stored.1 hna
    obtain ⟨-, rfl⟩ := columns_stored.1 hf
    obtain ⟨hs, h⟩ := refuseIf_bind_eq_ok.1 h
    obtain ⟨hpos, hp⟩ := refuseIf_bind_eq_ok.1 h
    refine ⟨hn, not_not.1 hs, fun k hk => ?_, hp⟩
    by_contra hso
    obtain ⟨row, hrow⟩ := ne_none_iff_exists'.1 hso
    exact hpos ⟨⟨k, row⟩, AList.mem_lookup_iff.1 hrow, hk⟩
  · rintro ⟨hn, hs, hpos, h⟩
    refine bind_eq_ok.2 ⟨_, columns_stored.2 ⟨hn, rfl⟩, ?_⟩
    refine bind_eq_ok.2 ⟨_, columns_stored.2 ⟨hs ▸ hn, rfl⟩, ?_⟩
    refine refuseIf_bind_eq_ok.2 ⟨not_not.2 hs, refuseIf_bind_eq_ok.2 ⟨?_, h⟩⟩
    rintro ⟨e, he, hle⟩
    have hl := AList.mem_lookup_iff.2 he
    rw [hpos e.1 hle] at hl
    cases hl

theorem Copying.page {p : CopyProgress} (h : Copying t src tgt p)
    (hc : tgt.columns = src.columns) (hpos : ∀ k ≤ 0, src.rows.lookup k = none) :
    Copying t src ⟨src.columns, fill tgt.rows (nextPage src p)⟩
      ⟨lastKey p.cursor (nextPage src p), (nextPage src p).length < copyPageRows⟩ where
  source := h.source
  target hs := by
    change ((fill tgt.rows (src.rows.page copyPageRows p.cursor)).lookup 1).isSome
    rw [lookup_fill (t := src.rows) _ fun e he => (mem_page he).1]
    split
    · exact h.source hs
    · exact h.target hs
  columns := hc.symm.trans h.columns
  copied := h.copied.fill_page
  complete hd := ⟨rfl, h.copied.complete hpos (of_decide_eq_true hd)⟩

theorem progressOf_copied {page : List (Sigma fun _ : Int => List Value)} :
    (st.copied t names page).progressOf t =
      ⟨lastKey (st.progressOf t).cursor page, page.length < copyPageRows⟩ := by
  simp [HistoryStore.progressOf, HistoryStore.copied]

theorem progressOf_copied_ne {u : HistoryTable}
    {page : List (Sigma fun _ : Int => List Value)} (hu : u ≠ t) :
    (st.copied t names page).progressOf u = st.progressOf u := by
  simp [HistoryStore.progressOf, HistoryStore.copied, hu]

theorem Installed.copied (h : Installed scope d.source st) (hs : d.source t = .stored src)
    (ht : st.tables t = .stored tgt) (hco : tgt.columns = src.columns)
    (hpos : ∀ k ≤ 0, src.rows.lookup k = none) :
    Installed scope d.source (st.copied t src.columns (nextPage src (st.progressOf t))) where
  identity := h.identity
  current := h.current
  tables u := by
    by_cases hu : u = t
    · subst hu
      obtain ⟨src', tgt', hs', ht', hc⟩ := h.tables u
      cases hs.symm.trans hs'
      cases ht.symm.trans ht'
      refine ⟨src, ⟨src.columns, fill tgt.rows (nextPage src (st.progressOf u))⟩, hs, ?_, ?_⟩
      · simp [HistoryStore.copied, ht, Slot.rows]
      · rw [progressOf_copied]
        exact hc.page hco hpos
    · obtain ⟨src', tgt', hs', ht', hc⟩ := h.tables u
      refine ⟨src', tgt', hs', ?_, ?_⟩
      · simpa [HistoryStore.copied, hu] using ht'
      · rwa [progressOf_copied_ne hu]

theorem Marked.copy (h : Marked scope legacy d) (hr : Reached scope d (.copy t rest))
    (ht : d.target = some st)
    (hstep : d.copyTable st limit projected t rest = .ok (d', next)) :
    Marked scope legacy d' ∧ Reached scope d' next := by
  obtain ⟨st', before, ht', hi, ha, hd⟩ := hr
  cases ht.symm.trans ht'
  obtain ⟨src, tgt, hs, htg, hcopy⟩ := hi.tables t
  obtain ⟨-, hcol, hpos, hp⟩ := (copyTable_eq_ok hs htg).1 hstep
  have ha' : HistoryTable.all = (before ++ [t]) ++ rest := by simp [ha]
  cases hc : (st.progressOf t).complete with
  | true =>
    rw [copyPage_complete _ hc] at hp
    cases hp
    refine ⟨h, reached_copyFrom _ rest ht hi ha' ?_⟩
    exact forall_mem_append.2 ⟨hd, forall_mem_singleton.2 hc⟩
  | false =>
    obtain ⟨-, heq⟩ := (copyPage_eq_ok hs hc).1 hp
    cases heq
    have hco := hi.copied hs htg hcol hpos
    have hb : ∀ u ∈ before, ((st.copied t src.columns
        (nextPage src (st.progressOf t))).progressOf u).complete = true := by
      intro u hu
      have hne : u ≠ t := by
        rintro rfl
        have hn : HistoryTable.all.Nodup := by decide
        rw [ha, nodup_append] at hn
        exact hn.2.2 u hu u mem_cons_self rfl
      rw [progressOf_copied_ne hne]
      exact hd u hu
    refine ⟨h.withTarget (.inr hco), ?_⟩
    split
    case isTrue hsh =>
      refine reached_copyFrom _ rest rfl hco ha'
        (forall_mem_append.2 ⟨hb, forall_mem_singleton.2 ?_⟩)
      rw [progressOf_copied]
      exact decide_eq_true hsh
    case isFalse => exact ⟨_, before, rfl, hco, ha, hb⟩

/-- The tables that are moved: as they were when the move began, and the
capture policy's table brought up to date. -/
def toMove (legacy : HistoryTable → Slot) (t : HistoryTable) : Slot :=
  if t = .analyticsCapture then (legacy t).upgraded t else legacy t

theorem Marked.toMove_eq (h : Marked scope legacy d)
    (hc : Slot.Current .analyticsCapture (d.source .analyticsCapture)) (t : HistoryTable) :
    toMove legacy t = d.source t := by
  unfold toMove
  split
  case isTrue ht =>
    subst ht
    rw [← h.upgraded, Slot.upgraded_of_current hc]
  case isFalse ht => exact (h.same t ht).symm

def Moved (legacy : HistoryTable → Slot) (d : HistoryFiles) : Prop :=
  ∃ st, d.target = some st ∧ ∀ t, ∃ src tgt, toMove legacy t = .stored src ∧
    st.tables t = .stored tgt ∧ tgt.columns = src.columns ∧
    ∀ k, tgt.rows.lookup k = src.rows.lookup k

theorem mem_all (t : HistoryTable) : t ∈ HistoryTable.all := by
  cases t <;> decide

theorem Marked.chosen (h : Marked scope legacy d) (hr : Reached scope d .choose) :
    Ready scope d.chosen ∧ Moved legacy d.chosen := by
  obtain ⟨st, hta, hi, hd⟩ := hr
  obtain ⟨limit, hlo, hl⟩ := h.location
  refine ⟨⟨⟨limit, ?_, hl⟩, fun _ => rfl, st, hta, hi.identity, fun t => ?_⟩, st, hta, fun t => ?_⟩
  · simp [HistoryFiles.chosen, hlo]
  · obtain ⟨-, tgt, -, ht, -⟩ := hi.tables t
    exact ⟨tgt, ht⟩
  · obtain ⟨src, tgt, hs, ht, hc⟩ := hi.tables t
    refine ⟨src, tgt, ?_, ht, hc.complete (hd t (mem_all t))⟩
    rw [h.toMove_eq hi.current, hs]

theorem Marked.step (h : Marked scope legacy d) (hr : Reached scope d point)
    (hstep : d.migrateStep scope sha256 limit projected point = .ok (d', next)) :
    (Marked scope legacy d' ∧ Reached scope d' next) ∨
      (Ready scope d' ∧ Moved legacy d' ∧ next = .finished) := by
  obtain ⟨stored, hl, hvalid⟩ := h.location
  cases point with
  | prepare =>
    obtain ⟨-, hstep⟩ := refuseIf_bind_eq_ok.1 hstep
    cases hstep
    refine .inl ⟨⟨⟨stored, ?_, hvalid⟩, h.source, h.opened, h.same, h.upgraded, h.target⟩, trivial⟩
    rw [hl]
    rfl
  | mark =>
    cases hstep
    refine .inl ⟨⟨⟨stored, ?_, hvalid⟩, h.source, h.opened, h.same, h.upgraded, h.target⟩, trivial⟩
    rw [hl]
    rfl
  | createFile =>
    cases hstep
    refine .inl ⟨h.withTarget ?_, fun hn => (nomatch hn)⟩
    cases ht : d.target with
    | none => exact .inl rfl
    | some st => exact h.target st ht
  | identify =>
    obtain ⟨-, hstep⟩ := refuseIf_bind_eq_ok.1 hstep
    cases hstep
    exact .inl ⟨h, hr⟩
  | upgrade u =>
    cases hstep
    exact .inl ⟨h.upgrade hr, reached_upgrade (h.source _) hr⟩
  | install =>
    obtain ⟨-, hstep⟩ := refuseIf_bind_eq_ok.1 hstep
    cases hstep
    exact .inl (h.install hr)
  | copy t =>
    obtain ⟨st, -, ht, -⟩ := id hr
    simp only [HistoryFiles.migrateStep, ht] at hstep
    exact .inl (h.copy hr ht hstep)
  | verify =>
    obtain ⟨st, ht, hi, hd⟩ := hr
    simp only [HistoryFiles.migrateStep, ht] at hstep
    obtain ⟨-, -, hstep⟩ := bind_eq_ok.1 hstep
    cases hstep
    exact .inl ⟨h, st, ht, hi, hd⟩
  | choose =>
    cases hstep
    exact .inr ⟨(h.chosen hr).1, (h.chosen hr).2, rfl⟩
  | finished => exact hr.elim

/-- The first two points of a move, before the old database says that one is
under way. -/
theorem Unmarked.step (h : Unmarked d) (ho : Opened d) (hli : limit.validate = .ok limit)
    (hp : point = .prepare ∨ point = .mark ∧ d.location = some none)
    (hstep : d.migrateStep scope sha256 limit projected point = .ok (d', next)) :
    (Unmarked d' ∧ Opened d' ∧ d'.source = d.source ∧ next = .mark ∧ d'.location = some none) ∨
      (Marked scope d.source d' ∧ next = .createFile) := by
  obtain rfl | ⟨rfl, hl⟩ := hp
  · obtain ⟨how, hstep⟩ := refuseIf_bind_eq_ok.1 hstep
    cases hstep
    have hn : some (d.location.getD none) = some none := by
      obtain hl | hl := h.location <;> rw [hl] <;> rfl
    refine .inl ⟨⟨.inr hn, h.source, fun _ => ?_⟩, ho, rfl, rfl, hn⟩
    obtain hl | hl := h.location
    · simpa [HistoryFiles.hasLocation, hl] using how
    · exact h.target hl
  · cases hstep
    refine .inr ⟨⟨⟨limit, ?_, hli⟩, h.source, ho, fun _ _ => rfl, rfl, fun st hst => ?_⟩, rfl⟩
    · rw [hl]
      rfl
    · have hn : d.target = some st := hst
      rw [h.target hl] at hn
      cases hn

end AqEngine.Broker
