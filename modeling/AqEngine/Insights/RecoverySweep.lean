import AqEngine.Insights.Descendants
import Mathlib.Data.Finset.Sort
import Mathlib.Data.Set.Card
import Mathlib.Data.Set.Finite.List

namespace AqEngine.Insights

open Lib List

section

variable {α : Type} [LinearOrder α]

/-- The least of the heads goes out, and each list that begins with it goes on. -/
def takeMerged : Nat → List (List α) → List α
  | 0, _ => []
  | n + 1, lists =>
    match (lists.filterMap List.head?).min? with
    | none => []
    | some next =>
      next :: takeMerged n (lists.map fun l => if l.head? = some next then l.tail else l)

theorem advanced_eq {l : List α} {x : α} (hl : l.Pairwise (· < ·)) (hle : ∀ y ∈ l, x ≤ y) :
    (if l.head? = some x then l.tail else l) = l.filter (x < ·) := by
  cases l with
  | nil => simp
  | cons y l =>
    have ha := (pairwise_cons.1 hl).1
    rw [head?_cons]
    by_cases hy : y = x
    · rw [if_pos (congrArg some hy), filter_cons_of_neg (by simp [hy])]
      exact (filter_eq_self.2 fun z hz => decide_eq_true (hy ▸ ha z hz)).symm
    · rw [if_neg fun h => hy (Option.some.inj h)]
      have hlt : x < y := lt_of_le_of_ne (hle y mem_cons_self) (Ne.symm hy)
      refine (filter_eq_self.2 fun z hz => decide_eq_true ?_).symm
      obtain rfl | hz := mem_cons.1 hz
      · exact hlt
      · exact hlt.trans (ha z hz)

theorem takeMerged_eq (n : Nat) {lists : List (List α)} {merged : List α}
    (hli : ∀ l ∈ lists, l.Pairwise (· < ·)) (hme : merged.Pairwise (· < ·))
    (hm : ∀ x, x ∈ merged ↔ ∃ l ∈ lists, x ∈ l) : takeMerged n lists = merged.take n := by
  induction n generalizing lists merged with
  | zero => rfl
  | succ n ih =>
    cases merged with
    | nil =>
      have hn : (lists.filterMap List.head?).min? = none := by
        rw [min?_eq_none_iff, filterMap_eq_nil_iff]
        intro l hl
        cases l with
        | nil => rfl
        | cons x l => cases (hm x).2 ⟨_, hl, mem_cons_self⟩
      rw [takeMerged, hn]
      rfl
    | cons x merged =>
      rw [pairwise_cons] at hme
      have hle : ∀ l ∈ lists, ∀ y ∈ l, x ≤ y := by
        intro l hl y hy
        obtain rfl | hy := mem_cons.1 ((hm y).2 ⟨l, hl, hy⟩)
        · exact le_rfl
        · exact (hme.1 y hy).le
      have hmi : (lists.filterMap List.head?).min? = some x := by
        refine min?_eq_some_iff.2 ⟨?_, fun y hy => ?_⟩
        · obtain ⟨l, hl, hx⟩ := (hm x).1 mem_cons_self
          refine mem_filterMap.2 ⟨l, hl, ?_⟩
          by_contra hh
          have hk := advanced_eq (hli l hl) (hle l hl)
          rw [if_neg hh, eq_comm, filter_eq_self] at hk
          exact lt_irrefl x (of_decide_eq_true (hk x hx))
        · obtain ⟨l, hl, hh⟩ := mem_filterMap.1 hy
          exact hle l hl y (mem_of_mem_head? hh)
      have hrest : ∀ z, z ∈ merged ↔ z ∈ x :: merged ∧ x < z := by
        intro z
        rw [mem_cons]
        refine ⟨fun hz => ⟨.inr hz, hme.1 z hz⟩, ?_⟩
        rintro ⟨rfl | hz, hlt⟩
        · exact absurd hlt (lt_irrefl _)
        · exact hz
      rw [takeMerged, hmi]
      refine congrArg (x :: ·) ?_
      rw [map_congr_left fun l hl => advanced_eq (hli l hl) (hle l hl)]
      refine ih ?_ hme.2 fun z => ?_
      · exact forall_mem_map.2 fun l hl => (hli l hl).filter _
      · rw [hrest, hm]
        simp [← and_assoc]

end

theorem finite_uuid : Finite Uuid := by
  have hb : Finite UInt8 := Finite.of_injective UInt8.toFin fun _ _ => UInt8.toFin_inj.1
  have hl : Finite {l : List UInt8 | l.length = 16} := (finite_length_eq UInt8 16).to_subtype
  refine hl.of_injective (fun id : Uuid => ⟨id.bytes, id.length_bytes⟩) fun a b h => ?_
  cases b
  cases h
  rfl

namespace InsightCollection

variable (c : InsightCollection)

def recoverySets : List (Finset Uuid) :=
  [c.orderedActiveInsightIds, c.dirtyInsightIds, c.terminalPendingPrune]

def cloudRecoveryUpperBound : Option Uuid :=
  (c.recoverySets.filterMap fun ids => ids.sort.getLast?).max?

def range (after : Option Uuid) (upper : Uuid) (ids : Finset Uuid) : List Uuid :=
  (ids.filter fun id => (∀ a ∈ after, a < id) ∧ id ≤ upper).sort

def cloudRecoveryPage (after : Option Uuid) (upper : Uuid) (limit : Nat) : List Uuid :=
  if limit = 0 ∨ after.any (upper ≤ ·) then []
  else takeMerged (min limit 128) (c.recoverySets.map (range after upper))

def recoveryIds : Finset Uuid :=
  c.orderedActiveInsightIds ∪ c.dirtyInsightIds ∪ c.terminalPendingPrune

variable {c} {after : Option Uuid} {upper id : Uuid} {limit : Nat} {ids : Finset Uuid}

theorem mem_range : id ∈ range after upper ids ↔ id ∈ ids ∧ (∀ a ∈ after, a < id) ∧ id ≤ upper := by
  simp [range]

theorem range_pairwise (after : Option Uuid) (upper : Uuid) (ids : Finset Uuid) :
    (range after upper ids).Pairwise (· < ·) :=
  (Finset.sortedLT_sort _).pairwise

theorem range_eq_nil (h : after.any (upper ≤ ·) = true) : range after upper ids = [] := by
  obtain ⟨a, ha, hle⟩ := (Option.any_eq_true _ _).1 h
  refine eq_nil_iff_forall_not_mem.2 fun _ hid => ?_
  obtain ⟨-, haf, hu⟩ := mem_range.1 hid
  exact absurd (haf a ha) (not_lt.2 (hu.trans (of_decide_eq_true hle)))

theorem mem_recoveryIds : id ∈ c.recoveryIds ↔ ∃ ids ∈ c.recoverySets, id ∈ ids := by
  simp [recoveryIds, recoverySets]

theorem cloudRecoveryPage_eq : c.cloudRecoveryPage after upper limit =
    (range after upper c.recoveryIds).take (min limit 128) := by
  unfold cloudRecoveryPage
  split
  · next hs =>
    obtain rfl | hs := hs
    · simp
    rw [range_eq_nil hs, take_nil]
  · refine takeMerged_eq _ ?_ (range_pairwise _ _ _) fun _ => ?_
    · exact forall_mem_map.2 fun _ _ => range_pairwise _ _ _
    · simp only [mem_map, exists_exists_and_eq_and, mem_range, mem_recoveryIds, ← and_assoc,
        exists_and_right]

structure Paged (c : InsightCollection) (after : Option Uuid) (upper : Uuid) (limit : Nat)
    (page : List Uuid) : Prop where
  sorted : page.Pairwise (· < ·)
  tracked : ∀ id ∈ page, id ∈ c.recoveryIds ∧ (∀ a ∈ after, a < id) ∧ id ≤ upper
  later : 0 < limit → ∀ id ∈ c.recoveryIds, (∀ a ∈ after, a < id) → id ≤ upper →
    id ∈ page ∨ ∃ last ∈ page.getLast?, last < id

theorem paged (c : InsightCollection) (after : Option Uuid) (upper : Uuid) (limit : Nat) :
    Paged c after upper limit (c.cloudRecoveryPage after upper limit) := by
  have hs := range_pairwise after upper c.recoveryIds
  rw [cloudRecoveryPage_eq]
  refine ⟨hs.sublist (take_sublist _ _),
    fun id hid => mem_range.1 (mem_of_mem_take hid), fun _ id hid ha hu => ?_⟩
  have hm := mem_range.2 ⟨hid, ha, hu⟩
  have hle := length_pos_of_mem hm
  rw [← take_append_drop (min limit 128) (range after upper c.recoveryIds)] at hm hs
  refine (mem_append.1 hm).imp_right fun hd => ?_
  obtain hn | ⟨_, last, hl⟩ :=
    eq_nil_or_concat' ((range after upper c.recoveryIds).take (min limit 128))
  · have hz := congrArg List.length hn
    rw [length_take, length_nil] at hz
    omega
  · rw [hl] at hs ⊢
    exact ⟨last, getLast?_concat, (pairwise_append.1 hs).2.2 last (by simp) id hd⟩

theorem ncard_above (h : c.cloudRecoveryPage after upper limit ≠ []) :
    {id | ∀ a ∈ (c.cloudRecoveryPage after upper limit).getLast?, a < id}.ncard <
      {id : Uuid | ∀ a ∈ after, a < id}.ncard := by
  have := finite_uuid
  have hp := paged c after upper limit
  obtain ⟨_, last, hl⟩ := (eq_nil_or_concat' _).resolve_left h
  rw [hl] at hp ⊢
  rw [getLast?_concat]
  have haf := (hp.tracked last (by simp)).2.1
  refine Set.ncard_lt_ncard ⟨fun id hid a ha => (haf a ha).trans (hid last rfl), fun hs => ?_⟩
  exact lt_irrefl last (hs haf last rfl)

/-- The pages of a sweep. Call `n` finds the collection `cs n`. -/
def sweep (cs : Nat → InsightCollection) (upper : Uuid) (limit n : Nat) (after : Option Uuid) :
    List (List Uuid) :=
  if h : (cs n).cloudRecoveryPage after upper limit = [] then []
  else
    have := ncard_above h
    (cs n).cloudRecoveryPage after upper limit :: sweep cs upper limit (n + 1)
      ((cs n).cloudRecoveryPage after upper limit).getLast?
termination_by {id : Uuid | ∀ a ∈ after, a < id}.ncard

structure Swept (cs : Nat → InsightCollection) (upper : Uuid) (limit n : Nat) (after : Option Uuid)
    (pages : List (List Uuid)) : Prop where
  sorted : pages.flatten.Pairwise (· < ·)
  above : ∀ id ∈ pages.flatten, ∀ a ∈ after, a < id
  tracked : ∀ (i : Nat) page, pages[i]? = some page →
    ∀ id ∈ page, id ∈ (cs (i + n)).recoveryIds ∧ id ≤ upper
  complete : 0 < limit → ∀ id ≤ upper, (∀ a ∈ after, a < id) →
    (∀ i ≤ pages.length, id ∈ (cs (i + n)).recoveryIds) → id ∈ pages.flatten

theorem swept_sweep (cs : Nat → InsightCollection) (upper : Uuid) (limit n : Nat)
    (after : Option Uuid) : Swept cs upper limit n after (sweep cs upper limit n after) := by
  fun_induction sweep with
  | case1 n after he =>
    have hp := paged (cs n) after upper limit
    rw [he] at hp
    refine ⟨List.Pairwise.nil, by simp, by simp, fun hl id hu haf hids => ?_⟩
    have hid : id ∈ (cs n).recoveryIds := Nat.zero_add n ▸ hids 0 le_rfl
    simpa using hp.later hl id hid haf hu
  | case2 n after hne _ ih =>
    have hp := paged (cs n) after upper limit
    obtain ⟨front, last, hla⟩ := (eq_nil_or_concat' _).resolve_left hne
    rw [hla] at hp ih ⊢
    rw [getLast?_concat] at ih ⊢
    have hle : ∀ id ∈ front ++ [last], id ≤ last := fun id hid => by
      simpa using (hp.sorted.imp le_of_lt).rel_getLast hid
    refine ⟨?_, fun id hid a ha => ?_, fun i page hi id hid => ?_, fun hl id hu haf hids => ?_⟩
    · refine pairwise_append.2 ⟨hp.sorted, ih.sorted, fun a ha b hb => ?_⟩
      exact (hle a ha).trans_lt (ih.above b hb last rfl)
    · obtain hid | hid := mem_append.1 hid
      · exact (hp.tracked id hid).2.1 a ha
      · exact ((hp.tracked last (by simp)).2.1 a ha).trans (ih.above id hid last rfl)
    · cases i with
      | zero =>
        cases hi
        rw [Nat.zero_add]
        exact ⟨(hp.tracked id hid).1, (hp.tracked id hid).2.2⟩
      | succ i =>
        rw [Nat.add_assoc, Nat.add_comm 1]
        exact ih.tracked i page hi id hid
    · have hid : id ∈ (cs n).recoveryIds := Nat.zero_add n ▸ hids 0 (Nat.zero_le _)
      refine mem_append.2 ((hp.later hl id hid haf hu).imp_right ?_)
      rintro ⟨_, hl', hlt⟩
      rw [getLast?_concat] at hl'
      cases hl'
      refine ih.complete hl id hu (by rintro _ ⟨⟩; exact hlt) fun i hi => ?_
      have hid := hids (i + 1) (Nat.succ_le_succ hi)
      rwa [Nat.add_assoc, Nat.add_comm 1] at hid

theorem le_upperBound (h : c.cloudRecoveryUpperBound = some upper) (hid : id ∈ c.recoveryIds) :
    id ≤ upper := by
  obtain ⟨ids, hi, hid⟩ := mem_recoveryIds.1 hid
  rw [← Finset.mem_sort (· ≤ ·)] at hid
  have hl := (Finset.pairwise_sort ids (· ≤ ·)).rel_getLast hid
  refine hl.trans ((max?_eq_some_iff.1 h).2 _ (mem_filterMap.2 ⟨ids, hi, ?_⟩))
  exact getLast?_eq_some_getLast _

/-- A sweep over any collections ends and returns ids of the three sets in
increasing order. It returns those that are in them at each call. -/
theorem recovery_sweep (cs : Nat → InsightCollection) (upper : Uuid) (limit : Nat) :
    let pages := sweep cs upper limit 0 none
    pages.flatten.Pairwise (· < ·) ∧
    (∀ (i : Nat) page, pages[i]? = some page →
      ∀ id ∈ page, id ∈ (cs i).recoveryIds ∧ id ≤ upper) ∧
    (0 < limit → ∀ id ≤ upper, (∀ i ≤ pages.length, id ∈ (cs i).recoveryIds) →
      id ∈ pages.flatten) ∧
    ∀ c, 0 < limit → (∀ i ≤ pages.length, cs i = c) →
      pages.flatten = (c.recoveryIds.filter (· ≤ upper)).sort ∧
      (c.cloudRecoveryUpperBound = some upper → pages.flatten = c.recoveryIds.sort) := by
  intro pages
  have h : Swept cs upper limit 0 none pages := swept_sweep cs upper limit 0 none
  refine ⟨h.sorted, h.tracked, fun hli id hup => h.complete hli id hup (by simp),
    fun c hli hsa => ?_⟩
  have hso : pages.flatten = (c.recoveryIds.filter (· ≤ upper)).sort := by
    refine h.sorted.eq_of_mem_iff (Finset.sortedLT_sort _).pairwise fun id => ?_
    rw [Finset.mem_sort, Finset.mem_filter]
    constructor
    · intro hid
      obtain ⟨page, hpa, hid⟩ := mem_flatten.1 hid
      obtain ⟨i, hi⟩ := mem_iff_getElem?.1 hpa
      have hle : i ≤ pages.length := (List.getElem?_eq_some_iff.1 hi).1.le
      exact hsa i hle ▸ h.tracked i page hi id hid
    · rintro ⟨hid, hup⟩
      exact h.complete hli id hup (by simp) fun i hi => (hsa i hi).symm ▸ hid
  refine ⟨hso, fun hbo => ?_⟩
  rw [hso, Finset.filter_true_of_mem fun id hid => le_upperBound hbo hid]

end InsightCollection

end AqEngine.Insights
