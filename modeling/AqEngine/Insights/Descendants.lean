import AqEngine.Insights.CollectionIndexes
import Mathlib.Data.List.Sort
import Mathlib.Logic.Relation

namespace AqEngine.Insights

open Lib List

namespace InsightCollection

variable (c : InsightCollection)

def generation (visited frontier : Finset Uuid) : List Uuid :=
  (((c.insights.entries.filter fun row => row.2.parentId.any (· ∈ frontier)).map (·.1)).filter
    (· ∉ visited)).insertionSort (· ≤ ·)

def Child (id row : Uuid) : Prop := ∃ i, c.insights.lookup row = some i ∧ i.parentId = some id

variable {c} {visited frontier : Finset Uuid} {id row a b d : Uuid}

theorem mem_generation :
    row ∈ c.generation visited frontier ↔ row ∉ visited ∧ ∃ id ∈ frontier, c.Child id row := by
  rw [generation, (perm_insertionSort _ _).mem_iff, mem_filter, decide_eq_true_eq, and_comm]
  refine and_congr_right fun _ => ?_
  simp only [mem_map, mem_filter, Option.any_eq_true, decide_eq_true_eq]
  constructor
  · rintro ⟨entry, ⟨hm, id, hp, hid⟩, rfl⟩
    exact ⟨id, hid, entry.2, AList.mem_lookup_iff.2 hm, hp⟩
  · rintro ⟨id, hid, i, hrow, hp⟩
    exact ⟨⟨row, i⟩, ⟨AList.mem_lookup_iff.1 hrow, id, hp, hid⟩, rfl⟩

theorem nodup_generation : (c.generation visited frontier).Nodup := by
  refine (perm_insertionSort _ _).nodup_iff.2 (List.Nodup.filter _ ?_)
  exact c.insights.nodupKeys.sublist filter_sublist

theorem card_unvisited (h : c.generation visited frontier ≠ []) :
    (c.insights.keys.toFinset \ (visited ∪ (c.generation visited frontier).toFinset)).card <
      (c.insights.keys.toFinset \ visited).card := by
  obtain ⟨row, hrow⟩ := exists_mem_of_ne_nil _ h
  obtain ⟨hn, id, -, i, hl, -⟩ := mem_generation.1 hrow
  refine Finset.card_lt_card ⟨Finset.sdiff_subset_sdiff le_rfl Finset.subset_union_left, ?_⟩
  intro hs
  have hk : row ∈ c.insights.keys.toFinset :=
    mem_toFinset.2 (AList.lookup_isSome.1 (Option.isSome_of_eq_some hl))
  have hleft := hs (Finset.mem_sdiff.2 ⟨hk, hn⟩)
  exact (Finset.mem_sdiff.1 hleft).2 (Finset.mem_union_right _ (mem_toFinset.2 hrow))

variable (c)

def generations (visited frontier : Finset Uuid) : List (List Uuid) :=
  if frontier = ∅ then []
  else if h : c.generation visited frontier = [] then []
  else
    have := card_unvisited h
    c.generation visited frontier :: generations
      (visited ∪ (c.generation visited frontier).toFinset) (c.generation visited frontier).toFinset
termination_by (c.insights.keys.toFinset \ visited).card

def descendantIdsForParents (parents : Finset Uuid) : List Uuid :=
  (c.generations parents parents).reverse.flatten

variable {c}

theorem Child.unique (h : c.Child a row) (h' : c.Child b row) : a = b := by
  obtain ⟨i, hi, ha⟩ := h
  obtain ⟨j, hj, hb⟩ := h'
  cases hi.symm.trans hj
  exact Option.some.inj (ha.symm.trans hb)

/-- A row is that many steps below the first given row above it. -/
inductive Depth (c : InsightCollection) (parents : Finset Uuid) : Nat → Uuid → Prop
  | given {id : Uuid} (hid : id ∈ parents) : Depth c parents 0 id
  | child {n : Nat} {id row : Uuid} (hid : Depth c parents n id) (hchild : c.Child id row)
      (hrow : row ∉ parents) : Depth c parents (n + 1) row

variable {parents : Finset Uuid} {k m n : Nat}

theorem Depth.unique (h : c.Depth parents m row) (h' : c.Depth parents n row) : m = n := by
  induction h generalizing n with
  | given hid =>
    cases h' with
    | given => rfl
    | child _ _ hrow => exact absurd hid hrow
  | child _ hchild hrow ih =>
    cases h' with
    | given hid => exact absurd hid hrow
    | child hid hchild' => rw [ih (hchild.unique hchild' ▸ hid)]

theorem Depth.exists_above (h : c.Depth parents n row) (hk : k ≤ n) :
    ∃ id, c.Depth parents k id := by
  induction h with
  | given hid =>
    cases Nat.le_zero.1 hk
    exact ⟨_, .given hid⟩
  | @child n id row hid hchild hrow ih =>
    obtain hk | rfl := Nat.le_or_eq_of_le_succ hk
    · exact ih hk
    · exact ⟨row, .child hid hchild hrow⟩

theorem Depth.descend (h : c.Depth parents m a) (hd : Relation.TransGen c.Child a d)
    (hno : ∀ row, Relation.TransGen c.Child a row → row ∉ parents) :
    ∃ n, m < n ∧ c.Depth parents n d := by
  induction hd with
  | single hchild => exact ⟨m + 1, m.lt_succ_self, .child h hchild (hno _ (.single hchild))⟩
  | tail hmid hchild ih =>
    obtain ⟨n, hn, hd⟩ := ih
    exact ⟨n + 1, hn.trans n.lt_succ_self, .child hd hchild (hno _ (.tail hmid hchild))⟩

theorem exists_depth_iff : (∃ n, c.Depth parents (n + 1) row) ↔
    row ∉ parents ∧ ∃ id ∈ parents, Relation.TransGen c.Child id row := by
  constructor
  · rintro ⟨n, h⟩
    induction n generalizing row with
    | zero =>
      obtain _ | @⟨_, id, _, hid, hchild, hrow⟩ := h
      obtain ⟨hid⟩ := hid
      exact ⟨hrow, id, hid, .single hchild⟩
    | succ n ih =>
      obtain _ | @⟨_, id, _, hid, hchild, hrow⟩ := h
      obtain ⟨-, top, htop, habove⟩ := ih hid
      exact ⟨hrow, top, htop, .tail habove hchild⟩
  · rintro ⟨hrow, id, hid, hbelow⟩
    induction hbelow with
    | single hchild => exact ⟨0, .child (.given hid) hchild hrow⟩
    | @tail mid row _ hchild ih =>
      by_cases hmid : mid ∈ parents
      · exact ⟨0, .child (.given hmid) hchild hrow⟩
      · obtain ⟨n, hn⟩ := ih hmid
        exact ⟨n + 1, .child hn hchild hrow⟩

/-- Deeper rows come first, and rows of one depth in the order of their ids. -/
def Before (c : InsightCollection) (parents : Finset Uuid) (d a : Uuid) : Prop :=
  ∀ m n, c.Depth parents m a → c.Depth parents n d → m < n ∨ m = n ∧ d < a

/-- The rows deeper than `k`, in their order. -/
structure Found (c : InsightCollection) (parents : Finset Uuid) (k : Nat) (found : List Uuid) :
    Prop where
  ordered : found.Pairwise (c.Before parents)
  mem : ∀ row, row ∈ found ↔ ∃ n, k < n ∧ c.Depth parents n row

theorem mem_generation_iff (hf : ∀ row, row ∈ frontier ↔ c.Depth parents k row)
    (hv : ∀ row, row ∈ visited ↔ ∃ n ≤ k, c.Depth parents n row) :
    row ∈ c.generation visited frontier ↔ c.Depth parents (k + 1) row := by
  rw [mem_generation]
  constructor
  · rintro ⟨hrow, id, hid, hchild⟩
    refine .child ((hf id).1 hid) hchild fun hp => hrow ((hv row).2 ⟨0, k.zero_le, .given hp⟩)
  · intro h
    refine ⟨fun hrow => ?_, ?_⟩
    · obtain ⟨n, hn, hd⟩ := (hv row).1 hrow
      cases h.unique hd
      exact absurd hn k.not_succ_le_self
    · obtain _ | @⟨_, id, _, hid, hchild, -⟩ := h
      exact ⟨id, (hf id).2 hid, hchild⟩

theorem found_nil (h : ∀ row, ¬ c.Depth parents (k + 1) row) : Found c parents k [] := by
  refine ⟨.nil, fun row => ⟨nofun, ?_⟩⟩
  rintro ⟨n, hn, hd⟩
  obtain ⟨id, hid⟩ := hd.exists_above hn
  exact absurd hid (h id)

theorem found_append {found generation : List Uuid}
    (hg : ∀ row, row ∈ generation ↔ c.Depth parents (k + 1) row)
    (hs : generation.Pairwise (· < ·)) (h : Found c parents (k + 1) found) :
    Found c parents k (found ++ generation) := by
  refine ⟨pairwise_append.2 ⟨h.ordered, ?_, fun d hd a ha m n hm hn => ?_⟩, fun row => ?_⟩
  · refine hs.imp_of_mem fun {d a} hd ha hlt m n hm hn => .inr ⟨?_, hlt⟩
    rw [hm.unique ((hg a).1 ha), hn.unique ((hg d).1 hd)]
  · obtain ⟨j, hj, hdj⟩ := (h.mem d).1 hd
    rw [hm.unique ((hg a).1 ha), hn.unique hdj]
    exact .inl hj
  · rw [mem_append, h.mem, hg]
    constructor
    · rintro (⟨n, hn, hd⟩ | hd)
      · exact ⟨n, k.lt_succ_self.trans hn, hd⟩
      · exact ⟨k + 1, k.lt_succ_self, hd⟩
    · rintro ⟨n, hn, hd⟩
      obtain hn | rfl := (Nat.succ_le_of_lt hn).lt_or_eq
      · exact .inl ⟨n, hn, hd⟩
      · exact .inr hd

theorem found_generations (hf : ∀ row, row ∈ frontier ↔ c.Depth parents k row)
    (hv : ∀ row, row ∈ visited ↔ ∃ n ≤ k, c.Depth parents n row) :
    Found c parents k (c.generations visited frontier).reverse.flatten := by
  fun_induction generations generalizing k with
  | case1 visited =>
    refine found_nil fun row h => ?_
    obtain ⟨id, hid⟩ := h.exists_above k.le_succ
    exact Finset.notMem_empty id ((hf id).2 hid)
  | case2 visited frontier _ hn =>
    refine found_nil fun row h => ?_
    have hrow := (mem_generation_iff hf hv).2 h
    rw [hn] at hrow
    cases hrow
  | case3 visited frontier _ _ _ ih =>
    have hg : ∀ row, row ∈ c.generation visited frontier ↔ c.Depth parents (k + 1) row :=
      fun _ => mem_generation_iff hf hv
    rw [reverse_cons, flatten_append, flatten_singleton]
    refine found_append hg ?_ (ih (fun row => mem_toFinset.trans (hg row)) fun row => ?_)
    · exact (pairwise_insertionSort (· ≤ ·) _).imp₂ (fun _ _ hle hne => lt_of_le_of_ne hle hne)
        nodup_generation
    · rw [Finset.mem_union, mem_toFinset, hg, hv]
      constructor
      · rintro (⟨n, hn, hd⟩ | hd)
        · exact ⟨n, hn.trans k.le_succ, hd⟩
        · exact ⟨k + 1, le_rfl, hd⟩
      · rintro ⟨n, hn, hd⟩
        obtain hn | rfl := Nat.le_or_eq_of_le_succ hn
        · exact .inl ⟨n, hn, hd⟩
        · exact .inr hd

theorem pair_sublist_or {l : List Uuid} (ha : a ∈ l) (hd : d ∈ l) :
    d = a ∨ [d, a].Sublist l ∨ [a, d].Sublist l := by
  have hl : l.Pairwise fun d a => d = a ∨ [d, a].Sublist l ∨ [a, d].Sublist l :=
    pairwise_iff_forall_sublist.2 fun h => .inr (.inl h)
  refine hl.forall_of_forall_of_flip (fun _ _ => .inl rfl) ?_ hd ha
  exact pairwise_iff_forall_sublist.2 fun h => .inr (.inr h)

theorem deeper_asymm (h : m < n ∨ m = n ∧ d < a) : ¬ (n < m ∨ n = m ∧ a < d) := by
  rintro (h' | ⟨heq, hlt⟩)
  · omega
  · exact lt_asymm hlt (h.resolve_left (by omega)).2

theorem Found.nodup {found : List Uuid} (hf : Found c parents k found) : found.Nodup := by
  refine hf.ordered.imp_of_mem fun {d a} hd _ hlt heq => ?_
  obtain ⟨n, -, hn⟩ := (hf.mem d).1 hd
  subst heq
  exact deeper_asymm (hlt n n hn hn) (hlt n n hn hn)

theorem Found.sublist_iff {found : List Uuid} (hf : Found c parents k found) (ha : a ∈ found)
    (hd : d ∈ found) : ∃ m n, c.Depth parents m a ∧ c.Depth parents n d ∧
      ([d, a].Sublist found ↔ m < n ∨ m = n ∧ d < a) := by
  obtain ⟨m, -, hm⟩ := (hf.mem a).1 ha
  obtain ⟨n, -, hn⟩ := (hf.mem d).1 hd
  have hord : ∀ {d a}, [d, a].Sublist found → c.Before parents d a :=
    pairwise_iff_forall_sublist.1 hf.ordered
  refine ⟨m, n, hm, hn, fun hs => hord hs m n hm hn, fun hlt => ?_⟩
  obtain rfl | hs | hs := pair_sublist_or ha hd
  · cases hm.unique hn
    exact absurd hlt (deeper_asymm hlt)
  · exact hs
  · exact absurd (hord hs n m hn hm) (deeper_asymm hlt)

theorem found_descendants (c : InsightCollection) (parents : Finset Uuid) :
    Found c parents 0 (c.descendantIdsForParents parents) := by
  refine found_generations (fun row => ⟨.given, ?_⟩) fun row =>
    ⟨fun h => ⟨0, le_rfl, .given h⟩, ?_⟩
  · rintro ⟨hrow⟩
    exact hrow
  · rintro ⟨n, hn, hd⟩
    cases Nat.le_zero.1 hn
    obtain ⟨hrow⟩ := hd
    exact hrow

/-- The present rows below the given ones are returned, each once. Of two of
them the first is the one more steps below the given row above it, or the one
with the smaller id. So a returned row with no given row below it comes after
all rows that are below it. -/
theorem descendants_returned (c : InsightCollection) (parents : Finset Uuid) :
    (c.descendantIdsForParents parents).Nodup ∧
    (∀ row, row ∈ c.descendantIdsForParents parents ↔
      row ∉ parents ∧ ∃ id ∈ parents, Relation.TransGen c.Child id row) ∧
    (∀ a ∈ c.descendantIdsForParents parents, ∀ d ∈ c.descendantIdsForParents parents,
      ∃ m n, c.Depth parents m a ∧ c.Depth parents n d ∧
        ([d, a].Sublist (c.descendantIdsForParents parents) ↔ m < n ∨ m = n ∧ d < a)) ∧
    ∀ a ∈ c.descendantIdsForParents parents,
      (∀ id ∈ parents, ¬ Relation.TransGen c.Child a id) →
      ∀ d, Relation.TransGen c.Child a d → [d, a].Sublist (c.descendantIdsForParents parents) := by
  have hf := found_descendants c parents
  refine ⟨hf.nodup, fun row => ?_, fun a ha d hd => hf.sublist_iff ha hd,
    fun a ha hout d hbelow => ?_⟩
  · rw [hf.mem, ← exists_depth_iff]
    exact ⟨fun ⟨n, hn, hd⟩ => ⟨n - 1, by rwa [Nat.sub_add_cancel hn]⟩,
      fun ⟨n, hd⟩ => ⟨n + 1, n.succ_pos, hd⟩⟩
  · obtain ⟨j, -, hj⟩ := (hf.mem a).1 ha
    obtain ⟨k, hk, hd⟩ := hj.descend hbelow fun row hrow hp => hout row hp hrow
    obtain ⟨m, n, hm, hn, hiff⟩ := hf.sublist_iff ha ((hf.mem d).2 ⟨k, j.zero_le.trans_lt hk, hd⟩)
    rw [hiff, hm.unique hj, hn.unique hd]
    exact .inl hk

def familyId (n : UInt8) : Uuid := ⟨List.replicate 16 n, rfl⟩

def familyRow (n parent : UInt8) : Insight :=
  { insightId := familyId n, symbol := "X", parentId := some (familyId parent) }

def family : InsightCollection where
  insights := (((∅ : Table Uuid Insight).insert (familyId 1) (familyRow 1 0)).insert (familyId 2)
    (familyRow 2 1)).insert (familyId 3) (familyRow 3 2)

/-- When a given row is below a returned one, the search from it starts over:
a row can come before one that is below it. -/
theorem ancestor_before_descendant :
    family.descendantIdsForParents {familyId 0, familyId 2} = [familyId 1, familyId 3] ∧
      Relation.TransGen family.Child (familyId 1) (familyId 3) ∧
      ∀ row, ¬ Relation.TransGen family.Child row row := by
  have hfi : family.generation {familyId 0, familyId 2} {familyId 0, familyId 2} =
      [familyId 1, familyId 3] := by decide +kernel
  have hla : family.generation ({familyId 0, familyId 2} ∪ [familyId 1, familyId 3].toFinset)
      [familyId 1, familyId 3].toFinset = [] := by decide +kernel
  refine ⟨?_, ?_, ?_⟩
  · rw [descendantIdsForParents, generations, if_neg (by decide), dif_neg (by simp [hfi])]
    simp only [hfi]
    rw [generations, if_neg (by decide), dif_pos hla]
    rfl
  · exact .tail (b := familyId 2) (.single ⟨familyRow 2 1, by decide, rfl⟩)
      ⟨familyRow 3 2, by decide, rfl⟩
  · have hlt : ∀ a b, family.Child a b → a < b := by
      rintro a b ⟨i, hi, hpa⟩
      have hmem := AList.mem_lookup_iff.1 hi
      change _ ∈ [_, _, _] at hmem
      simp only [mem_cons, not_mem_nil, or_false] at hmem
      obtain h | h | h := hmem
      all_goals
        cases h
        cases hpa
        decide
    intro row hbe
    have hse : ∀ {row' : Uuid}, Relation.TransGen family.Child row row' → row < row' := fun h =>
      Relation.TransGen.trans_induction_on h (hlt _ _) fun _ _ => lt_trans
    exact lt_irrefl row (hse hbe)

end InsightCollection

end AqEngine.Insights
