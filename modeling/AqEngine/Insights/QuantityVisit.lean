import AqEngine.Insights.RecoveryViews
import AqEngine.Lib.Worklist
import Mathlib.Order.Fin.Basic

namespace AqEngine.Insights

open Lib List

variable {K D : Type} [LinearOrder K]

inductive TreeRow.Embeds (tree : TreeRow K D) : TreeRow K D → Prop
  | self : Embeds tree tree
  | child {row child : TreeRow K D} (h : Embeds tree row) (hchild : child ∈ row.children) :
      Embeds tree child

theorem TreeRow.size_children (p : TreeRow K D → Bool) (l : List (TreeRow K D)) :
    ((l.filter p).map sizeOf).sum ≤ sizeOf l := by
  induction l with
  | nil => simp
  | cons _ l =>
    rw [filter_cons]
    split
    · simp only [map_cons, sum_cons, List.cons.sizeOf_spec]
      omega
    · simp only [List.cons.sizeOf_spec]
      omega

/-- The walks over trees of rows: which states are entered, and which children. -/
def treeWalker (admits : InsightState → Bool) (enters : K → Bool) : Walker K (TreeRow K D) where
  key row := row.id
  admits row := admits row.state
  pushes row := row.children.filter fun child => enters child.id
  smaller := by
    refine ⟨sizeOf, fun row => ?_⟩
    have hsize := TreeRow.size_children (fun child => enters child.id) row.children
    cases row
    simp only [TreeRow.mk.sizeOf_spec] at hsize ⊢
    omega

/-- The order in which hash sets are iterated. -/
structure HashOrder (K : Type) where
  list : Finset K → List K
  mem_list : ∀ s k, k ∈ list s ↔ k ∈ s

/-- What the visit reads of a collection. Every row that is added counts as
materialized from then on. -/
structure QuantityRows (K D : Type) [LinearOrder K] where
  insights : Table K (TreeRow K D)
  (activeInsightIds materializedInsightIds : Finset K)
  added : ∀ id row, insights.lookup id = some row → row.id = id ∧ id ∈ materializedInsightIds

namespace QuantityRows

variable (order : HashOrder K) (parent : D → Option K) (c : QuantityRows K D)
  (exclude : Option (TreeRow K D))

def embedded : Walker K (TreeRow K D) := treeWalker (fun _ => true) fun _ => true

/-- The ids of the excluded tree: those embedded in it, and the canonical
descendants that need not be embedded any more. -/
def excludedIds : Finset K :=
  match exclude with
  | none => ∅
  | some tree =>
    let seen := (embedded.walk ∅ [tree]).1
    grow (order.list c.activeInsightIds)
      (fun id child => (c.insights.lookup child).any (parent ·.data == some id))
      seen (order.list seen)

def seeds : List (TreeRow K D) :=
  ((order.list c.activeInsightIds).filterMap c.insights.lookup).reverse

def visitor : Walker K (TreeRow K D) := treeWalker (!·.isInactive) (· ∉ c.materializedInsightIds)

def visitQuantityInsights : List (TreeRow K D) :=
  (c.visitor.walk (c.excludedIds order parent exclude) (c.seeds order)).2

def Canonical (row : TreeRow K D) : Prop :=
  row.id ∈ c.activeInsightIds ∧ c.insights.lookup row.id = some row

/-- A child of a visited row that was never materialized. -/
def Template (visited : List (TreeRow K D)) (row : TreeRow K D) : Prop :=
  row.id ∉ c.materializedInsightIds ∧ ∃ p ∈ visited, row ∈ p.children

section

variable {order parent c exclude} {visited : List (TreeRow K D)} {row row' : TreeRow K D}

theorem mem_seeds : row ∈ c.seeds order ↔ c.Canonical row := by
  simp only [seeds, mem_reverse, mem_filterMap, order.mem_list, Canonical]
  constructor
  · rintro ⟨id, hid, hrow⟩
    obtain rfl := (c.added id row hrow).1
    exact ⟨hid, hrow⟩
  · exact fun h => ⟨row.id, h⟩

theorem offered_iff :
    c.visitor.Offered (c.seeds order) visited row ↔ c.Canonical row ∨ c.Template visited row := by
  rw [Walker.Offered, mem_seeds]
  simp only [visitor, treeWalker, mem_filter, decide_eq_true_eq, Template]
  tauto

theorem eq_of_offered (h : c.Canonical row ∨ c.Template visited row)
    (hrow : c.insights.lookup row.id = some row') : row' = row := by
  obtain h | h := h
  · exact Option.some.inj (hrow.symm.trans h.2)
  · exact absurd (c.added _ _ hrow).2 h.1

theorem canonical_visited (h : c.Canonical row) (ha : row.state.isInactive = false)
    (he : row.id ∉ c.excludedIds order parent exclude) :
    row ∈ c.visitQuantityInsights order parent exclude := by
  have hw := c.visitor.walk_walks (c.excludedIds order parent exclude) (c.seeds order)
  have hl : ∀ y : TreeRow K D, y.id = row.id → c.insights.lookup y.id = some row :=
    fun y hid => hid ▸ h.2
  obtain ⟨y, hy, hid⟩ | ⟨y, hy, hid, hr⟩ := hw.decided row (offered_iff.2 (.inl h)) he
  · rw [eq_of_offered (offered_iff.1 (hw.fresh y hy).2.2) (hl y hid)]
    exact hy
  · obtain rfl := eq_of_offered (offered_iff.1 hy) (hl y hid)
    simp [visitor, treeWalker, ha] at hr

end

section

variable {order parent c} {tree row : TreeRow K D}

theorem embedded_offered {found : List (TreeRow K D)} :
    embedded.Offered [tree] found row ↔ row = tree ∨ ∃ p ∈ found, row ∈ p.children := by
  simp [Walker.Offered, embedded, treeWalker]

theorem mem_embedded {id : K} (h : id ∈ (embedded.walk ∅ [tree]).1) :
    ∃ row, tree.Embeds row ∧ row.id = id := by
  have hf := embedded.walk_forall (P := tree.Embeds)
    (fun x hx y hy => hx.child (mem_of_mem_filter hy)) ∅ [tree] (by simp [TreeRow.Embeds.self])
  obtain h | ⟨row, hrow, hid⟩ := ((embedded.walk_walks ∅ [tree]).seen_iff id).1 h
  · cases h
  refine ⟨row, ?_, hid⟩
  obtain rfl | ⟨p, hp, hchild⟩ := embedded_offered.1 hrow
  · exact .self
  · exact (hf p hp).child hchild

theorem embeds_mem (hu : ∀ a b, tree.Embeds a → tree.Embeds b → a.id = b.id → a = b)
    (h : tree.Embeds row) : row.id ∈ (embedded.walk ∅ [tree]).1 := by
  have hw := embedded.walk_walks ∅ [tree]
  have hf := embedded.walk_forall (P := tree.Embeds)
    (fun x hx y hy => hx.child (mem_of_mem_filter hy)) ∅ [tree] (by simp [TreeRow.Embeds.self])
  refine (hw.seen_iff _).2 (.inr ⟨row, embedded_offered.2 ?_, rfl⟩)
  induction h with
  | self => exact .inl rfl
  | @child row child h hchild ih =>
    obtain ⟨y, hy, hid⟩ | ⟨y, -, -, hr⟩ :=
      hw.decided row (embedded_offered.2 ih) (Finset.notMem_empty _)
    · obtain rfl := hu y row (hf y hy) h hid
      exact .inr ⟨y, hy, hchild⟩
    · cases hr

theorem excluded_grown : Grown (order.list c.activeInsightIds)
    (fun id child => (c.insights.lookup child).any (parent ·.data == some id))
    (embedded.walk ∅ [tree]).1 (c.excludedIds order parent (some tree)) :=
  grow_grown (fun k hk => (order.mem_list _ k).1 hk)
    fun k hk hn => absurd ((order.mem_list _ k).2 hk) hn

end

/-- The visit ends for every collection. -/
theorem quantity_visit :
    let visited := c.visitQuantityInsights order parent exclude
    let excluded := c.excludedIds order parent exclude
    (visited.map (·.id)).Nodup ∧
    (∀ row ∈ visited, row.state.isInactive = false ∧ row.id ∉ excluded ∧
      (c.Canonical row ∨ c.Template visited row) ∧
      ∀ row', c.insights.lookup row.id = some row' → row' = row) ∧
    (∀ row, c.Canonical row → row.state.isInactive = false → row.id ∉ excluded → row ∈ visited) ∧
    (∀ row, c.Template visited row → row.id ∉ excluded → (∃ r ∈ visited, r.id = row.id) ∨
      ∃ r, c.Template visited r ∧ r.id = row.id ∧ r.state.isInactive = true) ∧
    (exclude = none → excluded = ∅) ∧
    ∀ tree, exclude = some tree →
      ((∀ a b, tree.Embeds a → tree.Embeds b → a.id = b.id → a = b) →
        ∀ row, tree.Embeds row → row.id ∈ excluded) ∧
      (∀ row p, c.Canonical row → parent row.data = some p → p ∈ excluded → row.id ∈ excluded) ∧
      ∀ P : K → Prop, (∀ row, tree.Embeds row → P row.id) →
        (∀ row p, c.Canonical row → parent row.data = some p → P p → P row.id) →
        ∀ id ∈ excluded, P id := by
  intro visited excluded
  have hwa := c.visitor.walk_walks excluded (c.seeds order)
  refine ⟨hwa.nodup, fun row hrow => ?_, fun row => canonical_visited, fun row h hex => ?_,
    fun hno => ?_, fun tree htr => ⟨fun hun row h => ?_, fun row p h hp hmem => ?_,
    fun P hP hstep id hid => ?_⟩⟩
  · obtain ⟨hfr, had, hof⟩ := hwa.fresh row hrow
    have hof := offered_iff.1 hof
    exact ⟨by simpa [visitor, treeWalker] using had, hfr, hof,
      fun row' => eq_of_offered hof⟩
  · obtain hvi | ⟨r, hr, hid, hre⟩ := hwa.decided row (offered_iff.2 (.inr h)) hex
    · exact .inl hvi
    have hid : r.id = row.id := hid
    obtain hr | hr := offered_iff.1 hr
    · exact absurd (hid ▸ (c.added _ _ hr.2).2) h.1
    · exact .inr ⟨r, hr, hid, by simpa [visitor, treeWalker] using hre⟩
  · subst hno
    rfl
  · subst htr
    exact excluded_grown.extends_first (embeds_mem hun h)
  · subst htr
    exact excluded_grown.closed p hmem row.id ((order.mem_list _ _).2 h.1) (by simp [h.2, hp])
  · subst htr
    refine excluded_grown.least P (fun k hk => ?_) (fun k x hk hx hli => ?_) id hid
    · obtain ⟨row, hrow, rfl⟩ := mem_embedded hk
      exact hP row hrow
    · obtain ⟨row, hrow, hpa⟩ := (Option.any_eq_true _ _).1 hli
      obtain rfl := (c.added x row hrow).1
      exact hstep row k ⟨(order.mem_list _ _).1 hx, hrow⟩ (eq_of_beq hpa) hk

def openRow : TreeRow (Fin 5) (Option (Fin 5)) := ⟨1, .filled, ∅, none, []⟩

def closedBetween : QuantityRows (Fin 5) (Option (Fin 5)) where
  insights := (((∅ : Table (Fin 5) _).insert 1 openRow).insert 2
    ⟨2, .closed, ∅, some 1, [⟨4, .new, ∅, some 2, []⟩]⟩).insert 3 ⟨3, .filled, ∅, some 2, []⟩
  activeInsightIds := {1, 3}
  materializedInsightIds := {1, 2, 3}
  added := by
    intro id row h
    obtain ⟨rfl, rfl⟩ | ⟨-, h⟩ := Table.lookup_insert_cases h
    · decide
    obtain ⟨rfl, rfl⟩ | ⟨-, h⟩ := Table.lookup_insert_cases h
    · decide
    obtain ⟨rfl, rfl⟩ | ⟨-, h⟩ := Table.lookup_insert_cases h
    · decide
    cases h

/-- Row 1 has two templates of one id, and only the first of them is active. -/
def twoCopies : TreeRow (Fin 5) (Option (Fin 5)) :=
  ⟨1, .filled, ∅, none,
    [⟨2, .new, ∅, some 1, [⟨3, .filled, ∅, none, []⟩]⟩, ⟨2, .closed, ∅, some 1, []⟩]⟩

def doubled : QuantityRows (Fin 5) (Option (Fin 5)) where
  insights := ((∅ : Table (Fin 5) _).insert 1 twoCopies).insert 3 ⟨3, .filled, ∅, none, []⟩
  activeInsightIds := {1, 3}
  materializedInsightIds := {1, 3}
  added := by
    intro id row h
    obtain ⟨rfl, rfl⟩ | ⟨-, h⟩ := Table.lookup_insert_cases h
    · decide
    obtain ⟨rfl, rfl⟩ | ⟨-, h⟩ := Table.lookup_insert_cases h
    · decide
    cases h

def finOrder : HashOrder (Fin 5) := ⟨fun s => (List.finRange 5).filter (· ∈ s), by simp⟩

/-- The template is not visited although it is active and was never materialized, and row 3
is visited although the tree of row 1 is excluded. The same is so where one copy of an id
stands before another: the active copy is passed over, and so is what it embeds. -/
theorem closed_between_visit :
    (closedBetween.visitQuantityInsights finOrder id none).map (·.id) = [3, 1] ∧
      (closedBetween.visitQuantityInsights finOrder id (some openRow)).map (·.id) = [3] ∧
      (doubled.visitQuantityInsights finOrder id none).map (·.id) = [3, 1] ∧
      (doubled.visitQuantityInsights finOrder id (some twoCopies)).map (·.id) = [3] := by
  have hse : closedBetween.seeds finOrder = [⟨3, .filled, ∅, some 2, []⟩, openRow] := by rfl
  have hse' : doubled.seeds finOrder = [⟨3, .filled, ∅, none, []⟩, twoCopies] := by rfl
  have hsee : (embedded.walk ∅ [openRow]).1 = {1} := by
    simp [embedded, treeWalker, Walker.walk, Walker.push, openRow]
  have hsee' : (embedded.walk ∅ [twoCopies]).1 = {2, 1} := by
    simp [embedded, treeWalker, Walker.walk, Walker.push, twoCopies]
  have hex : closedBetween.excludedIds finOrder id (some openRow) = {1} := by
    simp only [excludedIds, hsee]
    decide +kernel
  have hex' : doubled.excludedIds finOrder id (some twoCopies) = {2, 1} := by
    simp only [excludedIds, hsee']
    decide +kernel
  refine ⟨?_, ?_, ?_, ?_⟩
  · rw [visitQuantityInsights, hse]
    simp [excludedIds, visitor, treeWalker, Walker.walk, Walker.push, openRow,
      InsightState.isInactive]
  · rw [visitQuantityInsights, hex, hse]
    simp [visitor, treeWalker, Walker.walk, Walker.push, openRow, InsightState.isInactive]
  · rw [visitQuantityInsights, hse']
    simp [excludedIds, visitor, treeWalker, Walker.walk, Walker.push, twoCopies, doubled,
      InsightState.isInactive]
  · rw [visitQuantityInsights, hex', hse']
    simp [visitor, treeWalker, Walker.walk, Walker.push, twoCopies, InsightState.isInactive]

end QuantityRows

end AqEngine.Insights
