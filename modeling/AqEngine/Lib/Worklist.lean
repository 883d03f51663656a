import Mathlib.Algebra.BigOperators.Group.List.Basic
import Mathlib.Algebra.Order.Ring.Nat
import Mathlib.Data.Finset.Card
import Mathlib.Data.Finset.SDiff

namespace AqEngine.Lib

open List

/-- A walk over finite values. A value whose key was seen is passed over, and
what an admitted value pushes is smaller than the value. -/
structure Walker (κ β : Type) where
  key : β → κ
  admits : β → Bool
  pushes : β → List β
  smaller : ∃ size : β → Nat, ∀ x, ((pushes x).map size).sum < size x

namespace Walker

variable {κ β : Type} (w : Walker κ β)

def push (x : β) (stack : List β) : List β := (w.pushes x).reverse ++ stack

def Offered (stack found : List β) (x : β) : Prop := x ∈ stack ∨ ∃ y ∈ found, x ∈ w.pushes y

structure Walks (seen seen' : Finset κ) (stack found : List β) : Prop where
  nodup : (found.map w.key).Nodup
  fresh : ∀ x ∈ found, w.key x ∉ seen ∧ w.admits x = true ∧ w.Offered stack found x
  seen_iff : ∀ k, k ∈ seen' ↔ k ∈ seen ∨ ∃ x, w.Offered stack found x ∧ w.key x = k
  decided : ∀ x, w.Offered stack found x → w.key x ∉ seen →
    (∃ y ∈ found, w.key y = w.key x) ∨
      ∃ y, w.Offered stack found y ∧ w.key y = w.key x ∧ w.admits y = false

variable {w} {x y : β} {stack found : List β} {seen seen' : Finset κ}

theorem offered_cons : w.Offered (x :: stack) found y ↔ y = x ∨ w.Offered stack found y := by
  simp [Offered, or_assoc]

theorem offered_found : w.Offered (x :: stack) (x :: found) y ↔
    y = x ∨ w.Offered (w.push x stack) found y := by
  simp only [Offered, push, mem_cons, mem_append, mem_reverse, exists_eq_or_imp]
  tauto

theorem Walks.passed (h : w.Walks seen seen' stack found) (hx : w.key x ∈ seen) :
    w.Walks seen seen' (x :: stack) found := by
  obtain ⟨hn, hf, hs, hd⟩ := h
  refine ⟨hn, ?_, ?_, ?_⟩ <;> simp only [offered_cons] <;> grind

variable [DecidableEq κ]

theorem Walks.refused (h : w.Walks (insert (w.key x) seen) seen' stack found)
    (ha : w.admits x = false) : w.Walks seen seen' (x :: stack) found := by
  obtain ⟨hn, hf, hs, hd⟩ := h
  refine ⟨hn, ?_, ?_, ?_⟩ <;> simp only [offered_cons] <;> grind

theorem Walks.admitted (h : w.Walks (insert (w.key x) seen) seen' (w.push x stack) found)
    (hx : w.key x ∉ seen) (ha : w.admits x = true) :
    w.Walks seen seen' (x :: stack) (x :: found) := by
  obtain ⟨hn, hf, hs, hd⟩ := h
  have hno : w.key x ∉ found.map w.key := by grind
  refine ⟨nodup_cons.2 ⟨hno, hn⟩, ?_, ?_, ?_⟩ <;> simp only [offered_found]
  · grind
  · grind
  intro y hy hk
  by_cases heq : w.key y = w.key x
  · exact .inl ⟨x, mem_cons_self, heq.symm⟩
  obtain rfl | hy := hy
  · exact absurd rfl heq
  obtain ⟨z, hz, hzy⟩ | ⟨z, hz, hzy⟩ := hd y hy (by simp [heq, hk])
  · exact .inl ⟨z, mem_cons_of_mem _ hz, hzy⟩
  · exact .inr ⟨z, .inr hz, hzy⟩

variable (w)

/-- The keys that were seen and the admitted values in their order. The top of
the stack is its head. -/
def walk (seen : Finset κ) : List β → Finset κ × List β
  | [] => (seen, [])
  | x :: stack =>
    if w.key x ∈ seen then walk seen stack
    else if w.admits x then
      let rest := walk (insert (w.key x) seen) (w.push x stack)
      (rest.1, x :: rest.2)
    else walk (insert (w.key x) seen) stack
termination_by stack => (stack.map w.smaller.choose).sum
decreasing_by
  all_goals
    have hsize := w.smaller.choose_spec x
    simp [push]
    omega

theorem walk_walks (seen : Finset κ) (stack : List β) :
    w.Walks seen (w.walk seen stack).1 stack (w.walk seen stack).2 := by
  fun_induction w.walk seen stack with
  | case1 seen => exact ⟨by simp, by simp, by simp [Offered], by simp [Offered]⟩
  | case2 seen x stack hx ih => exact ih.passed hx
  | case3 seen x stack hx ha rest ih => exact ih.admitted hx ha
  | case4 seen x stack hx ha ih => exact ih.refused (eq_false_of_ne_true ha)

theorem walk_forall {P : β → Prop} (hp : ∀ x, P x → ∀ y ∈ w.pushes x, P y)
    (seen : Finset κ) (stack : List β) (hs : ∀ x ∈ stack, P x) :
    ∀ x ∈ (w.walk seen stack).2, P x := by
  fun_induction w.walk seen stack with
  | case1 seen => simp
  | case2 seen x stack hx ih
  | case4 seen x stack hx ha ih => exact ih fun y hy => hs y (mem_cons_of_mem _ hy)
  | case3 seen x stack hx ha rest ih =>
    have hx := hs x mem_cons_self
    refine forall_mem_cons.2 ⟨hx, ih fun y hy => ?_⟩
    obtain hy | hy := mem_append.1 hy
    · exact hp x hx y (mem_reverse.1 hy)
    · exact hs y (mem_cons_of_mem _ hy)

end Walker

variable {κ : Type} [DecidableEq κ]

/-- A key that is new is seen, and its links are still to be followed. -/
def discover (s : Finset κ × List κ) (k : κ) : Finset κ × List κ :=
  if k ∈ s.1 then s else (insert k s.1, k :: s.2)

theorem discover_seen (l : List κ) (s : Finset κ × List κ) (k : κ) :
    k ∈ (l.foldl discover s).1 ↔ k ∈ s.1 ∨ k ∈ l := by
  induction l generalizing s with
  | nil => simp
  | cons x l ih =>
    rw [foldl_cons, discover]
    split <;> grind

theorem discover_ids (l : List κ) (s : Finset κ × List κ) (k : κ) :
    k ∈ (l.foldl discover s).2 ↔ k ∈ s.2 ∨ k ∉ s.1 ∧ k ∈ l := by
  induction l generalizing s with
  | nil => simp
  | cons x l ih =>
    rw [foldl_cons, discover]
    split <;> grind

theorem discover_measure {listed l : List κ} (hl : l ⊆ listed) (s : Finset κ × List κ) :
    2 * (listed.toFinset \ (l.foldl discover s).1).card + (l.foldl discover s).2.length ≤
      2 * (listed.toFinset \ s.1).card + s.2.length := by
  induction l generalizing s with
  | nil => exact le_rfl
  | cons x l ih =>
    obtain ⟨hx, hl⟩ := cons_subset.1 hl
    refine (ih hl _).trans ?_
    unfold discover
    split
    · exact le_rfl
    next hs =>
    have hm : x ∈ listed.toFinset \ s.1 := by simp [hx, hs]
    have hc := Finset.card_erase_add_one hm
    rw [← Finset.sdiff_insert] at hc
    simp only [length_cons]
    omega

def follow (listed : List κ) (links : κ → κ → Bool) (k : κ) (s : Finset κ × List κ) :
    Finset κ × List κ := (listed.filter (links k)).foldl discover s

/-- The listed keys that links lead to. `ids` are the keys whose links were not
followed yet. -/
def grow (listed : List κ) (links : κ → κ → Bool) (seen : Finset κ) : List κ → Finset κ
  | [] => seen
  | k :: ids =>
    let s := follow listed links k (seen, ids)
    grow listed links s.1 s.2
termination_by ids => 2 * (listed.toFinset \ seen).card + ids.length
decreasing_by
  have hmeasure := discover_measure (filter_subset_self (p := links k) listed) (seen, ids)
  unfold follow
  simp only [length_cons] at hmeasure ⊢
  omega

/-- The least set that holds the seen keys and is closed under links. -/
structure Grown (listed : List κ) (links : κ → κ → Bool) (first all : Finset κ) : Prop where
  extends_first : first ⊆ all
  closed : ∀ k ∈ all, ∀ x ∈ listed, links k x = true → x ∈ all
  least : ∀ P : κ → Prop, (∀ k ∈ first, P k) →
    (∀ k x, P k → x ∈ listed → links k x = true → P x) → ∀ k ∈ all, P k

theorem grow_grown {listed : List κ} {links : κ → κ → Bool} {seen : Finset κ} {ids : List κ}
    (hi : ∀ k ∈ ids, k ∈ seen)
    (hd : ∀ k ∈ seen, k ∉ ids → ∀ x ∈ listed, links k x = true → x ∈ seen) :
    Grown listed links seen (grow listed links seen ids) := by
  fun_induction grow listed links seen ids with
  | case1 seen => exact ⟨subset_rfl, fun k hk => hd k hk (by simp), fun _ hP _ => hP⟩
  | case2 seen k ids s ih =>
    have hs : ∀ x, x ∈ s.1 ↔ x ∈ seen ∨ x ∈ listed ∧ links k x = true := by
      simp [s, follow, discover_seen]
    have hw : ∀ x, x ∈ s.2 ↔ x ∈ ids ∨ x ∉ seen ∧ x ∈ listed ∧ links k x = true := by
      simp [s, follow, discover_ids]
    obtain ⟨hsu, hc, hl⟩ := ih (by grind) (by grind)
    exact ⟨by grind, hc, fun P hP hstep => hl P (by grind) hstep⟩

end AqEngine.Lib
