import AqEngine.Lib.OrderedTable

namespace AqEngine.Lib.Table

open List

variable {K V : Type} [LinearOrder K] {t u : Table K V} {c k : K} {v : V} {n : Nat}

def after (t : Table K V) (c : K) : List (Sigma fun _ : K => V) :=
  (t.entries.filter fun e => c < e.1).insertionSort fun a b => a.1 ≤ b.1

def page (t : Table K V) (n : Nat) (c : K) : List (Sigma fun _ : K => V) := (t.after c).take n

def lastKey (c : K) (rows : List (Sigma fun _ : K => V)) : K := (rows.getLast?.map (·.1)).getD c

def fill (u : Table K V) (rows : List (Sigma fun _ : K => V)) : Table K V :=
  rows.foldl (fun u e => u.insert e.1 e.2) u

theorem mem_after {e : Sigma fun _ : K => V} :
    e ∈ t.after c ↔ t.lookup e.1 = some e.2 ∧ c < e.1 := by
  rw [after, mem_insertionSort, mem_filter, decide_eq_true_iff]
  exact and_congr_left fun _ => AList.mem_lookup_iff.symm

theorem after_sorted (t : Table K V) (c : K) : (t.after c).Pairwise fun a b => a.1 ≤ b.1 :=
  pairwise_insertionSort _ _

theorem after_nodupKeys (t : Table K V) (c : K) : (t.after c).NodupKeys :=
  (perm_nodupKeys (perm_insertionSort _ _)).2 (t.nodupKeys.sublist filter_sublist)

theorem after_congr (h : ∀ k, t.lookup k = u.lookup k) (c : K) : t.after c = u.after c := by
  apply sorted_unique (after_nodupKeys t c) (after_sorted t c) (after_sorted u c)
  apply (perm_insertionSort _ _).trans
  apply ((entries_perm h).filter _).trans
  exact (perm_insertionSort _ _).symm

omit [LinearOrder K] in
theorem lastKey_cases (c : K) (rows : List (Sigma fun _ : K => V)) :
    rows = [] ∧ lastKey c rows = c ∨ ∃ init e, rows = init ++ [e] ∧ lastKey c rows = e.1 := by
  obtain rfl | ⟨init, e, rfl⟩ := eq_nil_or_concat' rows
  · exact .inl ⟨rfl, rfl⟩
  · exact .inr ⟨init, e, rfl, by simp [lastKey]⟩

theorem mem_page {e : Sigma fun _ : K => V} (h : e ∈ t.page n c) :
    t.lookup e.1 = some e.2 ∧ c < e.1 :=
  mem_after.1 (mem_of_mem_take h)

theorem le_lastKey (t : Table K V) (n : Nat) (c : K) : c ≤ lastKey c (t.page n c) := by
  obtain ⟨-, hl⟩ | ⟨init, e, hp, hl⟩ := lastKey_cases c (t.page n c)
  · exact hl.ge
  have he : e ∈ t.page n c := by simp [hp]
  rw [hl]
  exact (mem_page he).2.le

/-- A page leaves nothing out up to the key it ends with. -/
theorem mem_page_of_le (hk : t.lookup k = some v) (hc : c < k)
    (hle : k ≤ lastKey c (t.page n c)) : ⟨k, v⟩ ∈ t.page n c := by
  obtain ⟨-, hl⟩ | ⟨init, e, hp, hl⟩ := lastKey_cases c (t.page n c)
  · rw [hl] at hle
    exact absurd hc (not_lt.2 hle)
  rw [hl] at hle
  have hm : (⟨k, v⟩ : Sigma fun _ : K => V) ∈ t.after c := mem_after.2 ⟨hk, hc⟩
  rw [← take_append_drop n (t.after c), mem_append] at hm
  obtain ht | hd := hm
  · exact ht
  -- a row that was left for later has a key above the last of the page
  have he : e ∈ (t.after c).take n := by
    change e ∈ t.page n c
    simp [hp]
  have hs := after_sorted t c
  have hke := after_nodupKeys t c
  rw [← take_append_drop n (t.after c)] at hs hke
  have hge := (pairwise_append.1 hs).2.2 e he _ hd
  have hne : e.1 ≠ k := by
    intro heq
    have hdi := (pairwise_append.1 (nodupKeys_iff_pairwise.1 hke)).2.2
    exact hdi e he _ hd heq
  exact absurd (le_antisymm hge hle) hne

/-- A page that is not full is the last one. -/
theorem mem_page_of_short (hk : t.lookup k = some v) (hc : c < k)
    (hs : (t.page n c).length < n) : ⟨k, v⟩ ∈ t.page n c := by
  have hl : (t.after c).length ≤ n := by
    by_contra hlo
    rw [page, length_take_of_le (by omega)] at hs
    omega
  rw [page, take_of_length_le hl]
  exact mem_after.2 ⟨hk, hc⟩

theorem lookup_fill (rows : List (Sigma fun _ : K => V))
    (hr : ∀ e ∈ rows, t.lookup e.1 = some e.2) (u : Table K V) (k : K) :
    (u.fill rows).lookup k = if k ∈ rows.keys then t.lookup k else u.lookup k := by
  induction rows generalizing u with
  | nil => simp [fill]
  | cons e rows ih =>
    have hrest := ih (fun e he => hr e (mem_cons_of_mem _ he)) (u.insert e.1 e.2)
    change (fill (u.insert e.1 e.2) rows).lookup k = _
    rw [hrest]
    by_cases hin : k ∈ rows.keys
    · simp [hin]
    by_cases he : k = e.1
    · subst he
      simp [hr e mem_cons_self]
    · simp [he]

theorem mem_keys_page : k ∈ (t.page n c).keys ↔
    ∃ v, (⟨k, v⟩ : Sigma fun _ : K => V) ∈ t.page n c := by
  rw [mem_keys]

theorem fill_page_of_lookup_none (hk : t.lookup k = none) (u : Table K V) :
    (u.fill (t.page n c)).lookup k = u.lookup k := by
  rw [lookup_fill _ (fun e he => (mem_page he).1), if_neg]
  rw [mem_keys_page]
  rintro ⟨v, hv⟩
  rw [(mem_page hv).1] at hk
  cases hk

/-- Up to `c` above `b`, `u` is a copy of `t`; beyond, it has no row of its own. -/
structure CopiedTo (b c : K) (t u : Table K V) : Prop where
  same : ∀ k, b < k → k ≤ c → u.lookup k = t.lookup k
  owned : ∀ k, t.lookup k = none → u.lookup k = none

theorem CopiedTo.fill_page {b : K} (h : CopiedTo b c t u) :
    CopiedTo b (lastKey c (t.page n c)) t (u.fill (t.page n c)) where
  same k hb hle := by
    by_cases hc : k ≤ c
    · rw [lookup_fill _ (fun e he => (mem_page he).1), if_neg, h.same k hb hc]
      rw [mem_keys_page]
      rintro ⟨v, hv⟩
      exact absurd (mem_page hv).2 (not_lt.2 hc)
    · cases hk : t.lookup k with
      | none => rw [fill_page_of_lookup_none hk, h.owned k hk]
      | some v =>
        have hm := mem_page_of_le hk (not_le.1 hc) hle
        rw [lookup_fill _ (fun e he => (mem_page he).1), if_pos (mem_keys_page.2 ⟨v, hm⟩), hk]
  owned k hk := by rw [fill_page_of_lookup_none hk, h.owned k hk]

theorem CopiedTo.complete {b : K} (h : CopiedTo b c t u) (hb : ∀ k, k ≤ b → t.lookup k = none)
    (hs : (t.page n c).length < n) (k : K) : (u.fill (t.page n c)).lookup k = t.lookup k := by
  cases hk : t.lookup k with
  | none => rw [fill_page_of_lookup_none hk, h.owned k hk]
  | some v =>
    by_cases hc : k ≤ c
    · have hbk : b < k := by
        by_contra hle
        rw [hb k (not_lt.1 hle)] at hk
        cases hk
      rw [h.fill_page.same k hbk (hc.trans (le_lastKey t n c)), hk]
    · have hm := mem_page_of_short hk (not_le.1 hc) hs
      rw [lookup_fill _ (fun e he => (mem_page he).1), if_pos (mem_keys_page.2 ⟨v, hm⟩), hk]

theorem length_after_lastKey (hn : 0 < n) (hf : n ≤ (t.page n c).length) :
    (t.after (lastKey c (t.page n c))).length < (t.after c).length := by
  obtain ⟨hni, -⟩ | ⟨init, e, hp, hl⟩ := lastKey_cases c (t.page n c)
  · rw [hni, length_nil] at hf
    omega
  have he : e ∈ t.page n c := by simp [hp]
  have hm : e ∈ t.entries.filter fun e => c < e.1 :=
    (mem_insertionSort _).1 (mem_of_mem_take he)
  have hs : (t.entries.filter fun r => e.1 < r.1).Sublist (t.entries.filter fun r => c < r.1) := by
    apply monotone_filter_right
    intro r hr
    exact decide_eq_true ((mem_page he).2.trans (of_decide_eq_true hr))
  rw [hl, after, after, length_insertionSort, length_insertionSort]
  apply lt_of_le_of_ne hs.length_le
  intro hle
  rw [← hs.eq_of_length hle] at hm
  exact lt_irrefl _ (of_decide_eq_true (mem_filter.1 hm).2)

end AqEngine.Lib.Table
