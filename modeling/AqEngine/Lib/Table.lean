import Mathlib.Data.List.AList

namespace AqEngine.Lib

open List AList

/-- A table with one row for each key. -/
abbrev Table (K V : Type) := AList (fun _ : K => V)

namespace Table

variable {K V : Type} [DecidableEq K] {t u w : Table K V} {k l : K} {v : V}

/-- An update of the row with key `k`, where `f` is defined on the rows that
it applies to. There is no result when no row is changed. -/
def update (t : Table K V) (k : K) (f : V → Option V) : Option (Table K V) :=
  ((t.lookup k).bind f).map (t.insert k ·)

theorem update_eq_some {f : V → Option V} (h : t.update k f = some u) :
    ∃ v v', t.lookup k = some v ∧ f v = some v' ∧ u = t.insert k v' := by
  obtain ⟨v', hv, rfl⟩ := Option.map_eq_some_iff.1 h
  obtain ⟨v, hk, hf⟩ := Option.bind_eq_some_iff.1 hv
  exact ⟨v, v', hk, hf, rfl⟩

theorem update_eq_none {f : V → Option V} (hk : t.lookup k = some v) (hf : f v = none) :
    t.update k f = none := by
  simp [update, hk, hf]

theorem of_mem_filter {p : (Sigma fun _ : K => V) → Bool}
    (hk : k ∈ (t.entries.filter p).map (·.1)) (hv : t.lookup k = some v) : p ⟨k, v⟩ = true := by
  obtain ⟨entry, he, rfl⟩ := mem_map.1 hk
  obtain ⟨hm, hp⟩ := mem_filter.1 he
  rw [mem_lookup_iff.2 hm] at hv
  cases hv
  exact hp

theorem lookup_insert_cases {v' : V} (h : AList.lookup l (t.insert k v) = some v') :
    (l = k ∧ v' = v) ∨ (l ≠ k ∧ t.lookup l = some v') := by
  by_cases hl : l = k
  · subst hl
    rw [lookup_insert] at h
    exact .inl ⟨rfl, (Option.some.inj h).symm⟩
  rw [lookup_insert_ne hl] at h
  exact .inr ⟨hl, h⟩

def modify (t : Table K V) (k : K) (f : V → V) : Table K V :=
  match t.lookup k with
  | none => t
  | some v => t.insert k (f v)

theorem lookup_modify (t : Table K V) (k l : K) (f : V → V) :
    AList.lookup l (t.modify k f) = if l = k then (t.lookup l).map f else t.lookup l := by
  unfold modify
  by_cases hl : l = k
  · subst hl
    rw [if_pos rfl]
    cases hv : t.lookup l with
    | none => exact hv
    | some v => exact lookup_insert t
  · rw [if_neg hl]
    cases t.lookup k with
    | none => rfl
    | some v => exact lookup_insert_ne hl

def mapRows (t : Table K V) (f : V → V) : Table K V where
  entries := t.entries.map fun e => ⟨e.1, f e.2⟩
  nodupKeys := by
    have hkeys : (t.entries.map fun e => (⟨e.1, f e.2⟩ : Sigma fun _ : K => V)).keys =
      t.entries.keys :=
      map₂_keys (fun _ => f) t.entries
    rw [List.NodupKeys, hkeys]
    exact t.nodupKeys

theorem lookup_mapRows (t : Table K V) (f : V → V) (k : K) :
    (t.mapRows f).lookup k = (t.lookup k).map f :=
  dlookup_map₂ (f := fun _ => f) k

def mapKeyed (t : Table K V) (f : K → V → V) : Table K V where
  entries := t.entries.map fun e => ⟨e.1, f e.1 e.2⟩
  nodupKeys := by
    have hkeys : (t.entries.map fun e =>
        (⟨e.1, f e.1 e.2⟩ : Sigma fun _ : K => V)).keys = t.entries.keys :=
      map₂_keys f t.entries
    rw [List.NodupKeys, hkeys]
    exact t.nodupKeys

theorem lookup_mapKeyed (t : Table K V) (f : K → V → V) (k : K) :
    (t.mapKeyed f).lookup k = (t.lookup k).map (f k) :=
  dlookup_map₂ (f := f) k

def retain (t : Table K V) (keep : K → Bool) : Table K V where
  entries := t.entries.filter fun e => keep e.1
  nodupKeys := t.nodupKeys.sublist filter_sublist

theorem lookup_retain (t : Table K V) (keep : K → Bool) (k : K) :
    (t.retain keep).lookup k = if keep k = true then t.lookup k else none := by
  change (t.entries.filter fun e => keep e.1).dlookup k =
    if keep k = true then t.entries.dlookup k else none
  induction t.entries with
  | nil => simp
  | cons e _ ih =>
    obtain ⟨l, v⟩ := e
    by_cases hl : k = l
    · subst hl
      cases hk : keep k with
      | true => simp [hk]
      | false => simp [hk, ih]
    · have hne : ∀ es : List (Sigma fun _ : K => V), List.dlookup k (⟨l, v⟩ :: es) =
          List.dlookup k es := fun es => dlookup_cons_ne es ⟨l, v⟩ hl
      cases hk : keep l with
      | true => rw [filter_cons_of_pos (by exact hk), hne, hne, ih]
      | false => rw [filter_cons_of_neg (by simp [hk]), hne, ih]

/-- From one table to a later one: no row is lost, each row is related to
its later value by `R`, and each row that was added satisfies `N`. -/
structure Evolves (N : K → V → Prop) (R : K → V → V → Prop) (t u : Table K V) : Prop where
  kept : ∀ k v, t.lookup k = some v → ∃ v', u.lookup k = some v' ∧ R k v v'
  added : ∀ k v, t.lookup k = none → u.lookup k = some v → N k v

variable {N : K → V → Prop} {R : K → V → V → Prop}

theorem Evolves.refl (hR : ∀ k v, R k v v) (t : Table K V) : Evolves N R t t where
  kept k v h := ⟨v, h, hR k v⟩
  added k v hn hs := by
    rw [hn] at hs
    cases hs

theorem Evolves.trans (hR : ∀ k a b c, R k a b → R k b c → R k a c)
    (hN : ∀ k a b, N k a → R k a b → N k b) (h : Evolves N R t u) (h' : Evolves N R u w) :
    Evolves N R t w where
  kept k v hk := by
    obtain ⟨v', hu, hv⟩ := h.kept k v hk
    obtain ⟨v'', hw, hv'⟩ := h'.kept k v' hu
    exact ⟨v'', hw, hR k v v' v'' hv hv'⟩
  added k v hn hs := by
    cases hu : u.lookup k with
    | none => exact h'.added k v hu hs
    | some v' =>
      obtain ⟨v'', hw, hv'⟩ := h'.kept k v' hu
      rw [hs] at hw
      cases hw
      exact hN k v' v (h.added k v' hn hu) hv'

theorem Evolves.insert (hR : ∀ k v, R k v v) (ha : t.lookup k = none → N k v)
    (hk : ∀ v', t.lookup k = some v' → R k v' v) : Evolves N R t (t.insert k v) where
  kept l v' hl := by
    by_cases h : l = k
    · subst h
      exact ⟨v, lookup_insert t, hk v' hl⟩
    · exact ⟨v', by rw [lookup_insert_ne h, hl], hR l v'⟩
  added l v' hn hs := by
    rcases lookup_insert_cases hs with ⟨rfl, rfl⟩ | ⟨-, h⟩
    · exact ha hn
    rw [hn] at h
    cases h

end Table

end AqEngine.Lib
