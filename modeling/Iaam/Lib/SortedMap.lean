import Iaam.Lib.Outcome
import Mathlib.Data.List.Sort

/-! Finite maps as lists of entries in the order of their keys. Two of them that answer every key alike are equal. -/

structure SortedMap (κ ν : Type) [LinearOrder κ] where
  entries : List (κ × ν)
  sorted : entries.Pairwise fun l r => l.1 < r.1

namespace SortedMap
variable {κ ν : Type} [LinearOrder κ]

/-- The value that a list of entries has under a key. -/
def lookup (k : κ) : List (κ × ν) → Option ν
  | [] => none
  | (k', v) :: rest => if k' = k then some v else lookup k rest

/-- The entries with a value under a key, in place of the one that was there. -/
def put (k : κ) (v : ν) : List (κ × ν) → List (κ × ν)
  | [] => [(k, v)]
  | (k', v') :: rest =>
    if k < k' then (k, v) :: (k', v') :: rest
    else if k' = k then (k, v) :: rest
    else (k', v') :: put k v rest

theorem mem_put {k : κ} {v : ν} {e : κ × ν} {l : List (κ × ν)} (h : e ∈ put k v l) : e = (k, v) ∨ e ∈ l := by
  induction l with
  | nil => exact Or.inl (List.mem_singleton.mp h)
  | cons e' rest ih =>
    rw [put] at h
    split_ifs at h with hlt heq
    · exact List.mem_cons.mp h
    · exact (List.mem_cons.mp h).imp_right (List.mem_cons_of_mem _)
    · rcases List.mem_cons.mp h with rfl | h
      · exact Or.inr List.mem_cons_self
      · exact (ih h).imp_right (List.mem_cons_of_mem _)

theorem pairwise_put {k : κ} {v : ν} {l : List (κ × ν)} (h : l.Pairwise fun l r => l.1 < r.1) :
    (put k v l).Pairwise fun l r => l.1 < r.1 := by
  induction l with
  | nil => exact List.pairwise_singleton _ _
  | cons e rest ih =>
    have hrest : ∀ e' ∈ rest, e.1 < e'.1 := fun _ => List.rel_of_pairwise_cons h
    rw [put]
    split_ifs with hlt heq
    · refine List.pairwise_cons.mpr ⟨fun e' he' => ?_, h⟩
      rcases List.mem_cons.mp he' with rfl | he'
      · exact hlt
      · exact hlt.trans (hrest e' he')
    · exact List.pairwise_cons.mpr ⟨fun e' he' => heq ▸ hrest e' he', h.of_cons⟩
    · refine List.pairwise_cons.mpr ⟨fun e' he' => ?_, ih h.of_cons⟩
      rcases mem_put he' with rfl | he'
      · exact lt_of_le_of_ne (not_lt.mp hlt) heq
      · exact hrest e' he'

theorem lookup_put (k k' : κ) (v : ν) (l : List (κ × ν)) : lookup k' (put k v l) = if k = k' then some v else lookup k' l := by
  induction l with
  | nil => rfl
  | cons e rest ih =>
    rw [put]
    by_cases hlt : k < e.1
    · rw [if_pos hlt, lookup]
    · rw [if_neg hlt]
      by_cases hkey : e.1 = k
      · subst hkey
        rw [if_pos rfl]
        by_cases hk : e.1 = k' <;> simp [lookup, hk]
      · rw [if_neg hkey, lookup, lookup, ih]
        by_cases hk : k = k'
        · rw [if_pos hk, if_pos hk, if_neg (hk ▸ hkey)]
        · rw [if_neg hk, if_neg hk]

/-- The entries that are kept, with their values changed. -/
def kept (f : κ → ν → Option ν) (l : List (κ × ν)) : List (κ × ν) :=
  l.filterMap fun e => (f e.1 e.2).map fun v => (e.1, v)

theorem pairwise_kept (f : κ → ν → Option ν) {l : List (κ × ν)} (h : l.Pairwise fun l r => l.1 < r.1) :
    (kept f l).Pairwise fun l r => l.1 < r.1 := by
  refine h.filterMap _ fun e e' hlt a ha b hb => ?_
  obtain ⟨v, -, rfl⟩ := Option.map_eq_some_iff.mp ha
  obtain ⟨v', -, rfl⟩ := Option.map_eq_some_iff.mp hb
  exact hlt

theorem lookup_none {k : κ} {l : List (κ × ν)} (h : ∀ e ∈ l, e.1 ≠ k) : lookup k l = none := by
  induction l with
  | nil => rfl
  | cons e rest ih =>
    rw [lookup, if_neg (h e List.mem_cons_self)]
    exact ih fun e' he' => h e' (List.mem_cons_of_mem _ he')

theorem lookup_kept (f : κ → ν → Option ν) (k : κ) {l : List (κ × ν)} (h : l.Pairwise fun l r => l.1 < r.1) :
    lookup k (kept f l) = (lookup k l).bind (f k) := by
  induction l with
  | nil => rfl
  | cons e rest ih =>
    have hrest : ∀ e' ∈ rest, e.1 < e'.1 := fun _ => List.rel_of_pairwise_cons h
    have ih := ih h.of_cons
    rw [kept] at ih ⊢
    rw [List.filterMap_cons, lookup]
    split_ifs with hk
    · subst hk
      cases hf : f e.1 e.2 with
      | none =>
        rw [Option.bind_some, hf]
        refine lookup_none fun e' he' => ?_
        obtain ⟨e'', he'', hmap⟩ := List.mem_filterMap.mp he'
        obtain ⟨v, -, rfl⟩ := Option.map_eq_some_iff.mp hmap
        exact (hrest e'' he'').ne'
      | some v => simp [lookup, hf]
    · cases hf : f e.1 e.2 with
      | none => exact ih
      | some v =>
        rw [Option.map_some, lookup, if_neg hk]
        exact ih

/-! ### Maps -/

def empty : SortedMap κ ν := ⟨[], List.Pairwise.nil⟩

def get? (m : SortedMap κ ν) (k : κ) : Option ν := lookup k m.entries

def insert (m : SortedMap κ ν) (k : κ) (v : ν) : SortedMap κ ν := ⟨put k v m.entries, pairwise_put m.sorted⟩

/-- The map with every value changed, and without those that are given up. -/
def filterMap (f : κ → ν → Option ν) (m : SortedMap κ ν) : SortedMap κ ν := ⟨kept f m.entries, pairwise_kept f m.sorted⟩

def map (f : ν → ν) (m : SortedMap κ ν) : SortedMap κ ν where
  entries := m.entries.map fun e => (e.1, f e.2)
  sorted := List.pairwise_map.mpr m.sorted

@[simp] theorem get?_empty (k : κ) : (empty : SortedMap κ ν).get? k = none := rfl

theorem get?_insert (m : SortedMap κ ν) (k k' : κ) (v : ν) : (m.insert k v).get? k' = if k = k' then some v else m.get? k' :=
  lookup_put k k' v m.entries

@[simp] theorem get?_insert_self (m : SortedMap κ ν) (k : κ) (v : ν) : (m.insert k v).get? k = some v := by
  rw [get?_insert, if_pos rfl]

theorem get?_insert_of_ne (m : SortedMap κ ν) {k k' : κ} (v : ν) (h : k ≠ k') : (m.insert k v).get? k' = m.get? k' := by
  rw [get?_insert, if_neg h]

@[simp] theorem get?_map (f : ν → ν) (m : SortedMap κ ν) (k : κ) : (m.map f).get? k = (m.get? k).map f := by
  obtain ⟨entries, hsorted⟩ := m
  simp only [get?, map]
  clear hsorted
  induction entries with
  | nil => rfl
  | cons e rest ih =>
    simp only [List.map_cons, lookup]
    split_ifs
    · rfl
    · exact ih

theorem get?_filterMap (f : κ → ν → Option ν) (m : SortedMap κ ν) (k : κ) : (m.filterMap f).get? k = (m.get? k).bind (f k) :=
  lookup_kept f k m.sorted

theorem mem_entries_iff {m : SortedMap κ ν} {k : κ} {v : ν} : (k, v) ∈ m.entries ↔ m.get? k = some v := by
  obtain ⟨entries, hsorted⟩ := m
  simp only [get?]
  induction entries with
  | nil => simp [lookup]
  | cons e rest ih =>
    have hrest : ∀ e' ∈ rest, e.1 < e'.1 := fun _ => List.rel_of_pairwise_cons hsorted
    rw [List.mem_cons, lookup, ih hsorted.of_cons]
    split_ifs with hk
    · subst hk
      constructor
      · rintro (heq | hlookup)
        · rw [← heq]
        · exact absurd (hrest _ ((ih hsorted.of_cons).mpr hlookup)) (lt_irrefl _)
      · intro h
        exact Or.inl (by rw [← Option.some.inj h])
    · exact or_iff_right fun heq => hk (by rw [← heq])

theorem ext {m m' : SortedMap κ ν} (h : ∀ k, m.get? k = m'.get? k) : m = m' := by
  have hnodup : ∀ m : SortedMap κ ν, m.entries.Nodup := fun m => m.sorted.imp fun hlt heq => (heq ▸ hlt).false
  have hperm : m.entries.Perm m'.entries := by
    rw [List.perm_ext_iff_of_nodup (hnodup m) (hnodup m')]
    rintro ⟨k, v⟩
    rw [mem_entries_iff, mem_entries_iff, h]
  have heq := hperm.eq_of_pairwise (fun l r _ _ hlr hrl => absurd hrl hlr.asymm) m.sorted m'.sorted
  cases m
  cases m'
  cases heq
  rfl

/-! ### Maps from lists of entries -/

def insertAll (m : SortedMap κ ν) (l : List (κ × ν)) : SortedMap κ ν := l.foldl (fun m e => m.insert e.1 e.2) m

theorem get?_insertAll_of_ne (m : SortedMap κ ν) {l : List (κ × ν)} {k : κ} (h : ∀ e ∈ l, e.1 ≠ k) :
    (m.insertAll l).get? k = m.get? k := by
  induction l generalizing m with
  | nil => rfl
  | cons e rest ih =>
    have hrest : ((m.insert e.1 e.2).insertAll rest).get? k = (m.insert e.1 e.2).get? k :=
      ih _ fun e' he' => h e' (List.mem_cons_of_mem _ he')
    exact hrest.trans (get?_insert_of_ne m e.2 (h e List.mem_cons_self))

theorem get?_insertAll (m : SortedMap κ ν) {l : List (κ × ν)} (h : l.Pairwise fun l r => l.1 < r.1) (k : κ) :
    (m.insertAll l).get? k = (lookup k l).or (m.get? k) := by
  induction l generalizing m with
  | nil => rfl
  | cons e rest ih =>
    have hrest : ∀ e' ∈ rest, e.1 < e'.1 := fun _ => List.rel_of_pairwise_cons h
    change ((m.insert e.1 e.2).insertAll rest).get? k = _
    rw [lookup]
    split_ifs with hk
    · subst hk
      rw [get?_insertAll_of_ne _ fun e' he' => (hrest e' he').ne', get?_insert_self]
      rfl
    · rw [ih _ h.of_cons, get?_insert_of_ne m e.2 hk]

/-- A map is made of its entries. -/
theorem insertAll_entries (m : SortedMap κ ν) : (empty : SortedMap κ ν).insertAll m.entries = m :=
  ext fun k => by rw [get?_insertAll _ m.sorted, get?_empty, Option.or_none, get?]

end SortedMap
