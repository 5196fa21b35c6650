import Iaam.Lib.Tree
import Mathlib.Algebra.BigOperators.Group.Finset.Piecewise
import Mathlib.Algebra.BigOperators.Group.List.Basic
import Mathlib.Tactic.Abel

/-! Sums over the entries of an ordered map: what one write changes in a sum, and a sum read off a set of
keys that holds all the keys of the map. And sums over a list cut in two. -/

namespace Tree
variable {κ ν M : Type} [LinearOrder κ]

/-- The sum of a function over the entries. -/
def total [AddCommMonoid M] (m : Map κ ν) (f : κ → ν → M) : M := (m.toList.map fun entry => f entry.1 entry.2).sum

/-- The share of one key in a sum; a missing entry has none. -/
def share [AddCommMonoid M] (m : Map κ ν) (f : κ → ν → M) (k : κ) : M := (m[k]?.map (f k)).getD 0

/-- The keys that have an entry. -/
def support (m : Map κ ν) : Finset κ := m.keys.toFinset

section
variable {m : Map κ ν} {k : κ} {v : ν}

theorem mem_support : k ∈ support m ↔ k ∈ m := by
  unfold support
  rw [List.mem_toFinset, Std.ExtTreeMap.mem_keys]

theorem support_insert : support (m.insert k v) = insert k (support m) := by
  ext a
  rw [Finset.mem_insert, mem_support, mem_support, Std.ExtTreeMap.mem_insert, compare_eq_iff_eq, eq_comm]

theorem mem_support_insert_self : k ∈ support (m.insert k v) := by
  rw [support_insert]
  exact Finset.mem_insert_self k _

end

section
variable [AddCommMonoid M] {m : Map κ ν} {f : κ → ν → M} {k a : κ} {v : ν}

theorem share_of_notMem (h : k ∉ support m) : share m f k = 0 := by
  have hnone : m[k]? = none := Std.ExtTreeMap.getElem?_eq_none (fun hmem => h (mem_support.mpr hmem))
  unfold share
  rw [hnone]
  rfl

theorem share_insert : share (m.insert k v) f a = if k = a then f a v else share m f a := by
  unfold share
  rw [get_insert]
  split <;> rfl

/-- The sum over the entries is the sum of the shares of the keys. -/
theorem total_eq_sum : total m f = ∑ k ∈ support m, share m f k := by
  have hnodup : m.keys.Nodup := Std.ExtTreeMap.nodup_keys
  have hentry : m.toList.map (fun entry => f entry.1 entry.2) = m.toList.map (fun entry => share m f entry.1) := by
    refine List.map_congr_left fun entry hmem => ?_
    have hget := Std.ExtTreeMap.mem_toList_iff_getElem?_eq_some.mp hmem
    unfold share
    rw [hget]
    rfl
  unfold total support
  rw [hentry, List.sum_toFinset _ hnodup, ← Std.ExtTreeMap.map_fst_toList_eq_keys, List.map_map]
  rfl

/-- A sum may be read off any set of keys that holds all the keys of the map. -/
theorem total_eq_sum_of_subset {keys : Finset κ} (h : support m ⊆ keys) : total m f = ∑ k ∈ keys, share m f k := by
  rw [total_eq_sum]
  exact Finset.sum_subset h fun k _ hk => share_of_notMem hk

@[simp] theorem total_empty : total (∅ : Map κ ν) f = 0 := by
  rw [total_eq_sum]
  exact Finset.sum_eq_zero fun k _ => share_of_notMem (by simp [mem_support])

/-- A sum to which one key alone contributes. -/
theorem total_at (k : κ) [∀ a, Decidable (a = k)] (g : ν → M) :
    total m (fun a v => if a = k then g v else 0) = (m[k]?.map g).getD 0 := by
  rw [total_eq_sum_of_subset (Finset.subset_insert k (support m)), Finset.sum_eq_single k]
  · simp [share]
  · intro a _ ha
    unfold share
    cases m[a]? <;> simp [ha]
  · intro h
    exact absurd (Finset.mem_insert_self k _) h

/-- Two maps that read the same under a default that contributes nothing have the same sum. -/
theorem total_congr_of_default {m' : Map κ ν} {d : ν} (hd : ∀ k, f k d = 0)
    (h : ∀ k : κ, m[k]?.getD d = m'[k]?.getD d) : total m f = total m' f := by
  have hshare : ∀ (n : Map κ ν) (k : κ), share n f k = f k (n[k]?.getD d) := by
    intro n k
    unfold share
    cases n[k]? with
    | none => exact (hd k).symm
    | some v => rfl
  rw [total_eq_sum_of_subset (Finset.subset_union_left : support m ⊆ support m ∪ support m'),
    total_eq_sum_of_subset (Finset.subset_union_right : support m' ⊆ support m ∪ support m')]
  refine Finset.sum_congr rfl fun k _ => ?_
  rw [hshare, hshare, h]

end

section
variable {M : Type} [AddCommGroup M] {m : Map κ ν} {f : κ → ν → M} {k : κ} {v : ν}

/-- A write changes a sum by what it changes at its key. -/
theorem total_insert : total (m.insert k v) f = total m f + (f k v - share m f k) := by
  have hk : k ∈ insert k (support m) := Finset.mem_insert_self k _
  have hsub : support m ⊆ insert k (support m) := Finset.subset_insert k _
  rw [total_eq_sum, total_eq_sum_of_subset hsub, support_insert, ← Finset.add_sum_erase _ _ hk,
    ← Finset.add_sum_erase _ (share m f) hk, share_insert, if_pos rfl]
  have hrest : ∀ a ∈ (insert k (support m)).erase k, share (m.insert k v) f a = share m f a := fun a ha => by
    rw [share_insert, if_neg (Finset.ne_of_mem_erase ha).symm]
  rw [Finset.sum_congr rfl hrest]
  abel

end
end Tree

namespace Cut
variable {α M : Type} [AddCommMonoid M]

/-- Two parts of a list that share nothing make up a third. -/
def Splits (p q r : α → Bool) (l : List α) : Prop := ∀ x ∈ l, p x = (q x || r x) ∧ (q x && r x) = false

/-- The sum over a list cut in two is the sum of the sums over the parts. -/
theorem sum_eq_add {p q r : α → Bool} {l : List α} (h : Splits p q r l) (f : α → M) :
    ((l.filter p).map f).sum = ((l.filter q).map f).sum + ((l.filter r).map f).sum := by
  induction l with
  | nil => simp
  | cons x l ih =>
    obtain ⟨hor, hand⟩ := h x List.mem_cons_self
    have hrest := ih fun y hy => h y (List.mem_cons_of_mem _ hy)
    cases hq : q x <;> cases hr : r x <;> simp only [hq, hr] at hor hand
    · simp [hor, hq, hr, hrest]
    · simp [hor, hq, hr, hrest, add_left_comm]
    · simp [hor, hq, hr, hrest, add_assoc]
    · cases hand

/-- A sum to which only the chosen elements contribute is the sum over them. -/
theorem sum_ite_zero (p : α → Prop) [DecidablePred p] (f : α → M) (l : List α) :
    (l.map fun x => if p x then f x else 0).sum = ((l.filter fun x => p x).map f).sum := by
  rw [List.sum_map_ite]
  simp

/-- The sums over the elements of each of several keys make up the sum over the elements of all of them. -/
theorem sum_partition {κ : Type} [DecidableEq κ] {keys : List κ} (hkeys : keys.Nodup) (key : α → κ) (f : α → M)
    (l : List α) :
    (keys.map fun k => ((l.filter fun x => key x = k).map f).sum).sum = ((l.filter fun x => key x ∈ keys).map f).sum := by
  induction keys with
  | nil => simp
  | cons k keys ih =>
    obtain ⟨hk, hrest⟩ := List.nodup_cons.mp hkeys
    have hsplit : Splits (fun x => decide (key x ∈ k :: keys)) (fun x => decide (key x = k))
        (fun x => decide (key x ∈ keys)) l := by
      intro x _
      by_cases h : key x = k
      · simp [h, hk]
      · simp [h]
    rw [List.map_cons, List.sum_cons, ih hrest, sum_eq_add hsplit]

/-- The sum over what a list picks is the sum over the list, with nothing for what is not picked. -/
theorem sum_filterMap {β : Type} (f : α → Option β) (g : β → M) (l : List α) :
    (l.map fun a => ((f a).map g).getD 0).sum = ((l.filterMap f).map g).sum := by
  induction l with
  | nil => rfl
  | cons a l ih =>
    rw [List.filterMap_cons, List.map_cons, List.sum_cons, ih]
    cases f a <;> simp

end Cut

namespace Counted
variable {α κ : Type} [DecidableEq κ] {key : α → κ} {keys : List κ} {l : List α}

/-- Elements counted key by key are all counted. -/
theorem sum_length_filter_key (hnodup : keys.Nodup) (hall : ∀ x ∈ l, key x ∈ keys) :
    (keys.map fun k => (l.filter fun x => key x = k).length).sum = l.length := by
  induction l with
  | nil => simp
  | cons x l ih =>
    have hstep : ∀ k, ((x :: l).filter fun y => key y = k).length =
        (if key x = k then 1 else 0) + (l.filter fun y => key y = k).length := by
      intro k
      by_cases hk : key x = k
      · rw [List.filter_cons_of_pos (by simpa using hk), List.length_cons, if_pos hk, Nat.add_comm]
      · rw [List.filter_cons_of_neg (by simpa using hk), if_neg hk, Nat.zero_add]
    have hone : (keys.map fun k => if key x = k then 1 else 0).sum = 1 := by
      rw [← List.sum_toFinset _ hnodup, Finset.sum_ite_eq, if_pos]
      exact List.mem_toFinset.mpr (hall x List.mem_cons_self)
    simp only [hstep, List.sum_map_add, hone, List.length_cons]
    rw [ih fun y hy => hall y (List.mem_cons_of_mem _ hy), Nat.add_comm]

end Counted
