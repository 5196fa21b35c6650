import Mathlib.Data.List.Nodup
import Mathlib.Data.Prod.Lex
import Mathlib.Order.Compare
import Mathlib.Tactic.Common

/-! Ordered maps and sets over linearly ordered keys: the trees of `Std`, which are equal as soon as
their entries are, with their lookups stated by equality of keys. -/

namespace Tree

/-- Comparison of a linear order decides equality. -/
instance (priority := low) lawfulEqOrd {κ : Type} [LinearOrder κ] : Std.LawfulEqOrd κ where
  eq_of_compare h := compare_eq_iff_eq.mp h

/-- The order of the keys, under a name of its own. -/
instance transCmp {κ : Type} [LinearOrder κ] : Std.TransCmp (compare : κ → κ → Ordering) := inferInstance

/-- A map with ordered keys. -/
abbrev Map (κ ν : Type) [LinearOrder κ] := Std.ExtTreeMap κ ν compare

/-- A set of ordered elements. -/
abbrev Set (κ : Type) [LinearOrder κ] := Std.ExtTreeSet κ compare

section
variable {κ ν : Type} [LinearOrder κ] {m : Map κ ν} {s : Set κ} {a k : κ} {v : ν}

theorem get_insert : (m.insert k v)[a]? = if k = a then some v else m[a]? := by
  rw [Std.ExtTreeMap.getElem?_insert]
  simp only [compare_eq_iff_eq]

@[simp] theorem get_insert_self : (m.insert k v)[k]? = some v := Std.ExtTreeMap.getElem?_insert_self

theorem get_insert_of_ne (h : k ≠ a) : (m.insert k v)[a]? = m[a]? := by
  rw [get_insert]
  simp [h]

theorem insert_of_get (h : m[k]? = some v) : m.insert k v = m := by
  refine Std.ExtTreeMap.ext_getElem? fun a => ?_
  rw [get_insert]
  split
  · next e => rw [← e, h]
  · rfl

/-- What is read off an entry, when the key has one. -/
theorem map_get {β : Type} (f : ν → β) (d : ν) :
    m[k]?.map f = if k ∈ m then some (f (m[k]?.getD d)) else none := by
  cases hget : m[k]? with
  | none =>
    have hnot : k ∉ m := fun hin => by simp [Std.ExtTreeMap.mem_iff_isSome_getElem?, hget] at hin
    rw [if_neg hnot]
    rfl
  | some v =>
    have hin : k ∈ m := Std.ExtTreeMap.mem_iff_isSome_getElem?.mpr (by rw [hget]; rfl)
    rw [if_pos hin]
    rfl

/-- Writing what a list gives, entry by entry, leaves at each key what its entries there agree on. -/
theorem get_foldl_insert {α : Type} (key : α → κ) (value : α → Option ν) {l : List α}
    (hagree : ∀ x ∈ l, ∀ y ∈ l, key x = key y → value x = value y) {m : Map κ ν} {a : κ} :
    (l.foldl (fun m x => (value x).elim m (m.insert (key x))) m)[a]? =
      ((l.find? fun x => key x = a).bind value).or m[a]? := by
  induction l generalizing m with
  | nil => simp
  | cons x l ih =>
    have hrest : ∀ y ∈ l, ∀ z ∈ l, key y = key z → value y = value z := fun y hy z hz =>
      hagree y (List.mem_cons_of_mem _ hy) z (List.mem_cons_of_mem _ hz)
    rw [List.foldl_cons, ih hrest, List.find?_cons]
    by_cases hx : key x = a
    · have hfound : ((l.find? fun x => key x = a).bind value).or (value x) = value x := by
        cases hf : l.find? fun x => key x = a with
        | none => simp
        | some y =>
          have hy : key y = a := by simpa using List.find?_some hf
          have hvalue : value x = value y :=
            hagree x List.mem_cons_self y (List.mem_cons_of_mem _ (List.mem_of_find?_eq_some hf)) (hx.trans hy.symm)
          rw [hvalue, Option.bind_some, Option.or_self]
      cases hv : value x with
      | none =>
        rw [hv, Option.or_none] at hfound
        simp [hx, hv, hfound]
      | some v =>
        rw [hv] at hfound
        simp only [hx, decide_true, Option.bind_some, hv, Option.some_or, Option.elim_some, get_insert_self]
        exact hfound
    · cases hv : value x with
      | none => simp [hx]
      | some v => simp [hx, get_insert_of_ne hx]

theorem find_toList : m.toList.find? (fun entry => entry.1 = k) = m[k]?.map fun v => (k, v) := by
  cases hget : m[k]? with
  | none =>
    rw [Option.map_none, List.find?_eq_none]
    rintro ⟨k', v⟩ hentry hkey
    cases (of_decide_eq_true hkey : k' = k)
    rw [Std.ExtTreeMap.mem_toList_iff_getElem?_eq_some.mp hentry] at hget
    cases hget
  | some v =>
    have hin : (k, v) ∈ m.toList := Std.ExtTreeMap.mem_toList_iff_getElem?_eq_some.mpr hget
    obtain ⟨⟨k', v'⟩, hfind⟩ := Option.isSome_iff_exists.mp
      (List.find?_isSome.mpr ⟨(k, v), hin, by simp⟩ : (m.toList.find? fun entry => entry.1 = k).isSome)
    have hkey : k' = k := by simpa using List.find?_some hfind
    subst hkey
    have hvalue := Std.ExtTreeMap.mem_toList_iff_getElem?_eq_some.mp (List.mem_of_find?_eq_some hfind)
    rw [hget] at hvalue
    cases hvalue
    exact hfind

theorem get_erase : (m.erase k)[a]? = if k = a then none else m[a]? := by
  rw [Std.ExtTreeMap.getElem?_erase]
  simp only [compare_eq_iff_eq]

theorem nodup_keys : (m.toList.map Prod.fst).Nodup := by
  rw [Std.ExtTreeMap.map_fst_toList_eq_keys]
  exact Std.ExtTreeMap.nodup_keys

theorem filter_toList [DecidableEq κ] : m.toList.filter (fun entry => entry.1 = k) = m[k]?.toList.map fun v => (k, v) := by
  have hnodup : (m.toList.filter fun entry => entry.1 = k).Nodup := (List.Nodup.of_map _ nodup_keys).filter _
  have hmem : ∀ entry, entry ∈ m.toList.filter (fun entry => entry.1 = k) ↔ entry.1 = k ∧ m[k]? = some entry.2 := by
    rintro ⟨k', v⟩
    rw [List.mem_filter, Std.ExtTreeMap.mem_toList_iff_getElem?_eq_some, and_comm, decide_eq_true_eq]
    exact and_congr_right fun h => by rw [show k' = k from h]
  cases hget : m[k]? with
  | none =>
    refine List.eq_nil_iff_forall_not_mem.mpr fun entry hentry => ?_
    rw [hmem, hget] at hentry
    cases hentry.2
  | some v =>
    refine List.perm_singleton.mp ((List.perm_ext_iff_of_nodup hnodup (List.nodup_singleton _)).mpr fun entry => ?_)
    rw [hmem, hget, List.mem_singleton, Prod.ext_iff]
    exact and_congr_right fun _ => ⟨fun h => (Option.some.inj h).symm, fun h => congrArg some h.symm⟩

/-- Maps that agree on some keys list the entries there alike. -/
theorem filter_toList_congr {m' : Map κ ν} (p : κ → Bool) (h : ∀ k, p k = true → m[k]? = m'[k]?) :
    m.toList.filter (fun entry => p entry.1) = m'.toList.filter fun entry => p entry.1 := by
  have hfilter : m.filter (fun k _ => p k) = m'.filter fun k _ => p k := by
    refine Std.ExtTreeMap.ext_getElem? fun k => ?_
    rw [Std.ExtTreeMap.getElem?_filter', Std.ExtTreeMap.getElem?_filter']
    cases hp : p k with
    | true => rw [h k hp]
    | false => simp
  have hlist := congrArg Std.ExtTreeMap.toList hfilter
  rwa [Std.ExtTreeMap.toList_filter, Std.ExtTreeMap.toList_filter] at hlist

/-- Copying the entries of some keys under other names loses nothing, when the names tell the keys apart. -/
theorem get_copy {κ' : Type} [LinearOrder κ'] (p : κ → Bool) (name : κ → κ')
    (hinj : ∀ k k', p k = true → p k' = true → name k = name k' → k = k') (hk : p k = true) :
    ((m.toList.filter fun entry => p entry.1).foldl (fun into entry => into.insert (name entry.1) entry.2)
      (∅ : Map κ' ν))[name k]? = m[k]? := by
  have hmem : ∀ {entry : κ × ν}, entry ∈ m.toList.filter (fun entry => p entry.1) →
      m[entry.1]? = some entry.2 ∧ p entry.1 = true := fun hentry => by
    obtain ⟨hin, hp⟩ := List.mem_filter.mp hentry
    exact ⟨Std.ExtTreeMap.mem_toList_iff_getElem?_eq_some.mp hin, hp⟩
  have hagree : ∀ x ∈ m.toList.filter (fun entry => p entry.1), ∀ y ∈ m.toList.filter (fun entry => p entry.1),
      name x.1 = name y.1 → some x.2 = some y.2 := fun x hx y hy hname => by
    rw [← (hmem hx).1, ← (hmem hy).1, hinj _ _ (hmem hx).2 (hmem hy).2 hname]
  refine (get_foldl_insert (fun entry : κ × ν => name entry.1) (fun entry => some entry.2) hagree).trans ?_
  cases hget : m[k]? with
  | none =>
    have hnone : (m.toList.filter fun entry => p entry.1).find? (fun entry => name entry.1 = name k) = none := by
      rw [List.find?_eq_none]
      intro entry hentry hname
      have hkey := hinj _ _ (hmem hentry).2 hk (of_decide_eq_true hname)
      rw [← hkey, (hmem hentry).1] at hget
      cases hget
    simp [hnone]
  | some v =>
    have hin : (k, v) ∈ m.toList.filter fun entry => p entry.1 :=
      List.mem_filter.mpr ⟨Std.ExtTreeMap.mem_toList_iff_getElem?_eq_some.mpr hget, hk⟩
    obtain ⟨entry, hfind⟩ := Option.isSome_iff_exists.mp
      (List.find?_isSome.mpr ⟨(k, v), hin, by simp⟩ :
        ((m.toList.filter fun entry => p entry.1).find? fun entry => name entry.1 = name k).isSome)
    have hname : name entry.1 = name k := by simpa using List.find?_some hfind
    have hvalue := hagree entry (List.mem_of_find?_eq_some hfind) (k, v) hin hname
    rw [hfind, Option.bind_some, hvalue, Option.some_or]

theorem mem_insert_set : a ∈ s.insert k ↔ k = a ∨ a ∈ s := by
  rw [Std.ExtTreeSet.mem_insert, compare_eq_iff_eq]

theorem nodup_toList : s.toList.Nodup :=
  Std.ExtTreeSet.distinct_toList.imp fun h e => h (compare_eq_iff_eq.mpr e)

theorem mem_foldl_insert_set (l : List κ) : a ∈ l.foldl (fun s k => s.insert k) s ↔ a ∈ s ∨ a ∈ l := by
  induction l generalizing s with
  | nil => simp
  | cons k l ih =>
    rw [List.foldl_cons, ih, mem_insert_set, List.mem_cons]
    constructor
    · rintro ((rfl | h) | h)
      · exact .inr (.inl rfl)
      · exact .inl h
      · exact .inr (.inr h)
    · rintro (h | rfl | h)
      · exact .inl (.inr h)
      · exact .inl (.inl rfl)
      · exact .inr h

end
end Tree
