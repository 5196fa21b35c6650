import Mathlib.Data.List.Basic
import Mathlib.Data.List.MinMax
import Mathlib.Data.List.Nodup
import Mathlib.Data.Prod.Lex
import Mathlib.Order.WithBot
import Mathlib.Tactic.Ring

/-! Searches in a list.

The partition point of a list is the number of elements that satisfy a predicate, when those that do come
before those that do not. A binary search finds it with a logarithmic number of probes, and promises
nothing about a list that is not split that way. The greatest element by a key is there unless the list is
empty, and it is determined when no two elements share a key. The first element that passes a test is any that
does, when only one can. What is kept of a list by one key after another is kept by the keys as words are ordered.
And what a search passes over may be put into the list anywhere. -/

namespace Search
variable {α : Type}

/-- What a partition-point search promises. Nothing is said of a list whose elements are not split. -/
def IsPartitionPoint (search : (α → Bool) → List α → Nat) : Prop :=
  ∀ (p : α → Bool) (a b : List α), (∀ x ∈ a, p x = true) → (∀ x ∈ b, p x = false) →
    search p (a ++ b) = a.length

/-- Narrows `size` candidates from `base` on to one. -/
def narrow (p : α → Bool) (l : List α) : Nat → Nat → Nat → Nat
  | 0, base, _ => base
  | fuel + 1, base, size =>
    if size ≤ 1 then base
    else narrow p l fuel (if (l[base + size / 2]?).any p then base + size / 2 else base) (size - size / 2)

/-- Binary search for the partition point. -/
def partitionPoint (p : α → Bool) (l : List α) : Nat :=
  let base := narrow p l l.length 0 l.length
  if (l[base]?).any p then base + 1 else base

section
variable {p : α → Bool} {a b : List α}

theorem probe_lt (ha : ∀ x ∈ a, p x = true) {i : Nat} (hi : i < a.length) : ((a ++ b)[i]?).any p = true := by
  rw [List.getElem?_append_left hi, List.getElem?_eq_getElem hi]
  exact ha _ (List.getElem_mem hi)

theorem probe_ge (hb : ∀ x ∈ b, p x = false) {i : Nat} (hi : a.length ≤ i) : ((a ++ b)[i]?).any p = false := by
  rw [List.getElem?_append_right hi]
  cases h : b[i - a.length]? with
  | none => rfl
  | some x => exact hb x (List.mem_of_getElem? h)

/-- The partition point stays between `base` and `base + size`, and only the first candidate may itself
    lie beyond it. -/
theorem narrow_spec (ha : ∀ x ∈ a, p x = true) (hb : ∀ x ∈ b, p x = false) :
    ∀ (fuel base size : Nat), size ≤ fuel + 1 → (base < a.length ∨ base = 0) → a.length ≤ base + size →
      (narrow p (a ++ b) fuel base size < a.length ∨ narrow p (a ++ b) fuel base size = 0) ∧
        a.length ≤ narrow p (a ++ b) fuel base size + 1
  | 0, base, size, hf, hlo, hhi => ⟨hlo, by simp only [narrow]; omega⟩
  | fuel + 1, base, size, hf, hlo, hhi => by
    unfold narrow
    split
    · exact ⟨hlo, by omega⟩
    · by_cases hmid : base + size / 2 < a.length
      · rw [if_pos (probe_lt ha hmid)]
        exact narrow_spec ha hb fuel _ _ (by omega) (Or.inl hmid) (by omega)
      · have hprobe := probe_ge (a := a) hb (Nat.le_of_not_lt hmid)
        rw [if_neg (by rw [hprobe]; exact Bool.false_ne_true)]
        exact narrow_spec ha hb fuel _ _ (by omega) hlo (by omega)

/-- The binary search keeps the promise of a partition-point search. -/
theorem isPartitionPoint_partitionPoint : IsPartitionPoint (partitionPoint (α := α)) := by
  intro p a b ha hb
  obtain ⟨hlo, hhi⟩ := narrow_spec ha hb (a ++ b).length 0 (a ++ b).length (by omega) (Or.inr rfl)
    (by simp)
  unfold partitionPoint
  by_cases h : narrow p (a ++ b) (a ++ b).length 0 (a ++ b).length < a.length
  · simp only [probe_lt ha h, if_true]
    omega
  · simp only [probe_ge (a := a) hb (Nat.le_of_not_lt h), Bool.false_eq_true, if_false]
    omega

end
/-! ### The greatest element by a key -/

section Greatest
variable {κ : Type} [LinearOrder κ] {key : α → κ} {l l' : List α} {m : α}

/-- `max_by_key`: of several elements of the greatest key, the last. -/
def maxByKey (key : α → κ) (l : List α) : Option α := l.reverse.argmax key

theorem mem_of_maxByKey (h : maxByKey key l = some m) : m ∈ l := List.mem_reverse.mp (List.argmax_mem h)

theorem le_of_maxByKey (h : maxByKey key l = some m) {a : α} (ha : a ∈ l) : key a ≤ key m :=
  List.le_of_mem_argmax (List.mem_reverse.mpr ha) h

theorem maxByKey_eq_none : maxByKey key l = none ↔ l = [] := by
  rw [maxByKey, List.argmax_eq_none, List.reverse_eq_nil_iff]

theorem exists_maxByKey (key : α → κ) (h : l ≠ []) : ∃ m, maxByKey key l = some m :=
  Option.ne_none_iff_exists'.mp (mt maxByKey_eq_none.mp h)

/-- Without a shared key, what is greatest is what is found. -/
theorem maxByKey_eq_some (hinj : ∀ a ∈ l, ∀ b ∈ l, key a = key b → a = b) :
    maxByKey key l = some m ↔ m ∈ l ∧ ∀ a ∈ l, key a ≤ key m := by
  constructor
  · intro h
    exact ⟨mem_of_maxByKey h, fun a ha => le_of_maxByKey h ha⟩
  · rintro ⟨hm, hgreatest⟩
    obtain ⟨m', h⟩ := exists_maxByKey key (List.ne_nil_of_mem hm)
    have hm' := mem_of_maxByKey h
    rw [h, hinj m' hm' m hm (le_antisymm (hgreatest m' hm') (le_of_maxByKey h hm))]

/-- An element put last is found unless one before it has a greater key. -/
theorem maxByKey_concat (key : α → κ) (l : List α) (x : α) :
    maxByKey key (l ++ [x]) =
      match maxByKey key l with
      | some m => if key x < key m then some m else some x
      | none => some x := by
  rw [maxByKey, List.reverse_append, List.reverse_singleton, List.singleton_append, List.argmax_cons, maxByKey]
  cases l.reverse.argmax key <;> rfl

end Greatest

section Found
variable {p : α → Bool} {l : List α} {a : α}

/-- Where only one element can pass the test, the search gives that one. -/
theorem find_eq_some (hunique : ∀ x ∈ l, ∀ y ∈ l, p x = true → p y = true → x = y) :
    l.find? p = some a ↔ a ∈ l ∧ p a = true := by
  constructor
  · intro h
    exact ⟨List.mem_of_find?_eq_some h, List.find?_some h⟩
  · rintro ⟨ha, hpass⟩
    obtain ⟨found, hfind⟩ := Option.isSome_iff_exists.mp (List.find?_isSome.mpr ⟨a, ha, hpass⟩)
    rw [hfind, hunique found (List.mem_of_find?_eq_some hfind) a ha (List.find?_some hfind) hpass]

/-- A search by a key that no two elements share. -/
theorem find_key_eq_some {κ : Type} [DecidableEq κ] {key : α → κ} (hnodup : (l.map key).Nodup) {k : κ} :
    l.find? (fun x => key x = k) = some a ↔ a ∈ l ∧ key a = k := by
  have hunique : ∀ x ∈ l, ∀ y ∈ l, decide (key x = k) = true → decide (key y = k) = true → x = y := by
    intro x hx y hy hkx hky
    exact List.inj_on_of_nodup_map hnodup hx hy ((of_decide_eq_true hkx).trans (of_decide_eq_true hky).symm)
  rw [find_eq_some hunique, decide_eq_true_eq]

end Found

/-- When no element that passes comes after one that does not, those that pass come first. -/
theorem filter_append_filter {r : α → α → Prop} {p : α → Bool} {l : List α} (hl : l.Pairwise r)
    (hp : ∀ a b, r a b → p b = true → p a = true) : l = l.filter p ++ l.filter fun a => !p a := by
  induction l with
  | nil => rfl
  | cons a l ih =>
    obtain ⟨ha, hl⟩ := List.pairwise_cons.mp hl
    cases hpa : p a with
    | true => simpa [hpa] using ih hl
    | false =>
      have hnone : l.filter p = [] := by
        refine List.filter_eq_nil_iff.mpr fun b hb hpb => ?_
        cases hpa.symm.trans (hp a b (ha b hb) hpb)
      rw [List.filter_cons_of_neg (by simp [hpa]), hnone, List.nil_append, List.filter_cons_of_pos (by simp [hpa])]
      have hrest := ih hl
      rw [hnone, List.nil_append] at hrest
      exact congrArg (a :: ·) hrest

/-! ### Narrowing -/

/-- What is kept of a list: elements of the least key, and all of them when there are any. -/
structure Narrows {κ : Type} [LE κ] (key : α → κ) (l kept : List α) : Prop where
  sub : ∀ a ∈ kept, a ∈ l
  least : ∀ a ∈ kept, ∀ b ∈ l, key a ≤ key b
  all : ∀ a ∈ kept, ∀ b ∈ l, key b = key a → b ∈ kept

section Narrowing
variable {κ : Type} [LinearOrder κ] {key : α → κ} {l l₁ l₂ : List α} {m : κ}

theorem narrows_filter (hm : ∀ b ∈ l, m ≤ key b) {p : α → Bool} (hp : ∀ a ∈ l, p a = true ↔ key a = m) :
    Narrows key l (l.filter p) where
  sub a ha := List.mem_of_mem_filter ha
  least a ha b hb := by
    obtain ⟨hmem, hpass⟩ := List.mem_filter.mp ha
    rw [(hp a hmem).mp hpass]
    exact hm b hb
  all a ha b hb hkey := by
    obtain ⟨hmem, hpass⟩ := List.mem_filter.mp ha
    exact List.mem_filter.mpr ⟨hb, (hp b hb).mpr (hkey.trans ((hp a hmem).mp hpass))⟩

/-- Nothing is dropped where the key does not tell the elements apart. -/
theorem narrows_self (h : ∀ a ∈ l, ∀ b ∈ l, key a = key b) : Narrows key l l where
  sub _ ha := ha
  least a ha b hb := (h a ha b hb).le
  all _ _ _ hb _ := hb

/-- By one key and then by another is by the two as a word. -/
theorem Narrows.comp {κ' : Type} [LinearOrder κ'] {key' : α → κ'} (h : Narrows key l l₁) (h' : Narrows key' l₁ l₂) :
    Narrows (fun a => toLex (key a, key' a)) l l₂ where
  sub a ha := h.sub a (h'.sub a ha)
  least a ha b hb := by
    have hmem := h'.sub a ha
    rw [Prod.Lex.toLex_le_toLex]
    rcases (h.least a hmem b hb).lt_or_eq with hlt | heq
    · exact .inl hlt
    · exact .inr ⟨heq, h'.least a ha b (h.all a hmem b hb heq.symm)⟩
  all a ha b hb hkey := by
    obtain ⟨hfirst, hsecond⟩ := Prod.mk.inj (toLex.injective hkey)
    exact h'.all a ha b (h.all a (h'.sub a ha) b hb hfirst) hsecond

/-- What has no key comes last. -/
def orLast (key : Option κ) : WithTop κ := key.elim ⊤ (↑)

omit [LinearOrder κ] in
theorem orLast_eq_coe {o : Option κ} : orLast o = (m : WithTop κ) ↔ o = some m := by
  cases o <;> simp [orLast]

theorem narrows_some {f : α → Option κ} (hm : ∀ b ∈ l, ∀ k, f b = some k → m ≤ k) {p : α → Bool}
    (hp : ∀ a ∈ l, p a = true ↔ f a = some m) : Narrows (fun a => orLast (f a)) l (l.filter p) := by
  refine narrows_filter (m := (m : WithTop κ)) (fun b hb => ?_) fun a ha => (hp a ha).trans orLast_eq_coe.symm
  cases hf : f b with
  | none => exact le_top
  | some k => exact WithTop.coe_le_coe.mpr (hm b hb k hf)

theorem narrows_none {f : α → Option κ} (h : ∀ b ∈ l, f b = none) : Narrows (fun a => orLast (f a)) l l :=
  narrows_self fun a ha b hb => by rw [h a ha, h b hb]

/-- The least element depends only on what there is in the list. -/
theorem min_congr {s t : List κ} (h : ∀ k, k ∈ s ↔ k ∈ t) : s.min? = t.min? := by
  refine Option.ext fun k => ?_
  rw [List.min?_eq_some_iff, List.min?_eq_some_iff]
  simp only [h]

theorem max_congr {s t : List κ} (h : ∀ k, k ∈ s ↔ k ∈ t) : s.max? = t.max? := by
  refine Option.ext fun k => ?_
  rw [List.max?_eq_some_iff, List.max?_eq_some_iff]
  simp only [h]

end Narrowing

/-- The second list is the first with some elements of a kind put in. -/
inductive Adds (p : α → Prop) : List α → List α → Prop
  | nil : Adds p [] []
  | keep {l l' : List α} (a : α) (h : Adds p l l') : Adds p (a :: l) (a :: l')
  | add {l l' : List α} {a : α} (ha : p a) (h : Adds p l l') : Adds p l (a :: l')

namespace Adds
variable {β : Type} {p : α → Prop} {l l' : List α}

theorem filterMap (h : Adds p l l') {f : α → Option β} (hf : ∀ a, p a → f a = none) :
    l'.filterMap f = l.filterMap f := by
  induction h with
  | nil => rfl
  | keep a _ ih => rw [List.filterMap_cons, List.filterMap_cons, ih]
  | add ha _ ih => rw [List.filterMap_cons_none (hf _ ha), ih]

theorem any (h : Adds p l l') {q : α → Bool} (hq : ∀ a, p a → q a = false) : l'.any q = l.any q := by
  induction h with
  | nil => rfl
  | keep a _ ih => rw [List.any_cons, List.any_cons, ih]
  | add ha _ ih => rw [List.any_cons, hq _ ha, Bool.false_or, ih]

theorem sublist (h : Adds p l l') : l.Sublist l' := by
  induction h with
  | nil => exact .slnil
  | keep a _ ih => exact ih.cons_cons a
  | add _ _ ih => exact ih.cons _

theorem filter (h : Adds p l l') (q : α → Bool) : Adds (fun a => p a ∧ q a = true) (l.filter q) (l'.filter q) := by
  induction h with
  | nil => exact .nil
  | keep a _ ih =>
    cases hq : q a with
    | false => simpa [hq] using ih
    | true => simpa [hq] using ih.keep a
  | @add l l' a ha _ ih =>
    cases hq : q a with
    | false => simpa [hq] using ih
    | true => simpa [hq] using Adds.add (p := fun a => p a ∧ q a = true) ⟨ha, hq⟩ ih

theorem mono {q : α → Prop} (h : Adds p l l') (hpq : ∀ a, p a → q a) : Adds q l l' := by
  induction h with
  | nil => exact .nil
  | keep a _ ih => exact ih.keep a
  | add ha _ ih => exact ih.add (hpq _ ha)

theorem append_left (l₀ : List α) (h : Adds p l l') : Adds p (l₀ ++ l) (l₀ ++ l') := by
  induction l₀ with
  | nil => exact h
  | cons a l₀ ih => exact ih.keep a

/-- A list is the empty one with all its elements put in. -/
theorem all (l : List α) : Adds (· ∈ l) [] l := by
  induction l with
  | nil => exact .nil
  | cons a l ih => exact .add List.mem_cons_self (ih.mono fun b hb => List.mem_cons_of_mem a hb)

/-- What is in the second list is in the first, or of the kind. -/
theorem mem (h : Adds p l l') {a : α} (ha : a ∈ l') : a ∈ l ∨ p a := by
  induction h with
  | nil => cases ha
  | keep b _ ih =>
    rcases List.mem_cons.mp ha with rfl | ha
    · exact .inl List.mem_cons_self
    · exact (ih ha).imp (List.mem_cons_of_mem _) id
  | add hb _ ih =>
    rcases List.mem_cons.mp ha with rfl | ha
    · exact .inr hb
    · exact ih ha

end Adds

end Search
