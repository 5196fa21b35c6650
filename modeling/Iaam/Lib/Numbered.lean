import Mathlib.Data.List.Sort
import Mathlib.Order.Monotone.Basic
import Iaam.Lib.Outcome

/-! Lists stored as numbered rows.

A list is written out as rows that carry its positions, and a store gives the rows back in any order. Sorted by
the position they are the list again, and the rows that belong to one position are found by it. -/

namespace Numbered
open Outcome
variable {α β κ ε : Type} [LinearOrder κ] {key : β → κ}

/-- One row for each element, from its position. -/
def number (row : Nat → α → β) (l : List α) : List β := l.zipIdx.map fun p => row p.2 p.1

/-- Some rows for each element, from its position. -/
def numberAll (rows : Nat → α → List β) (l : List α) : List β := l.zipIdx.flatMap fun p => rows p.2 p.1

/-- `sort_by_key`: a stable sort. -/
def sortBy (key : β → κ) (rows : List β) : List β := rows.insertionSort fun l r => key l ≤ key r

/-- Rows in the order of their keys are what any permutation of them is sorted to. -/
theorem sortBy_of_perm {rows rows' : List β} (hp : rows'.Perm rows) (hsorted : rows.Pairwise fun l r => key l < key r) :
    sortBy key rows' = rows := by
  have htotal : Std.Total fun l r : β => key l ≤ key r := ⟨fun l r => le_total (key l) (key r)⟩
  have htrans : IsTrans β fun l r => key l ≤ key r := ⟨fun _ _ _ => le_trans⟩
  have hnodup : (rows.map key).Nodup := List.pairwise_map.mpr (hsorted.imp fun h => h.ne)
  have hperm : (sortBy key rows').Perm rows := (List.perm_insertionSort _ _).trans hp
  refine hperm.eq_of_pairwise (fun l r hl hr hlr hrl => ?_) (List.pairwise_insertionSort _ _)
    (hsorted.imp fun h => h.le)
  exact List.inj_on_of_nodup_map hnodup (hperm.mem_iff.mp hl) hr (le_antisymm hlr hrl)

/-- A change that leaves the keys as they are can come before or after the sort. -/
theorem map_sortBy {γ : Type} {key' : γ → κ} {f : β → γ} (hf : ∀ b, key' (f b) = key b) (rows : List β) :
    (sortBy key rows).map f = sortBy key' (rows.map f) :=
  List.map_insertionSort _ _ f rows fun a _ b _ => by rw [hf, hf]

/-- Rows of one key keep their order. -/
theorem filter_sortBy (rows : List β) (k : κ) :
    (sortBy key rows).filter (fun row => key row = k) = rows.filter fun row => key row = k := by
  have hsorted : (rows.filter fun row => key row = k).Pairwise fun l r => key l ≤ key r := by
    refine List.pairwise_of_forall_mem_list fun l hl r hr => ?_
    rw [of_decide_eq_true (List.mem_filter.mp hl).2, of_decide_eq_true (List.mem_filter.mp hr).2]
  have hsublist : (rows.filter fun row => key row = k).Sublist ((sortBy key rows).filter fun row => key row = k) := by
    have hin := (List.sublist_insertionSort hsorted List.filter_sublist).filter fun row => key row = k
    simpa only [sortBy, List.filter_filter, Bool.and_self] using hin
  exact (hsublist.eq_of_length ((List.perm_insertionSort _ _).filter _).length_eq.symm).symm

/-- Sorted lists with the same rows at every key are the same. -/
theorem eq_of_filter_eq {rows rows' : List β} (hs : rows.Pairwise fun l r => key l ≤ key r)
    (hs' : rows'.Pairwise fun l r => key l ≤ key r)
    (h : ∀ k, rows.filter (fun row => key row = k) = rows'.filter fun row => key row = k) : rows = rows' := by
  induction rows generalizing rows' with
  | nil =>
    cases rows' with
    | nil => rfl
    | cons b rows' => simpa using h (key b)
  | cons a rows ih =>
    cases rows' with
    | nil => simpa using h (key a)
    | cons b rows' =>
      obtain ⟨ha, hrest⟩ := List.pairwise_cons.mp hs
      obtain ⟨hb, hrest'⟩ := List.pairwise_cons.mp hs'
      -- Neither list holds a key below the first one of the other.
      have hab : key a = key b := by
        have hmem : a ∈ b :: rows' := List.mem_of_mem_filter (p := fun row => key row = key a) (by rw [← h]; simp)
        have hmem' : b ∈ a :: rows := List.mem_of_mem_filter (p := fun row => key row = key b) (by rw [h]; simp)
        refine le_antisymm ?_ ?_
        · rcases List.mem_cons.mp hmem' with rfl | hin
          · rfl
          · exact ha b hin
        · rcases List.mem_cons.mp hmem with rfl | hin
          · rfl
          · exact hb a hin
      have hhead := h (key a)
      simp only [List.filter_cons, decide_true, if_true, hab] at hhead
      obtain ⟨rfl, -⟩ := List.cons.inj hhead
      refine congrArg (a :: ·) (ih hrest hrest' fun k => ?_)
      have hk := h k
      simp only [List.filter_cons] at hk
      split at hk
      · exact (List.cons.inj hk).2
      · exact hk

/-- The sort depends on the rows of each key only. -/
theorem sortBy_congr {rows rows' : List β}
    (h : ∀ k, rows.filter (fun row => key row = k) = rows'.filter fun row => key row = k) :
    sortBy key rows = sortBy key rows' := by
  have htotal : Std.Total fun l r : β => key l ≤ key r := ⟨fun l r => le_total (key l) (key r)⟩
  have htrans : IsTrans β fun l r => key l ≤ key r := ⟨fun _ _ _ => le_trans⟩
  refine eq_of_filter_eq (List.pairwise_insertionSort _ _) (List.pairwise_insertionSort _ _) fun k => ?_
  exact (filter_sortBy rows k).trans ((h k).trans (filter_sortBy rows' k).symm)

section
variable {γ : Type} {R : β → γ → Prop} {r : β → β → Prop} {r' : γ → γ → Prop} [DecidableRel r] [DecidableRel r']

theorem forall₂_orderedInsert (hr : ∀ a a' b b', R a a' → R b b' → (r a b ↔ r' a' b')) {a : β} {a' : γ}
    (ha : R a a') {l : List β} {l' : List γ} (h : List.Forall₂ R l l') :
    List.Forall₂ R (l.orderedInsert r a) (l'.orderedInsert r' a') := by
  induction h with
  | nil => exact .cons ha .nil
  | cons hb hl ih =>
    rw [List.orderedInsert_cons, List.orderedInsert_cons, if_congr (hr _ _ _ _ ha hb) rfl rfl]
    split
    · exact .cons ha (.cons hb hl)
    · exact .cons hb ih

/-- Lists that are alike element by element are sorted alike. -/
theorem forall₂_insertionSort (hr : ∀ a a' b b', R a a' → R b b' → (r a b ↔ r' a' b')) {l : List β} {l' : List γ}
    (h : List.Forall₂ R l l') : List.Forall₂ R (l.insertionSort r) (l'.insertionSort r') := by
  induction h with
  | nil => exact .nil
  | cons ha _ ih => exact forall₂_orderedInsert hr ha ih

end

theorem pairwise_zipIdx (l : List α) : l.zipIdx.Pairwise fun p q => p.2 < q.2 := by
  rw [← List.pairwise_map (f := Prod.snd), List.zipIdx_map_snd]
  exact List.pairwise_lt_range'

/-- The rows of a list come back in its order. -/
theorem sortBy_number {row : Nat → α → β} {l : List α} {rows : List β} (place : Nat → κ) (hplace : StrictMono place)
    (hkey : ∀ i a, key (row i a) = place i) (hp : rows.Perm (number row l)) : sortBy key rows = number row l := by
  refine sortBy_of_perm hp (List.pairwise_map.mpr ((pairwise_zipIdx l).imp fun h => ?_))
  rw [hkey, hkey]
  exact hplace h

/-- Reading numbered rows gives the list, when reading undoes writing at every position. -/
theorem mapM_number {row : Nat → α → β} {read : β → Except ε α} {l : List α}
    (h : ∀ p ∈ l.zipIdx, read (row p.2 p.1) = .ok p.1) : (number row l).mapM read = .ok l := by
  have hread : ∀ ps : List (α × Nat), (∀ p ∈ ps, read (row p.2 p.1) = .ok p.1) →
      (ps.map fun p => row p.2 p.1).mapM read = .ok (ps.map Prod.fst) := by
    intro ps hps
    induction ps with
    | nil => rfl
    | cons p ps ih =>
      rw [List.map_cons, List.mapM_cons]
      refine bind_ok.mpr ⟨p.1, hps p List.mem_cons_self, bind_ok.mpr ⟨ps.map Prod.fst, ?_, rfl⟩⟩
      exact ih fun q hq => hps q (List.mem_cons_of_mem _ hq)
  rw [number, hread _ h, List.zipIdx_map_fst]

theorem filter_flatMap {γ : Type} (rows : γ → List β) (of : γ → κ) {ps : List γ} (hnodup : (ps.map of).Nodup)
    (hkey : ∀ p ∈ ps, ∀ b ∈ rows p, key b = of p) {p : γ} (hp : p ∈ ps) :
    (ps.flatMap rows).filter (fun b => key b = of p) = rows p := by
  induction ps with
  | nil => cases hp
  | cons q ps ih =>
    obtain ⟨hq, hnodup⟩ := List.nodup_cons.mp (List.map_cons ▸ hnodup)
    have hhead := hkey q List.mem_cons_self
    have htail : ∀ p ∈ ps, ∀ b ∈ rows p, key b = of p := fun p hp => hkey p (List.mem_cons_of_mem _ hp)
    rw [List.flatMap_cons, List.filter_append]
    rcases List.mem_cons.mp hp with rfl | hp
    · have hown : (rows p).filter (fun b => key b = of p) = rows p :=
        List.filter_eq_self.mpr fun b hb => by simpa using hhead b hb
      have hothers : (ps.flatMap rows).filter (fun b => key b = of p) = [] := by
        refine List.filter_eq_nil_iff.mpr fun b hb => ?_
        obtain ⟨r, hr, hbr⟩ := List.mem_flatMap.mp hb
        intro heq
        refine hq ?_
        rw [← of_decide_eq_true heq, htail r hr b hbr]
        exact List.mem_map_of_mem hr
      rw [hown, hothers, List.append_nil]
    · have hfirst : (rows q).filter (fun b => key b = of p) = [] := by
        refine List.filter_eq_nil_iff.mpr fun b hb heq => hq ?_
        rw [← hhead b hb, of_decide_eq_true heq]
        exact List.mem_map_of_mem hp
      rw [hfirst, List.nil_append, ih hnodup htail hp]

/-- The rows of one position are found by it. -/
theorem filter_numberAll {rows : Nat → α → List β} {l : List α} (place : Nat → κ) (hplace : StrictMono place)
    (hkey : ∀ i a, ∀ b ∈ rows i a, key b = place i) {p : α × Nat} (hp : p ∈ l.zipIdx) :
    (numberAll rows l).filter (fun b => key b = place p.2) = rows p.2 p.1 := by
  refine filter_flatMap (fun p : α × Nat => rows p.2 p.1) (fun p => place p.2) ?_ ?_ hp
  · exact List.pairwise_map.mpr ((pairwise_zipIdx l).imp fun h => (hplace h).ne)
  · exact fun p _ b hb => hkey p.2 p.1 b hb

end Numbered
