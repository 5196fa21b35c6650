import Mathlib.Data.List.SplitBy
import Mathlib.Data.List.Forall2
import Mathlib.Data.List.Sort
import Mathlib.Order.Defs.LinearOrder

/-! A list that is sorted by a key, in blocks of one key. The blocks of two such lists with the same elements hold the
same elements, block by block. -/

namespace Blocks
variable {α κ : Type} [LinearOrder κ] {key : α → κ}

/-- Blocks of one key each, with larger keys in later blocks. -/
structure ByKey (key : α → κ) (blocks : List (List α)) : Prop where
  nonempty : ∀ b ∈ blocks, b ≠ []
  same : ∀ b ∈ blocks, ∀ x ∈ b, ∀ y ∈ b, key x = key y
  increasing : blocks.Pairwise fun b c => ∀ x ∈ b, ∀ y ∈ c, key x < key y

/-- The list in blocks of neighbours with the same key. -/
def blocksBy (key : α → κ) (l : List α) : List (List α) := l.splitBy fun a b => key a = key b

@[simp] theorem flatten_blocksBy (key : α → κ) (l : List α) : (blocksBy key l).flatten = l := List.flatten_splitBy _ l

section
variable {blocks blocks' : List (List α)}

theorem ByKey.sorted (h : ByKey key blocks) : blocks.flatten.Pairwise fun a b => key a ≤ key b := by
  refine List.pairwise_flatten.mpr ⟨fun b hb => ?_, h.increasing.imp fun hlt x hx y hy => (hlt x hx y hy).le⟩
  exact List.pairwise_of_forall_mem_list fun x hx y hy => (h.same b hb x hx y hy).le

theorem ByKey.tail {b : List α} (h : ByKey key (b :: blocks)) : ByKey key blocks :=
  ⟨fun c hc => h.nonempty c (List.mem_cons_of_mem _ hc), fun c hc => h.same c (List.mem_cons_of_mem _ hc),
    (List.pairwise_cons.mp h.increasing).2⟩

/-- The first block has the least key. -/
theorem ByKey.head_lt {b : List α} (h : ByKey key (b :: blocks)) {x y : α} (hx : x ∈ b) (hy : y ∈ blocks.flatten) :
    key x < key y := by
  obtain ⟨c, hc, hyc⟩ := List.mem_flatten.mp hy
  exact (List.pairwise_cons.mp h.increasing).1 c hc x hx y hyc

theorem ByKey.of_perm (h : ByKey key blocks) (hperm : List.Forall₂ List.Perm blocks' blocks) : ByKey key blocks' := by
  induction hperm with
  | nil => exact h
  | @cons b' b rest' rest hb hrest ih =>
    have htail := ih h.tail
    refine ⟨fun c hc => ?_, fun c hc => ?_, List.pairwise_cons.mpr ⟨fun c hc x hx y hy => ?_, htail.increasing⟩⟩
    · rcases List.mem_cons.mp hc with rfl | hc
      · rintro rfl
        exact h.nonempty b List.mem_cons_self (List.nil_perm.mp hb)
      · exact htail.nonempty c hc
    · rcases List.mem_cons.mp hc with rfl | hc
      · exact fun x hx y hy => h.same b List.mem_cons_self x (hb.mem_iff.mp hx) y (hb.mem_iff.mp hy)
      · exact htail.same c hc
    · have hflatten : y ∈ rest.flatten :=
        (List.Perm.flatten_congr hrest).mem_iff.mp (List.mem_flatten.mpr ⟨c, hc, hy⟩)
      exact h.head_lt (hb.mem_iff.mp hx) hflatten

/-- Neighbouring blocks of different keys have increasing keys, and so have all of them. -/
theorem increasing_of_chain (hne : ∀ b ∈ blocks, b ≠ []) (hsame : ∀ b ∈ blocks, ∀ x ∈ b, ∀ y ∈ b, key x = key y)
    (hle : blocks.Pairwise fun b c => ∀ x ∈ b, ∀ y ∈ c, key x ≤ key y)
    (hchain : blocks.IsChain fun a b => ∃ ha hb, decide (key (a.getLast ha) = key (b.head hb)) = false) :
    blocks.Pairwise fun b c => ∀ x ∈ b, ∀ y ∈ c, key x < key y := by
  induction blocks with
  | nil => exact .nil
  | cons b rest ih =>
    obtain ⟨hbrest, hrest⟩ := List.pairwise_cons.mp hle
    refine List.pairwise_cons.mpr ⟨fun d hd x hx y hy => ?_, ih (fun c hc => hne c (List.mem_cons_of_mem _ hc))
      (fun c hc => hsame c (List.mem_cons_of_mem _ hc)) hrest hchain.tail⟩
    cases rest with
    | nil => cases hd
    | cons c rest =>
      obtain ⟨⟨ha, hb, hdiffer⟩, -⟩ := List.isChain_cons_cons.mp hchain
      have hlast := List.getLast_mem ha
      have hhead := List.head_mem hb
      have hlt : key x < key (c.head hb) := by
        rw [hsame b List.mem_cons_self x hx _ hlast]
        exact lt_of_le_of_ne (hbrest c List.mem_cons_self _ hlast _ hhead) (of_decide_eq_false hdiffer)
      rcases List.mem_cons.mp hd with rfl | hd
      · rw [hsame d (List.mem_cons_of_mem _ List.mem_cons_self) y hy _ hhead]
        exact hlt
      · exact lt_of_lt_of_le hlt ((List.pairwise_cons.mp hrest).1 d hd _ hhead y hy)

/-- The blocks of a sorted list. -/
theorem byKey_blocksBy {l : List α} (h : l.Pairwise fun a b => key a ≤ key b) : ByKey key (blocksBy key l) := by
  have hle : (blocksBy key l).Pairwise fun b c => ∀ x ∈ b, ∀ y ∈ c, key x ≤ key y := by
    rw [← flatten_blocksBy key l] at h
    exact (List.pairwise_flatten.mp h).2
  have hne : ∀ b ∈ blocksBy key l, b ≠ [] := fun b hb => List.ne_nil_of_mem_splitBy hb
  have hsame : ∀ b ∈ blocksBy key l, ∀ x ∈ b, ∀ y ∈ b, key x = key y := by
    intro b hb
    have hchain : b.IsChain fun x y => key x = key y :=
      (List.isChain_of_mem_splitBy hb).imp fun _ _ => of_decide_eq_true
    have htrans : IsTrans α fun x y => key x = key y := ⟨fun _ _ _ => Eq.trans⟩
    have hsymm : Std.Symm fun x y : α => key x = key y := ⟨fun _ _ => Eq.symm⟩
    have hpairs := List.isChain_iff_pairwise.mp hchain
    exact fun x hx y hy =>
      @List.Pairwise.forall_of_forall α (fun x y => key x = key y) b hsymm (fun _ _ => rfl) hpairs x hx y hy
  have hdiffer := List.isChain_getLast_head_splitBy (fun a b => decide (key a = key b)) l
  exact ⟨hne, hsame, increasing_of_chain hne hsame hle hdiffer⟩

/-- The block of the least key, picked out of the elements. -/
theorem ByKey.filter_head {b : List α} (h : ByKey key (b :: blocks)) {x : α} (hx : x ∈ b) :
    (b :: blocks).flatten.filter (fun y => key y = key x) = b ∧
      (b :: blocks).flatten.filter (fun y => key y ≠ key x) = blocks.flatten := by
  have hb : ∀ y ∈ b, key y = key x := fun y hy => h.same b List.mem_cons_self y hy x hx
  have hrest : ∀ y ∈ blocks.flatten, key y ≠ key x := fun y hy => (h.head_lt hx hy).ne'
  rw [List.flatten_cons, List.filter_append, List.filter_append]
  constructor
  · rw [List.filter_eq_self.mpr (by simpa using hb), List.filter_eq_nil_iff.mpr (by simpa using hrest), List.append_nil]
  · rw [List.filter_eq_nil_iff.mpr (by simpa using hb), List.filter_eq_self.mpr (by simpa using hrest), List.nil_append]

/-- The elements decide the blocks up to the order within them. -/
theorem ByKey.perm_unique (h : ByKey key blocks) (h' : ByKey key blocks') (hperm : blocks'.flatten.Perm blocks.flatten) :
    List.Forall₂ List.Perm blocks' blocks := by
  induction blocks generalizing blocks' with
  | nil =>
    cases blocks' with
    | nil => exact .nil
    | cons b rest =>
      have hnil := List.perm_nil.mp hperm
      exact absurd (List.append_eq_nil_iff.mp hnil).1 (h'.nonempty b List.mem_cons_self)
  | cons b rest ih =>
    obtain ⟨x, hx⟩ := List.exists_mem_of_ne_nil b (h.nonempty b List.mem_cons_self)
    cases blocks' with
    | nil =>
      have hnil := List.nil_perm.mp hperm
      exact absurd (List.append_eq_nil_iff.mp hnil).1 (h.nonempty b List.mem_cons_self)
    | cons b' rest' =>
      obtain ⟨y, hy⟩ := List.exists_mem_of_ne_nil b' (h'.nonempty b' List.mem_cons_self)
      have hle {c : List α} {cs : List (List α)} (hc : ByKey key (c :: cs)) {u v : α} (hu : u ∈ c)
          (hv : v ∈ (c :: cs).flatten) : key u ≤ key v := by
        rcases List.mem_append.mp hv with hv | hv
        · exact (hc.same c List.mem_cons_self u hu v hv).le
        · exact (hc.head_lt hu hv).le
      have hkey : key y = key x := le_antisymm (hle h' hy (hperm.mem_iff.mpr (List.mem_append_left _ hx)))
        (hle h hx (hperm.mem_iff.mp (List.mem_append_left _ hy)))
      obtain ⟨hb, hrest⟩ := h.filter_head hx
      obtain ⟨hb', hrest'⟩ := h'.filter_head hy
      rw [hkey] at hb' hrest'
      refine .cons ?_ (ih h.tail h'.tail ?_)
      · rw [← hb', ← hb]
        exact hperm.filter _
      · rw [← hrest', ← hrest]
        exact hperm.filter _

/-- The list before, in and after a block, told by the keys. -/
theorem ByKey.filter_around {earlier later : List (List α)} {b : List α} (h : ByKey key (earlier ++ b :: later)) {x : α}
    (hx : x ∈ b) :
    (earlier ++ b :: later).flatten.filter (fun y => key y < key x) = earlier.flatten ∧
      (earlier ++ b :: later).flatten.filter (fun y => key y = key x) = b ∧
      (earlier ++ b :: later).flatten.filter (fun y => key x < key y) = later.flatten := by
  obtain ⟨-, hlater, hbetween⟩ := List.pairwise_append.mp h.increasing
  have hbefore : ∀ y ∈ earlier.flatten, key y < key x := fun y hy => by
    obtain ⟨c, hc, hyc⟩ := List.mem_flatten.mp hy
    exact hbetween c hc b List.mem_cons_self y hyc x hx
  have hin : ∀ y ∈ b, key y = key x := fun y hy => h.same b (by simp) y hy x hx
  have hafter : ∀ y ∈ later.flatten, key x < key y := fun y hy => by
    obtain ⟨c, hc, hyc⟩ := List.mem_flatten.mp hy
    exact (List.pairwise_cons.mp hlater).1 c hc x hx y hyc
  simp only [List.flatten_append, List.flatten_cons, List.filter_append]
  refine ⟨?_, ?_, ?_⟩
  · rw [List.filter_eq_self.mpr fun y hy => decide_eq_true (hbefore y hy),
      List.filter_eq_nil_iff.mpr fun y hy => by simpa using (hin y hy).ge,
      List.filter_eq_nil_iff.mpr fun y hy => by simpa using (hafter y hy).le]
    simp
  · rw [List.filter_eq_nil_iff.mpr fun y hy => by simpa using (hbefore y hy).ne,
      List.filter_eq_self.mpr fun y hy => decide_eq_true (hin y hy),
      List.filter_eq_nil_iff.mpr fun y hy => by simpa using (hafter y hy).ne']
    simp
  · rw [List.filter_eq_nil_iff.mpr fun y hy => by simpa using (hbefore y hy).le,
      List.filter_eq_nil_iff.mpr fun y hy => by simpa using (hin y hy).le,
      List.filter_eq_self.mpr fun y hy => decide_eq_true (hafter y hy)]
    simp

/-- Another order of the elements that are picked is the picked part of another order of all. -/
theorem exists_order {l kept : List α} {p : α → Bool} (hkept : kept.Perm (l.filter p))
    (hsorted : kept.Pairwise fun a b => key a ≤ key b) :
    ∃ l' : List α, l'.Perm l ∧ (l'.Pairwise fun a b => key a ≤ key b) ∧ l'.filter p = kept := by
  have htotal : Std.Total fun a b : α => key a ≤ key b := ⟨fun a b => le_total (key a) (key b)⟩
  have htrans : IsTrans α fun a b => key a ≤ key b := ⟨fun _ _ _ => le_trans⟩
  have hp : ∀ a ∈ kept, p a = true := fun a ha => (List.mem_filter.mp (hkept.mem_iff.mp ha)).2
  have hrest : ∀ a ∈ l.filter fun a => !p a, p a = false := fun a ha => by simpa using (List.mem_filter.mp ha).2
  have hsort := List.perm_insertionSort (fun a b => key a ≤ key b) (kept ++ l.filter fun a => !p a)
  have hperm : (kept ++ l.filter fun a => !p a).Perm l :=
    (hkept.append_right _).trans (List.filter_append_perm p l)
  have hsub : kept.Sublist ((kept ++ l.filter fun a => !p a).insertionSort fun a b => key a ≤ key b) :=
    List.sublist_insertionSort hsorted (List.sublist_append_left _ _)
  refine ⟨_, hsort.trans hperm, List.pairwise_insertionSort _ _, ?_⟩
  have hkeep : kept.Sublist (((kept ++ l.filter fun a => !p a).insertionSort fun a b => key a ≤ key b).filter p) := by
    have := hsub.filter p
    rwa [List.filter_eq_self.mpr hp] at this
  refine (hkeep.eq_of_length ?_).symm
  rw [(hsort.filter p).length_eq, List.filter_append, List.filter_eq_self.mpr hp,
    List.filter_eq_nil_iff.mpr fun a ha => by simp [hrest a ha], List.append_nil]

end

end Blocks
