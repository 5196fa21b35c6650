import Mathlib.Data.List.Nodup
import Mathlib.Data.List.ProdSigma
import Mathlib.Data.List.Sort
import Mathlib.Data.List.Zip
import Mathlib.Data.Prod.Lex

/-! Greedy matching: the pairs of a list are taken in their order, each one unless an end of it is taken already. The ends are
told apart by a name. No end is taken twice. Pairs of two kinds that share no ends are matched apart from each other. And
where everything on one side can go with everything on the other, the first goes with the first and the second with the
second: who is matched with whom is then a matter of their places. -/

namespace Matching
variable {α β κ μ : Type}

section
variable (left : α → κ) (right : β → μ)

/-- No two pairs share an end. -/
structure Apart (taken : List (α × β)) : Prop where
  lefts : (taken.map fun t => left t.1).Nodup
  rights : (taken.map fun t => right t.2).Nodup

end

section
variable {left : α → κ} {right : β → μ} {taken : List (α × β)}

theorem eq_of_left_eq (h : Apart left right taken) {t t' : α × β} (ht : t ∈ taken) (ht' : t' ∈ taken)
    (he : left t.1 = left t'.1) : t = t' :=
  List.inj_on_of_nodup_map h.lefts ht ht' he

theorem eq_of_right_eq (h : Apart left right taken) {t t' : α × β} (ht : t ∈ taken) (ht' : t' ∈ taken)
    (he : right t.2 = right t'.2) : t = t' :=
  List.inj_on_of_nodup_map h.rights ht ht' he

end

variable [DecidableEq κ] [DecidableEq μ]

section
variable (left : α → κ) (right : β → μ)

/-- An end of the pair is taken. -/
def Taken (taken : List (α × β)) (p : α × β) : Prop :=
  left p.1 ∈ taken.map (fun t => left t.1) ∨ right p.2 ∈ taken.map (fun t => right t.2)

instance (taken : List (α × β)) (p : α × β) : Decidable (Taken left right taken p) := inferInstanceAs (Decidable (_ ∨ _))

def take (taken : List (α × β)) (p : α × β) : List (α × β) := if Taken left right taken p then taken else taken ++ [p]

def greedy (pairs : List (α × β)) : List (α × β) := pairs.foldl (take left right) []

end

section
variable {left : α → κ} {right : β → μ} {taken pairs : List (α × β)} {p : α × β}

theorem take_of_taken (h : Taken left right taken p) : take left right taken p = taken := if_pos h

theorem take_of_free (h : ¬ Taken left right taken p) : take left right taken p = taken ++ [p] := if_neg h

theorem mem_of_mem_take {t : α × β} (h : t ∈ take left right taken p) : t ∈ taken ∨ t = p := by
  unfold take at h
  split at h
  · exact .inl h
  · rcases List.mem_append.mp h with h | h
    · exact .inl h
    · exact .inr (List.mem_singleton.mp h)

theorem Apart.take (h : Apart left right taken) : Apart left right (take left right taken p) := by
  by_cases hp : Taken left right taken p
  · rw [take_of_taken hp]
    exact h
  · rw [take_of_free hp]
    have hleft : left p.1 ∉ taken.map fun t => left t.1 := fun hin => hp (.inl hin)
    have hright : right p.2 ∉ taken.map fun t => right t.2 := fun hin => hp (.inr hin)
    constructor
    · rw [List.map_append, List.map_singleton, ← List.concat_eq_append]
      exact h.lefts.concat hleft
    · rw [List.map_append, List.map_singleton, ← List.concat_eq_append]
      exact h.rights.concat hright

/-- What is matched was a pair of the list. -/
theorem mem_of_mem_foldl {t : α × β} (h : t ∈ pairs.foldl (take left right) taken) : t ∈ taken ∨ t ∈ pairs := by
  induction pairs generalizing taken with
  | nil => exact .inl h
  | cons p pairs ih =>
    rcases ih h with h | h
    · rcases mem_of_mem_take h with h | rfl
      · exact .inl h
      · exact .inr List.mem_cons_self
    · exact .inr (List.mem_cons_of_mem _ h)

theorem mem_of_mem_greedy (h : p ∈ greedy left right pairs) : p ∈ pairs :=
  (mem_of_mem_foldl h).resolve_left (List.not_mem_nil)

theorem Apart.foldl (h : Apart left right taken) : Apart left right (pairs.foldl (Matching.take left right) taken) := by
  induction pairs generalizing taken with
  | nil => exact h
  | cons p pairs ih => exact ih h.take

theorem apart_greedy (pairs : List (α × β)) : Apart left right (greedy left right pairs) :=
  Apart.foldl ⟨List.nodup_nil, List.nodup_nil⟩

/-! ### Pairs of a kind -/

/-- Pairs of a kind are matched as if the others were not there, when they share no end with them. -/
theorem foldl_filter {kind : α × β → Bool}
    (hends : ∀ t ∈ taken ++ pairs, ∀ t' ∈ taken ++ pairs, left t.1 = left t'.1 ∨ right t.2 = right t'.2 →
      kind t = kind t') :
    (pairs.foldl (take left right) taken).filter kind = (pairs.filter kind).foldl (take left right) (taken.filter kind) := by
  induction pairs generalizing taken with
  | nil => rfl
  | cons p pairs ih =>
    have hmem : ∀ {t}, t ∈ take left right taken p ++ pairs → t ∈ taken ++ p :: pairs := fun {t} ht => by
      rcases List.mem_append.mp ht with ht | ht
      · rcases mem_of_mem_take ht with ht | rfl
        · exact List.mem_append_left _ ht
        · exact List.mem_append_right _ List.mem_cons_self
      · exact List.mem_append_right _ (List.mem_cons_of_mem _ ht)
    rw [List.foldl_cons, ih fun t ht t' ht' => hends t (hmem ht) t' (hmem ht')]
    have hp : p ∈ taken ++ p :: pairs := List.mem_append_right _ List.mem_cons_self
    cases hkind : kind p with
    | false =>
      have hkeep : (take left right taken p).filter kind = taken.filter kind := by
        by_cases htaken : Taken left right taken p
        · rw [take_of_taken htaken]
        · rw [take_of_free htaken, List.filter_append, List.filter_cons_of_neg (by simp [hkind]), List.filter_nil,
            List.append_nil]
      rw [hkeep, List.filter_cons_of_neg (by simp [hkind])]
    | true =>
      have hsame : Taken left right (taken.filter kind) p ↔ Taken left right taken p := by
        have hiff : ∀ t ∈ taken, left t.1 = left p.1 ∨ right t.2 = right p.2 → t ∈ taken.filter kind := fun t ht he =>
          List.mem_filter.mpr ⟨ht, (hends t (List.mem_append_left _ ht) p hp he).trans hkind⟩
        unfold Taken
        rw [List.mem_map, List.mem_map, List.mem_map, List.mem_map]
        refine or_congr ⟨?_, ?_⟩ ⟨?_, ?_⟩
        · rintro ⟨t, ht, he⟩
          exact ⟨t, List.mem_of_mem_filter ht, he⟩
        · rintro ⟨t, ht, he⟩
          exact ⟨t, hiff t ht (.inl he), he⟩
        · rintro ⟨t, ht, he⟩
          exact ⟨t, List.mem_of_mem_filter ht, he⟩
        · rintro ⟨t, ht, he⟩
          exact ⟨t, hiff t ht (.inr he), he⟩
      rw [List.filter_cons_of_pos hkind, List.foldl_cons]
      by_cases htaken : Taken left right taken p
      · rw [take_of_taken htaken, take_of_taken (hsame.mpr htaken)]
      · rw [take_of_free htaken, take_of_free (mt hsame.mp htaken), List.filter_append, List.filter_cons_of_pos hkind,
          List.filter_nil]

theorem greedy_filter {kind : α × β → Bool}
    (hends : ∀ t ∈ pairs, ∀ t' ∈ pairs, left t.1 = left t'.1 ∨ right t.2 = right t'.2 → kind t = kind t') :
    (greedy left right pairs).filter kind = greedy left right (pairs.filter kind) := foldl_filter hends

/-! ### Everything with everything -/

/-- Pairs with a taken end change nothing. -/
theorem foldl_of_taken (h : ∀ p ∈ pairs, Taken left right taken p) : pairs.foldl (take left right) taken = taken := by
  induction pairs with
  | nil => rfl
  | cons p pairs ih =>
    rw [List.foldl_cons, take_of_taken (h p List.mem_cons_self)]
    exact ih fun q hq => h q (List.mem_cons_of_mem _ hq)

/-- The next on the left goes with the first on the right that is left over. -/
theorem foldl_product {xs : List α} {used free : List β} (hxs : (xs.map left).Nodup) (hys : ((used ++ free).map right).Nodup)
    (hleft : ∀ x ∈ xs, left x ∉ taken.map fun t => left t.1) (hused : taken.map (fun t => right t.2) = used.map right) :
    (xs.flatMap fun x => (used ++ free).map fun y => (x, y)).foldl (take left right) taken = taken ++ xs.zip free := by
  induction xs generalizing taken used free with
  | nil => simp
  | cons x xs ih =>
    obtain ⟨hx, hxs⟩ := List.nodup_cons.mp hxs
    have hskip : ∀ p ∈ used.map (fun y => (x, y)), Taken left right taken p := by
      intro p hp
      obtain ⟨y, hy, rfl⟩ := List.mem_map.mp hp
      refine .inr ?_
      rw [hused]
      exact List.mem_map_of_mem hy
    rw [List.flatMap_cons, List.foldl_append, List.map_append, List.foldl_append, foldl_of_taken hskip]
    cases free with
    | nil =>
      rw [List.map_nil, List.foldl_nil, List.zip_nil_right]
      have hnext : (xs.flatMap fun x => (used ++ []).map fun y => (x, y)).foldl (take left right) taken =
          taken ++ xs.zip [] := ih hxs hys (fun y hy => hleft y (List.mem_cons_of_mem _ hy)) hused
      rw [List.zip_nil_right] at hnext
      exact hnext
    | cons y free =>
      have hfree : ¬ Taken left right taken (x, y) := by
        rintro (hin | hin)
        · exact hleft x List.mem_cons_self hin
        · rw [hused] at hin
          rw [List.map_append, List.map_cons] at hys
          exact (List.disjoint_of_nodup_append hys) hin List.mem_cons_self
      have hrest : ∀ p ∈ free.map (fun y => (x, y)), Taken left right (taken ++ [(x, y)]) p := by
        intro p hp
        obtain ⟨z, -, rfl⟩ := List.mem_map.mp hp
        exact .inl (List.mem_map.mpr ⟨(x, y), List.mem_append_right _ (List.mem_singleton_self _), rfl⟩)
      rw [List.map_cons, List.foldl_cons, take_of_free hfree, foldl_of_taken hrest, List.zip_cons_cons,
        List.append_cons used y free, List.append_cons taken (x, y) (xs.zip free)]
      refine ih hxs ?_ (fun x' hx' => ?_) ?_
      · rw [List.append_assoc, List.singleton_append]
        exact hys
      · rw [List.map_append, List.mem_append]
        rintro (hin | hin)
        · exact hleft x' (List.mem_cons_of_mem _ hx') hin
        · rw [List.map_singleton, List.mem_singleton] at hin
          exact hx (hin ▸ List.mem_map_of_mem hx')
      · rw [List.map_append, List.map_append, hused]
        rfl

theorem greedy_product {xs : List α} {ys : List β} (hxs : (xs.map left).Nodup) (hys : (ys.map right).Nodup) :
    greedy left right (xs.flatMap fun x => ys.map fun y => (x, y)) = xs.zip ys := by
  have hused : ([] : List (α × β)).map (fun t => right t.2) = ([] : List β).map right := rfl
  exact foldl_product hxs hys (fun _ _ => List.not_mem_nil) hused

end

/-! ### Places -/

section
variable {κ : Type} [LinearOrder κ]

/-- How many of a list come before `a`. -/
def place (name : α → κ) (l : List α) (a : α) : Nat := l.countP fun x => name x < name a

variable {name : α → κ} {x a : α} {xs : List α}

theorem place_head (h : (x :: xs).Pairwise fun a b => name a < name b) : place name (x :: xs) x = 0 := by
  unfold place
  rw [List.countP_eq_zero]
  intro y hy
  rcases List.mem_cons.mp hy with rfl | hy
  · simp
  · simpa using ((List.pairwise_cons.mp h).1 y hy).le

theorem place_tail (h : (x :: xs).Pairwise fun a b => name a < name b) (ha : a ∈ xs) :
    place name (x :: xs) a = place name xs a + 1 :=
  List.countP_cons_of_pos (decide_eq_true ((List.pairwise_cons.mp h).1 a ha))

theorem place_perm {l l' : List α} (h : l.Perm l') : place name l a = place name l' a := h.countP_eq _

end

section
variable {κ μ : Type} [LinearOrder κ] [LinearOrder μ] {left : α → κ} {right : β → μ} {a : α} {b : β}

/-- Two lists in order, side by side. -/
theorem mem_zip_iff {xs : List α} {ys : List β} (hxs : xs.Pairwise fun a b => left a < left b)
    (hys : ys.Pairwise fun a b => right a < right b) :
    (a, b) ∈ xs.zip ys ↔ a ∈ xs ∧ b ∈ ys ∧ place left xs a = place right ys b := by
  induction xs generalizing ys with
  | nil => simp
  | cons x xs ih =>
    cases ys with
    | nil => simp
    | cons y ys =>
      have hne : a ∈ xs → a ≠ x := fun ha he => by
        have hlt := (List.pairwise_cons.mp hxs).1 a ha
        rw [he] at hlt
        exact lt_irrefl _ hlt
      have hne' : b ∈ ys → b ≠ y := fun hb he => by
        have hlt := (List.pairwise_cons.mp hys).1 b hb
        rw [he] at hlt
        exact lt_irrefl _ hlt
      rw [List.zip_cons_cons, List.mem_cons, Prod.mk.injEq, ih (List.pairwise_cons.mp hxs).2 (List.pairwise_cons.mp hys).2]
      constructor
      · rintro (⟨rfl, rfl⟩ | ⟨ha, hb, hplace⟩)
        · exact ⟨List.mem_cons_self, List.mem_cons_self, by rw [place_head hxs, place_head hys]⟩
        · exact ⟨List.mem_cons_of_mem _ ha, List.mem_cons_of_mem _ hb, by rw [place_tail hxs ha, place_tail hys hb, hplace]⟩
      · rintro ⟨ha, hb, hplace⟩
        rcases List.mem_cons.mp ha with rfl | ha <;> rcases List.mem_cons.mp hb with rfl | hb
        · exact .inl ⟨rfl, rfl⟩
        · rw [place_head hxs, place_tail hys hb] at hplace
          cases hplace
        · rw [place_head hys, place_tail hxs ha] at hplace
          cases hplace
        · rw [place_tail hxs ha, place_tail hys hb] at hplace
          exact .inr ⟨ha, hb, Nat.succ.inj hplace⟩

/-- The order that pairs are taken in. -/
def Precedes (left : α → κ) (right : β → μ) (p q : α × β) : Prop :=
  toLex (left p.1, right p.2) ≤ toLex (left q.1, right q.2)

variable {r : α → β → Bool} {as : List α} {bs : List β} {pairs : List (α × β)}

/-- Two that can go with one can go with the same. -/
def Level (r : α → β → Bool) (as : List α) (bs : List β) : Prop :=
  ∀ a ∈ as, ∀ b ∈ bs, ∀ a' ∈ as, ∀ b' ∈ bs, r a b = true → r a' b = true → r a b' = true → r a' b' = true

/-- The product of two lists in order is in the order of pairs. -/
theorem pairwise_product {xs : List α} {ys : List β} (hxs : xs.Pairwise fun a b => left a < left b)
    (hys : ys.Pairwise fun a b => right a < right b) : (xs.product ys).Pairwise (Precedes left right) := by
  refine List.pairwise_flatMap.mpr ⟨fun x _ => ?_, hxs.imp fun {x x'} hlt p hp q hq => ?_⟩
  · rw [List.pairwise_map]
    refine hys.imp ?_
    intro y y' hlt
    exact Prod.Lex.toLex_le_toLex.mpr (.inr ⟨rfl, hlt.le⟩)
  · obtain ⟨y, -, rfl⟩ := List.mem_map.mp hp
    obtain ⟨y', -, rfl⟩ := List.mem_map.mp hq
    exact Prod.Lex.toLex_le_toLex.mpr (.inl hlt)

/-- Distinct names in order. -/
theorem pairwise_lt_of_nodup {l : List α} (h : (l.map left).Nodup) :
    (l.insertionSort fun x y => left x ≤ left y).Pairwise fun x y => left x < left y := by
  have htotal : Std.Total fun x y : α => left x ≤ left y := ⟨fun x y => le_total (left x) (left y)⟩
  have htrans : IsTrans α fun x y => left x ≤ left y := ⟨fun _ _ _ => le_trans⟩
  have hperm := List.perm_insertionSort (fun x y => left x ≤ left y) l
  have hne : (l.insertionSort fun x y => left x ≤ left y).Pairwise fun x y => left x ≠ left y :=
    List.pairwise_map.mp ((hperm.map left).nodup_iff.mpr h)
  exact ((List.pairwise_insertionSort _ l).and hne).imp fun hle => lt_of_le_of_ne hle.1 hle.2

/-- The pairs of the kind of one of them are all with all. -/
theorem filter_level (hpairs : ∀ p, p ∈ pairs ↔ p.1 ∈ as ∧ p.2 ∈ bs ∧ r p.1 p.2 = true) (hnodup : pairs.Nodup)
    (hsorted : pairs.Pairwise (Precedes left right)) (has : (as.map left).Nodup) (hbs : (bs.map right).Nodup)
    (hlevel : Level r as bs) (ha : a ∈ as) (hb : b ∈ bs) (hr : r a b = true) :
    pairs.filter (fun t => r t.1 b) =
      ((as.filter fun x => r x b).insertionSort fun x y => left x ≤ left y).product
        ((bs.filter (r a)).insertionSort fun x y => right x ≤ right y) := by
  have hxs : ((as.filter fun x => r x b).map left).Nodup := (List.filter_sublist.map left).nodup has
  have hys : ((bs.filter (r a)).map right).Nodup := (List.filter_sublist.map right).nodup hbs
  have hmem : ∀ p : α × β, p ∈ pairs.filter (fun t => r t.1 b) ↔
      p ∈ ((as.filter fun x => r x b).insertionSort fun x y => left x ≤ left y).product
        ((bs.filter (r a)).insertionSort fun x y => right x ≤ right y) := by
    intro p
    rw [List.mem_filter, hpairs, List.pair_mem_product, List.mem_insertionSort, List.mem_insertionSort, List.mem_filter,
      List.mem_filter]
    constructor
    · rintro ⟨⟨hp, hq, hpq⟩, hpb⟩
      exact ⟨⟨hp, hpb⟩, hq, hlevel p.1 hp b hb a ha p.2 hq hpb hr hpq⟩
    · rintro ⟨⟨hp, hpb⟩, hq, haq⟩
      exact ⟨⟨hp, hq, hlevel a ha b hb p.1 hp p.2 hq hr hpb haq⟩, hpb⟩
  refine List.Perm.eq_of_pairwise (fun p q hp hq hpq hqp => ?_) (hsorted.filter _)
    (pairwise_product (pairwise_lt_of_nodup hxs) (pairwise_lt_of_nodup hys)) ?_
  · have hnames := Prod.mk.inj (toLex.injective (le_antisymm hpq hqp))
    obtain ⟨hp1, hp2, -⟩ := (hpairs p).mp (List.mem_of_mem_filter hp)
    obtain ⟨hq1, hq2, -⟩ := (hpairs q).mp (List.mem_of_mem_filter ((hmem q).mpr hq))
    exact Prod.ext (List.inj_on_of_nodup_map has hp1 hq1 hnames.1) (List.inj_on_of_nodup_map hbs hp2 hq2 hnames.2)
  · have hproduct := List.Nodup.product ((List.perm_insertionSort (fun x y => left x ≤ left y) _).nodup_iff.mpr hxs.of_map)
      ((List.perm_insertionSort (fun x y => right x ≤ right y) _).nodup_iff.mpr hys.of_map)
    exact (List.perm_ext_iff_of_nodup (hnodup.filter _) hproduct).mpr hmem

/-- Those that can go with one are matched in the order of their names, side by side. -/
theorem greedy_level (hpairs : ∀ p, p ∈ pairs ↔ p.1 ∈ as ∧ p.2 ∈ bs ∧ r p.1 p.2 = true) (hnodup : pairs.Nodup)
    (hsorted : pairs.Pairwise (Precedes left right)) (has : (as.map left).Nodup) (hbs : (bs.map right).Nodup)
    (hlevel : Level r as bs) (ha : a ∈ as) (hb : b ∈ bs) (hr : r a b = true) :
    (greedy left right pairs).filter (fun t => r t.1 b) =
      ((as.filter fun x => r x b).insertionSort fun x y => left x ≤ left y).zip
        ((bs.filter (r a)).insertionSort fun x y => right x ≤ right y) := by
  have hxs : ((as.filter fun x => r x b).map left).Nodup := (List.filter_sublist.map left).nodup has
  have hys : ((bs.filter (r a)).map right).Nodup := (List.filter_sublist.map right).nodup hbs
  have hsortedXs := List.perm_insertionSort (fun x y => left x ≤ left y) (as.filter fun x => r x b)
  have hsortedYs := List.perm_insertionSort (fun x y => right x ≤ right y) (bs.filter (r a))
  rw [greedy_filter, filter_level hpairs hnodup hsorted has hbs hlevel ha hb hr]
  · exact greedy_product ((hsortedXs.map left).nodup_iff.mpr hxs) ((hsortedYs.map right).nodup_iff.mpr hys)
  · intro t ht t' ht' he
    obtain ⟨ht1, ht2, hrt⟩ := (hpairs t).mp ht
    obtain ⟨ht1', ht2', hrt'⟩ := (hpairs t').mp ht'
    rcases he with he | he
    · rw [List.inj_on_of_nodup_map has ht1 ht1' he]
    · have hsame := List.inj_on_of_nodup_map hbs ht2 ht2' he
      rw [← hsame] at hrt'
      exact Bool.eq_iff_iff.mpr ⟨hlevel t.1 ht1 t.2 ht2 t'.1 ht1' b hb hrt hrt',
        hlevel t'.1 ht1' t.2 ht2 t.1 ht1 b hb hrt' hrt⟩

/-- Who is matched with whom, where those that can go with one can go with the same: each with the one of the same place. -/
theorem mem_greedy_iff (hpairs : ∀ p, p ∈ pairs ↔ p.1 ∈ as ∧ p.2 ∈ bs ∧ r p.1 p.2 = true) (hnodup : pairs.Nodup)
    (hsorted : pairs.Pairwise (Precedes left right)) (has : (as.map left).Nodup) (hbs : (bs.map right).Nodup)
    (hlevel : Level r as bs) : (a, b) ∈ greedy left right pairs ↔
      a ∈ as ∧ b ∈ bs ∧ r a b = true ∧ place left (as.filter fun x => r x b) a = place right (bs.filter (r a)) b := by
  suffices hin : a ∈ as → b ∈ bs → r a b = true → ((a, b) ∈ greedy left right pairs ↔
      place left (as.filter fun x => r x b) a = place right (bs.filter (r a)) b) by
    constructor
    · intro h
      obtain ⟨ha, hb, hr⟩ := (hpairs (a, b)).mp (mem_of_mem_greedy h)
      exact ⟨ha, hb, hr, (hin ha hb hr).mp h⟩
    · rintro ⟨ha, hb, hr, hplace⟩
      exact (hin ha hb hr).mpr hplace
  intro ha hb hr
  have hxs : ((as.filter fun x => r x b).map left).Nodup := (List.filter_sublist.map left).nodup has
  have hys : ((bs.filter (r a)).map right).Nodup := (List.filter_sublist.map right).nodup hbs
  have hsortedXs := List.perm_insertionSort (fun x y => left x ≤ left y) (as.filter fun x => r x b)
  have hsortedYs := List.perm_insertionSort (fun x y => right x ≤ right y) (bs.filter (r a))
  have hclass := greedy_level hpairs hnodup hsorted has hbs hlevel ha hb hr
  have hkind : (a, b) ∈ greedy left right pairs ↔ (a, b) ∈ (greedy left right pairs).filter fun t => r t.1 b := by
    rw [List.mem_filter]
    exact (and_iff_left hr).symm
  rw [hkind, hclass, mem_zip_iff (pairwise_lt_of_nodup hxs) (pairwise_lt_of_nodup hys), place_perm hsortedXs,
    place_perm hsortedYs, List.mem_insertionSort, List.mem_insertionSort, List.mem_filter, List.mem_filter]
  constructor
  · rintro ⟨-, -, hplace⟩
    exact hplace
  · intro hplace
    exact ⟨⟨ha, hr⟩, ⟨hb, hr⟩, hplace⟩

end

/-! ### Marks

The ends that are side by side carry marks, and a pair is marked by the two of its ends. -/

section
variable {α β ν : Type}

/-- The marks of the pairs of two lists side by side. -/
def marks (mark : Bool → Bool → ν) (p : α → Bool) (q : β → Bool) (xs : List α) (ys : List β) : List ν :=
  (xs.zip ys).map fun t => mark (p t.1) (q t.2)

/-- The marks are the same ones whatever the orders of the two lists. -/
def AnyOrder (mark : Bool → Bool → ν) (p : α → Bool) (q : β → Bool) (xs : List α) (ys : List β) : Prop :=
  ∀ xs', xs'.Perm xs → ∀ ys', ys'.Perm ys → (marks mark p q xs' ys').Perm (marks mark p q xs ys)

/-- All of a list are marked alike. -/
def Agree (p : α → Bool) (xs : List α) : Prop := ∀ x ∈ xs, ∀ x' ∈ xs, p x = p x'

variable {mark : Bool → Bool → ν} {p : α → Bool} {q : β → Bool} {xs : List α} {ys : List β}

theorem marks_swap (mark : Bool → Bool → ν) (p : α → Bool) (q : β → Bool) (xs : List α) (ys : List β) :
    marks (fun b a => mark a b) q p ys xs = marks mark p q xs ys := by
  unfold marks
  rw [← List.zip_swap xs ys, List.map_map]
  rfl

theorem AnyOrder.swap (h : AnyOrder mark p q xs ys) : AnyOrder (fun b a => mark a b) q p ys xs := by
  intro ys' hys xs' hxs
  rw [marks_swap mark p q xs' ys', marks_swap mark p q xs ys]
  exact h xs' hxs ys' hys

/-- Next to ends that are marked alike, a list decides by itself. -/
theorem marks_of_agree {b : Bool} (hq : ∀ y ∈ ys, q y = b) (hlength : xs.length ≤ ys.length) :
    marks mark p q xs ys = xs.map fun x => mark (p x) b := by
  induction xs generalizing ys with
  | nil => rfl
  | cons x xs ih =>
    cases ys with
    | nil => exact absurd hlength (Nat.not_succ_le_zero _)
    | cons y ys =>
      obtain ⟨hy, hys⟩ := List.forall_mem_cons.mp hq
      rw [List.map_cons, ← ih hys (Nat.le_of_succ_le_succ hlength), ← hy]
      rfl

theorem anyOrder_of_agree (hq : Agree q ys) (hlength : xs.length ≤ ys.length) : AnyOrder mark p q xs ys := by
  intro xs' hxs ys' hys
  cases ys with
  | nil =>
    have hnil : xs = [] := List.length_eq_zero_iff.mp (Nat.le_zero.mp hlength)
    rw [hnil] at hxs ⊢
    rw [List.perm_nil.mp hxs]
    exact .refl _
  | cons y ys =>
    have hall : ∀ z ∈ y :: ys, q z = q y := fun z hz => hq z hz y List.mem_cons_self
    have hlength' : xs'.length ≤ ys'.length := by
      rw [hxs.length_eq, hys.length_eq]
      exact hlength
    rw [marks_of_agree (fun z hz => hall z (hys.subset hz)) hlength', marks_of_agree hall hlength]
    exact hxs.map _

/-- Two of a list that are marked differently, brought to the front. -/
theorem front_of_not_agree (h : ¬Agree q ys) :
    ∃ y y' rest, (y :: y' :: rest).Perm ys ∧ q y = true ∧ q y' = false := by
  have hpair : ∃ y ∈ ys, ∃ y' ∈ ys, q y = true ∧ q y' = false := by
    unfold Agree at h
    push Not at h
    obtain ⟨z, hz, z', hz', hne⟩ := h
    cases hq : q z with
    | true => exact ⟨z, hz, z', hz', hq, by rw [hq] at hne; exact Bool.eq_false_iff.mpr (Ne.symm hne)⟩
    | false => exact ⟨z', hz', z, hz, by rw [hq] at hne; exact Bool.eq_true_of_not_eq_false (Ne.symm hne), hq⟩
  obtain ⟨y, hy, y', hy', hq, hq'⟩ := hpair
  obtain ⟨s, t, rfl⟩ := List.append_of_mem hy
  have hfront : (y :: (s ++ t)).Perm (s ++ y :: t) := List.perm_middle.symm
  have hmem : y' ∈ s ++ t := by
    rcases List.mem_cons.mp (hfront.mem_iff.mpr hy') with rfl | hmem
    · rw [hq] at hq'
      cases hq'
    · exact hmem
  obtain ⟨s', t', heq⟩ := List.append_of_mem hmem
  refine ⟨y, y', s' ++ t', List.Perm.trans (List.Perm.cons y ?_) hfront, hq, hq'⟩
  rw [heq]
  exact List.perm_middle.symm

theorem marks_append {zs : List β} (hlength : xs.length ≤ ys.length) :
    marks mark p q xs (ys ++ zs) = marks mark p q xs ys := by
  induction xs generalizing ys with
  | nil => rfl
  | cons x xs ih =>
    cases ys with
    | nil => exact absurd hlength (Nat.not_succ_le_zero _)
    | cons y ys => exact congrArg (mark (p x) (q y) :: ·) (ih (Nat.le_of_succ_le_succ hlength))

/-- One that is left over can take the place of one that is marked differently. -/
theorem AnyOrder.agree_of_spare (h : AnyOrder mark p q xs ys) (hright : ∀ a, mark a true ≠ mark a false) (hne : xs ≠ [])
    (hspare : xs.length < ys.length) : Agree q ys := by
  by_contra hmixed
  obtain ⟨y, y', rest, hfront, hq, hq'⟩ := front_of_not_agree hmixed
  obtain ⟨x, xs, rfl⟩ := List.exists_cons_of_ne_nil hne
  have hlength : xs.length ≤ rest.length := by
    have hys := hfront.length_eq
    simp only [List.length_cons] at hys hspare
    omega
  have hfirst : (y :: (rest ++ [y'])).Perm ys :=
    ((List.perm_append_singleton y' rest).cons y).trans hfront
  have hsecond : (y' :: (rest ++ [y])).Perm ys :=
    (((List.perm_append_singleton y rest).cons y').trans (List.Perm.swap y y' rest)).trans hfront
  have hperm := (h _ (.refl _) _ hfirst).trans (h _ (.refl _) _ hsecond).symm
  change (mark (p x) (q y) :: marks mark p q xs (rest ++ [y'])).Perm
    (mark (p x) (q y') :: marks mark p q xs (rest ++ [y])) at hperm
  rw [marks_append hlength, marks_append hlength, hq, hq'] at hperm
  have hone : [mark (p x) true].Perm [mark (p x) false] := (List.perm_append_right_iff (marks mark p q xs rest)).mp hperm
  exact hright (p x) (List.singleton_perm_singleton.mp hone)

/-- Two pairs can exchange ends. -/
theorem AnyOrder.agree_of_both (h : AnyOrder mark p q xs ys) (hleft : ∀ b, mark true b ≠ mark false b)
    (hright : ∀ a, mark a true ≠ mark a false) : Agree p xs ∨ Agree q ys := by
  by_contra hnot
  obtain ⟨hxs, hys⟩ := not_or.mp hnot
  obtain ⟨x, x', xs', hfrontX, hp, hp'⟩ := front_of_not_agree hxs
  obtain ⟨y, y', ys', hfrontY, hq, hq'⟩ := front_of_not_agree hys
  have hswapped : (y' :: y :: ys').Perm ys := (List.Perm.swap y y' ys').trans hfrontY
  have hperm := (h _ hfrontX _ hfrontY).trans (h _ hfrontX _ hswapped).symm
  change (mark (p x) (q y) :: mark (p x') (q y') :: marks mark p q xs' ys').Perm
    (mark (p x) (q y') :: mark (p x') (q y) :: marks mark p q xs' ys') at hperm
  rw [hp, hp', hq, hq'] at hperm
  have htwo : [mark true true, mark false false].Perm [mark true false, mark false true] :=
    (List.perm_append_right_iff (marks mark p q xs' ys')).mp hperm
  rcases List.mem_pair.mp (htwo.subset List.mem_cons_self) with heq | heq
  · exact hright true heq
  · exact hleft true heq

/-- The order makes no difference exactly when one of the lists is empty, or the ends of the list that is at least as
    long are marked alike. -/
theorem anyOrder_iff (hleft : ∀ b, mark true b ≠ mark false b) (hright : ∀ a, mark a true ≠ mark a false) :
    AnyOrder mark p q xs ys ↔ xs = [] ∨ ys = [] ∨ (Agree q ys ∧ xs.length ≤ ys.length) ∨
      (Agree p xs ∧ ys.length ≤ xs.length) := by
  constructor
  · intro h
    by_cases hxs : xs = []
    · exact .inl hxs
    by_cases hys : ys = []
    · exact .inr (.inl hys)
    rcases lt_trichotomy xs.length ys.length with hlt | heq | hlt
    · exact .inr (.inr (.inl ⟨h.agree_of_spare hright hxs hlt, hlt.le⟩))
    · rcases h.agree_of_both hleft hright with hp | hq
      · exact .inr (.inr (.inr ⟨hp, heq.ge⟩))
      · exact .inr (.inr (.inl ⟨hq, heq.le⟩))
    · exact .inr (.inr (.inr ⟨h.swap.agree_of_spare hleft hys hlt, hlt.le⟩))
  · rintro (rfl | rfl | ⟨hq, hle⟩ | ⟨hp, hle⟩)
    · intro xs' hxs ys' _
      rw [List.perm_nil.mp hxs]
      exact .refl _
    · intro xs' _ ys' hys
      rw [List.perm_nil.mp hys]
      unfold marks
      rw [List.zip_nil_right, List.zip_nil_right]
    · exact anyOrder_of_agree hq hle
    · have hswapped : AnyOrder (fun b a => mark a b) q p ys xs := anyOrder_of_agree hp hle
      exact hswapped.swap

end

end Matching
