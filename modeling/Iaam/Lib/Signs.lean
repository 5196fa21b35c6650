import Mathlib.Data.Bool.Count
import Mathlib.Data.List.Forall2

/-! Changes of sign along a list whose elements come in blocks. Within its block an element may stand anywhere; the
number of changes is the same in every such order exactly when each block is steady where it stands. -/

namespace Signs

/-- The number of neighbours that differ. -/
def changes : List Bool → Nat
  | a :: b :: l => (if a = b then 0 else 1) + changes (b :: l)
  | _ => 0

@[simp] theorem changes_nil : changes [] = 0 := rfl
@[simp] theorem changes_singleton (a : Bool) : changes [a] = 0 := rfl
theorem changes_cons_cons (a b : Bool) (l : List Bool) :
    changes (a :: b :: l) = (if a = b then 0 else 1) + changes (b :: l) := rfl

section
variable {s t : Bool} {l b m : List Bool}

/-- The changes before an element and the changes after it. -/
theorem changes_append_cons (l : List Bool) (a : Bool) (m : List Bool) :
    changes (l ++ a :: m) = changes (l ++ [a]) + changes (a :: m) := by
  induction l with
  | nil => simp
  | cons c l ih =>
    cases l with
    | nil => simp [changes_cons_cons]
    | cons d l =>
      simp only [List.cons_append, changes_cons_cons] at ih ⊢
      rw [ih, Nat.add_assoc]

theorem changes_repeat (l : List Bool) (a : Bool) (m : List Bool) : changes (l ++ a :: a :: m) = changes (l ++ a :: m) := by
  rw [changes_append_cons, changes_cons_cons, if_pos rfl, Nat.zero_add, ← changes_append_cons]

/-- Elements that are alike count as one. -/
theorem changes_constant (hb : ∀ x ∈ b, x = s) (hne : b ≠ []) : changes (l ++ b ++ m) = changes (l ++ s :: m) := by
  induction b with
  | nil => exact absurd rfl hne
  | cons x b ih =>
    obtain rfl := hb x List.mem_cons_self
    cases b with
    | nil => simp
    | cons y b =>
      obtain rfl := hb y (List.mem_cons_of_mem _ List.mem_cons_self)
      have hrest := ih (fun z hz => hb z (List.mem_cons_of_mem _ hz)) (List.cons_ne_nil _ _)
      rw [List.append_assoc, List.cons_append] at hrest ⊢
      rw [List.cons_append, changes_repeat, hrest]

/-- One element of the other sign, between two of the one. -/
theorem changes_between (hcount : b.count (!s) = 1) :
    changes (l ++ [s] ++ b ++ s :: m) = changes (l ++ [s]) + 2 + changes (s :: m) := by
  have hmem : (!s) ∈ b := List.count_pos_iff.mp (by omega)
  obtain ⟨u, v, rfl⟩ := List.append_of_mem hmem
  rw [List.count_append, List.count_cons_self] at hcount
  have hu : ∀ x ∈ u, x = s := fun x hx => by
    have : u.count (!s) = 0 := by omega
    have hne : x ≠ !s := fun h => List.count_eq_zero.mp this (h ▸ hx)
    cases x <;> cases s <;> simp_all
  have hv : ∀ x ∈ v, x = s := fun x hx => by
    have : v.count (!s) = 0 := by omega
    have hne : x ≠ !s := fun h => List.count_eq_zero.mp this (h ▸ hx)
    cases x <;> cases s <;> simp_all
  have hfront : changes (l ++ ([s] ++ u) ++ (!s) :: (v ++ s :: m)) = changes (l ++ s :: (!s) :: (v ++ s :: m)) :=
    changes_constant (by simpa using hu) (by simp)
  have hback : changes (l ++ [s, !s] ++ (v ++ [s]) ++ m) = changes (l ++ [s, !s] ++ s :: m) :=
    changes_constant (by simpa [or_imp, forall_and] using hv) (by simp)
  simp only [List.append_assoc, List.cons_append, List.nil_append] at hfront hback ⊢
  rw [hfront, hback, changes_append_cons, changes_cons_cons, changes_cons_cons]
  simp
  omega

end

/-! ### One block -/

/-- The block counts the same in every order of it, between what stands before and after it. -/
def AnyOrder (before block after : List Bool) : Prop :=
  ∀ block', block'.Perm block → changes (before ++ block' ++ after) = changes (before ++ block ++ after)

/-- The elements of one sign, then those of the other. -/
def grouped (block : List Bool) (s : Bool) : List Bool :=
  List.replicate (block.count s) s ++ List.replicate (block.count (!s)) (!s)

section
variable {s : Bool} {before block after : List Bool}

theorem perm_of_counts {l l' : List Bool} (s : Bool) (hs : l.count s = l'.count s) (ht : l.count (!s) = l'.count (!s)) :
    l.Perm l' := by
  refine List.perm_iff_count.mpr fun x => ?_
  cases x <;> cases s <;> assumption

theorem grouped_perm (block : List Bool) (s : Bool) : (grouped block s).Perm block :=
  perm_of_counts s (by simp [grouped, List.count_replicate]) (by simp [grouped, List.count_replicate])

theorem grouped_changes (hs : s ∈ block) (ht : (!s) ∈ block) :
    changes (before ++ grouped block s ++ after) = changes (before ++ s :: (!s) :: after) := by
  have hspos := List.count_pos_iff.mpr hs
  have htpos := List.count_pos_iff.mpr ht
  have hfirst : changes (before ++ List.replicate (block.count s) s ++ (List.replicate (block.count (!s)) (!s) ++ after)) =
      changes (before ++ s :: (List.replicate (block.count (!s)) (!s) ++ after)) :=
    changes_constant (fun x hx => List.eq_of_mem_replicate hx) (by simp; omega)
  have hsecond : changes ((before ++ [s]) ++ List.replicate (block.count (!s)) (!s) ++ after) =
      changes ((before ++ [s]) ++ (!s) :: after) :=
    changes_constant (fun x hx => List.eq_of_mem_replicate hx) (by simp; omega)
  simp only [grouped, List.append_assoc, List.cons_append, List.nil_append] at hfirst hsecond ⊢
  rw [hfirst, hsecond]

/-- An element of one sign, those of the other, and the rest of the one. -/
theorem exists_split (hs : 1 < block.count s) (ht : (!s) ∈ block) : ∃ block', block'.Perm block ∧
    ∀ before after, changes (before ++ block' ++ after) = changes (before ++ s :: (!s) :: s :: after) := by
  have htpos := List.count_pos_iff.mpr ht
  refine ⟨s :: List.replicate (block.count (!s)) (!s) ++ List.replicate (block.count s - 1) s, ?_, fun before after => ?_⟩
  · refine perm_of_counts s ?_ ?_
    · simp [List.count_replicate]
      omega
    · simp [List.count_replicate]
  · have hfirst : changes ((before ++ [s]) ++ List.replicate (block.count (!s)) (!s) ++
        (List.replicate (block.count s - 1) s ++ after)) =
          changes ((before ++ [s]) ++ (!s) :: (List.replicate (block.count s - 1) s ++ after)) :=
      changes_constant (fun x hx => List.eq_of_mem_replicate hx) (by simp; omega)
    have hsecond : changes ((before ++ [s, !s]) ++ List.replicate (block.count s - 1) s ++ after) =
        changes ((before ++ [s, !s]) ++ s :: after) :=
      changes_constant (fun x hx => List.eq_of_mem_replicate hx) (by simp; omega)
    simp only [List.append_assoc, List.cons_append, List.nil_append] at hfirst hsecond ⊢
    rw [hfirst, hsecond]

/-- The two ways of grouping a block count the same. -/
theorem AnyOrder.grouped_eq (h : AnyOrder before block after) (hs : s ∈ block) (ht : (!s) ∈ block) :
    changes (before ++ s :: (!s) :: after) = changes (before ++ (!s) :: s :: after) := by
  have hother := @grouped_changes (!s) before block after ht (by rwa [Bool.not_not])
  rw [Bool.not_not] at hother
  rw [← grouped_changes hs ht, ← hother, h _ (grouped_perm block s), h _ (grouped_perm block _)]

/-- A block of both signs, in any order: it stands alone with one element of each, or between two elements of the sign of
    which all its elements but one are. -/
theorem AnyOrder.ends (h : AnyOrder before block after) (hs : s ∈ block) (ht : (!s) ∈ block) :
    (before = [] ∧ after = [] ∧ block.count s = 1 ∧ block.count (!s) = 1) ∨
      ∃ x, before.getLast? = some x ∧ after.head? = some x ∧ block.count (!x) = 1 := by
  have hsome (x : Bool) : x ∈ block := by cases x <;> cases s <;> assumption
  have hswap (x : Bool) := h.grouped_eq (hsome x) (hsome (!x))
  have hone (x : Bool) (hne : ∀ b, changes (before ++ x :: (!x) :: x :: after) ≠ changes (before ++ b :: (!b) :: after)) :
      block.count x = 1 := by
    have hpos := List.count_pos_iff.mpr (hsome x)
    by_contra hcount
    obtain ⟨block', hperm, hchanges⟩ := exists_split (by omega : 1 < block.count x) (hsome (!x))
    refine hne x ?_
    rw [← hchanges, ← grouped_changes (hsome x) (hsome (!x)), h _ hperm, h _ (grouped_perm block x)]
  rcases before.eq_nil_or_concat' with rfl | ⟨front, x, rfl⟩
  · cases after with
    | nil =>
      exact .inl ⟨rfl, rfl, hone s (by intro b; cases b <;> cases s <;> simp [changes]),
        hone (!s) (by intro b; cases b <;> cases s <;> simp [changes])⟩
    | cons y rest =>
      have := hswap y
      cases y <;> simp [changes] at this
  · have hmeet (y : Bool) (rest : List Bool) :
        changes (front ++ [x] ++ y :: rest) = changes (front ++ [x]) + changes (x :: y :: rest) := by
      rw [List.append_assoc, List.singleton_append, changes_append_cons]
    cases after with
    | nil =>
      have := hswap x
      rw [hmeet, hmeet] at this
      cases x <;> simp [changes] at this
    | cons y rest =>
      have hends := hswap x
      rw [hmeet, hmeet] at hends
      have hxy : x = y := by
        cases x <;> cases y <;> simp [changes] at hends ⊢ <;> omega
      obtain rfl := hxy
      refine .inr ⟨x, by simp, rfl, hone (!x) fun b => ?_⟩
      rw [hmeet, hmeet]
      cases x <;> cases b <;> simp [changes] <;> omega

end

/-! ### All blocks -/

/-- A block is steady where it stands: all of it has one sign; or it is the only block, with one element of each sign; or
    it stands between two blocks of one sign, and all its elements but one have that sign too. -/
def Steady (earlier : List (List Bool)) (block : List Bool) (later : List (List Bool)) : Prop :=
  (∃ s, ∀ x ∈ block, x = s) ∨
  (earlier = [] ∧ later = [] ∧ block.count true = 1 ∧ block.count false = 1) ∨
  ∃ s, block.count (!s) = 1 ∧ (∃ before, earlier.getLast? = some before ∧ ∀ x ∈ before, x = s) ∧
    ∃ after, later.head? = some after ∧ ∀ x ∈ after, x = s

section
variable {earlier later : List (List Bool)} {block : List Bool} {s : Bool}

/-- The last element of the blocks before, when the last block has one sign. -/
theorem flatten_getLast {before : List Bool} (hne : ∀ b ∈ earlier, b ≠ []) (hlast : earlier.getLast? = some before)
    (hs : ∀ x ∈ before, x = s) : ∃ front, earlier.flatten = front ++ [s] := by
  obtain ⟨front, rfl⟩ := List.getLast?_eq_some_iff.mp hlast
  rcases before.eq_nil_or_concat' with rfl | ⟨u, x, rfl⟩
  · exact absurd rfl (hne [] (by simp))
  · obtain rfl := hs x (by simp)
    exact ⟨front.flatten ++ u, by simp⟩

theorem flatten_head {after : List Bool} (hne : ∀ b ∈ later, b ≠ []) (hhead : later.head? = some after)
    (hs : ∀ x ∈ after, x = s) : ∃ rest, later.flatten = s :: rest := by
  obtain ⟨rest, rfl⟩ := List.head?_eq_some_iff.mp hhead
  cases after with
  | nil => exact absurd rfl (hne [] List.mem_cons_self)
  | cons x v =>
    obtain rfl := hs x List.mem_cons_self
    exact ⟨v ++ rest.flatten, rfl⟩

/-- One element of each sign is one change. -/
theorem changes_pair (htrue : block.count true = 1) (hfalse : block.count false = 1) : changes block = 1 := by
  have hlength : block.length = 2 := by
    rw [← List.count_false_add_count_true, htrue, hfalse]
  obtain ⟨x, y, rfl⟩ := List.length_eq_two.mp hlength
  cases x <;> cases y <;> simp [changes] at htrue hfalse ⊢

theorem Steady.anyOrder (h : Steady earlier block later) (hearlier : ∀ b ∈ earlier, b ≠ [])
    (hlater : ∀ b ∈ later, b ≠ []) : AnyOrder earlier.flatten block later.flatten := by
  intro block' hperm
  rcases h with ⟨s, hs⟩ | ⟨rfl, rfl, htrue, hfalse⟩ | ⟨s, hcount, ⟨before, hlast, hbefore⟩, after, hhead, hafter⟩
  · rcases block.eq_nil_or_concat' with rfl | ⟨u, x, rfl⟩
    · rw [List.perm_nil.mp hperm]
    · rw [changes_constant hs (by simp), changes_constant (fun y hy => hs y (hperm.mem_iff.mp hy))]
      rintro rfl
      exact absurd (List.nil_perm.mp hperm) (by simp)
  · simp only [List.flatten_nil, List.nil_append, List.append_nil]
    rw [changes_pair htrue hfalse, changes_pair (by rw [hperm.count_eq, htrue]) (by rw [hperm.count_eq, hfalse])]
  · obtain ⟨front, hfront⟩ := flatten_getLast hearlier hlast hbefore
    obtain ⟨rest, hrest⟩ := flatten_head hlater hhead hafter
    rw [hfront, hrest, changes_between hcount, changes_between (by rw [hperm.count_eq, hcount])]

/-- What a steady block of both signs counts as once one sign takes its place: the same, exactly when that sign differs
    from the block before it. -/
theorem Steady.replaced_iff (h : Steady earlier block later) (hearlier : ∀ b ∈ earlier, b ≠ [])
    (hlater : ∀ b ∈ later, b ≠ []) (htrue : true ∈ block) (hfalse : false ∈ block) (t : Bool) :
    changes (earlier.flatten ++ [t] ++ later.flatten) = changes (earlier.flatten ++ block ++ later.flatten) ↔
      ∃ before, earlier.getLast? = some before ∧ ∀ x ∈ before, x = !t := by
  rcases h with ⟨s, hs⟩ | ⟨rfl, rfl, htrueCount, hfalseCount⟩ | ⟨s, hcount, ⟨before, hlast, hbefore⟩, after, hhead, hafter⟩
  · exact absurd ((hs _ htrue).trans (hs _ hfalse).symm) (by decide)
  · simp only [List.flatten_nil, List.nil_append, List.append_nil, changes_pair htrueCount hfalseCount]
    simp
  · obtain ⟨front, hfront⟩ := flatten_getLast hearlier hlast hbefore
    obtain ⟨rest, hrest⟩ := flatten_head hlater hhead hafter
    have hmem : ∃ x, x ∈ before := List.exists_mem_of_ne_nil _ (hearlier _ (List.mem_of_getLast? hlast))
    rw [hfront, hrest, changes_between hcount, hlast]
    constructor
    · intro heq
      refine ⟨before, rfl, fun x hx => ?_⟩
      rw [hbefore x hx]
      by_contra hne
      have hst : t = s := by cases t <;> cases s <;> simp_all
      subst hst
      rw [changes_constant (fun x hx => List.mem_singleton.mp hx) (List.cons_ne_nil _ _), List.append_assoc,
        List.singleton_append, changes_repeat, changes_repeat, changes_append_cons] at heq
      omega
    · rintro ⟨before', hsome, hall⟩
      obtain rfl := Option.some.inj hsome
      obtain ⟨x, hx⟩ := hmem
      have hst : t = !s := by
        rw [← hbefore x hx, hall x hx, Bool.not_not]
      subst hst
      exact changes_between (by cases s <;> rfl)

/-- An element of a list may be made its last one, or its first. -/
theorem exists_perm_last {l : List Bool} (h : s ∈ l) : ∃ u, (u ++ [s]).Perm l :=
  ⟨l.erase s, (List.perm_append_singleton s _).trans (List.perm_cons_erase h).symm⟩

theorem forall_eq_or {l : List Bool} (s : Bool) : (∀ x ∈ l, x = s) ∨ (!s) ∈ l := by
  by_cases h : (!s) ∈ l
  · exact .inr h
  · refine .inl fun x hx => ?_
    cases x <;> cases s <;> simp_all

/-- A block that counts the same whatever the order within the blocks is steady. -/
theorem steady_of_orders (hearlier : ∀ b ∈ earlier, b ≠ []) (hlater : ∀ b ∈ later, b ≠ [])
    (h : ∀ earlier' later', List.Forall₂ List.Perm earlier' earlier → List.Forall₂ List.Perm later' later →
      AnyOrder earlier'.flatten block later'.flatten) : Steady earlier block later := by
  have hrefl (l : List (List Bool)) : List.Forall₂ List.Perm l l := List.forall₂_same.mpr fun b _ => .refl b
  rcases @forall_eq_or block true with hall | hfalse
  · exact .inl ⟨true, hall⟩
  rcases @forall_eq_or block false with hall | htrue
  · exact .inl ⟨false, hall⟩
  have hflat {l : List (List Bool)} (hne : ∀ b ∈ l, b ≠ []) (hnil : l.flatten = []) : l = [] := by
    cases l with
    | nil => rfl
    | cons b l => exact absurd (List.append_eq_nil_iff.mp hnil).1 (hne b List.mem_cons_self)
  rcases (h _ _ (hrefl _) (hrefl _)).ends htrue hfalse with ⟨hnil, hnil', htrueCount, hfalseCount⟩ |
    ⟨s, hlast, hhead, hcount⟩
  · exact .inr (.inl ⟨hflat hearlier hnil, hflat hlater hnil', htrueCount, hfalseCount⟩)
  refine .inr (.inr ⟨s, hcount, ?_, ?_⟩)
  · rcases earlier.eq_nil_or_concat' with rfl | ⟨front, before, rfl⟩
    · cases hlast
    refine ⟨before, by simp, (forall_eq_or s).resolve_right fun hmem => ?_⟩
    -- The block before could end with the other sign.
    obtain ⟨u, hu⟩ := exists_perm_last hmem
    have hother := h (front ++ [u ++ [!s]]) later (List.rel_append (hrefl front) (.cons hu .nil)) (hrefl later)
    rcases hother.ends htrue hfalse with ⟨hnil, -⟩ | ⟨x, hx, hx', -⟩
    · simp at hnil
    · rw [hhead] at hx'
      simp at hx hx'
      rw [← hx'] at hx
      cases s <;> simp at hx
  · cases later with
    | nil => cases hhead
    | cons after rest =>
      refine ⟨after, rfl, (forall_eq_or s).resolve_right fun hmem => ?_⟩
      have hother := h earlier (((!s) :: after.erase (!s)) :: rest) (hrefl earlier)
        (.cons (List.perm_cons_erase hmem).symm (hrefl rest))
      rcases hother.ends htrue hfalse with ⟨-, hnil, -⟩ | ⟨x, hx, hx', -⟩
      · simp at hnil
      · rw [hlast] at hx
        simp at hx hx'
        rw [← hx] at hx'
        cases s <;> simp at hx'

theorem exists_last {α β : Type} {R : α → β → Prop} {l : List α} {front : List β} {b : β}
    (h : List.Forall₂ R l (front ++ [b])) : ∃ a, R a b ∧ l.getLast? = some a := by
  have hdrop := List.forall₂_drop_append _ _ _ h
  obtain ⟨a, rest, hab, hrest, heq⟩ := List.forall₂_cons_right_iff.mp hdrop
  obtain rfl := List.forall₂_nil_right_iff.mp hrest
  refine ⟨a, hab, ?_⟩
  rw [← List.take_append_drop front.length l, heq, List.getLast?_append]
  rfl

theorem exists_split_around {α β : Type} {R : α → β → Prop} {l : List α} {front rest : List β} {b : β}
    (h : List.Forall₂ R l (front ++ b :: rest)) : ∃ front' a rest', l = front' ++ a :: rest' ∧
      List.Forall₂ R front' front ∧ R a b ∧ List.Forall₂ R rest' rest := by
  obtain ⟨a, rest', hab, hrest, heq⟩ := List.forall₂_cons_right_iff.mp (List.forall₂_drop_append _ _ _ h)
  exact ⟨l.take front.length, a, rest', by rw [← heq, List.take_append_drop], List.forall₂_take_append _ _ _ h, hab, hrest⟩

theorem perm_flip {l l' : List (List Bool)} (h : List.Forall₂ List.Perm l l') : List.Forall₂ List.Perm l' l :=
  h.flip.imp fun _ _ hperm => hperm.symm

/-- Steadiness does not depend on the order within the blocks. -/
theorem Steady.perm {earlier' later' : List (List Bool)} {block' : List Bool} (h : Steady earlier block later)
    (hearlier : List.Forall₂ List.Perm earlier' earlier) (hblock : block'.Perm block)
    (hlater : List.Forall₂ List.Perm later' later) : Steady earlier' block' later' := by
  rcases h with ⟨s, hs⟩ | ⟨rfl, rfl, htrue, hfalse⟩ | ⟨s, hcount, ⟨before, hlast, hbefore⟩, after, hhead, hafter⟩
  · exact .inl ⟨s, fun x hx => hs x (hblock.mem_iff.mp hx)⟩
  · exact .inr (.inl ⟨List.forall₂_nil_right_iff.mp hearlier, List.forall₂_nil_right_iff.mp hlater,
      hblock.count_eq true ▸ htrue, hblock.count_eq false ▸ hfalse⟩)
  · refine .inr (.inr ⟨s, hblock.count_eq (!s) ▸ hcount, ?_, ?_⟩)
    · obtain ⟨front, rfl⟩ := List.getLast?_eq_some_iff.mp hlast
      obtain ⟨before', hperm, hlast'⟩ := exists_last hearlier
      exact ⟨before', hlast', fun x hx => hbefore x (hperm.mem_iff.mp hx)⟩
    · obtain ⟨rest, rfl⟩ := List.head?_eq_some_iff.mp hhead
      obtain ⟨after', rest', hperm, -, rfl⟩ := List.forall₂_cons_right_iff.mp hlater
      exact ⟨after', rfl, fun x hx => hafter x (hperm.mem_iff.mp hx)⟩

/-- Every order within the blocks counts the same when every block is steady. The blocks are put in their new order one
    after the other. -/
theorem changes_of_steady {done rest rest' : List (List Bool)} (h : List.Forall₂ List.Perm rest' rest)
    (hne : ∀ b ∈ done ++ rest, b ≠ [])
    (hsteady : ∀ earlier block later, done ++ rest = earlier ++ block :: later → Steady earlier block later) :
    changes (done ++ rest').flatten = changes (done ++ rest).flatten := by
  induction h generalizing done with
  | nil => rfl
  | @cons b' b rest' rest hb hrest ih =>
    have hmem {x : List Bool} (hx : x ∈ done ∨ x ∈ rest) : x ≠ [] := by
      apply hne
      rcases hx with hx | hx
      · exact List.mem_append_left _ hx
      · exact List.mem_append_right _ (List.mem_cons_of_mem _ hx)
    have hb' : b' ≠ [] := by
      rintro rfl
      exact hne b (by simp) (List.nil_perm.mp hb)
    have hone : changes (done ++ b' :: rest).flatten = changes (done ++ b :: rest).flatten := by
      have := (hsteady done b rest rfl).anyOrder (fun x hx => hmem (.inl hx)) (fun x hx => hmem (.inr hx)) b' hb
      simpa [List.append_assoc] using this
    have hnew : List.Forall₂ List.Perm (done ++ b :: rest) (done ++ b' :: rest) :=
      List.rel_append (List.forall₂_same.mpr fun _ _ => .refl _)
        (.cons hb.symm (List.forall₂_same.mpr fun _ _ => .refl _))
    have hrun := @ih (done ++ [b'])
      (by
        intro x hx
        simp only [List.append_assoc, List.mem_append, List.mem_singleton] at hx
        rcases hx with hx | rfl | hx
        · exact hmem (.inl hx)
        · exact hb'
        · exact hmem (.inr hx))
      (by
        intro earlier block later heq
        rw [List.append_assoc, List.singleton_append] at heq
        rw [heq] at hnew
        obtain ⟨earlier', block', later', heq', hearlier, hblock, hlater⟩ := exists_split_around hnew
        exact (hsteady _ _ _ heq').perm (perm_flip hearlier) hblock.symm (perm_flip hlater))
    rw [List.append_assoc, List.append_assoc, List.singleton_append, List.singleton_append] at hrun
    rw [hrun, hone]

/-- The order within the blocks makes no difference exactly when every block is steady. -/
theorem anyOrder_iff {blocks : List (List Bool)} (hne : ∀ b ∈ blocks, b ≠ []) :
    (∀ blocks', List.Forall₂ List.Perm blocks' blocks → changes blocks'.flatten = changes blocks.flatten) ↔
      ∀ earlier block later, blocks = earlier ++ block :: later → Steady earlier block later := by
  constructor
  · rintro h earlier block later rfl
    have hmem {b : List Bool} (hb : b ∈ earlier ∨ b ∈ later) : b ≠ [] := by
      apply hne
      rcases hb with hb | hb
      · exact List.mem_append_left _ hb
      · exact List.mem_append_right _ (List.mem_cons_of_mem _ hb)
    refine steady_of_orders (fun b hb => hmem (.inl hb)) (fun b hb => hmem (.inr hb)) ?_
    intro earlier' later' hearlier hlater block' hperm
    have hnew := h _ (List.rel_append hearlier (.cons hperm hlater))
    have hold := h _ (List.rel_append hearlier (.cons (.refl block) hlater))
    simp only [List.flatten_append, List.flatten_cons, ← List.append_assoc] at hnew hold
    rw [hnew, hold]
  · intro h blocks' hblocks
    exact @changes_of_steady [] blocks blocks' hblocks hne h

end

end Signs
