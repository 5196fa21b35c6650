import Mathlib.Data.Fintype.EquivFin
import Mathlib.Data.List.FinRange
import Mathlib.Data.List.Perm.Subperm
import Mathlib.Data.List.Sort

/-! Pairing the elements of two lists: one to one, with elements left over, and the search that gives each element of
the first list the first free element of the second that fits. Where what fits is such that two pairs can exchange their
ends, that search leaves the fewest elements over. -/

namespace Pairs
variable {α β : Type}

/-! ### One to one -/

/-- The elements of the two lists fit one to one. -/
def Paired (r : α → β → Prop) (as : List α) (bs : List β) : Prop := ∃ as', as'.Perm as ∧ List.Forall₂ r as' bs

section Paired
variable {r : α → β → Prop} {as as' : List α} {bs bs' : List β}

theorem Paired.length_eq (h : Paired r as bs) : as.length = bs.length := by
  obtain ⟨as', hperm, hfits⟩ := h
  exact hperm.length_eq.symm.trans hfits.length_eq

theorem Paired.perm_left (h : Paired r as bs) (has : as.Perm as') : Paired r as' bs := by
  obtain ⟨xs, hperm, hfits⟩ := h
  exact ⟨xs, hperm.trans has, hfits⟩

theorem Paired.perm_right (h : Paired r as bs) (hbs : bs.Perm bs') : Paired r as bs' := by
  obtain ⟨xs, hperm, hfits⟩ := h
  obtain ⟨ys, hys, hperm'⟩ := List.perm_comp_forall₂ hbs.symm (List.Forall₂.flip hfits)
  exact ⟨ys, hperm'.trans hperm, List.Forall₂.flip hys⟩

theorem paired_perm (has : as.Perm as') (hbs : bs.Perm bs') : Paired r as bs ↔ Paired r as' bs' :=
  ⟨fun h => (h.perm_left has).perm_right hbs, fun h => (h.perm_left has.symm).perm_right hbs.symm⟩

/-- What the pairs agree on is the same over both lists. -/
theorem Paired.map_perm {γ : Type} {f : α → γ} {g : β → γ} (hfg : ∀ {a b}, r a b → f a = g b) (h : Paired r as bs) :
    (as.map f).Perm (bs.map g) := by
  obtain ⟨as', hperm, hfits⟩ := h
  have hmap : as'.map f = bs.map g := by
    clear hperm
    induction hfits with
    | nil => rfl
    | cons hab _ ih => rw [List.map_cons, List.map_cons, hfg hab, ih]
  exact hmap ▸ (hperm.map f).symm

/-- A choice on which the pairs agree leaves pairs. -/
theorem Paired.filter {p : α → Bool} {q : β → Bool} (hpq : ∀ {a b}, r a b → p a = q b) (h : Paired r as bs) :
    Paired (fun a b => r a b ∧ q b = true) (as.filter p) (bs.filter q) := by
  obtain ⟨as', hperm, hfits⟩ := h
  refine ⟨as'.filter p, hperm.filter p, ?_⟩
  induction hfits generalizing as with
  | nil => exact .nil
  | @cons a b as' bs hab _ ih =>
    cases hb : q b with
    | true =>
      rw [List.filter_cons_of_pos ((hpq hab).trans hb), List.filter_cons_of_pos hb]
      exact .cons ⟨hab, hb⟩ (ih (.refl _))
    | false =>
      rw [List.filter_cons_of_neg (by rw [hpq hab, hb]; exact Bool.false_ne_true),
        List.filter_cons_of_neg (by rw [hb]; exact Bool.false_ne_true)]
      exact ih (.refl _)

/-- One to one between the places of the lists. -/
theorem paired_iff : Paired r as bs ↔ ∃ σ : Fin bs.length ≃ Fin as.length, ∀ i, r (as.get (σ i)) (bs.get i) := by
  constructor
  · rintro ⟨as', hperm, hfits⟩
    have hplaces : List.Forall₂ (fun a i => as.get i = a) as (List.finRange as.length) := by
      refine List.forall₂_iff_get.mpr ⟨List.length_finRange.symm, fun i h₁ h₂ => ?_⟩
      simp
    obtain ⟨places, hplaces, hall⟩ := List.perm_comp_forall₂ hperm hplaces
    have hnodup : places.Nodup := hall.nodup_iff.mpr (List.nodup_finRange _)
    have hlength : bs.length = places.length := hfits.length_eq.symm.trans hplaces.length_eq
    let σ : Fin bs.length → Fin as.length := fun i => places.get (i.cast hlength)
    have hinjective : Function.Injective σ := fun i j h =>
      Fin.cast_injective hlength (List.nodup_iff_injective_get.mp hnodup h)
    have hcard : Fintype.card (Fin bs.length) = Fintype.card (Fin as.length) := by
      rw [Fintype.card_fin, Fintype.card_fin, hlength, hall.length_eq, List.length_finRange]
    refine ⟨Equiv.ofBijective σ ((Fintype.bijective_iff_injective_and_card σ).mpr ⟨hinjective, hcard⟩), fun i => ?_⟩
    have hi : i.val < as'.length := by
      rw [hfits.length_eq]
      exact i.isLt
    have hplace : as.get (σ i) = as'.get ⟨i, hi⟩ :=
      (List.forall₂_iff_get.mp hplaces).2 i hi (i.cast hlength).isLt
    change r (as.get (σ i)) _
    rw [hplace]
    exact (List.forall₂_iff_get.mp hfits).2 i hi i.isLt
  · rintro ⟨σ, hσ⟩
    have hplaces : ((List.finRange bs.length).map σ).Perm (List.finRange as.length) := by
      refine (List.perm_ext_iff_of_nodup ((List.nodup_finRange _).map σ.injective) (List.nodup_finRange _)).mpr ?_
      intro i
      simp only [List.mem_map, List.mem_finRange, true_and, iff_true]
      exact σ.surjective i
    refine ⟨((List.finRange bs.length).map σ).map as.get, ?_, ?_⟩
    · have hget := hplaces.map as.get
      rw [List.map_get_finRange] at hget
      exact hget
    · refine List.forall₂_iff_get.mpr ⟨by simp, fun i h₁ h₂ => ?_⟩
      simpa using hσ ⟨i, h₂⟩

end Paired

/-! ### Marks -/

/-- The elements that are not marked. -/
def unmarked (xs : List α) (marks : List Bool) : List α := ((xs.zip marks).filter fun p => !p.2).map Prod.fst

section Marks
variable {xs : List α} {marks : List Bool}

theorem unmarked_replicate (xs : List α) : unmarked xs (List.replicate xs.length false) = xs := by
  unfold unmarked
  induction xs with
  | nil => rfl
  | cons x xs ih => simp_all [List.replicate_succ]

/-- An unmarked element, between the unmarked ones before it and those behind it. Marking it takes it out. -/
theorem unmarked_set {i : Nat} {x : α} (hx : xs[i]? = some x) (hfree : marks[i]? = some false) :
    unmarked xs marks = unmarked (xs.take i) (marks.take i) ++ x :: unmarked (xs.drop (i + 1)) (marks.drop (i + 1)) ∧
      unmarked xs (marks.set i true) =
        unmarked (xs.take i) (marks.take i) ++ unmarked (xs.drop (i + 1)) (marks.drop (i + 1)) := by
  induction xs generalizing marks i with
  | nil => cases hx
  | cons y xs ih =>
    rcases marks with _ | ⟨m, marks⟩
    · cases hfree
    cases i with
    | zero =>
      cases hx
      cases hfree
      exact ⟨rfl, rfl⟩
    | succ i =>
      obtain ⟨hbefore, hafter⟩ := @ih marks i hx hfree
      unfold unmarked at hbefore hafter ⊢
      cases m with
      | true => exact ⟨hbefore, hafter⟩
      | false => exact ⟨congrArg (y :: ·) hbefore, congrArg (y :: ·) hafter⟩

theorem mem_unmarked {x : α} : x ∈ unmarked xs marks ↔ ∃ i : Nat, xs[i]? = some x ∧ marks[i]? = some false := by
  unfold unmarked
  constructor
  · intro h
    obtain ⟨⟨y, m⟩, hmem, rfl⟩ := List.mem_map.mp h
    obtain ⟨hzip, hm⟩ := List.mem_filter.mp hmem
    obtain ⟨i, hi⟩ := List.mem_iff_getElem?.mp hzip
    obtain ⟨hy, hmark⟩ := List.getElem?_zip_eq_some.mp hi
    exact ⟨i, hy, by rw [hmark]; simpa using hm⟩
  · rintro ⟨i, hx, hmark⟩
    exact List.mem_map.mpr ⟨(x, false), List.mem_filter.mpr
      ⟨List.mem_iff_getElem?.mpr ⟨i, List.getElem?_zip_eq_some.mpr ⟨hx, hmark⟩⟩, rfl⟩, rfl⟩

/-- The place of the first unmarked element with a property. -/
def firstFree (p : α → Bool) (xs : List α) (marks : List Bool) : Option Nat :=
  (xs.zipIdx.find? fun item => !marks.getD item.2 false && p item.1).map Prod.snd

theorem firstFree_none {p : α → Bool} (h : firstFree p xs marks = none) : (unmarked xs marks).any p = false := by
  unfold firstFree at h
  rw [Option.map_eq_none_iff, List.find?_eq_none] at h
  rw [List.any_eq_false]
  intro x hx hp
  obtain ⟨i, hi, hmark⟩ := mem_unmarked.mp hx
  refine h (x, i) (List.mem_zipIdx_iff_getElem?.mpr hi) ?_
  simp [List.getD_eq_getElem?_getD, hmark, hp]

/-- Marking the element that is found is taking the first one off the unmarked ones. -/
theorem firstFree_some {p : α → Bool} {i : Nat} (hlen : marks.length = xs.length) (h : firstFree p xs marks = some i) :
    (unmarked xs marks).any p = true ∧ unmarked xs (marks.set i true) = (unmarked xs marks).eraseP p := by
  unfold firstFree at h
  obtain ⟨⟨x, i⟩, hfind, rfl⟩ := Option.map_eq_some_iff.mp h
  obtain ⟨hitem, k, hk, hget, hbefore⟩ := List.find?_eq_some_iff_getElem.mp hfind
  have hk' : k < xs.length := by simpa using hk
  have hx : xs[k] = x ∧ k = i := by simpa using hget
  obtain ⟨rfl, rfl⟩ := hx
  obtain ⟨hmark, hp⟩ := Bool.and_eq_true_iff.mp hitem
  have hfree : marks[k]? = some false := by
    have hm : k < marks.length := hlen ▸ hk'
    rw [List.getD_eq_getElem?_getD, List.getElem?_eq_getElem hm, Option.getD_some, Bool.not_eq_true'] at hmark
    rw [List.getElem?_eq_getElem hm, hmark]
  obtain ⟨hall, hset⟩ := unmarked_set (List.getElem?_eq_getElem hk') hfree
  have hnone : ∀ y ∈ unmarked (xs.take k) (marks.take k), ¬p y = true := by
    intro y hy hpy
    obtain ⟨j, hj, hmark'⟩ := mem_unmarked.mp hy
    rw [List.getElem?_take] at hj hmark'
    split at hj
    · next hjk =>
      rw [if_pos hjk] at hmark'
      have hjx : j < xs.length := hjk.trans hk'
      have hgetj := hbefore j hjk
      rw [List.getElem?_eq_getElem hjx] at hj
      cases hj
      simp [List.getD_eq_getElem?_getD, hmark', hpy] at hgetj
    · cases hj
  rw [hset, hall]
  refine ⟨List.any_eq_true.mpr ⟨_, List.mem_append_right _ List.mem_cons_self, hp⟩, ?_⟩
  rw [List.eraseP_append_right _ hnone, List.eraseP_cons_of_pos hp]

end Marks

/-! ### Pairs and what is left over -/

/-- Pairs that fit, with what each list has left over. No element is used twice. -/
structure Assigns (r : α → β → Bool) (as : List α) (bs : List β) (pairs : List (α × β)) (missing : List α)
    (spare : List β) : Prop where
  lefts : (pairs.map Prod.fst ++ missing).Perm as
  rights : (pairs.map Prod.snd ++ spare).Perm bs
  fits : ∀ p ∈ pairs, r p.1 p.2 = true

/-- Each element in turn takes the first element that fits, among those that are still there. What finds none is left
    over. -/
def firstFit (r : α → β → Bool) : List α → List β → List α
  | [], _ => []
  | a :: as, bs => if bs.any (r a) then firstFit r as (bs.eraseP (r a)) else a :: firstFit r as bs

section FirstFit
variable {r : α → β → Bool} {a : α} {as : List α} {bs bs' : List β} {pairs : List (α × β)} {missing : List α} {spare : List β}

theorem firstFit_cons : firstFit r (a :: as) bs =
    if bs.any (r a) then firstFit r as (bs.eraseP (r a)) else a :: firstFit r as bs := rfl

/-- The first element that fits, between those before it, which do not, and those behind it. -/
theorem first_of_any (h : bs.any (r a) = true) : ∃ before b after, bs = before ++ b :: after ∧ r a b = true ∧
    (∀ x ∈ before, r a x = false) ∧ bs.eraseP (r a) = before ++ after := by
  obtain ⟨x, hx, hrx⟩ := List.any_eq_true.mp h
  obtain ⟨b, before, after, hbefore, hb, hsplit, herase⟩ := List.exists_of_eraseP hx hrx
  exact ⟨before, b, after, hsplit, hb, fun y hy => Bool.eq_false_iff.mpr (hbefore y hy), herase⟩

/-- What the search leaves over is left over by pairs that fit. -/
theorem exists_assigns (r : α → β → Bool) (as : List α) (bs : List β) :
    ∃ pairs spare, Assigns r as bs pairs (firstFit r as bs) spare := by
  induction as generalizing bs with
  | nil => exact ⟨[], bs, .refl _, .refl _, fun _ hp => (nomatch hp)⟩
  | cons a as ih =>
    rw [firstFit_cons]
    split
    · next hany =>
      obtain ⟨before, b, after, rfl, hb, -, herase⟩ := first_of_any hany
      rw [herase]
      obtain ⟨pairs, spare, hlefts, hrights, hfits⟩ := ih (before ++ after)
      refine ⟨(a, b) :: pairs, spare, hlefts.cons a, (hrights.cons b).trans List.perm_middle.symm, fun p hp => ?_⟩
      rcases List.mem_cons.mp hp with rfl | hp
      · exact hb
      · exact hfits p hp
    · obtain ⟨pairs, spare, hlefts, hrights, hfits⟩ := ih bs
      exact ⟨pairs, spare, List.perm_middle.trans (hlefts.cons a), hrights, hfits⟩

theorem perm_cons_of_mem {γ : Type} {x : γ} {xs : List γ} (h : x ∈ xs) : ∃ rest, xs.Perm (x :: rest) := by
  obtain ⟨before, after, rfl⟩ := List.append_of_mem h
  exact ⟨before ++ after, List.perm_middle⟩

theorem Assigns.perm {pairs' : List (α × β)} {missing' : List α} {spare' : List β} (h : Assigns r as bs pairs missing spare)
    (hpairs : pairs.Perm pairs') (hmissing : missing.Perm missing') (hspare : spare.Perm spare') :
    Assigns r as bs pairs' missing' spare' where
  lefts := ((hpairs.map _).append hmissing).symm.trans h.lefts
  rights := ((hpairs.map _).append hspare).symm.trans h.rights
  fits p hp := h.fits p (hpairs.mem_iff.mpr hp)

/-- The exchange: pairs that fit can be changed so that the first element has its first fitting partner, and no more
    elements are left over than before. -/
theorem Assigns.exchange {before after : List β} {b : β} (h : Assigns r (a :: as) (before ++ b :: after) pairs missing spare)
    (hbefore : ∀ x ∈ before, r a x = false)
    (hexchange : ∀ a' ∈ as, ∀ b' ∈ after, r a b' = true → r a' b = true → r a' b' = true) :
    ∃ pairs' missing' spare', Assigns r as (before ++ after) pairs' missing' spare' ∧
      missing'.length ≤ missing.length := by
  have hrights : (pairs.map Prod.snd ++ spare).Perm (b :: (before ++ after)) := h.rights.trans List.perm_middle
  have hb : b ∈ pairs.map Prod.snd ++ spare := hrights.mem_iff.mpr List.mem_cons_self
  rcases List.mem_append.mp (h.lefts.mem_iff.mpr List.mem_cons_self) with ha | ha
  · -- The first element has a partner, perhaps another one.
    obtain ⟨⟨_, b'⟩, hp, rfl⟩ := List.mem_map.mp ha
    obtain ⟨rest, hrest⟩ := perm_cons_of_mem hp
    obtain ⟨hfirst, hsecond, hfits⟩ := h.perm hrest (.refl _) (.refl _)
    have hlefts : (rest.map Prod.fst ++ missing).Perm as := hfirst.cons_inv
    have hrights' : (b' :: (rest.map Prod.snd ++ spare)).Perm (b :: (before ++ after)) := hsecond.trans List.perm_middle
    have hrest' : ∀ p ∈ rest, r p.1 p.2 = true := fun p hp => hfits p (List.mem_cons_of_mem _ hp)
    by_cases heq : b = b'
    · subst heq
      exact ⟨rest, missing, spare, ⟨hlefts, hrights'.cons_inv, hrest'⟩, le_rfl⟩
    rcases List.mem_append.mp ((List.mem_cons.mp (hrights'.mem_iff.mpr List.mem_cons_self)).resolve_left heq) with hb | hb
    · -- The partner goes to the one that has the first fitting one.
      obtain ⟨⟨a', _⟩, hp', rfl⟩ := List.mem_map.mp hb
      obtain ⟨others, hothers⟩ := perm_cons_of_mem hp'
      have hlefts' : (a' :: (others.map Prod.fst ++ missing)).Perm as :=
        ((hothers.map Prod.fst).append_right missing).symm.trans hlefts
      have hb' : b' ∈ after := by
        rcases List.mem_cons.mp (hrights'.mem_iff.mp List.mem_cons_self) with hbb | hmem
        · exact absurd hbb.symm heq
        · rcases List.mem_append.mp hmem with hmem | hmem
          · exact absurd (hfits _ List.mem_cons_self) (Bool.eq_false_iff.mp (hbefore b' hmem))
          · exact hmem
      refine ⟨(a', b') :: others, missing, spare, ⟨hlefts', ?_, fun p hp => ?_⟩, le_rfl⟩
      · have hswap : (b' :: (rest.map Prod.snd ++ spare)).Perm (_ :: b' :: (others.map Prod.snd ++ spare)) :=
          (((hothers.map Prod.snd).append_right spare).cons b').trans (List.Perm.swap _ _ _)
        exact (hswap.symm.trans hrights').cons_inv
      · rcases List.mem_cons.mp hp with rfl | hp
        · exact hexchange a' (hlefts'.mem_iff.mp List.mem_cons_self) b' hb' (hfits _ List.mem_cons_self)
            (hrest' _ hp')
        · exact hrest' p (hothers.mem_iff.mpr (List.mem_cons_of_mem _ hp))
    · obtain ⟨left, hleft⟩ := perm_cons_of_mem hb
      refine ⟨rest, missing, b' :: left, ⟨hlefts, ?_, hrest'⟩, le_rfl⟩
      have hmove : (b' :: (rest.map Prod.snd ++ spare)).Perm (b :: (rest.map Prod.snd ++ b' :: left)) :=
        ((hleft.append_left _).trans List.perm_middle).cons b' |>.trans
          ((List.Perm.swap _ _ _).trans (List.perm_middle.symm.cons b))
      exact (hmove.symm.trans hrights').cons_inv
  · -- The first element is left over: its place among those is free.
    obtain ⟨others, hothers⟩ := perm_cons_of_mem ha
    have hlefts : (pairs.map Prod.fst ++ others).Perm as :=
      (List.perm_middle.symm.trans ((hothers.symm.append_left _).trans h.lefts)).cons_inv
    rcases List.mem_append.mp hb with hb | hb
    · obtain ⟨⟨a', _⟩, hp, rfl⟩ := List.mem_map.mp hb
      obtain ⟨rest, hrest⟩ := perm_cons_of_mem hp
      refine ⟨rest, a' :: others, spare, ⟨?_, ?_, fun p hp => h.fits p (hrest.mem_iff.mpr (List.mem_cons_of_mem _ hp))⟩, ?_⟩
      · exact List.perm_middle.trans (((hrest.map Prod.fst).append_right others).symm.trans hlefts)
      · exact (((hrest.map Prod.snd).append_right spare).symm.trans hrights).cons_inv
      · rw [hothers.length_eq, List.length_cons, List.length_cons]
    · obtain ⟨left, hleft⟩ := perm_cons_of_mem hb
      refine ⟨pairs, others, left, ⟨hlefts, ?_, h.fits⟩, ?_⟩
      · exact (List.perm_middle.symm.trans ((hleft.symm.append_left _).trans hrights)).cons_inv
      · rw [hothers.length_eq, List.length_cons]
        exact Nat.le_succ _

/-- What fits is such that two pairs can exchange their ends: where the earlier element fits both, the later one, which
    fits the earlier partner, fits the later partner as well. -/
def Exchanges (r : α → β → Bool) (as : List α) (bs : List β) : Prop :=
  as.Pairwise fun a a' => bs.Pairwise fun b b' => r a b = true → r a b' = true → r a' b = true → r a' b' = true

/-- No pairs that fit leave fewer elements over than the search. -/
theorem firstFit_le (hexchange : Exchanges r as bs) (h : Assigns r as bs pairs missing spare) :
    (firstFit r as bs).length ≤ missing.length := by
  induction as generalizing bs pairs missing spare with
  | nil => exact Nat.zero_le _
  | cons a as ih =>
    obtain ⟨hhead, htail⟩ := List.pairwise_cons.mp hexchange
    rw [firstFit_cons]
    split
    · next hany =>
      obtain ⟨before, b, after, rfl, hb, hbefore, herase⟩ := first_of_any hany
      rw [herase]
      have hafter : ∀ a' ∈ as, ∀ b' ∈ after, r a b' = true → r a' b = true → r a' b' = true :=
        fun a' ha' b' hb' => (List.pairwise_cons.mp (List.pairwise_append.mp (hhead a' ha')).2.1).1 b' hb' hb
      obtain ⟨pairs', missing', spare', h', hle⟩ := h.exchange hbefore hafter
      have hsub : (before ++ after).Sublist (before ++ b :: after) := (List.sublist_cons_self b after).append_left before
      exact (ih (htail.imp fun hp => hp.sublist hsub) h').trans hle
    · next hnone =>
      have hmissing : a ∈ missing := by
        rcases List.mem_append.mp (h.lefts.mem_iff.mpr List.mem_cons_self) with ha | ha
        · obtain ⟨p, hp, rfl⟩ := List.mem_map.mp ha
          have hb : p.2 ∈ bs := h.rights.mem_iff.mp (List.mem_append_left _ (List.mem_map_of_mem hp))
          exact absurd (List.any_eq_true.mpr ⟨p.2, hb, h.fits p hp⟩) hnone
        · exact ha
      obtain ⟨others, hothers⟩ := perm_cons_of_mem hmissing
      have hlefts : (pairs.map Prod.fst ++ others).Perm as :=
        (List.perm_middle.symm.trans ((hothers.symm.append_left _).trans h.lefts)).cons_inv
      rw [hothers.length_eq]
      exact Nat.succ_le_succ (ih htail ⟨hlefts, h.rights, h.fits⟩)

/-- The search sees of the second list only what decides what fits. -/
theorem firstFit_map {γ : Type} (r : α → γ → Bool) (f : β → γ) (as : List α) (bs : List β) :
    firstFit (fun a b => r a (f b)) as bs = firstFit r as (bs.map f) := by
  induction as generalizing bs with
  | nil => rfl
  | cons a as ih =>
    rw [firstFit_cons, firstFit_cons, List.any_map, List.eraseP_map, ih, ih]
    rfl

/-- And of the first list. -/
theorem map_firstFit {γ : Type} (r : γ → β → Bool) (f : α → γ) (as : List α) (bs : List β) :
    (firstFit (fun a b => r (f a) b) as bs).map f = firstFit r (as.map f) bs := by
  induction as generalizing bs with
  | nil => rfl
  | cons a as ih =>
    rw [List.map_cons, firstFit_cons, firstFit_cons]
    by_cases h : bs.any (r (f a)) = true
    · rw [if_pos h, if_pos h]
      exact ih _
    · rw [if_neg h, if_neg h]
      exact congrArg (f a :: ·) (ih bs)

/-- Two orders of the second list lead to the same result, where those that fit one element come in one order. -/
theorem firstFit_perm {le : β → β → Prop} (hperm : bs.Perm bs') (hbs : bs.Pairwise le) (hbs' : bs'.Pairwise le)
    (hunique : ∀ a ∈ as, ∀ b b', r a b = true → r a b' = true → le b b' → le b' b → b = b') :
    firstFit r as bs = firstFit r as bs' := by
  induction as generalizing bs bs' with
  | nil => rfl
  | cons a as ih =>
    obtain ⟨hhead, htail⟩ := List.forall_mem_cons.mp hunique
    have hany : bs.any (r a) = bs'.any (r a) := by
      rw [Bool.eq_iff_iff, List.any_eq_true, List.any_eq_true]
      simp only [hperm.mem_iff]
    rw [firstFit_cons, firstFit_cons, ← hany]
    split
    · next h =>
      obtain ⟨before, b, after, rfl, hb, hbefore, herase⟩ := first_of_any h
      obtain ⟨before', b', after', rfl, hb', hbefore', herase'⟩ := first_of_any (hany ▸ h)
      -- Each of the two comes before the other in one of the lists.
      have hprecedes : ∀ {before after before' after' : List β} {b b' : β}, r a b' = true →
          (∀ x ∈ before, r a x = false) → (before ++ b :: after).Pairwise le →
          (before ++ b :: after).Perm (before' ++ b' :: after') → b = b' ∨ le b b' := by
        intro before after before' after' b b' hb' hbefore hle hperm
        have hmem : b' ∈ before ++ b :: after :=
          hperm.mem_iff.mpr (List.mem_append_right _ List.mem_cons_self)
        rcases List.mem_append.mp hmem with hmem | hmem
        · exact absurd hb' (Bool.eq_false_iff.mp (hbefore b' hmem))
        · rcases List.mem_cons.mp hmem with heq | hmem
          · exact .inl heq.symm
          · exact .inr ((List.pairwise_cons.mp (List.pairwise_append.mp hle).2.1).1 b' hmem)
      have heq : b = b' := by
        rcases hprecedes hb' hbefore hbs hperm with heq | hle
        · exact heq
        · rcases hprecedes hb hbefore' hbs' hperm.symm with heq | hle'
          · exact heq.symm
          · exact hhead b b' hb hb' hle hle'
      subst heq
      rw [herase, herase']
      have hrest : (before ++ after).Perm (before' ++ after') :=
        (List.perm_middle.symm.trans (hperm.trans List.perm_middle)).cons_inv
      exact ih hrest (hbs.sublist ((List.sublist_cons_self b after).append_left before))
        (hbs'.sublist ((List.sublist_cons_self b after').append_left before')) htail
    · exact congrArg (a :: ·) (ih hperm hbs hbs' htail)

end FirstFit
end Pairs
