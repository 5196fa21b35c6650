import Iaam.Theorems.MirrorGroups

/-! What the numbers of the rows decide. The rows of a group are matched in the order of their numbers. Where they differ in
whether they name the other account, the order can decide which evidence a pair has: not where the rows of the larger
side, or of one side of two equal ones, agree on it. -/

namespace Iaam
namespace Mirror

/-- What is recorded of a pair. -/
structure Fact where
  group : Group
  evidence : MirrorEvidence
  deriving DecidableEq, Repr

/-- What is recorded of the pairs, each read by the numbers of its rows. -/
def facts (sides : List MirrorSide) : List Fact :=
  (mirrored sides).pairs.filterMap fun pair => do
    let outgoing ← sides.find? fun side => side.row = pair.outgoing
    let incoming ← sides.find? fun side => side.row = pair.incoming
    return ⟨groupOf (outgoing, incoming), pair.evidence⟩

/-- The same rows under other numbers. -/
def renumber (f : Nat → Nat) (side : MirrorSide) : MirrorSide := { side with row := f side.row }

/-- Whether a row names the other account. -/
def named (side : MirrorSide) : Bool := side.farSide.isSome

/-- The evidence of two rows, by whether they name each other. -/
def evidenceMark (outgoing incoming : Bool) : MirrorEvidence :=
  match outgoing, incoming with
  | true, true => .bothSidesNamed
  | true, false | false, true => .oneSideNamed
  | false, false => .shapeAlone

theorem evidenceOf_eq (outgoing incoming : MirrorSide) :
    evidenceOf outgoing incoming = evidenceMark (named outgoing) (named incoming) := by
  unfold evidenceOf evidenceMark named
  cases outgoing.farSide.isSome <;> cases incoming.farSide.isSome <;> rfl

section
variable {sides : List MirrorSide} {outgoing incoming side : MirrorSide} {g : Group} {f : Nat → Nat}

/-- The facts are those of the matched sides. -/
theorem facts_eq (hrows : (sides.map MirrorSide.row).Nodup) :
    facts sides = (matched sides).map fun pair => ⟨groupOf pair, evidenceOf pair.1 pair.2⟩ := by
  have hfind : ∀ side ∈ sides, sides.find? (fun other => other.row = side.row) = some side := fun side hside =>
    (Search.find_key_eq_some hrows).mpr ⟨hside, rfl⟩
  unfold facts mirrored
  dsimp only
  rw [List.filterMap_map, ← List.filterMap_eq_map]
  refine List.filterMap_congr fun pair hpair => ?_
  have hp := pairable_of_matched hpair
  simp only [Function.comp_apply, hfind _ hp.leaves, hfind _ hp.arrives]
  rfl

/-- The evidence in a group: its rows side by side, in the order of their numbers. -/
theorem evidence_group (hrows : (sides.map MirrorSide.row).Nodup) (g : Group) :
    ((facts sides).filter fun fact => fact.group = g).map Fact.evidence =
      Matching.marks evidenceMark named named (byRow (departures sides g)) (byRow (arrivals sides g)) := by
  rw [facts_eq hrows, List.filter_map, List.map_map]
  unfold Matching.marks
  rw [← matched_group hrows g]
  refine List.map_congr_left fun pair _ => ?_
  exact evidenceOf_eq pair.1 pair.2

/-- Facts are the same ones when they are so in each group. -/
theorem perm_of_groups {l l' : List Fact} (h : ∀ g, ((l.filter fun fact => fact.group = g).map Fact.evidence).Perm
    ((l'.filter fun fact => fact.group = g).map Fact.evidence)) : l.Perm l' := by
  refine List.perm_iff_count.mpr fun fact => ?_
  have hcount : ∀ l : List Fact, l.count fact =
      ((l.filter fun other => other.group = fact.group).map Fact.evidence).count fact.evidence := fun l => by
    rw [List.count_eq_countP, List.count_eq_countP, List.countP_map, List.countP_filter]
    refine List.countP_congr fun other _ => ?_
    simp only [Function.comp_apply, Bool.and_eq_true, beq_iff_eq, decide_eq_true_eq]
    constructor
    · rintro rfl
      exact ⟨rfl, rfl⟩
    · rintro ⟨hevidence, hgroup⟩
      cases other
      cases fact
      cases hevidence
      cases hgroup
      rfl
  rw [hcount l, hcount l', (h fact.group).count_eq]

/-! ### Other numbers -/

theorem counterparts_renumber (sides : List MirrorSide) (side : MirrorSide) :
    counterparts (sides.map (renumber f)) (renumber f side) = (counterparts sides side).map (renumber f) := by
  unfold counterparts
  rw [List.filter_map]
  rfl

theorem counterpartAccounts_renumber (sides : List MirrorSide) (side : MirrorSide) :
    counterpartAccounts (sides.map (renumber f)) (renumber f side) = counterpartAccounts sides side := by
  unfold counterpartAccounts
  rw [counterparts_renumber, List.map_map]
  rfl

theorem decidable_renumber (sides : List MirrorSide) (g : Group) (direction : Classification.Movement)
    (near far : AccountId) : decidable (sides.map (renumber f)) g direction near far =
      (decidable sides g direction near far).map (renumber f) := by
  unfold decidable
  rw [List.filter_map]
  refine congrArg (List.map (renumber f)) (List.filter_congr fun side _ => ?_)
  rw [Function.comp_apply, counterpartAccounts_renumber]
  rfl

/-- Rows in the order of their new numbers. -/
def byNumber (f : Nat → Nat) (sides : List MirrorSide) : List MirrorSide :=
  sides.insertionSort fun l r => f l.row ≤ f r.row

theorem byRow_renumber (l : List MirrorSide) : byRow (l.map (renumber f)) = (byNumber f l).map (renumber f) :=
  (List.map_insertionSort (r := fun l r : MirrorSide => f l.row ≤ f r.row)
    (s := fun l r : MirrorSide => l.row ≤ r.row) (renumber f) l fun _ _ _ _ => Iff.rfl).symm

theorem marks_renumber (xs ys : List MirrorSide) : Matching.marks evidenceMark named named (xs.map (renumber f))
    (ys.map (renumber f)) = Matching.marks evidenceMark named named xs ys := by
  unfold Matching.marks
  rw [List.zip_map, List.map_map]
  rfl

/-- Different rows have different numbers. -/
def Renumbers (f : Nat → Nat) (sides : List MirrorSide) : Prop :=
  ∀ l ∈ sides.map MirrorSide.row, ∀ r ∈ sides.map MirrorSide.row, f l = f r → l = r

theorem nodup_renumber (hrows : (sides.map MirrorSide.row).Nodup) (hf : Renumbers f sides) :
    ((sides.map (renumber f)).map MirrorSide.row).Nodup := by
  have hmap : (sides.map (renumber f)).map MirrorSide.row = (sides.map MirrorSide.row).map f := by
    rw [List.map_map, List.map_map]
    rfl
  rw [hmap]
  exact hrows.map_on hf

theorem evidence_renumber (hrows : (sides.map MirrorSide.row).Nodup) (hf : Renumbers f sides) (g : Group) :
    ((facts (sides.map (renumber f))).filter fun fact => fact.group = g).map Fact.evidence =
      Matching.marks evidenceMark named named (byNumber f (departures sides g)) (byNumber f (arrivals sides g)) := by
  rw [evidence_group (nodup_renumber hrows hf), departures, arrivals, decidable_renumber, decidable_renumber,
    byRow_renumber, byRow_renumber, marks_renumber]
  rfl

/-! ### Every order has its numbers -/

/-- The places in a list that begins with different names. -/
theorem pairwise_idxOf {names rest : List Nat} (h : names.Nodup) :
    names.Pairwise fun a b => (names ++ rest).idxOf a < (names ++ rest).idxOf b := by
  rw [List.pairwise_iff_getElem]
  intro i j hi hj hij
  rw [List.idxOf_append_of_mem (List.getElem_mem hi), List.idxOf_append_of_mem (List.getElem_mem hj),
    h.idxOf_getElem i hi, h.idxOf_getElem j hj]
  exact hij

theorem byNumber_eq {l l' : List MirrorSide} (hperm : l'.Perm l)
    (hsorted : l'.Pairwise fun x y => f x.row < f y.row) : byNumber f l = l' := by
  have htotal : Std.Total fun x y : MirrorSide => f x.row ≤ f y.row := ⟨fun x y => le_total (f x.row) (f y.row)⟩
  have htrans : IsTrans MirrorSide fun x y => f x.row ≤ f y.row := ⟨fun _ _ _ => le_trans⟩
  have hinj : ∀ x ∈ l', ∀ y ∈ l', f x.row = f y.row → x = y := by
    have hnodup : (l'.map fun x => f x.row).Nodup := List.pairwise_map.mpr (hsorted.imp fun hlt => hlt.ne)
    exact fun x hx y hy heq => List.inj_on_of_nodup_map hnodup hx hy heq
  have hown := List.perm_insertionSort (fun x y : MirrorSide => f x.row ≤ f y.row) l
  refine List.Perm.eq_of_pairwise (fun x y hx hy hle hge => ?_)
    (List.pairwise_insertionSort (fun x y : MirrorSide => f x.row ≤ f y.row) l) (hsorted.imp le_of_lt)
    (hown.trans hperm.symm)
  exact hinj x (hperm.mem_iff.mpr (hown.mem_iff.mp hx)) y hy (le_antisymm hle hge)

/-- Any order of the departures and of the arrivals of a group is the order of some numbers. -/
theorem exists_numbers (hrows : (sides.map MirrorSide.row).Nodup) {xs ys : List MirrorSide}
    (hxs : xs.Perm (departures sides g)) (hys : ys.Perm (arrivals sides g)) :
    ∃ f, Renumbers f sides ∧ byNumber f (departures sides g) = xs ∧ byNumber f (arrivals sides g) = ys := by
  have hnodup : ∀ direction near far (l : List MirrorSide), l.Perm (decidable sides g direction near far) →
      (l.map MirrorSide.row).Nodup := fun _ _ _ _ h =>
    (h.map _).nodup_iff.mpr ((List.filter_sublist.map _).nodup hrows)
  have hdisjoint : List.Disjoint (xs.map MirrorSide.row) (ys.map MirrorSide.row) := by
    intro row hx hy
    obtain ⟨x, hxmem, rfl⟩ := List.mem_map.mp hx
    obtain ⟨y, hymem, heq⟩ := List.mem_map.mp hy
    have hout := mem_departures.mp (hxs.mem_iff.mp hxmem)
    have harrives := mem_arrivals.mp (hys.mem_iff.mp hymem)
    have hdirection := hout.direction
    rw [← List.inj_on_of_nodup_map hrows harrives.mem hout.mem heq, harrives.direction] at hdirection
    cases hdirection
  have hends : (xs.map MirrorSide.row ++ ys.map MirrorSide.row).Nodup :=
    (hnodup _ _ _ _ hxs).append (hnodup _ _ _ _ hys) hdisjoint
  have hplaces := @pairwise_idxOf _ (sides.map MirrorSide.row) hends
  obtain ⟨hplacesX, hplacesY, -⟩ := List.pairwise_append.mp hplaces
  rw [List.pairwise_map] at hplacesX hplacesY
  refine ⟨fun row => ((xs.map MirrorSide.row ++ ys.map MirrorSide.row) ++ sides.map MirrorSide.row).idxOf row,
    fun l hl r _ heq => (List.idxOf_inj (List.mem_append_right _ hl)).mp heq, ?_, ?_⟩
  · exact byNumber_eq hxs hplacesX
  · exact byNumber_eq hys hplacesY

/-! ### What the numbers decide -/

/-- The rows of a group are recorded alike in every order: there are none on one side, or those of a side that has at least
    as many as the other all name the other account, or none of them does. -/
def Settled (sides : List MirrorSide) (g : Group) : Prop :=
  departures sides g = [] ∨ arrivals sides g = [] ∨
    (Matching.Agree named (arrivals sides g) ∧ (departures sides g).length ≤ (arrivals sides g).length) ∨
    (Matching.Agree named (departures sides g) ∧ (arrivals sides g).length ≤ (departures sides g).length)

theorem settled_iff : Settled sides g ↔
    Matching.AnyOrder evidenceMark named named (departures sides g) (arrivals sides g) := by
  refine (Matching.anyOrder_iff ?_ ?_).symm
  · intro b
    cases b <;> exact fun h => (nomatch h)
  · intro a
    cases a <;> exact fun h => (nomatch h)

theorem facts_perm_iff (hrows : (sides.map MirrorSide.row).Nodup) :
    (∀ f, Renumbers f sides → (facts (sides.map (renumber f))).Perm (facts sides)) ↔ ∀ g, Settled sides g := by
  constructor
  · intro h g
    rw [settled_iff]
    intro xs hxs ys hys
    obtain ⟨f, hf, hdepartures, harrivals⟩ := exists_numbers hrows hxs hys
    obtain ⟨f', hf', hdepartures', harrivals'⟩ := exists_numbers hrows (g := g) (.refl _) (.refl _)
    have hone := ((h f hf).filter fun fact => fact.group = g).map Fact.evidence
    have hother := ((h f' hf').filter fun fact => fact.group = g).map Fact.evidence
    rw [evidence_renumber hrows hf, hdepartures, harrivals] at hone
    rw [evidence_renumber hrows hf', hdepartures', harrivals'] at hother
    exact hone.trans hother.symm
  · intro h f hf
    refine perm_of_groups fun g => ?_
    have hany := settled_iff.mp (h g)
    have hnumbers : ∀ f l, (byNumber f l).Perm l := fun f l => List.perm_insertionSort _ l
    rw [evidence_renumber hrows hf, evidence_group hrows]
    exact (hany _ (hnumbers f _) _ (hnumbers f _)).trans
      (hany _ (List.perm_insertionSort _ _) _ (List.perm_insertionSort _ _)).symm

/-! ### Rows that are passed over -/

/-- No row that names the other account is left over where a row beside it that names nobody is paired. -/
structure NamedFirst (sides : List MirrorSide) (g : Group) : Prop where
  departures : ∀ s ∈ departures sides g, ∀ t ∈ departures sides g, named s = true → named t = false →
    s ∈ leftOver sides → t ∈ leftOver sides
  arrivals : ∀ s ∈ arrivals sides g, ∀ t ∈ arrivals sides g, named s = true → named t = false →
    s ∈ leftOver sides → t ∈ leftOver sides

theorem not_leftOver_of_matched (h : (outgoing, incoming) ∈ matched sides) :
    outgoing ∉ leftOver sides ∧ incoming ∉ leftOver sides :=
  ⟨fun hleft => (mem_leftOver.mp hleft).2 (mem_pairedRows.mpr (.inl (List.mem_map.mpr ⟨_, h, rfl⟩))),
    fun hleft => (mem_leftOver.mp hleft).2 (mem_pairedRows.mpr (.inr (List.mem_map.mpr ⟨_, h, rfl⟩)))⟩

/-- A row that is not left over is in a pair. -/
theorem exists_pair_of_row (hrows : (sides.map MirrorSide.row).Nodup) (hmem : side ∈ sides) (hleft : side ∉ leftOver sides) :
    ∃ pair ∈ matched sides, side = pair.1 ∨ side = pair.2 := by
  have hpaired : side.row ∈ pairedRows (matched sides) := by
    by_contra hnot
    exact hleft (mem_leftOver.mpr ⟨hmem, hnot⟩)
  rcases mem_pairedRows.mp hpaired with h | h <;> obtain ⟨pair, hpair, heq⟩ := List.mem_map.mp h
  · have hp := pairable_of_matched hpair
    exact ⟨pair, hpair, .inl (List.inj_on_of_nodup_map hrows hmem hp.leaves heq.symm)⟩
  · have hp := pairable_of_matched hpair
    exact ⟨pair, hpair, .inr (List.inj_on_of_nodup_map hrows hmem hp.arrives heq.symm)⟩

/-- Without arrivals every departure is left over. -/
theorem leftOver_departure (hrows : (sides.map MirrorSide.row).Nodup) (hnone : arrivals sides g = [])
    (hout : outgoing ∈ departures sides g) : outgoing ∈ leftOver sides := by
  have ho := mem_departures.mp hout
  by_contra hleft
  obtain ⟨pair, hpair, rfl | rfl⟩ := exists_pair_of_row hrows ho.mem hleft <;> have hp := pairable_of_matched hpair
  · have hin := (group_of_pairable hp (groupOf_of_departure hp hout)).2
    rw [hnone] at hin
    cases hin
  · have hdirection := ho.direction
    rw [hp.in_] at hdirection
    cases hdirection

theorem leftOver_arrival (hrows : (sides.map MirrorSide.row).Nodup) (hnone : departures sides g = [])
    (hin : incoming ∈ arrivals sides g) : incoming ∈ leftOver sides := by
  have hi := mem_arrivals.mp hin
  by_contra hleft
  obtain ⟨pair, hpair, rfl | rfl⟩ := exists_pair_of_row hrows hi.mem hleft <;> have hp := pairable_of_matched hpair
  · have hdirection := hi.direction
    rw [hp.out] at hdirection
    cases hdirection
  · have hout := (group_of_pairable hp (groupOf_of_arrival hp hin)).1
    rw [hnone] at hout
    cases hout

/-- Where there are arrivals enough, every departure is paired. -/
theorem departure_matched (hrows : (sides.map MirrorSide.row).Nodup)
    (hle : (departures sides g).length ≤ (arrivals sides g).length) (hout : outgoing ∈ departures sides g) :
    outgoing ∉ leftOver sides := by
  have hzip := @List.map_fst_zip _ _ (byRow (departures sides g)) (byRow (arrivals sides g)) (by
    rw [byRow, byRow, List.length_insertionSort, List.length_insertionSort]
    exact hle)
  have hmem : outgoing ∈ byRow (departures sides g) := (List.mem_insertionSort _).mpr hout
  rw [← hzip, ← matched_group hrows] at hmem
  obtain ⟨pair, hpair, rfl⟩ := List.mem_map.mp hmem
  exact (not_leftOver_of_matched (List.mem_filter.mp hpair).1).1

theorem arrival_matched (hrows : (sides.map MirrorSide.row).Nodup)
    (hle : (arrivals sides g).length ≤ (departures sides g).length) (hin : incoming ∈ arrivals sides g) :
    incoming ∉ leftOver sides := by
  have hzip := @List.map_snd_zip _ _ (byRow (departures sides g)) (byRow (arrivals sides g)) (by
    rw [byRow, byRow, List.length_insertionSort, List.length_insertionSort]
    exact hle)
  have hmem : incoming ∈ byRow (arrivals sides g) := (List.mem_insertionSort _).mpr hin
  rw [← hzip, ← matched_group hrows] at hmem
  obtain ⟨pair, hpair, rfl⟩ := List.mem_map.mp hmem
  exact (not_leftOver_of_matched (List.mem_filter.mp hpair).1).2

theorem namedFirst_of_settled (hrows : (sides.map MirrorSide.row).Nodup) (h : Settled sides g) : NamedFirst sides g := by
  rcases h with hnone | hnone | ⟨hagree, hle⟩ | ⟨hagree, hle⟩
  · refine ⟨fun s hs => ?_, fun _ _ t ht _ _ _ => leftOver_arrival hrows hnone ht⟩
    rw [hnone] at hs
    cases hs
  · refine ⟨fun _ _ t ht _ _ _ => leftOver_departure hrows hnone ht, fun s hs => ?_⟩
    rw [hnone] at hs
    cases hs
  · refine ⟨fun s hs _ _ _ _ hleft => absurd hleft (departure_matched hrows hle hs), fun s hs t ht hs' ht' => ?_⟩
    rw [hagree s hs t ht, ht'] at hs'
    cases hs'
  · refine ⟨fun s hs t ht hs' ht' => ?_, fun s hs _ _ _ _ hleft => absurd hleft (arrival_matched hrows hle hs)⟩
    rw [hagree s hs t ht, ht'] at hs'
    cases hs'

theorem agree_renumber {l : List MirrorSide} : Matching.Agree named (l.map (renumber f)) ↔ Matching.Agree named l := by
  unfold Matching.Agree
  rw [List.forall_mem_map]
  exact forall₂_congr fun x _ => List.forall_mem_map

theorem settled_renumber : Settled (sides.map (renumber f)) g ↔ Settled sides g := by
  unfold Settled departures arrivals
  rw [decidable_renumber, decidable_renumber, List.map_eq_nil_iff, List.map_eq_nil_iff, agree_renumber, agree_renumber,
    List.length_map, List.length_map]

end

/-- The numbers of the rows decide nothing, and no row that names the other account is passed over, exactly where every
    group is settled. -/
theorem numbering_decides_nothing_iff {sides : List MirrorSide} (hrows : (sides.map MirrorSide.row).Nodup) :
    (∀ f, Renumbers f sides → (facts (sides.map (renumber f))).Perm (facts sides) ∧
      ∀ g, NamedFirst (sides.map (renumber f)) g) ↔ ∀ g, Settled sides g := by
  rw [← facts_perm_iff hrows]
  refine ⟨fun h f hf => (h f hf).1, fun h f hf => ⟨h f hf, fun g => ?_⟩⟩
  exact namedFirst_of_settled (nodup_renumber hrows hf) (settled_renumber.mpr ((facts_perm_iff hrows).mp h g))

/-! ### Two departures and one arrival -/

/-- Two departures from one account, of which the second names the other account, and one arrival there. -/
def twoDepartures : List MirrorSide :=
  [hundred 1 1 .out none, hundred 2 1 .out (some ⟨2⟩), hundred 3 2 .in none]

/-- The first of them is paired and the named one left over. Under exchanged numbers the pair has the evidence of the named
    one. -/
theorem twoDepartures_by_number : Renumbers (Equiv.swap 1 2) twoDepartures ∧
    ¬(facts (twoDepartures.map (renumber (Equiv.swap 1 2)))).Perm (facts twoDepartures) ∧
    (⟨2, .noCounterpart⟩ : UnpairedSide) ∈ (mirrored twoDepartures).unpaired ∧
    (⟨1, 3, .shapeAlone⟩ : Mirror) ∈ (mirrored twoDepartures).pairs := by
  refine ⟨fun _ _ _ _ h => (Equiv.swap 1 2).injective h, ?_, by decide, by decide⟩
  decide

/-- Two departures and two arrivals that name nobody. -/
def fourUnnamed : List MirrorSide :=
  [hundred 1 1 .out none, hundred 2 1 .out none, hundred 3 2 .in none, hundred 4 2 .in none]

theorem fourUnnamed_settled (g : Group) : Settled fourUnnamed g := by
  have hnobody : ∀ side ∈ fourUnnamed, named side = false := by decide
  have hagree : ∀ direction near far, Matching.Agree named (decidable fourUnnamed g direction near far) :=
    fun direction near far s hs t ht =>
      (hnobody s (mem_decidable.mp hs).mem).trans (hnobody t (mem_decidable.mp ht).mem).symm
  rcases le_total (departures fourUnnamed g).length (arrivals fourUnnamed g).length with hle | hle
  · exact .inr (.inr (.inl ⟨hagree _ _ _, hle⟩))
  · exact .inr (.inr (.inr ⟨hagree _ _ _, hle⟩))

/-- Under exchanged numbers of the departures the facts are the same. -/
theorem fourUnnamed_by_number :
    (facts (fourUnnamed.map (renumber (Equiv.swap 1 2)))).Perm (facts fourUnnamed) ∧
      ∀ g, NamedFirst (fourUnnamed.map (renumber (Equiv.swap 1 2))) g :=
  (numbering_decides_nothing_iff (by decide)).mpr fourUnnamed_settled (Equiv.swap 1 2)
    fun _ _ _ _ h => (Equiv.swap 1 2).injective h

end Mirror
end Iaam
