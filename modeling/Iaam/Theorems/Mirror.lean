import Iaam.Ingest.Mirror

/-! Which sides are paired: a departure and an arrival that mirror each other and nothing else, each of them once. -/

namespace Iaam
namespace Mirror

section
variable {sides : List MirrorSide} {outgoing incoming : MirrorSide}

theorem mem_candidatesOf : incoming ∈ candidatesOf sides outgoing ↔
    incoming ∈ sides ∧ incoming.direction = .in ∧ mirrors outgoing incoming = true ∧
      counterpartAccounts sides outgoing = [incoming.account] ∧ (counterpartAccounts sides incoming).length = 1 := by
  unfold candidatesOf
  split
  · next account hone =>
    rw [List.mem_filter, hone]
    simp only [Bool.and_eq_true, decide_eq_true_eq, List.cons.injEq, and_true]
    constructor
    · rintro ⟨hmem, ⟨⟨hin, haccount⟩, hmirrors⟩, hlength⟩
      exact ⟨hmem, hin, hmirrors, haccount.symm, hlength⟩
    · rintro ⟨hmem, hin, hmirrors, haccount, hlength⟩
      exact ⟨hmem, ⟨⟨hin, haccount.symm⟩, hmirrors⟩, hlength⟩
  · next hmany =>
    constructor
    · intro h
      cases h
    · rintro ⟨-, -, -, hone, -⟩
      exact absurd hone (hmany _)

/-- The two sides of a candidate pair. -/
structure Pairable (sides : List MirrorSide) (outgoing incoming : MirrorSide) : Prop where
  leaves : outgoing ∈ sides
  arrives : incoming ∈ sides
  out : outgoing.direction = .out
  in_ : incoming.direction = .in
  halves : mirrors outgoing incoming = true
  accountOf : counterpartAccounts sides outgoing = [incoming.account]
  one : (counterpartAccounts sides incoming).length = 1

theorem mem_candidatePairs : (outgoing, incoming) ∈ candidatePairs sides ↔ Pairable sides outgoing incoming := by
  unfold candidatePairs
  simp only [List.mem_flatMap, List.mem_filter, decide_eq_true_eq, List.mem_map, Prod.mk.injEq]
  constructor
  · rintro ⟨o, ⟨ho, hout⟩, i, hi, rfl, rfl⟩
    obtain ⟨hmem, hin, hmirrors, haccount, hone⟩ := mem_candidatesOf.mp hi
    exact ⟨ho, hmem, hout, hin, hmirrors, haccount, hone⟩
  · intro h
    exact ⟨outgoing, ⟨h.leaves, h.out⟩, incoming,
      mem_candidatesOf.mpr ⟨h.arrives, h.in_, h.halves, h.accountOf, h.one⟩, rfl, rfl⟩

theorem pairable_of_matched (h : (outgoing, incoming) ∈ matched sides) : Pairable sides outgoing incoming :=
  mem_candidatePairs.mp ((List.mem_insertionSort _).mp (Matching.mem_of_mem_greedy h))

theorem apart_matched (sides : List MirrorSide) : Matching.Apart MirrorSide.row MirrorSide.row (matched sides) :=
  Matching.apart_greedy _

/-- What two halves of one movement agree on. -/
structure Halves (outgoing incoming : MirrorSide) : Prop where
  account : outgoing.account ≠ incoming.account
  currency : outgoing.currency = incoming.currency
  amountMinor : outgoing.amountMinor = incoming.amountMinor
  date : outgoing.date = incoming.date
  positive : 0 < outgoing.amountMinor.raw
  outgoingFar : ∀ named, outgoing.farSide = some named → named = incoming.account
  incomingFar : ∀ named, incoming.farSide = some named → named = outgoing.account

theorem mirrors_iff : mirrors outgoing incoming = true ↔ Halves outgoing incoming := by
  unfold mirrors
  simp only [Bool.and_eq_true, decide_eq_true_eq, Option.all_eq_true]
  constructor
  · rintro ⟨⟨⟨⟨⟨⟨haccount, hcurrency⟩, hamount⟩, hpos⟩, hdate⟩, hout⟩, hin⟩
    exact ⟨haccount, hcurrency, hamount, hdate, hpos, hout, hin⟩
  · intro h
    exact ⟨⟨⟨⟨⟨⟨h.account, h.currency⟩, h.amountMinor⟩, h.positive⟩, h.date⟩, h.outgoingFar⟩, h.incomingFar⟩

/-! ### Who is matched with whom -/

theorem mem_counterpartAccounts {side : MirrorSide} {account : AccountId} :
    account ∈ counterpartAccounts sides side ↔ ∃ other ∈ counterparts sides side, other.account = account := by
  rw [counterpartAccounts, List.mem_dedup, List.mem_insertionSort, List.mem_map]

theorem outgoing_counterpart (h : Pairable sides outgoing incoming) : outgoing ∈ counterparts sides incoming := by
  refine List.mem_filter.mpr ⟨h.leaves, ?_⟩
  rw [h.out, h.in_]
  exact h.halves

/-- The departures an arrival may go with are all on one account. -/
theorem account_of_pairable {outgoing' : MirrorSide} (h : Pairable sides outgoing incoming)
    (h' : Pairable sides outgoing' incoming) : outgoing.account = outgoing'.account := by
  obtain ⟨account, hone⟩ := List.length_eq_one_iff.mp h.one
  have hmem : outgoing.account ∈ counterpartAccounts sides incoming :=
    mem_counterpartAccounts.mpr ⟨outgoing, outgoing_counterpart h, rfl⟩
  have hmem' : outgoing'.account ∈ counterpartAccounts sides incoming :=
    mem_counterpartAccounts.mpr ⟨outgoing', outgoing_counterpart h', rfl⟩
  rw [hone, List.mem_singleton] at hmem hmem'
  rw [hmem, hmem']

/-- Two that may go with one may go with the same. -/
theorem pairable_of_common {outgoing' incoming' : MirrorSide} (h : Pairable sides outgoing incoming)
    (hout : Pairable sides outgoing' incoming) (hin : Pairable sides outgoing incoming') :
    Pairable sides outgoing' incoming' := by
  have hleft := account_of_pairable h hout
  have hright : incoming.account = incoming'.account :=
    (List.cons.inj (h.accountOf.symm.trans hin.accountOf)).1
  have hhalves := mirrors_iff.mp h.halves
  have hhalvesOut := mirrors_iff.mp hout.halves
  have hhalvesIn := mirrors_iff.mp hin.halves
  refine ⟨hout.leaves, hin.arrives, hout.out, hin.in_, mirrors_iff.mpr ⟨?_, ?_, ?_, ?_, hhalvesOut.positive, ?_, ?_⟩,
    hright ▸ hout.accountOf, hin.one⟩
  · rw [← hleft, ← hright]
    exact hhalves.account
  · rw [hhalvesOut.currency, ← hhalves.currency, hhalvesIn.currency]
  · rw [hhalvesOut.amountMinor, ← hhalves.amountMinor, hhalvesIn.amountMinor]
  · rw [hhalvesOut.date, ← hhalves.date, hhalvesIn.date]
  · rw [← hright]
    exact hhalvesOut.outgoingFar
  · rw [← hleft]
    exact hhalvesIn.incomingFar

/-- Whether two sides may go with each other. -/
def goesWith (sides : List MirrorSide) (outgoing incoming : MirrorSide) : Bool :=
  outgoing.direction = .out && incoming.direction = .in && mirrors outgoing incoming &&
    counterpartAccounts sides outgoing = [incoming.account] && (counterpartAccounts sides incoming).length = 1

theorem pairable_iff : Pairable sides outgoing incoming ↔
    outgoing ∈ sides ∧ incoming ∈ sides ∧ goesWith sides outgoing incoming = true := by
  unfold goesWith
  simp only [Bool.and_eq_true, decide_eq_true_eq]
  constructor
  · intro h
    exact ⟨h.leaves, h.arrives, ⟨⟨⟨h.out, h.in_⟩, h.halves⟩, h.accountOf⟩, h.one⟩
  · rintro ⟨hleaves, harrives, ⟨⟨⟨hout, hin⟩, hhalves⟩, haccount⟩, hone⟩
    exact ⟨hleaves, harrives, hout, hin, hhalves, haccount, hone⟩

/-- The two may go with each other, and stand at one place in the order of the rows: one among the departures that may go
    with the arrival, the other among the arrivals that may go with the departure. -/
structure Aligned (sides : List MirrorSide) (outgoing incoming : MirrorSide) : Prop where
  pairable : Pairable sides outgoing incoming
  place : Matching.place MirrorSide.row (sides.filter fun other => goesWith sides other incoming) outgoing =
    Matching.place MirrorSide.row (sides.filter (goesWith sides outgoing)) incoming

theorem level_goesWith (sides : List MirrorSide) : Matching.Level (goesWith sides) sides sides := by
  intro o ho i hi o' ho' i' hi' h hout hin
  have hp := pairable_iff.mpr ⟨ho, hi, h⟩
  exact (pairable_iff.mp (pairable_of_common hp (pairable_iff.mpr ⟨ho', hi, hout⟩)
    (pairable_iff.mpr ⟨ho, hi', hin⟩))).2.2

theorem nodup_candidatePairs (h : sides.Nodup) : (candidatePairs sides).Nodup := by
  have hcandidates : ∀ outgoing, (candidatesOf sides outgoing).Nodup := by
    intro outgoing
    unfold candidatesOf
    split
    · exact h.filter _
    · exact List.nodup_nil
  refine List.nodup_flatMap.mpr ⟨fun o _ => (hcandidates o).map fun i i' he => (Prod.mk.inj he).2,
    (h.filter _).imp fun {o o'} hne => ?_⟩
  intro pair hpair hpair'
  obtain ⟨i, -, rfl⟩ := List.mem_map.mp hpair
  obtain ⟨i', -, he⟩ := List.mem_map.mp hpair'
  exact hne (Prod.mk.inj he).1.symm

/-- The candidate pairs in the order they are taken in. -/
def orderedPairs (sides : List MirrorSide) : List (MirrorSide × MirrorSide) :=
  (candidatePairs sides).insertionSort fun l r => toLex (l.1.row, l.2.row) ≤ toLex (r.1.row, r.2.row)

theorem mem_orderedPairs {pair : MirrorSide × MirrorSide} : pair ∈ orderedPairs sides ↔
    pair.1 ∈ sides ∧ pair.2 ∈ sides ∧ goesWith sides pair.1 pair.2 = true := by
  rw [orderedPairs, List.mem_insertionSort, ← pairable_iff]
  exact mem_candidatePairs

theorem nodup_orderedPairs (h : sides.Nodup) : (orderedPairs sides).Nodup :=
  (List.perm_insertionSort _ _).nodup_iff.mpr (nodup_candidatePairs h)

theorem pairwise_orderedPairs (sides : List MirrorSide) :
    (orderedPairs sides).Pairwise (Matching.Precedes MirrorSide.row MirrorSide.row) := by
  have htotal : Std.Total fun l r : MirrorSide × MirrorSide => toLex (l.1.row, l.2.row) ≤ toLex (r.1.row, r.2.row) :=
    ⟨fun _ _ => le_total _ _⟩
  have htrans : IsTrans _ fun l r : MirrorSide × MirrorSide => toLex (l.1.row, l.2.row) ≤ toLex (r.1.row, r.2.row) :=
    ⟨fun _ _ _ => le_trans⟩
  exact List.pairwise_insertionSort
    (fun l r : MirrorSide × MirrorSide => toLex (l.1.row, l.2.row) ≤ toLex (r.1.row, r.2.row)) _

/-- Sides of different rows are matched place by place. -/
theorem mem_matched_iff (hrows : (sides.map MirrorSide.row).Nodup) :
    (outgoing, incoming) ∈ matched sides ↔ Aligned sides outgoing incoming := by
  refine (Matching.mem_greedy_iff (fun _ => mem_orderedPairs) (nodup_orderedPairs hrows.of_map)
    (pairwise_orderedPairs sides) hrows hrows (level_goesWith sides)).trans ⟨?_, fun h => ?_⟩
  · rintro ⟨ho, hi, hr, hplace⟩
    exact ⟨pairable_iff.mpr ⟨ho, hi, hr⟩, hplace⟩
  · obtain ⟨ho, hi, hr⟩ := pairable_iff.mp h.pairable
    exact ⟨ho, hi, hr, h.place⟩

/-- A row is in one pair only, on whichever side of it. -/
theorem eq_of_common_row {outgoing' incoming' : MirrorSide} {row : Nat} (hrows : (sides.map MirrorSide.row).Nodup)
    (h : (outgoing, incoming) ∈ matched sides) (h' : (outgoing', incoming') ∈ matched sides)
    (hrow : row = outgoing.row ∨ row = incoming.row) (hrow' : row = outgoing'.row ∨ row = incoming'.row) :
    (outgoing, incoming) = (outgoing', incoming') := by
  have hp := pairable_of_matched h
  have hp' := pairable_of_matched h'
  have hapart := apart_matched sides
  rcases hrow with rfl | rfl
  · rcases hrow' with he | he
    · exact Matching.eq_of_left_eq hapart h h' he
    · have hdirection := hp.out
      rw [List.inj_on_of_nodup_map hrows hp.leaves hp'.arrives he, hp'.in_] at hdirection
      cases hdirection
  · rcases hrow' with he | he
    · have hdirection := hp.in_
      rw [List.inj_on_of_nodup_map hrows hp.arrives hp'.leaves he, hp'.out] at hdirection
      cases hdirection
    · exact Matching.eq_of_right_eq hapart h h' he

theorem rows_ne (hrows : (sides.map MirrorSide.row).Nodup) (h : (outgoing, incoming) ∈ matched sides) :
    outgoing.row ≠ incoming.row := by
  intro he
  have hp := pairable_of_matched h
  have hdirection := hp.out
  rw [List.inj_on_of_nodup_map hrows hp.leaves hp.arrives he, hp.in_] at hdirection
  cases hdirection

/-- Sides that are read off different rows are of different rows. -/
theorem nodup_rows {β : Type} {l : List β} {name : β → Nat} {f : β → Option MirrorSide}
    (hf : ∀ x side, f x = some side → side.row = name x) (h : (l.map name).Nodup) :
    ((l.filterMap f).map MirrorSide.row).Nodup := by
  have hsublist : ((l.filterMap f).map MirrorSide.row).Sublist (l.map name) := by
    clear h
    induction l with
    | nil => exact List.Sublist.refl _
    | cons x l ih =>
      cases hx : f x with
      | none =>
        rw [List.filterMap_cons_none hx, List.map_cons]
        exact ih.cons _
      | some side =>
        rw [List.filterMap_cons_some hx, List.map_cons, List.map_cons, hf x side hx]
        exact ih.cons_cons _
  exact hsublist.nodup h

end

end Mirror
end Iaam
