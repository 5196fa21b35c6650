import Iaam.Theorems.Mirror

/-! The groups of a mirror reading. Where the accounts, the day and the amount are given, every departure that can only
go to the one account goes with every arrival that can only come from the other, so as many pairs are made as there are
rows on the smaller side. Every row is reported once, and the order of the list makes no difference. -/

namespace Iaam
namespace Mirror

/-- What a pair moves, from where, to where and when. -/
structure Group where
  outgoing : AccountId
  incoming : AccountId
  date : Date
  currency : CurrencyCode
  amountMinor : PostedMinor
  deriving DecidableEq, Repr

def groupOf (pair : MirrorSide × MirrorSide) : Group :=
  ⟨pair.1.account, pair.2.account, pair.1.date, pair.1.currency, pair.1.amountMinor⟩

/-- The rows on one account of a group that can only go with rows on the other. -/
def decidable (sides : List MirrorSide) (g : Group) (direction : Classification.Movement) (near far : AccountId) :
    List MirrorSide :=
  sides.filter fun side => side.direction = direction && side.account = near && side.date = g.date &&
    side.currency = g.currency && side.amountMinor = g.amountMinor && counterpartAccounts sides side = [far]

def departures (sides : List MirrorSide) (g : Group) : List MirrorSide :=
  decidable sides g .out g.outgoing g.incoming

def arrivals (sides : List MirrorSide) (g : Group) : List MirrorSide :=
  decidable sides g .in g.incoming g.outgoing

section
variable {sides : List MirrorSide} {outgoing incoming side : MirrorSide} {g : Group}

/-- A row of a group. -/
structure Decided (sides : List MirrorSide) (g : Group) (direction : Classification.Movement) (near far : AccountId)
    (side : MirrorSide) : Prop where
  mem : side ∈ sides
  direction : side.direction = direction
  account : side.account = near
  date : side.date = g.date
  currency : side.currency = g.currency
  amountMinor : side.amountMinor = g.amountMinor
  one : counterpartAccounts sides side = [far]

theorem mem_decidable {direction : Classification.Movement} {near far : AccountId} :
    side ∈ decidable sides g direction near far ↔ Decided sides g direction near far side := by
  unfold decidable
  rw [List.mem_filter]
  simp only [Bool.and_eq_true, decide_eq_true_eq]
  constructor
  · rintro ⟨hmem, ⟨⟨⟨⟨hdirection, haccount⟩, hdate⟩, hcurrency⟩, hamount⟩, hone⟩
    exact ⟨hmem, hdirection, haccount, hdate, hcurrency, hamount, hone⟩
  · intro h
    exact ⟨h.mem, ⟨⟨⟨⟨h.direction, h.account⟩, h.date⟩, h.currency⟩, h.amountMinor⟩, h.one⟩

theorem mem_departures : side ∈ departures sides g ↔ Decided sides g .out g.outgoing g.incoming side := mem_decidable
theorem mem_arrivals : side ∈ arrivals sides g ↔ Decided sides g .in g.incoming g.outgoing side := mem_decidable

/-- A departure that can only go to one account mirrors a row there. -/
theorem exists_arrival {account : AccountId} (hout : outgoing.direction = .out)
    (hone : counterpartAccounts sides outgoing = [account]) :
    ∃ other, other.account = account ∧ Halves outgoing other := by
  have hmem : account ∈ counterpartAccounts sides outgoing := hone ▸ List.mem_singleton_self account
  obtain ⟨other, hother, haccount⟩ := mem_counterpartAccounts.mp hmem
  have hmirrors := (List.mem_filter.mp hother).2
  rw [hout, Bool.and_eq_true] at hmirrors
  exact ⟨other, haccount, mirrors_iff.mp hmirrors.2⟩

theorem exists_departure {account : AccountId} (hin : incoming.direction = .in)
    (hone : counterpartAccounts sides incoming = [account]) :
    ∃ other, other.account = account ∧ Halves other incoming := by
  have hmem : account ∈ counterpartAccounts sides incoming := hone ▸ List.mem_singleton_self account
  obtain ⟨other, hother, haccount⟩ := mem_counterpartAccounts.mp hmem
  have hmirrors := (List.mem_filter.mp hother).2
  rw [hin, Bool.and_eq_true] at hmirrors
  exact ⟨other, haccount, mirrors_iff.mp hmirrors.2⟩

/-- Everything that leaves goes with everything that arrives. -/
theorem pairable_of_group (hout : outgoing ∈ departures sides g) (hin : incoming ∈ arrivals sides g) :
    Pairable sides outgoing incoming := by
  have ho := mem_departures.mp hout
  have hi := mem_arrivals.mp hin
  obtain ⟨arrival, harrival, htheirs⟩ := exists_arrival ho.direction ho.one
  obtain ⟨departure, hdeparture, hours⟩ := exists_departure hi.direction hi.one
  refine ⟨ho.mem, hi.mem, ho.direction, hi.direction, mirrors_iff.mpr ?_, ?_, ?_⟩
  · refine ⟨?_, ?_, ?_, ?_, htheirs.positive, ?_, ?_⟩
    · rw [hi.account, ← harrival]
      exact htheirs.account
    · rw [ho.currency, hi.currency]
    · rw [ho.amountMinor, hi.amountMinor]
    · rw [ho.date, hi.date]
    · rw [hi.account, ← harrival]
      exact htheirs.outgoingFar
    · rw [ho.account, ← hdeparture]
      exact hours.incomingFar
  · rw [hi.account]
    exact ho.one
  · rw [hi.one]
    rfl

/-- The departures that an arrival may go with are on its one account. -/
theorem one_of_pairable (h : Pairable sides outgoing incoming) :
    counterpartAccounts sides incoming = [outgoing.account] := by
  obtain ⟨account, hone⟩ := List.length_eq_one_iff.mp h.one
  have hmem : outgoing.account ∈ counterpartAccounts sides incoming :=
    mem_counterpartAccounts.mpr ⟨outgoing, outgoing_counterpart h, rfl⟩
  rw [hone, List.mem_singleton] at hmem
  rw [hone, hmem]

theorem group_of_pairable (h : Pairable sides outgoing incoming) (hg : groupOf (outgoing, incoming) = g) :
    outgoing ∈ departures sides g ∧ incoming ∈ arrivals sides g := by
  have hhalves := mirrors_iff.mp h.halves
  rw [← hg]
  exact ⟨mem_departures.mpr ⟨h.leaves, h.out, rfl, rfl, rfl, rfl, h.accountOf⟩,
    mem_arrivals.mpr ⟨h.arrives, h.in_, rfl, hhalves.date.symm, hhalves.currency.symm, hhalves.amountMinor.symm,
      one_of_pairable h⟩⟩

/-- A pair is of the group of its departure, and of that of its arrival. -/
theorem groupOf_of_departure (hp : Pairable sides outgoing incoming) (hout : outgoing ∈ departures sides g) :
    groupOf (outgoing, incoming) = g := by
  have ho := mem_departures.mp hout
  have hone := hp.accountOf
  rw [ho.one] at hone
  unfold groupOf
  rw [(List.cons.inj hone).1.symm, ho.account, ho.date, ho.currency, ho.amountMinor]

theorem groupOf_of_arrival (hp : Pairable sides outgoing incoming) (hin : incoming ∈ arrivals sides g) :
    groupOf (outgoing, incoming) = g := by
  have hi := mem_arrivals.mp hin
  have hhalves := mirrors_iff.mp hp.halves
  have hone := one_of_pairable hp
  rw [hi.one] at hone
  unfold groupOf
  rw [(List.cons.inj hone).1.symm, hi.account, hhalves.date, hi.date, hhalves.currency, hi.currency,
    hhalves.amountMinor, hi.amountMinor]

theorem groupOf_of_mem (hout : outgoing ∈ departures sides g) (hin : incoming ∈ arrivals sides g) :
    groupOf (outgoing, incoming) = g :=
  groupOf_of_departure (pairable_of_group hout hin) hout

/-- The departures that may go with an arrival of the group are those of the group. -/
theorem filter_departures (hin : incoming ∈ arrivals sides g) :
    sides.filter (fun other => goesWith sides other incoming) = departures sides g := by
  unfold departures decidable
  refine List.filter_congr fun other hother => ?_
  rw [Bool.eq_iff_iff]
  constructor
  · intro hgoes
    have hp := pairable_iff.mpr ⟨hother, (mem_arrivals.mp hin).mem, hgoes⟩
    exact (List.mem_filter.mp (group_of_pairable hp (groupOf_of_arrival hp hin)).1).2
  · intro hkeep
    have hmem : other ∈ departures sides g := List.mem_filter.mpr ⟨hother, hkeep⟩
    exact (pairable_iff.mp (pairable_of_group hmem hin)).2.2

theorem filter_arrivals (hout : outgoing ∈ departures sides g) :
    sides.filter (goesWith sides outgoing) = arrivals sides g := by
  unfold arrivals decidable
  refine List.filter_congr fun other hother => ?_
  rw [Bool.eq_iff_iff]
  constructor
  · intro hgoes
    have hp := pairable_iff.mpr ⟨(mem_departures.mp hout).mem, hother, hgoes⟩
    exact (List.mem_filter.mp (group_of_pairable hp (groupOf_of_departure hp hout)).2).2
  · intro hkeep
    have hmem : other ∈ arrivals sides g := List.mem_filter.mpr ⟨hother, hkeep⟩
    exact (pairable_iff.mp (pairable_of_group hout hmem)).2.2

/-- Rows in the order of their numbers. -/
def byRow (sides : List MirrorSide) : List MirrorSide := sides.insertionSort fun l r => l.row ≤ r.row

/-- The pairs of a group: its departures and its arrivals side by side. -/
theorem matched_group (hrows : (sides.map MirrorSide.row).Nodup) (g : Group) :
    (matched sides).filter (fun pair => groupOf pair = g) =
      (byRow (departures sides g)).zip (byRow (arrivals sides g)) := by
  have hends : ∀ pair ∈ matched sides, groupOf pair = g → pair.1 ∈ departures sides g ∧ pair.2 ∈ arrivals sides g :=
    fun pair hpair hg => group_of_pairable (pairable_of_matched hpair) hg
  rcases hdepartures : departures sides g with _ | ⟨outgoing, rest⟩
  · rw [byRow, List.insertionSort_nil, List.zip_nil_left, List.filter_eq_nil_iff]
    intro pair hpair hg
    have hmem := (hends pair hpair (of_decide_eq_true hg)).1
    rw [hdepartures] at hmem
    cases hmem
  rcases harrivals : arrivals sides g with _ | ⟨incoming, rest'⟩
  · rw [byRow, byRow, List.insertionSort_nil, List.zip_nil_right, List.filter_eq_nil_iff]
    intro pair hpair hg
    have hmem := (hends pair hpair (of_decide_eq_true hg)).2
    rw [harrivals] at hmem
    cases hmem
  have hout : outgoing ∈ departures sides g := hdepartures ▸ List.mem_cons_self
  have hin : incoming ∈ arrivals sides g := harrivals ▸ List.mem_cons_self
  obtain ⟨ho, hi, hgoes⟩ := pairable_iff.mp (pairable_of_group hout hin)
  have hlevel := Matching.greedy_level (fun _ => mem_orderedPairs) (nodup_orderedPairs hrows.of_map)
    (pairwise_orderedPairs sides) hrows hrows (level_goesWith sides) ho hi hgoes
  rw [filter_departures hin, filter_arrivals hout, hdepartures, harrivals] at hlevel
  refine Eq.trans (List.filter_congr fun pair hpair => ?_) hlevel
  have hp := pairable_of_matched hpair
  rw [Bool.eq_iff_iff, decide_eq_true_eq]
  constructor
  · intro hg
    exact (pairable_iff.mp (pairable_of_group (hends pair hpair hg).1 hin)).2.2
  · intro hg
    have hmem : pair.1 ∈ departures sides g := by
      rw [← filter_departures hin]
      exact List.mem_filter.mpr ⟨hp.leaves, hg⟩
    have hmem' : pair.2 ∈ arrivals sides g := by
      rw [← filter_arrivals hmem]
      exact List.mem_filter.mpr ⟨hp.arrives, (pairable_iff.mp hp).2.2⟩
    exact groupOf_of_mem hmem hmem'

/-- As many pairs as there are rows on the smaller side. -/
theorem length_group (hrows : (sides.map MirrorSide.row).Nodup) (g : Group) :
    ((matched sides).filter fun pair => groupOf pair = g).length =
      min (departures sides g).length (arrivals sides g).length := by
  rw [matched_group hrows, List.length_zip, byRow, byRow, List.length_insertionSort, List.length_insertionSort]

/-! ### Every row is reported once -/

/-- The rows of the pairs. -/
def pairedRows (pairs : List (MirrorSide × MirrorSide)) : List Nat := pairs.flatMap fun pair => [pair.1.row, pair.2.row]

theorem mem_pairedRows {pairs : List (MirrorSide × MirrorSide)} {row : Nat} :
    row ∈ pairedRows pairs ↔ row ∈ pairs.map (fun pair => pair.1.row) ∨ row ∈ pairs.map fun pair => pair.2.row := by
  unfold pairedRows
  simp only [List.mem_flatMap, List.mem_cons, List.not_mem_nil, or_false, List.mem_map]
  constructor
  · rintro ⟨pair, hpair, rfl | rfl⟩
    · exact .inl ⟨pair, hpair, rfl⟩
    · exact .inr ⟨pair, hpair, rfl⟩
  · rintro (⟨pair, hpair, rfl⟩ | ⟨pair, hpair, rfl⟩)
    · exact ⟨pair, hpair, .inl rfl⟩
    · exact ⟨pair, hpair, .inr rfl⟩

/-- No row is in two pairs, or twice in one. -/
theorem nodup_pairedRows (hrows : (sides.map MirrorSide.row).Nodup) : (pairedRows (matched sides)).Nodup := by
  have hnodup : (matched sides).Nodup := (apart_matched sides).lefts.of_map
  refine List.nodup_flatMap.mpr ⟨fun pair hpair => ?_, hnodup.imp_of_mem fun {pair pair'} hpair hpair' hne => ?_⟩
  · simpa using rows_ne hrows hpair
  · intro row hrow hrow'
    simp only [List.mem_cons, List.not_mem_nil, or_false] at hrow hrow'
    exact hne (eq_of_common_row hrows hpair hpair' hrow hrow')

theorem pairedRows_subset : ∀ row ∈ pairedRows (matched sides), row ∈ sides.map MirrorSide.row := by
  intro row hrow
  rcases mem_pairedRows.mp hrow with h | h <;> obtain ⟨pair, hpair, rfl⟩ := List.mem_map.mp h
  · exact List.mem_map_of_mem (pairable_of_matched hpair).leaves
  · exact List.mem_map_of_mem (pairable_of_matched hpair).arrives

/-- What is left over. -/
def leftOver (sides : List MirrorSide) : List MirrorSide :=
  sides.filter fun side => side.row ∉ (matched sides).map (fun pair => pair.1.row) &&
    side.row ∉ (matched sides).map fun pair => pair.2.row

theorem mem_leftOver : side ∈ leftOver sides ↔ side ∈ sides ∧ side.row ∉ pairedRows (matched sides) := by
  unfold leftOver
  rw [List.mem_filter, mem_pairedRows, not_or]
  simp only [Bool.and_eq_true, decide_eq_true_eq]

theorem rows_accounted (hrows : (sides.map MirrorSide.row).Nodup) :
    (pairedRows (matched sides) ++ (leftOver sides).map MirrorSide.row).Perm (sides.map MirrorSide.row) := by
  have hleft : ((leftOver sides).map MirrorSide.row).Nodup := (List.filter_sublist.map _).nodup hrows
  have hdisjoint : List.Disjoint (pairedRows (matched sides)) ((leftOver sides).map MirrorSide.row) := by
    intro row hpaired hrow
    obtain ⟨side, hside, rfl⟩ := List.mem_map.mp hrow
    exact (mem_leftOver.mp hside).2 hpaired
  refine (List.perm_ext_iff_of_nodup ((nodup_pairedRows hrows).append hleft hdisjoint) hrows).mpr fun row => ?_
  rw [List.mem_append]
  constructor
  · rintro (hpaired | hrow)
    · exact pairedRows_subset row hpaired
    · exact (List.filter_sublist.map _).subset hrow
  · intro hrow
    by_cases hpaired : row ∈ pairedRows (matched sides)
    · exact .inl hpaired
    · obtain ⟨side, hside, rfl⟩ := List.mem_map.mp hrow
      exact .inr (List.mem_map_of_mem (mem_leftOver.mpr ⟨hside, hpaired⟩))

/-! ### The order of the list -/

theorem counterpartAccounts_perm {sides' : List MirrorSide} (h : sides.Perm sides') (side : MirrorSide) :
    counterpartAccounts sides side = counterpartAccounts sides' side := by
  have htotal : Std.Total fun x y : AccountId => x ≤ y := ⟨le_total⟩
  have htrans : IsTrans AccountId fun x y => x ≤ y := ⟨fun _ _ _ => le_trans⟩
  have hanti : Std.Antisymm fun x y : AccountId => x ≤ y := ⟨fun _ _ => le_antisymm⟩
  have hperm : ((counterparts sides side).map MirrorSide.account).Perm
      ((counterparts sides' side).map MirrorSide.account) := (h.filter _).map _
  unfold counterpartAccounts
  rw [List.Perm.eq_of_pairwise (fun a b _ _ => le_antisymm) (List.pairwise_insertionSort (· ≤ ·) _)
    (List.pairwise_insertionSort (· ≤ ·) _)
    (((List.perm_insertionSort _ _).trans hperm).trans (List.perm_insertionSort _ _).symm)]

theorem goesWith_perm {sides' : List MirrorSide} (h : sides.Perm sides') :
    goesWith sides outgoing incoming = goesWith sides' outgoing incoming := by
  unfold goesWith
  rw [counterpartAccounts_perm h, counterpartAccounts_perm h]

theorem matched_perm {sides' : List MirrorSide} (hrows : (sides.map MirrorSide.row).Nodup) (h : sides.Perm sides') :
    matched sides = matched sides' := by
  have hrows' : (sides'.map MirrorSide.row).Nodup := (h.map _).nodup_iff.mp hrows
  have hmem : ∀ pair, pair ∈ orderedPairs sides ↔ pair ∈ orderedPairs sides' := fun pair => by
    rw [mem_orderedPairs, mem_orderedPairs, h.mem_iff, h.mem_iff, goesWith_perm h]
  have hordered : orderedPairs sides = orderedPairs sides' := by
    refine List.Perm.eq_of_pairwise (fun pair pair' hpair hpair' hle hge => ?_) (pairwise_orderedPairs sides)
      (pairwise_orderedPairs sides') ((List.perm_ext_iff_of_nodup (nodup_orderedPairs hrows.of_map)
        (nodup_orderedPairs hrows'.of_map)).mpr hmem)
    have hnames := Prod.mk.inj (toLex.injective (le_antisymm hle hge))
    obtain ⟨hout, hin, -⟩ := mem_orderedPairs.mp hpair
    obtain ⟨hout', hin', -⟩ := mem_orderedPairs.mp ((hmem pair').mpr hpair')
    exact Prod.ext (List.inj_on_of_nodup_map hrows hout hout' hnames.1)
      (List.inj_on_of_nodup_map hrows hin hin' hnames.2)
  exact congrArg (Matching.greedy MirrorSide.row MirrorSide.row) hordered

/-- A side that could pair with rows on more than one account, or that has a counterpart which could. -/
def Doubtful (sides : List MirrorSide) (side : MirrorSide) : Prop :=
  1 < (counterpartAccounts sides side).length ∨
    ∃ other ∈ counterparts sides side, 1 < (counterpartAccounts sides other).length

theorem doubtful_perm {sides' : List MirrorSide} (h : sides.Perm sides') :
    Doubtful sides side ↔ Doubtful sides' side := by
  have hcounterparts : (counterparts sides side).Perm (counterparts sides' side) := h.filter _
  unfold Doubtful
  rw [counterpartAccounts_perm h]
  refine or_congr_right (exists_congr fun other => ?_)
  rw [hcounterparts.mem_iff, counterpartAccounts_perm h]

theorem whyUnpaired_eq : whyUnpaired sides side = .ambiguous ↔ Doubtful sides side := by
  unfold whyUnpaired Doubtful
  simp only [Bool.or_eq_true, decide_eq_true_eq, List.any_eq_true]
  split
  · next h => exact ⟨fun _ => h, fun _ => rfl⟩
  · next h => exact ⟨fun he => (nomatch he), fun hdoubtful => absurd hdoubtful h⟩

theorem whyUnpaired_perm {sides' : List MirrorSide} (h : sides.Perm sides') :
    whyUnpaired sides side = whyUnpaired sides' side := by
  have hiff : whyUnpaired sides side = .ambiguous ↔ whyUnpaired sides' side = .ambiguous :=
    whyUnpaired_eq.trans ((doubtful_perm h).trans whyUnpaired_eq.symm)
  cases hleft : whyUnpaired sides side <;> cases hright : whyUnpaired sides' side
  · rfl
  · rw [hleft, hright] at hiff
    exact absurd (hiff.mpr rfl) (by simp)
  · rw [hleft, hright] at hiff
    exact absurd (hiff.mp rfl) (by simp)
  · rfl

/-- The rows that are left over, each with its reason. -/
def reported (sides : List MirrorSide) : List UnpairedSide :=
  (leftOver sides).map fun side => ⟨side.row, whyUnpaired sides side⟩

theorem unpaired_eq (sides : List MirrorSide) :
    (mirrored sides).unpaired = (reported sides).insertionSort fun l r => l.row ≤ r.row := rfl

theorem rows_reported (sides : List MirrorSide) :
    (reported sides).map UnpairedSide.row = (leftOver sides).map MirrorSide.row := by
  unfold reported
  rw [List.map_map]
  rfl

theorem reported_perm {sides' : List MirrorSide} (hrows : (sides.map MirrorSide.row).Nodup) (h : sides.Perm sides') :
    (reported sides).Perm (reported sides') := by
  unfold reported leftOver
  rw [matched_perm hrows h]
  refine ((h.filter _).map _).trans (List.Perm.of_eq (List.map_congr_left fun side _ => ?_))
  rw [whyUnpaired_perm h]

theorem mirrored_perm {sides' : List MirrorSide} (hrows : (sides.map MirrorSide.row).Nodup) (h : sides.Perm sides') :
    mirrored sides = mirrored sides' := by
  have htotal : Std.Total fun l r : UnpairedSide => l.row ≤ r.row := ⟨fun l r => le_total l.row r.row⟩
  have htrans : IsTrans UnpairedSide fun l r => l.row ≤ r.row := ⟨fun _ _ _ => le_trans⟩
  have hpairs : (mirrored sides).pairs = (mirrored sides').pairs := by
    unfold mirrored
    rw [matched_perm hrows h]
  have hnodup : ((reported sides).map UnpairedSide.row).Nodup := by
    rw [rows_reported]
    exact (List.filter_sublist.map _).nodup hrows
  have hreported := reported_perm hrows h
  have hunpaired : (mirrored sides).unpaired = (mirrored sides').unpaired := by
    rw [unpaired_eq, unpaired_eq]
    refine List.Perm.eq_of_pairwise (fun l r hl hr hle hge => ?_)
      (List.pairwise_insertionSort (fun l r : UnpairedSide => l.row ≤ r.row) _)
      (List.pairwise_insertionSort (fun l r : UnpairedSide => l.row ≤ r.row) _)
      (((List.perm_insertionSort _ _).trans hreported).trans (List.perm_insertionSort _ _).symm)
    rw [List.mem_insertionSort] at hl hr
    exact List.inj_on_of_nodup_map hnodup hl (hreported.mem_iff.mpr hr) (le_antisymm hle hge)
  calc mirrored sides = ⟨(mirrored sides).pairs, (mirrored sides).unpaired⟩ := rfl
    _ = ⟨(mirrored sides').pairs, (mirrored sides').unpaired⟩ := by rw [hpairs, hunpaired]
    _ = mirrored sides' := rfl

theorem mem_unpaired (hrows : (sides.map MirrorSide.row).Nodup) (hside : side ∈ sides) {reason : Unpaired} :
    ⟨side.row, reason⟩ ∈ (mirrored sides).unpaired ↔ side ∈ leftOver sides ∧ whyUnpaired sides side = reason := by
  rw [unpaired_eq, List.mem_insertionSort, reported, List.mem_map]
  constructor
  · rintro ⟨other, hother, heq⟩
    obtain ⟨hrow, hreason⟩ := UnpairedSide.mk.inj heq
    have hsame : other = side := List.inj_on_of_nodup_map hrows (mem_leftOver.mp hother).1 hside hrow
    exact ⟨hsame ▸ hother, hsame ▸ hreason⟩
  · rintro ⟨hleft, rfl⟩
    exact ⟨side, hleft, rfl⟩

end

/-- What a mirror reading is of: every row is in one pair or among those left over; the pairs are halves of one movement
    that can go with no other account, as many in each group as there are rows on its smaller side; a row left over
    is ambiguous when it or a counterpart of it could go with more than one account; and the order of the rows makes no
    difference. -/
theorem mirrored_matches {sides : List MirrorSide} (hrows : (sides.map MirrorSide.row).Nodup) :
    (((mirrored sides).pairs.flatMap fun pair => [pair.outgoing, pair.incoming]) ++
      (mirrored sides).unpaired.map UnpairedSide.row).Perm (sides.map MirrorSide.row) ∧
    (mirrored sides).pairs = (matched sides).map (fun pair => ⟨pair.1.row, pair.2.row, evidenceOf pair.1 pair.2⟩) ∧
    (∀ pair ∈ matched sides, pair.1 ∈ sides ∧ pair.2 ∈ sides ∧ pair.1.direction = .out ∧ pair.2.direction = .in ∧
      mirrors pair.1 pair.2 = true ∧ counterpartAccounts sides pair.1 = [pair.2.account] ∧
      counterpartAccounts sides pair.2 = [pair.1.account]) ∧
    (∀ g, ((matched sides).filter fun pair => groupOf pair = g).length =
      min (departures sides g).length (arrivals sides g).length) ∧
    (∀ side ∈ sides, side.row ∈ (mirrored sides).unpaired.map UnpairedSide.row →
      (⟨side.row, .ambiguous⟩ ∈ (mirrored sides).unpaired ↔ Doubtful sides side)) ∧
    ∀ sides', sides'.Perm sides → mirrored sides' = mirrored sides := by
  have hunpairedRows : ((mirrored sides).unpaired.map UnpairedSide.row).Perm ((leftOver sides).map MirrorSide.row) := by
    rw [unpaired_eq, ← rows_reported]
    exact (List.perm_insertionSort _ _).map _
  refine ⟨?_, rfl, fun pair hpair => ?_, length_group hrows, fun side hside hrow => ?_, fun sides' h => ?_⟩
  · have hpairs : ((mirrored sides).pairs.flatMap fun pair => [pair.outgoing, pair.incoming]) =
        pairedRows (matched sides) := by
      change ((matched sides).map _).flatMap _ = _
      rw [List.flatMap_map]
      rfl
    rw [hpairs]
    exact (List.Perm.append_left _ hunpairedRows).trans (rows_accounted hrows)
  · have hp := pairable_of_matched hpair
    exact ⟨hp.leaves, hp.arrives, hp.out, hp.in_, hp.halves, hp.accountOf, one_of_pairable hp⟩
  · obtain ⟨other, hother, heq⟩ := List.mem_map.mp (hunpairedRows.mem_iff.mp hrow)
    have hsame : other = side := List.inj_on_of_nodup_map hrows (mem_leftOver.mp hother).1 hside heq
    rw [mem_unpaired hrows hside, whyUnpaired_eq]
    exact and_iff_right (hsame ▸ hother)
  · exact (mirrored_perm hrows h.symm).symm

/-! ### A paired row of doubtful company -/

/-- A row of a hundred on the first day. -/
def hundred (row account : Nat) (direction : Classification.Movement) (farSide : Option AccountId) : MirrorSide :=
  ⟨row, ⟨account⟩, direction, .new 100, .rub, ⟨0⟩, farSide⟩

/-- Departures from two accounts, and two arrivals of which one names where it is from. -/
def twoArrivals : List MirrorSide :=
  [hundred 1 1 .out none, hundred 2 2 .in (some ⟨1⟩), hundred 3 2 .in none, hundred 4 3 .out none]

/-- The first departure has an ambiguous counterpart. It is paired all the same, with the arrival that names it, and so it
    is not reported. -/
theorem paired_and_doubtful : (twoArrivals.map MirrorSide.row).Nodup ∧
    Doubtful twoArrivals (hundred 1 1 .out none) ∧
    (⟨1, 2, .oneSideNamed⟩ : Mirror) ∈ (mirrored twoArrivals).pairs ∧
    (⟨1, .ambiguous⟩ : UnpairedSide) ∉ (mirrored twoArrivals).unpaired := by
  refine ⟨by decide, .inr ⟨hundred 3 2 .in none, by decide, by decide⟩, by decide,
    by decide⟩

theorem twoArrivals_matches : ((mirrored twoArrivals).pairs.flatMap (fun pair => [pair.outgoing, pair.incoming]) ++
      (mirrored twoArrivals).unpaired.map UnpairedSide.row).Perm [1, 2, 3, 4] ∧
    (⟨3, .ambiguous⟩ : UnpairedSide) ∈ (mirrored twoArrivals).unpaired := by
  obtain ⟨hrows, -, -, -, hambiguous, -⟩ := @mirrored_matches twoArrivals (by decide)
  refine ⟨hrows, (hambiguous (hundred 3 2 .in none) (by decide) (by decide)).mpr ?_⟩
  exact .inl (by decide)

end Mirror
end Iaam
