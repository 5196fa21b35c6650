import Iaam.App.SessionPlan
import Iaam.Lib.Runs
import Iaam.Theorems.Mirror
import Iaam.Theorems.Operations
import Mathlib.Data.List.Perm.Basic

/-! Every row of a session is accounted for once, and a row that prints the other side of a movement is settled by a row that
records the movement. -/

namespace Iaam
open Outcome

namespace SessionReading

section
variable {env : Environment} {fresh : Nat → Operation.Fresh} {owner : OwnerId} {session : SessionView} {resolver : Resolver}
  {observation : ImportObservationView} {read : ReadRow}

/-! ### A row on its own -/

theorem attempt_ok {α : Type} {x : Operation.Built α} {value : α} (h : attempt x = .ok (.ok value)) : x = .ok value := by
  rcases x with (rejection | _) | value'
  · cases h
  · cases h
  · cases h
    rfl

/-- A row that is settled on its own is on both sides of its movement. -/
theorem assess_noFact {words : Words} {row : ObservedRow} {reason : NoFactReason}
    (h : assess words resolver row = .noFact reason) : reason = .oneAccountTwoInstruments row.account := by
  unfold assess at h
  dsimp only at h
  split at h
  · cases h
    rfl
  · split at h
    · cases h
    · split at h <;> cases h

theorem resolutionOf_noFact {reason : NoFactReason} (h : resolutionOf env resolver observation = .ok (.noFact reason)) :
    ∃ account, reason = .oneAccountTwoInstruments account := by
  unfold resolutionOf at h
  split at h
  · cases h
  · cases h
  · split at h
    · split at h
      · cases h
      · obtain ⟨operation, -, h⟩ := bind_ok.mp h
        cases h
    · split at h
      · obtain ⟨operation, -, h⟩ := bind_ok.mp h
        cases h
      · next hassess =>
        cases h
        exact ⟨_, assess_noFact hassess⟩
      · cases h

/-- A row is read into no fact, into a refusal, or into the event of an operation. -/
theorem readRow_cases (h : readRow env fresh owner session resolver observation = .ok read) :
    read.row = observation.row ∧
      ((∃ account, read.candidate = none ∧ read.settled = some (.oneAccountTwoInstruments account)) ∨
        (∃ rejection, read.candidate = some (.error rejection) ∧ read.settled = none) ∨
          ∃ e reader basis operation, read.candidate = some (.ok e) ∧ read.settled = none ∧
            candidateOf env (fresh observation.row) owner session reader basis operation = .ok e) := by
  unfold readRow at h
  dsimp only at h
  split at h
  · cases h
    exact ⟨rfl, .inr (.inl ⟨_, rfl, rfl⟩)⟩
  · next hreason =>
    obtain ⟨account, rfl⟩ := resolutionOf_noFact hreason
    cases h
    exact ⟨rfl, .inl ⟨account, rfl, rfl⟩⟩
  · obtain ⟨candidate, hcandidate, h⟩ := bind_ok.mp h
    cases h
    refine ⟨rfl, .inr ?_⟩
    rcases candidate with rejection | e
    · exact .inl ⟨rejection, rfl, rfl⟩
    · exact .inr ⟨e, _, _, _, rfl, rfl, attempt_ok hcandidate⟩

/-- A transfer takes a positive amount off one account and puts it on another. -/
def TwoLegs (e : Event) : Prop :=
  ∀ id source target amount, e.kind = .cashTransfer id source target amount →
    target ≠ source ∧ 0 < amount.amount.raw ∧ ∃ outgoing : PostedMinor, outgoing.raw = -amount.amount.raw ∧
      e.legs = [.cash source ⟨outgoing, amount.currency⟩, .cash target amount]

theorem twoLegs_of_candidate {fresh : Operation.Fresh} {reader : String} {basis : FactBasis}
    {operation : SubmittedOperation} {e : Event}
    (h : candidateOf env fresh owner session reader basis operation = .ok e) : TwoLegs e := by
  intro id source target amount hkind
  obtain ⟨normalized, hnormalized, h⟩ := bind_ok.mp h
  cases h
  unfold Operation.normalize at hnormalized
  dsimp only at hnormalized
  split at hnormalized
  · cases hnormalized
  · obtain ⟨⟨kind, legs⟩, hbuild, hnormalized⟩ := bind_ok.mp hnormalized
    cases hnormalized
    dsimp only at hkind
    rw [hkind] at hbuild
    obtain ⟨rfl, hne, hpos, outgoing, hraw, hlegs⟩ := Operation.build_cashTransfer hbuild
    exact ⟨hne, hpos, outgoing, hraw, hlegs⟩

end

/-! ### A row as a side of a movement -/

section
variable {read : ReadRow} {questioned : Bool} {side : MirrorSide}

theorem magnitude_ok {amount m : PostedMinor} (h : magnitude amount = some m) : m.raw = |amount.raw| ∧ 0 < m.raw := by
  obtain ⟨hm, hpos⟩ := Option.filter_eq_some_iff.mp h
  exact ⟨PostedMinor.ofInt_eq_some.mp hm, of_decide_eq_true hpos⟩

/-- The kind of a transfer between the account of a side and another one. -/
def transferOf (id : TransferId) (near far : AccountId) (amount : Money) : Classification.Movement → EventKind
  | .out => .cashTransfer id near far amount
  | .in => .cashTransfer id far near amount

theorem transferSide_ok {row : Nat} {account : AccountId} {date : Date} {e : Event}
    (h : transferSide row account date e = some side) :
    side.row = row ∧ side.account = account ∧ side.date = date ∧ 0 < side.amountMinor.raw ∧
      ∃ id far amount, e.kind = transferOf id account far amount side.direction ∧ side.farSide = some far ∧
        side.currency = amount.currency ∧ side.amountMinor.raw = |amount.amount.raw| := by
  unfold transferSide at h
  split at h
  · next id source target amount hkind =>
    split at h
    · next hsource =>
      obtain ⟨ends, hends, hside⟩ := Option.bind_eq_some_iff.mp h
      cases hends
      obtain ⟨m, hm, hside⟩ := Option.bind_eq_some_iff.mp hside
      obtain ⟨hraw, hpos⟩ := magnitude_ok hm
      cases hside
      exact ⟨rfl, rfl, rfl, hpos, id, target, amount, by rw [hkind, hsource]; rfl, rfl, rfl, hraw⟩
    · split at h
      · next htarget =>
        obtain ⟨ends, hends, hside⟩ := Option.bind_eq_some_iff.mp h
        cases hends
        obtain ⟨m, hm, hside⟩ := Option.bind_eq_some_iff.mp hside
        obtain ⟨hraw, hpos⟩ := magnitude_ok hm
        cases hside
        exact ⟨rfl, rfl, rfl, hpos, id, source, amount, by rw [hkind, htarget]; rfl, rfl, rfl, hraw⟩
      · cases h
  · cases h

theorem unansweredSide_ok {row : Nat} {observed : ObservedRow} (h : unansweredSide row observed = some side) :
    side.row = row ∧ side.account = observed.account ∧ observed.dates.effectiveDate = some side.date ∧
      0 < side.amountMinor.raw := by
  obtain ⟨direction, -, h⟩ := Option.bind_eq_some_iff.mp h
  obtain ⟨m, hm, h⟩ := Option.bind_eq_some_iff.mp h
  obtain ⟨date, hdate, h⟩ := Option.bind_eq_some_iff.mp h
  cases h
  exact ⟨rfl, rfl, hdate, (magnitude_ok hm).2⟩

/-- A side is on the account and of the day of its row. -/
theorem mirrorSide_ok (h : mirrorSide read questioned = some side) :
    side.row = read.row ∧ read.account = some side.account ∧ read.statedDay = some side.date := by
  obtain ⟨account, haccount, hday⟩ := Option.bind_eq_some_iff.mp h
  obtain ⟨date, hdate, hside⟩ := Option.bind_eq_some_iff.mp hday
  rw [haccount, hdate]
  split at hside
  · obtain ⟨hrow, rfl, rfl, -⟩ := transferSide_ok hside
    exact ⟨hrow, rfl, rfl⟩
  · next hevent hintake =>
    obtain ⟨hrow, hnear, heffective, -⟩ := unansweredSide_ok hside
    rw [ReadRow.account, hintake] at haccount
    rw [ReadRow.statedDay, hintake] at hdate
    refine ⟨hrow, ?_, ?_⟩
    · rw [hnear, ← haccount]
      rfl
    · rw [← heffective, ← hdate]
      rfl
  · cases hside

/-- A row that nothing is asked about is a side by its fact. -/
theorem mirrorSide_settled (h : mirrorSide read false = some side) :
    ∃ e, read.candidate = some (.ok e) ∧ transferSide read.row side.account side.date e = some side := by
  obtain ⟨account, -, hday⟩ := Option.bind_eq_some_iff.mp h
  obtain ⟨date, -, hside⟩ := Option.bind_eq_some_iff.mp hday
  split at hside
  · next e hevent =>
    obtain ⟨-, haccount, hdate, -⟩ := transferSide_ok hside
    obtain ⟨candidate, hcandidate, hok⟩ := Option.bind_eq_some_iff.mp hevent
    rcases candidate with rejection | e'
    · cases hok
    · cases hok
      exact ⟨e, hcandidate, by rw [haccount, hdate]; exact hside⟩
  · next hquestioned _ => cases hquestioned
  · cases hside

end

/-! ### The rows that another row settles -/

section
variable {env : Environment} {session : ImportSessionId} {rows : List ReadRow} {questions : List ImportQuestionView}
  {side : MirrorSide} {row records : Nat}

theorem mem_sidesOf : side ∈ sidesOf rows questions ↔
    ∃ read ∈ rows, mirrorSide read (read.row ∈ openRows rows questions) = some side := List.mem_filterMap

/-- Rows of different numbers are different sides. -/
theorem nodup_sidesOf (hrows : (rows.map ReadRow.row).Nodup) : ((sidesOf rows questions).map MirrorSide.row).Nodup :=
  Mirror.nodup_rows (fun _ _ h => (mirrorSide_ok h).1) hrows

/-- The row of a pair that records nothing, and the one that records for it. -/
def Settles («open» : List Nat) (outgoing incoming row records : Nat) : Prop :=
  outgoing ∉ «open» ∧ row = incoming ∧ records = outgoing ∨
    outgoing ∈ «open» ∧ incoming ∉ «open» ∧ row = outgoing ∧ records = incoming

/-- What a pair settles a row by. -/
def settledBy («open» : List Nat) (row : Nat) (mirror : Mirror) : Option Nat :=
  if mirror.outgoing ∉ «open» then if mirror.incoming = row then some mirror.outgoing else none
  else if mirror.incoming ∉ «open» then if mirror.outgoing = row then some mirror.incoming else none
  else none

theorem settledBy_iff {«open» : List Nat} {mirror : Mirror} :
    settledBy «open» row mirror = some records ↔ Settles «open» mirror.outgoing mirror.incoming row records := by
  unfold settledBy Settles
  by_cases hout : mirror.outgoing ∈ «open»
  · rw [if_neg (not_not.mpr hout)]
    by_cases hin : mirror.incoming ∈ «open»
    · rw [if_neg (not_not.mpr hin)]
      exact ⟨fun h => (nomatch h), fun h => h.elim (fun h => absurd hout h.1) fun h => absurd hin h.2.1⟩
    · rw [if_pos hin, Option.ite_none_right_eq_some, Option.some.injEq, eq_comm, eq_comm (a := mirror.incoming)]
      exact ⟨fun h => .inr ⟨hout, hin, h⟩, fun h => h.elim (fun h => absurd hout h.1) fun h => h.2.2⟩
  · rw [if_pos hout, Option.ite_none_right_eq_some, Option.some.injEq, eq_comm, eq_comm (a := mirror.outgoing)]
    exact ⟨fun h => .inl ⟨hout, h⟩, fun h => h.elim (fun h => h.2) fun h => absurd h.1 hout⟩

theorem get_addPair («open» : List Nat) (row : Nat) (paired : MirroredRows) (mirror : Mirror) :
    (addPair env session «open» paired mirror).settled[row]? =
      (settledBy «open» row mirror).or paired.settled[row]? := by
  unfold addPair settledBy
  split
  · rw [Tree.get_insert]
    split <;> rfl
  · split
    · rw [Tree.get_insert]
      split <;> rfl
    · rfl

/-- A row that another one settles is paired with it. -/
theorem exists_pair (h : (mirroredRows env session rows questions).settled[row]? = some records) :
    ∃ pair ∈ Mirror.matched (sidesOf rows questions),
      Settles (openRows rows questions) pair.1.row pair.2.row row records := by
  rcases Runs.exists_of_foldl_or (fun paired : MirroredRows => paired.settled[row]?) (get_addPair _ row) h with hnone | ⟨mirror, hmirror, hsettles⟩
  · rw [Std.ExtTreeMap.getElem?_empty] at hnone
    cases hnone
  · obtain ⟨pair, hpair, rfl⟩ := List.mem_map.mp hmirror
    exact ⟨pair, hpair, settledBy_iff.mp hsettles⟩

/-- The row that records for another one is settled by none: no row is in two pairs, and a pair settles one row. -/
theorem settled_records (hrows : (rows.map ReadRow.row).Nodup)
    (h : (mirroredRows env session rows questions).settled[row]? = some records) :
    (mirroredRows env session rows questions).settled[records]? = none := by
  rw [← Option.not_isSome_iff_eq_none, Option.isSome_iff_exists]
  rintro ⟨third, hthird⟩
  obtain ⟨⟨o, i⟩, hpair, hsettles⟩ := exists_pair h
  obtain ⟨⟨o', i'⟩, hpair', hsettles'⟩ := exists_pair hthird
  have hne : o.row ≠ i.row := Mirror.rows_ne (nodup_sidesOf hrows) hpair
  dsimp only at hsettles hsettles'
  rcases hsettles with ⟨hout, -, rfl⟩ | ⟨hout, hin, -, rfl⟩
  · rcases hsettles' with ⟨-, hrow, -⟩ | ⟨hout', -, hrow, -⟩
    · cases Mirror.eq_of_common_row (nodup_sidesOf hrows) hpair hpair' (.inl rfl) (.inr hrow)
      exact hne hrow
    · exact hout (hrow ▸ hout')
  · rcases hsettles' with ⟨hout', hrow, -⟩ | ⟨-, -, hrow, -⟩
    · cases Mirror.eq_of_common_row (nodup_sidesOf hrows) hpair hpair' (.inr rfl) (.inr hrow)
      exact hout' hout
    · cases Mirror.eq_of_common_row (nodup_sidesOf hrows) hpair hpair' (.inr rfl) (.inl hrow)
      exact hne hrow.symm

/-- The row `read` prints the other side of the transfer that `kept` records. -/
structure SecondLegOf (read kept : ReadRow) (side : MirrorSide) (e : Event) : Prop where
  sees : ∃ questioned, mirrorSide read questioned = some side
  candidate : kept.candidate = some (.ok e)
  kind : ∃ id far, kept.account = some far ∧ far ≠ side.account ∧
    e.kind = transferOf id side.account far ⟨side.amountMinor, side.currency⟩ side.direction
  leg : ∃ moved : PostedMinor,
    moved.raw = (if side.direction = .in then side.amountMinor.raw else -side.amountMinor.raw) ∧
      e.legs.filter (fun leg => leg.account = side.account) = [.cash side.account ⟨moved, side.currency⟩]
  readDay : read.statedDay = some side.date
  keptDay : kept.statedDay = some side.date

theorem transferOf_swap {id : TransferId} {near far : AccountId} {amount : Money}
    {direction direction' : Classification.Movement} (h : direction ≠ direction') :
    transferOf id near far amount direction = transferOf id far near amount direction' := by
  rcases direction with _ | _ <;> rcases direction' with _ | _
  · exact absurd rfl h
  · rfl
  · rfl
  · exact absurd rfl h

/-- The leg of a transfer on the account it is named from. -/
theorem leg_of_transfer {e : Event} {id : TransferId} {near far : AccountId} {amount : Money}
    {direction : Classification.Movement} (he : TwoLegs e) (hkind : e.kind = transferOf id near far amount direction) :
    0 < amount.amount.raw ∧ ∃ moved : PostedMinor,
      moved.raw = (if direction = .in then amount.amount.raw else -amount.amount.raw) ∧
        e.legs.filter (fun leg => leg.account = near) = [.cash near ⟨moved, amount.currency⟩] := by
  rcases direction with _ | _
  · obtain ⟨hne, hpos, outgoing, hraw, hlegs⟩ := he id far near amount hkind
    refine ⟨hpos, amount.amount, rfl, ?_⟩
    rw [hlegs, List.filter_cons_of_neg, List.filter_cons_of_pos, List.filter_nil]
    · exact decide_eq_true rfl
    · exact fun h => hne (of_decide_eq_true h).symm
  · obtain ⟨hne, hpos, outgoing, hraw, hlegs⟩ := he id near far amount hkind
    refine ⟨hpos, outgoing, hraw, ?_⟩
    rw [hlegs, List.filter_cons_of_pos, List.filter_cons_of_neg, List.filter_nil]
    · exact fun h => hne (of_decide_eq_true h)
    · exact decide_eq_true rfl

/-- A side whose half is recorded by the fact of the other row. -/
theorem secondLegOf {read kept : ReadRow} {questioned : Bool} {near far : MirrorSide}
    (hnear : mirrorSide read questioned = some near) (hkept : mirrorSide kept false = some far)
    (hlegs : ∀ e, kept.candidate = some (.ok e) → TwoLegs e) (hdirection : near.direction ≠ far.direction)
    (haccount : far.account ≠ near.account) (hcurrency : far.currency = near.currency)
    (hamount : far.amountMinor = near.amountMinor) (hdate : far.date = near.date)
    (hfar : ∀ named, far.farSide = some named → named = near.account) : ∃ e, SecondLegOf read kept near e := by
  obtain ⟨e, hcandidate, hside⟩ := mirrorSide_settled hkept
  obtain ⟨-, -, -, -, id, named, amount, hkind, hnamed, hsame, hraw⟩ := transferSide_ok hside
  cases hfar named hnamed
  have hkind' := hkind.trans (transferOf_swap hdirection.symm)
  obtain ⟨hpos, moved, hmoved, hleg⟩ := leg_of_transfer (hlegs e hcandidate) hkind'
  have hminor : amount = ⟨near.amountMinor, near.currency⟩ := by
    rw [abs_of_pos hpos] at hraw
    rw [← hcurrency, hsame, ← hamount]
    exact congrArg (fun minor => (⟨minor, amount.currency⟩ : Money)) (PostedMinor.ext_raw hraw.symm)
  subst hminor
  exact ⟨e, ⟨questioned, hnear⟩, hcandidate, ⟨id, far.account, (mirrorSide_ok hkept).2.1, haccount, hkind'⟩,
    ⟨moved, hmoved, hleg⟩, (mirrorSide_ok hnear).2.2, hdate ▸ (mirrorSide_ok hkept).2.2⟩

/-- What a row that another one settles is, before it is. -/
theorem exists_secondLeg (hrows : (rows.map ReadRow.row).Nodup) (hlegs : ∀ read ∈ rows, ∀ e, read.candidate = some (.ok e) → TwoLegs e)
    (h : (mirroredRows env session rows questions).settled[row]? = some records) :
    records ≠ row ∧ ∃ read ∈ rows, ∃ kept ∈ rows, ∃ side e, read.row = row ∧ kept.row = records ∧
      SecondLegOf read kept side e := by
  obtain ⟨⟨o, i⟩, hpair, hsettles⟩ := exists_pair h
  have hp := Mirror.pairable_of_matched hpair
  have hhalves := Mirror.mirrors_iff.mp hp.halves
  obtain ⟨readO, hO, hsideO⟩ := mem_sidesOf.mp hp.leaves
  obtain ⟨readI, hI, hsideI⟩ := mem_sidesOf.mp hp.arrives
  have hrowO := (mirrorSide_ok hsideO).1
  have hrowI := (mirrorSide_ok hsideI).1
  have hdirection : i.direction ≠ o.direction := by
    rw [hp.out, hp.in_]
    exact Classification.Movement.noConfusion
  have hne : o.row ≠ i.row := Mirror.rows_ne (nodup_sidesOf hrows) hpair
  dsimp only at hsettles
  rcases hsettles with ⟨hout, rfl, rfl⟩ | ⟨-, hin, rfl, rfl⟩
  · rw [decide_eq_false (hrowO ▸ hout)] at hsideO
    obtain ⟨e, he⟩ := secondLegOf hsideI hsideO (hlegs readO hO) hdirection hhalves.account hhalves.currency
      hhalves.amountMinor hhalves.date hhalves.outgoingFar
    exact ⟨hne, readI, hI, readO, hO, i, e, hrowI.symm, hrowO.symm, he⟩
  · rw [decide_eq_false (hrowI ▸ hin)] at hsideI
    obtain ⟨e, he⟩ := secondLegOf hsideO hsideI (hlegs readI hI) hdirection.symm hhalves.account.symm
      hhalves.currency.symm hhalves.amountMinor.symm hhalves.date.symm hhalves.incomingFar
    exact ⟨hne.symm, readO, hO, readI, hI, o, e, hrowO.symm, hrowI.symm, he⟩

/-- A row with a candidate is not settled, and a row without one is. -/
def Decided (read : ReadRow) : Prop := read.settled.isSome = read.candidate.isNone

theorem decided_settleMirrored {mirrors : MirroredRows} {read : ReadRow} (h : Decided read) :
    Decided (settleMirrored mirrors read) := by
  unfold settleMirrored
  split
  · exact h
  · rfl

theorem decided_of_readRow {fresh : Nat → Operation.Fresh} {owner : OwnerId} {session : SessionView} {resolver : Resolver}
    {observation : ImportObservationView} {read : ReadRow}
    (h : readRow env fresh owner session resolver observation = .ok read) : Decided read := by
  rcases (readRow_cases h).2 with ⟨_, hcandidate, hsettled⟩ | ⟨_, hcandidate, hsettled⟩ | ⟨_, _, _, _, hcandidate, hsettled, -⟩
  all_goals rw [Decided, hcandidate, hsettled]; rfl

theorem twoLegs_of_readRow {fresh : Nat → Operation.Fresh} {owner : OwnerId} {session : SessionView} {resolver : Resolver}
    {observation : ImportObservationView} {read : ReadRow} {e : Event}
    (h : readRow env fresh owner session resolver observation = .ok read) (he : read.candidate = some (.ok e)) :
    TwoLegs e := by
  rcases (readRow_cases h).2 with ⟨_, hnone, -⟩ | ⟨_, hrefused, -⟩ | ⟨_, _, _, _, hcandidate, -, hof⟩
  · rw [hnone] at he
    cases he
  · rw [hrefused] at he
    cases he
  · rw [hcandidate] at he
    cases he
    exact twoLegs_of_candidate hof

theorem settleMirrored_of_none {mirrors : MirroredRows} {read : ReadRow} (h : mirrors.settled[read.row]? = none) :
    settleMirrored mirrors read = read := by
  unfold settleMirrored
  rw [h]

/-- Only the pairs of the session settle a row as a second leg. -/
theorem settled_of_settleMirrored {fresh : Nat → Operation.Fresh} {owner : OwnerId} {session : SessionView}
    {resolver : Resolver} {observation : ImportObservationView} {read : ReadRow} {mirrors : MirroredRows}
    (h : readRow env fresh owner session resolver observation = .ok read)
    (hsettled : (settleMirrored mirrors read).settled = some (.secondLegOfOneMovement records)) :
    mirrors.settled[read.row]? = some records := by
  unfold settleMirrored at hsettled
  split at hsettled
  · rcases (readRow_cases h).2 with ⟨_, -, hown⟩ | ⟨_, -, hnone⟩ | ⟨_, _, _, _, -, hnone, -⟩
    · rw [hown] at hsettled
      cases hsettled
    · rw [hnone] at hsettled
      cases hsettled
    · rw [hnone] at hsettled
      cases hsettled
  · next hby =>
    cases hsettled
    exact hby

theorem row_settleMirrored (mirrors : MirroredRows) (read : ReadRow) : (settleMirrored mirrors read).row = read.row := by
  unfold settleMirrored
  split <;> rfl

end

end SessionReading

namespace SessionPlan
open SessionReading

/-! ### One outcome for every row -/

section
variable {recorded : RecordedIdentities} {«open» : List OpenQuestion} {rows : List ReadRow}

/-- What the accounting of one row is on its own. -/
def one (recorded : RecordedIdentities) («open» : List OpenQuestion) (read : ReadRow) : Accounting :=
  Accounting.empty.add recorded «open» read

/-- A row adds to the lists what it adds to empty ones. -/
theorem add_append (a : Accounting) (read : ReadRow) :
    a.add recorded «open» read =
      { facts := a.facts ++ (one recorded «open» read).facts
        duplicates := a.duplicates ++ (one recorded «open» read).duplicates
        resembling := a.resembling ++ (one recorded «open» read).resembling
        retained := a.retained ++ (one recorded «open» read).retained
        settledWithoutFact := a.settledWithoutFact ++ (one recorded «open» read).settledWithoutFact
        reconciliation := a.reconciliation ++ (one recorded «open» read).reconciliation
        appended := a.appended ++ (one recorded «open» read).appended } := by
  unfold one Accounting.add
  split
  · split <;> simp [Accounting.settle, Accounting.reconcile, Accounting.empty]
  · split <;> simp [Accounting.duplicate, Accounting.record, Accounting.reconcile, Accounting.empty]
  · split <;> simp [Accounting.retain, Accounting.reconcile, Accounting.empty]

/-- A list of the accounting, row by row. -/
theorem foldl_add {β : Type} (list : Accounting → List β)
    (hadd : ∀ a read, list (a.add recorded «open» read) = list a ++ list (one recorded «open» read)) (a : Accounting) :
    list (rows.foldl (Accounting.add recorded «open») a) =
      list a ++ rows.flatMap fun read => list (one recorded «open» read) := by
  induction rows generalizing a with
  | nil => exact (List.append_nil _).symm
  | cons read rows ih => rw [List.foldl_cons, ih, hadd, List.append_assoc, List.flatMap_cons]

/-- The rows of the four lists of a plan. -/
def Accounting.listed (a : Accounting) : List Nat :=
  a.facts.map PlannedFact.row ++ a.duplicates.map PlannedFact.row ++ a.retained.map RetainedRow.row ++
    a.settledWithoutFact.map SettledRow.row

/-- A decided row is in one list, and has one outcome. -/
theorem one_of_decided {read : ReadRow} (h : Decided read) : (one recorded «open» read).listed = [read.row] ∧
    (one recorded «open» read).reconciliation.map RowReconciliation.row = [read.row] := by
  unfold one Accounting.add
  split
  · next hnone =>
    split
    · exact ⟨rfl, rfl⟩
    · next hsettled =>
      rw [Decided, hnone, hsettled] at h
      cases h
  · split <;> exact ⟨rfl, rfl⟩
  · split <;> exact ⟨rfl, rfl⟩

theorem listed_add (a : Accounting) (read : ReadRow) :
    (a.add recorded «open» read).listed.Perm (a.listed ++ (one recorded «open» read).listed) := by
  rw [add_append]
  unfold Accounting.listed
  rw [List.perm_iff_count]
  intro row
  simp only [List.map_append, List.count_append]
  omega

theorem listed_foldl (hdecided : ∀ read ∈ rows, Decided read) (a : Accounting) :
    (rows.foldl (Accounting.add recorded «open») a).listed.Perm (a.listed ++ rows.map ReadRow.row) := by
  induction rows generalizing a with
  | nil => exact List.Perm.of_eq (List.append_nil _).symm
  | cons read rows ih =>
    obtain ⟨hread, hrows⟩ := List.forall_mem_cons.mp hdecided
    refine (ih hrows _).trans (((listed_add a read).append_right _).trans (List.Perm.of_eq ?_))
    rw [(one_of_decided hread).1, List.append_assoc, List.map_cons, List.singleton_append]

theorem reconciliation_foldl (hdecided : ∀ read ∈ rows, Decided read) :
    (rows.foldl (Accounting.add recorded «open») .empty).reconciliation.map RowReconciliation.row =
      rows.map ReadRow.row := by
  have hlist : ∀ (a : Accounting) read, (a.add recorded «open» read).reconciliation =
      a.reconciliation ++ (one recorded «open» read).reconciliation := fun a read => by rw [add_append]
  rw [foldl_add _ hlist, List.map_append, List.map_flatMap]
  exact (List.flatMap_congr fun read hread => (one_of_decided (hdecided read hread)).2).trans List.map_eq_flatMap.symm

/-- The outcome of a row names the list that the row is in. -/
def Stated (a : Accounting) (entry : RowReconciliation) : Prop :=
  (∀ recordsAs settledBy, entry.outcome = .recorded recordsAs settledBy →
    ∃ fact ∈ a.facts, fact.row = entry.row ∧ fact.recordsAs = recordsAs ∧ fact.settledBy = settledBy) ∧
  (∀ recordsAs settledBy, entry.outcome = .duplicate recordsAs settledBy →
    ∃ fact ∈ a.duplicates, fact.row = entry.row ∧ fact.recordsAs = recordsAs ∧ fact.settledBy = settledBy) ∧
  (∀ reason, entry.outcome = .retained reason → ⟨entry.row, reason⟩ ∈ a.retained) ∧
  ∀ reason, entry.outcome = .settledWithoutFact reason → ⟨entry.row, reason⟩ ∈ a.settledWithoutFact

theorem mem_foldl_add {β : Type} (list : Accounting → List β)
    (hadd : ∀ a read, list (a.add recorded «open» read) = list a ++ list (one recorded «open» read)) {a : Accounting} {x : β} :
    x ∈ list (rows.foldl (Accounting.add recorded «open») a) ↔
      x ∈ list a ∨ ∃ read ∈ rows, x ∈ list (one recorded «open» read) := by
  rw [foldl_add list hadd, List.mem_append, List.mem_flatMap]

/-- The lists of the plan, one entry at a time. -/
theorem mem_facts {fact : PlannedFact} : fact ∈ (rows.foldl (Accounting.add recorded «open») .empty).facts ↔
    ∃ read ∈ rows, fact ∈ (one recorded «open» read).facts := by
  rw [mem_foldl_add Accounting.facts fun a read => by rw [add_append]]
  exact or_iff_right List.not_mem_nil

theorem mem_duplicates {fact : PlannedFact} : fact ∈ (rows.foldl (Accounting.add recorded «open») .empty).duplicates ↔
    ∃ read ∈ rows, fact ∈ (one recorded «open» read).duplicates := by
  rw [mem_foldl_add Accounting.duplicates fun a read => by rw [add_append]]
  exact or_iff_right List.not_mem_nil

theorem mem_retained {row : RetainedRow} : row ∈ (rows.foldl (Accounting.add recorded «open») .empty).retained ↔
    ∃ read ∈ rows, row ∈ (one recorded «open» read).retained := by
  rw [mem_foldl_add Accounting.retained fun a read => by rw [add_append]]
  exact or_iff_right List.not_mem_nil

theorem mem_settled {row : SettledRow} :
    row ∈ (rows.foldl (Accounting.add recorded «open») .empty).settledWithoutFact ↔
      ∃ read ∈ rows, row ∈ (one recorded «open» read).settledWithoutFact := by
  rw [mem_foldl_add Accounting.settledWithoutFact fun a read => by rw [add_append]]
  exact or_iff_right List.not_mem_nil

theorem mem_reconciliation {entry : RowReconciliation} :
    entry ∈ (rows.foldl (Accounting.add recorded «open») .empty).reconciliation ↔
      ∃ read ∈ rows, entry ∈ (one recorded «open» read).reconciliation := by
  rw [mem_foldl_add Accounting.reconciliation fun a read => by rw [add_append]]
  exact or_iff_right List.not_mem_nil

section
variable {read : ReadRow} {e : Event} {entry : RowReconciliation}

theorem one_of_settled {reason : NoFactReason} (hnone : read.candidate = none) (hsettled : read.settled = some reason) :
    one recorded «open» read = Accounting.empty.settle read.row reason := by
  unfold one Accounting.add
  rw [hnone, hsettled]

theorem one_of_held (hcandidate : read.candidate = some (.ok e)) (hheld : recorded.holds e = true) :
    one recorded «open» read = Accounting.empty.duplicate read e := by
  unfold one Accounting.add
  rw [hcandidate]
  exact if_pos hheld

theorem one_of_new (hcandidate : read.candidate = some (.ok e)) (hnew : ¬ recorded.holds e = true) :
    one recorded «open» read = Accounting.empty.record recorded read e := by
  unfold one Accounting.add
  rw [hcandidate]
  exact if_neg hnew

/-- A row that was refused is retained. -/
theorem one_of_refused (recorded : RecordedIdentities) («open» : List OpenQuestion) {rejection : Rejection}
    (hcandidate : read.candidate = some (.error rejection)) :
    ∃ reason, one recorded «open» read = Accounting.empty.retain read.row reason := by
  unfold one Accounting.add
  rw [hcandidate]
  dsimp only
  split
  · exact ⟨_, rfl⟩
  · exact ⟨_, rfl⟩

theorem stated_one (h : entry ∈ (one recorded «open» read).reconciliation) : Stated (one recorded «open» read) entry := by
  cases hcandidate : read.candidate with
  | none =>
    cases hsettled : read.settled with
    | none =>
      unfold one Accounting.add at h
      rw [hcandidate, hsettled] at h
      cases h
    | some reason =>
      rw [one_of_settled hcandidate hsettled] at h ⊢
      cases List.mem_singleton.mp h
      refine ⟨fun _ _ he => ?_, fun _ _ he => ?_, fun _ he => ?_, fun _ he => ?_⟩ <;> cases he
      exact List.mem_singleton_self _
  | some candidate =>
    rcases candidate with rejection | e
    · obtain ⟨reason, hone⟩ := one_of_refused recorded «open» hcandidate
      rw [hone] at h ⊢
      cases List.mem_singleton.mp h
      refine ⟨fun _ _ he => ?_, fun _ _ he => ?_, fun _ he => ?_, fun _ he => ?_⟩ <;> cases he
      exact List.mem_singleton_self _
    · by_cases hheld : recorded.holds e = true
      · rw [one_of_held hcandidate hheld] at h ⊢
        cases List.mem_singleton.mp h
        refine ⟨fun _ _ he => ?_, fun _ _ he => ?_, fun _ he => ?_, fun _ he => ?_⟩ <;> cases he
        exact ⟨plannedFact read e, List.mem_singleton_self _, rfl, rfl, rfl⟩
      · rw [one_of_new hcandidate hheld] at h ⊢
        cases List.mem_singleton.mp h
        refine ⟨fun _ _ he => ?_, fun _ _ he => ?_, fun _ he => ?_, fun _ he => ?_⟩ <;> cases he
        exact ⟨plannedFact read e, List.mem_singleton_self _, rfl, rfl, rfl⟩

theorem stated_foldl (h : entry ∈ (rows.foldl (Accounting.add recorded «open») .empty).reconciliation) :
    Stated (rows.foldl (Accounting.add recorded «open») .empty) entry := by
  obtain ⟨read, hread, hentry⟩ := mem_reconciliation.mp h
  obtain ⟨hrecorded, hduplicate, hretained, hsettled⟩ := stated_one hentry
  refine ⟨fun recordsAs settledBy he => ?_, fun recordsAs settledBy he => ?_, fun reason he => ?_, fun reason he => ?_⟩
  · obtain ⟨fact, hfact, hsays⟩ := hrecorded recordsAs settledBy he
    exact ⟨fact, mem_facts.mpr ⟨read, hread, hfact⟩, hsays⟩
  · obtain ⟨fact, hfact, hsays⟩ := hduplicate recordsAs settledBy he
    exact ⟨fact, mem_duplicates.mpr ⟨read, hread, hfact⟩, hsays⟩
  · exact mem_retained.mpr ⟨read, hread, hretained reason he⟩
  · exact mem_settled.mpr ⟨read, hread, hsettled reason he⟩

/-- A row that is settled is so by its own reason. -/
theorem settled_of_mem {row : SettledRow} (h : row ∈ (one recorded «open» read).settledWithoutFact) :
    row.row = read.row ∧ read.candidate = none ∧ read.settled = some row.reason := by
  cases hcandidate : read.candidate with
  | none =>
    cases hsettled : read.settled with
    | none =>
      unfold one Accounting.add at h
      rw [hcandidate, hsettled] at h
      cases h
    | some reason =>
      rw [one_of_settled hcandidate hsettled] at h
      cases List.mem_singleton.mp h
      exact ⟨rfl, rfl, rfl⟩
  | some candidate =>
    rcases candidate with rejection | e
    · obtain ⟨reason, hone⟩ := one_of_refused recorded «open» hcandidate
      rw [hone] at h
      cases h
    · by_cases hheld : recorded.holds e = true
      · rw [one_of_held hcandidate hheld] at h
        cases h
      · rw [one_of_new hcandidate hheld] at h
        cases h

/-- A row with a fact is new to the journal or held by it. -/
theorem listed_of_ok (recorded : RecordedIdentities) («open» : List OpenQuestion) (hcandidate : read.candidate = some (.ok e)) :
    plannedFact read e ∈ (one recorded «open» read).facts ++ (one recorded «open» read).duplicates := by
  by_cases hheld : recorded.holds e = true
  · rw [one_of_held hcandidate hheld]
    exact List.mem_singleton_self _
  · rw [one_of_new hcandidate hheld]
    exact List.mem_singleton_self _

end

end

/-! ### The plan -/

section
variable {env : Environment} {fresh : Nat → Operation.Fresh} {owner : OwnerId} {resolver : Resolver}
  {contents : SessionContents} {journal : List Event} {plan : PlannedSession}

/-- What a plan is made of. -/
theorem planSession_ok (h : planSession env fresh owner resolver contents journal = .ok plan) :
    ∃ rows, contents.observations.mapM (readRow env fresh owner contents.session resolver) = .ok rows ∧
      plan.rows = rows.map (settleMirrored (mirroredRows env contents.session.id rows contents.questions)) ∧
      plan.delta.accounting = plan.rows.foldl (Accounting.add (.of journal) plan.openQuestions) .empty := by
  obtain ⟨reading, hreading, h⟩ := bind_ok.mp h
  obtain ⟨rows, hrows, hreading⟩ := bind_ok.mp hreading
  cases hreading
  obtain ⟨dispositions, -, h⟩ := bind_ok.mp h
  dsimp only at h
  split at h
  · cases h
  · obtain ⟨factTotals, -, h⟩ := bind_ok.mp h
    obtain ⟨duplicateTotals, -, h⟩ := bind_ok.mp h
    obtain ⟨comparisons, -, h⟩ := bind_ok.mp h
    cases h
    exact ⟨rows, hrows, rfl, rfl⟩

/-- The rows of a session are read one by one, in their order. -/
theorem rows_of_mapM {session : SessionView} {observations : List ImportObservationView} {rows : List ReadRow}
    (h : observations.mapM (readRow env fresh owner session resolver) = .ok rows) :
    rows.map ReadRow.row = observations.map ImportObservationView.row := by
  have hrows : List.Forall₂ (fun observation read => observation.row = read.row) observations rows :=
    (Runs.mapM_ok.mp h).imp fun _ _ hread => (readRow_cases hread).1.symm
  rw [← List.forall₂_map_right_iff, ← List.forall₂_map_left_iff (R := Eq), List.forall₂_eq_eq_eq] at hrows
  exact hrows.symm

/-- Every row of a session is in one list of the plan and has one outcome, which names the list. A row that is settled as
    the second leg of a movement names another row: that one is recorded or was recorded before, and its transfer is the
    movement that the first one prints from the other side. -/
theorem planSession_accounts (hrows : (contents.observations.map ImportObservationView.row).Nodup)
    (h : planSession env fresh owner resolver contents journal = .ok plan) :
    plan.delta.accounting.listed.Perm (contents.observations.map ImportObservationView.row) ∧
      plan.delta.accounting.reconciliation.map RowReconciliation.row =
        contents.observations.map ImportObservationView.row ∧
      (∀ entry ∈ plan.delta.accounting.reconciliation, Stated plan.delta.accounting entry) ∧
      ∀ row records, ⟨row, .secondLegOfOneMovement records⟩ ∈ plan.delta.accounting.settledWithoutFact →
        records ≠ row ∧
        records ∈ (plan.delta.accounting.facts ++ plan.delta.accounting.duplicates).map PlannedFact.row ∧
        records ∉ plan.delta.accounting.settledWithoutFact.map SettledRow.row ∧
        ∃ observation ∈ contents.observations, ∃ read,
          readRow env fresh owner contents.session resolver observation = .ok read ∧ read.row = row ∧
            ∃ kept ∈ plan.rows, kept.row = records ∧ ∃ side e, SecondLegOf read kept side e := by
  obtain ⟨rows, hread, hplan, haccounting⟩ := planSession_ok h
  have hnumbers := rows_of_mapM hread
  have hnodup : (rows.map ReadRow.row).Nodup := hnumbers ▸ hrows
  have hcases : ∀ read ∈ rows, ∃ observation ∈ contents.observations,
      readRow env fresh owner contents.session resolver observation = .ok read := fun read hmem =>
    Runs.exists_left (Runs.mapM_ok.mp hread) hmem
  have hdecided : ∀ read ∈ plan.rows, Decided read := by
    rw [hplan]
    intro read hmem
    obtain ⟨before, hbefore, rfl⟩ := List.mem_map.mp hmem
    obtain ⟨observation, -, hof⟩ := hcases before hbefore
    exact decided_settleMirrored (decided_of_readRow hof)
  have hnames : plan.rows.map ReadRow.row = contents.observations.map ImportObservationView.row := by
    rw [hplan, List.map_map, ← hnumbers]
    exact List.map_congr_left fun read _ => row_settleMirrored _ read
  rw [haccounting, ← hnames]
  refine ⟨listed_foldl hdecided _, reconciliation_foldl hdecided, fun entry hentry => stated_foldl hentry,
    fun row records hmem => ?_⟩
  obtain ⟨after, hafter, hone⟩ := mem_settled.mp hmem
  obtain ⟨hrow, -, hsettled⟩ := settled_of_mem hone
  rw [hplan] at hafter
  obtain ⟨before, hbefore, rfl⟩ := List.mem_map.mp hafter
  obtain ⟨observation, -, hof⟩ := hcases before hbefore
  rw [row_settleMirrored] at hrow
  have hby := settled_of_settleMirrored hof hsettled
  rw [← hrow] at hby
  obtain ⟨hne, read, hread, kept, hkept, side, e, hreadRow, hkeptRow, hsecond⟩ :=
    exists_secondLeg hnodup (fun read hmem e hcandidate => by
      obtain ⟨observation, -, hof⟩ := hcases read hmem
      exact twoLegs_of_readRow hof hcandidate) hby
  have hstays : kept ∈ plan.rows := by
    have hsame : settleMirrored (mirroredRows env contents.session.id rows contents.questions) kept = kept :=
      settleMirrored_of_none (hkeptRow ▸ settled_records hnodup hby)
    rw [hplan]
    exact List.mem_map.mpr ⟨kept, hkept, hsame⟩
  obtain ⟨observation, hobservation, hof⟩ := hcases read hread
  refine ⟨hne, ?_, ?_, observation, hobservation, read, hof, hreadRow, kept, hstays, hkeptRow, side, e, hsecond⟩
  · refine List.mem_map.mpr ⟨plannedFact kept e, ?_, hkeptRow⟩
    rcases List.mem_append.mp (listed_of_ok (.of journal) plan.openQuestions hsecond.candidate) with
      hfact | hduplicate
    · exact List.mem_append_left _ (mem_facts.mpr ⟨kept, hstays, hfact⟩)
    · exact List.mem_append_right _ (mem_duplicates.mpr ⟨kept, hstays, hduplicate⟩)
  · intro hin
    obtain ⟨settled, hmem, hsettledRow⟩ := List.mem_map.mp hin
    obtain ⟨other, hother, hone⟩ := mem_settled.mp hmem
    obtain ⟨hotherRow, hnone, -⟩ := settled_of_mem hone
    have hsame : other = kept := List.inj_on_of_nodup_map (hnames ▸ hrows) hother hstays
      (hotherRow.symm.trans (hsettledRow.trans hkeptRow.symm))
    rw [hsame, hsecond.candidate] at hnone
    cases hnone

end

/-! A transfer that was sent in as concluded, and the row of the other account, which names nobody. -/

def plainWords : Words := ⟨String.toLower, id, fun _ => none⟩

def sampleDates (day : Int) : OperationDates := ⟨none, none, some ⟨day⟩, none⟩

def sentRow : SubmittedOperation where
  account := ⟨1⟩
  kind := .transfer ⟨2⟩ (.new 500) .rub
  dates := sampleDates 10
  sourceTime := none
  idempotencyKey := some "sent"
  sourceOperationId := none
  sourcePositionId := none
  sourceCategory := none
  ownerCategory := none
  sourceCode := none
  sourceKind := none
  description := none
  counterparty := none

def arrivedRow : ObservedRow where
  account := ⟨2⟩
  direction := .in
  amountMinor := .new 500
  currency := .rub
  counterparty := .unknown
  farSide := .unstated
  sourceKind := none
  sourceCategory := none
  ownerCategory := none
  sourceCode := none
  description := none
  dates := sampleDates 10
  sourceTime := none
  identity := ⟨none, none, none⟩

def pairEnvironment : Environment where
  words := plainWords
  parseIntake payload := if payload = "sent" then .ok (.concluded sentRow) else .ok (.observed arrivedRow none)
  parseAnswer _ := .error "no answer"
  declaredSource _ account _ := ⟨account.uuid⟩
  declaredImport _ account _ _ := ⟨account.uuid⟩
  pairIdentity _ outgoing _ := outgoing

def pairFresh (row : Nat) : Operation.Fresh := ⟨⟨row⟩, ⟨row⟩, fun _ => "hash"⟩

def pairSession : SessionContents where
  session := ⟨⟨1⟩, .open, none, none⟩
  observations := [⟨1, "sent", none, none⟩, ⟨2, "arrived", none, none⟩]
  questions := [⟨"q", 2, "What was it?", none, none⟩]
  controlFigures := []

/-- The row that arrived is settled by the row that was sent, and the question about it is not asked. -/
theorem arrived_is_sent : ∃ plan, planSession pairEnvironment pairFresh ⟨1⟩ ⟨[], [], []⟩ pairSession [] = .ok plan ∧
    ⟨2, .secondLegOfOneMovement 1⟩ ∈ plan.delta.accounting.settledWithoutFact ∧ plan.openQuestions = [] ∧
      1 ∈ (plan.delta.accounting.facts ++ plan.delta.accounting.duplicates).map PlannedFact.row := by
  obtain ⟨plan, hplan⟩ := exists_ok
    (show (planSession pairEnvironment pairFresh ⟨1⟩ ⟨[], [], []⟩ pairSession []).isOk = true by decide)
  have hsettled : plan.delta.accounting.settledWithoutFact = [⟨2, .secondLegOfOneMovement 1⟩] :=
    read_of_ok hplan (fun plan => plan.delta.accounting.settledWithoutFact) (by decide)
  have hquestions : plan.openQuestions = [] := read_of_ok hplan PlannedSession.openQuestions (by decide)
  have hmem : ⟨2, .secondLegOfOneMovement 1⟩ ∈ plan.delta.accounting.settledWithoutFact :=
    hsettled ▸ List.mem_singleton_self _
  exact ⟨plan, hplan, hmem, hquestions, ((planSession_accounts (by decide) hplan).2.2.2 2 1 hmem).2.1⟩

end SessionPlan
end Iaam
