import Iaam.App.MirroredMovements
import Iaam.Theorems.SessionPlan

/-! The action queue pairs the rows of a session without the directory and the rules. It offers what the session pairs exactly
where the two readings put the rows at the same places. -/

namespace Iaam
open Outcome

namespace SessionReading

section
variable {env : Environment} {session : ImportSessionId} {rows : List ReadRow} {questions : List ImportQuestionView}
  {observations : List ImportObservationView} {row records : Nat}

/-! ### What the session pairs -/

theorem row_of_settles {«open» : List Nat} {outgoing incoming : Nat} (h : Settles «open» outgoing incoming row records) :
    row = outgoing ∨ row = incoming := by
  rcases h with ⟨-, hrow, -⟩ | ⟨-, -, hrow, -⟩
  · exact .inr hrow
  · exact .inl hrow

/-- Two pairs that are told of one row are one pair. -/
theorem eq_of_pairs {sides : List MirrorSide} (hsides : (sides.map MirrorSide.row).Nodup) {m m' : Mirror}
    (hm : m ∈ (Mirror.mirrored sides).pairs) (hm' : m' ∈ (Mirror.mirrored sides).pairs)
    (h : row = m.outgoing ∨ row = m.incoming) (h' : row = m'.outgoing ∨ row = m'.incoming) : m = m' := by
  obtain ⟨⟨o, i⟩, hpair, rfl⟩ := List.mem_map.mp hm
  obtain ⟨⟨o', i'⟩, hpair', rfl⟩ := List.mem_map.mp hm'
  rw [Mirror.eq_of_common_row hsides hpair hpair' h h']

/-- A property of the rows of a pair. -/
theorem exists_pair_iff {sides : List MirrorSide} (hsides : (sides.map MirrorSide.row).Nodup) (P : Nat → Nat → Prop) :
    (∃ m ∈ (Mirror.mirrored sides).pairs, P m.outgoing m.incoming) ↔
      ∃ o i, Mirror.Aligned sides o i ∧ P o.row i.row := by
  constructor
  · rintro ⟨m, hm, hP⟩
    obtain ⟨⟨o, i⟩, hpair, rfl⟩ := List.mem_map.mp hm
    exact ⟨o, i, (Mirror.mem_matched_iff hsides).mp hpair, hP⟩
  · rintro ⟨o, i, haligned, hP⟩
    exact ⟨_, List.mem_map.mpr ⟨(o, i), (Mirror.mem_matched_iff hsides).mpr haligned, rfl⟩, hP⟩

/-- A row is settled by the other row of its pair. -/
theorem settled_iff (hrows : (rows.map ReadRow.row).Nodup) :
    (mirroredRows env session rows questions).settled[row]? = some records ↔
      ∃ o i, Mirror.Aligned (sidesOf rows questions) o i ∧ Settles (openRows rows questions) o.row i.row row records := by
  have hsides : ((sidesOf rows questions).map MirrorSide.row).Nodup := nodup_sidesOf hrows
  refine (Runs.foldl_or_iff (fun paired : MirroredRows => paired.settled[row]?) (get_addPair _ row)
    Std.ExtTreeMap.getElem?_empty fun m hm m' hm' u w hu hw => ?_).trans ?_
  · have hsame := eq_of_pairs hsides hm hm' (row_of_settles (settledBy_iff.mp hu)) (row_of_settles (settledBy_iff.mp hw))
    rw [hsame, hw] at hu
    exact (Option.some.inj hu).symm
  · exact (exists_congr fun m => and_congr_right fun _ => settledBy_iff).trans (exists_pair_iff hsides fun outgoing incoming =>
      Settles (openRows rows questions) outgoing incoming row records)

theorem mem_open_foldl {«open» : List Nat} {pairs : List Mirror} {paired : MirroredRows} {outgoing incoming id : Nat} :
    (outgoing, incoming, id) ∈ (pairs.foldl (addPair env session «open») paired).open ↔
      (outgoing, incoming, id) ∈ paired.open ∨ ∃ m ∈ pairs, m.outgoing = outgoing ∧ m.incoming = incoming ∧
        outgoing ∈ «open» ∧ incoming ∈ «open» ∧ id = env.pairIdentity session outgoing incoming := by
  induction pairs generalizing paired with
  | nil => simp
  | cons m pairs ih =>
    rw [List.foldl_cons, ih, List.exists_mem_cons_iff, ← or_assoc]
    refine or_congr_left ?_
    unfold addPair
    split
    · next hout =>
      refine (or_iff_left ?_).symm
      rintro ⟨rfl, -, hin, -⟩
      exact hout hin
    · split
      · next hin =>
        refine (or_iff_left ?_).symm
        rintro ⟨-, rfl, -, hopen, -⟩
        exact hin hopen
      · next hout hin =>
        rw [List.mem_append, List.mem_singleton, Prod.mk.injEq, Prod.mk.injEq]
        refine or_congr_right ⟨?_, ?_⟩
        · rintro ⟨rfl, rfl, rfl⟩
          exact ⟨rfl, rfl, not_not.mp hout, not_not.mp hin, rfl⟩
        · rintro ⟨rfl, rfl, -, -, rfl⟩
          exact ⟨rfl, rfl, rfl⟩

/-- An open pair has neither row settled. -/
theorem mem_open_iff (hrows : (rows.map ReadRow.row).Nodup) {outgoing incoming id : Nat} :
    (outgoing, incoming, id) ∈ (mirroredRows env session rows questions).open ↔
      id = env.pairIdentity session outgoing incoming ∧ outgoing ∈ openRows rows questions ∧
        incoming ∈ openRows rows questions ∧
          ∃ o i, Mirror.Aligned (sidesOf rows questions) o i ∧ o.row = outgoing ∧ i.row = incoming := by
  rw [mirroredRows, mem_open_foldl, or_iff_right List.not_mem_nil,
    ← exists_pair_iff (nodup_sidesOf hrows) fun out into => out = outgoing ∧ into = incoming]
  constructor
  · rintro ⟨m, hm, hout, hin, hopenOut, hopenIn, hid⟩
    exact ⟨hid, hopenOut, hopenIn, m, hm, hout, hin⟩
  · rintro ⟨hid, hopenOut, hopenIn, m, hm, hout, hin⟩
    exact ⟨m, hm, hout, hin, hopenOut, hopenIn, hid⟩

/-! ### What the queue publishes -/

theorem answeredSide_ok {observed : ObservedRow} {question : ImportQuestionView} {side : MirrorSide}
    (h : answeredSide env row observed question = some side) :
    side.row = row ∧ observed.dates.effectiveDate = some side.date := by
  obtain ⟨stored, -, h⟩ := Option.bind_eq_some_iff.mp h
  obtain ⟨answer, -, h⟩ := Option.bind_eq_some_iff.mp h
  obtain ⟨ends, -, h⟩ := Option.bind_eq_some_iff.mp h
  obtain ⟨m, -, h⟩ := Option.bind_eq_some_iff.mp h
  obtain ⟨date, hdate, h⟩ := Option.bind_eq_some_iff.mp h
  cases h
  exact ⟨rfl, hdate⟩

theorem questionedSide_ok {asked : Tree.Map Nat ImportQuestionView} {entry : Nat × ObservedRow} {side : MirrorSide}
    (h : questionedSide env asked entry = some side) :
    side.row = entry.1 ∧ entry.2.dates.effectiveDate = some side.date := by
  unfold questionedSide at h
  split at h
  · split at h
    · exact ⟨(unansweredSide_ok h).1, (unansweredSide_ok h).2.2.1⟩
    · exact answeredSide_ok h
  · exact ⟨(unansweredSide_ok h).1, (unansweredSide_ok h).2.2.1⟩

theorem nodup_questionedSides : ((questionedSides env observations questions).map MirrorSide.row).Nodup :=
  Mirror.nodup_rows (fun _ _ h => (questionedSide_ok h).1) Tree.nodup_keys

/-- Every side is a row with a day, and so a leg. -/
theorem exists_leg {side : MirrorSide} (h : side ∈ questionedSides env observations questions) :
    ∃ leg, (observedRows env observations)[side.row]?.bind (movementLeg side.row) = some leg ∧ leg.row = side.row := by
  obtain ⟨⟨row, observed⟩, hentry, hside⟩ := List.mem_filterMap.mp h
  obtain ⟨rfl, hdate⟩ := questionedSide_ok hside
  rw [Std.ExtTreeMap.mem_toList_iff_getElem?_eq_some] at hentry
  refine ⟨⟨side.row, observed.account, side.date, observed.amountMinor, observed.currency⟩, ?_, rfl⟩
  rw [hentry, Option.bind_some, movementLeg, hdate]
  rfl

/-- What the queue says of a row for one pair. -/
def Published (env : Environment) (observations : List ImportObservationView) (questions : List ImportQuestionView)
    (session : ImportSessionId) (row outgoing incoming : Nat) : OneMovement → Prop
  | .waiting movement => (row = outgoing ∨ row = incoming) ∧ outgoing ∈ askedRows env observations questions ∧
      incoming ∈ askedRows env observations questions ∧ movement.departure.row = outgoing ∧
        movement.arrival.row = incoming ∧ movement.id = env.pairIdentity session outgoing incoming
  | .recorded records =>
      outgoing ∈ askedRows env observations questions ∧ incoming ∉ askedRows env observations questions ∧
          incoming ∈ askedOf questions ∧ row = outgoing ∧ records = incoming ∨
        outgoing ∉ askedRows env observations questions ∧ incoming ∈ askedRows env observations questions ∧
          outgoing ∈ askedOf questions ∧ row = incoming ∧ records = outgoing
  | .noCounterpart _ => False

theorem get_insert_or (movements : Tree.Map Nat OneMovement) (k : Nat) (v : OneMovement) :
    (movements.insert k v)[row]? = ((∅ : Tree.Map Nat OneMovement).insert k v)[row]?.or movements[row]? := by
  rw [Tree.get_insert, Tree.get_insert]
  split
  · rfl
  · rw [Std.ExtTreeMap.getElem?_empty]
    rfl

theorem get_empty_or (movements : Tree.Map Nat OneMovement) :
    movements[row]? = (∅ : Tree.Map Nat OneMovement)[row]?.or movements[row]? := by
  rw [Std.ExtTreeMap.getElem?_empty]
  rfl

theorem get_publishPair (movements : Tree.Map Nat OneMovement) (mirror : Mirror) :
    (publishPair env observations questions session movements mirror)[row]? =
      (publishPair env observations questions session ∅ mirror)[row]?.or movements[row]? := by
  unfold publishPair
  dsimp only
  split
  · split
    · split
      · rw [get_insert_or, get_insert_or movements, get_insert_or ((∅ : Tree.Map Nat OneMovement).insert _ _),
          Option.or_assoc]
      · exact get_empty_or movements
    · split
      · exact get_insert_or movements _ _
      · exact get_empty_or movements
  · split
    · split
      · exact get_insert_or movements _ _
      · exact get_empty_or movements
    · exact get_empty_or movements

theorem movementLeg_row {observed : ObservedRow} {leg : MovementLeg} (h : movementLeg row observed = some leg) :
    leg.row = row := by
  obtain ⟨date, -, h⟩ := Option.bind_eq_some_iff.mp h
  cases h
  rfl

/-- What a pair publishes of a row. -/
theorem published_of {mirror : Mirror} {v : OneMovement}
    (h : (publishPair env observations questions session ∅ mirror)[row]? = some v) :
    Published env observations questions session row mirror.outgoing mirror.incoming v := by
  unfold publishPair at h
  dsimp only at h
  split at h
  · next hout =>
    split at h
    · next hin =>
      split at h
      · next departure arrival hdeparture harrival =>
        obtain ⟨observedOut, -, hlegOut⟩ := Option.bind_eq_some_iff.mp hdeparture
        obtain ⟨observedIn, -, hlegIn⟩ := Option.bind_eq_some_iff.mp harrival
        rw [Tree.get_insert, Tree.get_insert, Std.ExtTreeMap.getElem?_empty] at h
        split at h
        · next hrow =>
          cases h
          exact ⟨.inr hrow.symm, hout, hin, movementLeg_row hlegOut, movementLeg_row hlegIn, rfl⟩
        · split at h
          · next hrow =>
            cases h
            exact ⟨.inl hrow.symm, hout, hin, movementLeg_row hlegOut, movementLeg_row hlegIn, rfl⟩
          · cases h
      · rw [Std.ExtTreeMap.getElem?_empty] at h
        cases h
    · next hin =>
      split at h
      · next hasked =>
        rw [Tree.get_insert, Std.ExtTreeMap.getElem?_empty] at h
        split at h
        · next hrow =>
          cases h
          exact .inl ⟨hout, hin, hasked, hrow.symm, rfl⟩
        · cases h
      · rw [Std.ExtTreeMap.getElem?_empty] at h
        cases h
  · next hout =>
    split at h
    · next hin =>
      split at h
      · next hasked =>
        rw [Tree.get_insert, Std.ExtTreeMap.getElem?_empty] at h
        split at h
        · next hrow =>
          cases h
          exact .inr ⟨hout, hin, hasked, hrow.symm, rfl⟩
        · cases h
      · rw [Std.ExtTreeMap.getElem?_empty] at h
        cases h
    · rw [Std.ExtTreeMap.getElem?_empty] at h
      cases h

/-- A pair whose rows are both asked about is published on its departure. -/
theorem publishPair_waiting {mirror : Mirror} {departure arrival : MovementLeg}
    (hout : mirror.outgoing ∈ askedRows env observations questions)
    (hin : mirror.incoming ∈ askedRows env observations questions)
    (hdeparture : (observedRows env observations)[mirror.outgoing]?.bind (movementLeg mirror.outgoing) = some departure)
    (harrival : (observedRows env observations)[mirror.incoming]?.bind (movementLeg mirror.incoming) = some arrival) :
    (publishPair env observations questions session ∅ mirror)[mirror.outgoing]? =
      some (.waiting ⟨env.pairIdentity session mirror.outgoing mirror.incoming, departure, arrival⟩) := by
  unfold publishPair
  dsimp only
  rw [if_pos hout, if_pos hin, hdeparture, harrival]
  dsimp only
  rw [Tree.get_insert]
  split
  · rfl
  · exact Tree.get_insert_self

theorem publishPair_recorded {mirror : Mirror}
    (h : Published env observations questions session row mirror.outgoing mirror.incoming (.recorded records)) :
    (publishPair env observations questions session ∅ mirror)[row]? = some (.recorded records) := by
  unfold publishPair
  dsimp only
  rcases h with ⟨hout, hin, hasked, rfl, rfl⟩ | ⟨hout, hin, hasked, rfl, rfl⟩
  · rw [if_pos hout, if_neg hin, if_pos hasked]
    exact Tree.get_insert_self
  · rw [if_neg hout, if_pos hin, if_pos hasked]
    exact Tree.get_insert_self

theorem row_of_published {outgoing incoming : Nat} {v : OneMovement}
    (h : Published env observations questions session row outgoing incoming v) : row = outgoing ∨ row = incoming := by
  cases v with
  | waiting movement => exact h.1
  | recorded records =>
    rcases h with ⟨-, -, -, hrow, -⟩ | ⟨-, -, -, hrow, -⟩
    · exact .inl hrow
    · exact .inr hrow
  | noCounterpart reason => exact h.elim

/-- What the pairs publish, before the rows without a counterpart. -/
theorem get_pairs_iff {v : OneMovement} :
    ((Mirror.mirrored (questionedSides env observations questions)).pairs.foldl
        (publishPair env observations questions session) ∅)[row]? = some v ↔
      ∃ m ∈ (Mirror.mirrored (questionedSides env observations questions)).pairs,
        (publishPair env observations questions session ∅ m)[row]? = some v := by
  refine Runs.foldl_or_iff (fun movements : Tree.Map Nat OneMovement => movements[row]?) (fun _ _ => get_publishPair _ _)
    Std.ExtTreeMap.getElem?_empty fun m hm m' hm' u w hu hw => ?_
  have hsame := eq_of_pairs nodup_questionedSides hm hm' (row_of_published (published_of hu))
    (row_of_published (published_of hw))
  rw [hsame, hw] at hu
  exact (Option.some.inj hu).symm

theorem get_publishUnpaired (namesAccount : ImportQuestionView → Bool) (movements : Tree.Map Nat OneMovement)
    (unpaired : UnpairedSide) :
    (publishUnpaired env observations questions namesAccount movements unpaired)[row]? =
      (publishUnpaired env observations questions namesAccount ∅ unpaired)[row]?.or movements[row]? := by
  unfold publishUnpaired
  split
  · exact get_insert_or movements _ _
  · exact get_empty_or movements

theorem unpaired_of {namesAccount : ImportQuestionView → Bool} {unpaired : UnpairedSide} {v : OneMovement}
    (h : (publishUnpaired env observations questions namesAccount ∅ unpaired)[row]? = some v) :
    row = unpaired.row ∧ ∃ reason, v = .noCounterpart reason := by
  unfold publishUnpaired at h
  split at h
  · rw [Tree.get_insert, Std.ExtTreeMap.getElem?_empty] at h
    split at h
    · next hrow =>
      cases h
      exact ⟨hrow.symm, _, rfl⟩
    · cases h
  · rw [Std.ExtTreeMap.getElem?_empty] at h
    cases h

/-- A side without a pair is in no pair. -/
theorem unpaired_row {sides : List MirrorSide} {unpaired : UnpairedSide} {m : Mirror}
    (h : unpaired ∈ (Mirror.mirrored sides).unpaired) (hm : m ∈ (Mirror.mirrored sides).pairs) :
    ¬ (unpaired.row = m.outgoing ∨ unpaired.row = m.incoming) := by
  obtain ⟨side, hside, rfl⟩ := List.mem_map.mp ((List.mem_insertionSort _).mp h)
  obtain ⟨pair, hpair, rfl⟩ := List.mem_map.mp hm
  have hfree := (List.mem_filter.mp hside).2
  rw [Bool.and_eq_true, decide_eq_true_eq, decide_eq_true_eq] at hfree
  rintro (hrow | hrow)
  · exact hfree.1 (List.mem_map.mpr ⟨pair, hpair, hrow.symm⟩)
  · exact hfree.2 (List.mem_map.mpr ⟨pair, hpair, hrow.symm⟩)

/-- What the queue says of a row that is half of a movement, it says for a pair. -/
theorem get_mirroredMovementsOf_iff {namesAccount : ImportQuestionView → Bool} {v : OneMovement}
    (hv : ∀ reason, v ≠ .noCounterpart reason) :
    (mirroredMovementsOf env observations questions namesAccount session)[row]? = some v ↔
      ∃ m ∈ (Mirror.mirrored (questionedSides env observations questions)).pairs,
        (publishPair env observations questions session ∅ m)[row]? = some v := by
  rw [← get_pairs_iff]
  constructor
  · intro h
    refine (Runs.exists_of_foldl_or (fun movements : Tree.Map Nat OneMovement => movements[row]?)
      (fun movements unpaired => get_publishUnpaired namesAccount movements unpaired) h).resolve_right ?_
    rintro ⟨unpaired, -, hunpaired⟩
    obtain ⟨-, reason, he⟩ := unpaired_of hunpaired
    exact hv reason he
  · intro h
    refine Runs.foldl_or_of_same (fun movements : Tree.Map Nat OneMovement => movements[row]?)
      (fun movements unpaired => get_publishUnpaired namesAccount movements unpaired) (fun unpaired hunpaired w hw => ?_) (.inl h)
    obtain ⟨m, hm, hpublished⟩ := get_pairs_iff.mp h
    obtain ⟨hrow, -⟩ := unpaired_of hw
    exact absurd (hrow ▸ row_of_published (published_of hpublished)) (unpaired_row hunpaired hm)

end

/-! ### The two readings -/

/-- The queue offers what the session pairs: two rows that it shows as one movement are an open pair of the session, and a
    row that it shows as recorded is settled by the same row. -/
def OffersWhatIsPaired (movements : Tree.Map Nat OneMovement) (mirrors : MirroredRows) : Prop :=
  (∀ (row : Nat) (movement : MirroredMovement), movements[row]? = some (.waiting movement) →
    (movement.departure.row, movement.arrival.row, movement.id) ∈ mirrors.open) ∧
  ∀ row records : Nat, movements[row]? = some (.recorded records) → mirrors.settled[row]? = some records

/-- Where two rows that the queue asks about go with each other and stand at one place among the rows as they are printed,
    they do so too among the rows as the session reads them, and it settles neither, or the one by the other. -/
structure ReadAlike (env : Environment) (observations : List ImportObservationView) (questions : List ImportQuestionView)
    (rows : List ReadRow) : Prop where
  waiting : ∀ o i, Mirror.Aligned (questionedSides env observations questions) o i →
    o.row ∈ askedRows env observations questions → i.row ∈ askedRows env observations questions →
      o.row ∈ openRows rows questions ∧ i.row ∈ openRows rows questions ∧
        ∃ o' i', Mirror.Aligned (sidesOf rows questions) o' i' ∧ o'.row = o.row ∧ i'.row = i.row
  recorded : ∀ o i, Mirror.Aligned (questionedSides env observations questions) o i →
    ∀ row records, row = o.row ∧ records = i.row ∨ row = i.row ∧ records = o.row →
      row ∈ askedRows env observations questions → records ∉ askedRows env observations questions →
        records ∈ askedOf questions →
          ∃ o' i', Mirror.Aligned (sidesOf rows questions) o' i' ∧
            Settles (openRows rows questions) o'.row i'.row row records

section
variable {env : Environment} {fresh : Nat → Operation.Fresh} {owner : OwnerId} {resolver : Resolver}
  {contents : SessionContents} {rows : List ReadRow} {namesAccount : ImportQuestionView → Bool}

end

/-! One movement that a document printed on two accounts, with both questions open. -/

def leftRow : ObservedRow :=
  { SessionPlan.arrivedRow with account := ⟨1⟩, direction := .out, sourceCategory := some "Fees" }

def printedEnvironment : Environment :=
  { SessionPlan.pairEnvironment with
    parseIntake := fun payload =>
      if payload = "left" then .ok (.observed leftRow none) else .ok (.observed SessionPlan.arrivedRow none) }

def printedSession : SessionContents where
  session := ⟨⟨1⟩, .open, none, none⟩
  observations := [⟨1, "left", none, none⟩, ⟨2, "arrived", none, none⟩]
  questions := [⟨"q1", 1, "What was it?", none, none⟩, ⟨"q2", 2, "What was it?", none, none⟩]
  controlFigures := []

/-- A rule that came after the question: what the bank files under fees is a fee. -/
def feeRule : ClassificationRule :=
  ⟨⟨1⟩, 1, ⟨none, none, none, some "Fees", none, none, none⟩, .fee .accountMaintenance⟩

def printedMovement : MirroredMovement :=
  ⟨1, ⟨1, ⟨1⟩, ⟨10⟩, .new 500, .rub⟩, ⟨2, ⟨2⟩, ⟨10⟩, .new 500, .rub⟩⟩

def printedMovements : Tree.Map Nat OneMovement :=
  mirroredMovementsOf printedEnvironment printedSession.observations printedSession.questions (fun _ => true) ⟨1⟩

end SessionReading
end Iaam
