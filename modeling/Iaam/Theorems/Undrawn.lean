import Iaam.App.SessionCommit
import Iaam.Theorems.SessionPlan

/-! The identifiers that are drawn for a plan decide nothing of it: two plans of one session and one journal are the same but
for the identifiers of their events. -/

namespace Iaam
open Outcome

/-! ### Events -/

/-- A kind without the identifier that is drawn for a transfer. -/
def EventKind.undrawn : EventKind → EventKind
  | .cashTransfer _ source target amount => .cashTransfer ⟨0⟩ source target amount
  | kind => kind

/-- An event without the identifiers that are drawn for it. -/
def Event.undrawn (e : Event) : Event := { e with id := ⟨0⟩, kind := e.kind.undrawn }

theorem Event.undrawn_undrawn (e : Event) : e.undrawn.undrawn = e.undrawn := by
  obtain ⟨id, owner, account, kind, dates, order, legs, provenance, relation, confidence, key⟩ := e
  cases kind <;> rfl

theorem EventKind.discriminant_undrawn (kind : EventKind) : kind.undrawn.discriminant = kind.discriminant := by
  cases kind <;> rfl

/-- Whether a structure is valid does not depend on what was drawn. -/
theorem Event.validateStructure_undrawn (e : Event) : e.undrawn.validateStructure = e.validateStructure := by
  obtain ⟨id, owner, account, kind, dates, order, legs, provenance, relation, confidence, key⟩ := e
  cases kind <;> rfl

namespace Operation
variable {fresh fresh' : Fresh}

theorem build_undrawn (transferId transferId' : TransferId) (account : AccountId) (kind : OperationKind) :
    (build transferId account kind).map (fun built => (built.1.undrawn, built.2)) =
      (build transferId' account kind).map fun built => (built.1.undrawn, built.2) := by
  cases kind with
  | transfer target amountMinor currency =>
    simp only [build]
    split
    · rfl
    · cases positiveMoney amountMinor "amount" currency with
      | error e => rfl
      | ok amount =>
        simp only [ok_bind]
        cases amount.checkedNegate with
        | error e => rfl
        | ok outgoing => rfl
  | _ => rfl

theorem normalize_undrawn (hhash : fresh.fingerprint = fresh'.fingerprint) (operation : SubmittedOperation)
    (context : NormalizationContext) :
    (normalize fresh operation context).map Event.undrawn = (normalize fresh' operation context).map Event.undrawn := by
  unfold normalize
  dsimp only
  cases operation.dates.toEventDates.effectiveDate with
  | none => rfl
  | some day =>
    refine map_bind_congr (build_undrawn fresh.transfer fresh'.transfer operation.account operation.kind) ?_
    rintro ⟨kind, legs⟩ ⟨kind', legs'⟩ h
    obtain ⟨hkind, rfl⟩ := Prod.mk.inj h
    change Except.ok _ = Except.ok _
    unfold Event.undrawn
    dsimp only at hkind ⊢
    rw [hkind, hhash]

end Operation

/-! ### Rows -/

namespace SessionReading
variable {env : Environment} {owner : OwnerId} {session : SessionView} {resolver : Resolver}

def ReadRow.undrawn (read : ReadRow) : ReadRow :=
  { read with candidate := read.candidate.map (Except.map Event.undrawn) }

theorem candidate_undrawn (candidate : Except Rejection Event) :
    (candidate.map Event.undrawn).map Event.undrawn = candidate.map Event.undrawn := by
  cases candidate with
  | error rejection => rfl
  | ok e => exact congrArg Except.ok e.undrawn_undrawn

theorem ReadRow.undrawn_undrawn (read : ReadRow) : read.undrawn.undrawn = read.undrawn := by
  obtain ⟨row, intake, candidate, settled, basis⟩ := read
  cases candidate with
  | none => rfl
  | some candidate =>
    unfold undrawn
    dsimp only
    rw [Option.map_some, Option.map_some, candidate_undrawn]

theorem settlement_undrawn (read : ReadRow) : read.undrawn.settlement = read.settlement := by
  obtain ⟨row, intake, candidate, settled, basis⟩ := read
  rcases candidate with _ | _ | _ <;> cases settled <;> cases basis <;> rfl

theorem event_undrawn (read : ReadRow) : read.undrawn.event = read.event.map Event.undrawn := by
  obtain ⟨row, intake, candidate, settled, basis⟩ := read
  rcases candidate with _ | _ | _ <;> rfl

theorem attempt_undrawn {x y : Operation.Built Event} (h : x.map Event.undrawn = y.map Event.undrawn) :
    (attempt x).map (Except.map Event.undrawn) = (attempt y).map (Except.map Event.undrawn) := by
  cases x with
  | error fail =>
    cases y with
    | error fail' =>
      cases h
      cases fail <;> rfl
    | ok e' => cases h
  | ok e =>
    cases y with
    | error fail' => cases h
    | ok e' =>
      change Except.ok (Except.ok e.undrawn) = Except.ok (Except.ok e'.undrawn)
      rw [Except.ok.inj h]

theorem candidateOf_undrawn {fresh fresh' : Operation.Fresh} (hhash : fresh.fingerprint = fresh'.fingerprint)
    (reader : String) (basis : FactBasis) (operation : SubmittedOperation) :
    (candidateOf env fresh owner session reader basis operation).map Event.undrawn =
      (candidateOf env fresh' owner session reader basis operation).map Event.undrawn := by
  refine map_bind_congr (Operation.normalize_undrawn hhash operation _) fun e e' h => ?_
  obtain ⟨id, owner, account, kind, dates, order, legs, provenance, relation, confidence, key⟩ := e
  obtain ⟨id', owner', account', kind', dates', order', legs', provenance', relation', confidence', key'⟩ := e'
  unfold Event.undrawn at h
  simp only [Event.mk.injEq, true_and] at h
  obtain ⟨rfl, rfl, hkind, rfl, rfl, rfl, rfl, rfl, rfl, rfl⟩ := h
  change Except.ok _ = Except.ok _
  unfold Event.undrawn
  dsimp only
  rw [hkind]

theorem readRow_undrawn {fresh fresh' : Nat → Operation.Fresh}
    (hhash : ∀ row, (fresh row).fingerprint = (fresh' row).fingerprint) (observation : ImportObservationView) :
    (readRow env fresh owner session resolver observation).map ReadRow.undrawn =
      (readRow env fresh' owner session resolver observation).map ReadRow.undrawn := by
  unfold readRow
  dsimp only
  split
  · rfl
  · rfl
  · refine map_bind_congr (attempt_undrawn (candidateOf_undrawn (hhash _) _ _ _)) fun candidate candidate' h => ?_
    change Except.ok _ = Except.ok _
    unfold ReadRow.undrawn
    dsimp only
    rw [Option.map_some, Option.map_some, h]

/-! ### The rows that are one movement -/

theorem transferSide_undrawn (row : Nat) (account : AccountId) (date : Date) (e : Event) :
    transferSide row account date e.undrawn = transferSide row account date e := by
  obtain ⟨id, owner, filed, kind, dates, order, legs, provenance, relation, confidence, key⟩ := e
  cases kind <;> rfl

theorem mirrorSide_undrawn (read : ReadRow) (questioned : Bool) : mirrorSide read.undrawn questioned = mirrorSide read questioned := by
  unfold mirrorSide
  rw [event_undrawn]
  change (read.account.bind fun account => read.statedDay.bind fun date => _) =
    read.account.bind fun account => read.statedDay.bind fun date => _
  congr 1
  funext account
  congr 1
  funext date
  cases read.event with
  | none => rfl
  | some e => exact transferSide_undrawn read.row account date e

variable {rows : List ReadRow} {questions : List ImportQuestionView}

theorem openRows_undrawn : openRows (rows.map ReadRow.undrawn) questions = openRows rows questions := by
  unfold openRows
  congr 1
  funext row
  rw [List.any_map]
  congr 1
  funext read
  change (read.row = row && read.undrawn.settlement.isNone) = _
  rw [settlement_undrawn]

theorem sidesOf_undrawn : sidesOf (rows.map ReadRow.undrawn) questions = sidesOf rows questions := by
  unfold sidesOf
  rw [openRows_undrawn, List.filterMap_map]
  congr 1
  funext read
  exact mirrorSide_undrawn read _

theorem mirroredRows_undrawn : mirroredRows env session.id (rows.map ReadRow.undrawn) questions =
    mirroredRows env session.id rows questions := by
  unfold mirroredRows
  rw [openRows_undrawn, sidesOf_undrawn]

theorem settleMirrored_undrawn (mirrors : MirroredRows) (read : ReadRow) :
    (settleMirrored mirrors read).undrawn = settleMirrored mirrors read.undrawn := by
  have hrow : read.undrawn.row = read.row := rfl
  unfold settleMirrored
  rw [hrow]
  cases mirrors.settled[read.row]? with
  | none => rfl
  | some records => rfl

def Reading.undrawn (reading : Reading) : Reading := { reading with rows := reading.rows.map ReadRow.undrawn }

theorem read_undrawn {fresh fresh' : Nat → Operation.Fresh}
    (hhash : ∀ row, (fresh row).fingerprint = (fresh' row).fingerprint) (contents : SessionContents) :
    (read env fresh owner resolver contents).map Reading.undrawn =
      (read env fresh' owner resolver contents).map Reading.undrawn := by
  refine map_bind_congr (map_mapM_congr _ (readRow_undrawn hhash)) fun rows rows' h => ?_
  have hmirrors : mirroredRows env contents.session.id rows contents.questions =
      mirroredRows env contents.session.id rows' contents.questions := by
    rw [← mirroredRows_undrawn, h, mirroredRows_undrawn]
  change Except.ok _ = Except.ok _
  unfold Reading.undrawn
  dsimp only
  rw [hmirrors, List.map_map, List.map_map]
  have hcomm : ∀ mirrors, ReadRow.undrawn ∘ settleMirrored mirrors = settleMirrored mirrors ∘ ReadRow.undrawn :=
    fun mirrors => funext fun read => settleMirrored_undrawn mirrors read
  rw [hcomm, ← List.map_map, ← List.map_map, h]

end SessionReading

/-! ### The plan -/

namespace SessionPlan
open SessionReading
variable {rows rows' : List ReadRow} {recorded : RecordedIdentities} {«open» : List OpenQuestion}

theorem holds_undrawn (e : Event) : recorded.holds e.undrawn = recorded.holds e := rfl

theorem plannedFact_undrawn (read : ReadRow) (e : Event) : plannedFact read.undrawn e.undrawn = plannedFact read e := by
  unfold plannedFact
  dsimp only
  rw [show e.undrawn.kind.discriminant = e.kind.discriminant from e.kind.discriminant_undrawn]
  rfl

namespace Accounting

/-- The lists of a plan, with the events of its facts as they are without what was drawn. -/
def undrawn (a : Accounting) : Accounting := { a with appended := a.appended.map Event.undrawn }

theorem add_undrawn (a : Accounting) (read : ReadRow) :
    a.undrawn.add recorded «open» read.undrawn = (a.add recorded «open» read).undrawn := by
  obtain ⟨row, intake, candidate, settled, basis⟩ := read
  rcases candidate with _ | rejection | e
  · cases settled <;> rfl
  · have hread : ReadRow.undrawn ⟨row, intake, some (.error rejection), settled, basis⟩ =
        ⟨row, intake, some (.error rejection), settled, basis⟩ := rfl
    rw [hread]
    unfold add
    dsimp only
    cases «open».find? fun question => question.row = row <;> rfl
  · unfold add
    change (if recorded.holds e.undrawn then _ else _ : Accounting) = _
    dsimp only
    rw [holds_undrawn]
    split
    · unfold duplicate
      dsimp only
      rw [show plannedFact _ e.undrawn = _ from plannedFact_undrawn ⟨row, intake, some (.ok e), settled, basis⟩ e,
        show e.undrawn.kind.discriminant = e.kind.discriminant from e.kind.discriminant_undrawn]
      rfl
    · unfold record
      dsimp only
      rw [show plannedFact _ e.undrawn = _ from plannedFact_undrawn ⟨row, intake, some (.ok e), settled, basis⟩ e,
        show e.undrawn.kind.discriminant = e.kind.discriminant from e.kind.discriminant_undrawn]
      unfold undrawn
      rw [List.map_append]
      rfl

theorem foldl_undrawn (a : Accounting) : (rows.map ReadRow.undrawn).foldl (add recorded «open») a.undrawn =
    (rows.foldl (add recorded «open») a).undrawn := by
  induction rows generalizing a with
  | nil => rfl
  | cons read rows ih =>
    rw [List.map_cons, List.foldl_cons, List.foldl_cons, add_undrawn]
    exact ih _

end Accounting

theorem dispositionOf_undrawn (read : ReadRow) : dispositionOf read.undrawn = dispositionOf read := by
  obtain ⟨row, intake, candidate, settled, basis⟩ := read
  cases settled <;> cases candidate <;> rfl

theorem dispositions_undrawn : (rows.map ReadRow.undrawn).mapM dispositionOf = rows.mapM dispositionOf := by
  induction rows with
  | nil => rfl
  | cons read rows ih => rw [List.map_cons, List.mapM_cons, List.mapM_cons, dispositionOf_undrawn, ih]

theorem candidatesOf_undrawn :
    candidatesOf (rows.map ReadRow.undrawn) = (candidatesOf rows).map (Except.map Event.undrawn) := by
  unfold candidatesOf
  induction rows with
  | nil => rfl
  | cons read rows ih =>
    obtain ⟨row, intake, candidate, settled, basis⟩ := read
    cases settled with
    | some reason => exact ih
    | none =>
      cases candidate with
      | none => exact ih
      | some candidate => exact congrArg (candidate.map Event.undrawn :: ·) ih

theorem openQuestions_undrawn (reading : Reading) (questions : List ImportQuestionView) :
    openQuestions reading.undrawn questions = openQuestions reading questions := by
  unfold openQuestions
  congr 2
  funext question
  unfold awaitsAnswer
  change (question.isOpen && !(reading.rows.map ReadRow.undrawn).any _) = _
  rw [List.any_map]
  congr 3
  funext read
  change (read.row = question.row && read.undrawn.settlement.isSome) = _
  rw [settlement_undrawn]

theorem legOfEvent_undrawn (e : Event) (origin : LegOrigin) :
    ((TransferPairing.legOfEvent e.undrawn).map fun leg => { leg with origin := origin }) =
      (TransferPairing.legOfEvent e).map fun leg => { leg with origin := origin } := by
  have hmoney : TransferPairing.legMoney e.undrawn.kind = TransferPairing.legMoney e.kind := by
    obtain ⟨id, owner, account, kind, dates, order, legs, provenance, relation, confidence, key⟩ := e
    cases kind <;> rfl
  unfold TransferPairing.legOfEvent
  simp only [hmoney, Option.bind_eq_bind, Option.map_bind, Function.comp_def]
  rfl

theorem legsOf_undrawn (session : ImportSessionId) : legsOf session (rows.map ReadRow.undrawn) = legsOf session rows := by
  unfold legsOf
  rw [List.filterMap_map]
  congr 1
  funext read
  change ((read.undrawn.event.bind fun e => (TransferPairing.legOfEvent e).bind fun leg => _) : Option CashLeg) =
    read.event.bind fun e => (TransferPairing.legOfEvent e).bind fun leg => _
  rw [event_undrawn]
  cases read.event with
  | none => rfl
  | some e =>
    have h := legOfEvent_undrawn e (.observed session read.row)
    rw [Option.map_eq_bind, Option.map_eq_bind] at h
    exact h

/-- A plan without what was drawn for it. -/
def PlannedSession.undrawn (plan : PlannedSession) : PlannedSession :=
  { plan with
    rows := plan.rows.map ReadRow.undrawn
    delta := { plan.delta with accounting := plan.delta.accounting.undrawn }
    candidates := plan.candidates.map (Except.map Event.undrawn) }

theorem planOf_undrawn (contents : SessionContents) (reading : Reading) :
    (planOf contents recorded reading.undrawn).map PlannedSession.undrawn =
      (planOf contents recorded reading).map PlannedSession.undrawn := by
  have hrows : reading.undrawn.rows = reading.rows.map ReadRow.undrawn := rfl
  have hfold : (reading.rows.map ReadRow.undrawn).foldl
      (Accounting.add recorded (openQuestions reading contents.questions)) .empty =
        (reading.rows.foldl (Accounting.add recorded (openQuestions reading contents.questions)) .empty).undrawn :=
    Accounting.foldl_undrawn .empty
  unfold planOf
  dsimp only
  rw [hrows, dispositions_undrawn, openQuestions_undrawn, hfold, List.find?_map]
  refine map_bind_congr_right fun dispositions => ?_
  generalize reading.rows.foldl _ _ = accounting
  have hnumbers : ((fun read : ReadRow => accounting.undrawn.reconciliation.all fun entry => entry.row ≠ read.row) ∘
      ReadRow.undrawn) = fun read => accounting.reconciliation.all fun entry => entry.row ≠ read.row := rfl
  rw [hnumbers]
  cases reading.rows.find? fun read => accounting.reconciliation.all fun entry => entry.row ≠ read.row with
  | some unaccounted => rfl
  | none =>
    refine map_bind_congr_right fun factTotals => map_bind_congr_right fun duplicateTotals =>
      map_bind_congr_right fun comparisons => ?_
    change Except.ok _ = Except.ok _
    unfold PlannedSession.undrawn Accounting.undrawn
    dsimp only
    rw [legsOf_undrawn, candidatesOf_undrawn]
    simp only [List.map_map, Function.comp_def, Event.undrawn_undrawn, ReadRow.undrawn_undrawn, candidate_undrawn]

/-- Two plans of one session and one journal differ in what was drawn for them alone. -/
theorem planSession_undrawn {env : Environment} {fresh fresh' : Nat → Operation.Fresh} {owner : OwnerId} {resolver : Resolver}
    (hhash : ∀ row, (fresh row).fingerprint = (fresh' row).fingerprint) (contents : SessionContents) (journal : List Event) :
    (planSession env fresh owner resolver contents journal).map PlannedSession.undrawn =
      (planSession env fresh' owner resolver contents journal).map PlannedSession.undrawn := by
  refine map_bind_congr (read_undrawn hhash contents) fun reading reading' h => ?_
  rw [← planOf_undrawn, h, planOf_undrawn]

/-- A plan that was made under other identifiers. -/
theorem planSession_again {env : Environment} {fresh fresh' : Nat → Operation.Fresh} {owner : OwnerId} {resolver : Resolver}
    {contents : SessionContents} {journal : List Event} {plan : PlannedSession}
    (hhash : ∀ row, (fresh row).fingerprint = (fresh' row).fingerprint)
    (h : planSession env fresh owner resolver contents journal = .ok plan) :
    ∃ plan', planSession env fresh' owner resolver contents journal = .ok plan' ∧ plan'.undrawn = plan.undrawn := by
  have hsame : (planSession env fresh owner resolver contents journal).map PlannedSession.undrawn =
      (planSession env fresh' owner resolver contents journal).map PlannedSession.undrawn :=
    planSession_undrawn hhash contents journal
  rw [h] at hsame
  cases hplan : planSession env fresh' owner resolver contents journal with
  | error e =>
    rw [hplan] at hsame
    cases hsame
  | ok plan' =>
    rw [hplan] at hsame
    exact ⟨plan', rfl, (Except.ok.inj hsame).symm⟩

end SessionPlan
end Iaam
