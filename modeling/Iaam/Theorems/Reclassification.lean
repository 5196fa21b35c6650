import Iaam.App.Classification
import Iaam.Theorems.Operations

/-! What a reclassification records: the replacement read back as a subject is the row it was made of, but for
what the new kind states in another way. -/

namespace Iaam
namespace Reclassification
open Outcome

/-! ### What an operation records -/

/-- What the event of a normalised operation takes from it. -/
structure Records (fresh : Operation.Fresh) (operation : SubmittedOperation) (target : EventId) (r : Event) : Prop where
  built : Operation.build fresh.transfer operation.account operation.kind = .ok (r.kind, r.legs)
  id : r.id = fresh.event
  account : r.account = operation.account
  relation : r.relation = .replacement target
  description : r.provenance.description = operation.description
  sourceKind : r.provenance.sourceKind = operation.sourceKind
  sourceCategory : r.provenance.sourceCategory = operation.sourceCategory
  ownerCategory : r.provenance.ownerCategory = operation.ownerCategory
  sourceCode : r.provenance.sourceCode = operation.sourceCode
  counterparty : r.provenance.counterparty = operation.counterparty
  dates : r.dates = operation.dates.toEventDates
  confidence : r.confidence = .known

theorem records_of_ok {hashes : Hashes} {fresh : Operation.Fresh} {owner : OwnerId} {target : EventId}
    {operation : SubmittedOperation} {declaredBy : Option PrincipalId} {r : Event}
    (h : replacing hashes fresh owner target operation declaredBy = .ok r) : Records fresh operation target r := by
  obtain ⟨event, hnormalize, h⟩ := bind_ok.mp h
  cases h
  unfold Operation.normalize at hnormalize
  dsimp only at hnormalize
  split at hnormalize
  · cases hnormalize
  · obtain ⟨⟨kind, legs⟩, hbuild, hnormalize⟩ := bind_ok.mp hnormalize
    cases hnormalize
    exact ⟨hbuild, rfl, rfl, rfl, rfl, rfl, rfl, rfl, rfl, rfl, rfl, rfl⟩

/-! ### The replacement as a row -/

/-- A row as it reads back once it is filed under a classification. A movement between own accounts keeps no
    counterparty; a transfer has the far account for one, and is filed on the account the money left. -/
def refiled (s : ClassificationSubject) : Classification → ClassificationSubject
  | .ownAccountMovement => { s with counterparty := .unknown, farSide := .ownAccount }
  | .internalTransfer target =>
    if s.movement = some .in then
      { s with
        account := target
        counterparty := .named s.account.text
        movement := some .out
        farSide := .unstated }
    else { s with counterparty := .named target.text, farSide := .unstated }
  | .externalFlow | .fee _ | .refund | .income _ => { s with farSide := .unstated }

/-- What the filed row expresses: of a transfer, the account where the money arrived. -/
def expressed (s : ClassificationSubject) : Classification → Classification
  | .internalTransfer target => if s.movement = some .in then .internalTransfer s.account else .internalTransfer target
  | c => c

theorem subject_counterparty {e : Event} {s : ClassificationSubject} (h : subject e = some s) (account : AccountId) :
    s.counterparty ≠ .ownAccount account := by
  unfold subject at h
  obtain ⟨⟨counterparty, movement, farSide⟩, hparts, rfl⟩ := Option.map_eq_some_iff.mp h
  have hparty : namedCounterparty e ≠ .ownAccount account := by
    unfold namedCounterparty
    split <;> simp
  unfold subjectParts at hparts
  cases hk : e.kind <;> rw [hk] at hparts <;> dsimp only at hparts <;> (try split_ifs at hparts) <;> cases hparts <;>
    first | exact hparty | simp

section
variable {debug : EventKind → String} {original : Event} {s : ClassificationSubject} {index : Nat} {row : ObservedRow}

/-- What the observed row keeps of the recorded one. -/
structure Observes (original : Event) (s : ClassificationSubject) (row : ObservedRow) : Prop where
  account : row.account = s.account
  movement : row.movement = s.movement
  counterparty : row.counterpartyName = s.counterparty.name?
  description : row.description = s.description
  sourceKind : row.sourceKind = s.sourceKind
  sourceCategory : row.sourceCategory = s.sourceCategory
  ownerCategory : row.ownerCategory = s.ownerCategory
  sourceCode : row.sourceCode = s.sourceCode
  dates : row.dates = ⟨original.dates.trade, original.dates.settled, original.dates.cashPosted, original.dates.paid⟩

theorem observes_of_ok (hs : subject original = some s) (h : observedFor debug original index = .ok row) :
    Observes original s row := by
  have hown := subject_counterparty hs
  unfold observedFor at h
  rw [hs] at h
  dsimp only at h
  split at h
  · cases h
  · cases h
    obtain ⟨parts, -, rfl⟩ := Option.map_eq_some_iff.mp hs
    refine ⟨rfl, ?_, ?_, rfl, rfl, rfl, rfl, rfl, rfl⟩
    · dsimp only [ObservedRow.movement]
      split <;> simp_all [ObservedDirection.movement]
    · dsimp only [ObservedRow.counterpartyName]
      cases hc : parts.1 with
      | named name => rfl
      | unknown => rfl
      | ownAccount account => exact absurd hc (hown account)

end

/-- The operation of a row keeps what the source said, whatever it becomes. -/
structure Carries (row : ObservedRow) (operation : SubmittedOperation) : Prop where
  description : operation.description = row.description
  sourceKind : operation.sourceKind = row.sourceKind
  sourceCategory : operation.sourceCategory = row.sourceCategory
  ownerCategory : operation.ownerCategory = row.ownerCategory
  sourceCode : operation.sourceCode = row.sourceCode
  counterparty : operation.counterparty = row.counterpartyName
  dates : operation.dates = row.dates

/-- The operation a classification and a direction make of a row. -/
def operationOf (row : ObservedRow) (amountMinor : PostedMinor) :
    Classification → Option Classification.Movement → Option (AccountId × OperationKind)
  | .ownAccountMovement, movement => some (row.account, .ownAccountMovement movement amountMinor row.currency)
  | .internalTransfer target, some .out => some (row.account, .transfer target amountMinor row.currency)
  | .internalTransfer target, some .in => some (target, .transfer row.account amountMinor row.currency)
  | .externalFlow, some .out => some (row.account, .withdrawal amountMinor row.currency)
  | .externalFlow, some .in => some (row.account, .deposit amountMinor row.currency)
  | .fee origin, some .out => some (row.account, .fee amountMinor row.currency origin)
  | .income kind, some .in => some (row.account, .income none amountMinor row.currency kind)
  | .refund, some .in => some (row.account, .refund amountMinor row.currency)
  | _, _ => none

theorem magnitude_ok {row : ObservedRow} {amountMinor : PostedMinor} (h : row.magnitude = .ok amountMinor) :
    amountMinor.raw = |row.amountMinor.raw| ∧ 0 < amountMinor.raw := by
  unfold ObservedRow.magnitude at h
  split at h
  · next hvalue =>
    cases h
    obtain ⟨hfits, hpositive⟩ := Option.filter_eq_some_iff.mp hvalue
    exact ⟨PostedMinor.ofInt_eq_some.mp hfits, of_decide_eq_true hpositive⟩
  · cases h

/-- The operation of a row carries what the row says, has the magnitude of its amount, and is never a transfer to
    itself. -/
theorem resolve_ok {row : ObservedRow} {c : Classification} {movement : Option Classification.Movement}
    {operation : SubmittedOperation} (h : row.resolve c movement = .ok operation) :
    Carries row operation ∧ (∀ target, c = .internalTransfer target → target ≠ row.account) ∧
      ∃ amountMinor, row.magnitude = .ok amountMinor ∧
        operationOf row amountMinor c movement = some (operation.account, operation.kind) := by
  obtain ⟨amountMinor, hmagnitude, h⟩ := bind_ok.mp h
  rcases movement with _ | movement
  · cases c <;> cases h
    exact ⟨⟨rfl, rfl, rfl, rfl, rfl, rfl, rfl⟩, by simp, amountMinor, hmagnitude, rfl⟩
  · cases c with
    | internalTransfer target =>
      cases movement <;> dsimp only at h <;> split_ifs at h with hself <;> cases h <;>
        exact ⟨⟨rfl, rfl, rfl, rfl, rfl, rfl, rfl⟩, fun _ ht => Classification.internalTransfer.inj ht ▸ hself, amountMinor,
          hmagnitude, rfl⟩
    | _ =>
      cases movement <;> cases h <;>
        exact ⟨⟨rfl, rfl, rfl, rfl, rfl, rfl, rfl⟩, by simp, amountMinor, hmagnitude, rfl⟩

/-- What is built of the operation of a row: its account, its fact and its legs. The amount taken away is `n`. -/
inductive Built (row : ObservedRow) (transferId : TransferId) (a n : PostedMinor) :
    Option Classification.Movement → Classification → AccountId → EventKind → List Leg → Prop
  | ownUnresolved : Built row transferId a n none .ownAccountMovement row.account
      (.unresolvedOwnAccountMovement ⟨a, row.currency⟩) []
  | ownIn : Built row transferId a n (some .in) .ownAccountMovement row.account
      (.ownAccountMovement ⟨a, row.currency⟩) [.cash row.account ⟨a, row.currency⟩]
  | ownOut : Built row transferId a n (some .out) .ownAccountMovement row.account
      (.ownAccountMovement ⟨n, row.currency⟩) [.cash row.account ⟨n, row.currency⟩]
  | transferIn (target : AccountId) (hne : target ≠ row.account) :
      Built row transferId a n (some .in) (.internalTransfer target) target
        (.cashTransfer transferId target row.account ⟨a, row.currency⟩)
        [.cash target ⟨n, row.currency⟩, .cash row.account ⟨a, row.currency⟩]
  | transferOut (target : AccountId) (hne : target ≠ row.account) :
      Built row transferId a n (some .out) (.internalTransfer target) row.account
        (.cashTransfer transferId row.account target ⟨a, row.currency⟩)
        [.cash row.account ⟨n, row.currency⟩, .cash target ⟨a, row.currency⟩]
  | deposit : Built row transferId a n (some .in) .externalFlow row.account
      (.cashIn ⟨a, row.currency⟩) [.cash row.account ⟨a, row.currency⟩]
  | withdrawal : Built row transferId a n (some .out) .externalFlow row.account
      (.cashOut ⟨n, row.currency⟩) [.cash row.account ⟨n, row.currency⟩]
  | refund : Built row transferId a n (some .in) .refund row.account
      (.refund ⟨a, row.currency⟩) [.cash row.account ⟨a, row.currency⟩]
  | income (kind : Option IncomeKind) : Built row transferId a n (some .in) (.income kind) row.account
      (.income none ⟨a, row.currency⟩ kind) [.cash row.account ⟨a, row.currency⟩]
  | fee (origin : FeeOrigin) : Built row transferId a n (some .out) (.fee origin) row.account
      (.fee ⟨n, row.currency⟩ origin) [.fee row.account ⟨n, row.currency⟩]

section
variable {row : ObservedRow} {c : Classification} {movement : Option Classification.Movement} {amountMinor : PostedMinor}
  {account : AccountId} {operation : OperationKind} {transferId : TransferId}
  (hself : ∀ target, c = .internalTransfer target → target ≠ row.account) (hpositive : 0 < amountMinor.raw)
  (h : operationOf row amountMinor c movement = some (account, operation))
include hself hpositive h

/-- The operation of a row is built, for the money has the direction that the operation needs. -/
theorem build_operationOf (transferId : TransferId) : ∃ n kind legs, n.raw = -amountMinor.raw ∧
    Operation.build transferId account operation = .ok (kind, legs) ∧
      Built row transferId amountMinor n movement c account kind legs := by
  obtain ⟨n, hn, hraw⟩ := Operation.exists_negated hpositive
  rcases movement with _ | _ | _ <;> cases c <;>
    simp only [operationOf, reduceCtorEq, Option.some.injEq, Prod.mk.injEq] at h <;> obtain ⟨rfl, rfl⟩ := h
  case none.ownAccountMovement => exact ⟨n, _, _, hraw, Operation.build_ownUnresolved hpositive, .ownUnresolved⟩
  case some.in.internalTransfer target =>
    have hne := hself target rfl
    exact ⟨n, _, _, hraw, Operation.build_transfer hne.symm hpositive hn, .transferIn target hne⟩
  case some.in.externalFlow => exact ⟨n, _, _, hraw, Operation.build_deposit hpositive, .deposit⟩
  case some.in.refund => exact ⟨n, _, _, hraw, Operation.build_refund hpositive, .refund⟩
  case some.in.income kind => exact ⟨n, _, _, hraw, Operation.build_income hpositive, .income kind⟩
  case some.in.ownAccountMovement => exact ⟨n, _, _, hraw, Operation.build_ownIn hpositive, .ownIn⟩
  case some.out.internalTransfer target =>
    have hne := hself target rfl
    exact ⟨n, _, _, hraw, Operation.build_transfer hne hpositive hn, .transferOut target hne⟩
  case some.out.externalFlow => exact ⟨n, _, _, hraw, Operation.build_withdrawal hpositive hn, .withdrawal⟩
  case some.out.fee origin => exact ⟨n, _, _, hraw, Operation.build_fee hpositive hn, .fee origin⟩
  case some.out.ownAccountMovement => exact ⟨n, _, _, hraw, Operation.build_ownOut hpositive hn, .ownOut⟩

theorem built_of_ok {kind : EventKind} {legs : List Leg}
    (hbuilt : Operation.build transferId account operation = .ok (kind, legs)) :
    ∃ n, n.raw = -amountMinor.raw ∧ Built row transferId amountMinor n movement c account kind legs := by
  obtain ⟨n, kind', legs', hraw, hbuild, hrow⟩ := build_operationOf hself hpositive h transferId
  cases hbuild.symm.trans hbuilt
  exact ⟨n, hraw, hrow⟩

end

/-! ### The replacement read back -/

section
variable {hashes : Hashes} {debug : EventKind → String} {fresh : Operation.Fresh} {owner : OwnerId} {original r : Event}
  {c : Classification} {declaredBy : Option PrincipalId} {index : Nat} {s : ClassificationSubject}

/-- A reclassification is the record of the operation that the observed row becomes. -/
theorem reclassificationFor_ok (h : reclassificationFor hashes debug fresh owner original c declaredBy index = .ok r) :
    ∃ row operation, observedFor debug original index = .ok row ∧ row.resolve c row.movement = .ok operation ∧
      Records fresh { operation with idempotencyKey := some (reclassificationKey original.id) } original.id r := by
  obtain ⟨row, hrow, h⟩ := bind_ok.mp h
  obtain ⟨operation, hoperation, h⟩ := bind_ok.mp h
  exact ⟨row, operation, convert_ok.mp hrow, convert_ok.mp hoperation, records_of_ok (reraise_ok.mp h)⟩

/-- What is filed anew is a fact that rules classify. -/
theorem subject_of_reclassified
    (h : reclassificationFor hashes debug fresh owner original c declaredBy index = .ok r) :
    ∃ s, subject original = some s := by
  obtain ⟨row, -, hrow, -, -⟩ := reclassificationFor_ok h
  unfold observedFor at hrow
  split at hrow
  · cases hrow
  · next s hs => exact ⟨s, hs⟩

/-- The parts of the subject that a kind decides, for the operation of a row. -/
theorem parts_of_operation {row : ObservedRow} {operation : SubmittedOperation} {amountMinor : PostedMinor}
    (hs : subject original = some s) (hrow : Observes original s row) (hcarries : Carries row operation)
    (hself : ∀ target, c = .internalTransfer target → target ≠ row.account) (hpositive : 0 < amountMinor.raw)
    (hrecords : Records fresh operation original.id r)
    (hoperation : operationOf row amountMinor c s.movement = some (operation.account, operation.kind)) :
    r.account = (refiled s c).account ∧
      subjectParts r = some ((refiled s c).counterparty, (refiled s c).movement, (refiled s c).farSide) ∧
        classificationOf r = some (expressed s c) := by
  -- The counterparty that the provenance retains is the one the row named.
  have hparty : namedCounterparty r = s.counterparty := by
    unfold namedCounterparty
    rw [hrecords.counterparty, hcarries.counterparty, hrow.counterparty]
    cases hc : s.counterparty with
    | named name => rfl
    | unknown => rfl
    | ownAccount account => exact absurd hc (subject_counterparty hs account)
  have haccount := hrecords.account
  obtain ⟨n, hraw, hbuilt⟩ := built_of_ok hself hpositive hoperation hrecords.built
  generalize hmovement : s.movement = movement at hbuilt
  generalize hkind : r.kind = kind at hbuilt
  generalize r.legs = legs at hbuilt
  generalize operation.account = account at haccount hbuilt
  cases hbuilt <;>
    simp [subjectParts, classificationOf, hkind, refiled, expressed, haccount, hrow.account, hmovement, hparty, hraw,
      hpositive, hpositive.le]

/-- Reading a reclassified fact back gives the row refiled, and it expresses what it was filed as. -/
theorem subject_reclassified (hs : subject original = some s)
    (h : reclassificationFor hashes debug fresh owner original c declaredBy index = .ok r) :
    r.id = fresh.event ∧ r.relation = .replacement original.id ∧ subject r = some (refiled s c) ∧
      classificationOf r = some (expressed s c) := by
  obtain ⟨row, operation, hrow, hoperation, hrecords⟩ := reclassificationFor_ok h
  have hrow := observes_of_ok hs hrow
  obtain ⟨hcarries, hself, amountMinor, hmagnitude, hfiled⟩ := resolve_ok hoperation
  have hpositive := (magnitude_ok hmagnitude).2
  rw [hrow.movement] at hfiled
  have hkeyed : Carries row { operation with idempotencyKey := some (reclassificationKey original.id) } :=
    ⟨hcarries.1, hcarries.2, hcarries.3, hcarries.4, hcarries.5, hcarries.6, hcarries.7⟩
  obtain ⟨haccount, hparts, hexpressed⟩ := parts_of_operation hs hrow hkeyed hself hpositive hrecords hfiled
  refine ⟨hrecords.id, hrecords.relation, ?_, hexpressed⟩
  have hkept : (refiled s c).description = s.description ∧ (refiled s c).sourceKind = s.sourceKind ∧
      (refiled s c).sourceCategory = s.sourceCategory ∧ (refiled s c).ownerCategory = s.ownerCategory ∧
        (refiled s c).sourceCode = s.sourceCode := by
    unfold refiled
    cases c <;> (try split_ifs) <;> exact ⟨rfl, rfl, rfl, rfl, rfl⟩
  obtain ⟨hdescription, hsourceKind, hsourceCategory, hownerCategory, hsourceCode⟩ := hkept
  unfold subject
  rw [hparts, Option.map_some, hrecords.description, hrecords.sourceKind, hrecords.sourceCategory,
    hrecords.ownerCategory, hrecords.sourceCode, haccount, hcarries.description, hcarries.sourceKind,
    hcarries.sourceCategory, hcarries.ownerCategory, hcarries.sourceCode, hrow.description, hrow.sourceKind,
    hrow.sourceCategory, hrow.ownerCategory, hrow.sourceCode, ← hdescription, ← hsourceKind, ← hsourceCategory,
    ← hownerCategory, ← hsourceCode]

end

/-! ### What can be reclassified -/

/-- A recorded row can be filed under a classification: it has an amount, a direction that the classification
    allows, another account for a transfer, and a date. -/
def Refilable (e : Event) (c : Classification) : Prop :=
  ∃ row operation, observedFor EventKind.discriminant e 0 = .ok row ∧ row.resolve c row.movement = .ok operation ∧
    operation.dates.toEventDates.effectiveDate.isSome = true

theorem observedFor_eq {debug debug' : EventKind → String} {e : Event} {index index' : Nat} {row : ObservedRow}
    (h : observedFor debug e index = .ok row) : observedFor debug' e index' = .ok row := by
  unfold observedFor at h ⊢
  cases hs : subject e with
  | none =>
    rw [hs] at h
    cases h
  | some s =>
    rw [hs] at h
    dsimp only at h ⊢
    cases hcash : observedCash e with
    | none =>
      rw [hcash] at h
      cases h
    | some cash =>
      rw [hcash] at h
      exact h

/-- Whether a reclassification can be constructed does not depend on what is drawn for it. -/
theorem exists_reclassification_iff {hashes : Hashes} {debug : EventKind → String} {fresh : Operation.Fresh}
    {owner : OwnerId} {original : Event} {c : Classification} {declaredBy : Option PrincipalId} {index : Nat} :
    (∃ r, reclassificationFor hashes debug fresh owner original c declaredBy index = .ok r) ↔ Refilable original c := by
  constructor
  · rintro ⟨r, h⟩
    obtain ⟨row, hrow, h⟩ := bind_ok.mp h
    obtain ⟨operation, hoperation, h⟩ := bind_ok.mp h
    refine ⟨row, operation, observedFor_eq (convert_ok.mp hrow), convert_ok.mp hoperation, ?_⟩
    obtain ⟨event, hnormalize, -⟩ := bind_ok.mp (reraise_ok.mp h)
    unfold Operation.normalize at hnormalize
    dsimp only at hnormalize
    split at hnormalize
    · cases hnormalize
    · next hday => rw [hday]; rfl
  · rintro ⟨row, operation, hrow, hoperation, hdated⟩
    obtain ⟨-, hself, amountMinor, hmagnitude, hfiled⟩ := resolve_ok hoperation
    obtain ⟨-, kind, legs, -, hbuilt, -⟩ := build_operationOf hself (magnitude_ok hmagnitude).2 hfiled fresh.transfer
    obtain ⟨day, hday⟩ := Option.isSome_iff_exists.mp hdated
    have hnormalize (context : Operation.NormalizationContext) : ∃ event, Operation.normalize fresh
        { operation with idempotencyKey := some (reclassificationKey original.id) } context = .ok event := by
      unfold Operation.normalize
      dsimp only
      rw [hday]
      exact ⟨_, bind_ok.mpr ⟨(kind, legs), hbuilt, rfl⟩⟩
    obtain ⟨event, hevent⟩ := hnormalize
      ⟨owner, hashes.declared owner operation.account correctionChannel, correctionParserVersion⟩
    exact ⟨_, bind_ok.mpr ⟨row, convert_ok.mpr (observedFor_eq hrow), bind_ok.mpr ⟨operation, convert_ok.mpr hoperation,
      reraise_ok.mpr (bind_ok.mpr ⟨event, hevent, rfl⟩)⟩⟩⟩

end Reclassification
end Iaam
