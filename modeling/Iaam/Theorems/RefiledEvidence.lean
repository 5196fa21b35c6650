import Iaam.Theorems.RefiledCash

/-! What filing a recorded row anew keeps of what was recorded beside the classification. The words of the source
travel with the row; the dates a row has no place for, the confidence, the instrument of a payment and, for movements
between own accounts, the counterparty do not. -/

namespace Iaam
namespace Reclassification
open Outcome TransferPairing

/-- What a classification does not speak about. -/
structure KeepsEvidence (original r : Event) : Prop where
  effectiveDate : r.dates.effectiveDate = original.dates.effectiveDate
  dates : r.dates = original.dates
  description : r.provenance.description = original.provenance.description
  sourceKind : r.provenance.sourceKind = original.provenance.sourceKind
  sourceCategory : r.provenance.sourceCategory = original.provenance.sourceCategory
  ownerCategory : r.provenance.ownerCategory = original.provenance.ownerCategory
  sourceCode : r.provenance.sourceCode = original.provenance.sourceCode
  counterparty : r.provenance.counterparty = original.provenance.counterparty
  confidence : r.confidence = original.confidence
  instrument : ∀ {paid paid' gross gross' kind kind'}, original.kind = .income paid gross kind →
    r.kind = .income paid' gross' kind' → paid' = paid

/-- The counterparty a recorded row is read back with: of a transfer the far account, of a movement between own
    accounts none. -/
def readCounterparty (e : Event) : Option String :=
  match e.kind with
  | .cashTransfer _ source target _ => if source = e.account then some target.text else some source.text
  | .ownAccountMovement _ | .unresolvedOwnAccountMovement _ => none
  | _ => e.provenance.counterparty

/-- Nothing was recorded that the way through the row drops. -/
structure HasPlace (original : Event) (c : Classification) : Prop where
  entitlement : original.dates.entitlement = none
  taxPeriod : original.dates.taxPeriodOverride = none
  confidence : original.confidence = .known
  counterparty : readCounterparty original = original.provenance.counterparty
  instrument : ∀ {paid gross kind kind'}, original.kind = .income paid gross kind → c = .income kind' → paid = none

theorem subject_readCounterparty {e : Event} {s : ClassificationSubject} (hs : subject e = some s) :
    s.counterparty.name? = readCounterparty e := by
  obtain ⟨⟨counterparty, movement, farSide⟩, hparts, rfl⟩ := Option.map_eq_some_iff.mp hs
  have hparty : (namedCounterparty e).name? = e.provenance.counterparty := by
    unfold namedCounterparty
    cases e.provenance.counterparty <;> rfl
  unfold subjectParts at hparts
  unfold readCounterparty
  cases hk : e.kind <;> rw [hk] at hparts <;> dsimp only at hparts ⊢ <;> (try split_ifs at hparts ⊢) <;>
    cases hparts <;> first | exact hparty | rfl

/-- The words that a subject takes from the provenance. -/
theorem subject_words {e : Event} {s : ClassificationSubject} (hs : subject e = some s) :
    s.description = e.provenance.description ∧ s.sourceKind = e.provenance.sourceKind ∧
      s.sourceCategory = e.provenance.sourceCategory ∧ s.ownerCategory = e.provenance.ownerCategory ∧
        s.sourceCode = e.provenance.sourceCode := by
  obtain ⟨parts, -, rfl⟩ := Option.map_eq_some_iff.mp hs
  exact ⟨rfl, rfl, rfl, rfl, rfl⟩

/-- A row filed as income is a payment of no instrument. -/
theorem income_built {row : ObservedRow} {operation : SubmittedOperation} {amountMinor : PostedMinor}
    {transferId : TransferId} {incomeKind : Option IncomeKind} {movement : Option Classification.Movement}
    {kind : EventKind} {legs : List Leg} (hpositive : 0 < amountMinor.raw)
    (hoperation : operationOf row amountMinor (.income incomeKind) movement = some (operation.account, operation.kind))
    (hbuilt : Operation.build transferId operation.account operation.kind = .ok (kind, legs)) :
    ∃ gross, kind = .income none gross incomeKind := by
  obtain ⟨n, -, hrow⟩ := built_of_ok (fun _ hc => by cases hc) hpositive hoperation hbuilt
  generalize operation.account = account at hrow
  cases hrow
  exact ⟨_, rfl⟩

theorem expressed_income {s : ClassificationSubject} {c : Classification} {kind : Option IncomeKind}
    (h : expressed s c = .income kind) : c = .income kind := by
  unfold expressed at h
  split at h
  · split_ifs at h
  · exact h

/-- A reclassification keeps what the classification does not speak about exactly when nothing was recorded that a row
    has no place for. -/
theorem keepsEvidence_iff {hashes : Hashes} {debug : EventKind → String} {fresh : Operation.Fresh} {owner : OwnerId}
    {original r : Event} {c : Classification} {declaredBy : Option PrincipalId} {index : Nat}
    (h : reclassificationFor hashes debug fresh owner original c declaredBy index = .ok r) :
    KeepsEvidence original r ↔ HasPlace original c := by
  obtain ⟨s, hs⟩ := subject_of_reclassified h
  obtain ⟨-, -, -, hexpressed⟩ := subject_reclassified hs h
  obtain ⟨row, operation, hrow, hoperation, hrecords⟩ := reclassificationFor_ok h
  have hrow := observes_of_ok hs hrow
  obtain ⟨hcarries, -, amountMinor, hmagnitude, hfiled⟩ := resolve_ok hoperation
  obtain ⟨hdescription, hsourceKind, hsourceCategory, hownerCategory, hsourceCode⟩ := subject_words hs
  have hdates : r.dates = { original.dates with entitlement := none, taxPeriodOverride := none } := by
    rw [hrecords.dates, hcarries.dates, hrow.dates]
    rfl
  have hcounterparty : r.provenance.counterparty = readCounterparty original := by
    rw [hrecords.counterparty, hcarries.counterparty, hrow.counterparty, subject_readCounterparty hs]
  -- Both are income only when the row was filed as income, and then the replacement names no instrument.
  have hincome {kind : Option IncomeKind} (hc : c = .income kind) : ∃ gross, r.kind = .income none gross kind := by
    subst hc
    exact income_built (magnitude_ok hmagnitude).2 hfiled hrecords.built
  constructor
  · intro hkept
    have hsame := hkept.dates
    rw [hdates] at hsame
    refine ⟨congrArg EventDates.entitlement hsame.symm, congrArg EventDates.taxPeriodOverride hsame.symm,
      hkept.confidence.symm.trans hrecords.confidence, hcounterparty.symm.trans hkept.counterparty, ?_⟩
    intro paid gross kind kind' hk hc
    obtain ⟨gross', hk'⟩ := hincome hc
    exact (hkept.instrument hk hk').symm
  · intro hplace
    have hsame : r.dates = original.dates := by
      rw [hdates, ← hplace.entitlement, ← hplace.taxPeriod]
    exact {
      effectiveDate := by rw [hsame]
      dates := hsame
      description := by rw [hrecords.description, hcarries.description, hrow.description, hdescription]
      sourceKind := by rw [hrecords.sourceKind, hcarries.sourceKind, hrow.sourceKind, hsourceKind]
      sourceCategory := by rw [hrecords.sourceCategory, hcarries.sourceCategory, hrow.sourceCategory, hsourceCategory]
      ownerCategory := by rw [hrecords.ownerCategory, hcarries.ownerCategory, hrow.ownerCategory, hownerCategory]
      sourceCode := by rw [hrecords.sourceCode, hcarries.sourceCode, hrow.sourceCode, hsourceCode]
      counterparty := hcounterparty.trans hplace.counterparty
      confidence := hrecords.confidence.trans hplace.confidence.symm
      instrument := by
        intro paid paid' gross gross' kind kind' hk hk'
        have hc : c = .income kind' := by
          unfold classificationOf at hexpressed
          rw [hk'] at hexpressed
          exact expressed_income (Option.some.inj hexpressed).symm
        obtain ⟨_, hk''⟩ := hincome hc
        rw [hplace.instrument hk hc]
        exact (EventKind.income.inj (hk'.symm.trans hk'')).1 }

/-- Filing a sample row under a classification. -/
def refiledSample (original : Event) (c : Classification) : Result AppError Event :=
  reclassificationFor sampleHashes EventKind.discriminant ⟨⟨3⟩, ⟨7⟩, fun _ => "f"⟩ ⟨0⟩ original c none 0

/-- A payment that the owner attributed to a security and estimated. -/
def attributedPayment : Event :=
  { eventWith ⟨1⟩ ⟨1⟩ ⟨10⟩ 1 (.income (some ⟨4⟩) ⟨.new 500, .rub⟩ none) [.cash ⟨1⟩ ⟨.new 500, .rub⟩] with
    confidence := .estimated }

/-- A movement between own accounts on which the source printed a name. -/
def namedMovement : Event :=
  let e := eventWith ⟨2⟩ ⟨1⟩ ⟨10⟩ 2 (.ownAccountMovement ⟨.new (-700), .rub⟩) [.cash ⟨1⟩ ⟨.new (-700), .rub⟩]
  { e with provenance := { e.provenance with counterparty := some "Shop One" } }

/-- Naming the kind of the payment takes its security and its confidence away, and the movement loses the name. -/
theorem refiling_drops_evidence :
    (∃ r, attributedPayment.validateStructure = .ok () ∧ attributedPayment.MovesByKind ∧
      refiledSample attributedPayment (.income (some .coupon)) = .ok r ∧ ¬ KeepsEvidence attributedPayment r) ∧
    ∃ r, namedMovement.validateStructure = .ok () ∧ namedMovement.MovesByKind ∧
      refiledSample namedMovement .externalFlow = .ok r ∧ ¬ KeepsEvidence namedMovement r := by
  constructor
  · obtain ⟨r, hr⟩ := exists_ok (show (refiledSample attributedPayment (.income (some .coupon))).isOk = true by
      decide)
    refine ⟨r, by decide, by decide, hr, fun hkept => ?_⟩
    have hkind : r.kind = .income none ⟨.new 500, .rub⟩ (some .coupon) := read_of_ok hr Event.kind (by decide)
    cases hkept.instrument rfl hkind
  · obtain ⟨r, hr⟩ := exists_ok (show (refiledSample namedMovement .externalFlow).isOk = true by decide)
    refine ⟨r, by decide, by decide, hr, fun hkept => ?_⟩
    have hnone : r.provenance.counterparty = none := read_of_ok hr (fun r => r.provenance.counterparty) (by decide)
    cases hnone.symm.trans hkept.counterparty

/-- Money that came in from a named counterparty. -/
def namedDeposit : Event :=
  let e := eventWith ⟨3⟩ ⟨1⟩ ⟨10⟩ 3 (.cashIn ⟨.new 900, .rub⟩) [.cash ⟨1⟩ ⟨.new 900, .rub⟩]
  { e with provenance := { e.provenance with counterparty := some "Shop One" } }

theorem namedDeposit_keeps : ∃ r, refiledSample namedDeposit .refund = .ok r ∧ KeepsEvidence namedDeposit r := by
  obtain ⟨r, hr⟩ := exists_ok (show (refiledSample namedDeposit .refund).isOk = true by decide)
  refine ⟨r, hr, (keepsEvidence_iff hr).mpr ⟨rfl, rfl, rfl, rfl, ?_⟩⟩
  intro _ _ _ _ hk
  cases hk

end Reclassification
end Iaam
