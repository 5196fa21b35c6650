import Iaam.Reconciliation.Ledger

/-! What outside evidence does to the ledger. Each item acts on each account, interval and dimension by a
maximum, so the order of the items is of no account; and a maximum with a level of evidence is never a
discrepancy, so an item that covers a discrepancy clears it. -/

namespace Iaam
namespace Reconciliation
open DimensionStatus

/-! ### Raising -/

theorem Dimensions.status_insert {m : Dimensions} {d d' : Dimension} {v : DimensionStatus} :
    Dimensions.status (m.insert d v) d' = if d = d' then v else Dimensions.status m d' := by
  unfold Dimensions.status
  rw [Tree.get_insert]
  split <;> rfl

theorem Dimensions.status_empty {d : Dimension} : Dimensions.status ∅ d = provisional := by
  simp [Dimensions.status]

/-- Raising a list of dimensions raises exactly those in it, whatever its repetitions. -/
theorem status_foldl_raise {level : DimensionStatus} {d : Dimension} (ds : List Dimension) (m : Dimensions) :
    Dimensions.status (ds.foldl (fun m d => m.insert d (max (m.status d) level)) m) d =
      if d ∈ ds then max (m.status d) level else m.status d := by
  induction ds generalizing m with
  | nil => simp
  | cons d' ds ih =>
    rw [List.foldl_cons, ih]
    simp only [Dimensions.status_insert, List.mem_cons]
    by_cases hd : d' = d
    · subst hd
      simp
    · have hd' : d ≠ d' := fun h => hd h.symm
      simp [hd, hd']

theorem status_raise {m : Dimensions} {of : Finset Dimension} {level : DimensionStatus} {d : Dimension} :
    (raise m of level).status d = if d ∈ of then max (m.status d) level else m.status d := by
  unfold raise
  rw [status_foldl_raise]
  simp [Dimension.mem_all]

/-! ### One item -/

/-- The item speaks of the account, the interval and the dimension. -/
def Covers (item : EvidenceItem) (account : AccountId) (period : AssertionPeriod) (d : Dimension) : Prop :=
  item.account = account ∧ item.period = period ∧ d ∈ item.evidence.dimensions

instance (item : EvidenceItem) (account : AccountId) (period : AssertionPeriod) (d : Dimension) :
    Decidable (Covers item account period d) := inferInstanceAs (Decidable (_ ∧ _ ∧ _))

/-- What an item makes of a status it may cover. -/
def lift (item : EvidenceItem) (account : AccountId) (period : AssertionPeriod) (d : Dimension)
    (status : DimensionStatus) : DimensionStatus :=
  if Covers item account period d then max status (.fromLevel item.evidence.level) else status

section
variable {account : AccountId} {period : AssertionPeriod} {d : Dimension}

theorem find_updateStatus {account' : AccountId} {period' : AssertionPeriod}
    {change : ReconciliationStatus → ReconciliationStatus} {fresh : ReconciliationStatus}
    (hchange : ∀ s, (change s).account = s.account ∧ (change s).period = s.period)
    (hfresh : fresh.account = account ∧ fresh.period = period) (l : List ReconciliationStatus) :
    (updateStatus account period change fresh l).find? (fun s => s.account = account' ∧ s.period = period') =
      if account = account' ∧ period = period' then
        some (((l.find? fun s => s.account = account' ∧ s.period = period').map change).getD fresh)
      else l.find? fun s => s.account = account' ∧ s.period = period' := by
  induction l with
  | nil =>
    rw [updateStatus, List.find?_singleton]
    simp [hfresh.1, hfresh.2]
  | cons s l ih =>
    unfold updateStatus
    by_cases hs : s.account = account ∧ s.period = period
    · rw [if_pos hs]
      obtain ⟨ha, hp⟩ := hs
      simp only [List.find?_cons, hchange, ha, hp]
      by_cases h : account = account' ∧ period = period'
      · simp [h]
      · simp [h]
    · rw [if_neg hs]
      simp only [List.find?_cons, ih]
      by_cases h : s.account = account' ∧ s.period = period'
      · have hne : ¬(account = account' ∧ period = period') := fun h' => hs ⟨h.1.trans h'.1.symm, h.2.trans h'.2.symm⟩
        simp [h, hne]
      · simp [h]

theorem statusOver_addEvidence (l : ReconciliationLedger) (item : EvidenceItem) :
    (l.addEvidence item).statusOver account period d = lift item account period d (l.statusOver account period d) := by
  unfold ReconciliationLedger.statusOver ReconciliationLedger.addEvidence lift
  dsimp only
  rw [find_updateStatus ?keeps ?named]
  case keeps => exact fun _ => ⟨rfl, rfl⟩
  case named => exact ⟨rfl, rfl⟩
  by_cases hk : item.account = account ∧ item.period = period
  · rw [if_pos hk]
    have hcovers : Covers item account period d ↔ d ∈ item.evidence.dimensions :=
      ⟨fun h => h.2.2, fun h => ⟨hk.1, hk.2, h⟩⟩
    cases l.statuses.find? fun s => s.account = account ∧ s.period = period with
    | none => simp [status_raise, hcovers, Dimensions.status_empty]
    | some s => simp [status_raise, hcovers]
  · have hno : ¬Covers item account period d := fun h => hk ⟨h.1, h.2.1⟩
    rw [if_neg hk, if_neg hno]

/-! ### All items -/

theorem statusOver_withExternalEvidence (l : ReconciliationLedger) (items : List EvidenceItem) :
    (l.withExternalEvidence items).statusOver account period d =
      items.foldl (fun status item => lift item account period d status) (l.statusOver account period d) := by
  unfold ReconciliationLedger.withExternalEvidence
  induction items generalizing l with
  | nil => rfl
  | cons item items ih => rw [List.foldl_cons, List.foldl_cons, ih, statusOver_addEvidence]

theorem lift_comm (item item' : EvidenceItem) (status : DimensionStatus) :
    lift item account period d (lift item' account period d status) =
      lift item' account period d (lift item account period d status) := by
  unfold lift
  split <;> split <;> first | rfl | exact max_right_comm _ _ _

/-- The order of the items is of no account. -/
theorem statusOver_perm (l : ReconciliationLedger) {items items' : List EvidenceItem} (h : items.Perm items') :
    (l.withExternalEvidence items).statusOver account period d =
      (l.withExternalEvidence items').statusOver account period d := by
  rw [statusOver_withExternalEvidence, statusOver_withExternalEvidence]
  exact h.foldl_eq' (fun item _ item' _ status => lift_comm item' item status) _

/-- No evidence has a level as low as a discrepancy. -/
theorem discrepant_lt_level (e : Evidence) : discrepant < fromLevel e.level := by
  have hceiling : e.ground.ceiling ≠ .provisional := by cases e.ground <;> simp [Ground.ceiling]
  unfold Evidence.level
  split
  · decide
  · cases h : e.ground.ceiling with
    | provisional => exact absurd h hceiling
    | acceptedInternal => decide
    | acceptedIndependent => decide

theorem lift_eq_discrepant {item : EvidenceItem} {status : DimensionStatus} :
    lift item account period d status = discrepant ↔ status = discrepant ∧ ¬Covers item account period d := by
  unfold lift
  split
  · next hc =>
    have hlt : discrepant < max status (fromLevel item.evidence.level) :=
      lt_of_lt_of_le (discrepant_lt_level item.evidence) (le_max_right _ _)
    simp [hc, hlt.ne']
  · next hc => simp [hc]

theorem foldl_lift_eq_discrepant (items : List EvidenceItem) (status : DimensionStatus) :
    items.foldl (fun status item => lift item account period d status) status = discrepant ↔
      status = discrepant ∧ ∀ item ∈ items, ¬Covers item account period d := by
  induction items generalizing status with
  | nil => simp
  | cons item items ih =>
    rw [List.foldl_cons, ih, lift_eq_discrepant]
    simp only [List.forall_mem_cons, and_assoc]

end

/-- Discrepancies stay, and the order of the items is of no account. -/
def DiscrepanciesStand (l : ReconciliationLedger) (items : List EvidenceItem) : Prop :=
  (∀ account period d, l.statusOver account period d = discrepant →
    (l.withExternalEvidence items).statusOver account period d = discrepant) ∧
  ∀ items', items.Perm items' → ∀ account period d,
    (l.withExternalEvidence items).statusOver account period d =
      (l.withExternalEvidence items').statusOver account period d

theorem discrepanciesStand_iff (l : ReconciliationLedger) (items : List EvidenceItem) :
    DiscrepanciesStand l items ↔
      ∀ account period d, l.statusOver account period d = discrepant →
        ∀ item ∈ items, ¬Covers item account period d := by
  constructor
  · rintro ⟨hstay, -⟩ account period d hd
    have h := hstay account period d hd
    rw [statusOver_withExternalEvidence, foldl_lift_eq_discrepant] at h
    exact h.2
  · intro hfree
    refine ⟨fun account period d hd => ?_, fun items' hp account period d => statusOver_perm l hp⟩
    rw [statusOver_withExternalEvidence, foldl_lift_eq_discrepant]
    exact ⟨hd, hfree account period d hd⟩

/-! ### A depositary report over a discrepancy -/

/-- A statement of a position that the journal does not bear out, and a depositary report about the same
    account and month. -/
def contradicted : ReconciliationLedger :=
  let channel : SourceChannel := ⟨⟨1⟩, "broker/1", some "a"⟩
  let claim : ControlClaim := .positionQuantity ⟨7⟩ .one .closing
  let discrepancy : Discrepancy := ⟨"quantity", .quantity .one, .quantity .zero, .quantity .one, none⟩
  .ofChecked
    [(⟨⟨1⟩, ⟨⟨0⟩, ⟨30⟩⟩, channel, [claim]⟩,
      [⟨claim, .discrepant discrepancy, ⟨⟨1, some ⟨3⟩, some ⟨3⟩⟩, .asserted, .level⟩⟩], [])]
    [] []

def depositaryReport : EvidenceItem where
  account := ⟨1⟩
  period := ⟨⟨0⟩, ⟨30⟩⟩
  evidence := ⟨.depositaryReportConfirms, ⟨⟨2⟩, "depositary/1", some "b"⟩, ⟨⟨1⟩, "broker/1", some "a"⟩, {.positions},
    by decide, by decide⟩

theorem depositaryReport_clears :
    contradicted.statusOver ⟨1⟩ ⟨⟨0⟩, ⟨30⟩⟩ .positions = discrepant ∧
      (contradicted.withExternalEvidence [depositaryReport]).statusOver ⟨1⟩ ⟨⟨0⟩, ⟨30⟩⟩ .positions =
        acceptedIndependent ∧
      ¬DiscrepanciesStand contradicted [depositaryReport] := by
  have hbefore : contradicted.statusOver ⟨1⟩ ⟨⟨0⟩, ⟨30⟩⟩ .positions = discrepant := by decide
  have hafter : (contradicted.withExternalEvidence [depositaryReport]).statusOver ⟨1⟩ ⟨⟨0⟩, ⟨30⟩⟩ .positions =
      acceptedIndependent := by decide
  refine ⟨hbefore, hafter, fun h => ?_⟩
  have hstay := h.1 ⟨1⟩ ⟨⟨0⟩, ⟨30⟩⟩ .positions hbefore
  rw [hafter] at hstay
  cases hstay

end Reconciliation
end Iaam
