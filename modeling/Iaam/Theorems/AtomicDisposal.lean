import Iaam.Theorems.AtomicEntry

/-! What a failed disposal leaves of the book.

A disposal takes from the quantity without cost, then from the lots, then adds up the released cost and the
result, and each of these is written before the next one is tried. -/

namespace Iaam
namespace Atomicity
open Outcome Disposal LotSteps InstrumentLots

/-! ### Failures behind a write -/

/-- The realised result with that of a disposal in it. -/
def resultOf (l : InstrumentLots) (proceeds released : Money) : Except MoneyError Money := do
  let result ← proceeds.trySub released
  accumulate l.realized result

/-- Taking the rest of a disposal from the lots fails, behind the quantity without cost, behind the lots or behind the
    released cost. -/
inductive LotsTear (rule : LotDisposalRule) (l : InstrumentLots) (left : Dec) (proceeds : Money) : Prop
  | rule {e : DisposalError} : l.unpriced.val ≠ 0 → rule.apply ⟨l.lots, left⟩ = .error (.error e) →
      LotsTear rule l left proceeds
  | released {r : DisposalResult} {e : MoneyError} : rule.apply ⟨l.lots, left⟩ = .ok r →
      accumulate l.releasedBasis r.basisReleased = .error e → LotsTear rule l left proceeds
  | result {r : DisposalResult} {sum : Money} {e : MoneyError} : l.unpriced.val = 0 → l.gap = none →
      rule.apply ⟨l.lots, left⟩ = .ok r → accumulate l.releasedBasis r.basisReleased = .ok sum →
      resultOf l proceeds r.basisReleased = .error e → LotsTear rule l left proceeds

/-- A disposal of more than the quantity without cost, whose rest tears. -/
def DisposalTears (rule : LotDisposalRule) (l : InstrumentLots) (quantity : Quantity) (proceeds : Money) : Prop :=
  ∃ left : Dec, 0 < left.val ∧ left.val = quantity.val - l.unpriced.val ∧ LotsTear rule l left proceeds

/-! ### One entry -/

section Disposal
variable {l m : InstrumentLots} {quantity : Quantity} {left : Dec} {rule : LotDisposalRule} {proceeds : Money}
  {r : DisposalResult}

/-- Taking from a quantity without cost that is not negative cannot fail. -/
theorem takeUnpriced_total (hu : 0 ≤ l.unpriced.val) (hq : 0 < quantity.val) :
    ∃ left m, takeUnpriced quantity l = (.ok left, m) := by
  have hmin : 0 ≤ (min l.unpriced quantity).val := by
    rcases min_choice l.unpriced quantity with h | h
    · rw [h]
      exact hu
    · rw [h]
      exact hq.le
  obtain ⟨left, hleft, -⟩ := Dec.exists_checkedSub hmin (Dec.le_iff.mp (min_le_right l.unpriced quantity))
  obtain ⟨unpriced, hunpriced, -⟩ := Dec.exists_checkedSub hmin (Dec.le_iff.mp (min_le_left l.unpriced quantity))
  unfold takeUnpriced
  rw [Mut.get_bind]
  dsimp only
  split
  · exact ⟨left, l, Mut.lift_ok.mpr ⟨convert_ok.mpr hleft, rfl⟩⟩
  · rw [Mut.lift_bind_of_ok (convert_ok.mpr hunpriced), Mut.modify_bind]
    exact ⟨left, _, Mut.lift_ok.mpr ⟨convert_ok.mpr hleft, rfl⟩⟩

/-- Nothing is left to take from the lots only where the quantity without cost is enough. -/
theorem taken_whole (h : Taken l quantity left m) (hq : 0 < quantity.val) (hz : left.val = 0) :
    quantity.val ≤ l.unpriced.val := by
  have hle : (min l.unpriced quantity).val ≤ l.unpriced.val := Dec.le_iff.mp (min_le_left _ _)
  cases h with
  | nothing _ hleft => linarith
  | part _ _ hleft => linarith

/-- What is left to take from the lots, with what taking the rest has changed. -/
theorem taken_rest (h : Taken l quantity left m) (hu : 0 ≤ l.unpriced.val) (hq : 0 < quantity.val)
    (hne : left.val ≠ 0) : 0 < left.val ∧ left.val = quantity.val - l.unpriced.val ∧
      ((l.unpriced.val = 0 ∧ m = l) ∨
        (l.unpriced.val ≠ 0 ∧ m ≠ l ∧ m.gap ≠ none ∧ m.lots = l.lots ∧ m.releasedBasis = l.releasedBasis)) := by
  rcases le_total l.unpriced quantity with hle | hle
  · have hmin := min_eq_left hle
    have hval := Dec.le_iff.mp hle
    cases h with
    | nothing hz hleft =>
      rw [hmin] at hz
      refine ⟨by linarith, by linarith, Or.inl ⟨hz, rfl⟩⟩
    | @part unpriced hz hunpriced hleft =>
      rw [hmin] at hz hunpriced hleft
      refine ⟨lt_of_le_of_ne (by linarith) hne.symm, hleft, Or.inr ⟨hz, fun heq => hz ?_, Option.some_ne_none _, rfl, rfl⟩⟩
      rw [← congrArg InstrumentLots.unpriced heq]
      change unpriced.val = 0
      linarith
  · have hmin := min_eq_right hle
    cases h with
    | nothing hz hleft =>
      rw [hmin] at hz
      linarith
    | part hz hunpriced hleft =>
      rw [hmin] at hleft
      exact absurd (by linarith) hne

theorem releaseLots_of_ok {sum : Money} (hr : rule.apply ⟨m.lots, left⟩ = .ok r)
    (hsum : accumulate m.releasedBasis r.basisReleased = .ok sum) :
    releaseLots rule left m = (.ok r, { m with lots := r.remaining, releasedBasis := some sum }) := by
  unfold releaseLots
  rw [Mut.get_bind, Mut.lift_bind_of_ok (reraise_ok.mpr hr), Mut.modify_bind]
  exact Mut.bind_of_ok (addTotal_ok (l := { m with lots := r.remaining }) |>.mpr ⟨sum, hsum, rfl⟩) _

theorem releaseLots_of_sum {e : MoneyError} (hr : rule.apply ⟨m.lots, left⟩ = .ok r)
    (hsum : accumulate m.releasedBasis r.basisReleased = .error e) :
    releaseLots rule left m = (.error (.error (.money e)), { m with lots := r.remaining }) := by
  unfold releaseLots
  rw [Mut.get_bind, Mut.lift_bind_of_ok (reraise_ok.mpr hr), Mut.modify_bind]
  exact Mut.bind_of_error (addTotal_of_error (l := { m with lots := r.remaining }) hsum) _

theorem realise_gap {released : Money} (hgap : m.gap ≠ none) : realise proceeds released m = (.ok (), m) := by
  unfold realise
  rw [Mut.get_bind, if_pos (Option.isSome_iff_ne_none.mpr hgap)]
  rfl

theorem realise_of_ok {released sum : Money} (hgap : m.gap = none) (h : resultOf m proceeds released = .ok sum) :
    realise proceeds released m = (.ok (), { m with realized := some sum }) := by
  obtain ⟨result, hsub, hsum⟩ := bind_ok.mp h
  unfold realise
  rw [Mut.get_bind, if_neg (by simp [hgap]), Mut.lift_bind_of_ok (convert_ok.mpr hsub)]
  exact addTotal_ok.mpr ⟨sum, hsum, rfl⟩

theorem realise_of_error {released : Money} {e : MoneyError} (hgap : m.gap = none)
    (h : resultOf m proceeds released = .error e) : realise proceeds released m = (.error (.error (.money e)), m) := by
  unfold realise
  rw [Mut.get_bind, if_neg (by simp [hgap])]
  rcases bind_error.mp h with hsub | ⟨result, hsub, hsum⟩
  · exact Mut.lift_bind_of_error (convert_error.mpr ⟨e, hsub, rfl⟩) _ _
  · rw [Mut.lift_bind_of_ok (convert_ok.mpr hsub)]
    exact addTotal_of_error hsum

/-! ### The book, with the outcome of taking from the quantity without cost known -/

variable {e : Event} {key : LotKey} {rules : RuleRegistry} {settlement : SettlementKnowledge} {b : LotBook}

theorem onEntry_putLots {α : Type} {x : InstrumentLots.Step α} :
    LotBook.onEntry key x (b.putLots key m) = ((x m).1, b.putLots key (x m).2) := by
  rw [onEntry_run (l := m) (by simp [LotBook.putLots]), putLots_putLots]

/-- What a disposal does after it took from the quantity without cost. -/
def disposeLots (key : LotKey) (proceeds : Money) (settlement : SettlementKnowledge) (rule : LotDisposalRule)
    (delta : Quantity) (left : Dec) : LotBook.Step Unit := do
  let result ← LotBook.onEntry key (releaseLots rule left)
  Mut.modify fun b => { b with appliedRule := some result.rule }
  LotBook.onEntry key (realise proceeds result.basisReleased)
  LotBook.onEntry key (Mut.modify (InstrumentLots.observe delta settlement))

theorem dispose_run (hrule : rules.disposalRule b.ruleVersion = some rule) (hl : b.entries[key]? = some l)
    (htake : takeUnpriced quantity l = (.ok left, m)) : ∃ delta,
      LotBook.dispose e key quantity proceeds rules settlement b =
        if left.val = 0 then (.ok (), b.putLots key (InstrumentLots.observe delta settlement m))
        else disposeLots key proceeds settlement rule delta left (b.putLots key m) := by
  obtain ⟨delta, hdelta⟩ := Dec.checkedNeg_total quantity
  have hentry : LotBook.requireEntry e key b = (.ok l, b) := by
    change (okOr _ _, b) = _
    rw [hl]
    rfl
  have htaken : LotBook.onEntry key (takeUnpriced quantity) b = (.ok left, b.putLots key m) := by
    rw [onEntry_run hl, htake]
  refine ⟨delta, ?_⟩
  unfold LotBook.dispose
  rw [Mut.lift_bind_of_ok (convert_ok.mpr hdelta), Mut.get_bind, Mut.lift_bind_of_ok (okOr_ok.mpr hrule),
    Mut.bind_of_ok hentry, Mut.bind_of_ok htaken]
  by_cases hz : left.val = 0
  · rw [if_pos (Dec.isZero_iff.mpr hz), if_pos hz, onEntry_putLots]
    rfl
  · rw [if_neg fun h => hz (Dec.isZero_iff.mp h), if_neg hz]
    rfl

section Outcomes
variable {delta : Quantity}

theorem disposeLots_of_rule {f : Fail DisposalError} (h : rule.apply ⟨m.lots, left⟩ = .error f) :
    disposeLots key proceeds settlement rule delta left (b.putLots key m) =
      (reraise .disposal (.error f), b.putLots key m) := by
  have hrelease : LotBook.onEntry key (releaseLots rule left) (b.putLots key m) =
      (reraise .disposal (.error f), b.putLots key m) := by
    rw [onEntry_putLots]
    unfold releaseLots
    rw [Mut.get_bind, h]
    cases f <;> rfl
  cases f <;> exact Mut.bind_of_error hrelease _

theorem disposeLots_of_sum {err : MoneyError} (h : rule.apply ⟨m.lots, left⟩ = .ok r)
    (hsum : accumulate m.releasedBasis r.basisReleased = .error err) :
    disposeLots key proceeds settlement rule delta left (b.putLots key m) =
      (.error (.error (.money err)), b.putLots key { m with lots := r.remaining }) := by
  refine Mut.bind_of_error ?_ _
  rw [onEntry_putLots, releaseLots_of_sum h hsum]

/-- The book once the lots are taken: the rule is recorded before the result is computed. -/
def taken (key : LotKey) (m : InstrumentLots) (r : DisposalResult) (sum : Money) (b : LotBook) : LotBook :=
  LotBook.putLots key { m with lots := r.remaining, releasedBasis := some sum } { b with appliedRule := some r.rule }

theorem disposeLots_of_ok {sum : Money} (h : rule.apply ⟨m.lots, left⟩ = .ok r)
    (hsum : accumulate m.releasedBasis r.basisReleased = .ok sum) :
    disposeLots key proceeds settlement rule delta left (b.putLots key m) =
      (LotBook.onEntry key (realise proceeds r.basisReleased) >>= fun _ =>
        LotBook.onEntry key (Mut.modify (InstrumentLots.observe delta settlement))) (taken key m r sum b) := by
  have hrelease : LotBook.onEntry key (releaseLots rule left) (b.putLots key m) =
      (.ok r, b.putLots key { m with lots := r.remaining, releasedBasis := some sum }) := by
    rw [onEntry_putLots, releaseLots_of_ok h hsum]
  exact Mut.bind_of_ok hrelease _

theorem disposeLots_of_result {sum : Money} {err : MoneyError} (h : rule.apply ⟨m.lots, left⟩ = .ok r)
    (hsum : accumulate m.releasedBasis r.basisReleased = .ok sum) (hgap : m.gap = none)
    (hresult : resultOf m proceeds r.basisReleased = .error err) :
    disposeLots key proceeds settlement rule delta left (b.putLots key m) =
      (.error (.error (.money err)), taken key m r sum b) := by
  rw [disposeLots_of_ok h hsum]
  refine Mut.bind_of_error ?_ _
  unfold taken
  rw [onEntry_putLots, realise_of_error (m := { m with lots := r.remaining, releasedBasis := some sum }) hgap hresult]

/-- The last step cannot fail. -/
theorem disposeLots_of_realise {sum : Money} {m' : InstrumentLots} (h : rule.apply ⟨m.lots, left⟩ = .ok r)
    (hsum : accumulate m.releasedBasis r.basisReleased = .ok sum)
    (hrealise : realise proceeds r.basisReleased { m with lots := r.remaining, releasedBasis := some sum } = (.ok (), m')) :
    ∃ b', disposeLots key proceeds settlement rule delta left (b.putLots key m) = (.ok (), b') := by
  rw [disposeLots_of_ok h hsum]
  have hpaid : LotBook.onEntry key (realise proceeds r.basisReleased) (taken key m r sum b) =
      (.ok (), LotBook.putLots key m' { b with appliedRule := some r.rule }) := by
    unfold taken
    rw [onEntry_putLots, hrealise]
  exact ⟨_, Mut.bind_of_ok hpaid _⟩

theorem taken_ne {sum : Money} (hl : b.entries[key]? = some l) (hne : r.remaining ≠ l.lots) : taken key m r sum b ≠ b := by
  intro heq
  have hat : (taken key m r sum b).lotsAt key = { m with lots := r.remaining, releasedBasis := some sum } := by
    unfold taken
    rw [lotsAt_putLots, Function.update_self]
  rw [heq, lotsAt_of_get hl] at hat
  exact hne (congrArg InstrumentLots.lots hat).symm

theorem lotsTear_iff (hl : b.entries[key]? = some l) (hne : left.val ≠ 0)
    (hm : (l.unpriced.val = 0 ∧ m = l) ∨
      (l.unpriced.val ≠ 0 ∧ m ≠ l ∧ m.gap ≠ none ∧ m.lots = l.lots ∧ m.releasedBasis = l.releasedBasis)) :
    LotsTear rule l left proceeds ↔ ∃ err t,
      disposeLots key proceeds settlement rule delta left (b.putLots key m) = (.error (.error err), t) ∧ t ≠ b := by
  have hlots : m.lots = l.lots := by
    rcases hm with ⟨-, rfl⟩ | ⟨-, -, -, hlots, -⟩
    · rfl
    · exact hlots
  have hreleased : m.releasedBasis = l.releasedBasis := by
    rcases hm with ⟨-, rfl⟩ | ⟨-, -, -, -, hreleased⟩
    · rfl
    · exact hreleased
  constructor
  · rintro (⟨hu, hr⟩ | ⟨hr, hsum⟩ | ⟨hu, hgap, hr, hsum, hresult⟩)
    -- the lots are as before, but the quantity without cost is gone
    · rw [← hlots] at hr
      refine ⟨_, _, disposeLots_of_rule hr, fun heq => ?_⟩
      rcases hm with ⟨hu', -⟩ | ⟨-, hml, -⟩
      · exact hu hu'
      · exact hml ((putLots_eq_iff hl).mp heq)
    · have hchanged := (apply_ok hr).changed hne
      rw [← hlots] at hr
      rw [← hreleased] at hsum
      refine ⟨_, _, disposeLots_of_sum hr hsum, fun heq => hchanged ?_⟩
      exact congrArg InstrumentLots.lots ((putLots_eq_iff hl).mp heq)
    · have hchanged := (apply_ok hr).changed hne
      obtain rfl : m = l := by
        rcases hm with ⟨-, hml⟩ | ⟨hu', -⟩
        · exact hml
        · exact absurd hu hu'
      exact ⟨_, _, disposeLots_of_result hr hsum hgap hresult, taken_ne hl hchanged⟩
  · rintro ⟨err, t, h, ht⟩
    rcases hr : rule.apply ⟨m.lots, left⟩ with f | r
    · rw [disposeLots_of_rule hr] at h
      obtain ⟨hf, rfl⟩ := Prod.mk.inj h
      cases f with
      | panic => cases hf
      | error e =>
        rcases hm with ⟨-, rfl⟩ | ⟨hu, -⟩
        · exact absurd ((putLots_eq_iff hl).mpr rfl) ht
        · exact .rule hu (hlots ▸ hr)
    · rcases hsum : accumulate m.releasedBasis r.basisReleased with err | sum
      · exact .released (hlots ▸ hr) (hreleased ▸ hsum)
      -- with a gap the result is not computed, and nothing is left to fail
      by_cases hgap : m.gap = none
      · rcases hm with ⟨hu, rfl⟩ | ⟨-, -, hgap', -⟩
        · rcases hresult : resultOf m proceeds r.basisReleased with err | total
          · exact .result hu hgap hr hsum hresult
          · obtain ⟨b', hok⟩ := disposeLots_of_realise hr hsum (realise_of_ok hgap hresult)
            rw [hok] at h
            cases h
        · exact absurd hgap hgap'
      · obtain ⟨b', hok⟩ := disposeLots_of_realise hr hsum (realise_gap hgap)
        rw [hok] at h
        cases h

end Outcomes

theorem disposalTears_iff (hrule : rules.disposalRule b.ruleVersion = some rule) (hl : b.entries[key]? = some l)
    (hu : 0 ≤ l.unpriced.val) (hq : 0 < quantity.val) : DisposalTears rule l quantity proceeds ↔ ∃ err t,
      LotBook.dispose e key quantity proceeds rules settlement b = (.error (.error err), t) ∧ t ≠ b := by
  obtain ⟨left, m, htake⟩ := takeUnpriced_total hu hq
  obtain ⟨delta, hrun⟩ := dispose_run hrule hl htake
  have htaken := takeUnpriced_ok htake
  rw [hrun]
  by_cases hz : left.val = 0
  · rw [if_pos hz]
    have hle := taken_whole htaken hq hz
    constructor
    · rintro ⟨left', hpos, hval, -⟩
      linarith
    · rintro ⟨err, t, h, -⟩
      cases h
  · rw [if_neg hz]
    obtain ⟨hpos, hval, hm⟩ := taken_rest htaken hu hq hz
    rw [← lotsTear_iff hl hz hm]
    constructor
    · rintro ⟨left', -, hval', htears⟩
      have heq : left' = left := Dec.ext_val (hval'.trans hval.symm)
      exact heq ▸ htears
    · intro htears
      exact ⟨left, hpos, hval, htears⟩

/-- A disposal without a rule or without a position fails before it writes. -/
theorem atomicAt_dispose (hu : 0 ≤ (b.lotsAt key).unpriced.val) (hq : 0 < quantity.val) :
    Mut.AtomicAt (LotBook.dispose e key quantity proceeds rules settlement) b ↔
      ∀ rule l, rules.disposalRule b.ruleVersion = some rule → b.entries[key]? = some l →
        ¬DisposalTears rule l quantity proceeds := by
  rw [Mut.atomicAt_iff]
  constructor
  · intro h rule l hrule hl htears
    rw [lotsAt_of_get hl] at hu
    exact h ((disposalTears_iff hrule hl hu hq).mp htears)
  · rintro h ⟨err, t, hx, hne⟩
    obtain ⟨delta, hdelta⟩ := Dec.checkedNeg_total quantity
    cases hrule : rules.disposalRule b.ruleVersion with
    | none =>
      unfold LotBook.dispose at hx
      rw [Mut.lift_bind_of_ok (convert_ok.mpr hdelta), Mut.get_bind, hrule] at hx
      exact hne (Prod.mk.inj hx).2.symm
    | some rule =>
      cases hl : b.entries[key]? with
      | none =>
        unfold LotBook.dispose at hx
        rw [Mut.lift_bind_of_ok (convert_ok.mpr hdelta), Mut.get_bind, Mut.lift_bind_of_ok (okOr_ok.mpr hrule)] at hx
        exact hne (atomicAt_requireEntry.mpr (fun l hl' => absurd hl' (by rw [hl]; exact Option.some_ne_none l |>.symm))
          err t hx)
      | some l =>
        rw [lotsAt_of_get hl] at hu
        exact h rule l hrule hl ((disposalTears_iff hrule hl hu hq).mpr ⟨err, t, hx, hne⟩)

/-- A disposal for proceeds that are computed in two steps. -/
theorem atomicAt_disposeFor {gross : Except MoneyError Money} {proceeds : Money → Except MoneyError Money}
    (hu : 0 ≤ (b.lotsAt key).unpriced.val) (hq : 0 < quantity.val) :
    Mut.AtomicAt (Mut.lift (convert .money gross) >>= fun gross =>
        Mut.lift (convert .money (proceeds gross)) >>= fun proceeds =>
        LotBook.dispose e key quantity proceeds rules settlement) b ↔
      ∀ g p rule l, gross = .ok g → proceeds g = .ok p → rules.disposalRule b.ruleVersion = some rule →
        b.entries[key]? = some l → ¬DisposalTears rule l quantity p := by
  constructor
  · intro h g p rule l hgross hproceeds
    have h := atomicAt_lift.mp (atomicAt_lift.mp h g (convert_ok.mpr hgross)) p (convert_ok.mpr hproceeds)
    exact (atomicAt_dispose hu hq).mp h rule l
  · intro h
    refine atomicAt_lift.mpr fun g hgross => atomicAt_lift.mpr fun p hproceeds => ?_
    exact (atomicAt_dispose hu hq).mpr fun rule l => h g p rule l (convert_ok.mp hgross) (convert_ok.mp hproceeds)

end Disposal

end Atomicity
end Iaam
