import Iaam.Event.Validate
import Iaam.Lib.Pairs

/-! Exactly the listed legs: an accepted list of legs is, in some order, leg by leg what was expected. -/

namespace Iaam
namespace LegMatching

/-- The legs not taken yet. -/
def free (legs : List Leg) (taken : List Bool) : List Leg :=
  ((legs.zip taken).filter fun p => !p.2).map Prod.fst

theorem free_replicate (legs : List Leg) : free legs (List.replicate legs.length false) = legs :=
  Pairs.unmarked_replicate legs

/-- Taking a free leg takes it out of the free ones. -/
theorem free_set {legs : List Leg} {taken : List Bool} {i : Nat} {leg : Leg} (hleg : legs[i]? = some leg)
    (hfree : taken[i]? = some false) : (free legs taken).Perm (leg :: free legs (taken.set i true)) := by
  obtain ⟨hbefore, hafter⟩ := Pairs.unmarked_set hleg hfree
  change (Pairs.unmarked legs taken).Perm (leg :: Pairs.unmarked legs (taken.set i true))
  rw [hbefore, hafter]
  exact List.perm_middle

theorem legs_of_assign {legs : List Leg} {expected : List LegExpectation} {taken : List Bool}
    (h : assign legs expected taken = true) (hlen : taken.length = legs.length)
    (hcount : (free legs taken).length = expected.length) :
    ∃ legs', legs'.Perm (free legs taken) ∧ List.Forall₂ (fun leg x => legMatches leg x = true) legs' expected := by
  induction expected generalizing taken with
  | nil =>
    rw [List.length_nil, List.length_eq_zero_iff] at hcount
    exact ⟨[], by rw [hcount], .nil⟩
  | cons x expected ih =>
    unfold assign at h
    obtain ⟨⟨leg, i⟩, hmem, h⟩ := List.any_eq_true.mp h
    simp only [Bool.and_eq_true, Bool.not_eq_true'] at h
    obtain ⟨⟨hfree, hmatch⟩, hrest⟩ := h
    have hleg : legs[i]? = some leg := by
      have := List.mem_zipIdx' hmem
      rw [this.2]
      exact List.getElem?_eq_getElem this.1
    have hi : i < taken.length := by
      rw [hlen]
      exact (List.mem_zipIdx' hmem).1
    have hfree' : taken[i]? = some false := by
      rw [List.getD_eq_getElem?_getD, List.getElem?_eq_getElem hi, Option.getD_some] at hfree
      rw [List.getElem?_eq_getElem hi, hfree]
    have hset := free_set hleg hfree'
    have hcount' : (free legs (taken.set i true)).length = expected.length := by
      have := hset.length_eq
      simp only [List.length_cons] at this hcount
      omega
    obtain ⟨legs', hperm, hforall⟩ := ih hrest (by rw [List.length_set, hlen]) hcount'
    exact ⟨leg :: legs', (hperm.cons leg).trans hset.symm, .cons hmatch hforall⟩

/-- The search gives up no choice that can be completed: where the free legs can be told off one to one, it finds a way. -/
theorem assign_of_legs {legs legs' : List Leg} {expected : List LegExpectation} {taken : List Bool}
    (hperm : legs'.Perm (free legs taken)) (hfits : List.Forall₂ (fun leg x => legMatches leg x = true) legs' expected) :
    assign legs expected taken = true := by
  induction hfits generalizing taken with
  | nil => rfl
  | @cons leg x legs' expected hmatch _ ih =>
    obtain ⟨i, hleg, hfree⟩ := Pairs.mem_unmarked.mp (hperm.mem_iff.mp List.mem_cons_self)
    unfold assign
    refine List.any_eq_true.mpr ⟨(leg, i), List.mem_zipIdx_iff_getElem?.mpr hleg, ?_⟩
    have hrest : assign legs expected (taken.set i true) = true := ih (hperm.trans (free_set hleg hfree)).cons_inv
    simp only [List.getD_eq_getElem?_getD, hfree, Option.getD_some, Bool.not_false, Bool.true_and, hmatch, hrest]

theorem expectLegs_ok {legs : List Leg} {name : String} {expected : List LegExpectation} :
    expectLegs legs name expected = .ok () ↔ Pairs.Paired (fun leg x => legMatches leg x = true) legs expected := by
  have hall := free_replicate legs
  unfold expectLegs
  constructor
  · intro h
    split at h
    · next hc =>
      obtain ⟨hlen, hassign⟩ := hc
      obtain ⟨legs', hperm, hforall⟩ := legs_of_assign hassign List.length_replicate (by rw [hall, hlen])
      exact ⟨legs', hall ▸ hperm, hforall⟩
    · cases h
  · intro h
    obtain ⟨legs', hperm, hforall⟩ := h
    exact if_pos ⟨Pairs.Paired.length_eq ⟨legs', hperm, hforall⟩, assign_of_legs (hall.symm ▸ hperm) hforall⟩

theorem legs_of_expectLegs {legs : List Leg} {name : String} {expected : List LegExpectation}
    (h : expectLegs legs name expected = .ok ()) :
    ∃ legs', legs'.Perm legs ∧ List.Forall₂ (fun leg x => legMatches leg x = true) legs' expected :=
  expectLegs_ok.mp h

/-- The legs are accepted exactly when every expectation has a leg of its own that meets it and no leg is left, and the
    order of the legs and of the expectations makes no difference. -/
theorem expectLegs_iff (legs : List Leg) (name : String) (expected : List LegExpectation) :
    (expectLegs legs name expected = .ok () ↔
      ∃ σ : Fin expected.length ≃ Fin legs.length, ∀ i, legMatches (legs.get (σ i)) (expected.get i) = true) ∧
      ∀ legs' expected', legs'.Perm legs → expected'.Perm expected →
        (expectLegs legs' name expected' = .ok () ↔ expectLegs legs name expected = .ok ()) := by
  refine ⟨expectLegs_ok.trans Pairs.paired_iff, fun legs' expected' hlegs hexpected => ?_⟩
  rw [expectLegs_ok, expectLegs_ok]
  exact Pairs.paired_perm hlegs hexpected

/-! ### What a matched leg has -/

theorem differs_eq_false {α : Type} [DecidableEq α] {actual : Option α} {w : α} (h : differs actual (some w) = false) :
    actual = some w := by
  simpa [differs] using h

theorem legMatches_iff {leg : Leg} {x : LegExpectation} : legMatches leg x = true ↔
    leg.kind = x.kind ∧ leg.account = x.account ∧ differs leg.instrument x.instrument = false ∧
      differs leg.custody x.custody = false ∧ differs leg.money x.money = false ∧
      differs leg.quantity x.quantity = false := by
  unfold legMatches firstDifference
  split_ifs <;> simp_all

theorem matches_principalLeg {leg : Leg} {account : AccountId} {instrument : InstrumentId} {money : Money}
    (h : legMatches leg (principalLeg account instrument money) = true) :
    leg.kind = .principal ∧ leg.account = account ∧ leg.money = some money := by
  obtain ⟨hk, ha, -, -, hm, -⟩ := legMatches_iff.mp h
  exact ⟨hk, ha, differs_eq_false hm⟩

theorem matches_cashLeg {leg : Leg} {account : AccountId} {money : Money}
    (h : legMatches leg (cashLeg account money) = true) :
    leg.kind = .cash ∧ leg.account = account ∧ leg.money = some money := by
  obtain ⟨hk, ha, -, -, hm, -⟩ := legMatches_iff.mp h
  exact ⟨hk, ha, differs_eq_false hm⟩

theorem matches_securityLeg {leg : Leg} {account : AccountId} {custody : CustodyId} {instrument : InstrumentId}
    {quantity : Quantity} (h : legMatches leg (securityLeg account custody instrument quantity) = true) :
    leg.kind = .securityQuantity ∧ leg.account = account ∧ leg.instrument = some instrument ∧
      leg.quantity = some quantity := by
  obtain ⟨hk, ha, hi, -, -, hq⟩ := legMatches_iff.mp h
  exact ⟨hk, ha, differs_eq_false hi, differs_eq_false hq⟩

end LegMatching
end Iaam
