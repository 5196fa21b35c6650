import Iaam.Lib.Runs
import Iaam.Projection.Offers

/-! The book of the offers over any sequence of calls: the three quantities of a submission are the sums of the
accepted facts about it, and what is claimed of it never exceeds what was submitted. -/

namespace Iaam
namespace OfferBook
open Outcome Runs

/-- A fact that is accepted, and the state it leaves of its submission. -/
inductive Accepts (book : OfferBook) : OfferExerciseAction → SubmissionState → Prop
  | submitted {submission : OfferSubmissionId} {window : OfferWindowId} {instrument : InstrumentId} {quantity : Quantity}
      (hpositive : 0 < quantity.val) (hnew : book.submissions[submission]? = none) :
      Accepts book (.submitted submission window instrument quantity) ⟨window, instrument, quantity, .zero, .zero⟩
  | cancelled {submission : OfferSubmissionId} {quantity cancelled : Quantity} {state : SubmissionState}
      (hpositive : 0 < quantity.val) (hstate : book.submissions[submission]? = some state)
      (hsum : cancelled.val = state.cancelled.val + quantity.val)
      (hclaim : cancelled.val + state.settled.val ≤ state.submitted.val) :
      Accepts book (.cancelled submission quantity) { state with cancelled }
  | settled {terms : OfferSettlement} {settled : Quantity} {state : SubmissionState}
      (hpositive : 0 < terms.quantity.val) (hstate : book.submissions[terms.submission]? = some state)
      (hsum : settled.val = state.settled.val + terms.quantity.val)
      (hclaim : state.cancelled.val + settled.val ≤ state.submitted.val) :
      Accepts book (.settled terms) { state with settled }

/-- The step of an accepted call. -/
def Took (book : OfferBook) (action : OfferExerciseAction) (book' : OfferBook) : Prop :=
  ∃ state, Accepts book action state ∧ book' = put action.submission state book

/-- Nothing is claimed beyond what was submitted. -/
structure Sound (state : SubmissionState) : Prop where
  cancelled : 0 ≤ state.cancelled.val
  settled : 0 ≤ state.settled.val
  claimed : state.cancelled.val + state.settled.val ≤ state.submitted.val

/-- The submissions of the book are sound. -/
def Covered (book : OfferBook) : Prop :=
  ∀ (submission : OfferSubmissionId) (state : SubmissionState),
    book.submissions[submission]? = some state → Sound state

section
variable {book book' : OfferBook} {action : OfferExerciseAction} {submission : OfferSubmissionId}
  {state : SubmissionState} {cancelled settled quantity : Quantity}

theorem get_put_self : (put submission state book).submissions[submission]? = some state := Tree.get_insert_self

theorem get_put_of_ne {submission' : OfferSubmissionId} (h : submission ≠ submission') :
    (put submission state book).submissions[submission']? = book.submissions[submission']? :=
  Tree.get_insert_of_ne h

theorem checkClaim_ok :
    checkClaim submission state cancelled settled = .ok () → cancelled.val + settled.val ≤ state.submitted.val := by
  intro h
  obtain ⟨claimed, hclaimed, h⟩ := bind_ok.mp h
  split at h
  · cases h
  · next hle =>
    rw [← Dec.checkedAdd_ok.mp (mapError_ok.mp hclaimed)]
    exact Dec.le_iff.mp (not_lt.mp hle)

theorem stateMut_of_none (h : book.submissions[submission]? = none) :
    stateMut submission book = (.error (.error (.unknownSubmission submission)), book) := by
  change (okOr _ book.submissions[submission]?, book) = _
  rw [h]
  rfl

theorem stateMut_of_some (h : book.submissions[submission]? = some state) :
    stateMut submission book = (.ok state, book) := by
  change (okOr _ book.submissions[submission]?, book) = _
  rw [h]
  rfl

/-- A claim is written, or refused with nothing written. -/
theorem claim_cases {sum : Except NumericError Quantity} {check : Quantity → Except OfferError Unit}
    {write : Quantity → OfferBook → OfferBook} {book : OfferBook} :
    (∃ claimed, sum = .ok claimed ∧ check claimed = .ok () ∧
      (do
        let claimed ← Mut.lift (convert .numeric sum)
        Mut.lift (convert id (check claimed))
        Mut.modify (write claimed) : Step Unit) book = (.ok (), write claimed book)) ∨
    ∃ e, (do
      let claimed ← Mut.lift (convert .numeric sum)
      Mut.lift (convert id (check claimed))
      Mut.modify (write claimed) : Step Unit) book = (.error (.error e), book) := by
  cases sum with
  | error e => exact .inr ⟨.numeric e, rfl⟩
  | ok claimed =>
    cases hcheck : check claimed with
    | error e =>
      refine .inr ⟨e, ?_⟩
      rw [Mut.lift_bind_of_ok (convert_ok.mpr rfl), Mut.lift_bind_of_error (convert_error.mpr ⟨e, hcheck, rfl⟩)]
      rfl
    | ok done =>
      refine .inl ⟨claimed, rfl, hcheck, ?_⟩
      rw [Mut.lift_bind_of_ok (convert_ok.mpr rfl), Mut.lift_bind_of_ok (convert_ok.mpr hcheck)]
      rfl

/-- One call: the fact is accepted, or the call is refused and the book is as before. -/
theorem apply_cases (action : OfferExerciseAction) (book : OfferBook) :
    (∃ book', apply action book = (.ok (), book') ∧ Took book action book') ∨
      ∃ e, apply action book = (.error (.error e), book) := by
  by_cases hpositive : action.quantity.isPositive = true
  · have hquantity := Dec.isPositive_iff.mp hpositive
    simp only [apply, hpositive, Bool.not_true, Bool.false_eq_true, if_false]
    cases action with
    | submitted submission window instrument quantity =>
      cases hnew : book.submissions[submission]? with
      | none =>
        refine .inl ⟨_, ?_, _, .submitted hquantity hnew, rfl⟩
        change (if book.submissions[submission]?.isSome then refuse _ else Mut.modify _ : Step Unit) book = _
        rw [hnew]
        rfl
      | some state =>
        refine .inr ⟨.duplicateSubmission submission, ?_⟩
        change (if book.submissions[submission]?.isSome then refuse _ else Mut.modify _ : Step Unit) book = _
        rw [hnew]
        rfl
    | cancelled submission quantity =>
      cases hstate : book.submissions[submission]? with
      | none =>
        exact .inr ⟨.unknownSubmission submission, Mut.bind_of_error (stateMut_of_none hstate) _⟩
      | some state =>
        have hfound := stateMut_of_some hstate
        rcases claim_cases with ⟨cancelled, hsum, hcheck, hrun⟩ | ⟨e, hrun⟩
        · exact .inl ⟨_, (Mut.bind_of_ok hfound _).trans hrun, _,
            .cancelled hquantity hstate (Dec.checkedAdd_ok.mp hsum) (checkClaim_ok hcheck), rfl⟩
        · exact .inr ⟨e, (Mut.bind_of_ok hfound _).trans hrun⟩
    | settled terms =>
      cases hstate : book.submissions[terms.submission]? with
      | none =>
        exact .inr ⟨.unknownSubmission terms.submission, Mut.bind_of_error (stateMut_of_none hstate) _⟩
      | some state =>
        have hfound := stateMut_of_some hstate
        rcases claim_cases with ⟨settled, hsum, hcheck, hrun⟩ | ⟨e, hrun⟩
        · exact .inl ⟨_, (Mut.bind_of_ok hfound _).trans hrun, _,
            .settled hquantity hstate (Dec.checkedAdd_ok.mp hsum) (checkClaim_ok hcheck), rfl⟩
        · exact .inr ⟨e, (Mut.bind_of_ok hfound _).trans hrun⟩
  · simp only [apply, hpositive, Bool.not_false, if_true]
    exact .inr ⟨_, rfl⟩

theorem apply_ok (h : apply action book = (.ok (), book')) : Took book action book' := by
  rcases apply_cases action book with ⟨taken, hok, htook⟩ | ⟨e, herror⟩
  · cases hok.symm.trans h
    exact htook
  · cases herror.symm.trans h

/-- A failing call leaves the book as it was. -/
theorem apply_error {e : Fail OfferError} (h : apply action book = (.error e, book')) : book' = book := by
  rcases apply_cases action book with ⟨taken, hok, -⟩ | ⟨e', herror⟩
  · cases hok.symm.trans h
  · cases herror.symm.trans h
    rfl

/-! ### What the book covers -/

theorem Accepts.sound (h : Accepts book action state) (hbook : Covered book) : Sound state := by
  cases h with
  | submitted hpositive _ => exact ⟨le_rfl, le_rfl, by simpa using hpositive.le⟩
  | cancelled hpositive hstate hsum hclaim =>
    have hold := hbook _ _ hstate
    exact ⟨by rw [hsum]; exact add_nonneg hold.cancelled hpositive.le, hold.settled, hclaim⟩
  | settled hpositive hstate hsum hclaim =>
    have hold := hbook _ _ hstate
    exact ⟨hold.cancelled, by rw [hsum]; exact add_nonneg hold.settled hpositive.le, hclaim⟩

theorem Took.covered (h : Took book action book') (hbook : Covered book) : Covered book' := by
  obtain ⟨state, haccepts, rfl⟩ := h
  intro submission state' hstate'
  by_cases hsame : action.submission = submission
  · subst hsame
    cases get_put_self.symm.trans hstate'
    exact haccepts.sound hbook
  · rw [get_put_of_ne hsame] at hstate'
    exact hbook submission state' hstate'

theorem covered_empty : Covered .empty := by
  intro submission state h
  cases Std.ExtTreeMap.getElem?_empty.symm.trans h

/-- The accepted calls are a run from the empty book. -/
theorem run_afterCalls (actions : List OfferExerciseAction) (book : OfferBook) :
    Run Took book (acceptedCalls apply actions book) (afterCalls actions book) :=
  (run_acceptedCalls (fun _ _ _ _ h => apply_error h) actions book).map id fun _ h => apply_ok h

theorem covered_afterCalls (actions : List OfferExerciseAction) : Covered (afterCalls actions .empty) :=
  (run_afterCalls actions .empty).keeps (fun hbook h => h.covered hbook) covered_empty

/-- What is left of a sound submission is computed, and it is not negative. -/
theorem Sound.left (h : Sound state) : ∃ left, state.left = .ok left ∧ 0 ≤ left.val ∧
    left.val = state.submitted.val - (state.cancelled.val + state.settled.val) := by
  obtain ⟨hcancelled, hsettled, hclaimed⟩ := h
  obtain ⟨claimed, hadd, hval⟩ := Dec.exists_checkedAdd state.submitted (add_nonneg hcancelled hsettled) hclaimed
  rw [← hval] at hclaimed
  obtain ⟨left, hsub, hleft⟩ := Dec.exists_checkedSub (hval ▸ add_nonneg hcancelled hsettled) hclaimed
  refine ⟨left, bind_ok.mpr ⟨claimed, hadd, hsub⟩, ?_, by rw [hleft, hval]⟩
  rw [hleft]
  exact sub_nonneg.mpr hclaimed

theorem Sound.outstanding (h : Sound state) : state.invariantHolds = true ∧ 0 ≤ state.outstanding.val ∧
    state.outstanding.val = state.submitted.val - (state.cancelled.val + state.settled.val) := by
  obtain ⟨left, hleft, hnonneg, hval⟩ := h.left
  have hnegative : left.isNegative = false := by
    rw [← Bool.not_eq_true, Dec.isNegative_iff]
    exact not_lt.mpr hnonneg
  simp only [SubmissionState.invariantHolds, SubmissionState.outstanding, hleft, hnegative]
  exact ⟨rfl, hnonneg, hval⟩

/-- Nothing outstanding is negative, also of a submission that was never made. -/
theorem Covered.outstanding (h : Covered book) (submission : OfferSubmissionId) :
    0 ≤ (book.outstanding submission).val := by
  unfold OfferBook.outstanding
  cases hstate : book.submissions[submission]? with
  | none => exact le_rfl
  | some state => exact (h submission state hstate).outstanding.2.1

/-! ### What the quantities are -/

/-- What was submitted of a submission, cancelled and settled. -/
def totals (submission : OfferSubmissionId) (book : OfferBook) : ℚ × ℚ × ℚ :=
  match book.submissions[submission]? with
  | some state => (state.submitted.val, state.cancelled.val, state.settled.val)
  | none => 0

/-- What a fact says of a submission. -/
def share (submission : OfferSubmissionId) (action : OfferExerciseAction) : ℚ × ℚ × ℚ :=
  if action.submission = submission then
    match action with
    | .submitted _ _ _ quantity => (quantity.val, 0, 0)
    | .cancelled _ quantity => (0, quantity.val, 0)
    | .settled terms => (0, 0, terms.quantity.val)
  else 0

theorem Took.totals (h : Took book action book') (submission : OfferSubmissionId) :
    totals submission book' = OfferBook.totals submission book + share submission action := by
  obtain ⟨state, haccepts, rfl⟩ := h
  unfold OfferBook.totals share
  by_cases hsame : action.submission = submission
  · subst hsame
    rw [get_put_self, if_pos rfl]
    cases haccepts with
    | submitted _ hnew => simp [OfferExerciseAction.submission, hnew]
    | cancelled _ hstate hsum _ => simp [OfferExerciseAction.submission, hstate, hsum]
    | settled _ hstate hsum _ => simp [OfferExerciseAction.submission, hstate, hsum]
  · rw [get_put_of_ne hsame, if_neg hsame, add_zero]

/-- The quantities of a submission are the sums of the accepted facts about it. -/
theorem totals_afterCalls (actions : List OfferExerciseAction) (submission : OfferSubmissionId) :
    totals submission (afterCalls actions .empty) =
      ((acceptedCalls apply actions .empty).map (share submission)).sum := by
  have hadds := (run_afterCalls actions .empty).adds (totals submission) (share submission) fun _ h => h.totals submission
  have hempty : totals submission .empty = 0 := rfl
  rw [hadds, hempty, zero_add]

/-! ### The book of a report -/

theorem covered_throughDate {events : List Event} {asOf : Date} (h : throughDate events asOf = .ok book) :
    Covered book := by
  refine (foldlM_ok.mp h).keeps (fun {s e t} hbook hstep => ?_) covered_empty
  unfold takeEvent at hstep
  split at hstep
  · split at hstep
    · exact (apply_ok (Mut.onCopy_ok.mp hstep)).covered hbook
    · cases hstep
      exact hbook
  · cases hstep
    exact hbook

/-! ### The result -/

end

/-- Ten units are submitted, six are settled, and of the four that are left five cannot be cancelled but three can. -/
def partlySettled : List OfferExerciseAction :=
  [.submitted ⟨1⟩ ⟨7⟩ ⟨2⟩ (.ofInt64 10), .settled ⟨⟨1⟩, ⟨2⟩, ⟨3⟩, .ofInt64 6, ⟨⟨60000, by decide⟩, .rub⟩, none, none⟩,
    .cancelled ⟨1⟩ (.ofInt64 5), .cancelled ⟨1⟩ (.ofInt64 3)]

end OfferBook
end Iaam
