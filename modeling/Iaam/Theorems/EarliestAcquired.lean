import Iaam.Theorems.LotSteps

/-! The lower bound of ownership. It is kept apart from the lots, and an acquisition without a date makes it unknown for
good: no step of the book moves it forward. -/

namespace Iaam
namespace EarliestAcquired
open Outcome LotSteps InstrumentLots Runs

/-! ### Histories of acquisition -/

/-- The history goes on: what is unknown stays unknown, and the earliest date moves only back. -/
structure GoesOn (h h' : AcquisitionHistory) : Prop where
  undated : h.undated = true → h'.undated = true
  earliest : ∀ d, h.earliest = some d → ∃ d', h'.earliest = some d' ∧ d' ≤ d

namespace GoesOn
variable {g h i : AcquisitionHistory}

theorem refl (h : AcquisitionHistory) : GoesOn h h := ⟨id, fun d hd => ⟨d, hd, le_rfl⟩⟩

theorem trans (h₁ : GoesOn g h) (h₂ : GoesOn h i) : GoesOn g i where
  undated hg := h₂.undated (h₁.undated hg)
  earliest d hd := by
    obtain ⟨d', hd', hle⟩ := h₁.earliest d hd
    obtain ⟨d'', hd'', hle'⟩ := h₂.earliest d' hd'
    exact ⟨d'', hd'', hle'.trans hle⟩

theorem observe (h : AcquisitionHistory) (acquired : Option Date) : GoesOn h (h.observe acquired) := by
  cases acquired with
  | none => exact ⟨fun _ => rfl, fun d hd => ⟨d, hd, le_rfl⟩⟩
  | some date =>
    refine ⟨id, fun d hd => ⟨min d date, ?_, min_le_left d date⟩⟩
    simp only [AcquisitionHistory.observe, hd]

theorem observeAll (lots : List Lot) (h : AcquisitionHistory) :
    GoesOn h (lots.foldl (fun h lot => h.observe lot.acquired) h) := by
  induction lots generalizing h with
  | nil => exact refl h
  | cons lot lots ih => exact (observe h lot.acquired).trans (ih _)

end GoesOn

/-- What an acquisition leaves: a date no later than its own, or nothing known when it has none. -/
def Covers (h : AcquisitionHistory) : Option Date → Prop
  | some date => ∃ d', h.earliest = some d' ∧ d' ≤ date
  | none => h.undated = true

theorem covers_observe (h : AcquisitionHistory) (acquired : Option Date) : Covers (h.observe acquired) acquired := by
  cases acquired with
  | none => rfl
  | some date =>
    cases hearliest : h.earliest with
    | none => exact ⟨date, by simp only [AcquisitionHistory.observe, hearliest], le_rfl⟩
    | some known => exact ⟨min known date, by simp only [AcquisitionHistory.observe, hearliest], min_le_right _ _⟩

theorem Covers.goesOn {h h' : AcquisitionHistory} {acquired : Option Date} (hc : Covers h acquired) (hg : GoesOn h h') :
    Covers h' acquired := by
  cases acquired with
  | none => exact hg.undated hc
  | some date =>
    obtain ⟨d, hd, hle⟩ := hc
    obtain ⟨d', hd', hle'⟩ := hg.earliest d hd
    exact ⟨d', hd', hle'.trans hle⟩

/-- Every acquisition of a list that is observed is covered. -/
theorem covers_observeAll {lots : List Lot} {lot : Lot} (hlot : lot ∈ lots) (h : AcquisitionHistory) :
    Covers (lots.foldl (fun h lot => h.observe lot.acquired) h) lot.acquired := by
  induction lots generalizing h with
  | nil => cases hlot
  | cons first lots ih =>
    rcases List.mem_cons.mp hlot with rfl | hlot
    · exact (covers_observe h lot.acquired).goesOn (.observeAll lots _)
    · exact ih hlot _

/-! ### Entries -/

/-- A quantity without cost was observed as an acquisition without a date. -/
def Marked (l : InstrumentLots) : Prop := l.unpriced.val ≠ 0 → l.acquisitions.undated = true

/-- The entry goes on. -/
structure Forward (l l' : InstrumentLots) : Prop where
  history : GoesOn l.acquisitions l'.acquisitions
  marked : Marked l → Marked l'

theorem Forward.refl (l : InstrumentLots) : Forward l l := ⟨.refl _, id⟩

theorem Forward.trans {l m n : InstrumentLots} (h : Forward l m) (h' : Forward m n) : Forward l n :=
  ⟨h.history.trans h'.history, fun hl => h'.marked (h.marked hl)⟩

instance : Std.Refl Forward := ⟨Forward.refl⟩
instance : IsTrans InstrumentLots Forward := ⟨fun _ _ _ => Forward.trans⟩

theorem forward_of_unpriced {l l' : InstrumentLots} (hunpriced : l'.unpriced = l.unpriced)
    (hhistory : GoesOn l.acquisitions l'.acquisitions) : Forward l l' :=
  ⟨hhistory, fun hl hne => hhistory.undated (hl (hunpriced ▸ hne))⟩

theorem forward_of_eq {l l' : InstrumentLots} (hunpriced : l'.unpriced = l.unpriced)
    (hhistory : l'.acquisitions = l.acquisitions) : Forward l l' :=
  forward_of_unpriced hunpriced (hhistory ▸ .refl _)

section Entry
variable {settlement : SettlementKnowledge}

theorem keeps_total {total : InstrumentLots → Option Money} {put : Money → InstrumentLots → InstrumentLots}
    (hput : ∀ sum l, (put sum l).unpriced = l.unpriced ∧ (put sum l).acquisitions = l.acquisitions) (amount : Money) :
    Mut.Keeps Forward (addTotal total put amount) :=
  .bind Mut.keeps_get fun _ =>
    .bind (Mut.keeps_lift _) fun sum => Mut.keeps_modify fun l => forward_of_eq (hput sum l).1 (hput sum l).2

theorem keeps_payment (amount : Money) : Mut.Keeps Forward (addReceived amount) := by
  refine .bind Mut.keeps_get fun l => .bind (Mut.keeps_lift _) fun total => ?_
  split
  · exact keeps_total (fun _ _ => by exact ⟨rfl, rfl⟩) amount
  · refine .bind (.bind Mut.keeps_get fun l => ?_) fun rest => fun l => forward_of_eq rfl rfl
    split
    · exact Mut.keeps_pure _
    · refine .bind (Mut.keeps_lift _) fun share => ?_
      exact .bind (keeps_total (fun _ _ => by exact ⟨rfl, rfl⟩) share) fun _ => Mut.keeps_lift _

theorem keeps_acquire (lot : Lot) : Mut.Keeps Forward (acquire lot settlement) :=
  .bind (keeps_total (fun _ _ => by exact ⟨rfl, rfl⟩) _) fun _ =>
    Mut.keeps_modify fun _ => forward_of_unpriced rfl (.observe _ _)

theorem keeps_restorePriced (lot : Lot) : Mut.Keeps Forward (restorePriced lot settlement) :=
  .bind (keeps_total (fun _ _ => by exact ⟨rfl, rfl⟩) _) fun _ =>
    Mut.keeps_modify fun _ => forward_of_unpriced rfl (.observe _ _)

/-- A quantity without cost makes the bound unknown. -/
theorem keeps_restoreUnpriced (quantity : Quantity) : Mut.Keeps Forward (restoreUnpriced quantity settlement) :=
  .bind Mut.keeps_get fun _ => .bind (Mut.keeps_lift _) fun _ =>
    Mut.keeps_modify fun _ => ⟨.observe _ none, fun _ _ => rfl⟩

/-- What is left of a quantity without cost was there before. -/
theorem forward_of_taken {quantity : Quantity} (hq : 0 < quantity.val) {left : Dec} {l l' : InstrumentLots}
    (h : takeUnpriced quantity l = (.ok left, l')) : Forward l l' := by
  rcases takeUnpriced_ok h with ⟨-, -⟩ | ⟨hne, -, -⟩
  · exact .refl l
  · refine ⟨.refl _, fun hl _ => hl fun h0 => hne ?_⟩
    have hmin : min l.unpriced quantity = l.unpriced := min_eq_left (Dec.le_iff.mpr (h0.trans_le hq.le))
    rw [hmin, h0]

theorem keeps_releaseLots (rule : LotDisposalRule) (left : Dec) : Mut.Keeps Forward (releaseLots rule left) :=
  .bind Mut.keeps_get fun _ => .bind (Mut.keeps_lift _) fun _ =>
    .bind (Mut.keeps_modify fun _ => forward_of_eq rfl rfl) fun _ =>
      .bind (keeps_total (fun _ _ => by exact ⟨rfl, rfl⟩) _) fun _ => Mut.keeps_pure _

theorem keeps_realise (proceeds basisReleased : Money) : Mut.Keeps Forward (realise proceeds basisReleased) := by
  refine .bind Mut.keeps_get fun l => ?_
  split
  · exact Mut.keeps_pure _
  · exact .bind (Mut.keeps_lift _) fun _ => keeps_total (fun _ _ => by exact ⟨rfl, rfl⟩) _

theorem keeps_observe (delta : Quantity) :
    Mut.Keeps Forward (Mut.modify (InstrumentLots.observe delta settlement) : InstrumentLots.Step Unit) :=
  Mut.keeps_modify fun _ => forward_of_eq rfl rfl

theorem keeps_amortise (rule : AmortisationRule) (allocation : BasisAllocation) (compensation : Money) :
    Mut.Keeps Forward (amortise rule allocation compensation) := by
  refine .bind ?_ fun returned => .bind (keeps_payment compensation) fun _ => .bind ?_ fun _ =>
    .bind (Mut.keeps_lift _) fun result => .bind Mut.keeps_get fun l => ?_
  · cases allocation with
    | known share evidence =>
      refine .bind Mut.keeps_get fun _ => .bind (Mut.keeps_lift _) fun _ => ?_
      exact .bind (Mut.keeps_modify fun _ => forward_of_eq rfl rfl) fun _ => Mut.keeps_pure _
    | unknown why => exact .bind (Mut.keeps_modify fun _ => forward_of_eq rfl rfl) fun _ => Mut.keeps_pure _
  · unfold addReturned
    split
    · exact Mut.keeps_pure _
    · exact keeps_total (fun _ _ => by exact ⟨rfl, rfl⟩) returned
  · split
    · exact Mut.keeps_pure _
    · exact keeps_total (fun _ _ => by exact ⟨rfl, rfl⟩) result

theorem keeps_handOver (carried : Money) (delta : Quantity) :
    Mut.Keeps Forward (handOver carried delta settlement) :=
  .bind (Mut.keeps_modify fun _ => forward_of_eq rfl rfl) fun _ =>
    .bind (keeps_total (fun _ _ => by exact ⟨rfl, rfl⟩) carried) fun _ => keeps_observe delta

theorem keeps_takeOver (carried : Money) (moved : List Lot) (quantity : Quantity) :
    Mut.Keeps Forward (takeOver carried moved quantity settlement) :=
  .bind (keeps_total (fun _ _ => by exact ⟨rfl, rfl⟩) carried) fun _ => .bind (keeps_observe quantity) fun _ =>
    Mut.keeps_modify fun _ => forward_of_unpriced rfl (.observeAll _ _)

/-- The successor has observed every lot that moved. -/
theorem covers_takeOver {carried : Money} {moved : List Lot} {quantity : Quantity} {l l' : InstrumentLots}
    (h : takeOver carried moved quantity settlement l = (.ok (), l')) {lot : Lot} (hlot : lot ∈ moved) :
    Covers l'.acquisitions lot.acquired := by
  obtain ⟨m, -, h⟩ := Mut.seq_ok.mp h
  rw [Mut.modify_bind] at h
  cases Mut.modify_ok.mp h
  exact covers_observeAll hlot _

end Entry

/-! ### Steps of the book -/

/-- Every position goes on. -/
def Forwards (b b' : LotBook) : Prop := ∀ key, Forward (b.lotsAt key) (b'.lotsAt key)

theorem Forwards.refl (b : LotBook) : Forwards b b := fun _ => .refl _

theorem Forwards.trans {b c d : LotBook} (h : Forwards b c) (h' : Forwards c d) : Forwards b d :=
  fun key => (h key).trans (h' key)

instance : Std.Refl Forwards := ⟨Forwards.refl⟩
instance : IsTrans LotBook Forwards := ⟨fun _ _ _ => Forwards.trans⟩

section Book
variable {e : Event} {rules : RuleRegistry} {settlement : SettlementKnowledge} {b b' : LotBook} {key : LotKey}

theorem forwards_put {l : InstrumentLots} (h : Forward (b.lotsAt key) l) : Forwards b (b.putLots key l) := by
  intro k
  rw [lotsAt_putLots, Function.update_apply]
  split
  · next hk => exact hk ▸ h
  · exact .refl _

theorem keeps_onEntry {α : Type} {x : InstrumentLots.Step α} (hx : Mut.Keeps Forward x) :
    Mut.Keeps Forwards (LotBook.onEntry key x) :=
  fun b => forwards_put (hx (b.lotsAt key))

theorem forwards_of_dispose {quantity : Quantity} {proceeds : Money} (hq : 0 < quantity.val)
    (h : LotBook.dispose e key quantity proceeds rules settlement b = (.ok (), b')) : Forwards b b' := by
  obtain ⟨delta, -, h⟩ := Mut.lift_bind_ok.mp h
  rw [Mut.get_bind] at h
  obtain ⟨rule, -, h⟩ := Mut.lift_bind_ok.mp h
  obtain ⟨_, -, h⟩ := requireEntry_ok.mp h
  obtain ⟨left, l, htake, h⟩ := onEntry_bind_ok.mp h
  refine (forwards_put (forward_of_taken hq htake)).trans ?_
  split at h
  · exact (keeps_onEntry (keeps_observe delta)).of_run h
  · have hrest : Mut.Keeps Forwards (do
        let result ← LotBook.onEntry key (releaseLots rule left)
        Mut.modify fun b => { b with appliedRule := some result.rule }
        LotBook.onEntry key (realise proceeds result.basisReleased)
        LotBook.onEntry key (Mut.modify (InstrumentLots.observe delta settlement))) :=
      .bind (keeps_onEntry (keeps_releaseLots rule left)) fun _ => .bind (fun b => Forwards.refl b) fun _ =>
        .bind (keeps_onEntry (keeps_realise _ _)) fun _ => keeps_onEntry (keeps_observe delta)
    exact hrest.of_run h

theorem forwards_of_trade {terms : Trade} (hq : 0 < terms.quantity.val)
    (h : LotBook.applyTrade e terms settlement rules b = (.ok (), b')) : Forwards b b' := by
  unfold LotBook.applyTrade at h
  cases hs : terms.side with
  | buy =>
    rw [hs] at h
    obtain ⟨basis, -, h⟩ := Mut.lift_bind_ok.mp h
    obtain ⟨basis', -, h⟩ := Mut.lift_bind_ok.mp h
    exact (keeps_onEntry (keeps_acquire _)).of_run h
  | sell =>
    rw [hs] at h
    obtain ⟨proceeds, -, h⟩ := Mut.lift_bind_ok.mp h
    obtain ⟨proceeds', -, h⟩ := Mut.lift_bind_ok.mp h
    exact forwards_of_dispose hq h

theorem keeps_restore (instrument : InstrumentId) (quantity : Quantity) (costBasis : Option Money)
    (acquired : Option Date) :
    Mut.Keeps Forwards (LotBook.restore e instrument quantity costBasis acquired settlement) := by
  cases costBasis with
  | some basis => exact keeps_onEntry (keeps_restorePriced _)
  | none => exact keeps_onEntry (keeps_restoreUnpriced quantity)

theorem keeps_income (instrument : InstrumentId) (amount : Money) (kind : Option IncomeKind) :
    Mut.Keeps Forwards (LotBook.applyIncome e instrument amount kind) := by
  refine keeps_onEntry ?_
  cases kind with
  | none => exact Mut.keeps_modify fun _ => forward_of_eq rfl rfl
  | some kind =>
    cases kind with
    | coupon => exact keeps_payment amount
    | dividend | depositInterest => exact Mut.keeps_pure ()

theorem forwards_of_amortisation {terms : PrincipalReturn} {allocation : BasisAllocation}
    (h : LotBook.applyAmortisation e terms allocation rules b = (.ok (), b')) : Forwards b b' := by
  obtain ⟨-, h⟩ := requireWholePosition_ok h
  rw [Mut.get_bind] at h
  obtain ⟨rule, -, h⟩ := Mut.lift_bind_ok.mp h
  obtain ⟨l, hl, h⟩ := requireEntry_ok.mp h
  obtain ⟨next, hnext, h⟩ := Mut.lift_bind_ok.mp h
  cases Mut.modify_ok.mp h
  refine forwards_put ?_
  rw [lotsAt_of_get hl]
  exact (keeps_amortise rule allocation terms.compensation).of_run (Mut.onCopy_ok.mp hnext)

/-- The date that a lot of the predecessor comes to the successor with. -/
def carriedDate (terms : Conversion) (lot : Lot) : Option Date :=
  match terms.basisTransfer with
  | .carryOver => lot.acquired
  | .restart => some terms.effectiveDate

theorem acquired_converted {terms : Conversion} {assigned : Dec} {lots moved : List Lot}
    (h : convertLots terms assigned lots = .ok moved) : moved.map Lot.acquired = lots.map (carriedDate terms) := by
  induction lots generalizing assigned moved with
  | nil =>
    cases h
    rfl
  | cons lot lots ih =>
    obtain ⟨quantity, -, h⟩ := bind_ok.mp h
    obtain ⟨assigned', -, h⟩ := bind_ok.mp h
    obtain ⟨rest, hrest, h⟩ := bind_ok.mp h
    cases h
    rw [List.map_cons, List.map_cons, ih hrest]
    rfl

/-- A conversion leaves everything as it is where there are no lots, and otherwise the successor observes the date that
    each lot comes with. -/
theorem forwards_of_conversion {terms : Conversion}
    (h : LotBook.applyConversion e terms settlement b = (.ok (), b')) :
    Forwards b b' ∧ ∀ lot ∈ (b.lotsAt ⟨e.account, terms.predecessor⟩).lots,
      Covers (b'.lotsAt ⟨e.account, terms.successor⟩).acquisitions (carriedDate terms lot) := by
  obtain ⟨-, h⟩ := requireWholePosition_ok h
  obtain ⟨delta, -, h⟩ := Mut.lift_bind_ok.mp h
  obtain ⟨l, hl, h⟩ := requireEntry_ok.mp h
  obtain ⟨moved, hmoved, h⟩ := Mut.lift_bind_ok.mp h
  have hentry := lotsAt_of_get hl
  have hdates := acquired_converted (convert_ok.mp hmoved)
  rcases hlots : l.lots with _ | ⟨first, rest⟩
  · rw [hlots] at h
    obtain ⟨-, rfl⟩ := Mut.pure_ok.mp h
    refine ⟨.refl _, fun lot hlot => ?_⟩
    rw [hentry, hlots] at hlot
    cases hlot
  · rw [hlots] at h
    obtain ⟨carried, -, h⟩ := Mut.lift_bind_ok.mp h
    obtain ⟨emptied, hemptied, h⟩ := Mut.lift_bind_ok.mp h
    rw [Mut.modify_bind] at h
    constructor
    · refine (forwards_put ?_).trans ((keeps_onEntry (keeps_takeOver carried moved terms.quantityOut)).of_run h)
      rw [hentry]
      exact (keeps_handOver carried delta).of_run (Mut.onCopy_ok.mp hemptied)
    · intro lot hlot
      rw [hentry] at hlot
      obtain ⟨l', htake, rfl⟩ := onEntry_ok.mp h
      obtain ⟨lot', hlot', hdate⟩ := List.mem_map.mp (hdates ▸ List.mem_map_of_mem (f := carriedDate terms) hlot)
      rw [lotsAt_putLots, Function.update_self, ← hdate]
      exact covers_takeOver htake hlot'

/-- The step lemma: every position goes on. -/
theorem forwards_of_apply (hv : e.validateStructure = .ok ()) (h : LotBook.apply e rules b = (.ok (), b')) :
    Forwards b b' := by
  unfold LotBook.apply at h
  rw [Mut.get_bind] at h
  have hidle : (pure () : LotBook.Step Unit) b = (.ok (), b') → Forwards b b' := by
    intro h
    obtain ⟨-, rfl⟩ := Mut.pure_ok.mp h
    exact .refl _
  cases hk : e.kind with
  | trade terms =>
    rw [hk] at h
    exact forwards_of_trade (trade_positive hv hk) h
  | openingPosition instrument quantity costBasis assertions =>
    rw [hk] at h
    exact (keeps_restore instrument quantity costBasis _).of_run h
  | income instrument gross kind =>
    rw [hk] at h
    cases instrument with
    | none => exact hidle h
    | some instrument => exact (keeps_income instrument gross kind).of_run h
  | corporateAction action =>
    rw [hk] at h
    cases action with
    | partialRedemption terms allocation => exact forwards_of_amortisation h
    | redemption terms =>
      obtain ⟨-, h⟩ := requireWholePosition_ok h
      exact forwards_of_dispose (redemption_positive hv hk) h
    | conversion terms => exact (forwards_of_conversion h).1
  | offerExercise action =>
    rw [hk] at h
    cases action with
    | submitted | cancelled => exact hidle h
    | settled terms =>
      obtain ⟨proceeds, -, h⟩ := Mut.lift_bind_ok.mp h
      obtain ⟨proceeds', -, h⟩ := Mut.lift_bind_ok.mp h
      exact forwards_of_dispose (settled_positive hv hk) h
  | _ =>
    rw [hk] at h
    exact hidle h

end Book

/-! ### Runs -/

/-- The lower bound of ownership of a position. -/
def bound (b : LotBook) (key : LotKey) : Option Date := (b.lotsAt key).earliestAcquired

/-- Something was acquired. -/
def Acquired (b : LotBook) (key : LotKey) : Prop := (b.lotsAt key).acquisitions ≠ .empty

/-- Something was acquired, and no bound is known. -/
def Unknown (b : LotBook) (key : LotKey) : Prop := Acquired b key ∧ bound b key = none

/-- The bound is not after a date, and unknown where there is none. -/
def NotAfter (b : LotBook) (key : LotKey) : Option Date → Prop
  | some d => Unknown b key ∨ ∃ d', bound b key = some d' ∧ d' ≤ d
  | none => Unknown b key

section Runs
variable {rules : RuleRegistry} {b₀ b b' : LotBook} {es es' : List Event}

theorem forwards_of_run (h : Run (Accepts rules) b es b') : Forwards b b' :=
  h.keeps (fun hs hstep => Forwards.trans hs (forwards_of_apply hstep.1 hstep.2)) (.refl b)

theorem marked_of_run (hnew : b₀.entries = ∅) (h : Run (Accepts rules) b₀ es b) (key : LotKey) :
    Marked (b.lotsAt key) := by
  refine (forwards_of_run h key).marked fun hne => absurd ?_ hne
  rw [LotBook.lotsAt, hnew]
  exact Dec.zero_val

theorem bound_eq {key : LotKey} (h : Marked (b.lotsAt key)) :
    bound b key = (b.lotsAt key).acquisitions.lowerBound := by
  unfold bound earliestAcquired
  split
  · rfl
  · next hne =>
    rw [AcquisitionHistory.lowerBound, if_pos (h fun h0 => hne (Dec.isZero_iff.mpr h0))]

theorem unknown_iff {key : LotKey} (h : Marked (b.lotsAt key)) :
    Unknown b key ↔ (b.lotsAt key).acquisitions.undated = true := by
  unfold Unknown Acquired
  rw [bound_eq h, AcquisitionHistory.lowerBound]
  rcases (b.lotsAt key).acquisitions with ⟨earliest, undated⟩
  cases undated <;> cases earliest <;> simp [AcquisitionHistory.empty]

theorem notAfter_of_covers {key : LotKey} (h : Marked (b.lotsAt key)) {date : Option Date}
    (hcovers : Covers (b.lotsAt key).acquisitions date) : NotAfter b key date := by
  cases date with
  | none => exact (unknown_iff h).mpr hcovers
  | some d =>
    obtain ⟨d', hd', hle⟩ := hcovers
    by_cases hundated : (b.lotsAt key).acquisitions.undated = true
    · exact .inl ((unknown_iff h).mpr hundated)
    · exact .inr ⟨d', by rw [bound_eq h, AcquisitionHistory.lowerBound, if_neg hundated, hd'], hle⟩

/-- The bound that is published is what the history covers. -/
theorem covers_bound {key : LotKey} (h : Marked (b.lotsAt key)) (hacquired : Acquired b key) :
    Covers (b.lotsAt key).acquisitions (bound b key) := by
  cases hbound : bound b key with
  | none => exact (unknown_iff h).mp ⟨hacquired, hbound⟩
  | some d =>
    rw [bound_eq h, AcquisitionHistory.lowerBound] at hbound
    split at hbound
    · cases hbound
    · exact ⟨d, hbound, le_rfl⟩

/-- The bound of a position only moves back, from any point of a run to any later one, and what is unknown stays unknown.
    A conversion leaves the successor a bound that is not after the date any of the lots comes with. -/
theorem bound_moves_back (hnew : b₀.entries = ∅) (h : Run (Accepts rules) b₀ es b) (h' : Run (Accepts rules) b es' b') :
    (∀ key, Acquired b key → NotAfter b' key (bound b key)) ∧
    ∀ {e terms b''}, e.kind = .corporateAction (.conversion terms) → Accepts rules b' e b'' →
      ∀ lot ∈ (b'.lotsAt ⟨e.account, terms.predecessor⟩).lots,
        NotAfter b'' ⟨e.account, terms.successor⟩ (carriedDate terms lot) := by
  refine ⟨fun key hacquired => ?_, fun {e terms b''} hk hstep lot hlot => ?_⟩
  · have hcovers := covers_bound (marked_of_run hnew h key) hacquired
    exact notAfter_of_covers (marked_of_run hnew (h.trans h') key) (hcovers.goesOn (forwards_of_run h' key).history)
  · have hrun : Run (Accepts rules) b₀ (es ++ es' ++ [e]) b'' := (h.trans h').trans (.cons hstep (.nil _))
    have happly := hstep.2
    unfold LotBook.apply at happly
    rw [Mut.get_bind, hk] at happly
    exact notAfter_of_covers (marked_of_run hnew hrun _) ((forwards_of_conversion happly).2 lot hlot)

end Runs

/-! ### A conversion after the first lot was sold -/

/-- Ten units bought on a day. -/
def purchaseOn (id : EventId) (day : Date) : Event :=
  { eventWith id ⟨1⟩ day id.uuid (.trade ⟨.buy, ⟨1⟩, .ofInt64 10, ⟨.new 1000, .rub⟩, none, none, none, none⟩)
      [.cash ⟨1⟩ ⟨.new (-1000), .rub⟩, .security ⟨1⟩ ⟨1⟩ ⟨1⟩ (.ofInt64 10)] with
    dates := .forTrade day none }

def samplePurchases : List Event := [purchaseOn ⟨1⟩ ⟨1⟩, purchaseOn ⟨2⟩ ⟨5⟩]
def sampleSale : Event := saleOf ⟨3⟩ ⟨1⟩ (.ofInt64 10) (.ofInt64 (-10)) ⟨.new 1500, .rub⟩
def sampleConversion : Event :=
  conversionOf ⟨4⟩ Dec.one (.ofInt64 10) (.ofInt64 (-10)) (.ofInt64 10) .notApplicable

def sampleSource : LotKey := ⟨⟨1⟩, ⟨1⟩⟩
def sampleTarget : LotKey := ⟨⟨1⟩, ⟨2⟩⟩

/-- What the book does with the conversion. -/
def afterConversion (b : LotBook) : Result LotError Unit × LotBook := LotBook.apply sampleConversion .withDefaults b

theorem sampleRuns : ∃ b b', Run (Accepts .withDefaults) (.new 1) samplePurchases b ∧
    Run (Accepts .withDefaults) b [sampleSale] b' ∧
    ((b.lotsAt sampleSource).acquisitions, bound b sampleSource) = (⟨some ⟨1⟩, false⟩, some ⟨1⟩) ∧
    ((afterConversion b').1, (b'.lotsAt sampleSource).lots.map Lot.acquired, bound b' sampleSource,
      bound (afterConversion b').2 sampleTarget) = (.ok (), [some ⟨5⟩], some ⟨1⟩, some ⟨5⟩) :=
  exists_runs .withDefaults (.new 1) samplePurchases [sampleSale] _ _ (by decide +kernel) (by decide +kernel)
    (by decide +kernel)

theorem sampleConversion_valid : sampleConversion.validateStructure = .ok () := by decide +kernel

/-- The successor's bound is the day of the lot that was left, after that of the predecessor. -/
theorem converted_after_sale : ∃ b b', Run (Accepts .withDefaults) (.new 1) (samplePurchases ++ [sampleSale]) b ∧
    Accepts .withDefaults b sampleConversion b' ∧ bound b sampleSource = some ⟨1⟩ ∧
    bound b' sampleTarget = some ⟨5⟩ := by
  obtain ⟨b, b', hbought, hsold, -, hread⟩ := sampleRuns
  simp only [Prod.mk.injEq] at hread
  exact ⟨b', _, hbought.trans hsold, accepts_of_ok sampleConversion_valid hread.1, hread.2.2.1, hread.2.2.2⟩

/-- Over the sale the bound stays at the first purchase, and the conversion gives the successor one not after the
    second. -/
theorem sampleRuns_bounds : ∃ b b' b'', Run (Accepts .withDefaults) (.new 1) samplePurchases b ∧
    Run (Accepts .withDefaults) b [sampleSale] b' ∧ Accepts .withDefaults b' sampleConversion b'' ∧
    NotAfter b' sampleSource (some ⟨1⟩) ∧ NotAfter b'' sampleTarget (some ⟨5⟩) := by
  obtain ⟨b, b', hbought, hsold, hfirst, hread⟩ := sampleRuns
  simp only [Prod.mk.injEq] at hfirst hread
  obtain ⟨hacquired, hbound⟩ := hfirst
  obtain ⟨hok, hlots, -, -⟩ := hread
  have hstep : Accepts .withDefaults b' sampleConversion (afterConversion b').2 :=
    accepts_of_ok sampleConversion_valid hok
  obtain ⟨hback, hconverted⟩ := bound_moves_back rfl hbought hsold
  refine ⟨b, b', _, hbought, hsold, hstep, ?_, ?_⟩
  · rw [← hbound]
    refine hback sampleSource fun hempty => ?_
    rw [hacquired] at hempty
    cases hempty
  · obtain ⟨lot, hlot, hdate⟩ := List.mem_map.mp (hlots ▸ List.mem_singleton_self (some (⟨5⟩ : Date)))
    rw [← hdate]
    exact @hconverted sampleConversion _ _ rfl hstep lot hlot

end EarliestAcquired
end Iaam
