import Iaam.Theorems.LotSteps

/-! Ownership against the actual dates of settlement.

The answer is computed from the least and the greatest balance that the knowledge of the dates allows. Whatever
the dates are, as long as the knowledge allows them, the balance lies between the two. -/

namespace Iaam

namespace SettlementKnowledge

/-- The actual dates that the knowledge leaves possible. -/
def Allows : SettlementKnowledge → Date → Prop
  | exact date, actual => actual = date
  | bounded earliest latest, actual => earliest ≤ actual ∧ actual ≤ latest
  | unbounded, _ => True

end SettlementKnowledge

namespace OwnershipSound
open Outcome LotSteps InstrumentLots Runs

/-! ### The bounds of the balance -/

/-- A reading of "settled by the day": what settled before it is settled, what settles after it is not, and the day
    itself is left to the reading. -/
structure SettledBy (day : Date) (settled : Date → Bool) : Prop where
  before : ∀ {actual}, actual < day → settled actual = true
  after : ∀ {actual}, day < actual → settled actual = false

theorem settledBy_before (day : Date) : SettledBy day fun actual => actual < day where
  before h := decide_eq_true h
  after h := decide_eq_false (not_lt_of_gt h)

theorem settledBy_through (day : Date) : SettledBy day fun actual => actual ≤ day where
  before h := decide_eq_true (le_of_lt h)
  after h := decide_eq_false (not_le_of_gt h)

section Bounds
variable {day actual : Date} {knowledge : SettlementKnowledge} {settled : Date → Bool}

theorem before_of_yes (h : knowledge.appliedBefore day = .yes) (hallows : knowledge.Allows actual) : actual < day := by
  cases knowledge with
  | exact date =>
    cases hallows
    by_contra hlt
    simp only [SettlementKnowledge.appliedBefore, SettlementKnowledge.within, if_neg hlt] at h
    split at h <;> cases h
  | bounded earliest latest =>
    by_contra hlt
    have hlatest : ¬latest < day := fun hl => hlt (lt_of_le_of_lt hallows.2 hl)
    simp only [SettlementKnowledge.appliedBefore, SettlementKnowledge.within, if_neg hlatest] at h
    split at h <;> cases h
  | unbounded => cases h

theorem after_of_no (h : knowledge.appliedBefore day = .no) (hallows : knowledge.Allows actual) : day < actual := by
  have hwithin : ∀ {earliest latest : Date}, SettlementKnowledge.within earliest latest day = .no → day < earliest := by
    intro earliest latest h
    unfold SettlementKnowledge.within at h
    split at h
    · cases h
    · split at h
      · assumption
      · cases h
  cases knowledge with
  | exact date =>
    cases hallows
    exact hwithin h
  | bounded earliest latest => exact lt_of_lt_of_le (hwithin h) hallows.1
  | unbounded => cases h

/-- What a change adds to the balance, once it has settled. -/
def settledDelta (settled : Date → Bool) (change : OwnershipChange × Date) : ℚ :=
  if settled change.2 then change.1.delta.val else 0

theorem bounds_step (hby : SettledBy day settled) {change : OwnershipChange} {range range' : Dec × Dec}
    (h : OwnershipHistory.bounds day range change = .ok range') (hallows : change.settlement.Allows actual) :
    range'.1.val ≤ range.1.val + settledDelta settled (change, actual) ∧
      range.2.val + settledDelta settled (change, actual) ≤ range'.2.val := by
  unfold OwnershipHistory.bounds at h
  split at h
  · next hyes =>
    obtain ⟨minimum, hmin, h⟩ := bind_ok.mp h
    obtain ⟨maximum, hmax, h⟩ := bind_ok.mp h
    cases h
    have hsettled : settledDelta settled (change, actual) = change.delta.val :=
      if_pos (hby.before (before_of_yes hyes hallows))
    rw [hsettled]
    exact ⟨(Dec.checkedAdd_ok.mp hmin).le, (Dec.checkedAdd_ok.mp hmax).ge⟩
  · next hno =>
    cases h
    have hsettled : settledDelta settled (change, actual) = 0 :=
      if_neg (by rw [hby.after (after_of_no hno hallows)]; exact Bool.false_ne_true)
    rw [hsettled, add_zero, add_zero]
    exact ⟨le_rfl, le_rfl⟩
  · -- The day decides nothing, so both a settled and an unsettled change must stay within the range.
    have hdelta : settledDelta settled (change, actual) = change.delta.val ∨
        settledDelta settled (change, actual) = 0 := by
      unfold settledDelta
      split
      · exact Or.inl rfl
      · exact Or.inr rfl
    split at h
    · next hneg =>
      have hneg := Dec.isNegative_iff.mp hneg
      obtain ⟨minimum, hmin, h⟩ := bind_ok.mp h
      cases h
      have hmin := Dec.checkedAdd_ok.mp hmin
      rcases hdelta with hq | hq <;> rw [hq] <;> constructor <;> dsimp only <;> linarith
    · next hneg =>
      have hneg := not_lt.mp fun hlt => hneg (Dec.isNegative_iff.mpr hlt)
      obtain ⟨maximum, hmax, h⟩ := bind_ok.mp h
      cases h
      have hmax := Dec.checkedAdd_ok.mp hmax
      rcases hdelta with hq | hq <;> rw [hq] <;> constructor <;> dsimp only <;> linarith

/-- Changes with the dates on which they settled, each of which the knowledge allows. -/
def Allowed (dated : List (OwnershipChange × Date)) : Prop := ∀ x ∈ dated, x.1.settlement.Allows x.2

theorem bounds_fold (hby : SettledBy day settled) {dated : List (OwnershipChange × Date)} (hallowed : Allowed dated)
    {range range' : Dec × Dec}
    (h : (dated.map Prod.fst).foldlM (OwnershipHistory.bounds day) range = .ok range') :
    range'.1.val ≤ range.1.val + (dated.map (settledDelta settled)).sum ∧
      range.2.val + (dated.map (settledDelta settled)).sum ≤ range'.2.val := by
  induction dated generalizing range with
  | nil =>
    cases h
    simp
  | cons x dated ih =>
    obtain ⟨mid, hstep, h⟩ := bind_ok.mp h
    obtain ⟨hlow, hhigh⟩ := bounds_step hby hstep (hallowed x List.mem_cons_self)
    obtain ⟨hmin, hmax⟩ := ih (fun y hy => hallowed y (List.mem_cons_of_mem _ hy)) h
    rw [List.map_cons, List.sum_cons]
    constructor <;> linarith

/-- The answer of a history against any dates that its knowledge allows. -/
theorem ownershipAt_sound (hby : SettledBy day settled) {history : OwnershipHistory}
    {dated : List (OwnershipChange × Date)} (hallowed : Allowed dated) (hdated : dated.map Prod.fst = history.changes) :
    (history.ownershipAt day = .owned → 0 < (dated.map (settledDelta settled)).sum) ∧
      (history.ownershipAt day = .notOwned → (dated.map (settledDelta settled)).sum ≤ 0) := by
  unfold OwnershipHistory.ownershipAt
  rw [← hdated]
  split
  · exact ⟨nofun, nofun⟩
  · next minimum maximum hfold =>
    obtain ⟨hmin, hmax⟩ := bounds_fold hby hallowed hfold
    have hzero : Dec.zero.val = 0 := rfl
    rw [hzero, zero_add] at hmin hmax
    split_ifs with hpos hz
    · exact ⟨fun _ => lt_of_lt_of_le (Dec.isPositive_iff.mp hpos) hmin, nofun⟩
    · exact ⟨nofun, fun _ => hmax.trans (Dec.isZero_iff.mp hz).le⟩
    · exact ⟨nofun, nofun⟩

end Bounds

/-! ### What an operation on an entry observes -/

/-- The operation adds these changes to the history of the entry, when it succeeds. -/
def Observes {α : Type} (changes : List OwnershipChange) (x : InstrumentLots.Step α) : Prop :=
  ∀ l a l', x l = (.ok a, l') → l'.ownership.changes = l.ownership.changes ++ changes

section Observes
variable {α β : Type} {changes changes' : List OwnershipChange} {settlement : SettlementKnowledge}

theorem observes_pure (a : α) : Observes [] (pure a : InstrumentLots.Step α) := by
  intro l b l' h
  rw [(Mut.pure_ok.mp h).2, List.append_nil]

theorem observes_lift (x : Result LotError α) : Observes [] (Mut.lift x : InstrumentLots.Step α) := by
  intro l b l' h
  rw [(Mut.lift_ok.mp h).2, List.append_nil]

theorem observes_modify {f : InstrumentLots → InstrumentLots}
    (hf : ∀ l, (f l).ownership.changes = l.ownership.changes ++ changes) :
    Observes changes (Mut.modify f : InstrumentLots.Step Unit) := by
  intro l b l' h
  rw [Mut.modify_ok.mp h, hf]

/-- A write that leaves the history alone. -/
theorem observes_write {f : InstrumentLots → InstrumentLots} (hf : ∀ l, (f l).ownership = l.ownership) :
    Observes [] (Mut.modify f : InstrumentLots.Step Unit) :=
  observes_modify fun l => by rw [hf, List.append_nil]

theorem observes_get {f : InstrumentLots → InstrumentLots.Step β} (hf : ∀ l, Observes changes (f l)) :
    Observes changes (Mut.get >>= f) :=
  fun l b l' h => hf l l b l' h

theorem Observes.bind {x : InstrumentLots.Step α} {f : α → InstrumentLots.Step β} (hx : Observes changes x)
    (hf : ∀ a, Observes changes' (f a)) : Observes (changes ++ changes') (x >>= f) := by
  intro l b l' h
  obtain ⟨a, m, hxl, h⟩ := Mut.bind_ok.mp h
  rw [hf a m b l' h, hx l a m hxl, List.append_assoc]

/-- A step that observes nothing, before one that does. -/
theorem Observes.then {x : InstrumentLots.Step α} {f : α → InstrumentLots.Step β} (hx : Observes [] x)
    (hf : ∀ a, Observes changes (f a)) : Observes changes (x >>= f) :=
  hx.bind hf

theorem observes_addTotal {total : InstrumentLots → Option Money} {put : Money → InstrumentLots → InstrumentLots}
    (hput : ∀ sum l, (put sum l).ownership = l.ownership) (amount : Money) : Observes [] (addTotal total put amount) :=
  observes_get fun _ => (observes_lift _).then fun sum => observes_write (hput sum)

theorem observes_addReceived (amount : Money) : Observes [] (addReceived amount) := by
  refine observes_get fun l => (observes_lift _).then fun total => ?_
  split
  · exact observes_addTotal (fun _ _ => by rfl) amount
  · refine Observes.then ?_ fun rest => ?_
    · refine observes_get fun l => ?_
      split
      · exact observes_pure _
      · refine (observes_lift _).then fun share => ?_
        exact (observes_addTotal (fun _ _ => by rfl) share).then fun _ => observes_lift _
    · intro l a l' h
      obtain ⟨lots, -, rfl⟩ := Mut.zoom_ok.mp h
      exact (List.append_nil _).symm

theorem observes_acquire (lot : Lot) : Observes [⟨lot.quantity, settlement⟩] (acquire lot settlement) :=
  (observes_addTotal (fun _ _ => by rfl) _).then fun _ => observes_modify fun _ => rfl

theorem observes_restorePriced (lot : Lot) : Observes [⟨lot.quantity, settlement⟩] (restorePriced lot settlement) :=
  (observes_addTotal (fun _ _ => by rfl) _).then fun _ => observes_modify fun _ => rfl

theorem observes_restoreUnpriced (quantity : Quantity) :
    Observes [⟨quantity, settlement⟩] (restoreUnpriced quantity settlement) :=
  observes_get fun _ => (observes_lift _).then fun _ => observes_modify fun _ => rfl

theorem observes_observe (delta : Quantity) :
    Observes [⟨delta, settlement⟩] (Mut.modify (InstrumentLots.observe delta settlement) : InstrumentLots.Step Unit) :=
  observes_modify fun _ => rfl

theorem observes_takeUnpriced (quantity : Quantity) : Observes [] (takeUnpriced quantity) := by
  intro l left l' h
  rcases takeUnpriced_ok h with ⟨-, -⟩ | ⟨-, -, -⟩ <;> exact (List.append_nil _).symm

theorem observes_releaseLots (rule : LotDisposalRule) (left : Dec) : Observes [] (releaseLots rule left) := by
  intro l r l' h
  obtain ⟨-, sum, -, rfl⟩ := releaseLots_ok h
  exact (List.append_nil _).symm

theorem observes_realise (proceeds basisReleased : Money) : Observes [] (realise proceeds basisReleased) := by
  intro l u l' h
  obtain ⟨realized, -, rfl⟩ := realise_ok h
  exact (List.append_nil _).symm

theorem observes_amortise (rule : AmortisationRule) (allocation : BasisAllocation) (compensation : Money) :
    Observes [] (amortise rule allocation compensation) := by
  refine Observes.then ?_ fun returned => ?_
  · cases allocation with
    | known share evidence =>
      refine observes_get fun l => (observes_lift _).then fun amortised => ?_
      exact Observes.then (observes_write fun _ => rfl) fun _ => observes_pure _
    | unknown why => exact Observes.then (observes_write fun _ => rfl) fun _ => observes_pure _
  · refine (observes_addReceived compensation).then fun _ => Observes.then ?_ fun _ => ?_
    · unfold addReturned
      split
      · exact observes_pure _
      · exact observes_addTotal (fun _ _ => by rfl) returned
    · refine (observes_lift _).then fun result => ?_
      intro l u l' h
      obtain ⟨realized, -, rfl⟩ := addRealised_ok h
      exact (List.append_nil _).symm

theorem observes_handOver (carried : Money) (delta : Quantity) :
    Observes [⟨delta, settlement⟩] (handOver carried delta settlement) :=
  Observes.then (observes_write fun _ => rfl) fun _ =>
    (observes_addTotal (fun _ _ => by rfl) carried).then fun _ => observes_observe delta

theorem observes_takeOver (carried : Money) (moved : List Lot) (quantity : Quantity) :
    Observes [⟨quantity, settlement⟩] (takeOver carried moved quantity settlement) :=
  (observes_addTotal (fun _ _ => by rfl) carried).then fun _ =>
    (observes_observe quantity).bind fun _ => observes_write fun _ => rfl

end Observes

/-! ### What a step of the book observes -/

/-- The knowledge with which an event enters the histories: an opening position is dated by its acquisition. -/
def knowledgeOf (policy : SettlementLagPolicy) (e : Event) : SettlementKnowledge :=
  match e.kind with
  | .openingPosition _ _ _ assertions =>
    match LotBook.acquiredOn assertions with
    | some day => .exact day
    | none => .unbounded
  | _ => policy.knowledge e.dates e.provenance.parserVersion

def changesAt (b : LotBook) (key : LotKey) : List OwnershipChange := (b.lotsAt key).ownership.changes

/-- Changes of one position. -/
def only (key : LotKey) (changes : List OwnershipChange) (k : LotKey) : List OwnershipChange :=
  if key = k then changes else []

section Book
variable {e : Event} {rules : RuleRegistry} {settlement : SettlementKnowledge} {b b' : LotBook} {key : LotKey}

theorem changesAt_put {changes : List OwnershipChange} {l : InstrumentLots}
    (h : l.ownership.changes = changesAt b key ++ changes) (k : LotKey) :
    changesAt (b.putLots key l) k = changesAt b k ++ only key changes k := by
  unfold changesAt only
  rw [lotsAt_putLots, Function.update_apply]
  by_cases hk : key = k
  · rw [if_pos hk.symm, if_pos hk, h, ← hk]
    rfl
  · rw [if_neg fun hk' => hk hk'.symm, if_neg hk, List.append_nil]

theorem onEntry_changes {α : Type} {a : α} {changes : List OwnershipChange} {x : InstrumentLots.Step α}
    (hx : Observes changes x) (h : LotBook.onEntry key x b = (.ok a, b')) (k : LotKey) :
    changesAt b' k = changesAt b k ++ only key changes k := by
  obtain ⟨l', hl, rfl⟩ := onEntry_ok.mp h
  exact changesAt_put (hx _ a l' hl) k

theorem onEntry_quiet {α : Type} {a : α} {x : InstrumentLots.Step α} (hx : Observes [] x)
    (h : LotBook.onEntry key x b = (.ok a, b')) (k : LotKey) : changesAt b' k = changesAt b k := by
  rw [onEntry_changes hx h k]
  unfold only
  rw [ite_self, List.append_nil]

theorem dispose_changes {quantity : Quantity} {proceeds : Money}
    (h : LotBook.dispose e key quantity proceeds rules settlement b = (.ok (), b')) :
    ∃ delta : Quantity, delta.val = -quantity.val ∧
      ∀ k, changesAt b' k = changesAt b k ++ only key [⟨delta, settlement⟩] k := by
  obtain ⟨delta, hdelta, h⟩ := Mut.lift_bind_ok.mp h
  refine ⟨delta, Dec.checkedNeg_ok.mp (convert_ok.mp hdelta), fun k => ?_⟩
  rw [Mut.get_bind] at h
  obtain ⟨rule, -, h⟩ := Mut.lift_bind_ok.mp h
  obtain ⟨_, -, h⟩ := requireEntry_ok.mp h
  obtain ⟨left, b₁, htake, h⟩ := Mut.bind_ok.mp h
  have htake := onEntry_quiet (observes_takeUnpriced quantity) htake k
  split at h
  · rw [onEntry_changes (observes_observe delta) h k, htake]
  · obtain ⟨r, b₂, hrelease, h⟩ := Mut.bind_ok.mp h
    rw [Mut.modify_bind] at h
    obtain ⟨_, b₃, hrealise, h⟩ := Mut.bind_ok.mp h
    have hrealise := onEntry_quiet (observes_realise _ _) hrealise k
    rw [onEntry_changes (observes_observe delta) h k, hrealise, ← htake]
    exact congrArg (· ++ _) (onEntry_quiet (observes_releaseLots rule left) hrelease k)

/-- A conversion observes what leaves and what comes in, unless there are no lots to convert. -/
theorem applyConversion_changes {terms : Conversion}
    (h : LotBook.applyConversion e terms settlement b = (.ok (), b')) :
    ((b.lotsAt ⟨e.account, terms.predecessor⟩).lots = [] ∧ b' = b) ∨
      ((b.lotsAt ⟨e.account, terms.predecessor⟩).lots ≠ [] ∧ ∃ delta : Quantity, delta.val = -terms.quantityIn.val ∧
        ∀ k, changesAt b' k = changesAt b k ++ (only ⟨e.account, terms.predecessor⟩ [⟨delta, settlement⟩] k ++
          only ⟨e.account, terms.successor⟩ [⟨terms.quantityOut, settlement⟩] k)) := by
  obtain ⟨-, h⟩ := requireWholePosition_ok h
  obtain ⟨delta, hdelta, h⟩ := Mut.lift_bind_ok.mp h
  obtain ⟨l, hl, h⟩ := requireEntry_ok.mp h
  obtain ⟨moved, -, h⟩ := Mut.lift_bind_ok.mp h
  have hentry := lotsAt_of_get hl
  rcases hlots : l.lots with _ | ⟨first, rest⟩
  · rw [hlots] at h
    exact Or.inl ⟨hentry ▸ hlots, (Mut.pure_ok.mp h).2⟩
  · rw [hlots] at h
    obtain ⟨carried, -, h⟩ := Mut.lift_bind_ok.mp h
    obtain ⟨emptied, hemptied, h⟩ := Mut.lift_bind_ok.mp h
    rw [Mut.modify_bind] at h
    refine Or.inr ⟨?_, delta, Dec.checkedNeg_ok.mp (convert_ok.mp hdelta), fun k => ?_⟩
    · rw [hentry, hlots]
      exact List.cons_ne_nil _ _
    · have hleft : emptied.ownership.changes = changesAt b ⟨e.account, terms.predecessor⟩ ++ [⟨delta, settlement⟩] := by
        unfold changesAt
        rw [hentry]
        exact observes_handOver carried delta l () emptied (Mut.onCopy_ok.mp hemptied)
      rw [onEntry_changes (observes_takeOver carried moved terms.quantityOut) h k, changesAt_put hleft k,
        List.append_assoc]

/-- The changes that a step adds to the history of a position make up what the event declares there, and carry the
    knowledge of the event. -/
structure Observed (e : Event) (b b' : LotBook) (key : LotKey) (changes : List OwnershipChange) : Prop where
  history : changesAt b' key = changesAt b key ++ changes
  knowledge : ∀ c ∈ changes, c.settlement = knowledgeOf b.settlementPolicy e
  total : (changes.map fun c => c.delta.val).sum = e.declaredQuantity key

/-- A conversion finds lots to convert, or declares nothing. -/
def ConvertsLots (e : Event) (b : LotBook) : Prop :=
  ∀ terms, e.kind = .corporateAction (.conversion terms) →
    (b.lotsAt ⟨e.account, terms.predecessor⟩).lots = [] → ∀ key, e.declaredQuantity key = 0

theorem mem_only {at' : LotKey} {change c : OwnershipChange} (h : c ∈ only at' [change] key) : c = change := by
  unfold only at h
  split at h
  · exact List.mem_singleton.mp h
  · exact absurd h List.not_mem_nil

theorem total_only (at' : LotKey) (change : OwnershipChange) (k : LotKey) :
    ((only at' [change] k).map fun c => c.delta.val).sum = if at' = k then change.delta.val else 0 := by
  unfold only
  split
  · exact List.sum_singleton
  · rfl

theorem observed_quiet (hq : e.declaredQuantity key = 0) (h : changesAt b' key = changesAt b key) :
    ∃ changes, Observed e b b' key changes :=
  ⟨[], by rw [h, List.append_nil], fun _ hc => (nomatch hc), hq.symm⟩

theorem observed_one {at' : LotKey} {delta : Quantity} {q : ℚ} (hdelta : delta.val = q)
    (hq : ∀ k, e.declaredQuantity k = if at' = k then q else 0)
    (hsettlement : settlement = knowledgeOf b.settlementPolicy e)
    (h : ∀ k, changesAt b' k = changesAt b k ++ only at' [⟨delta, settlement⟩] k) :
    ∃ changes, Observed e b b' key changes := by
  refine ⟨_, h key, fun c hc => ?_, ?_⟩
  · rw [mem_only hc]
    exact hsettlement
  · rw [total_only, hq key, hdelta]

theorem applyIncome_quiet {instrument : InstrumentId} {amount : Money} {kind : Option IncomeKind}
    (h : LotBook.applyIncome e instrument amount kind b = (.ok (), b')) (k : LotKey) :
    changesAt b' k = changesAt b k := by
  match kind, h with
  | some .coupon, h => exact onEntry_quiet (observes_addReceived amount) h k
  | some .dividend, h | some .depositInterest, h => exact onEntry_quiet (observes_pure ()) h k
  | none, h => exact onEntry_quiet (observes_write fun _ => by rfl) h k

theorem applyAmortisation_quiet {terms : PrincipalReturn} {allocation : BasisAllocation}
    (h : LotBook.applyAmortisation e terms allocation rules b = (.ok (), b')) (k : LotKey) :
    changesAt b' k = changesAt b k := by
  obtain ⟨-, h⟩ := requireWholePosition_ok h
  rw [Mut.get_bind] at h
  obtain ⟨rule, -, h⟩ := Mut.lift_bind_ok.mp h
  obtain ⟨l, hl, h⟩ := requireEntry_ok.mp h
  obtain ⟨next, hnext, h⟩ := Mut.lift_bind_ok.mp h
  cases Mut.modify_ok.mp h
  have hsame := observes_amortise rule allocation terms.compensation l () next (Mut.onCopy_ok.mp hnext)
  rw [← lotsAt_of_get hl] at hsame
  rw [changesAt_put hsame k]
  unfold only
  rw [ite_self, List.append_nil]

theorem observed_of_trade {terms : Trade} (hk : e.kind = .trade terms)
    (hsettlement : settlement = knowledgeOf b.settlementPolicy e)
    (h : LotBook.applyTrade e terms settlement rules b = (.ok (), b')) : ∃ changes, Observed e b b' key changes := by
  unfold LotBook.applyTrade at h
  cases hs : terms.side with
  | buy =>
    rw [hs] at h
    obtain ⟨basis, -, h⟩ := Mut.lift_bind_ok.mp h
    obtain ⟨basis', -, h⟩ := Mut.lift_bind_ok.mp h
    refine observed_one rfl (fun k => ?_) hsettlement (onEntry_changes (observes_acquire _) h)
    simp [Event.declaredQuantity, hk, hs, TradeSide.signed, heldOn]
  | sell =>
    rw [hs] at h
    obtain ⟨proceeds, -, h⟩ := Mut.lift_bind_ok.mp h
    obtain ⟨proceeds', -, h⟩ := Mut.lift_bind_ok.mp h
    obtain ⟨delta, hdelta, h⟩ := dispose_changes h
    refine observed_one hdelta (fun k => ?_) hsettlement h
    simp [Event.declaredQuantity, hk, hs, TradeSide.signed, heldOn]

theorem observed_of_opening {instrument : InstrumentId} {quantity : Quantity} {costBasis : Option Money}
    {assertions : OpeningAssertions} {acquired : Option Date}
    (hk : e.kind = .openingPosition instrument quantity costBasis assertions)
    (hsettlement : settlement = knowledgeOf b.settlementPolicy e)
    (h : LotBook.restore e instrument quantity costBasis acquired settlement b = (.ok (), b')) :
    ∃ changes, Observed e b b' key changes := by
  have hq : ∀ k, e.declaredQuantity k = if (⟨e.account, instrument⟩ : LotKey) = k then quantity.val else 0 :=
    fun k => by simp [Event.declaredQuantity, hk, heldOn]
  cases costBasis with
  | some basis => exact observed_one rfl hq hsettlement (onEntry_changes (observes_restorePriced _) h)
  | none => exact observed_one rfl hq hsettlement (onEntry_changes (observes_restoreUnpriced quantity) h)

theorem observed_of_conversion {terms : Conversion} (hk : e.kind = .corporateAction (.conversion terms))
    (hsettlement : settlement = knowledgeOf b.settlementPolicy e) (hconv : ConvertsLots e b)
    (h : LotBook.applyConversion e terms settlement b = (.ok (), b')) : ∃ changes, Observed e b b' key changes := by
  rcases applyConversion_changes h with ⟨hnil, rfl⟩ | ⟨-, delta, hdelta, h⟩
  · exact observed_quiet (hconv terms hk hnil key) rfl
  · refine ⟨_, h key, fun c hc => ?_, ?_⟩
    · rcases List.mem_append.mp hc with hc | hc
      · rw [mem_only hc, hsettlement]
      · rw [mem_only hc, hsettlement]
    · rw [List.map_append, List.sum_append, total_only, total_only, hdelta]
      simp [Event.declaredQuantity, hk, heldOn]

/-- The step lemma: what an applied event declares for a position is what it adds to the history there. -/
theorem observed_of_apply (h : LotBook.apply e rules b = (.ok (), b')) (hconv : ConvertsLots e b) (key : LotKey) :
    ∃ changes, Observed e b b' key changes := by
  unfold LotBook.apply at h
  rw [Mut.get_bind] at h
  have hnone : (∀ k, e.declaredQuantity k = 0) → (pure () : LotBook.Step Unit) b = (.ok (), b') →
      ∃ changes, Observed e b b' key changes := by
    intro hq h
    rw [(Mut.pure_ok.mp h).2]
    exact observed_quiet (hq key) rfl
  cases hk : e.kind with
  | trade terms =>
    rw [hk] at h
    exact observed_of_trade hk (by simp [knowledgeOf, hk]) h
  | openingPosition instrument quantity costBasis assertions =>
    rw [hk] at h
    refine observed_of_opening hk ?_ h
    simp only [knowledgeOf, hk] <;> rfl
  | income instrument gross kind =>
    have hq : ∀ k, e.declaredQuantity k = 0 := fun k => by simp [Event.declaredQuantity, hk]
    rw [hk] at h
    cases instrument with
    | none => exact hnone hq h
    | some instrument => exact observed_quiet (hq key) (applyIncome_quiet h key)
  | corporateAction action =>
    rw [hk] at h
    cases action with
    | partialRedemption terms allocation =>
      exact observed_quiet (by simp [Event.declaredQuantity, hk]) (applyAmortisation_quiet h key)
    | redemption terms =>
      obtain ⟨-, h⟩ := requireWholePosition_ok h
      obtain ⟨delta, hdelta, h⟩ := dispose_changes h
      exact observed_one hdelta (fun k => by simp [Event.declaredQuantity, hk, heldOn])
        (by simp [knowledgeOf, hk]) h
    | conversion terms => exact observed_of_conversion hk (by simp [knowledgeOf, hk]) hconv h
  | offerExercise action =>
    rw [hk] at h
    cases action with
    | submitted | cancelled => exact hnone (fun k => by simp [Event.declaredQuantity, hk]) h
    | settled terms =>
      obtain ⟨proceeds, -, h⟩ := Mut.lift_bind_ok.mp h
      obtain ⟨proceeds', -, h⟩ := Mut.lift_bind_ok.mp h
      obtain ⟨delta, hdelta, h⟩ := dispose_changes h
      exact observed_one hdelta (fun k => by simp [Event.declaredQuantity, hk, heldOn])
        (by simp [knowledgeOf, hk]) h
  | _ =>
    rw [hk] at h
    exact hnone (fun k => by simp [Event.declaredQuantity, hk]) h

/-- The condition is exact: a step that declares a movement of a position without lots observes nothing of it. -/
theorem observed_iff (h : LotBook.apply e rules b = (.ok (), b')) :
    (∀ key, ∃ changes, Observed e b b' key changes) ↔ ConvertsLots e b := by
  refine ⟨fun hall terms hk hnil key => ?_, fun hconv key => observed_of_apply h hconv key⟩
  unfold LotBook.apply at h
  rw [Mut.get_bind, hk] at h
  rcases applyConversion_changes h with ⟨-, rfl⟩ | ⟨hne, -⟩
  · obtain ⟨changes, hobserved⟩ := hall key
    have hempty : changes = [] := List.self_eq_append_right.mp hobserved.history
    rw [← hobserved.total, hempty]
    rfl
  · exact absurd hnil hne

end Book

/-! ### Runs -/

/-- An event that the book accepts, with the day it settled on in fact. -/
def Settles (rules : RuleRegistry) (b : LotBook) (taken : Event × Date) (b' : LotBook) : Prop :=
  LotBook.apply taken.1 rules b = (.ok (), b') ∧ (knowledgeOf b.settlementPolicy taken.1).Allows taken.2

/-- The quantity that the settled ones of the events put into a position. -/
def settledQuantity (taken : List (Event × Date)) (settled : Date → Bool) (key : LotKey) : ℚ :=
  (taken.map fun x => if settled x.2 then x.1.declaredQuantity key else 0).sum

section Runs
variable {rules : RuleRegistry} {b b' : LotBook} {taken : List (Event × Date)}

theorem sum_settledDelta (settled : Date → Bool) (changes : List OwnershipChange) (actual : Date) :
    ((changes.map fun c => (c, actual)).map (settledDelta settled)).sum =
      if settled actual then (changes.map fun c => c.delta.val).sum else 0 := by
  rw [List.map_map]
  split
  · next h =>
    congr 1
    refine List.map_congr_left fun c _ => ?_
    exact if_pos h
  · next h =>
    refine List.sum_eq_zero fun q hq => ?_
    obtain ⟨c, -, rfl⟩ := List.mem_map.mp hq
    exact if_neg h

/-- Over a run the history grows by changes that settled on allowed days and add up to what the events declare. -/
theorem dated_of_run (h : Run (fun b x b' => Settles rules b x b' ∧ ConvertsLots x.1 b) b taken b') (key : LotKey) :
    ∃ dated : List (OwnershipChange × Date), changesAt b' key = changesAt b key ++ dated.map Prod.fst ∧
      Allowed dated ∧ ∀ settled, (dated.map (settledDelta settled)).sum = settledQuantity taken settled key := by
  induction h with
  | nil b => exact ⟨[], (List.append_nil _).symm, fun _ hx => (nomatch hx), fun _ => rfl⟩
  | @cons b mid b' x taken hstep _ ih =>
    obtain ⟨⟨happly, hallows⟩, hconv⟩ := hstep
    obtain ⟨changes, hobserved⟩ := observed_of_apply happly hconv key
    obtain ⟨dated, hhistory, hallowed, hsum⟩ := ih
    refine ⟨changes.map (fun c => (c, x.2)) ++ dated, ?_, fun y hy => ?_, fun settled => ?_⟩
    · rw [hhistory, hobserved.history, List.map_append, List.map_map, List.append_assoc]
      simp [Function.comp_def]
    · rcases List.mem_append.mp hy with hy | hy
      · obtain ⟨c, hc, rfl⟩ := List.mem_map.mp hy
        change c.settlement.Allows x.2
        rw [hobserved.knowledge c hc]
        exact hallows
      · exact hallowed y hy
    · rw [List.map_append, List.sum_append, hsum, sum_settledDelta, hobserved.total]
      rfl

end Runs

/-! ### A sale whose day is not known, and an exchange of quantities without cost -/

/-- Ten units of an instrument without cost, with a known day of acquisition. -/
def acquiredOf (id : EventId) (instrument : InstrumentId) (day : Date) : Event :=
  { openingOf id instrument (.ofInt64 10) none with
    kind := .openingPosition instrument (.ofInt64 10) none
      { acquisitionDate := some day, acquisitionDateCertainty := .known } }

/-- Ten units bought and settled on day 1, and four units sold on a day that no one knows. -/
def soldOnce : List (Event × Date) :=
  [(acquiredOf ⟨1⟩ ⟨1⟩ ⟨1⟩, ⟨1⟩), (saleOf ⟨2⟩ ⟨1⟩ (.ofInt64 4) (.ofInt64 (-4)) ⟨.new 100, .rub⟩, ⟨3⟩)]

/-- A whole position of ten units without cost, turned into another instrument on a known day. -/
def exchangeOf (id : EventId) (source target : InstrumentId) (day : Date) : Event :=
  { eventWith id ⟨1⟩ day id.uuid
      (.corporateAction (.conversion
        ⟨source, target, ⟨1⟩, Dec.one, .ofInt64 10, .ofInt64 10, .notApplicable, none, day, none, none, .carryOver⟩))
      [.security ⟨1⟩ ⟨1⟩ source (.ofInt64 (-10)), .security ⟨1⟩ ⟨1⟩ target (.ofInt64 10)] with
    dates := { EventDates.forCash day with settled := some day } }

/-- Ten units each of two instruments, both without cost. The first is turned into the second on day 5, and on day 9
    ten units are turned back. -/
def exchanged : List (Event × Date) :=
  [(acquiredOf ⟨1⟩ ⟨1⟩ ⟨1⟩, ⟨1⟩), (acquiredOf ⟨2⟩ ⟨2⟩ ⟨1⟩, ⟨1⟩), (exchangeOf ⟨3⟩ ⟨1⟩ ⟨2⟩ ⟨5⟩, ⟨5⟩),
    (exchangeOf ⟨4⟩ ⟨2⟩ ⟨1⟩ ⟨9⟩, ⟨9⟩)]

end OwnershipSound
end Iaam
