import Iaam.Theorems.Gate
import Iaam.Theorems.MoneyFlowIdentity
import Mathlib.Algebra.BigOperators.Fin
import Mathlib.Algebra.Order.BigOperators.Group.Finset

/-! How much moved between the accounts of the contour. The report keeps one signed sum for each account and
adds up the positive ones, so what an account both received and sent is lost from the figure. -/

namespace Iaam
namespace MoneyFlow
open Outcome

/-- A transfer between two accounts of the contour, in a currency and dated in the window. -/
structure Inside where
  source : AccountId
  target : AccountId
  minor : Int
  deriving DecidableEq, Repr

def inside? (contour : ContourDefinition) (window : DateWindow) (c : CurrencyCode) (e : Event) : Option Inside :=
  match e.kind with
  | .cashTransfer _ source target amount =>
    if contour.contains source && contour.contains target && amount.currency = c &&
        e.dates.effectiveDate.any window.covers then some ⟨source, target, amount.amount.raw⟩
    else none
  | _ => none

/-- The transfers inside the contour, in the order of the run. -/
def insides (contour : ContourDefinition) (window : DateWindow) (c : CurrencyCode) (events : List Event) : List Inside :=
  events.filterMap (inside? contour window c)

/-- What passes through one end of the transfers, on an account. -/
def passing (side : Inside → AccountId) (transfers : List Inside) (account : AccountId) : Int :=
  (transfers.map fun t => if side t = account then t.minor else 0).sum

/-- What an account receives, and what it sends. -/
def received : List Inside → AccountId → Int := passing Inside.target
def sent : List Inside → AccountId → Int := passing Inside.source

/-! ### Adding up transfers -/

section
variable {transfers : List Inside}

theorem passing_nonneg (side : Inside → AccountId) (hpos : ∀ t ∈ transfers, 0 < t.minor) (account : AccountId) :
    0 ≤ passing side transfers account := by
  refine List.sum_nonneg fun n hn => ?_
  obtain ⟨t, ht, rfl⟩ := List.mem_map.mp hn
  have := hpos t ht
  split <;> omega

theorem passing_pos (side : Inside → AccountId) (hpos : ∀ t ∈ transfers, 0 < t.minor) {account : AccountId} :
    0 < passing side transfers account ↔ ∃ t ∈ transfers, side t = account := by
  induction transfers with
  | nil => simp [passing]
  | cons t ts ih =>
    have hrest := fun x hx => hpos x (List.mem_cons_of_mem _ hx)
    have hnonneg := passing_nonneg side hrest account
    have hhead := hpos t List.mem_cons_self
    have hcons : passing side (t :: ts) account = (if side t = account then t.minor else 0) + passing side ts account := by
      simp [passing]
    rw [hcons]
    by_cases ht : side t = account
    · rw [if_pos ht]
      exact ⟨fun _ => ⟨t, List.mem_cons_self, ht⟩, fun _ => by omega⟩
    · rw [if_neg ht, zero_add, ih hrest]
      simp [ht]

/-- Every transfer arrives at one account. -/
theorem sum_received {keys : Finset CashKey} {c : CurrencyCode} (h : ∀ t ∈ transfers, ⟨t.target, c⟩ ∈ keys) :
    ∑ k ∈ keys, (if k.currency = c then received transfers k.account else 0) = (transfers.map Inside.minor).sum := by
  induction transfers with
  | nil => simp [received, passing]
  | cons t ts ih =>
    have hone : ∑ k ∈ keys, (if k.currency = c then (if t.target = k.account then t.minor else 0) else 0) = t.minor := by
      rw [Finset.sum_eq_single_of_mem ⟨t.target, c⟩ (h t List.mem_cons_self)]
      · simp
      · intro k _ hne
        split_ifs with hcur htarget
        · exact absurd (by cases k; simp_all) hne
        · rfl
        · rfl
    have hsplit : ∀ k : CashKey, (if k.currency = c then received (t :: ts) k.account else 0) =
        (if k.currency = c then (if t.target = k.account then t.minor else 0) else 0) +
          if k.currency = c then received ts k.account else 0 := fun k => by
      split_ifs <;> simp_all [received, passing]
    simp only [hsplit, Finset.sum_add_distrib, hone, ih fun x hx => h x (List.mem_cons_of_mem _ hx), List.map_cons,
      List.sum_cons]

end

/-! ### One event -/

variable {contour : ContourDefinition} {window : DateWindow} {categories : CategoryIndex} {events : List Event}
  {flow : MoneyFlow}

/-- What stays inside of what a movement brings, on a key. -/
def internalOn (key : CashKey) (quantity : Option Quantity) (k : CashKey) (minor : Int) : Int :=
  if quantity = some .internal ∧ k = key then minor else 0

def insideOn (account : AccountId) (t : Inside) : Int :=
  (if t.target = account then t.minor else 0) - if t.source = account then t.minor else 0

/-- Only a transfer between two accounts of the contour is internal, and only its monetary legs are. -/
theorem quantityOf_internal {kind : EventKind} {flowClass : FlowClass} {leg : LegKind}
    (h : quantityOf kind flowClass leg = some .internal) :
    leg = .cash ∧ flowClass = .internal ∧ ∃ id source target amount, kind = .cashTransfer id source target amount := by
  cases leg <;> cases kind <;> simp [quantityOf] at h
  · cases flowClass <;> simp at h
    exact ⟨rfl, rfl, _, _, _, _, rfl⟩

theorem legShare_internal {e : Event} {key : CashKey} {leg : Leg} (hleg : leg.kind ≠ .cash) :
    legShare (internalOn key) contour e leg = 0 := by
  unfold legShare internalOn
  have hne : quantityOf e.kind (classify contour e) leg.kind ≠ some .internal := fun h => hleg (quantityOf_internal h).1
  split
  · split <;> simp [hne]
  · rfl

/-- What an event keeps inside comes from its monetary legs. -/
theorem sum_cashLegs (e : Event) (key : CashKey) :
    (e.legs.map (legShare (internalOn key) contour e)).sum =
      (e.cashLegs.map (legShare (internalOn key) contour e)).sum := by
  unfold Event.cashLegs Event.legsOfKind
  have hsplit : ∀ legs : List Leg, (legs.map (legShare (internalOn key) contour e)).sum =
      ((legs.filter fun leg => leg.kind = .cash).map (legShare (internalOn key) contour e)).sum := fun legs => by
    induction legs with
    | nil => rfl
    | cons leg legs ih =>
      by_cases hleg : leg.kind = .cash
      · simp [hleg, ih]
      · simp [hleg, ih, legShare_internal hleg]
  exact hsplit e.legs

/-- Without a transfer inside the contour nothing is kept inside. -/
theorem internal_none {e : Event} {key : CashKey}
    (h : classify contour e ≠ .internal ∨ ∀ id source target amount, e.kind ≠ .cashTransfer id source target amount) :
    eventShare (internalOn key) contour window e = 0 := by
  have hne : ∀ kind, quantityOf e.kind (classify contour e) kind ≠ some .internal := fun kind hq => by
    obtain ⟨-, hclass, id, source, target, amount, hk⟩ := quantityOf_internal hq
    rcases h with h | h
    · exact h hclass
    · exact h id source target amount hk
  unfold eventShare
  split
  · refine List.sum_eq_zero fun n hn => ?_
    obtain ⟨leg, -, rfl⟩ := List.mem_map.mp hn
    unfold legShare internalOn
    split
    · split <;> simp [hne]
    · rfl
  · rfl

theorem legShare_of_internal {e : Event} {id : TransferId} {source target account : AccountId} {amount money : Money}
    (hk : e.kind = .cashTransfer id source target amount) (hin : classify contour e = .internal) {key : CashKey} {leg : Leg}
    (hleg : leg.kind = .cash) (ha : leg.account = account) (hm : leg.money = some money)
    (hc : contour.contains account = true) :
    legShare (internalOn key) contour e leg = if (⟨account, money.currency⟩ : CashKey) = key then money.amount.raw else 0 := by
  unfold legShare internalOn Leg.cashEffect
  rw [hleg, ha, hm, hin, hk, hc]
  simp [quantityOf]

theorem classify_transfer {e : Event} {id : TransferId} {source target : AccountId} {amount : Money}
    (hk : e.kind = .cashTransfer id source target amount) :
    classify contour e = .internal ↔ contour.contains source = true ∧ contour.contains target = true := by
  unfold classify
  simp only [hk, EventKind.flowEndpoints]
  cases contour.contains source <;> cases contour.contains target <;> simp

/-- A transfer inside the contour takes its amount from the source and gives it to the target. -/
theorem internal_transfer {e : Event} {id : TransferId} {source target : AccountId} {amount : Money}
    (hk : e.kind = .cashTransfer id source target amount)
    (hvalid : e.validateTransfer e.kind.discriminant source target amount = .ok ())
    (hin : classify contour e = .internal) (key : CashKey) :
    eventShare (internalOn key) contour window e =
      ((inside? contour window key.currency e).map (insideOn key.account)).getD 0 := by
  obtain ⟨-, -, out, inn, outMoney, hoa, hia, hom, him, hcur, hraw, hlegs⟩ := Gate.validateTransfer_ok hvalid
  obtain ⟨hs, ht⟩ := (classify_transfer hk).mp hin
  have hkind {leg : Leg} (hleg : leg = out ∨ leg = inn) : leg.kind = .cash := by
    have hmem : leg ∈ e.cashLegs := by rcases hlegs with hl | hl <;> rw [hl] <;> simp [hleg.symm, hleg]
    exact Gate.mem_legsOfKind rfl hmem
  have hsum : (e.legs.map (legShare (internalOn key) contour e)).sum =
      legShare (internalOn key) contour e out + legShare (internalOn key) contour e inn := by
    rw [sum_cashLegs]
    rcases hlegs with hl | hl <;> rw [hl] <;> simp [add_comm]
  unfold eventShare inside?
  rw [hsum, legShare_of_internal hk hin (hkind (Or.inl rfl)) hoa hom hs,
    legShare_of_internal hk hin (hkind (Or.inr rfl)) hia him ht, hk, hcur, hraw]
  obtain ⟨account, currency⟩ := key
  simp only [counts, hin, hs, ht, CashKey.mk.injEq]
  by_cases hcurrency : amount.currency = currency
  · cases hdate : e.dates.effectiveDate.any window.covers <;> simp [hcurrency, insideOn]
    by_cases hsource : source = account <;> simp [hsource]
    omega
  · simp [hcurrency]

theorem internal_event {e : Event} (hvalid : e.validateStructure = .ok ()) (key : CashKey) :
    eventShare (internalOn key) contour window e =
      ((inside? contour window key.currency e).map (insideOn key.account)).getD 0 := by
  by_cases htransfer : ∃ id source target amount, e.kind = .cashTransfer id source target amount
  · obtain ⟨id, source, target, amount, hk⟩ := htransfer
    by_cases hin : classify contour e = .internal
    · refine internal_transfer hk ?_ hin key
      unfold Event.validateStructure at hvalid
      rw [hk] at hvalid ⊢
      exact hvalid
    · have hnone : inside? contour window key.currency e = none := by
        have hout := mt (classify_transfer hk).mpr hin
        unfold inside?
        rw [hk]
        cases hs : contour.contains source <;> cases ht : contour.contains target <;> simp_all
      rw [internal_none (Or.inl hin), hnone]
      rfl
  · have hkind := fun id source target amount hk => htransfer ⟨id, source, target, amount, hk⟩
    have hnone : inside? contour window key.currency e = none := by
      unfold inside?
      split
      · next id source target amount hk => exact absurd hk (hkind id source target amount)
      · rfl
    rw [internal_none (Or.inr hkind), hnone]
    rfl

/-! ### Runs -/

/-- The ledger of the internal transfers has what each account received less what it sent. -/
theorem at_internalTransfers (hvalid : ∀ e ∈ events, e.validateStructure = .ok ())
    (h : events.foldlM (apply contour window categories) new = .ok flow) (account : AccountId) (c : CurrencyCode) :
    MoneyFlow.at flow.internalTransfers ⟨account, c⟩ =
      received (insides contour window c events) account - sent (insides contour window c events) account := by
  have hrun := run_adds (reading_at .internal ⟨account, c⟩) h
  have hshares : events.map (eventShare (internalOn ⟨account, c⟩) contour window) =
      events.map fun e => ((inside? contour window c e).map (insideOn account)).getD 0 :=
    List.map_congr_left fun e he => internal_event (hvalid e he) ⟨account, c⟩
  have hempty : MoneyFlow.at (new.ledgerOf .internal) ⟨account, c⟩ = 0 := by simp [new, ledgerOf, MoneyFlow.at]
  have hsum := congrArg List.sum hshares
  rw [Cut.sum_filterMap] at hsum
  rw [hempty, zero_add] at hrun
  refine hrun.trans (hsum.trans ?_)
  unfold received sent passing insides
  induction events.filterMap (inside? contour window c) with
  | nil => rfl
  | cons t ts ih =>
    simp only [List.map_cons, List.sum_cons, insideOn] at ih ⊢
    omega

/-- The figure is short by what each account both received and sent. -/
theorem internalTransfers_eq (hvalid : ∀ e ∈ events, e.validateStructure = .ok ())
    (h : events.foldlM (apply contour window categories) new = .ok flow) {c : CurrencyCode} {money : Money}
    (hq : flow.internalTransfersTotal c = .ok money) {keys : Finset CashKey}
    (hkeys : Tree.support flow.internalTransfers ⊆ keys)
    (htargets : ∀ t ∈ insides contour window c events, ⟨t.target, c⟩ ∈ keys) :
    money.amount.raw = ((insides contour window c events).map Inside.minor).sum -
      ∑ k ∈ keys, if k.currency = c then
        min (received (insides contour window c events) k.account) (sent (insides contour window c events) k.account)
      else 0 := by
  rw [totalPositive_ok hq, Tree.total_eq_sum_of_subset hkeys, ← sum_received htargets, ← Finset.sum_sub_distrib]
  refine Finset.sum_congr rfl fun k _ => ?_
  have hat := at_internalTransfers hvalid h k.account k.currency
  by_cases hc : k.currency = c
  · rw [hc] at hat
    have hshare : Tree.share flow.internalTransfers (fun key amount => if key.currency = c then max 0 amount.raw else 0) k =
        max 0 (MoneyFlow.at flow.internalTransfers ⟨k.account, c⟩) := by
      subst hc
      unfold Tree.share MoneyFlow.at
      cases flow.internalTransfers[(⟨k.account, k.currency⟩ : CashKey)]? <;> simp
    rw [hshare, hat, if_pos hc, if_pos hc]
    omega
  · unfold Tree.share
    cases flow.internalTransfers[k]? <;> simp [hc]

theorem insides_pos (hvalid : ∀ e ∈ events, e.validateStructure = .ok ()) {c : CurrencyCode} {t : Inside}
    (ht : t ∈ insides contour window c events) : 0 < t.minor := by
  obtain ⟨e, he, hin⟩ := List.mem_filterMap.mp ht
  have hv := hvalid e he
  unfold inside? at hin
  split at hin
  · next id source target amount hk =>
    split_ifs at hin
    cases hin
    unfold Event.validateStructure at hv
    rw [hk] at hv
    exact (Gate.validateTransfer_ok hv).2.1
  · cases hin

/-- The figure is the sum of the transfers inside the contour exactly when no account that receives one sends
    another. -/
theorem internalTransfers_exact_iff (hvalid : ∀ e ∈ events, e.validateStructure = .ok ())
    (h : events.foldlM (apply contour window categories) new = .ok flow) {c : CurrencyCode} {money : Money}
    (hq : flow.internalTransfersTotal c = .ok money) :
    money.amount.raw = ((insides contour window c events).map Inside.minor).sum ↔
      ∀ t₁ ∈ insides contour window c events, ∀ t₂ ∈ insides contour window c events, t₁.target ≠ t₂.source := by
  have hpos : ∀ t ∈ insides contour window c events, 0 < t.minor := fun t ht => insides_pos hvalid ht
  have heq := internalTransfers_eq hvalid h hq Finset.subset_union_left fun t ht =>
    Finset.mem_union_right _ (List.mem_toFinset.mpr (List.mem_map.mpr ⟨t, ht, rfl⟩))
  have hnonneg : ∀ k ∈ Tree.support flow.internalTransfers ∪ ((insides contour window c events).map
      fun t => (⟨t.target, c⟩ : CashKey)).toFinset, 0 ≤ if k.currency = c then
        min (received (insides contour window c events) k.account) (sent (insides contour window c events) k.account)
      else 0 := fun k _ => by
    split_ifs
    · exact le_min (passing_nonneg _ hpos _) (passing_nonneg _ hpos _)
    · exact le_rfl
  have hzero := Finset.sum_eq_zero_iff_of_nonneg hnonneg
  rw [heq, sub_eq_self, hzero]
  constructor
  · intro hmin t₁ ht₁ t₂ ht₂ hends
    -- The common account both receives and sends, so its share does not vanish.
    have hkey := hmin ⟨t₁.target, c⟩
      (Finset.mem_union_right _ (List.mem_toFinset.mpr (List.mem_map.mpr ⟨t₁, ht₁, rfl⟩)))
    have hreceived := (passing_pos Inside.target hpos).mpr ⟨t₁, ht₁, rfl⟩
    have hsent := (passing_pos Inside.source hpos).mpr ⟨t₂, ht₂, hends.symm⟩
    simp only [if_true] at hkey
    exact absurd hkey (lt_min hreceived hsent).ne'
  · intro hends k _
    split_ifs with hc
    · by_contra hne
      have hmin := lt_of_le_of_ne (le_min (passing_nonneg Inside.target hpos k.account)
        (passing_nonneg Inside.source hpos k.account)) (Ne.symm hne)
      obtain ⟨t₁, ht₁, htarget⟩ := (passing_pos Inside.target hpos).mp (lt_min_iff.mp hmin).1
      obtain ⟨t₂, ht₂, hsource⟩ := (passing_pos Inside.source hpos).mp (lt_min_iff.mp hmin).2
      exact hends t₁ ht₁ t₂ ht₂ (htarget.trans hsource.symm)
    · rfl

/-- A transfer within the household. -/
def sampleTransfer (n : Nat) (source target : AccountId) (out inn : Int64) : Event :=
  eventWith ⟨n⟩ source ⟨10⟩ n (.cashTransfer ⟨n⟩ source target ⟨.new inn, .rub⟩)
    [.cash source ⟨.new out, .rub⟩, .cash target ⟨.new inn, .rub⟩]

theorem internalTransfers_one_way :
    ∃ flow money, [sampleTransfer 1 ⟨1⟩ ⟨2⟩ (-500) 500, sampleTransfer 2 ⟨1⟩ ⟨2⟩ (-300) 300].foldlM
        (apply household august noCategories) new = .ok flow ∧
      flow.internalTransfersTotal .rub = .ok money ∧ money.amount.raw = 800 := by
  have hvalid : ∀ e ∈ [sampleTransfer 1 ⟨1⟩ ⟨2⟩ (-500) 500, sampleTransfer 2 ⟨1⟩ ⟨2⟩ (-300) 300],
      e.validateStructure = .ok () := by decide
  obtain ⟨money, hq⟩ := exists_ok (show ([sampleTransfer 1 ⟨1⟩ ⟨2⟩ (-500) 500, sampleTransfer 2 ⟨1⟩ ⟨2⟩ (-300) 300].foldlM
    (apply household august noCategories) new >>= fun flow => flow.internalTransfersTotal .rub).isOk = true by
      decide)
  obtain ⟨flow, h, hq⟩ := bind_ok.mp hq
  refine ⟨flow, money, h, hq, ?_⟩
  rw [(internalTransfers_exact_iff hvalid h hq).mpr (by decide)]
  decide

/-- There and back: both transfers moved money, and the figure is zero. -/
theorem internalTransfers_there_and_back :
    ∃ flow money, [sampleTransfer 1 ⟨1⟩ ⟨2⟩ (-500) 500, sampleTransfer 2 ⟨2⟩ ⟨1⟩ (-500) 500].foldlM
        (apply household august noCategories) new = .ok flow ∧
      flow.internalTransfersTotal .rub = .ok money ∧ money.amount.raw = 0 ∧
        ((insides household august .rub [sampleTransfer 1 ⟨1⟩ ⟨2⟩ (-500) 500, sampleTransfer 2 ⟨2⟩ ⟨1⟩ (-500) 500]).map
          Inside.minor).sum = 1000 := by
  obtain ⟨money, hq⟩ := exists_ok (show ([sampleTransfer 1 ⟨1⟩ ⟨2⟩ (-500) 500, sampleTransfer 2 ⟨2⟩ ⟨1⟩ (-500) 500].foldlM
    (apply household august noCategories) new >>= fun flow => flow.internalTransfersTotal .rub).isOk = true by
      decide)
  have hzero : money.amount.raw = 0 := read_of_ok hq (fun money => money.amount.raw) (by decide)
  obtain ⟨flow, h, hq⟩ := bind_ok.mp hq
  exact ⟨flow, money, h, hq, hzero, by decide⟩

end MoneyFlow
end Iaam
