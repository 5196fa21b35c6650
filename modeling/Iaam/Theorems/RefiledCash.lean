import Iaam.Theorems.Reclassification
import Iaam.Theorems.TransferPairing

/-! Filing a recorded row under another classification moves no money on its account: the amount and the direction
that are read off the event are what the replacement moves there, whatever it is filed as. -/

namespace Iaam

/-- The event moves money by the legs of its kind and by no others, in whatever order. -/
def Event.MovesByKind (e : Event) : Prop := e.movements.Perm e.kindMovements

instance (e : Event) : Decidable e.MovesByKind := inferInstanceAs (Decidable (List.Perm _ _))

namespace Reclassification
open Outcome TransferPairing

/-- What a row does to the account it is on. A row without a direction does nothing. -/
def moved : Option Classification.Movement → Int → Int
  | some movement, minor => signed movement minor
  | none, _ => 0

theorem moved_in {minor : Int} (h : 0 < minor) : moved (some .in) |minor| = minor := abs_of_pos h

theorem moved_out {minor : Int} (h : minor < 0) : moved (some .out) |minor| = minor := by
  rw [moved, signed, abs_of_neg h, neg_neg]

/-! ### The row of a recorded event -/

section
variable {e : Event} {s : ClassificationSubject} {cash money : Money}

/-- The first leg that moves money is the first movement. -/
theorem firstCash_eq (e : Event) :
    (e.legs.findSome? Leg.cashEffect).map (fun cash => (cash.currency, cash.amount.raw)) =
      e.movements.head?.map fun m => (m.key.currency, m.minor) := by
  unfold Event.movements
  induction e.legs with
  | nil => rfl
  | cons leg legs ih =>
    have hmovement : leg.movement = leg.cashEffect.map fun cash =>
        ⟨leg.kind, ⟨leg.account, cash.currency⟩, cash.amount.raw⟩ := rfl
    rw [List.findSome?_cons, List.filterMap_cons, hmovement]
    cases leg.cashEffect with
    | none => exact ih
    | some cash => rfl

theorem observedCash_of_head {m : Movement} (h : e.movements.head? = some m) (hcash : observedCash e = some cash) :
    cash.currency = m.key.currency ∧ cash.amount.raw = m.minor := by
  have hfirst := firstCash_eq e
  rw [h, Option.map_some] at hfirst
  obtain ⟨first, hsome, heq⟩ := Option.map_eq_some_iff.mp hfirst
  unfold observedCash at hcash
  rw [hsome, Option.some_or] at hcash
  cases hcash
  exact Prod.mk.inj heq

theorem cashEffect_of_kind (hlegs : e.MovesByKind) (key : CashKey) :
    e.cashEffect key = (e.kindMovements.map fun m => if m.key = key then m.minor else 0).sum := by
  rw [cashEffect_of_movements, (hlegs.map _).sum_eq]

/-- An event with one movement, on its own account. -/
theorem cash_of_single {kind : LegKind} (hlegs : e.MovesByKind)
    (hk : e.kindMovements = [⟨kind, ⟨e.account, money.currency⟩, money.amount.raw⟩])
    (hcash : observedCash e = some cash) (c : CurrencyCode) :
    cash.amount.raw = money.amount.raw ∧
      e.cashEffect ⟨e.account, c⟩ = if cash.currency = c then money.amount.raw else 0 := by
  have hmovements : e.movements = [⟨kind, ⟨e.account, money.currency⟩, money.amount.raw⟩] :=
    List.perm_singleton.mp (hk ▸ hlegs)
  obtain ⟨hcurrency, hraw⟩ := observedCash_of_head (by rw [hmovements]; rfl) hcash
  refine ⟨hraw, ?_⟩
  rw [cashEffect_of_kind hlegs, hk, hcurrency]
  simp

/-- A transfer, on either of its accounts: the amount leaves the one and arrives at the other. -/
theorem cash_of_transfer {id : TransferId} {source target : AccountId} (hlegs : e.MovesByKind)
    (hk : e.kind = .cashTransfer id source target money) (hne : source ≠ target) (hpos : 0 < money.amount.raw)
    (hcash : observedCash e = some cash) (c : CurrencyCode) :
    |cash.amount.raw| = money.amount.raw ∧
      e.cashEffect ⟨source, c⟩ = (if cash.currency = c then -money.amount.raw else 0) ∧
        e.cashEffect ⟨target, c⟩ = if cash.currency = c then money.amount.raw else 0 := by
  have hkind : e.kindMovements = [⟨.cash, ⟨source, money.currency⟩, -money.amount.raw⟩,
      ⟨.cash, ⟨target, money.currency⟩, money.amount.raw⟩] := by rw [Event.kindMovements, hk]
  obtain ⟨m, hm, hhead⟩ : ∃ m ∈ e.kindMovements, e.movements.head? = some m := by
    have hlength := hlegs.length_eq
    rw [hkind] at hlength
    cases hmovements : e.movements with
    | nil =>
      rw [hmovements] at hlength
      cases hlength
    | cons m rest => exact ⟨m, hlegs.subset (by rw [hmovements]; exact List.mem_cons_self), rfl⟩
  obtain ⟨hcurrency, hraw⟩ := observedCash_of_head hhead hcash
  have heffect (account : AccountId) := cashEffect_of_kind hlegs ⟨account, c⟩
  rw [hkind] at hm heffect
  have hsame : cash.currency = money.currency ∧ |cash.amount.raw| = money.amount.raw := by
    rw [hcurrency, hraw]
    simp only [List.mem_cons, List.not_mem_nil, or_false] at hm
    rcases hm with rfl | rfl
    · exact ⟨rfl, by rw [abs_neg, abs_of_pos hpos]⟩
    · exact ⟨rfl, abs_of_pos hpos⟩
  rw [heffect, heffect, hsame.1]
  exact ⟨hsame.2, by simp [hne.symm], by simp [hne]⟩

/-- A recorded event moves on its account what the row that is read off it says. -/
theorem cash_recorded (hs : subject e = some s) (hgate : e.validateStructure = .ok ()) (hlegs : e.MovesByKind)
    (hcash : observedCash e = some cash) (c : CurrencyCode) :
    e.cashEffect ⟨e.account, c⟩ = if cash.currency = c then moved s.movement |cash.amount.raw| else 0 := by
  obtain ⟨⟨counterparty, movement, farSide⟩, hparts, rfl⟩ := Option.map_eq_some_iff.mp hs
  dsimp only
  have hown {kind : LegKind} {money : Money}
      (hk : e.kindMovements = [⟨kind, ⟨e.account, money.currency⟩, money.amount.raw⟩])
      (hmoved : moved movement |money.amount.raw| = money.amount.raw) :
      e.cashEffect ⟨e.account, c⟩ = if cash.currency = c then moved movement |cash.amount.raw| else 0 := by
    obtain ⟨hraw, heffect⟩ := cash_of_single hlegs hk hcash c
    rw [heffect, hraw, hmoved]
  unfold Event.validateStructure at hgate
  unfold subjectParts at hparts
  cases hk : e.kind <;> rw [hk] at hgate hparts <;> dsimp only at hgate hparts
  case cashIn money =>
    cases hparts
    exact hown (by rw [Event.kindMovements, hk]) (moved_in ((Gate.expectSingleCash_sign hgate).1 rfl))
  case refund money =>
    cases hparts
    exact hown (by rw [Event.kindMovements, hk]) (moved_in ((Gate.expectSingleCash_sign hgate).1 rfl))
  case income instrument gross kind =>
    cases hparts
    exact hown (by rw [Event.kindMovements, hk]) (moved_in ((Gate.expectSingleCash_sign hgate).1 rfl))
  case cashOut money =>
    cases hparts
    exact hown (by rw [Event.kindMovements, hk]) (moved_out ((Gate.expectSingleCash_sign hgate).2 rfl))
  case fee money origin =>
    cases hparts
    exact hown (by rw [Event.kindMovements, hk]) (moved_out (Gate.expectSingleCharge_sign hgate))
  case ownAccountMovement money =>
    cases hparts
    have hzero := Gate.validateOwnAccountMovement_ne hgate
    refine hown (by rw [Event.kindMovements, hk]) ?_
    split_ifs with hneg
    · exact moved_out hneg
    · exact moved_in (by omega)
  case unresolvedOwnAccountMovement money =>
    cases hparts
    rw [cashEffect_of_kind hlegs, Event.kindMovements, hk]
    simp [moved]
  case cashTransfer id source target money =>
    obtain ⟨hne, hpos, -⟩ := Gate.validateTransfer_ok hgate
    obtain ⟨hraw, hout, hin⟩ := cash_of_transfer hlegs hk hne hpos hcash c
    split_ifs at hparts with hsource
    · cases hparts
      rw [← hsource, hout, hraw]
      rfl
    · cases hparts
      have htarget : e.account = target := by
        rcases Gate.validateTransfer_account hgate with h | h
        · exact absurd h.symm hsource
        · exact h
      rw [htarget, hin, hraw]
      rfl
  all_goals cases hparts

end

/-! ### The replacement -/

section
variable {row : ObservedRow} {operation : SubmittedOperation} {amountMinor : PostedMinor} {transferId : TransferId}
  {c : Classification} {movement : Option Classification.Movement} {kind : EventKind} {legs : List Leg}

/-- What is built of the operation of a row moves the amount on the account of the row, in the direction of the row. -/
theorem cash_built (hself : ∀ target, c = .internalTransfer target → target ≠ row.account)
    (hpositive : 0 < amountMinor.raw)
    (hoperation : operationOf row amountMinor c movement = some (operation.account, operation.kind))
    (hbuilt : Operation.build transferId operation.account operation.kind = .ok (kind, legs)) (currency : CurrencyCode) :
    (legs.map fun leg => leg.cashOn ⟨row.account, currency⟩).sum =
      if row.currency = currency then moved movement amountMinor.raw else 0 := by
  have hsingle (a : PostedMinor) : ([Leg.cash row.account ⟨a, row.currency⟩].map fun leg =>
      leg.cashOn ⟨row.account, currency⟩).sum = if row.currency = currency then a.raw else 0 := by
    simp [Leg.cashOn, Leg.cashEffect, Leg.cash]
  obtain ⟨n, hraw, hrow⟩ := built_of_ok hself hpositive hoperation hbuilt
  generalize operation.account = account at hrow
  cases hrow with
  | ownUnresolved => simp [moved]
  | ownIn => exact hsingle amountMinor
  | deposit => exact hsingle amountMinor
  | refund => exact hsingle amountMinor
  | income kind => exact hsingle amountMinor
  | ownOut =>
    rw [hsingle n, hraw]
    rfl
  | withdrawal =>
    rw [hsingle n, hraw]
    rfl
  | fee origin => simp [Leg.cashOn, Leg.cashEffect, Leg.fee, moved, signed, hraw]
  | transferIn target hne => simp [Leg.cashOn, Leg.cashEffect, Leg.cash, moved, signed, hne]
  | transferOut target hne => simp [Leg.cashOn, Leg.cashEffect, Leg.cash, moved, signed, hne, hraw]

end

/-- What an observed row takes of the cash that was recorded. -/
theorem observedFor_cash {debug : EventKind → String} {e : Event} {index : Nat} {row : ObservedRow}
    (h : observedFor debug e index = .ok row) :
    ∃ cash, observedCash e = some cash ∧ row.account = e.account ∧ row.amountMinor = cash.amount ∧
      row.currency = cash.currency := by
  unfold observedFor at h
  split at h
  · cases h
  · split at h
    · cases h
    · next cash hcash =>
      cases h
      exact ⟨cash, hcash, rfl, rfl, rfl⟩

/-- Filing a recorded row under any classification leaves the money of its account where it was, in every currency. -/
theorem reclassification_keeps_cash {hashes : Hashes} {debug : EventKind → String} {fresh : Operation.Fresh}
    {owner : OwnerId} {original r : Event} {c : Classification} {declaredBy : Option PrincipalId} {index : Nat}
    (hgate : original.validateStructure = .ok ()) (hlegs : original.MovesByKind)
    (h : reclassificationFor hashes debug fresh owner original c declaredBy index = .ok r) (currency : CurrencyCode) :
    r.cashEffect ⟨original.account, currency⟩ = original.cashEffect ⟨original.account, currency⟩ := by
  obtain ⟨row, operation, hrow, hoperation, hrecords⟩ := reclassificationFor_ok h
  obtain ⟨cash, hcash, haccount, hamount, hcurrency⟩ := observedFor_cash hrow
  obtain ⟨s, hs⟩ := subject_of_reclassified h
  have hmovement := (observes_of_ok hs hrow).movement
  obtain ⟨-, hself, amountMinor, hmagnitude, hfiled⟩ := resolve_ok hoperation
  obtain ⟨hraw, hpositive⟩ := magnitude_ok hmagnitude
  have hreplaced := cash_built hself hpositive hfiled hrecords.built currency
  rw [haccount, hmovement, hraw, hamount, hcurrency] at hreplaced
  rw [cash_recorded hs hgate hlegs hcash]
  exact hreplaced

/-- Money that came in from another account of the owner, as the statement of the account that received it tells. -/
def arrivedTransfer : Event :=
  eventWith ⟨1⟩ ⟨2⟩ ⟨10⟩ 1 (.cashTransfer ⟨5⟩ ⟨1⟩ ⟨2⟩ ⟨.new 500, .rub⟩)
    [.cash ⟨1⟩ ⟨.new (-500), .rub⟩, .cash ⟨2⟩ ⟨.new 500, .rub⟩]

theorem arrivedTransfer_refiled : ∃ r, reclassificationFor sampleHashes EventKind.discriminant
      ⟨⟨3⟩, ⟨7⟩, fun _ => "f"⟩ ⟨0⟩ arrivedTransfer (.internalTransfer ⟨3⟩) none 0 = .ok r ∧
    r.account = ⟨3⟩ ∧ r.cashEffect ⟨⟨2⟩, .rub⟩ = arrivedTransfer.cashEffect ⟨⟨2⟩, .rub⟩ := by
  obtain ⟨r, hr⟩ := exists_ok (show (reclassificationFor sampleHashes EventKind.discriminant
    ⟨⟨3⟩, ⟨7⟩, fun _ => "f"⟩ ⟨0⟩ arrivedTransfer (.internalTransfer ⟨3⟩) none 0).isOk = true by decide)
  have haccount : r.account = ⟨3⟩ := read_of_ok hr (fun r => r.account) (by decide)
  exact ⟨r, hr, haccount, reclassification_keeps_cash (by decide) (by decide) hr .rub⟩

end Reclassification
end Iaam
