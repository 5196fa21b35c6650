import Iaam.App.TransferPairing
import Iaam.Theorems.Amendments
import Iaam.Theorems.Gate
import Iaam.Theorems.Operations
import Iaam.Lib.Runs

/-! Confirming a pairing moves no money. The two legs of a candidate are what two effective events move, the
transfer moves the same, and the two corrections exchange the one for the others. -/

namespace Iaam
namespace TransferPairing
open Outcome Amendments

/-! ### What is proposed -/

theorem mem_candidates {legs : List CashLeg} {candidate : PairingCandidate}
    (h : candidate ∈ (propose legs).candidates) :
    candidate.outgoing ∈ legs ∧ candidate.outgoing.direction = .out ∧ candidate.incoming ∈ legs ∧
      candidate.incoming.direction = .in ∧ pairs candidate.outgoing candidate.incoming = true ∧
        candidate.evidence.amountMinor = candidate.outgoing.amountMinor ∧
          candidate.evidence.currency = candidate.outgoing.currency ∧
            candidate.evidence.outgoingDate = candidate.outgoing.date := by
  obtain ⟨⟨outgoing, incoming⟩, hmem, rfl⟩ := List.mem_map.mp h
  obtain ⟨outgoing', hout, hin⟩ := List.mem_flatMap.mp hmem
  obtain ⟨incoming', hin, heq⟩ := List.mem_map.mp hin
  cases heq
  obtain ⟨hout, hdirection⟩ := List.mem_filter.mp hout
  obtain ⟨hin, hpairs⟩ := List.mem_filter.mp hin
  obtain ⟨hin, hdirection'⟩ := List.mem_filter.mp hin
  exact ⟨hout, of_decide_eq_true hdirection, hin, of_decide_eq_true hdirection', hpairs, rfl, rfl, rfl⟩

theorem pairs_iff {outgoing incoming : CashLeg} :
    pairs outgoing incoming = true ↔ outgoing.account ≠ incoming.account ∧ outgoing.currency = incoming.currency ∧
      outgoing.amountMinor = incoming.amountMinor ∧ daysApart outgoing.date incoming.date ≤ matchWindowDays := by
  simp [pairs, and_assoc]

/-- What a leg says of the event it was read off. -/
structure LegOf (e : Event) (leg : CashLeg) (amount : Money) : Prop where
  kind : legMoney e.kind = some (leg.direction, amount)
  magnitude : leg.amountMinor.raw = |amount.amount.raw|
  positive : 0 < leg.amountMinor.raw
  origin : leg.origin = .recorded e.id
  account : leg.account = e.account
  currency : leg.currency = amount.currency
  date : e.dates.cashPosted = some leg.date

theorem legOf_of_some {e : Event} {leg : CashLeg} (h : legOfEvent e = some leg) : ∃ amount, LegOf e leg amount := by
  simp only [legOfEvent, Option.bind_eq_bind, Option.bind_eq_some_iff, Option.filter_eq_some_iff,
    PostedMinor.ofInt_eq_some, decide_eq_true_eq] at h
  obtain ⟨⟨direction, amount⟩, hkind, magnitude, ⟨hmagnitude, hpositive⟩, date, hdate, h⟩ := h
  cases h
  exact ⟨amount, hkind, hmagnitude, hpositive, rfl, rfl, rfl, hdate⟩

/-! ### What the events move -/

/-- The amount with the sign of its direction. -/
def signed : Classification.Movement → Int → Int
  | .in, minor => minor
  | .out, minor => -minor

/-- The gate gives the amount the sign of the kind. -/
theorem signed_of_gate {e : Event} {leg : CashLeg} {amount : Money} (hleg : LegOf e leg amount)
    (hgate : e.validateStructure = .ok ()) : amount.amount.raw = signed leg.direction leg.amountMinor.raw := by
  have hkind := hleg.kind
  rw [hleg.magnitude]
  unfold Event.validateStructure at hgate
  cases hk : e.kind <;> rw [hk] at hkind hgate <;>
    simp only [legMoney, reduceCtorEq, Option.some.injEq, Prod.mk.injEq] at hkind
  case cashIn declared =>
    obtain ⟨hdirection, rfl⟩ := hkind
    have hsign := (Gate.expectSingleCash_sign hgate).1 rfl
    rw [← hdirection, signed, abs_of_pos hsign]
  case cashOut declared =>
    obtain ⟨hdirection, rfl⟩ := hkind
    have hsign := (Gate.expectSingleCash_sign hgate).2 rfl
    rw [← hdirection, signed, abs_of_neg hsign, neg_neg]
  case ownAccountMovement declared =>
    split_ifs at hkind with hpos hneg
    · obtain ⟨hdirection, rfl⟩ := Prod.mk.inj (Option.some.inj hkind)
      rw [← hdirection, signed, abs_of_pos hpos]
    · obtain ⟨hdirection, rfl⟩ := Prod.mk.inj (Option.some.inj hkind)
      rw [← hdirection, signed, abs_of_neg hneg, neg_neg]

theorem cashEffect_of_movements (e : Event) (key : CashKey) :
    e.cashEffect key = (e.movements.map fun m => if m.key = key then m.minor else 0).sum := by
  unfold Event.cashEffect Event.movements
  induction e.legs with
  | nil => rfl
  | cons leg legs ih =>
    rw [List.map_cons, List.sum_cons, ih, List.filterMap_cons]
    unfold Leg.cashOn Leg.movement
    cases leg.cashEffect with
    | none => simp
    | some money =>
      have hkey : (⟨leg.account, money.currency⟩ : CashKey) = key ↔
          leg.account = key.account ∧ money.currency = key.currency := by
        cases key
        simp
      simp [hkey]

/-- An event that offers a leg moves what the leg says, on the account of the leg. -/
theorem cashEffect_of_leg {e : Event} {leg : CashLeg} {amount : Money} (hleg : LegOf e leg amount)
    (hgate : e.validateStructure = .ok ()) (hlegs : e.CarriesItsLegs) (key : CashKey) :
    e.cashEffect key = amountOn leg.account leg.currency (signed leg.direction leg.amountMinor.raw) key := by
  obtain ⟨charges, hcharges, hperm⟩ := hlegs
  have hkind := hleg.kind
  have hmovements : e.kindMovements = [⟨.cash, ⟨e.account, amount.currency⟩, amount.amount.raw⟩] ∧
      e.kind.carriesCharges = false := by
    unfold Event.kindMovements
    cases hk : e.kind <;> rw [hk] at hkind <;>
      simp only [legMoney, reduceCtorEq, Option.some.injEq, Prod.mk.injEq] at hkind
    case cashIn => exact ⟨by rw [hkind.2], rfl⟩
    case cashOut => exact ⟨by rw [hkind.2], rfl⟩
    case ownAccountMovement =>
      split_ifs at hkind
      all_goals exact ⟨by rw [(Prod.mk.inj (Option.some.inj hkind)).2], rfl⟩
  have hnone : charges = [] := List.eq_nil_iff_forall_not_mem.mpr fun m hm => by
    have hcharge := (hcharges m hm).2.2
    rw [hmovements.2] at hcharge
    cases hcharge
  rw [hmovements.1, hnone, List.append_nil] at hperm
  have hkey : (⟨e.account, amount.currency⟩ : CashKey) = key ↔
      e.account = key.account ∧ amount.currency = key.currency := by
    cases key
    simp
  rw [cashEffect_of_movements, (hperm.map _).sum_eq, signed_of_gate hleg hgate |>.symm, hleg.account, hleg.currency]
  simp [amountOn, hkey]

/-! ### The transfer -/

/-- Two opposite cash legs on two accounts pass the gate as a transfer from the one to the other. -/
theorem validate_transfer {e : Event} {id : TransferId} {target : AccountId} {amount negated : Money}
    (hk : e.kind = .cashTransfer id e.account target amount)
    (hlegs : e.legs = [.cash e.account negated, .cash target amount]) (hne : target ≠ e.account)
    (hpositive : 0 < amount.amount.raw) (hraw : negated.amount.raw = -amount.amount.raw)
    (hcurrency : negated.currency = amount.currency) : e.validateStructure = .ok () := by
  have hcash : e.cashLegs = [.cash e.account negated, .cash target amount] := by
    simp [Event.cashLegs, Event.legsOfKind, hlegs, Leg.cash]
  have hout : e.cashLegs.find? (fun leg => leg.account = e.account) = some (.cash e.account negated) := by
    simp [hcash, Leg.cash]
  have hin : e.cashLegs.find? (fun leg => leg.account = target) = some (.cash target amount) := by
    simp [hcash, Leg.cash, hne.symm]
  obtain ⟨residual, hresidual⟩ : ∃ residual, negated.tryAdd amount = .ok residual :=
    ⟨⟨.zero, amount.currency⟩, Money.tryAdd_ok.mpr ⟨hcurrency, by simp [hraw], hcurrency.symm⟩⟩
  have hzero : residual.isZero = true := by
    have := (Money.tryAdd_ok.mp hresidual).2.1
    simp [this, hraw]
  have hequal : requireEqual e.kind.discriminant amount amount = .ok () := by simp [requireEqual]
  have hamount : requirePositive e.kind.discriminant "amount" amount.amount.raw = .ok () := by
    simp [requirePositive, hpositive]
  have htransfer : e.validateTransfer e.kind.discriminant e.account target amount = .ok () := by
    unfold Event.validateTransfer
    rw [if_neg hne.symm, if_neg (by simp), if_neg (by simp [hcash]), hout, hin]
    refine bind_ok.mpr ⟨negated, rfl, bind_ok.mpr ⟨amount, rfl, ?_⟩⟩
    rw [if_neg (by simp [hcurrency]), if_neg (by omega), if_neg (by omega)]
    refine seq_ok.mpr ⟨hamount, bind_ok.mpr ⟨residual, mapError_ok.mpr hresidual, ?_⟩⟩
    rw [if_pos hzero]
    exact hequal
  unfold Event.validateStructure
  rw [hk] at htransfer ⊢
  exact htransfer

/-- The transfer of a candidate is normalised, and it moves the amount from one account to the other. -/
theorem replacementFor_ok (hashes : Hashes) (fresh : Operation.Fresh) (principal : Principal)
    {candidate : PairingCandidate} (outgoing incoming : EventId) (index : Nat)
    (haccounts : candidate.outgoing.account ≠ candidate.incoming.account)
    (hpositive : 0 < candidate.evidence.amountMinor.raw) :
    ∃ r, replacementFor hashes fresh principal outgoing (transferFor candidate outgoing incoming) index = .ok r ∧
      r.id = fresh.event ∧ r.relation = .replacement outgoing ∧ r.validateStructure = .ok () ∧
        ∀ key, r.cashEffect key =
          amountOn candidate.outgoing.account candidate.evidence.currency (-candidate.evidence.amountMinor.raw) key +
            amountOn candidate.incoming.account candidate.evidence.currency candidate.evidence.amountMinor.raw key := by
  obtain ⟨negated, hnegated, hraw⟩ := Operation.exists_negated hpositive
  refine ⟨_, reraise_ok.mpr (bind_ok.mpr ⟨_, bind_ok.mpr ⟨_, Operation.build_transfer haccounts.symm hpositive hnegated, rfl⟩, rfl⟩), rfl, rfl, ?_, fun key => ?_⟩
  · exact validate_transfer rfl rfl haccounts.symm hpositive hraw rfl
  · unfold Event.cashEffect Leg.cashOn Leg.cashEffect amountOn
    simp [Leg.cash, hraw, transferFor]

/-! ### Confirming a candidate -/

/-- The money a list of events moves on an account in a currency. -/
def cashMoved (events : List Event) (key : CashKey) : Int := (events.map fun e => e.cashEffect key).sum

/-- Two lists of events leave the same cash on every account. -/
structure SameCash (events events' : List Event) : Prop where
  moved : ∀ key, cashMoved events' key = cashMoved events key
  balances : ∀ b b', events.foldlM Balances.apply .empty = .ok b → events'.foldlM Balances.apply .empty = .ok b' →
    ∀ key, b'.cashAt key = b.cashAt key

/-- No candidate over the journal has the event for a leg. -/
def NotALeg (journal : List Event) (e : Event) : Prop :=
  ∀ proposals, proposeJournalPairings journal = .ok proposals → ∀ c ∈ proposals.candidates,
    c.outgoing.origin ≠ .recorded e.id ∧ c.incoming.origin ≠ .recorded e.id

theorem cashAt_of_fold {events : List Event} {b : Balances} (h : events.foldlM Balances.apply .empty = .ok b)
    (key : CashKey) : (b.cashAt key).raw = cashMoved events key := by
  have hrun := (Runs.foldlM_ok.mp h).adds (fun b => (b.cashAt key).raw) (fun e => e.cashEffect key)
    fun _ hstep => (Balances.apply_ok hstep key ⟨key.account, ⟨0⟩⟩).1
  have hempty : (Balances.empty.cashAt key).raw = 0 := by simp [Balances.empty, Balances.cashAt]
  rw [hrun, hempty, zero_add]
  rfl

theorem sameCash_of_moved {events events' : List Event} (h : ∀ key, cashMoved events' key = cashMoved events key) :
    SameCash events events' where
  moved := h
  balances b b' hb hb' key := PostedMinor.ext_raw (by rw [cashAt_of_fold hb, cashAt_of_fold hb', h])

theorem cashMoved_perm {events events' : List Event} (hp : events.Perm events') (key : CashKey) :
    cashMoved events key = cashMoved events' key := (hp.map _).sum_eq

theorem cashMoved_append (events events' : List Event) (key : CashKey) :
    cashMoved (events ++ events') key = cashMoved events key + cashMoved events' key := by simp [cashMoved]

/-- What is named by a later fact is a leg no more. -/
theorem notALeg_of_targeted {journal : List Event} {c e : Event} (hc : c ∈ journal)
    (htarget : c.relation.target? = some e.id) : NotALeg journal e := by
  intro proposals hproposals candidate hcandidate
  obtain ⟨effective, heffective, hproposals⟩ := bind_ok.mp hproposals
  cases hproposals
  have hgone : ∀ leg ∈ effective.filterMap legOfEvent, leg.origin ≠ .recorded e.id := by
    intro leg hleg horigin
    obtain ⟨e', he', hleg⟩ := List.mem_filterMap.mp hleg
    obtain ⟨amount, hleg⟩ := legOf_of_some hleg
    have hid : e'.id = e.id := LegOrigin.recorded.inj (hleg.origin.symm.trans horigin)
    exact not_effective_of_targeted heffective hc (hid ▸ htarget) he'
  obtain ⟨hout, -, hin, -⟩ := mem_candidates hcandidate
  exact ⟨hgone _ hout, hgone _ hin⟩

/-- Two different events of a list without repetition, taken out of it. -/
theorem cashMoved_without {events : List Event} {o i : Event} (hnodup : (events.map Event.id).Nodup) (ho : o ∈ events)
    (hi : i ∈ events) (hne : o ≠ i) (key : CashKey) :
    cashMoved events key = cashMoved (events.filter fun e => !(decide (e.id = o.id) || decide (e.id = i.id))) key +
      (o.cashEffect key + i.cashEffect key) := by
  have htwo : (events.filter fun e => decide (e.id = o.id) || decide (e.id = i.id)).Perm [o, i] := by
    refine (List.perm_ext_iff_of_nodup (hnodup.of_map.filter _) (by simp [hne])).mpr fun e => ?_
    simp only [List.mem_filter, Bool.or_eq_true, decide_eq_true_eq, List.mem_cons, List.not_mem_nil, or_false]
    constructor
    · rintro ⟨he, hid | hid⟩
      · exact Or.inl (List.inj_on_of_nodup_map hnodup he ho hid)
      · exact Or.inr (List.inj_on_of_nodup_map hnodup he hi hid)
    · rintro (rfl | rfl)
      · exact ⟨ho, Or.inl rfl⟩
      · exact ⟨hi, Or.inr rfl⟩
  have hsplit := cashMoved_perm
    (List.filter_append_perm (fun e => decide (e.id = o.id) || decide (e.id = i.id)) events).symm key
  rw [hsplit, cashMoved_append, cashMoved_perm htwo, add_comm]
  simp [cashMoved]

section
variable {events effective : List Event} {o i r v : Event}

/-- Replacing one effective event and reversing another exchanges the two for the replacement. -/
theorem cashMoved_exchanged (heffective : resolve events = .ok effective) (ho : o ∈ effective) (hi : i ∈ effective)
    (hne : o ≠ i) (hr : r.relation = .replacement o.id) (hv : v.relation = .reversal i.id)
    (hfresh : (events.map Event.id ++ [r.id, v.id]).Nodup) {journal : List Event}
    (hp : journal.Perm (events ++ [r, v])) :
    ∃ effective', resolve journal = .ok effective' ∧
      ∀ key, cashMoved effective' key + (o.cashEffect key + i.cashEffect key) =
        cashMoved effective key + r.cashEffect key := by
  have htargets : ∀ new ∈ [r, v], ∃ e ∈ effective, new.relation.target? = some e.id := by
    intro new hnew
    rcases List.mem_cons.mp hnew with rfl | hnew
    · exact ⟨o, ho, by rw [hr]; rfl⟩
    · cases List.mem_singleton.mp hnew
      exact ⟨i, hi, by rw [hv]; rfl⟩
  have hamends : Amends events effective [r, v] :=
    ⟨by simpa using hfresh, htargets, by simp [replacedTargets, relationsOf, List.filterMap, ImportOrder.replaces, hr, hv]⟩
  obtain ⟨effective', heffective', hperm⟩ := hamends.resolve_ok heffective hp
  have htargeted : ∀ e : Event, targeted [r, v] e.id = (decide (e.id = o.id) || decide (e.id = i.id)) := fun e => by
    simp [targeted, hr, hv, Relation.target?, eq_comm]
  have hstay : [r, v].filter (fun new => !new.relation.isReversal) = [r] := by simp [hr, hv, Relation.isReversal]
  refine ⟨effective', heffective', fun key => ?_⟩
  have hafter : cashMoved effective' key =
      cashMoved (effective.filter fun e => !(decide (e.id = o.id) || decide (e.id = i.id))) key + r.cashEffect key := by
    rw [cashMoved_perm hperm, hstay, cashMoved_append]
    simp only [htargeted]
    simp [cashMoved]
  rw [hafter, cashMoved_without (nodup_effective heffective) ho hi hne]
  exact add_right_comm _ _ _

end

section
variable {events : List Event} {proposals : Proposals} {candidate : PairingCandidate}

/-- The replacement of the outgoing event and the reversal of the incoming one leave the cash of every account
    as it was, and from then on neither event is a leg of a candidate. -/
theorem confirming_moves_nothing (hashes : Hashes) (fresh : Operation.Fresh) (reversalId : EventId)
    (principal : Principal) (hgate : ∀ e ∈ events, e.validateStructure = .ok ())
    (hlegs : ∀ e ∈ events, (legMoney e.kind).isSome = true → e.CarriesItsLegs)
    (hproposals : proposeJournalPairings events = .ok proposals) (hcandidate : candidate ∈ proposals.candidates)
    (hfresh : (events.map Event.id ++ [fresh.event, reversalId]).Nodup) :
    ∃ effective, resolve events = .ok effective ∧ ∃ outgoing ∈ effective, ∃ incoming ∈ effective,
      candidate.outgoing.origin = .recorded outgoing.id ∧ candidate.incoming.origin = .recorded incoming.id ∧
      ∃ replacement,
        replacementFor hashes fresh principal outgoing.id (transferFor candidate outgoing.id incoming.id) 0 =
          .ok replacement ∧ replacement.validateStructure = .ok () ∧
        ∀ journal m n, journal.Perm (events ++ [replacement.stamped m,
            (reversalFor hashes reversalId incoming principal.id).stamped n]) →
          (∃ effective', resolve journal = .ok effective' ∧ SameCash effective effective') ∧
            ∀ later, journal ⊆ later → NotALeg later outgoing ∧ NotALeg later incoming := by
  obtain ⟨effective, heffective, hproposals⟩ := bind_ok.mp hproposals
  cases hproposals
  obtain ⟨hout, houtDirection, hin, hinDirection, hpairs, hamount, hcurrency, -⟩ := mem_candidates hcandidate
  obtain ⟨haccounts, hcurrencies, hamounts, -⟩ := pairs_iff.mp hpairs
  obtain ⟨o, ho, hout⟩ := List.mem_filterMap.mp hout
  obtain ⟨outAmount, hout⟩ := legOf_of_some hout
  obtain ⟨i, hi, hin⟩ := List.mem_filterMap.mp hin
  obtain ⟨inAmount, hin⟩ := legOf_of_some hin
  have hne : o ≠ i := by
    rintro rfl
    exact haccounts (hout.account.trans hin.account.symm)
  obtain ⟨r, hr, hid, hrel, hvalid, hmoves⟩ := replacementFor_ok hashes fresh principal o.id i.id 0 haccounts
    (hamount ▸ hout.positive)
  -- The transfer moves what the two events moved: the amount off the one account and onto the other.
  have hsame : ∀ key, r.cashEffect key = o.cashEffect key + i.cashEffect key := fun key => by
    have hoevent := ((mem_effective heffective).mp ho).1
    have hievent := ((mem_effective heffective).mp hi).1
    rw [hmoves, cashEffect_of_leg hout (hgate o hoevent) (hlegs o hoevent (by rw [hout.kind]; rfl)),
      cashEffect_of_leg hin (hgate i hievent) (hlegs i hievent (by rw [hin.kind]; rfl)), houtDirection, hinDirection,
      ← hcurrencies, ← hamounts, hamount, hcurrency]
    rfl
  refine ⟨effective, heffective, o, ho, i, hi, hout.origin, hin.origin, r, hr, hvalid, fun journal m n hp => ⟨?_, ?_⟩⟩
  · obtain ⟨effective', heffective', hcash⟩ := cashMoved_exchanged heffective ho hi hne
      (r := r.stamped m) (v := (reversalFor hashes reversalId i principal.id).stamped n) hrel rfl
      (by rw [Event.stamped, hid]; exact hfresh) hp
    refine ⟨effective', heffective', sameCash_of_moved fun key => ?_⟩
    have hkey := hcash key
    have hstamped : (r.stamped m).cashEffect key = r.cashEffect key := rfl
    rw [hstamped, hsame] at hkey
    exact add_right_cancel hkey
  · intro later hlater
    have hsub : ∀ e ∈ [r.stamped m, (reversalFor hashes reversalId i principal.id).stamped n], e ∈ later :=
      fun e he => hlater (hp.mem_iff.mpr (List.mem_append_right _ he))
    have hrtarget : (r.stamped m).relation.target? = some o.id := by
      rw [Event.stamped, hrel]
      rfl
    exact ⟨notALeg_of_targeted (hsub _ List.mem_cons_self) hrtarget,
      notALeg_of_targeted (hsub _ (List.mem_cons_of_mem _ List.mem_cons_self)) rfl⟩

end

/-- Money sent from one account, and the same amount that came in on another a day later. -/
def sent : Event := eventWith ⟨1⟩ ⟨1⟩ ⟨10⟩ 1 (.cashOut ⟨.new (-500), .rub⟩) [.cash ⟨1⟩ ⟨.new (-500), .rub⟩]
def received : Event := eventWith ⟨2⟩ ⟨2⟩ ⟨11⟩ 1 (.ownAccountMovement ⟨.new 500, .rub⟩) [.cash ⟨2⟩ ⟨.new 500, .rub⟩]

def samplePrincipal : Principal := ⟨9, ⟨0⟩⟩
def sampleHashes : Hashes := ⟨fun owner account _ => ⟨owner.uuid + account.uuid⟩, fun key => key⟩

/-- The two are a candidate, and confirming it leaves the cash where it was. -/
theorem sent_and_received_paired : ∃ proposals candidate, proposeJournalPairings [sent, received] = .ok proposals ∧
    candidate ∈ proposals.candidates ∧ ∃ incoming replacement : Event, ∀ journal,
      journal.Perm ([sent, received] ++
        [replacement.stamped 2, (reversalFor sampleHashes ⟨4⟩ incoming samplePrincipal.id).stamped 2]) →
      ∃ effective', resolve journal = .ok effective' ∧ SameCash [sent, received] effective' := by
  obtain ⟨proposals, hproposals⟩ :=
    exists_ok (show (proposeJournalPairings [sent, received]).isOk = true by decide)
  have hlength : proposals.candidates.length = 1 :=
    read_of_ok hproposals (fun p => p.candidates.length) (by decide)
  obtain ⟨candidate, hcandidates⟩ := List.length_eq_one_iff.mp hlength
  have hcandidate : candidate ∈ proposals.candidates := by simp [hcandidates]
  have hlegs : ∀ e ∈ [sent, received], e.movements.Perm (e.kindMovements ++ []) := by decide
  obtain ⟨effective, heffective, _, -, incoming, -, -, -, replacement, -, -, hjournal⟩ :=
    confirming_moves_nothing sampleHashes ⟨⟨3⟩, ⟨7⟩, fun _ => "f"⟩ ⟨4⟩ samplePrincipal
      (by decide) (fun e he _ => ⟨[], by simp, hlegs e he⟩) hproposals hcandidate (by decide)
  have hsame : effective = [sent, received] := read_of_ok heffective id (by decide)
  exact ⟨proposals, candidate, hproposals, hcandidate, incoming, replacement, fun journal hp =>
    hsame ▸ (hjournal journal 2 2 hp).1⟩

end TransferPairing
end Iaam
