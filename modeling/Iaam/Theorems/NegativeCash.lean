import Iaam.Event.Declared
import Iaam.Event.Validate
import Iaam.Lib.Runs
import Iaam.Lib.Spells
import Iaam.Perimeter
import Iaam.Theorems.ReplayOrder

/-! Spans of negative cash. The balance of a key is moved leg by leg, and the spans follow it leg by leg too: so they
are the spells of the running total of the legs. They are the spells of the balance behind each event exactly when no
event takes the balance across zero and back. -/

namespace Iaam
namespace NegativeCash
open Perimeter Spells Outcome

/-! ### One key of the fold -/

def keyOf (span : NegativeCashSpan) : CashKey := ⟨span.account, span.currency⟩

def balanceAt (p : Progress) (key : CashKey) : Int := (p.balances[key]?.getD .zero).raw

/-- What the fold has at a key is a track of the key. -/
structure Shows (financing : Tree.Set AccountId) (policy : PerimeterPolicy) (key : CashKey) (p : Progress)
    (t : Track Date Int) : Prop where
  level : balanceAt p key = t.level
  since : p.open[key]? = t.since
  ended : p.spans.filter (fun span => keyOf span = key) =
    t.ended.map fun s => Perimeter.classify key s.1 (some s.2) financing policy

variable {financing : Tree.Set AccountId} {policy : PerimeterPolicy} {key : CashKey} {p p' : Progress}
  {t : Track Date Int} {date : Date} {leg : Leg}

theorem keyOf_classify (start : Date) (resolved : Option Date) :
    keyOf (Perimeter.classify key start resolved financing policy) = key := rfl

theorem cashOn_of_cashEffect {money : Money} (h : leg.cashEffect = some money) (key : CashKey) :
    leg.cashOn key = if (⟨leg.account, money.currency⟩ : CashKey) = key then money.amount.raw else 0 := by
  cases key
  simp only [Leg.cashOn, h, CashKey.mk.injEq]

/-- A leg without a cash effect does nothing, and any other moves the balance of its key and settles the spans. -/
theorem applyLeg_cases (h : p.applyLeg financing policy date leg = .ok p') :
    (leg.cashEffect = none ∧ p' = p) ∨
    ∃ money slot, leg.cashEffect = some money ∧
      slot.raw = balanceAt p ⟨leg.account, money.currency⟩ + money.amount.raw ∧
      p' = Progress.settle financing policy
        { p with balances := p.balances.insert ⟨leg.account, money.currency⟩ slot } date ⟨leg.account, money.currency⟩
        slot := by
  simp only [Progress.applyLeg] at h
  cases hcash : leg.cashEffect with
  | none =>
    rw [hcash] at h
    exact .inl ⟨rfl, (Except.ok.inj h).symm⟩
  | some money =>
    rw [hcash] at h
    dsimp only at h
    split at h
    · cases h
    · next slot hslot => exact .inr ⟨money, slot, rfl, PostedMinor.ofInt_eq_some.mp hslot, (Except.ok.inj h).symm⟩

/-- The balances are not touched when the spans are settled. -/
theorem settle_balances (slot : PostedMinor) : (p.settle financing policy date key slot).balances = p.balances := by
  simp only [Progress.settle]
  split <;> rfl

theorem settle_of_ne {other : CashKey} (hne : other ≠ key) (slot : PostedMinor) :
    (p.settle financing policy date other slot).open[key]? = p.open[key]? ∧
      (p.settle financing policy date other slot).spans.filter (fun span => keyOf span = key) =
        p.spans.filter fun span => keyOf span = key := by
  simp only [Progress.settle]
  split
  · exact ⟨Tree.get_insert_of_ne hne, rfl⟩
  · refine ⟨?_, ?_⟩
    · rw [Tree.get_erase, if_neg hne]
    · rw [List.filter_append, List.filter_singleton, keyOf_classify]
      simp [hne]
  · exact ⟨rfl, rfl⟩

theorem balanceAt_applyLeg (h : p.applyLeg financing policy date leg = .ok p') (key : CashKey) :
    balanceAt p' key = balanceAt p key + leg.cashOn key := by
  rcases applyLeg_cases h with ⟨hcash, rfl⟩ | ⟨money, slot, hcash, hslot, rfl⟩
  · simp only [Leg.cashOn, hcash, add_zero]
  · rw [cashOn_of_cashEffect hcash, balanceAt, settle_balances, Tree.get_insert]
    split
    · next hkey => rw [← hkey, Option.getD_some, hslot]
    · rw [add_zero]; rfl

/-- The spans of the key of the leg move as its track does. -/
theorem Shows.settle {slot : PostedMinor} {amount : Int} (h : Shows financing policy key p t)
    (hslot : slot.raw = t.level + amount) :
    Shows financing policy key
      (Progress.settle financing policy { p with balances := p.balances.insert key slot } date key slot)
      (t.move (date, amount)) := by
  have hlevel : balanceAt (Progress.settle financing policy { p with balances := p.balances.insert key slot } date key slot)
      key = (t.move (date, amount)).level := by
    rw [balanceAt, settle_balances, Tree.get_insert_self, Option.getD_some, hslot, Track.move_level]
  obtain ⟨level, since, ended⟩ := t
  obtain ⟨-, hsince, hover⟩ := h
  dsimp only at hslot hsince hover
  refine ⟨hlevel, ?_, ?_⟩
  · simp only [Progress.settle, Track.move, hslot, hsince]
    cases since with
    | none => by_cases hneg : level + amount < 0 <;> simp [hneg, hsince]
    | some start => by_cases hneg : level + amount < 0 <;> simp [hneg, hsince]
  · simp only [Progress.settle, Track.move, hslot, hsince]
    cases since with
    | none => by_cases hneg : level + amount < 0 <;> simp [hneg, hover]
    | some start => by_cases hneg : level + amount < 0 <;> simp [hneg, hover, keyOf_classify]

/-- A leg moves the track of every key by what it moves there. -/
theorem Shows.applyLeg (h : Shows financing policy key p t) (ht : t.Sound)
    (hok : p.applyLeg financing policy date leg = .ok p') :
    Shows financing policy key p' (t.move (date, leg.cashOn key)) := by
  have hlevel := balanceAt_applyLeg hok key
  rcases applyLeg_cases hok with ⟨hcash, rfl⟩ | ⟨money, slot, hcash, hslot, rfl⟩
  · have hzero : leg.cashOn key = 0 := by simp only [Leg.cashOn, hcash]
    rw [hzero, move_zero ht]
    exact h
  · by_cases hkey : (⟨leg.account, money.currency⟩ : CashKey) = key
    · have hamount : leg.cashOn key = money.amount.raw := by rw [cashOn_of_cashEffect hcash, if_pos hkey]
      rw [hkey, h.level, ← hamount] at hslot
      rw [hkey]
      exact h.settle hslot
    · have hzero : leg.cashOn key = 0 := by rw [cashOn_of_cashEffect hcash, if_neg hkey]
      rw [hzero, add_zero, h.level] at hlevel
      rw [hzero, move_zero ht]
      obtain ⟨hopen, hspans⟩ := settle_of_ne (p := { p with balances := p.balances.insert _ slot }) hkey slot
      exact ⟨hlevel, hopen.trans h.since, hspans.trans h.ended⟩

/-! ### A run over the legs -/

/-- The legs of the events one by one, each under the date of its event. -/
def datedLegs (ordered : List (Date × Event)) : List (Date × Leg) :=
  ordered.flatMap fun entry => entry.2.legs.map fun leg => (entry.1, leg)

/-- What the legs of each event move on a key. -/
def groups (key : CashKey) (ordered : List (Date × Event)) : List (Date × List Int) :=
  ordered.map fun entry => (entry.1, entry.2.legs.map fun leg => leg.cashOn key)

theorem parts_groups (key : CashKey) (ordered : List (Date × Event)) :
    parts (groups key ordered) = (datedLegs ordered).map fun l => (l.1, l.2.cashOn key) := by
  simp only [parts, groups, datedLegs, List.flatMap_map, List.map_flatMap, List.map_map, Function.comp_def]

theorem foldlM_apply (ordered : List (Date × Event)) :
    ordered.foldlM (Progress.apply financing policy) p =
      (datedLegs ordered).foldlM (fun p l => p.applyLeg financing policy l.1 l.2) p := by
  rw [datedLegs, Runs.foldlM_flatMap]
  refine Runs.foldlM_congr (fun q entry _ => ?_) p
  rw [List.foldlM_map]
  rfl

theorem Shows.run (h : Shows financing policy key p t) (ht : t.Sound) {legs : List (Date × Leg)}
    (hok : legs.foldlM (fun p l => p.applyLeg financing policy l.1 l.2) p = .ok p') :
    Shows financing policy key p' (t.run (legs.map fun l => (l.1, l.2.cashOn key))) := by
  induction legs generalizing p t with
  | nil =>
    cases hok
    exact h
  | cons l legs ih =>
    obtain ⟨q, hleg, hok⟩ := bind_ok.mp hok
    exact ih (h.applyLeg ht hleg) (ht.move _) hok

theorem shows_empty : Shows financing policy key .empty .start := ⟨rfl, rfl, rfl⟩

/-- The spans of a key are the spells of its legs. -/
theorem filter_allSpans (h : Shows financing policy key p t) :
    (p.allSpans financing policy).filter (fun span => keyOf span = key) =
      t.spells.map fun s => Perimeter.classify key s.1 s.2 financing policy := by
  have hopen : (p.open.toList.map fun entry => Perimeter.classify entry.1 entry.2 none financing policy).filter
      (fun span => keyOf span = key) = t.since.toList.map fun start => Perimeter.classify key start none financing policy := by
    rw [List.filter_map]
    change (p.open.toList.filter fun entry => entry.1 = key).map _ = _
    rw [Tree.filter_toList, h.since, List.map_map]
    rfl
  rw [Progress.allSpans, List.filter_append, h.ended, hopen, Track.spells, List.map_append, List.map_map, List.map_map]
  rfl

/-- A leg is refused only when the balance of its key leaves the range. -/
theorem exists_applyLeg (h : ∀ key, FitsI64 (balanceAt p key + leg.cashOn key)) :
    ∃ p', p.applyLeg financing policy date leg = .ok p' := by
  simp only [Progress.applyLeg]
  cases hcash : leg.cashEffect with
  | none => exact ⟨p, rfl⟩
  | some money =>
    have hfits := h ⟨leg.account, money.currency⟩
    rw [cashOn_of_cashEffect hcash, if_pos rfl] at hfits
    simp only [PostedMinor.checkedAdd, PostedMinor.ofInt]
    rw [dif_pos (show FitsI64 ((p.balances[(⟨leg.account, money.currency⟩ : CashKey)]?.getD .zero).raw + money.amount.raw)
      from hfits)]
    exact ⟨_, rfl⟩

theorem exists_foldlM_applyLeg {legs : List (Date × Leg)} :
    (∃ p', legs.foldlM (fun p l => p.applyLeg financing policy l.1 l.2) p = .ok p') ↔
      ∀ key n, FitsI64 (balanceAt p key + ((legs.take n).map fun l => l.2.cashOn key).sum) :=
  Runs.exists_foldlM_iff balanceAt (fun (l : Date × Leg) key => l.2.cashOn key) FitsI64
    (fun _ _ => PostedMinor.fits _) (fun h key => balanceAt_applyLeg h key) exists_applyLeg

/-! ### The assessment -/

variable {effective effective' : List Event} {dated ord ord' : List (Date × Event)} {a a' : PerimeterAssessment}

/-- The same event with its legs in another order. -/
def LegsReordered (e e' : Event) : Prop := e.legs.Perm e'.legs ∧ e' = { e with legs := e'.legs }

/-- No balance leaves the range on the way through the legs. -/
def Fits (effective : List Event) : Prop :=
  ∀ key n, FitsI64 ((((sortForReplay effective).flatMap Event.legs).take n).map fun leg => leg.cashOn key).sum

theorem datedEvent_ok {e : Event} {entry : Date × Event} :
    datedEvent e = .ok entry ↔ entry.2 = e ∧ e.dates.effectiveDate = some entry.1 := by
  simp only [datedEvent]
  cases e.dates.effectiveDate with
  | none => simp
  | some date =>
    obtain ⟨d, e'⟩ := entry
    simp [eq_comm, and_comm]

theorem ordered_ok (h : ordered effective = .ok ord) :
    ord.map Prod.snd = sortForReplay effective ∧ ∀ entry ∈ ord, entry.2.dates.effectiveDate = some entry.1 := by
  obtain ⟨dated, hdated, h⟩ := bind_ok.mp h
  cases h
  have hall := Runs.mapM_ok.mp hdated
  have hevents : dated.map Prod.snd = effective := by
    rw [← List.forall₂_eq_eq_eq, List.forall₂_map_left_iff]
    exact hall.flip.imp fun entry e h => (datedEvent_ok.mp h).1
  refine ⟨?_, fun entry hentry => ?_⟩
  · rw [List.map_insertionSort (s := fun l r => compareForReplay l r ≠ .gt) _ _ _ fun _ _ _ _ => Iff.rfl, hevents]
    rfl
  · obtain ⟨e, -, he⟩ := Runs.exists_left hall ((List.mem_insertionSort _).mp hentry)
    obtain ⟨hevent, hdate⟩ := datedEvent_ok.mp he
    rw [hevent, hdate]

theorem fits_iff (financing : Tree.Set AccountId) (policy : PerimeterPolicy) (h : ordered effective = .ok ord) :
    (∃ p, (datedLegs ord).foldlM (fun (p : Progress) l => p.applyLeg financing policy l.1 l.2) .empty = .ok p) ↔
      Fits effective := by
  have hlegs : (datedLegs ord).map Prod.snd = (sortForReplay effective).flatMap Event.legs := by
    rw [← (ordered_ok h).1, datedLegs, List.map_flatMap, List.flatMap_map]
    simp only [List.map_map, Function.comp_def, List.map_id']
  rw [exists_foldlM_applyLeg, Fits, ← hlegs]
  refine forall₂_congr fun key n => ?_
  rw [← List.map_take, List.map_map, show balanceAt .empty key = 0 from rfl, zero_add]
  rfl

/-- What a successful assessment is made of. -/
theorem assess_ok (h : assessEffective effective policy = .ok a) : ∃ ord p, ordered effective = .ok ord ∧
    (datedLegs ord).foldlM (fun (p : Progress) l => p.applyLeg (financingOf ord) policy l.1 l.2) .empty = .ok p ∧
    a.spans = Numbered.sortBy spanKey (p.allSpans (financingOf ord) policy) := by
  obtain ⟨ord, hord, h⟩ := bind_ok.mp h
  obtain ⟨p, hp, h⟩ := bind_ok.mp h
  cases h
  rw [foldlM_apply] at hp
  exact ⟨ord, p, hord, hp, rfl⟩

theorem exists_assess (policy : PerimeterPolicy) (hord : ordered effective = .ok ord) (hfits : Fits effective) :
    ∃ a, assessEffective effective policy = .ok a := by
  obtain ⟨p, hp⟩ := (fits_iff (financingOf ord) policy hord).mpr hfits
  refine ⟨_, bind_ok.mpr ⟨ord, hord, bind_ok.mpr ⟨p, ?_, rfl⟩⟩⟩
  rw [foldlM_apply]
  exact hp

/-! ### Legs in another order -/

/-- An entry with its legs in another order. -/
def EntryReordered (x y : Date × Event) : Prop := y.1 = x.1 ∧ LegsReordered x.2 y.2

theorem compareForReplay_reordered {e e' f f' : Event} (he : LegsReordered e e') (hf : LegsReordered f f') :
    compareForReplay e f = compareForReplay e' f' := by
  rw [he.2, hf.2]
  rfl

theorem dated_reordered (hL : List.Forall₂ LegsReordered effective effective')
    (h : List.Forall₂ (fun e entry => datedEvent e = .ok entry) effective dated) :
    ∃ dated', List.Forall₂ (fun e entry => datedEvent e = .ok entry) effective' dated' ∧
      List.Forall₂ EntryReordered dated dated' := by
  induction hL generalizing dated with
  | nil =>
    cases h
    exact ⟨[], .nil, .nil⟩
  | @cons e e' L L' he _ ih =>
    obtain ⟨entry, dated, hentry, hrest, rfl⟩ := List.forall₂_cons_left_iff.mp h
    obtain ⟨hevent, hdate⟩ := datedEvent_ok.mp hentry
    obtain ⟨dated', hdated', hsame⟩ := ih hrest
    refine ⟨(entry.1, e') :: dated', .cons ?_ hdated', .cons ⟨rfl, ?_⟩ hsame⟩
    · refine datedEvent_ok.mpr ⟨rfl, ?_⟩
      rw [he.2]
      exact hdate
    · rw [hevent]
      exact he

theorem ordered_reordered (hL : List.Forall₂ LegsReordered effective effective') (h : ordered effective = .ok ord) :
    ∃ ord', ordered effective' = .ok ord' ∧ List.Forall₂ EntryReordered ord ord' := by
  obtain ⟨dated, hdated, h⟩ := bind_ok.mp h
  cases h
  obtain ⟨dated', hdated', hsame⟩ := dated_reordered hL (Runs.mapM_ok.mp hdated)
  refine ⟨_, bind_ok.mpr ⟨dated', Runs.mapM_ok.mpr hdated', rfl⟩, ?_⟩
  refine Numbered.forall₂_insertionSort (fun x x' y y' hx hy => ?_) hsame
  rw [compareForReplay_reordered hx.2 hy.2]

theorem wholes_reordered (h : List.Forall₂ EntryReordered ord ord') (key : CashKey) :
    wholes (groups key ord) = wholes (groups key ord') := by
  induction h with
  | nil => rfl
  | @cons x y ord ord' hxy _ ih =>
    have hsum : (x.2.legs.map fun leg => leg.cashOn key).sum = (y.2.legs.map fun leg => leg.cashOn key).sum :=
      (hxy.2.1.map _).sum_eq
    change (x.1, _) :: wholes (groups key ord) = (y.1, _) :: wholes (groups key ord')
    rw [ih, hxy.1, hsum]

theorem financingOf_reordered (h : List.Forall₂ EntryReordered ord ord') : financingOf ord = financingOf ord' := by
  have hfold : ∀ financing : Tree.Set AccountId, ord.foldl (fun financing entry =>
      if chargesMargin entry.2 then financing.insert entry.2.account else financing) financing =
      ord'.foldl (fun financing entry =>
        if chargesMargin entry.2 then financing.insert entry.2.account else financing) financing := by
    induction h with
    | nil => exact fun _ => rfl
    | @cons x y ord ord' hxy _ ih =>
      intro financing
      have hmargin : chargesMargin y.2 = chargesMargin x.2 := by rw [hxy.2.2]; rfl
      have haccount : y.2.account = x.2.account := by rw [hxy.2.2]
      rw [List.foldl_cons, List.foldl_cons, hmargin, haccount]
      exact ih _
  exact hfold ∅

/-! ### The spans and the balance behind each event -/

/-- The balance of a key behind the event at this place of the order of replay. -/
def balanceAfter (key : CashKey) (effective : List Event) (i : Nat) : Int :=
  (((sortForReplay effective).take (i + 1)).map fun e => e.cashEffect key).sum

def dateOf (effective : List Event) (i : Nat) : Option Date :=
  (sortForReplay effective)[i]?.bind fun e => e.dates.effectiveDate

def spansOf (a : PerimeterAssessment) (key : CashKey) : List NegativeCashSpan :=
  a.spans.filter fun span => keyOf span = key

/-- The spans of each key are the stretches of events behind which its balance is negative, the open one goes with the
    balance of the projection, and the order of the legs does not matter. -/
structure ExactSpans (effective : List Event) (policy : PerimeterPolicy) (a : PerimeterAssessment) : Prop where
  stretches : ∀ key, ∃ intervals,
    Exact (fun i => balanceAfter key effective i < 0) effective.length intervals ∧
    ((spansOf a key).map fun span => (some span.from, span.resolved.map some)).Perm
      (intervals.map fun s => (dateOf effective s.1, s.2.map (dateOf effective)))
  still_open : ∀ key b, (sortForReplay effective).foldlM Balances.apply .empty = .ok b →
    ((∃ span ∈ spansOf a key, span.resolved = none) ↔ (b.cashAt key).raw < 0)
  leg_order : ∀ effective' a', List.Forall₂ LegsReordered effective effective' →
    assessEffective effective' policy = .ok a' → a'.spans = a.spans

/-- No event takes the balance of a key across zero more than once, whatever order its legs stand in. -/
def CrossesOnce (effective : List Event) : Prop :=
  ∀ effective', List.Forall₂ LegsReordered effective effective' → Fits effective' → ∀ key,
    Steady 0 ((sortForReplay effective').map fun e => e.legs.map fun leg => leg.cashOn key)

theorem legsReordered_refl (effective : List Event) : List.Forall₂ LegsReordered effective effective :=
  List.forall₂_same.mpr fun _ _ => ⟨List.Perm.refl _, rfl⟩

theorem groups_amounts (h : ordered effective = .ok ord) (key : CashKey) :
    (groups key ord).map Prod.snd = (sortForReplay effective).map fun e => e.legs.map fun leg => leg.cashOn key := by
  rw [← (ordered_ok h).1, groups, List.map_map, List.map_map]
  rfl

/-- The spells of the balance behind each event, by its place. -/
def eventSpells (key : CashKey) (effective : List Event) : Track Nat Int :=
  Track.start.run (numbered ((sortForReplay effective).map fun e => e.cashEffect key))

theorem exact_eventSpells (key : CashKey) (effective : List Event) :
    Exact (fun i => balanceAfter key effective i < 0) effective.length (eventSpells key effective).spells := by
  have h := exact_spells ((sortForReplay effective).map fun e => e.cashEffect key)
  simp only [← List.map_take, List.length_map, (ReplayOrder.sortForReplay_perm_self effective).length_eq] at h
  exact h

/-- The events as whole moves are the numbered ones under their dates. -/
theorem run_wholes (h : ordered effective = .ok ord) (key : CashKey) :
    Track.start.run (wholes (groups key ord)) =
      (eventSpells key effective).relabel fun i => (ord[i]?.map Prod.fst).getD ⟨0⟩ := by
  rw [eventSpells, Track.relabel_run, ← (ordered_ok h).1]
  change _ = Track.start.run _
  refine congrArg _ ?_
  rw [numbered, List.map_map, List.zipIdx_map, List.zipIdx_map, List.map_map, List.map_map]
  have hget : ∀ x ∈ ord.zipIdx, (x.1.1, x.1.2.cashEffect key) =
      (((ord[x.2]?.map Prod.fst).getD ⟨0⟩, x.1.2.cashEffect key) : Date × Int) := by
    intro x hx
    rw [List.mem_zipIdx_iff_getElem?.mp hx]
    rfl
  calc wholes (groups key ord) = ord.map fun entry => (entry.1, entry.2.cashEffect key) := by
        rw [wholes, groups, List.map_map]
        rfl
    _ = ord.zipIdx.map fun x => (x.1.1, x.1.2.cashEffect key) := by
        rw [← List.zipIdx_map_fst 0 ord, List.map_map, List.zipIdx_map_fst]
        rfl
    _ = ord.zipIdx.map fun x => ((ord[x.2]?.map Prod.fst).getD ⟨0⟩, x.1.2.cashEffect key) :=
        List.map_congr_left hget

/-- The spans of a key are the spells of its legs, one by one. -/
def legSpells (key : CashKey) (ord : List (Date × Event)) : List (Date × Option Date) :=
  (Track.start.run (parts (groups key ord))).spells

/-- The spans before they are sorted. -/
structure Unsorted (ord : List (Date × Event)) (policy : PerimeterPolicy) (a : PerimeterAssessment)
    (all : List NegativeCashSpan) : Prop where
  sorted : a.spans = Numbered.sortBy spanKey all
  at_key : ∀ key, all.filter (fun span => keyOf span = key) =
    (legSpells key ord).map fun s => Perimeter.classify key s.1 s.2 (financingOf ord) policy

theorem exists_unsorted (h : assessEffective effective policy = .ok a) :
    ∃ ord all, ordered effective = .ok ord ∧ Fits effective ∧ Unsorted ord policy a all := by
  obtain ⟨ord, p, hord, hp, hspans⟩ := assess_ok h
  refine ⟨ord, _, hord, (fits_iff _ _ hord).mp ⟨p, hp⟩, hspans, fun key => ?_⟩
  have hshows : Shows (financingOf ord) policy key p _ := shows_empty.run Track.sound_start hp
  rw [filter_allSpans hshows, legSpells, parts_groups]

section
variable {all all' : List NegativeCashSpan}

theorem Unsorted.spansOf_perm (h : Unsorted ord policy a all) (key : CashKey) :
    (spansOf a key).Perm ((legSpells key ord).map fun s => Perimeter.classify key s.1 s.2 (financingOf ord) policy) := by
  rw [← h.at_key, spansOf, h.sorted]
  exact (List.perm_insertionSort _ _).filter _

/-- Assessments with the same spells have the same spans. -/
theorem Unsorted.spans_eq (h : Unsorted ord policy a all) (h' : Unsorted ord' policy a' all')
    (hfinancing : financingOf ord = financingOf ord') (hspells : ∀ key, legSpells key ord = legSpells key ord') :
    a'.spans = a.spans := by
  have hkey : ∀ (span : NegativeCashSpan) k, spanKey span = k ↔
      span.from = (ofLex k).1 ∧ keyOf span = ⟨(ofLex (ofLex k).2).1, (ofLex (ofLex k).2).2⟩ := by
    intro span k
    rw [keyOf, CashKey.mk.injEq]
    exact Prod.ext_iff.trans (and_congr_right fun _ => Prod.ext_iff)
  rw [h.sorted, h'.sorted]
  refine Numbered.sortBy_congr fun k => ?_
  simp only [hkey, Bool.decide_and]
  rw [← List.filter_filter, ← List.filter_filter, h.at_key, h'.at_key, hspells, hfinancing]

/-- The balance behind the last event is where the legs end. -/
theorem legs_level (hord : ordered effective = .ok ord) (key : CashKey) :
    (Track.start.run (parts (groups key ord))).level = ((sortForReplay effective).map fun e => e.cashEffect key).sum := by
  rw [Track.run_level, sum_parts, ← (ordered_ok hord).1, wholes, groups, List.map_map, List.map_map, List.map_map]
  exact zero_add _

theorem mem_spells_open {t : Track Date Int} (ht : t.Sound) : (∃ s ∈ t.spells, s.2 = none) ↔ t.level < 0 := by
  refine Iff.trans ?_ ht
  simp only [Track.spells, List.mem_append, List.mem_map]
  constructor
  · rintro ⟨s, ⟨r, -, rfl⟩ | ⟨start, hstart, rfl⟩, hs⟩
    · cases hs
    · exact Option.isSome_iff_exists.mpr ⟨start, Option.mem_toList.mp hstart⟩
  · intro h
    obtain ⟨start, hstart⟩ := Option.isSome_iff_exists.mp h
    exact ⟨(start, none), .inr ⟨start, Option.mem_toList.mpr hstart, rfl⟩, rfl⟩

theorem Unsorted.open_iff (h : Unsorted ord policy a all) (hord : ordered effective = .ok ord) (key : CashKey) :
    (∃ span ∈ spansOf a key, span.resolved = none) ↔
      ((sortForReplay effective).map fun e => e.cashEffect key).sum < 0 := by
  rw [← legs_level hord, ← mem_spells_open (Track.sound_start.run _)]
  constructor
  · rintro ⟨span, hspan, hopen⟩
    obtain ⟨s, hs, rfl⟩ := List.mem_map.mp ((h.spansOf_perm key).mem_iff.mp hspan)
    exact ⟨s, hs, hopen⟩
  · rintro ⟨s, hs, hopen⟩
    exact ⟨_, (h.spansOf_perm key).mem_iff.mpr (List.mem_map.mpr ⟨s, hs, rfl⟩), hopen⟩

end

theorem balances_run {b : Balances} {events : List Event} (h : events.foldlM Balances.apply .empty = .ok b)
    (key : CashKey) : (b.cashAt key).raw = (events.map fun e => e.cashEffect key).sum := by
  have hadds := Runs.Run.adds (fun b : Balances => (b.cashAt key).raw) (fun e : Event => e.cashEffect key)
    (fun _ hstep => (Balances.apply_ok hstep key ⟨key.account, ⟨0⟩⟩).1) (Runs.foldlM_ok.mp h)
  rw [hadds]
  exact zero_add _

theorem length_eventSpells (hord : ordered effective = .ok ord) (key : CashKey) :
    (Track.start.run (wholes (groups key ord))).spells.length = (eventSpells key effective).spells.length := by
  rw [run_wholes hord, Track.spells_relabel, List.length_map]

/-- Steady legs make the spells of the events. -/
theorem legSpells_of_steady (hord : ordered effective = .ok ord) (key : CashKey)
    (h : Steady 0 ((sortForReplay effective).map fun e => e.legs.map fun leg => leg.cashOn key)) :
    legSpells key ord = (Track.start.run (wholes (groups key ord))).spells := by
  rw [← groups_amounts hord] at h
  rw [legSpells, run_parts Track.sound_start h]

theorem dateOf_eq (hord : ordered effective = .ok ord) {i : Nat} (hi : i < effective.length) :
    dateOf effective i = some ((ord[i]?.map Prod.fst).getD ⟨0⟩) := by
  obtain ⟨hevents, hdates⟩ := ordered_ok hord
  have hlength : ord.length = effective.length := by
    rw [← List.length_map (f := Prod.snd), hevents, (ReplayOrder.sortForReplay_perm_self effective).length_eq]
  rw [dateOf, ← hevents, List.getElem?_map, List.getElem?_eq_getElem (by omega)]
  exact hdates _ (List.getElem_mem _)

/-- The spans of a key are dated by the events that they run between. -/
theorem Unsorted.dates_perm {all : List NegativeCashSpan} (h : Unsorted ord policy a all)
    (hord : ordered effective = .ok ord) {key : CashKey}
    (hsteady : Steady 0 ((sortForReplay effective).map fun e => e.legs.map fun leg => leg.cashOn key)) :
    ((spansOf a key).map fun span => (some span.from, span.resolved.map some)).Perm
      ((eventSpells key effective).spells.map fun s => (dateOf effective s.1, s.2.map (dateOf effective))) := by
  have hexact := exact_eventSpells key effective
  refine ((h.spansOf_perm key).map _).trans (.of_eq ?_)
  rw [legSpells_of_steady hord key hsteady, run_wholes hord, Track.spells_relabel, List.map_map, List.map_map]
  refine List.map_congr_left fun s hs => Prod.ext ?_ ?_
  · exact (dateOf_eq hord (hexact.below s hs).1).symm
  · change (s.2.map _).map some = s.2.map (dateOf effective)
    cases hend : s.2 with
    | none => rfl
    | some j => exact congrArg some (dateOf_eq hord (hexact.ends s hs j hend).2.1).symm

/-- The spans are those of the balances behind the events exactly when no event crosses zero twice. -/
theorem exactSpans_iff (h : assessEffective effective policy = .ok a) :
    ExactSpans effective policy a ↔ CrossesOnce effective := by
  obtain ⟨ord, all, hord, hfits, hun⟩ := exists_unsorted h
  constructor
  · intro hexact effective' hL hfits' key
    obtain ⟨ord', hord', hsame⟩ := ordered_reordered hL hord
    obtain ⟨a', ha'⟩ := exists_assess policy hord' hfits'
    obtain ⟨ord'', all', hord'', -, hun'⟩ := exists_unsorted ha'
    cases hord'.symm.trans hord''
    obtain ⟨intervals, hintervals, hperm⟩ := hexact.stretches key
    -- As many spans as spells of the events leave no room for a second crossing.
    have hcount : (legSpells key ord').length = (Track.start.run (wholes (groups key ord'))).spells.length := by
      calc (legSpells key ord').length = (spansOf a' key).length := by
            rw [(hun'.spansOf_perm key).length_eq, List.length_map]
        _ = (spansOf a key).length := by rw [spansOf, hexact.leg_order effective' a' hL ha', spansOf]
        _ = intervals.length := by simpa using hperm.length_eq
        _ = (eventSpells key effective).spells.length := (hintervals.perm (exact_eventSpells key effective)).length_eq
        _ = (Track.start.run (wholes (groups key ord))).spells.length := (length_eventSpells hord key).symm
        _ = (Track.start.run (wholes (groups key ord'))).spells.length := by rw [wholes_reordered hsame]
    rw [← groups_amounts hord']
    exact ((length_parts Track.sound_start Track.sound_start rfl (Nat.le_refl _) _).2 hcount).2
  · intro hcross
    have hsteady := hcross effective (legsReordered_refl effective) hfits
    refine ⟨fun key => ⟨_, exact_eventSpells key effective, hun.dates_perm hord (hsteady key)⟩, fun key b hb => ?_, ?_⟩
    · rw [hun.open_iff hord, balances_run hb]
    · intro effective' a' hL ha'
      obtain ⟨ord', all', hord', hfits', hun'⟩ := exists_unsorted ha'
      obtain ⟨ord'', hord'', hsame⟩ := ordered_reordered hL hord
      cases hord'.symm.trans hord''
      refine hun.spans_eq hun' (financingOf_reordered hsame) fun key => ?_
      rw [legSpells_of_steady hord key (hsteady key), wholes_reordered hsame,
        legSpells_of_steady hord' key (hcross effective' hL hfits' key)]

/-- Events of one leg cross zero at most once. -/
theorem crossesOnce_of_single (h : ∀ e ∈ effective, e.legs.length ≤ 1) : CrossesOnce effective := by
  intro effective' hL _ key
  have hshort : ∀ as ∈ (sortForReplay effective').map fun e => e.legs.map fun leg => leg.cashOn key, as.length ≤ 1 := by
    intro as has
    obtain ⟨e', he', rfl⟩ := List.mem_map.mp has
    obtain ⟨e, he, hperm, -⟩ := Runs.exists_left hL (ReplayOrder.mem_sortForReplay.mp he')
    rw [List.length_map, ← hperm.length_eq]
    exact h e he
  exact steady_of_length_le_one hshort

/-- An account is overdrawn on one day and paid into five days later. -/
def overdraft : List Event :=
  [eventWith ⟨1⟩ ⟨1⟩ ⟨3⟩ 1 (.cashOut ⟨.new (-100), .rub⟩) [.cash ⟨1⟩ ⟨.new (-100), .rub⟩],
    eventWith ⟨2⟩ ⟨1⟩ ⟨8⟩ 2 (.cashIn ⟨.new 150, .rub⟩) [.cash ⟨1⟩ ⟨.new 150, .rub⟩]]

theorem overdraft_spans : ∃ a, assessEffective overdraft .default = .ok a ∧
    a.spans = [⟨⟨1⟩, .rub, ⟨3⟩, some ⟨8⟩, .temporarySettlementDeficit⟩] ∧ ExactSpans overdraft .default a := by
  obtain ⟨a, ha⟩ := exists_ok (x := assessEffective overdraft .default) (by decide)
  refine ⟨a, ha, read_of_ok ha (fun a => a.spans) (by decide), (exactSpans_iff ha).mpr ?_⟩
  refine crossesOnce_of_single fun e he => ?_
  rcases List.mem_cons.mp he with rfl | he
  · exact Nat.le_refl 1
  · rw [List.mem_singleton.mp he]
    exact Nat.le_refl 1

/-- A payment with the tax that is withheld from it, the tax first. -/
def taxedIncome : Event :=
  eventWith ⟨1⟩ ⟨1⟩ ⟨3⟩ 1 (.income none ⟨.new 100, .rub⟩ none) [.tax ⟨1⟩ ⟨.new (-13), .rub⟩, .cash ⟨1⟩ ⟨.new 100, .rub⟩]

/-- The payment leaves the balance above zero, and has a span all the same. -/
theorem taxed_income_has_span : taxedIncome.validateStructure = .ok () ∧
    ∃ a, assessEffective [taxedIncome] .default = .ok a ∧ ¬ExactSpans [taxedIncome] .default a := by
  refine ⟨by decide, ?_⟩
  obtain ⟨a, ha⟩ := exists_ok (x := assessEffective [taxedIncome] .default) (by decide)
  refine ⟨a, ha, fun hexact => ?_⟩
  have hspans : (spansOf a ⟨⟨1⟩, .rub⟩).length = 1 := read_of_ok ha (fun a => (spansOf a ⟨⟨1⟩, .rub⟩).length) (by decide)
  obtain ⟨intervals, hintervals, hperm⟩ := hexact.stretches ⟨⟨1⟩, .rub⟩
  have hlength : intervals.length = 1 := by simpa [hspans] using hperm.length_eq.symm
  obtain ⟨s, rfl⟩ := List.length_eq_one_iff.mp hlength
  obtain ⟨hfirst, hneg⟩ := hintervals.below s (List.mem_singleton_self s)
  have hzero : s.1 = 0 := Nat.lt_one_iff.mp hfirst
  have hbelow := hneg s.1 (Nat.le_refl _) (hintervals.nonempty (List.mem_singleton_self s))
  rw [hzero] at hbelow
  exact absurd hbelow (by decide)

end NegativeCash
end Iaam
