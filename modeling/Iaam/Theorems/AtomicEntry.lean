import Iaam.Theorems.LotSteps

/-! What a failed step leaves of one entry of the book: the steps that write last.

A step works in place, so an error that comes after a write leaves the write. A sum that fails writes nothing, and
a step that reads first and writes last is atomic. -/

namespace Iaam
namespace Atomicity
open Outcome LotSteps InstrumentLots

/-! ### Entries -/

section
variable {b : LotBook} {key : LotKey} {l l' : InstrumentLots}

theorem putLots_putLots : (b.putLots key l).putLots key l' = b.putLots key l' := by
  unfold LotBook.putLots
  congr 1
  refine Std.ExtTreeMap.ext_getElem? fun k => ?_
  simp only [Tree.get_insert]
  split_ifs <;> rfl

theorem putLots_eq_iff (h : b.entries[key]? = some l) : b.putLots key l' = b ↔ l' = l := by
  constructor
  · intro heq
    have hat : (b.putLots key l').lotsAt key = l' := by rw [lotsAt_putLots, Function.update_self]
    rw [← hat, heq, lotsAt_of_get h]
  · rintro rfl
    unfold LotBook.putLots
    rw [Tree.insert_of_get h]

theorem onEntry_run {α : Type} {x : InstrumentLots.Step α} (h : b.entries[key]? = some l) :
    LotBook.onEntry key x b = ((x l).1, b.putLots key (x l).2) := by
  unfold LotBook.onEntry Mut.zoom
  dsimp only
  rw [lotsAt_of_get h]

/-- A step on an entry that is there is atomic for the book when it is for the entry. -/
theorem atomicAt_onEntry {x : InstrumentLots.Step Unit} (h : b.entries[key]? = some l) :
    Mut.AtomicAt (LotBook.onEntry key x) b ↔ Mut.AtomicAt x l := by
  unfold Mut.AtomicAt
  rw [onEntry_run h]
  constructor
  · intro hbook e l' hx
    rw [hx] at hbook
    exact (putLots_eq_iff h).mp (hbook e _ rfl)
  · intro hentry e t hx
    obtain ⟨hfst, rfl⟩ := Prod.mk.inj hx
    exact (putLots_eq_iff h).mpr (hentry e _ (Prod.ext hfst rfl))

/-- A step that fails only on an entry with something in it. -/
theorem atomicAt_onEntry_of {x : InstrumentLots.Step Unit} (hx : ∀ l, Mut.AtomicAt x l)
    (hempty : ∀ e l', x .empty ≠ (.error (.error e), l')) (b : LotBook) (key : LotKey) :
    Mut.AtomicAt (LotBook.onEntry key x) b := by
  cases hl : b.entries[key]? with
  | some l => exact (atomicAt_onEntry hl).mpr (hx l)
  | none =>
    intro e t h
    obtain ⟨l', hfail, -⟩ := Mut.zoom_error.mp h
    unfold LotBook.lotsAt at hfail
    rw [hl] at hfail
    exact absurd hfail (hempty e l')

theorem atomicAt_onEntry_total {x : InstrumentLots.Step Unit} (hx : ∀ l e l', x l ≠ (.error (.error e), l')) :
    Mut.AtomicAt (LotBook.onEntry key x) b := by
  intro e t h
  obtain ⟨l', h, -⟩ := Mut.zoom_error.mp h
  exact absurd h (hx _ e l')

theorem keeps_requireEntry (e : Event) (key : LotKey) : Mut.Keeps Eq (LotBook.requireEntry e key) :=
  .bind Mut.keeps_get fun _ => Mut.keeps_lift _

theorem keeps_requireWholePosition (e : Event) (key : LotKey) (declared : Quantity) :
    Mut.Keeps Eq (LotBook.requireWholePosition e key declared) := by
  refine .bind (keeps_requireEntry e key) fun l => .bind (Mut.keeps_lift _) fun held => ?_
  split
  · exact Mut.keeps_pure _
  · exact Mut.keeps_lift _

theorem atomicAt_requireEntry {α : Type} {e : Event} {f : InstrumentLots → LotBook.Step α} :
    Mut.AtomicAt (LotBook.requireEntry e key >>= f) b ↔
      ∀ l, b.entries[key]? = some l → Mut.AtomicAt (f l) b := by
  rw [Mut.atomicAt_bind (keeps_requireEntry e key)]
  have hread : ∀ l, (LotBook.requireEntry e key b).1 = .ok l ↔ b.entries[key]? = some l := fun l => by
    change okOr _ _ = _ ↔ _
    rw [okOr_ok]
  simp only [hread]

theorem atomicAt_lift {α β : Type} {x : Result LotError α} {f : α → LotBook.Step β} :
    Mut.AtomicAt (Mut.lift x >>= f) b ↔ ∀ a, x = .ok a → Mut.AtomicAt (f a) b :=
  Mut.atomicAt_bind (Mut.keeps_lift x)

theorem atomicAt_requireWholePosition {α : Type} {e : Event} {declared : Quantity} {f : Unit → LotBook.Step α} :
    Mut.AtomicAt (LotBook.requireWholePosition e key declared >>= f) b ↔
      ∀ l, b.entries[key]? = some l → l.quantity = .ok declared → Mut.AtomicAt (f ()) b := by
  have hkeeps := keeps_requireWholePosition e key declared
  rw [Mut.atomicAt_bind hkeeps]
  constructor
  · intro hf l hl hq
    exact hf () (congrArg Prod.fst (requireWholePosition_iff.mpr ⟨⟨l, hl, hq⟩, rfl⟩))
  · intro hf _ hok
    obtain ⟨⟨l, hl, hq⟩, -⟩ := requireWholePosition_iff.mp (Prod.ext hok (hkeeps b).symm)
    exact hf l hl hq

end

/-! ### A sum that fails writes nothing -/

theorem addTotal_error {total : InstrumentLots → Option Money} {put : Money → InstrumentLots → InstrumentLots}
    {amount : Money} {l l' : InstrumentLots} {f : Fail LotError} (h : addTotal total put amount l = (.error f, l')) :
    (∃ e, accumulate (total l) amount = .error e) ∧ l' = l := by
  unfold addTotal at h
  rw [Mut.get_bind] at h
  rcases Mut.bind_error.mp h with h | ⟨sum, u, -, h⟩
  · obtain ⟨hsum, hl⟩ := Mut.lift_error.mp h
    obtain ⟨e, he, -⟩ := convert_error.mp hsum
    exact ⟨⟨e, he⟩, hl⟩
  · exact absurd h Mut.modify_error

theorem addTotal_of_error {total : InstrumentLots → Option Money} {put : Money → InstrumentLots → InstrumentLots}
    {amount : Money} {l : InstrumentLots} {e : MoneyError} (h : accumulate (total l) amount = .error e) :
    addTotal total put amount l = (.error (.error (.money e)), l) := by
  unfold addTotal
  rw [Mut.get_bind, h]
  rfl

/-- A sum, then a write: the shape of an acquisition. The sum cannot fail where there is no total yet. -/
theorem atomicAt_addTotal_modify {total : InstrumentLots → Option Money} {put : Money → InstrumentLots → InstrumentLots}
    {amount : Money} {g : InstrumentLots → InstrumentLots} (hempty : total .empty = none) (b : LotBook) (key : LotKey) :
    Mut.AtomicAt (LotBook.onEntry key (addTotal total put amount >>= fun _ => Mut.modify g)) b := by
  have hfail : ∀ {l l' : InstrumentLots} {f : Fail LotError},
      (addTotal total put amount >>= fun _ => Mut.modify g) l = (.error f, l') →
      (∃ e, accumulate (total l) amount = .error e) ∧ l' = l := by
    intro l l' f h
    rcases Mut.bind_error.mp h with h | ⟨_, u, -, h⟩
    · exact addTotal_error h
    · exact absurd h Mut.modify_error
  refine atomicAt_onEntry_of (fun l e l' h => (hfail h).2) (fun e l' h => ?_) b key
  obtain ⟨⟨err, hsum⟩, -⟩ := hfail h
  rw [hempty] at hsum
  cases hsum

theorem atomicAt_acquire (lot : Lot) (settlement : SettlementKnowledge) (b : LotBook) (key : LotKey) :
    Mut.AtomicAt (LotBook.onEntry key (acquire lot settlement)) b :=
  atomicAt_addTotal_modify rfl b key

theorem atomicAt_restorePriced (lot : Lot) (settlement : SettlementKnowledge) (b : LotBook) (key : LotKey) :
    Mut.AtomicAt (LotBook.onEntry key (restorePriced lot settlement)) b :=
  atomicAt_addTotal_modify rfl b key

theorem restoreUnpriced_error {quantity : Quantity} {settlement : SettlementKnowledge} {l l' : InstrumentLots}
    {f : Fail LotError} (h : restoreUnpriced quantity settlement l = (.error f, l')) :
    (∃ e, l.unpriced.checkedAdd quantity = .error e) ∧ l' = l := by
  unfold restoreUnpriced at h
  rw [Mut.get_bind] at h
  rcases Mut.bind_error.mp h with h | ⟨unpriced, u, -, h⟩
  · obtain ⟨hadd, hl⟩ := Mut.lift_error.mp h
    obtain ⟨e, he, -⟩ := convert_error.mp hadd
    exact ⟨⟨e, he⟩, hl⟩
  · exact absurd h Mut.modify_error

theorem atomicAt_restoreUnpriced (quantity : Quantity) (settlement : SettlementKnowledge) (b : LotBook)
    (key : LotKey) : Mut.AtomicAt (LotBook.onEntry key (restoreUnpriced quantity settlement)) b := by
  refine atomicAt_onEntry_of (fun l e l' h => (restoreUnpriced_error h).2) (fun e l' h => ?_) b key
  obtain ⟨⟨err, hadd⟩, -⟩ := restoreUnpriced_error h
  have hok : Dec.zero.checkedAdd quantity = .ok quantity := Dec.checkedAdd_ok.mpr (zero_add _).symm
  exact absurd (hadd.symm.trans hok) (by simp)

end Atomicity
end Iaam
