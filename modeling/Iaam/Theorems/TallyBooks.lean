import Iaam.Http.Tally
import Iaam.Lib.Sliding

/-! The requests that left for a host, against what the tally records of them. Real time is measured in nanoseconds; every
boot began at some moment of it, and its clock shows the time since. Every part of a call keeps the books: the clock, the
pruning, the moving of a pending request, its end and its rollback. -/

namespace Iaam.Tally
open Outcome Sliding

/-- A request that left: when, and under which budget. -/
structure Departure where
  moment : Nat
  budgetKey : List Char
  deriving DecidableEq, Repr

/-- The moments of the departures under a key. -/
def momentsUnder (key : List Char) (log : List Departure) : List Nat :=
  (log.filter fun d => d.budgetKey = key).map Departure.moment

/-- The records of the departures, newest first, at a moment of real time. The boot began at `start`. -/
structure Books (start time : Nat) (log : List Departure) (lastSend : Option Nat) (daily : List Nat)
    (sent : List Char → List Nat) : Prop where
  daily : Recorded tallyRetention time (log.map Departure.moment) (daily.reverse.map fun r => start + r)
  budgets : ∀ key, Recorded tallyRetention time (momentsUnder key log) ((sent key).reverse.map fun r => start + r)
  spaced : ∀ d ∈ log.head?, ∃ l ∈ lastSend, d.moment ≤ start + l

/-- The books of a host. While a request is pending, it is the newest of its day and of its budget. After the records were
    lost, a full day of sends stands for all that may have left before. -/
inductive Accounted (start time : Nat) (log : List Departure) (h : HostState) (sent : List Char → List Nat) : Prop
  | settled (hsince : h.pendingSince = none) (hkey : h.pendingBudgetKey = none)
      (hbooks : Books start time log h.lastSend h.dailySends sent)
  | pending (since : Nat) {moment : Nat} {key : List Char} {log' : List Departure} (daily' sent' : List Nat)
      (hsince : h.pendingSince = some since) (hkey : h.pendingBudgetKey = some key) (hlog : log = ⟨moment, key⟩ :: log')
      (hmoment : moment ≤ start + since) (hdaily : h.dailySends = daily' ++ [since]) (hsent : sent key = sent' ++ [since])
      (hbooks : Books start time log' h.lastSend daily' (Function.update sent key sent'))
  | lost {since : Nat} (hsince : h.pendingSince = none) (hkey : h.pendingBudgetKey = none) (hpast : since ≤ time)
      (hbefore : ∀ d ∈ log, d.moment ≤ since) (hfull : dailyCeiling ≤ h.dailySends.length)
      (hlate : ∀ r ∈ h.dailySends, since ≤ start + r) (hlast : ∃ l ∈ h.lastSend, since ≤ start + l)

variable {start start' time time' now : Nat} {log : List Departure} {h : HostState} {sent : List Char → List Nat}
variable {lastSend : Option Nat} {daily : List Nat}

theorem mem_momentsUnder {key : List Char} {n : Nat} (hn : n ∈ momentsUnder key log) : ∃ d ∈ log, d.moment = n := by
  obtain ⟨d, hd, rfl⟩ := List.mem_map.mp hn
  exact ⟨d, List.mem_of_mem_filter hd, rfl⟩

theorem momentsUnder_cons (moment : Nat) (key key' : List Char) (log : List Departure) :
    momentsUnder key' (⟨moment, key⟩ :: log) = if key = key' then moment :: momentsUnder key' log else momentsUnder key' log := by
  unfold momentsUnder
  by_cases hkey : key = key' <;> simp [hkey]

/-! ### The books -/

theorem Books.later (hb : Books start time log lastSend daily sent) (htime : time ≤ time') :
    Books start time' log lastSend daily sent :=
  ⟨hb.daily.later htime, fun key => (hb.budgets key).later htime, hb.spaced⟩

theorem Books.of_gone (hgone : ∀ d ∈ log, d.moment + tallyRetention ≤ time)
    (hlast : ∀ d ∈ log.head?, ∃ l ∈ lastSend, d.moment ≤ start + l) : Books start time log lastSend daily sent where
  daily := .of_gone fun n hn => by
    obtain ⟨d, hd, rfl⟩ := List.mem_map.mp hn
    exact hgone d hd
  budgets key := .of_gone fun n hn => by
    obtain ⟨d, hd, rfl⟩ := mem_momentsUnder hn
    exact hgone d hd
  spaced := hlast

theorem recorded_restarted {ds rs : List Nat} (hr : Recorded tallyRetention time ds (rs.reverse.map fun r => start + r))
    (hpast : ∀ d ∈ ds, d ≤ time') (htime : time ≤ time') (hnow : start' + now = time') :
    Recorded tallyRetention time' ds ((rs.map fun _ => now).reverse.map fun r => start' + r) := by
  refine (hr.later htime).replaced (by simp) fun d hd r hr => ?_
  obtain ⟨n, hn, rfl⟩ := List.mem_map.mp hr
  obtain ⟨-, -, rfl⟩ := List.mem_map.mp (List.mem_reverse.mp hn)
  exact hnow ▸ hpast d hd

/-- On another boot, every record is as if it were made now. -/
theorem Books.restarted (hb : Books start time log lastSend daily sent) (hpast : ∀ d ∈ log, d.moment ≤ time')
    (htime : time ≤ time') (hnow : start' + now = time') :
    Books start' time' log (lastSend.map fun _ => now) (daily.map fun _ => now) fun key => (sent key).map fun _ => now where
  daily := by
    refine recorded_restarted hb.daily (fun n hn => ?_) htime hnow
    obtain ⟨d, hd, rfl⟩ := List.mem_map.mp hn
    exact hpast d hd
  budgets key := by
    refine recorded_restarted (hb.budgets key) (fun n hn => ?_) htime hnow
    obtain ⟨d, hd, rfl⟩ := mem_momentsUnder hn
    exact hpast d hd
  spaced d hd := by
    obtain ⟨l, hl, -⟩ := hb.spaced d hd
    exact ⟨now, Option.mem_map.mpr ⟨l, hl, rfl⟩, hnow ▸ hpast d (List.mem_of_mem_head? hd)⟩

theorem old_of_not_kept {since : Option Nat} {r : Nat} (hday : ¬ now < tallyRetention)
    (h : State.keepsSend since (now - tallyRetention) r = false) : r + tallyRetention ≤ now := by
  simp only [State.keepsSend, Bool.or_eq_false_iff, decide_eq_false_iff_not, not_lt] at h
  exact (Nat.le_sub_iff_add_le (not_lt.mp hday)).mp h.1

theorem recorded_kept {ds rs : List Nat} (hr : Recorded tallyRetention time ds (rs.reverse.map fun r => start + r))
    (hnow : start + now = time) (since : Option Nat) :
    Recorded tallyRetention time ds ((State.keptSends since now rs).reverse.map fun r => start + r) := by
  unfold State.keptSends
  split_ifs with hday
  · exact hr
  · have hfilter := hr.pruned (p := fun x => State.keepsSend since (now - tallyRetention) (x - start)) fun r hr hkeep => by
      obtain ⟨r, -, rfl⟩ := List.mem_map.mp hr
      rw [Nat.add_sub_cancel_left] at hkeep
      have hold := old_of_not_kept hday hkeep
      omega
    rw [List.filter_map, List.filter_reverse] at hfilter
    have hsame : ((fun x => State.keepsSend since (now - tallyRetention) (x - start)) ∘ fun r => start + r) =
        State.keepsSend since (now - tallyRetention) := by
      funext r
      rw [Function.comp_apply, Nat.add_sub_cancel_left]
    rw [hsame] at hfilter
    exact hfilter

theorem Books.pruned (hb : Books start time log lastSend daily sent) (hnow : start + now = time) (since : Option Nat)
    (under : List Char → Option Nat) :
    Books start time log lastSend (State.keptSends since now daily) fun key => State.keptSends (under key) now (sent key) :=
  ⟨recorded_kept hb.daily hnow since, fun key => recorded_kept (hb.budgets key) hnow (under key), hb.spaced⟩

/-- A last send that is later than the one in the books serves as well. -/
theorem Books.lastSend_le (hb : Books start time log lastSend daily sent) {last : Nat} (hle : ∀ l ∈ lastSend, l ≤ last) :
    Books start time log (some last) daily sent where
  daily := hb.daily
  budgets := hb.budgets
  spaced d hd := by
    obtain ⟨l, hl, hmoment⟩ := hb.spaced d hd
    exact ⟨last, rfl, hmoment.trans (Nat.add_le_add_left (hle l hl) start)⟩

/-- The books with one departure more. -/
theorem Books.cons {moment since : Nat} {key : List Char} {sent' : List Nat}
    (hb : Books start time log lastSend daily (Function.update sent key sent')) (hsent : sent key = sent' ++ [since])
    (hmoment : moment ≤ start + since) (hlast : ∃ l ∈ lastSend, since ≤ l) :
    Books start time (⟨moment, key⟩ :: log) lastSend (daily ++ [since]) sent where
  daily := by
    rw [List.reverse_append, List.map_append]
    exact .record hmoment hb.daily
  budgets key' := by
    have hbudget := hb.budgets key'
    rw [momentsUnder_cons]
    by_cases hkey : key = key'
    · subst hkey
      rw [Function.update_self] at hbudget
      rw [if_pos rfl, hsent, List.reverse_append, List.map_append]
      exact .record hmoment hbudget
    · rw [Function.update_of_ne (Ne.symm hkey)] at hbudget
      rw [if_neg hkey]
      exact hbudget
  spaced d hd := by
    obtain rfl := Option.some.inj hd
    obtain ⟨l, hl, hle⟩ := hlast
    exact ⟨l, hl, hmoment.trans (Nat.add_le_add_left hle start)⟩

/-! ### A host -/

theorem Accounted.later (ha : Accounted start time log h sent) (htime : time ≤ time') : Accounted start time' log h sent := by
  cases ha with
  | settled hsince hkey hbooks => exact .settled hsince hkey (hbooks.later htime)
  | pending since daily' sent' hsince hkey hlog hmoment hdaily hsent hbooks =>
    exact .pending since daily' sent' hsince hkey hlog hmoment hdaily hsent (hbooks.later htime)
  | lost hsince hkey hpast hbefore hfull hlate hlast =>
    exact .lost hsince hkey (hpast.trans htime) hbefore hfull hlate hlast

theorem Accounted.restarted (ha : Accounted start time log h sent) (hpast : ∀ d ∈ log, d.moment ≤ time')
    (htime : time ≤ time') (hnow : start' + now = time') :
    Accounted start' time' log (State.restarted now h) fun key => (sent key).map fun _ => now := by
  cases ha with
  | settled hsince hkey hbooks =>
    exact .settled (by rw [State.restarted, hsince]; rfl) hkey (hbooks.restarted hpast htime hnow)
  | @pending since moment key log' daily' sent' hsince hkey hlog hmoment hdaily hsent hbooks =>
    subst hlog
    have hbooks' := hbooks.restarted (fun d hd => hpast d (List.mem_cons_of_mem _ hd)) htime hnow
    refine .pending now (daily'.map fun _ => now) (sent'.map fun _ => now)
      (by rw [State.restarted, hsince]; rfl) hkey rfl ?_ ?_ ?_ ?_
    · exact (hpast _ List.mem_cons_self).trans_eq hnow.symm
    · simp [State.restarted, hdaily]
    · simp [hsent]
    · have hupdate : (fun key' => (Function.update sent key sent' key').map fun _ => now) =
          Function.update (fun key' => (sent key').map fun _ => now) key (sent'.map fun _ => now) := by
        funext key'
        by_cases hk : key' = key
        · subst hk
          simp
        · simp [hk]
      rw [hupdate] at hbooks'
      exact hbooks'
  | @lost since hsince hkey hpast' hbefore hfull hlate hlast =>
    have hle : since ≤ start' + now := (hpast'.trans htime).trans_eq hnow.symm
    refine .lost (by rw [State.restarted, hsince]; rfl) hkey (hpast'.trans htime) hbefore (by simpa [State.restarted]) ?_ ?_
    · intro r hr
      obtain ⟨-, -, rfl⟩ := List.mem_map.mp hr
      exact hle
    · obtain ⟨l, hl, -⟩ := hlast
      exact ⟨now, Option.mem_map.mpr ⟨l, hl, rfl⟩, hle⟩

/-- A host whose records were lost is known again once one of its sends of that day is given up. -/
theorem Accounted.pruned (ha : Accounted start time log h sent) (hnow : start + now = time) {under : List Char → Option Nat}
    (hunder : ∀ since key, h.pendingSince = some since → h.pendingBudgetKey = some key → under key = some since) :
    Accounted start time log (State.pruneHost now h) fun key => State.keptSends (under key) now (sent key) := by
  cases ha with
  | settled hsince hkey hbooks => exact .settled hsince hkey (hbooks.pruned hnow _ under)
  | @pending since moment key log' daily' sent' hsince hkey hlog hmoment hdaily hsent hbooks =>
    have hkept : ∀ rs : List Nat, State.keptSends (some since) now (rs ++ [since]) =
        State.keptSends (some since) now rs ++ [since] := fun rs => by
      unfold State.keptSends
      split_ifs
      · rfl
      · simp [State.keepsSend]
    have hbooks' := hbooks.pruned hnow (some since) under
    refine .pending since (State.keptSends (some since) now daily') (State.keptSends (some since) now sent')
      hsince hkey hlog hmoment ?_ ?_ ?_
    · simp only [State.pruneHost, hsince, hdaily, hkept]
    · rw [hunder since key hsince hkey, hsent, hkept]
    · have hupdate : (fun key' => State.keptSends (under key') now (Function.update sent key sent' key')) =
          Function.update (fun key' => State.keptSends (under key') now (sent key')) key
            (State.keptSends (some since) now sent') := by
        funext key'
        by_cases hk : key' = key
        · subst hk
          simp [hunder since key' hsince hkey]
        · simp [hk]
      rw [hupdate] at hbooks'
      exact hbooks'
  | @lost since hsince hkey hpast hbefore hfull hlate hlast =>
    by_cases hkeep : State.keptSends none now h.dailySends = h.dailySends
    · have hsame : (State.pruneHost now h).dailySends = h.dailySends := by
        simp only [State.pruneHost, hsince, hkeep]
      exact .lost hsince hkey hpast hbefore (hsame ▸ hfull) (hsame ▸ hlate) hlast
    · obtain ⟨r, hr, hold⟩ : ∃ r ∈ h.dailySends, start + r + tallyRetention ≤ time := by
        by_contra hnone
        push Not at hnone
        refine hkeep ?_
        unfold State.keptSends
        split_ifs with hday
        · rfl
        · refine List.filter_eq_self.mpr fun r hr => ?_
          have hlt := hnone r hr
          simp only [State.keepsSend, Bool.or_eq_true, decide_eq_true_eq]
          left
          omega
      have hsinceOld := hlate r hr
      refine .settled hsince hkey (Books.of_gone (fun d hd => ?_) fun d hd => ?_)
      · have := hbefore d hd
        omega
      · obtain ⟨l, hl, hle⟩ := hlast
        exact ⟨l, hl, (hbefore d (List.mem_of_mem_head? hd)).trans hle⟩

/-- A pending request that is recorded as sent may be forgotten. -/
theorem Accounted.cleared (ha : Accounted start time log h sent) (hmoved : ∀ since ∈ h.pendingSince, ∃ l ∈ h.lastSend, since ≤ l)
    {h' : HostState} (hsince' : h'.pendingSince = none) (hkey' : h'.pendingBudgetKey = none)
    (hlast' : h'.lastSend = h.lastSend) (hdaily' : h'.dailySends = h.dailySends) : Accounted start time log h' sent := by
  cases ha with
  | settled hsince hkey hbooks =>
    rw [← hlast', ← hdaily'] at hbooks
    exact .settled hsince' hkey' hbooks
  | pending since daily' sent' hsince hkey hlog hmoment hdaily hsent hbooks =>
    subst hlog
    have hbooks' := hbooks.cons hsent hmoment (hmoved _ hsince)
    rw [← hdaily, ← hlast', ← hdaily'] at hbooks'
    exact .settled hsince' hkey' hbooks'
  | lost hsince hkey hpast hbefore hfull hlate hlast =>
    rw [← hlast'] at hlast
    rw [← hdaily'] at hfull hlate
    exact .lost hsince' hkey' hpast hbefore hfull hlate hlast

/-! ### A state -/

/-- The sends of a host, by budget. -/
def sentIn (sends : SortedMap SendKey (List Nat)) (host key : List Char) : List Nat := (sends.get? (toLex (host, key))).getD []

/-- The books of a host stand in a state. -/
def Known (start time : Nat) (log : List Departure) (host : List Char) (s : State) : Prop :=
  s.pairWasEmpty = false ∧ ∃ h, s.hosts.get? host = some h ∧ Accounted start time log h (sentIn s.sends host)

/-- A pending request of the host is recorded as sent. -/
def Moved (host : List Char) (s : State) : Prop :=
  ∀ h, s.hosts.get? host = some h → ∀ since ∈ h.pendingSince, ∃ l ∈ h.lastSend, since ≤ l

/-- The state of a tally whose records are empty. -/
def Blank (s : State) : Prop :=
  s.pairWasEmpty = true ∧ s.bootId = none ∧ (∀ host, s.hosts.get? host = none) ∧ ∀ key, s.sends.get? key = none

variable {host other : List Char} {s s' : State} {boot : BootTime}

theorem Known.later (hk : Known start time log host s) (htime : time ≤ time') : Known start time' log host s := by
  obtain ⟨hstands, h, hget, ha⟩ := hk
  exact ⟨hstands, h, hget, ha.later htime⟩

/-- Another host's state may change, and so may the host's own as long as its books stand. -/
theorem Known.put (hk : Known start time log host s) {h' : HostState}
    (hput : other = host → Accounted start time log h' (sentIn s.sends host)) :
    Known start time log host { s with hosts := s.hosts.insert other h' } := by
  obtain ⟨hstands, h, hget, ha⟩ := hk
  by_cases hother : other = host
  · subst hother
    exact ⟨hstands, h', SortedMap.get?_insert_self .., hput rfl⟩
  · refine ⟨hstands, h, ?_, ha⟩
    simp only [SortedMap.get?_insert_of_ne _ _ hother, hget]

/-! ### The clock -/

theorem prepareBoot_ok {changed : Bool} (h : s.prepareBoot boot = .ok (s', changed)) :
    isAtom boot.id = true ∧
      (s.changedBoot boot = false ∧ s' = { s with bootHighWater := some boot.elapsed } ∨
        s.changedBoot boot = true ∧ changed = true ∧ s' = { s with
          bootId := some boot.id
          bootHighWater := some boot.elapsed
          hosts := if s.pairWasEmpty then
              brokerHosts.foldl (fun hosts host => hosts.insert host (State.fullDay boot.elapsed))
                (s.hosts.map (State.restarted boot.elapsed))
            else s.hosts.map (State.restarted boot.elapsed)
          sends := s.sends.map fun sent => sent.map fun _ => boot.elapsed
          pairWasEmpty := false }) := by
  obtain ⟨⟨⟩, hatom, h⟩ := bind_ok.mp h
  have hatom : isAtom boot.id = true := by
    by_contra hnot
    rw [validateAtom, if_neg hnot] at hatom
    cases hatom
  refine ⟨hatom, ?_⟩
  dsimp only at h
  cases hchanged : s.changedBoot boot with
  | false =>
    rw [hchanged] at h
    cases h
    exact Or.inl ⟨rfl, rfl⟩
  | true =>
    rw [hchanged] at h
    simp only [Bool.not_true, Bool.false_eq_true, if_false] at h
    split at h
    · cases h
    · cases h
      exact Or.inr ⟨rfl, rfl, rfl⟩

theorem sentIn_map (f : Nat → Nat) (sends : SortedMap SendKey (List Nat)) (host : List Char) :
    sentIn (sends.map fun sent => sent.map f) host = fun key => (sentIn sends host key).map f := by
  funext key
  simp only [sentIn, SortedMap.get?_map]
  cases sends.get? (toLex (host, key)) <;> rfl

theorem get?_fullDays (hhost : host ∈ brokerHosts) (hosts : SortedMap (List Char) HostState) :
    (brokerHosts.foldl (fun hosts host => hosts.insert host (State.fullDay now)) hosts).get? host =
      some (State.fullDay now) := by
  simp only [brokerHosts, List.foldl_cons, List.foldl_nil, SortedMap.get?_insert]
  simp only [brokerHosts, List.mem_cons, List.not_mem_nil, or_false] at hhost
  rcases hhost with rfl | rfl | rfl <;> simp

/-- A reading of the clock, on the same boot or another one, keeps the books. -/
theorem known_of_prepareBoot {changed : Bool} (h : s.prepareBoot boot = .ok (s', changed))
    (hk : s.bootId.any (fun id => id = boot.id) → Known start time log host s)
    (hother : ∀ id ∈ s.bootId, ∃ start', Known start' time log host s)
    (hnone : s.bootId = none → Blank s ∧ host ∈ brokerHosts)
    (hpast : ∀ d ∈ log, d.moment ≤ time') (htime : time ≤ time') (hnow : start + boot.elapsed = time') :
    Known start time' log host s' ∧ s'.bootId = some boot.id := by
  obtain ⟨-, ⟨hsame, rfl⟩ | ⟨-, -, rfl⟩⟩ := prepareBoot_ok h
  · simp only [State.changedBoot, Bool.or_eq_false_iff, decide_eq_false_iff_not, not_not] at hsame
    have hboot : s.bootId = some boot.id := by simpa using hsame.1
    exact ⟨(hk (by simp [hboot])).later htime, hboot⟩
  · refine ⟨?_, rfl⟩
    cases hid : s.bootId with
    | some id =>
      obtain ⟨start', hstands, host', hget, ha⟩ := hother id hid
      have hrestarted := ha.restarted hpast htime hnow
      refine ⟨rfl, State.restarted boot.elapsed host', ?_, ?_⟩
      · simp [hstands, hget]
      · dsimp only
        rw [sentIn_map]
        exact hrestarted
    | none =>
      obtain ⟨⟨hempty, -, -, -⟩, hbroker⟩ := hnone hid
      refine ⟨rfl, State.fullDay boot.elapsed, ?_, ?_⟩
      · simp only [hempty, if_true]
        exact get?_fullDays hbroker _
      · refine .lost rfl rfl le_rfl hpast (by simp [State.fullDay]) ?_ ⟨_, rfl, hnow.ge⟩
        intro r hr
        rw [State.fullDay] at hr
        rw [List.eq_of_mem_replicate hr]
        exact hnow.ge

/-! ### Old records -/

theorem sentIn_prune (s : State) (now : Nat) (host : List Char) :
    sentIn (s.prune now).1.sends host =
      fun key => State.keptSends (s.pendingUnder (toLex (host, key))) now (sentIn s.sends host key) := by
  funext key
  by_cases hday : now < tallyRetention
  · simp only [State.prune, sentIn, if_pos hday, State.keptSends]
  · simp only [State.prune, sentIn, if_neg hday, SortedMap.get?_filterMap]
    cases s.sends.get? (toLex (host, key)) with
    | none => simp [State.keptSends]
    | some sent =>
      simp only [Option.bind_some, Option.getD_some]
      split_ifs with hempty
      · rw [hempty]
        rfl
      · rfl

theorem Known.pruned (hk : Known start time log host s) (hnow : start + now = time) :
    Known start time log host (s.prune now).1 := by
  obtain ⟨hstands, h, hget, ha⟩ := hk
  have hget' : (s.prune now).1.hosts.get? host = some (State.pruneHost now h) := by
    simp only [State.prune, SortedMap.get?_map, hget, Option.map_some]
  refine ⟨hstands, _, hget', ?_⟩
  rw [sentIn_prune]
  refine ha.pruned hnow fun since key hsince hkey => ?_
  simp [State.pendingUnder, State.pending, hget, hsince, hkey]

theorem Moved.pruned (hm : Moved host s) : Moved host (s.prune now).1 := by
  intro h hget
  simp only [State.prune, SortedMap.get?_map, Option.map_eq_some_iff] at hget
  obtain ⟨h', hget, rfl⟩ := hget
  exact hm h' hget

/-! ### A pending request -/

theorem pending_eq_some {h : HostState} {since : Nat} {key : List Char} (hp : s.pending host = some (h, since, key)) :
    s.hosts.get? host = some h ∧ h.pendingSince = some since ∧ h.pendingBudgetKey = some key := by
  simp only [State.pending] at hp
  cases hget : s.hosts.get? host with
  | none =>
    rw [hget] at hp
    cases hp
  | some h' =>
    rw [hget] at hp
    dsimp only at hp
    cases hsince : h'.pendingSince with
    | none =>
      rw [hsince] at hp
      cases hp
    | some since' =>
      cases hkey : h'.pendingBudgetKey with
      | none =>
        rw [hsince, hkey] at hp
        cases hp
      | some key' =>
        rw [hsince, hkey] at hp
        cases hp
        exact ⟨rfl, hsince, hkey⟩

theorem pending_of_get {h : HostState} {since : Nat} {key : List Char} (hget : s.hosts.get? host = some h)
    (hsince : h.pendingSince = some since) (hkey : h.pendingBudgetKey = some key) : s.pending host = some (h, since, key) := by
  simp only [State.pending, hget, hsince, hkey]

/-- The sends of a host once one budget's list is another one. -/
theorem sentIn_insert (sends : SortedMap SendKey (List Nat)) (key : List Char) (sent : List Nat) :
    sentIn (sends.insert (toLex (other, key)) sent) host =
      if other = host then Function.update (sentIn sends host) key sent else sentIn sends host := by
  funext key'
  simp only [sentIn, SortedMap.get?_insert]
  by_cases hother : other = host
  · subst hother
    by_cases hkey : key = key'
    · subst hkey
      simp
    · have hne : toLex (other, key) ≠ toLex (other, key') := fun heq => hkey (congrArg (fun k => (ofLex k).2) heq)
      rw [if_neg hne, if_pos rfl, Function.update_of_ne (Ne.symm hkey)]
      rfl
  · have hne : toLex (other, key) ≠ toLex (host, key') := fun heq => hother (congrArg (fun k => (ofLex k).1) heq)
    rw [if_neg hne, if_neg hother]
    rfl

theorem movePendingTo_ok (h : s.movePendingTo other now = .ok s') :
    s.pending other = none ∧ s' = s ∨
      ∃ h since key, s.pending other = some (h, since, key) ∧ s' = { s with
        sends := s.sends.insert (toLex (other, key)) ((s.sent other key).dropLast ++ [max since now])
        hosts := s.hosts.insert other { h with
          dailySends := h.dailySends.dropLast ++ [max since now]
          lastSend := some (max (h.lastSend.getD 0) (max since now))
          pendingSince := some (max since now) } } := by
  simp only [State.movePendingTo] at h
  cases hp : s.pending other with
  | none =>
    rw [hp] at h
    cases h
    exact Or.inl ⟨rfl, rfl⟩
  | some pending =>
    obtain ⟨h', since, key⟩ := pending
    rw [hp] at h
    dsimp only at h
    split_ifs at h <;> cases h
    exact Or.inr ⟨h', since, key, rfl, rfl⟩

/-- The move of a pending request keeps the books, and records it as sent. -/
theorem Known.moved (hk : Known start time log host s) (h : s.movePendingTo other now = .ok s') :
    Known start time log host s' ∧ (other = host → Moved host s') := by
  rcases movePendingTo_ok h with ⟨hp, rfl⟩ | ⟨g, since, key, hp, rfl⟩
  · refine ⟨hk, ?_⟩
    rintro rfl g hget since hsince
    obtain ⟨-, g', hget', ha⟩ := hk
    obtain rfl : g = g' := Option.some.inj (hget.symm.trans hget')
    cases ha with
    | settled hnone => rw [hnone] at hsince; cases hsince
    | pending _ _ _ hsince' hkey' => rw [pending_of_get hget hsince' hkey'] at hp; cases hp
    | lost hnone => rw [hnone] at hsince; cases hsince
  · obtain ⟨hstands, h', hget, ha⟩ := hk
    obtain ⟨hget', hsince, hkey⟩ := pending_eq_some hp
    by_cases hother : other = host
    · subst hother
      obtain rfl : g = h' := Option.some.inj (hget'.symm.trans hget)
      refine ⟨⟨hstands, _, SortedMap.get?_insert_self .., ?_⟩, fun _ => ?_⟩
      · dsimp only
        rw [sentIn_insert, if_pos rfl]
        cases ha with
        | settled hnone => rw [hnone] at hsince; cases hsince
        | @pending since' moment key' log' daily' sent' hsince' hkey' hlog hmoment hdaily hsent' hbooks =>
          obtain rfl : since = since' := Option.some.inj (hsince.symm.trans hsince')
          obtain rfl : key = key' := Option.some.inj (hkey.symm.trans hkey')
          refine .pending _ daily' sent' rfl hkey hlog ?_ ?_ ?_ ?_
          · exact hmoment.trans (Nat.add_le_add_left (le_max_left _ _) _)
          · simp [hdaily]
          · rw [Function.update_self]
            change (sentIn s.sends other key).dropLast ++ _ = _
            rw [hsent', List.dropLast_concat]
          · rw [Function.update_idem]
            refine hbooks.lastSend_le fun l hl => ?_
            rw [Option.mem_def.mp hl]
            exact le_max_left _ _
        | lost hnone => rw [hnone] at hsince; cases hsince
      · intro g' hg' since' hsince'
        rw [SortedMap.get?_insert_self] at hg'
        cases hg'
        cases hsince'
        exact ⟨_, rfl, le_max_right _ _⟩
    · refine ⟨⟨hstands, h', ?_, ?_⟩, fun heq => absurd heq hother⟩
      · exact (SortedMap.get?_insert_of_ne _ _ hother).trans hget
      · dsimp only
        rw [sentIn_insert, if_neg hother]
        exact ha

theorem withoutLast_append (since : Nat) (moments : List Nat) : State.withoutLast since (moments ++ [since]) = moments := by
  simp [State.withoutLast]

/-- A rollback takes back the newest departure of its host, and no other one. -/
theorem Known.rolledBack (hk : Known start time log host s) (other : List Char) :
    Known start time (if other = host ∧ (s.pending host).isSome then log.tail else log) host (s.rollbackPending other) := by
  obtain ⟨hstands, h, hget, ha⟩ := hk
  cases hp : s.pending other with
  | none =>
    have hkept : ¬ (other = host ∧ (s.pending host).isSome = true) := by
      rintro ⟨rfl, hsome⟩
      rw [hp] at hsome
      cases hsome
    rw [if_neg hkept, State.rollbackPending, hp]
    exact ⟨hstands, h, hget, ha⟩
  | some pending =>
    obtain ⟨g, since, key⟩ := pending
    obtain ⟨hget', hsince, hkey⟩ := pending_eq_some hp
    rw [State.rollbackPending, hp]
    by_cases hother : other = host
    · subst hother
      obtain rfl : g = h := Option.some.inj (hget'.symm.trans hget)
      rw [if_pos ⟨rfl, by rw [hp]; rfl⟩]
      refine ⟨hstands, _, SortedMap.get?_insert_self .., ?_⟩
      cases ha with
      | settled hnone => rw [hnone] at hsince; cases hsince
      | @pending since' moment key' log' daily' sent' hsince' hkey' hlog hmoment hdaily hsent' hbooks =>
        obtain rfl : since = since' := Option.some.inj (hsince.symm.trans hsince')
        obtain rfl : key = key' := Option.some.inj (hkey.symm.trans hkey')
        subst hlog
        obtain ⟨sent, hsend⟩ : ∃ sent, s.sends.get? (toLex (other, key)) = some sent := by
          cases hsend : s.sends.get? (toLex (other, key)) with
          | none => simp [sentIn, hsend] at hsent'
          | some sent => exact ⟨sent, rfl⟩
        have hsent : sent = sent' ++ [since] := by simpa [sentIn, hsend] using hsent'
        refine .settled rfl rfl ?_
        simp only [hsend, hdaily, withoutLast_append, List.tail_cons, hsent]
        rw [sentIn_insert, if_pos rfl]
        exact hbooks
      | lost hnone => rw [hnone] at hsince; cases hsince
    · rw [if_neg fun hand => hother hand.1]
      refine ⟨hstands, h, (SortedMap.get?_insert_of_ne _ _ hother).trans hget, ?_⟩
      dsimp only
      cases hsend : s.sends.get? (toLex (other, key)) with
      | none => exact ha
      | some sent =>
        dsimp only
        rw [sentIn_insert, if_neg hother]
        exact ha

end Iaam.Tally
