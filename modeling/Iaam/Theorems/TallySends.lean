import Iaam.Http.TallyFile
import Iaam.Theorems.TallyBooks

/-! What one call of the tally does to the books of every broker's host: it keeps them, and a request is let go only when
the spacing, the day and the budget allow it. -/

namespace Iaam.Tally
open Outcome Sliding

/-- The departures of every host. -/
abbrev Logs := List Char → List Departure

/-- The books of every broker's host stand in a state, whose boot began at `start`. -/
structure Kept (start time : Nat) (logs : Logs) (boot : List Char) (s : State) : Prop where
  boot : s.bootId = some boot
  known : ∀ host ∈ brokerHosts, Known start time (logs host) host s

/-- The records are empty, or they keep the books. -/
def Standing (starts : List Char → Nat) (time : Nat) (logs : Logs) (s : State) : Prop :=
  Blank s ∨ ∃ boot, Kept (starts boot) time logs boot s

variable {start time time' now : Nat} {logs : Logs} {host other boot : List Char} {s s' : State} {clock : BootTime}
variable {starts : List Char → Nat} {r : Request} {d : Decision} {changed changed' : Bool} {h : HostState}

/-! ### The parts of a call -/

theorem kept_of_prepareBoot (h : s.prepareBoot clock = .ok (s', changed)) (hs : Standing starts time logs s)
    (hpast : ∀ host ∈ brokerHosts, ∀ d ∈ logs host, d.moment ≤ time') (htime : time ≤ time')
    (hnow : starts clock.id + clock.elapsed = time') : Kept (starts clock.id) time' logs clock.id s' := by
  have hboth : ∀ host ∈ brokerHosts, Known (starts clock.id) time' (logs host) host s' ∧ s'.bootId = some clock.id := by
    intro host hhost
    rcases hs with hblank | ⟨boot, hkept⟩
    · have hnone := hblank.2.1
      refine known_of_prepareBoot h (fun hany => ?_) (fun id hid => ?_) (fun _ => ⟨hblank, hhost⟩) (hpast host hhost) htime
        hnow
      · rw [hnone] at hany
        cases hany
      · rw [hnone] at hid
        cases hid
    · have hboot := hkept.boot
      refine known_of_prepareBoot h (fun hany => ?_) (fun id hid => ?_) (fun hnone => ?_) (hpast host hhost) htime hnow
      · have hsame : boot = clock.id := by simpa [hboot] using hany
        exact hsame ▸ hkept.known host hhost
      · exact ⟨_, hkept.known host hhost⟩
      · rw [hboot] at hnone
        cases hnone
  exact ⟨(hboth _ List.mem_cons_self).2, fun host hhost => (hboth host hhost).1⟩

theorem Kept.pruned (hk : Kept start time logs boot s) (hnow : start + now = time) :
    Kept start time logs boot (s.prune now).1 :=
  ⟨hk.boot, fun host hhost => (hk.known host hhost).pruned hnow⟩

theorem Kept.moved (hk : Kept start time logs boot s) (h : s.movePendingTo other now = .ok s') :
    Kept start time logs boot s' ∧ (other ∈ brokerHosts → Moved other s') := by
  refine ⟨⟨?_, fun host hhost => ((hk.known host hhost).moved h).1⟩, fun hother => ((hk.known other hother).moved h).2 rfl⟩
  rcases movePendingTo_ok h with ⟨-, rfl⟩ | ⟨_, _, _, -, rfl⟩ <;> exact hk.boot

theorem hostForBoot_eq (hget : s.hosts.get? host = some h) (now : Nat) : s.hostForBoot host now = h := by
  rw [State.hostForBoot, hget, Option.getD_some]

/-- The host that a call is about gets its first state. -/
theorem Kept.found (hk : Kept start time logs boot s) (other : List Char) (now : Nat) :
    Kept start time logs boot { s with hosts := s.hosts.insert other (s.hostForBoot other now) } := by
  refine ⟨hk.boot, fun host hhost => (hk.known host hhost).put ?_⟩
  rintro rfl
  obtain ⟨-, h, hget, ha⟩ := hk.known other hhost
  rw [hostForBoot_eq hget]
  exact ha

/-- A request that is recorded as sent may be forgotten. -/
theorem Kept.cleared (hk : Kept start time logs boot s) (now : Nat) (hm : other ∈ brokerHosts → Moved other s)
    (hsince : h.pendingSince = none) (hkey : h.pendingBudgetKey = none)
    (hlast : h.lastSend = (s.hostForBoot other now).lastSend) (hdaily : h.dailySends = (s.hostForBoot other now).dailySends) :
    Kept start time logs boot { s with hosts := s.hosts.insert other h } := by
  refine ⟨hk.boot, fun host hhost => (hk.known host hhost).put ?_⟩
  rintro rfl
  obtain ⟨-, h', hget, ha⟩ := hk.known other hhost
  rw [hostForBoot_eq hget] at hlast hdaily
  exact ha.cleared (hm hhost h' hget) hsince hkey hlast hdaily

theorem Kept.rolledBack (hk : Kept start time logs boot s) (other : List Char) :
    Kept start time (if (s.pending other).isSome then Function.update logs other (logs other).tail else logs) boot
      (s.rollbackPending other) := by
  refine ⟨?_, fun host hhost => ?_⟩
  · simp only [State.rollbackPending]
    cases s.pending other <;> exact hk.boot
  · have hrolled := (hk.known host hhost).rolledBack other
    by_cases hother : other = host
    · subst hother
      by_cases hsome : (s.pending other).isSome
      · rw [if_pos ⟨rfl, hsome⟩] at hrolled
        rw [if_pos hsome, Function.update_self]
        exact hrolled
      · rw [if_neg fun hand => hsome hand.2] at hrolled
        rw [if_neg hsome]
        exact hrolled
    · rw [if_neg fun hand => hother hand.1] at hrolled
      split_ifs
      · rw [Function.update_of_ne (Ne.symm hother)]
        exact hrolled
      · exact hrolled

/-! ### The decision -/

theorem elapsed_lt (clock : BootTime) : clock.elapsed < nanosMax := lt_of_le_of_lt clock.fits (by decide)

theorem add_le_of_saturatingAdd {moment nanos : Nat} (hnow : now < nanosMax) (h : saturatingAdd moment nanos ≤ now) :
    moment + nanos ≤ now := by
  unfold saturatingAdd at h
  omega

theorem activeRefusal_ne {refusal : Decision} (hrefusal : activeRefusal h now = some refusal) : refusal ≠ .send := by
  rintro rfl
  simp only [activeRefusal] at hrefusal
  cases hclosed : h.closedUntil.filter fun ends => now < ends with
  | some ends =>
    rw [hclosed] at hrefusal
    cases hrefusal
  | none =>
    rw [hclosed] at hrefusal
    obtain ⟨_, -, heq⟩ := Option.map_eq_some_iff.mp hrefusal
    cases heq

/-- What the pace of a host decides: a request is let go when the day, the spacing and the budget allow it, and recorded;
    otherwise the sends stay as they were. -/
theorem pace_ok (hok : pace s h r now changed = .ok (s', d, changed')) :
    d ≠ .send ∧
        (s' = s ∨ s' = { s with sends := s.sends.insert (toLex (r.host, r.budgetKey)) (s.sent r.host r.budgetKey) }) ∨
      d = .send ∧ changed' = true ∧ h.dailySends.length < dailyCeiling ∧
        (∀ l ∈ h.lastSend, saturatingAdd l departureSpacingNanos ≤ now) ∧
        budgetWait (s.sent r.host r.budgetKey) r.budgetLimit r.budgetWindow now = .ok 0 ∧
        s' = { s with
          sends := s.sends.insert (toLex (r.host, r.budgetKey)) (s.sent r.host r.budgetKey ++ [now])
          hosts := s.hosts.insert r.host { h with
            dailySends := h.dailySends ++ [now]
            bootWaitUntil := none
            pendingSince := some now
            pendingBudgetKey := some r.budgetKey } } := by
  simp only [pace] at hok
  cases hboot : h.bootWaitUntil.filter fun ends => now < ends with
  | some ends =>
    rw [hboot] at hok
    cases hok
    exact Or.inl ⟨by simp, Or.inl rfl⟩
  | none =>
    rw [hboot] at hok
    dsimp only at hok
    split_ifs at hok with hday
    · cases hok
      exact Or.inl ⟨by simp, Or.inl rfl⟩
    · obtain ⟨wait, hwait, hok⟩ := bind_ok.mp hok
      split_ifs at hok with hnone
      · cases hok
        exact Or.inl ⟨by simp, Or.inr rfl⟩
      · cases hok
        rw [not_not, Nat.max_eq_zero_iff] at hnone
        refine Or.inr ⟨rfl, rfl, not_le.mp hday, fun l hl => ?_, hnone.2 ▸ hwait, rfl⟩
        have hspacing := hnone.1
        rw [Option.mem_def.mp hl] at hspacing
        exact Nat.sub_eq_zero_iff_le.mp hspacing

/-- A request that is let go joins the departures. -/
def departed (d : Decision) (r : Request) (time : Nat) (logs : Logs) : Logs :=
  if d = .send then Function.update logs r.host (⟨time, r.budgetKey⟩ :: logs r.host) else logs

theorem Kept.paced (hk : Kept start time logs boot s) (hget : s.hosts.get? r.host = some h) (hsince : h.pendingSince = none)
    (hnow : start + now = time) (hok : pace s h r now changed = .ok (s', d, changed')) :
    Kept start time (departed d r time logs) boot s' ∧ (d = .send → changed' = true) := by
  rcases pace_ok hok with ⟨hd, hs'⟩ | ⟨rfl, hchanged, hday, -, -, rfl⟩
  · rw [departed, if_neg hd]
    refine ⟨⟨?_, fun host hhost => ?_⟩, fun hsend => absurd hsend hd⟩
    · rcases hs' with rfl | rfl <;> exact hk.boot
    · rcases hs' with rfl | rfl
      · exact hk.known host hhost
      · obtain ⟨hstands, h', hget', ha⟩ := hk.known host hhost
        refine ⟨hstands, h', hget', ?_⟩
        have hsame : sentIn (s.sends.insert (toLex (r.host, r.budgetKey)) (s.sent r.host r.budgetKey)) host =
            sentIn s.sends host := by
          rw [sentIn_insert]
          split_ifs with hhost
          · subst hhost
            exact Function.update_eq_self _ _
          · rfl
        dsimp only
        rw [hsame]
        exact ha
  · refine ⟨⟨hk.boot, fun host hhost => ?_⟩, fun _ => hchanged⟩
    rw [departed, if_pos rfl]
    obtain ⟨hstands, h', hget', ha⟩ := hk.known host hhost
    by_cases hhost' : r.host = host
    · subst hhost'
      obtain rfl : h = h' := Option.some.inj (hget.symm.trans hget')
      rw [Function.update_self]
      refine ⟨hstands, _, SortedMap.get?_insert_self .., ?_⟩
      cases ha with
      | settled _ _ hbooks =>
        refine .pending now h.dailySends (s.sent r.host r.budgetKey) rfl rfl rfl hnow.ge rfl
          ?_ ?_
        · dsimp only
          rw [sentIn_insert, if_pos rfl, Function.update_self]
        · dsimp only
          rw [sentIn_insert, if_pos rfl, Function.update_idem]
          have hsame : Function.update (sentIn s.sends r.host) r.budgetKey (s.sent r.host r.budgetKey) =
              sentIn s.sends r.host := Function.update_eq_self _ _
          rw [hsame]
          exact hbooks
      | pending _ _ _ hsince' => rw [hsince] at hsince'; cases hsince'
      | lost _ _ _ _ hfull => exact absurd hday (not_lt.mpr hfull)
    · rw [Function.update_of_ne (Ne.symm hhost')]
      refine ⟨hstands, h', (SortedMap.get?_insert_of_ne _ _ hhost').trans hget', ?_⟩
      dsimp only
      rw [sentIn_insert, if_neg hhost']
      exact ha

/-- The moments at which a host's requests left leave room for one more: the last one, the `dailyCeiling`-th, and the last
    one that the budget counts lie far enough back. -/
structure Free (time : Nat) (log : List Departure) (r : Request) : Prop where
  spacing : ∀ e, (log.map Departure.moment)[0]? = some e → e + departureSpacingNanos ≤ time
  daily : ∀ e, (log.map Departure.moment)[dailyCeiling - 1]? = some e → e + dayNanos ≤ time
  budget : ∀ e, (momentsUnder r.budgetKey log)[r.budgetLimit - 1]? = some e → e + r.budgetWindow ≤ time

theorem getElem?_reversed {l : List Nat} {n m : Nat} (hn : n < l.length) (h : (l.reverse.map fun r => start + r)[n]? = some m) :
    ∃ x, l[l.length - (n + 1)]? = some x ∧ m = start + x := by
  rw [List.getElem?_map, List.getElem?_reverse hn, Nat.sub_sub, Nat.add_comm 1 n] at h
  obtain ⟨x, hx, rfl⟩ := Option.map_eq_some_iff.mp h
  exact ⟨x, hx, rfl⟩

theorem le_of_budgetWait {sent : List Nat} {limit window moment : Nat} (hwait : budgetWait sent limit window now = .ok 0)
    (hle : limit ≤ sent.length) (hmoment : sent[sent.length - limit]? = some moment) : saturatingAdd moment window ≤ now := by
  rw [budgetWait, if_pos hle, hmoment] at hwait
  exact Nat.sub_eq_zero_iff_le.mp (Except.ok.inj hwait)

theorem Kept.free (hk : Kept start time logs boot s) (hbroker : r.host ∈ brokerHosts) (hget : s.hosts.get? r.host = some h)
    (hsince : h.pendingSince = none) (hnow : start + now = time) (hfits : now < nanosMax)
    (hsorted : (logs r.host).Pairwise fun d e => e.moment ≤ d.moment) (hlimit : 0 < r.budgetLimit)
    (hwindow : r.budgetWindow ≤ tallyRetention) (hok : pace s h r now changed = .ok (s', .send, changed')) :
    Free time (logs r.host) r := by
  rcases pace_ok hok with ⟨hd, -⟩ | ⟨-, -, hday, hspacing, hbudget, -⟩
  · exact absurd rfl hd
  · obtain ⟨-, h', hget', ha⟩ := hk.known _ hbroker
    obtain rfl : h = h' := Option.some.inj (hget.symm.trans hget')
    cases ha with
    | pending _ _ _ hsince' => rw [hsince] at hsince'; cases hsince'
    | lost _ _ _ _ hfull => exact absurd hday (not_lt.mpr hfull)
    | settled _ _ hbooks =>
      refine ⟨fun e he => ?_, ?_, ?_⟩
      · rw [List.getElem?_map, ← List.head?_eq_getElem?, Option.map_eq_some_iff] at he
        obtain ⟨dep, hdep, rfl⟩ := he
        obtain ⟨l, hl, hle⟩ := hbooks.spaced dep hdep
        have := add_le_of_saturatingAdd hfits (hspacing l hl)
        omega
      · refine hbooks.daily.nth (List.pairwise_map.mpr hsorted) le_rfl fun m hm => ?_
        have hlength := (List.getElem?_eq_some_iff.mp hm).1
        simp only [List.length_map, List.length_reverse] at hlength
        have : dailyCeiling = 1000 := rfl
        omega
      · have hsub : (momentsUnder r.budgetKey (logs r.host)).Pairwise fun d e => e ≤ d :=
          List.pairwise_map.mpr (hsorted.filter _)
        refine (hbooks.budgets r.budgetKey).nth hsub hwindow fun m hm => ?_
        have hlength := (List.getElem?_eq_some_iff.mp hm).1
        simp only [List.length_map, List.length_reverse] at hlength
        obtain ⟨x, hx, rfl⟩ := getElem?_reversed hlength hm
        rw [Nat.sub_add_cancel hlimit] at hx
        have hle : r.budgetLimit ≤ (sentIn s.sends r.host r.budgetKey).length := by omega
        have := add_le_of_saturatingAdd hfits (le_of_budgetWait hbudget hle hx)
        omega

/-- A host that neither is refused nor waits for an outcome keeps its books, and lets a request go only when there is room
    for it. -/
theorem Kept.settled (hk : Kept start time logs boot s) (hget : s.hosts.get? r.host = some h) (hsince : h.pendingSince = none)
    (hnow : start + now = time) (hfits : now < nanosMax) (hok : settle s h r now changed = .ok (s', d, changed')) :
    Kept start time (departed d r time logs) boot s' ∧
      (d = .send → changed' = true ∧ (r.host ∈ brokerHosts → ((logs r.host).Pairwise fun d e => e.moment ≤ d.moment) →
        0 < r.budgetLimit → r.budgetWindow ≤ tallyRetention → Free time (logs r.host) r)) := by
  simp only [settle] at hok
  cases hrefusal : activeRefusal h now with
  | some refusal =>
    rw [hrefusal] at hok
    cases hok
    have hd := activeRefusal_ne hrefusal
    rw [departed, if_neg hd]
    exact ⟨hk, fun hsend => absurd hsend hd⟩
  | none =>
    rw [hrefusal] at hok
    obtain ⟨hpaced, hchanged⟩ := hk.paced hget hsince hnow hok
    refine ⟨hpaced, ?_⟩
    rintro rfl
    exact ⟨hchanged rfl, fun hbroker hsorted hlimit hwindow =>
      hk.free hbroker hget hsince hnow hfits hsorted hlimit hwindow hok⟩

/-- What a decision does to the books, whatever the state it is taken in. -/
theorem decide_ok (hok : decide r clock s = .ok (s', d, changed)) (hs : Standing starts time logs s)
    (hpast : ∀ host ∈ brokerHosts, ∀ d ∈ logs host, d.moment ≤ time') (htime : time ≤ time')
    (hnow : starts clock.id + clock.elapsed = time') :
    Kept (starts clock.id) time' (departed d r time' logs) clock.id s' ∧
      (d = .send → changed = true ∧ (r.host ∈ brokerHosts → ((logs r.host).Pairwise fun d e => e.moment ≤ d.moment) →
        0 < r.budgetLimit → r.budgetWindow ≤ tallyRetention → Free time' (logs r.host) r)) := by
  obtain ⟨⟨s₁, changed₁⟩, hprepare, hok⟩ := bind_ok.mp hok
  have hkept := ((kept_of_prepareBoot hprepare hs hpast htime hnow).pruned hnow).found r.host clock.elapsed
  have hfits := elapsed_lt clock
  dsimp only at hok
  generalize hfound : (s₁.prune clock.elapsed).1.hostForBoot r.host clock.elapsed = h at hok hkept
  have hget : ({ (s₁.prune clock.elapsed).1 with hosts := (s₁.prune clock.elapsed).1.hosts.insert r.host h } : State).hosts.get?
      r.host = some h := SortedMap.get?_insert_self ..
  cases hsince : h.pendingSince with
  | none =>
    rw [hsince] at hok
    exact hkept.settled hget hsince hnow hfits hok
  | some since =>
    rw [hsince] at hok
    dsimp only at hok
    split_ifs at hok with hopen
    · cases hok
      exact ⟨hkept, fun hsend => by cases hsend⟩
    · obtain ⟨s₂, hmove, hok⟩ := bind_ok.mp hok
      obtain ⟨hkept₂, hmoved⟩ := hkept.moved hmove
      refine (hkept₂.cleared clock.elapsed hmoved ?_ ?_ ?_ ?_).settled (SortedMap.get?_insert_self ..) ?_ hnow hfits hok
      all_goals split_ifs <;> rfl

/-! ### The other calls -/

/-- What the books read of a host's state. -/
def HostState.sends (h : HostState) : Option Nat × List Nat × Option Nat × Option (List Char) :=
  (h.lastSend, h.dailySends, h.pendingSince, h.pendingBudgetKey)

@[simp] theorem closeUntil_sends (h : HostState) (ends : Nat) (reason : ClosureReason) :
    (h.closeUntil ends reason).sends = h.sends := rfl

@[simp] theorem pauseUntil_sends (h : HostState) (ends span : Nat) : (h.pauseUntil ends span).sends = h.sends := by
  unfold HostState.pauseUntil
  split_ifs <;> rfl

/-- An answer brings pauses and closures, and changes nothing that the books read. -/
theorem answered_sends (h : HostState) (status : Nat) (retryAfter : Option Nat) (now : Nat) :
    (h.answered status retryAfter now).sends = h.sends := by
  have hnamed : ∀ named : Option Nat,
      (named.elim h fun pause => h.pauseUntil (saturatingAdd now pause) pause).sends = h.sends := fun named => by
    cases named with
    | none => rfl
    | some pause => exact pauseUntil_sends ..
  unfold HostState.answered
  generalize (if 200 ≤ status ∧ status < 300 then none else retryAfter.map fun delay => min delay dayNanos) = named
  dsimp only
  split_ifs
  · rw [closeUntil_sends, pauseUntil_sends]
    exact hnamed named
  · rw [pauseUntil_sends]
    exact hnamed named
  · rw [closeUntil_sends]
    exact hnamed named
  · exact hnamed named
  · exact hnamed named

/-- A host may take any state that the books read like its own without the pending request. -/
theorem Kept.withoutPending (hk : Kept start time logs boot s) (hm : other ∈ brokerHosts → Moved other s)
    (hsends : h.sends = ((s.hostForBoot other now).withoutPending).sends) :
    Kept start time logs boot { s with hosts := s.hosts.insert other h } := by
  simp only [HostState.sends, HostState.withoutPending, Prod.mk.injEq] at hsends
  exact hk.cleared now hm hsends.2.2.1 hsends.2.2.2 hsends.1 hsends.2.1

theorem Moved.of_not_pending (h : s.isPending host = false) : Moved host s := by
  intro g hget since hsince
  rw [Option.mem_def] at hsince
  simp [State.isPending, hget, hsince] at h

theorem Kept.movedIfPending (hk : Kept start time logs boot s) (h : s.moveIfPending other now = .ok s') :
    Kept start time logs boot s' ∧ (other ∈ brokerHosts → Moved other s') := by
  unfold State.moveIfPending at h
  split_ifs at h with hpending
  · exact hk.moved h
  · cases h
    exact ⟨hk, fun _ => .of_not_pending (by simpa using hpending)⟩

theorem isSome_pending : (s.pending host).isSome =
    (s.hosts.get? host).any fun h => h.pendingSince.isSome && h.pendingBudgetKey.isSome := by
  simp only [State.pending]
  cases s.hosts.get? host with
  | none => rfl
  | some h =>
    dsimp only [Option.any_some]
    cases h.pendingSince with
    | none => rfl
    | some since => cases h.pendingBudgetKey <;> rfl

theorem pending_prune : ((s.prune now).1.pending host).isSome = (s.pending host).isSome := by
  simp only [isSome_pending, State.prune, SortedMap.get?_map, Option.any_map]
  rfl

/-- A reading of the clock neither starts nor ends a request. -/
theorem pending_prepareBoot (hprepare : s.prepareBoot clock = .ok (s', changed)) (hs : Standing starts time logs s)
    (hhost : host ∈ brokerHosts) : (s'.pending host).isSome = (s.pending host).isSome := by
  obtain ⟨-, ⟨-, rfl⟩ | ⟨-, -, rfl⟩⟩ := prepareBoot_ok hprepare
  · rfl
  · simp only [isSome_pending]
    rcases hs with ⟨hempty, -, hnone, -⟩ | ⟨boot, hkept⟩
    · rw [if_pos hempty, get?_fullDays hhost, hnone]
      rfl
    · rw [(hkept.known host hhost).1, if_neg Bool.false_ne_true, SortedMap.get?_map, Option.any_map]
      refine congrFun (congrArg _ (funext fun h => ?_)) _
      simp [State.restarted]

section
variable (hs : Standing starts time logs s) (hpast : ∀ host ∈ brokerHosts, ∀ d ∈ logs host, d.moment ≤ time')
  (htime : time ≤ time') (hnow : starts clock.id + clock.elapsed = time')
include hs hpast htime hnow

theorem acknowledgeHandoff_ok {u : Unit} (hok : acknowledgeHandoff host clock s = .ok (s', u, changed)) :
    Kept (starts clock.id) time' logs clock.id s' := by
  obtain ⟨⟨s₁, changed₁⟩, hprepare, hok⟩ := bind_ok.mp hok
  have hkept := kept_of_prepareBoot hprepare hs hpast htime hnow
  obtain ⟨s₂, hmove, hok⟩ := bind_ok.mp hok
  cases hok
  exact (hkept.movedIfPending hmove).1.pruned hnow

theorem adoptPending_ok {u : Unit} (hok : adoptPending host clock s = .ok (s', u, changed)) :
    Kept (starts clock.id) time' logs clock.id s' := by
  obtain ⟨⟨s₁, changed₁⟩, hprepare, hok⟩ := bind_ok.mp hok
  have hkept := kept_of_prepareBoot hprepare hs hpast htime hnow
  dsimp only at hok
  split_ifs at hok
  · obtain ⟨s₂, hmove, hok⟩ := bind_ok.mp hok
    cases hok
    obtain ⟨hkept, hmoved⟩ := hkept.moved hmove
    exact (hkept.pruned hnow).withoutPending (fun hhost => (hmoved hhost).pruned) (closeUntil_sends ..)
  · cases hok
    exact hkept.pruned hnow

theorem recordJoinFailure_ok {u : Unit} (hok : recordJoinFailure host clock s = .ok (s', u, changed)) :
    Kept (starts clock.id) time' logs clock.id s' := by
  obtain ⟨⟨s₁, changed₁⟩, hprepare, hok⟩ := bind_ok.mp hok
  have hkept := kept_of_prepareBoot hprepare hs hpast htime hnow
  obtain ⟨s₂, hmove, hok⟩ := bind_ok.mp hok
  cases hok
  obtain ⟨hkept, hmoved⟩ := hkept.movedIfPending hmove
  exact (hkept.pruned hnow).withoutPending (fun hhost => (hmoved hhost).pruned) (closeUntil_sends ..)

theorem recordResponse_ok {status : Nat} {retryAfter : Option Nat} {answer : ResponseDecision}
    (hok : recordResponse host status retryAfter clock s = .ok (s', answer, changed)) :
    Kept (starts clock.id) time' logs clock.id s' := by
  obtain ⟨⟨s₁, changed₁⟩, hprepare, hok⟩ := bind_ok.mp hok
  have hkept := kept_of_prepareBoot hprepare hs hpast htime hnow
  dsimp only at hok
  split_ifs at hok
  · cases hok
  · obtain ⟨s₂, hmove, hok⟩ := bind_ok.mp hok
    cases hok
    obtain ⟨hkept, hmoved⟩ := hkept.moved hmove
    exact (hkept.pruned hnow).withoutPending (fun hhost => (hmoved hhost).pruned) (answered_sends ..)

theorem recordUnknownOutcome_ok {nanos : Nat} (hok : recordUnknownOutcome host clock s = .ok (s', nanos, changed)) :
    Kept (starts clock.id) time' logs clock.id s' := by
  obtain ⟨⟨s₁, changed₁⟩, hprepare, hok⟩ := bind_ok.mp hok
  have hkept := kept_of_prepareBoot hprepare hs hpast htime hnow
  obtain ⟨s₂, hmove, hok⟩ := bind_ok.mp hok
  obtain ⟨hkept, hmoved⟩ := hkept.moved hmove
  dsimp only at hok
  cases hok
  exact (hkept.pruned hnow).withoutPending (fun hhost => (hmoved hhost).pruned) (closeUntil_sends ..)

/-- A rollback takes back the newest departure of its host, if it was pending before the call. -/
theorem recordNotHandedOff_ok {u : Unit} (hhost : host ∈ brokerHosts)
    (hok : recordNotHandedOff host clock s = .ok (s', u, changed)) :
    Kept (starts clock.id) time' (if (s.pending host).isSome then Function.update logs host (logs host).tail else logs)
      clock.id s' ∧ changed = true := by
  obtain ⟨⟨s₁, changed₁⟩, hprepare, hok⟩ := bind_ok.mp hok
  have hkept := (kept_of_prepareBoot hprepare hs hpast htime hnow).pruned hnow
  cases hok
  refine ⟨?_, rfl⟩
  have hrolled := hkept.rolledBack host
  rw [pending_prune, pending_prepareBoot hprepare hs hhost] at hrolled
  exact hrolled

end

/-! ### A call -/

/-- The departures once a call was answered. A request that is recorded as never handed off has not left. -/
def Call.departures (time : Nat) (s : State) (logs : Logs) : Call → Answer → Logs
  | decide r, .decided d => departed d r time logs
  | recordNotHandedOff host, _ =>
    if (s.pending host).isSome then Function.update logs host (logs host).tail else logs
  | _, _ => logs

theorem answering_ok {α : Type} {answer : α → Answer} {u : Step (State × α × Bool)} {a : Answer}
    (h : answering answer u = .ok (s', a, changed)) : ∃ value, u = .ok (s', value, changed) ∧ a = answer value := by
  cases u with
  | error e => cases h
  | ok value =>
    cases h
    exact ⟨_, rfl, rfl⟩

/-- Every call keeps the books. One that leaves the state as it was lets nothing go, and a decision lets a request go only
    when there is room for it. -/
theorem Call.update_ok {call : Call} {answer : Answer} (hok : call.update clock s = .ok (s', answer, changed))
    (hhost : call.host ∈ brokerHosts) (hs : Standing starts time logs s)
    (hpast : ∀ host ∈ brokerHosts, ∀ d ∈ logs host, d.moment ≤ time') (htime : time ≤ time')
    (hnow : starts clock.id + clock.elapsed = time') :
    Kept (starts clock.id) time' (call.departures time' s logs answer) clock.id s' ∧
      (changed = false → call.departures time' s logs answer = logs) ∧
      ∀ r, call = .decide r → answer = .decided .send → ((logs r.host).Pairwise fun d e => e.moment ≤ d.moment) →
        0 < r.budgetLimit → r.budgetWindow ≤ tallyRetention → Free time' (logs r.host) r := by
  cases call <;> simp only [Call.update] at hok
  case decide r =>
    obtain ⟨d, hdecide, rfl⟩ := answering_ok hok
    obtain ⟨hkept, hfree⟩ := decide_ok hdecide hs hpast htime hnow
    refine ⟨hkept, fun hchanged => ?_, ?_⟩
    · refine if_neg fun hsend => ?_
      rw [(hfree hsend).1] at hchanged
      cases hchanged
    · rintro r' hr hsend
      cases hr
      cases hsend
      exact (hfree rfl).2 hhost
  case acknowledgeHandoff host =>
    obtain ⟨_, hcall, rfl⟩ := answering_ok hok
    exact ⟨acknowledgeHandoff_ok hs hpast htime hnow hcall, fun _ => rfl, fun r hr => by cases hr⟩
  case adoptPending host =>
    obtain ⟨_, hcall, rfl⟩ := answering_ok hok
    exact ⟨adoptPending_ok hs hpast htime hnow hcall, fun _ => rfl, fun r hr => by cases hr⟩
  case recordJoinFailure host =>
    obtain ⟨_, hcall, rfl⟩ := answering_ok hok
    exact ⟨recordJoinFailure_ok hs hpast htime hnow hcall, fun _ => rfl, fun r hr => by cases hr⟩
  case recordResponse host status retryAfter =>
    obtain ⟨_, hcall, rfl⟩ := answering_ok hok
    exact ⟨recordResponse_ok hs hpast htime hnow hcall, fun _ => rfl, fun r hr => by cases hr⟩
  case recordUnknownOutcome host =>
    obtain ⟨_, hcall, rfl⟩ := answering_ok hok
    exact ⟨recordUnknownOutcome_ok hs hpast htime hnow hcall, fun _ => rfl, fun r hr => by cases hr⟩
  case recordNotHandedOff host =>
    obtain ⟨_, hcall, rfl⟩ := answering_ok hok
    obtain ⟨hkept, hchanged⟩ := recordNotHandedOff_ok hs hpast htime hnow hhost hcall
    exact ⟨hkept, fun hfalse => absurd (hchanged.symm.trans hfalse) (by decide), fun r hr => by cases hr⟩

end Iaam.Tally
