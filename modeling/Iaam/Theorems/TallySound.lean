import Iaam.Theorems.TallySends

/-! Every call of the tally leaves a sound state: its moments are in order and none is later than the clock, and what belongs
together is there together. -/

namespace Iaam.Tally
open Outcome

/-- Moments in order, none of them later than the given one. -/
def Ordered (now : Nat) (moments : List Nat) : Prop := moments.Pairwise (· ≤ ·) ∧ ∀ m ∈ moments, m ≤ now

structure HostState.Sound (now : Nat) (h : HostState) : Prop where
  lastSend : ∀ l ∈ h.lastSend, l ≤ now
  dailySends : Ordered now h.dailySends
  refusals : Ordered now h.refusals
  rateLimits : Ordered now h.rateLimits
  pendingSince : ∀ since ∈ h.pendingSince, since ≤ now
  closed : h.closedUntil.isSome = h.closedReason.isSome
  paused : h.pausedUntil.isSome = h.pausedFor.isSome
  pending : h.pendingSince.isSome = h.pendingBudgetKey.isSome
  fits : ∀ ends, ends ∈ h.closedUntil ∨ ends ∈ h.pausedUntil ∨ ends ∈ h.pausedFor ∨ ends ∈ h.bootWaitUntil → ends ≤ nanosMax
  key : ∀ key ∈ h.pendingBudgetKey, key ≠ ['-']

/-- What a state must be for its records to say it all. -/
structure State.Sound (now : Nat) (s : State) : Prop where
  highWater : s.bootHighWater = some now
  hosts : ∀ host h, s.hosts.get? host = some h → h.Sound now
  sends : ∀ key sent, s.sends.get? key = some sent → Ordered now sent

variable {now now' : Nat} {s s' : State} {h h' : HostState} {host other : List Char} {clock : BootTime} {r : Request}
variable {d : Decision} {changed changed' : Bool} {moments : List Nat}

/-! ### Moments -/

theorem Ordered.later (ho : Ordered now moments) (hle : now ≤ now') : Ordered now' moments :=
  ⟨ho.1, fun m hm => (ho.2 m hm).trans hle⟩

theorem Ordered.sublist {moments' : List Nat} (ho : Ordered now moments) (hsub : moments'.Sublist moments) :
    Ordered now moments' :=
  ⟨ho.1.sublist hsub, fun m hm => ho.2 m (hsub.subset hm)⟩

theorem Ordered.append (ho : Ordered now moments) : Ordered now (moments ++ [now]) := by
  refine ⟨List.pairwise_append.mpr ⟨ho.1, List.pairwise_singleton _ _, fun m hm n hn => ?_⟩, fun m hm => ?_⟩
  · rw [List.mem_singleton.mp hn]
    exact ho.2 m hm
  · rcases List.mem_append.mp hm with hm | hm
    · exact ho.2 m hm
    · exact (List.mem_singleton.mp hm).le

theorem Ordered.const (now : Nat) (moments : List Nat) : Ordered now (moments.map fun _ => now) := by
  refine ⟨List.pairwise_map.mpr (List.pairwise_of_forall fun _ _ => le_rfl), fun m hm => ?_⟩
  obtain ⟨-, -, rfl⟩ := List.mem_map.mp hm
  exact le_rfl

theorem Ordered.nil : Ordered now [] := ⟨List.Pairwise.nil, fun m hm => by cases hm⟩

theorem saturatingAdd_le (moment nanos : Nat) : saturatingAdd moment nanos ≤ nanosMax := min_le_right _ _

theorem keptSends_sublist (since : Option Nat) (now : Nat) (sent : List Nat) : (State.keptSends since now sent).Sublist sent := by
  unfold State.keptSends
  split_ifs
  · exact List.Sublist.refl _
  · exact List.filter_sublist

/-! ### A host -/

theorem HostState.Sound.later (hs : h.Sound now) (hle : now ≤ now') : h.Sound now' where
  lastSend l hl := (hs.lastSend l hl).trans hle
  dailySends := hs.dailySends.later hle
  refusals := hs.refusals.later hle
  rateLimits := hs.rateLimits.later hle
  pendingSince l hl := (hs.pendingSince l hl).trans hle
  closed := hs.closed
  paused := hs.paused
  pending := hs.pending
  fits := hs.fits
  key := hs.key

theorem HostState.Sound.restarted (hs : h.Sound now) : (State.restarted now' h).Sound now' where
  lastSend l hl := by
    obtain ⟨-, -, rfl⟩ := Option.map_eq_some_iff.mp hl
    exact le_rfl
  dailySends := .const _ _
  refusals := .const _ _
  rateLimits := .const _ _
  pendingSince l hl := by
    obtain ⟨-, -, rfl⟩ := Option.map_eq_some_iff.mp hl
    exact le_rfl
  closed := by
    have hclosed := hs.closed
    simp only [State.restarted]
    cases hends : h.closedUntil with
    | none =>
      rw [hends] at hclosed
      exact hclosed
    | some ends => cases hreason : h.closedReason <;> simp_all
  paused := by
    simp only [State.restarted, Option.isSome_map]
    exact hs.paused
  pending := by
    simp only [State.restarted, Option.isSome_map]
    exact hs.pending
  fits ends hends := by
    simp only [State.restarted, Option.mem_def] at hends
    rcases hends with hends | hends | hends | hends
    · obtain ⟨_, -, hends⟩ := Option.bind_eq_some_iff.mp hends
      obtain ⟨_, -, rfl⟩ := Option.map_eq_some_iff.mp hends
      exact saturatingAdd_le ..
    · obtain ⟨_, -, rfl⟩ := Option.map_eq_some_iff.mp hends
      exact saturatingAdd_le ..
    · exact hs.fits ends (Or.inr (Or.inr (Or.inl hends)))
    · exact Option.some.inj hends ▸ saturatingAdd_le ..
  key := hs.key

theorem HostState.sound_empty (now : Nat) : ({} : HostState).Sound now where
  lastSend l hl := by cases hl
  dailySends := .nil
  refusals := .nil
  rateLimits := .nil
  pendingSince l hl := by cases hl
  closed := rfl
  paused := rfl
  pending := rfl
  fits ends hends := by simp at hends
  key key hkey := by cases hkey

theorem HostState.sound_fullDay : (State.fullDay now).Sound now :=
  { HostState.sound_empty now with
    lastSend := fun l hl => (Option.some.inj hl).ge
    dailySends := by
      have hconst := Ordered.const now (List.replicate dailyCeiling 0)
      rw [List.map_replicate] at hconst
      exact hconst
    closed := rfl
    paused := rfl
    pending := rfl
    fits := fun ends hends => by simp [State.fullDay] at hends }

theorem HostState.Sound.pruned (hs : h.Sound now) : (State.pruneHost now h).Sound now where
  lastSend := hs.lastSend
  dailySends := hs.dailySends.sublist (keptSends_sublist ..)
  refusals := by
    simp only [State.pruneHost]
    split_ifs
    · exact hs.refusals
    · exact hs.refusals.sublist List.filter_sublist
  rateLimits := by
    simp only [State.pruneHost]
    split_ifs
    · exact hs.rateLimits
    · exact hs.rateLimits.sublist List.filter_sublist
  pendingSince := hs.pendingSince
  closed := by
    have hclosed := hs.closed
    simp only [State.pruneHost]
    cases hends : h.closedUntil with
    | none =>
      rw [hends] at hclosed
      simpa using hclosed
    | some ends =>
      rw [hends] at hclosed
      by_cases hopen : now < ends
      · simpa [hopen, not_le.mpr hopen] using hclosed
      · simp [hopen, not_lt.mp hopen]
  paused := by
    have hpaused := hs.paused
    simp only [State.pruneHost]
    cases hends : h.pausedUntil with
    | none =>
      rw [hends] at hpaused
      simpa using hpaused
    | some ends =>
      rw [hends] at hpaused
      by_cases hopen : now < ends
      · simpa [hopen, not_le.mpr hopen] using hpaused
      · simp [hopen, not_lt.mp hopen]
  pending := hs.pending
  fits ends hends := by
    simp only [State.pruneHost, Option.mem_def, Option.filter_eq_some_iff] at hends
    rcases hends with hends | hends | hends | hends
    · exact hs.fits ends (Or.inl hends.1)
    · exact hs.fits ends (Or.inr (Or.inl hends.1))
    · split_ifs at hends
      exact hs.fits ends (Or.inr (Or.inr (Or.inl hends)))
    · exact hs.fits ends (Or.inr (Or.inr (Or.inr hends.1)))
  key := hs.key

theorem HostState.Sound.withoutPending (hs : h.Sound now) : h.withoutPending.Sound now :=
  { hs with
    pendingSince := fun _ hl => by cases hl
    pending := rfl
    key := fun _ hkey => by cases hkey }

theorem HostState.Sound.closed_until {ends : Nat} {reason : ClosureReason} (hs : h.Sound now) (hends : ends ≤ nanosMax) :
    HostState.Sound now { h with closedUntil := some ends, closedReason := some reason } :=
  { hs with
    closed := rfl
    fits := fun ends' hends' => by
      rcases hends' with hclosed | hrest
      · exact Option.some.inj hclosed ▸ hends
      · exact hs.fits ends' (Or.inr hrest) }

theorem HostState.Sound.closeUntil {ends : Nat} {reason : ClosureReason} (hs : h.Sound now) (hends : ends ≤ nanosMax) :
    (h.closeUntil ends reason).Sound now := by
  refine hs.closed_until (max_le ?_ hends)
  cases hold : h.closedUntil with
  | none => exact Nat.zero_le _
  | some old => exact hs.fits old (Or.inl hold)

theorem HostState.Sound.pauseUntil {ends span : Nat} (hs : h.Sound now) (hends : ends ≤ nanosMax) (hspan : span ≤ nanosMax) :
    (h.pauseUntil ends span).Sound now := by
  unfold HostState.pauseUntil
  split_ifs
  · exact { hs with
      paused := rfl
      fits := fun ends' hends' => by
        rcases hends' with hclosed | hpaused | hfor | hboot
        · exact hs.fits ends' (Or.inl hclosed)
        · exact Option.some.inj hpaused ▸ hends
        · exact Option.some.inj hfor ▸ hspan
        · exact hs.fits ends' (Or.inr (Or.inr (Or.inr hboot))) }
  · exact hs

theorem dayNanos_le : dayNanos ≤ nanosMax := by decide

theorem HostState.Sound.answered (hs : h.Sound now) (status : Nat) (retryAfter : Option Nat) :
    (h.answered status retryAfter now).Sound now := by
  unfold HostState.answered
  have hspan : ∀ named ∈ (if 200 ≤ status ∧ status < 300 then none else retryAfter.map fun delay => min delay dayNanos),
      named ≤ dayNanos := fun named hnamed => by
    split_ifs at hnamed
    · cases hnamed
    · obtain ⟨_, -, rfl⟩ := Option.map_eq_some_iff.mp hnamed
      exact min_le_right _ _
  generalize (if 200 ≤ status ∧ status < 300 then none else retryAfter.map fun delay => min delay dayNanos) = named at hspan
  have hnamed : (named.elim h fun pause => h.pauseUntil (saturatingAdd now pause) pause).Sound now := by
    cases named with
    | none => exact hs
    | some pause => exact hs.pauseUntil (saturatingAdd_le ..) ((hspan pause rfl).trans dayNanos_le)
  have hpause : max (named.getD rateLimitPauseNanos) rateLimitPauseNanos ≤ nanosMax := by
    have hlimit : rateLimitPauseNanos ≤ nanosMax := by decide
    refine max_le ?_ hlimit
    cases named with
    | none => exact hlimit
    | some pause => exact (hspan pause rfl).trans dayNanos_le
  dsimp only
  generalize (named.elim h fun pause => h.pauseUntil (saturatingAdd now pause) pause) = g at hnamed
  have hlimited : HostState.Sound now { g with rateLimits := g.rateLimits ++ [now] } :=
    { hnamed with rateLimits := hnamed.rateLimits.append }
  have hrefused : HostState.Sound now { g with refusals := g.refusals ++ [now] } :=
    { hnamed with refusals := hnamed.refusals.append }
  split_ifs
  · exact (hlimited.pauseUntil (saturatingAdd_le ..) hpause).closeUntil (saturatingAdd_le ..)
  · exact hlimited.pauseUntil (saturatingAdd_le ..) hpause
  · exact hrefused.closeUntil (saturatingAdd_le ..)
  · exact hrefused
  · exact hnamed

/-! ### A state -/

theorem State.Sound.put (hs : s.Sound now) (hh : h.Sound now) :
    State.Sound now { s with hosts := s.hosts.insert other h } where
  highWater := hs.highWater
  hosts host h' hget := by
    dsimp only at hget
    rw [SortedMap.get?_insert] at hget
    split_ifs at hget
    · cases hget
      exact hh
    · exact hs.hosts host h' hget
  sends := hs.sends

theorem State.Sound.send {key : SendKey} {sent : List Nat} (hs : s.Sound now) (hsent : Ordered now sent) :
    State.Sound now { s with sends := s.sends.insert key sent } where
  highWater := hs.highWater
  hosts := hs.hosts
  sends key' sent' hget := by
    dsimp only at hget
    rw [SortedMap.get?_insert] at hget
    split_ifs at hget
    · cases hget
      exact hsent
    · exact hs.sends key' sent' hget

theorem State.Sound.sent (hs : s.Sound now) (host key : List Char) : Ordered now (s.sent host key) := by
  unfold State.sent
  cases hget : s.sends.get? (toLex (host, key)) with
  | none => exact .nil
  | some sent => exact hs.sends _ _ hget

theorem State.Sound.hostForBoot (hs : s.Sound now) (host : List Char) : (s.hostForBoot host now).Sound now := by
  unfold State.hostForBoot
  cases hget : s.hosts.get? host with
  | some h => exact hs.hosts host h hget
  | none =>
    exact { HostState.sound_empty now with
      closed := rfl
      paused := rfl
      pending := rfl
      fits := fun ends hends => by
        simp only [Option.getD_none, Option.mem_def, reduceCtorEq, false_or, Option.some.injEq] at hends
        exact hends ▸ saturatingAdd_le .. }

/-- What the records hold before a call: nothing, or a sound state up to its last reading of the clock. -/
def Whole (s : State) : Prop := Blank s ∨ ∃ now, s.Sound now

theorem sound_of_prepareBoot (hprepare : s.prepareBoot clock = .ok (s', changed)) (hs : Whole s) :
    s'.Sound clock.elapsed := by
  obtain ⟨-, ⟨hsame, rfl⟩ | ⟨-, -, rfl⟩⟩ := prepareBoot_ok hprepare
  · simp only [State.changedBoot, Bool.or_eq_false_iff, decide_eq_false_iff_not, not_not] at hsame
    rcases hs with ⟨-, hnone, -, -⟩ | ⟨now, hsound⟩
    · rw [hnone] at hsame
      cases hsame.1
    · have hle : now ≤ clock.elapsed := by simpa [hsound.highWater] using hsame.2
      exact ⟨rfl, fun host h hget => (hsound.hosts host h hget).later hle, fun key sent hget =>
        (hsound.sends key sent hget).later hle⟩
  · refine ⟨rfl, fun host h hget => ?_, fun key sent hget => ?_⟩
    · have hrestarted : ∀ h, (s.hosts.map (State.restarted clock.elapsed)).get? host = some h →
          h.Sound clock.elapsed := by
        intro h hget
        rw [SortedMap.get?_map, Option.map_eq_some_iff] at hget
        obtain ⟨h', hget, rfl⟩ := hget
        rcases hs with ⟨-, -, hnone, -⟩ | ⟨now, hsound⟩
        · rw [hnone] at hget
          cases hget
        · exact (hsound.hosts host h' hget).restarted
      dsimp only at hget
      split_ifs at hget
      · simp only [brokerHosts, List.foldl_cons, List.foldl_nil, SortedMap.get?_insert] at hget
        split_ifs at hget
        · exact Option.some.inj hget ▸ HostState.sound_fullDay
        · exact Option.some.inj hget ▸ HostState.sound_fullDay
        · exact Option.some.inj hget ▸ HostState.sound_fullDay
        · exact hrestarted h hget
      · exact hrestarted h hget
    · dsimp only at hget
      rw [SortedMap.get?_map, Option.map_eq_some_iff] at hget
      obtain ⟨sent', -, rfl⟩ := hget
      exact .const _ _

theorem State.Sound.pruned (hs : s.Sound now) : (s.prune now).1.Sound now where
  highWater := hs.highWater
  hosts host h hget := by
    simp only [State.prune, SortedMap.get?_map, Option.map_eq_some_iff] at hget
    obtain ⟨h', hget, rfl⟩ := hget
    exact (hs.hosts host h' hget).pruned
  sends key sent hget := by
    simp only [State.prune] at hget
    split_ifs at hget
    · exact hs.sends key sent hget
    · rw [SortedMap.get?_filterMap, Option.bind_eq_some_iff] at hget
      obtain ⟨sent', hget, hkept⟩ := hget
      split_ifs at hkept
      cases hkept
      exact (hs.sends key sent' hget).sublist (keptSends_sublist ..)

theorem State.Sound.moved (hs : s.Sound now) (hmove : s.movePendingTo other now = .ok s') : s'.Sound now := by
  rcases movePendingTo_ok hmove with ⟨-, rfl⟩ | ⟨h, since, key, hp, rfl⟩
  · exact hs
  · obtain ⟨hget, hsince, hkey⟩ := pending_eq_some hp
    have hh := hs.hosts other h hget
    have hmax : max since now = now := max_eq_right (hh.pendingSince since hsince)
    rw [hmax]
    have hmoved : HostState.Sound now { h with
        dailySends := h.dailySends.dropLast ++ [now]
        lastSend := some (max (h.lastSend.getD 0) now)
        pendingSince := some now } :=
      { hh with
        dailySends := (hh.dailySends.sublist (List.dropLast_sublist _)).append
        lastSend := fun l hl => by
          obtain rfl := Option.some.inj hl
          refine max_le ?_ le_rfl
          cases hlast : h.lastSend with
          | none => exact Nat.zero_le _
          | some last => exact hh.lastSend last hlast
        pendingSince := fun l hl => (Option.some.inj hl).ge
        pending := by rw [hkey]; rfl }
    exact (hs.send ((hs.sent other key).sublist (List.dropLast_sublist _)).append).put hmoved

theorem State.Sound.movedIfPending (hs : s.Sound now) (hmove : s.moveIfPending other now = .ok s') : s'.Sound now := by
  unfold State.moveIfPending at hmove
  split_ifs at hmove
  · exact hs.moved hmove
  · cases hmove
    exact hs

theorem withoutLast_sublist (since : Nat) (moments : List Nat) : (State.withoutLast since moments).Sublist moments := by
  unfold State.withoutLast
  split_ifs
  · exact List.dropLast_sublist _
  · exact List.Sublist.refl _

theorem State.Sound.rolledBack (hs : s.Sound now) : (s.rollbackPending other).Sound now := by
  unfold State.rollbackPending
  cases hp : s.pending other with
  | none => exact hs
  | some pending =>
    obtain ⟨h, since, key⟩ := pending
    have hh := hs.hosts other h (pending_eq_some hp).1
    have hrolled : HostState.Sound now
        { h with dailySends := State.withoutLast since h.dailySends, pendingSince := none, pendingBudgetKey := none } :=
      { hh.withoutPending with dailySends := hh.dailySends.sublist (withoutLast_sublist ..) }
    dsimp only
    cases hsend : s.sends.get? (toLex (other, key)) with
    | none => exact hs.put hrolled
    | some sent => exact (hs.send ((hs.sends _ _ hsend).sublist (withoutLast_sublist ..))).put hrolled

/-! ### A call -/

theorem State.Sound.settled (hs : s.Sound now) (hh : h.Sound now) (hkey : r.budgetKey ≠ ['-'])
    (hok : settle s h r now changed = .ok (s', d, changed')) : s'.Sound now := by
  simp only [settle] at hok
  cases hrefusal : activeRefusal h now with
  | some refusal =>
    rw [hrefusal] at hok
    cases hok
    exact hs
  | none =>
    rw [hrefusal] at hok
    rcases pace_ok hok with ⟨-, rfl | rfl⟩ | ⟨-, -, -, -, -, rfl⟩
    · exact hs
    · exact hs.send (hs.sent ..)
    · have hsent : HostState.Sound now { h with
          dailySends := h.dailySends ++ [now]
          bootWaitUntil := none
          pendingSince := some now
          pendingBudgetKey := some r.budgetKey } :=
        { hh with
          dailySends := hh.dailySends.append
          pendingSince := fun l hl => (Option.some.inj hl).ge
          pending := rfl
          key := fun key hk => Option.some.inj hk ▸ hkey
          fits := fun ends hends => by
            rcases hends with hclosed | hpaused | hfor | hboot
            · exact hh.fits ends (Or.inl hclosed)
            · exact hh.fits ends (Or.inr (Or.inl hpaused))
            · exact hh.fits ends (Or.inr (Or.inr (Or.inl hfor)))
            · cases hboot }
      exact (hs.send (hs.sent ..).append).put hsent

/-- The budget key of a call is not the mark of a missing one. -/
def Call.named : Call → Prop
  | decide r => r.budgetKey ≠ ['-']
  | _ => True

theorem decide_sound (hok : decide r clock s = .ok (s', d, changed)) (hs : Whole s) (hkey : r.budgetKey ≠ ['-']) :
    s'.Sound clock.elapsed := by
  obtain ⟨⟨s₁, changed₁⟩, hprepare, hok⟩ := bind_ok.mp hok
  have hpruned := (sound_of_prepareBoot hprepare hs).pruned
  have hh := hpruned.hostForBoot r.host
  dsimp only at hok
  generalize (s₁.prune clock.elapsed).1.hostForBoot r.host clock.elapsed = h at hok hh
  have hfound : State.Sound clock.elapsed { (s₁.prune clock.elapsed).1 with
      hosts := (s₁.prune clock.elapsed).1.hosts.insert r.host h } := hpruned.put hh
  cases hsince : h.pendingSince with
  | none =>
    rw [hsince] at hok
    exact hfound.settled hh hkey hok
  | some since =>
    rw [hsince] at hok
    dsimp only at hok
    split_ifs at hok with hopen
    · cases hok
      exact hfound
    · obtain ⟨s₂, hmove, hok⟩ := bind_ok.mp hok
      have hmoved := hfound.moved hmove
      have hcleared := (hmoved.hostForBoot r.host).withoutPending
      have hclosed : HostState.Sound clock.elapsed
          (if ((s₂.hostForBoot r.host clock.elapsed).withoutPending).rateLimits = [] then
            (s₂.hostForBoot r.host clock.elapsed).withoutPending
          else { (s₂.hostForBoot r.host clock.elapsed).withoutPending with
            closedUntil := some (saturatingAdd clock.elapsed closureNanos)
            closedReason := some .rateLimits }) := by
        split_ifs
        · exact hcleared
        · exact hcleared.closed_until (saturatingAdd_le ..)
      exact (hmoved.put hclosed).settled hclosed hkey hok

/-- Every call leaves a sound state. -/
theorem Call.update_sound {call : Call} {answer : Answer} (hok : call.update clock s = .ok (s', answer, changed))
    (hs : Whole s) (hnamed : call.named) : s'.Sound clock.elapsed := by
  cases call <;> simp only [Call.update] at hok
  case decide r =>
    obtain ⟨d, hdecide, -⟩ := answering_ok hok
    exact decide_sound hdecide hs hnamed
  case acknowledgeHandoff host =>
    obtain ⟨_, hcall, -⟩ := answering_ok hok
    obtain ⟨⟨s₁, changed₁⟩, hprepare, hcall⟩ := bind_ok.mp hcall
    obtain ⟨s₂, hmove, hcall⟩ := bind_ok.mp hcall
    cases hcall
    exact ((sound_of_prepareBoot hprepare hs).movedIfPending hmove).pruned
  case adoptPending host =>
    obtain ⟨_, hcall, -⟩ := answering_ok hok
    obtain ⟨⟨s₁, changed₁⟩, hprepare, hcall⟩ := bind_ok.mp hcall
    have hsound := sound_of_prepareBoot hprepare hs
    dsimp only at hcall
    split_ifs at hcall
    · obtain ⟨s₂, hmove, hcall⟩ := bind_ok.mp hcall
      cases hcall
      have hpruned := (hsound.moved hmove).pruned
      exact hpruned.put ((hpruned.hostForBoot host).withoutPending.closeUntil (saturatingAdd_le ..))
    · cases hcall
      exact hsound.pruned
  case recordJoinFailure host =>
    obtain ⟨_, hcall, -⟩ := answering_ok hok
    obtain ⟨⟨s₁, changed₁⟩, hprepare, hcall⟩ := bind_ok.mp hcall
    obtain ⟨s₂, hmove, hcall⟩ := bind_ok.mp hcall
    cases hcall
    have hpruned := ((sound_of_prepareBoot hprepare hs).movedIfPending hmove).pruned
    exact hpruned.put ((hpruned.hostForBoot host).withoutPending.closeUntil (saturatingAdd_le ..))
  case recordResponse host status retryAfter =>
    obtain ⟨_, hcall, -⟩ := answering_ok hok
    obtain ⟨⟨s₁, changed₁⟩, hprepare, hcall⟩ := bind_ok.mp hcall
    dsimp only at hcall
    split_ifs at hcall
    · cases hcall
    · obtain ⟨s₂, hmove, hcall⟩ := bind_ok.mp hcall
      cases hcall
      have hpruned := ((sound_of_prepareBoot hprepare hs).moved hmove).pruned
      exact hpruned.put ((hpruned.hostForBoot host).withoutPending.answered status retryAfter)
  case recordUnknownOutcome host =>
    obtain ⟨_, hcall, -⟩ := answering_ok hok
    obtain ⟨⟨s₁, changed₁⟩, hprepare, hcall⟩ := bind_ok.mp hcall
    obtain ⟨s₂, hmove, hcall⟩ := bind_ok.mp hcall
    have hpruned := ((sound_of_prepareBoot hprepare hs).moved hmove).pruned
    dsimp only at hcall
    cases hcall
    refine hpruned.put ((hpruned.hostForBoot host).withoutPending.closeUntil ?_)
    split_ifs
    · exact max_le (saturatingAdd_le ..) (saturatingAdd_le ..)
    · exact saturatingAdd_le ..
  case recordNotHandedOff host =>
    obtain ⟨_, hcall, -⟩ := answering_ok hok
    obtain ⟨⟨s₁, changed₁⟩, hprepare, hcall⟩ := bind_ok.mp hcall
    cases hcall
    exact (sound_of_prepareBoot hprepare hs).pruned.rolledBack

end Iaam.Tally
