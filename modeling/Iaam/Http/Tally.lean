import Iaam.Http.Budgets
import Iaam.Lib.Outcome
import Iaam.Lib.SortedMap
import Mathlib.Data.Char
import Mathlib.Data.List.Lex
import Mathlib.Data.Prod.Lex

/-! The tally of outbound requests (`tally.rs`): what is known of the sends to every broker endpoint, and when the next one
may leave. Moments are nanoseconds on the boot clock; they fit into 128 bits, and sums of them saturate. -/

namespace Iaam
open Outcome

namespace Tally

def departureSpacingNanos : Nat := secondNanos
def refusalWindowNanos : Nat := 10 * minuteNanos
def rateLimitPauseNanos : Nat := 60 * secondNanos
def closureNanos : Nat := 30 * minuteNanos
/-- How long an endpoint stays closed after a request whose outcome was never recorded. -/
def unresolvedClosureNanos : Nat := 60 * minuteNanos
def firstSendWaitNanos : Nat := minuteNanos
def requestTimeoutNanos : Nat := 30 * secondNanos
def unresolvedAttemptNanos : Nat := requestTimeoutNanos + rateLimitPauseNanos
def dailyCeiling : Nat := 1000

/-- The largest number of 128 bits. -/
def nanosMax : Nat := 340282366920938463463374607431768211455

/-- The largest number of 64 bits. -/
def generationMax : Nat := 18446744073709551615

def durationMax : Nat := generationMax * secondNanos + (secondNanos - 1)

def saturatingAdd (moment nanos : Nat) : Nat := min (moment + nanos) nanosMax

/-- A span as a duration, which is the longest one where the seconds do not fit. -/
def durationFromNanos (nanos : Nat) : Nat := if nanos / secondNanos < generationMax then nanos else durationMax

def brokerHosts : List (List Char) :=
  [Destination.tinkoffProd.baseUrl, Destination.tinkoffSandbox.baseUrl, Destination.finamApi.baseUrl]

/-! ### Errors -/

/-- What is wrong with a tally. -/
inductive Corruption where
  | exhausted
  | noPending (host : List Char)
  | pendingNotLatest (host : List Char)
  | closureWithoutReason
  | atom (line : Nat)
  | noBootId
  | noHighWater
  | noGeneration
  | header (first : Option (List Char))
  | unknownShape (line : Nat)
  | repeatedHost (line : Nat) (host : List Char)
  | repeatedBudget (line : Nat) (key host : List Char)
  | unpairedPending (line : Nat)
  | unpairedClosure (line : Nat)
  | unpairedPause (line : Nat)
  | reason (line : Nat) (value : List Char)
  | number (line : Nat) (field : String) (value : List Char)
  | outOfOrder (line : Nat) (field : String)
  | generationRecord
  | emptied
  | rolledBack (recorded generation : Nat)
  | older (generation process : Nat)
  deriving DecidableEq, Repr

def header : String := "iaam-outbound-tally-v4"

/-- The text of an error. The quoted form of a text is the library's. -/
def Corruption.text (quoted : List Char → String) : Corruption → String
  | exhausted => "the tally generation is exhausted"
  | noPending host => s!"endpoint {quoted host} returned a status without a pending request"
  | pendingNotLatest host =>
    s!"endpoint {quoted host} pending request does not name the latest method and daily timestamps"
  | closureWithoutReason => "an endpoint closure must carry its reason"
  | atom 0 => "a value to write contains an invalid empty or control-delimited value"
  | atom line => s!"line {line} contains an invalid empty or control-delimited value"
  | noBootId => "the tally has no boot id"
  | noHighWater => "the tally has no boot high-water mark"
  | noGeneration => "the tally has no generation"
  | Corruption.header first =>
    let found := first.elim "None" fun line => s!"Some({quoted line})"
    s!"tally format {found} is not the current {quoted Tally.header.toList}; no older tally format was deployed, " ++
      "so recreate the tally and generation record during a controlled stop"
  | unknownShape line => s!"line {line} has an unknown or repeated record shape"
  | repeatedHost line host => s!"line {line} repeats host {quoted host}"
  | repeatedBudget line key host => s!"line {line} repeats budget {quoted key} for {quoted host}"
  | unpairedPending line => s!"line {line} must carry the pending time and budget key together"
  | unpairedClosure line => s!"line {line} must carry a closure time and reason together"
  | unpairedPause line => s!"line {line} must carry a pause time and duration together"
  | reason line value => s!"line {line} has invalid closure reason {quoted value}"
  | number line field value => s!"line {line} has invalid {field} {quoted value}"
  | outOfOrder line field => s!"line {line} has {field}s out of order"
  | generationRecord => "the outbound tally generation record is empty or malformed; " ++
      "restore the current tally and generation record before retrying"
  | emptied => "the outbound tally was emptied without its generation record; " ++
      "empty or restore both records together during a controlled stop"
  | rolledBack recorded generation =>
    s!"the outbound tally generation rolled back from {recorded} to {generation}; " ++
      "restore the current tally and generation record before retrying"
  | older generation process =>
    s!"the tally pair generation {generation} is older than this process generation high-water {process}; " ++
      "no older tally format was deployed, so restore the current pair before retrying"

/-- A step that fails on a corrupt tally, or panics. -/
abbrev Step (α : Type) := Result Corruption α

def corrupt {α : Type} (why : Corruption) : Step α := .error (.error why)

def isAtom (value : List Char) : Bool := value ≠ [] && !value.any fun c => c ∈ ['\t', '\n', '\r']

def validateAtom (value : List Char) (line : Nat) : Step Unit := if isAtom value then .ok () else corrupt (.atom line)

/-! ### State -/

inductive ClosureReason where
  | refusals
  | rateLimits
  | repeatedResponses
  | unresolvedAttempt
  deriving DecidableEq, Repr

def ClosureReason.durationAfterBootChange : ClosureReason → Nat
  | unresolvedAttempt => unresolvedClosureNanos
  | refusals | rateLimits | repeatedResponses => closureNanos

def ClosureReason.description : ClosureReason → String
  | refusals => "three refusals within ten minutes"
  | rateLimits => "two 429 responses within ten minutes"
  | repeatedResponses => "repeated broker refusals"
  | unresolvedAttempt => "an earlier request has no committed status"

structure HostState where
  lastSend : Option Nat := none
  dailySends : List Nat := []
  closedUntil : Option Nat := none
  closedReason : Option ClosureReason := none
  pausedUntil : Option Nat := none
  pausedFor : Option Nat := none
  refusals : List Nat := []
  rateLimits : List Nat := []
  bootWaitUntil : Option Nat := none
  pendingSince : Option Nat := none
  pendingBudgetKey : Option (List Char) := none
  deriving DecidableEq, Repr

/-- The key under which the sends of a method are kept. -/
abbrev SendKey := List Char ×ₗ List Char

structure State where
  generation : Nat := 0
  bootId : Option (List Char) := none
  bootHighWater : Option Nat := none
  hosts : SortedMap (List Char) HostState := .empty
  sends : SortedMap SendKey (List Nat) := .empty
  pairWasEmpty : Bool := false

/-- One reading of the boot clock, and the boot it belongs to. -/
structure BootTime where
  id : List Char
  elapsed : Nat
  fits : elapsed ≤ durationMax

inductive Decision where
  | send
  | wait (nanos : Nat)
  | paused (retryAfter : Nat)
  | closed (reason : ClosureReason) (retryAfter : Nat)
  | dailyCeiling (retryAfter : Nat)
  deriving DecidableEq, Repr

inductive ResponseDecision where
  | recorded
  | paused (retryAfter : Nat)
  deriving DecidableEq, Repr

namespace State

/-- The host with a pending request, its moment and its budget key. -/
def pending (s : State) (host : List Char) : Option (HostState × Nat × List Char) :=
  match s.hosts.get? host with
  | none => none
  | some h =>
    match h.pendingSince, h.pendingBudgetKey with
    | some since, some key => some (h, since, key)
    | _, _ => none

def sent (s : State) (host key : List Char) : List Nat := (s.sends.get? (toLex (host, key))).getD []

/-- Moves the pending request, and what is recorded of it, to a later moment. -/
def movePendingTo (s : State) (host : List Char) (now : Nat) : Step State :=
  match s.pending host with
  | none => .ok s
  | some (h, since, key) =>
    let movedTo := max since now
    let sent := s.sent host key
    if sent.getLast?.any (fun last => last ≠ since) || h.dailySends.getLast?.any (fun last => last ≠ since) then
      corrupt (.pendingNotLatest host)
    else
      .ok { s with
        sends := s.sends.insert (toLex (host, key)) (sent.dropLast ++ [movedTo])
        hosts := s.hosts.insert host { h with
          dailySends := h.dailySends.dropLast ++ [movedTo]
          lastSend := some (max (h.lastSend.getD 0) movedTo)
          pendingSince := some movedTo } }

/-- A list without its last moment, if that is the given one. -/
def withoutLast (since : Nat) (moments : List Nat) : List Nat :=
  if moments.getLast? = some since then moments.dropLast else moments

/-- Forgets the pending request, as it was never handed off. -/
def rollbackPending (s : State) (host : List Char) : State :=
  match s.pending host with
  | none => s
  | some (h, since, key) => { s with
      hosts := s.hosts.insert host { h with
        dailySends := withoutLast since h.dailySends
        pendingSince := none
        pendingBudgetKey := none }
      sends :=
        match s.sends.get? (toLex (host, key)) with
        | none => s.sends
        | some sent => s.sends.insert (toLex (host, key)) (withoutLast since sent) }

/-! ### Another boot -/

/-- What is known of a host once the boot has changed: nobody can tell how long the machine was down. -/
def restarted (now : Nat) (h : HostState) : HostState := { h with
  lastSend := h.lastSend.map fun _ => now
  dailySends := h.dailySends.map fun _ => now
  closedUntil := h.closedUntil.bind fun _ => h.closedReason.map fun reason =>
    saturatingAdd now reason.durationAfterBootChange
  pausedUntil := h.pausedUntil.map fun _ => saturatingAdd now (h.pausedFor.getD rateLimitPauseNanos)
  refusals := h.refusals.map fun _ => now
  rateLimits := h.rateLimits.map fun _ => now
  bootWaitUntil := some (saturatingAdd now firstSendWaitNanos)
  pendingSince := h.pendingSince.map fun _ => now }

/-- A host of which nothing is known, as the records were lost: a full day of sends. -/
def fullDay (now : Nat) : HostState := { lastSend := some now, dailySends := List.replicate dailyCeiling now }

def changedBoot (s : State) (boot : BootTime) : Bool :=
  s.bootId ≠ some boot.id || s.bootHighWater.any fun highWater => boot.elapsed < highWater

/-- Takes in the reading of the clock. The flag says whether the state is another one. -/
def prepareBoot (s : State) (boot : BootTime) : Step (State × Bool) := do
  validateAtom boot.id 0
  let now := boot.elapsed
  if !s.changedBoot boot then
    .ok ({ s with bootHighWater := some now }, s.bootHighWater ≠ some now)
  else if s.hosts.entries.any fun e => e.2.closedUntil.isSome ≠ e.2.closedReason.isSome then
    corrupt .closureWithoutReason
  else
    let hosts := s.hosts.map (restarted now)
    .ok ({ s with
      bootId := some boot.id
      bootHighWater := some now
      hosts := if s.pairWasEmpty then brokerHosts.foldl (fun hosts host => hosts.insert host (fullDay now)) hosts else hosts
      sends := s.sends.map fun sent => sent.map fun _ => now
      pairWasEmpty := false }, true)

/-- The state of a host, which is made with its first wait where there is none. -/
def hostForBoot (s : State) (host : List Char) (now : Nat) : HostState :=
  (s.hosts.get? host).getD { bootWaitUntil := some (saturatingAdd now firstSendWaitNanos) }

/-! ### Old records -/

def keepsSend (pending : Option Nat) (cutoff moment : Nat) : Bool := cutoff < moment || pending = some moment

/-- The sends that are still counted. One that is pending always is. -/
def keptSends (pending : Option Nat) (now : Nat) (sent : List Nat) : List Nat :=
  if now < tallyRetention then sent else sent.filter (keepsSend pending (now - tallyRetention))

/-- The pending moment of a host, if the request is one of this budget. -/
def pendingUnder (s : State) (key : SendKey) : Option Nat :=
  match s.pending (ofLex key).1 with
  | some (_, since, key') => if key' = (ofLex key).2 then some since else none
  | none => none

def pruneHost (now : Nat) (h : HostState) : HostState := { h with
  dailySends := keptSends h.pendingSince now h.dailySends
  refusals := if now < refusalWindowNanos then h.refusals else h.refusals.filter fun moment => now - refusalWindowNanos < moment
  rateLimits :=
    if now < refusalWindowNanos then h.rateLimits else h.rateLimits.filter fun moment => now - refusalWindowNanos ≤ moment
  closedUntil := h.closedUntil.filter fun ends => now < ends
  closedReason := if h.closedUntil.any fun ends => ends ≤ now then none else h.closedReason
  pausedUntil := h.pausedUntil.filter fun ends => now < ends
  pausedFor := if h.pausedUntil.any fun ends => ends ≤ now then none else h.pausedFor
  bootWaitUntil := h.bootWaitUntil.filter fun ends => now < ends }

/-- Gives up what is too old to count. The flag says whether something was. -/
def prune (s : State) (now : Nat) : State × Bool :=
  let sends := if now < tallyRetention then s.sends else s.sends.filterMap fun key sent =>
    let kept := keptSends (s.pendingUnder key) now sent
    if kept = [] then none else some kept
  let hosts := s.hosts.map (pruneHost now)
  ({ s with sends, hosts }, sends.entries ≠ s.sends.entries || hosts.entries ≠ s.hosts.entries)

end State

/-! ### The endpoint's calls -/

def HostState.withoutPending (h : HostState) : HostState := { h with pendingSince := none, pendingBudgetKey := none }

/-- A closure that never ends before the one that stands. -/
def HostState.closeUntil (h : HostState) (ends : Nat) (reason : ClosureReason) : HostState := { h with
  closedUntil := some (max (h.closedUntil.getD 0) ends)
  closedReason := some reason }

/-- A pause, unless the one that stands ends later. -/
def HostState.pauseUntil (h : HostState) (ends span : Nat) : HostState :=
  if h.pausedUntil.all fun paused => paused ≤ ends then { h with pausedUntil := some ends, pausedFor := some span } else h

def State.isPending (s : State) (host : List Char) : Bool :=
  (s.hosts.get? host).any fun h => h.pendingSince.isSome

/-- Moves the request of a host that is pending. -/
def State.moveIfPending (s : State) (host : List Char) (now : Nat) : Step State :=
  if s.isPending host then s.movePendingTo host now else .ok s

def activeRefusal (h : HostState) (now : Nat) : Option Decision :=
  match h.closedUntil.filter fun ends => now < ends with
  | some ends => some (.closed (h.closedReason.getD .repeatedResponses) (durationFromNanos (ends - now)))
  | none => (h.pausedUntil.filter fun ends => now < ends).map fun ends => .paused (durationFromNanos (ends - now))

/-- The wait until a moment of the budget's list has left the window. A budget of no requests panics. -/
def budgetWait (sent : List Nat) (limit window now : Nat) : Step Nat :=
  if limit ≤ sent.length then
    match sent[sent.length - limit]? with
    | some moment => .ok (saturatingAdd moment window - now)
    | none => .error .panic
  else .ok 0

/-- What is asked of the tally before a request. -/
structure Request where
  host : List Char
  budgetKey : List Char
  budgetLimit : Nat
  budgetWindow : Nat
  deriving DecidableEq, Repr

/-- The decision on a host that neither waits for an outcome nor is refused. -/
def pace (s : State) (h : HostState) (r : Request) (now : Nat) (changed : Bool) : Step (State × Decision × Bool) :=
  match h.bootWaitUntil.filter fun ends => now < ends with
  | some ends => .ok (s, .wait (durationFromNanos (ends - now)), true)
  | none =>
    if dailyCeiling ≤ h.dailySends.length then
      let reset := saturatingAdd (h.dailySends.headD 0) dayNanos
      .ok (s, .dailyCeiling (durationFromNanos (reset - now)), changed)
    else do
      let spacingWait := h.lastSend.elim 0 fun last => saturatingAdd last departureSpacingNanos - now
      let sent := s.sent r.host r.budgetKey
      let budgetWait ← budgetWait sent r.budgetLimit r.budgetWindow now
      let wait := max spacingWait budgetWait
      if wait ≠ 0 then
        .ok ({ s with sends := s.sends.insert (toLex (r.host, r.budgetKey)) sent }, .wait (durationFromNanos wait), changed)
      else
        .ok ({ s with
          sends := s.sends.insert (toLex (r.host, r.budgetKey)) (sent ++ [now])
          hosts := s.hosts.insert r.host { h with
            dailySends := h.dailySends ++ [now]
            bootWaitUntil := none
            pendingSince := some now
            pendingBudgetKey := some r.budgetKey } }, .send, true)

/-- The decision on a host whose earlier request is settled. -/
def settle (s : State) (h : HostState) (r : Request) (now : Nat) (changed : Bool) : Step (State × Decision × Bool) :=
  match activeRefusal h now with
  | some decision => .ok (s, decision, true)
  | none => pace s h r now changed

/-- Whether a request may leave now. One that may is recorded. -/
def decide (r : Request) (boot : BootTime) (s : State) : Step (State × Decision × Bool) := do
  let now := boot.elapsed
  let (s, changedByBoot) ← s.prepareBoot boot
  let (s, changedByPrune) := s.prune now
  let changed := changedByBoot || changedByPrune
  let h := s.hostForBoot r.host now
  let s := { s with hosts := s.hosts.insert r.host h }
  match h.pendingSince with
  | none => settle s h r now changed
  | some since =>
    let ends := saturatingAdd since unresolvedAttemptNanos
    if now < ends then
      .ok (s, .closed .unresolvedAttempt (durationFromNanos (ends - now)), changed)
    else do
      let s ← s.movePendingTo r.host now
      let h := (s.hostForBoot r.host now).withoutPending
      let h := if h.rateLimits = [] then h else { h with
        closedUntil := some (saturatingAdd now closureNanos)
        closedReason := some .rateLimits }
      settle { s with hosts := s.hosts.insert r.host h } h r now true

/-- The request was handed to the network. -/
def acknowledgeHandoff (host : List Char) (boot : BootTime) (s : State) : Step (State × Unit × Bool) := do
  let now := boot.elapsed
  let (s, changed) ← s.prepareBoot boot
  let pending := s.isPending host
  let s ← s.moveIfPending host now
  let (s, changed') := s.prune now
  .ok (s, (), changed || pending || changed')

/-- The endpoint is taken over, and a request that was pending has no outcome. -/
def adoptPending (host : List Char) (boot : BootTime) (s : State) : Step (State × Unit × Bool) := do
  let now := boot.elapsed
  let (s, changed) ← s.prepareBoot boot
  if s.isPending host then do
    let s ← s.movePendingTo host now
    let (s, _) := s.prune now
    let h := ((s.hostForBoot host now).withoutPending).closeUntil (saturatingAdd now unresolvedClosureNanos)
      .unresolvedAttempt
    .ok ({ s with hosts := s.hosts.insert host h }, (), true)
  else
    let (s, changed') := s.prune now
    .ok (s, (), changed || changed')

/-- The task that sent the request ended without an outcome. -/
def recordJoinFailure (host : List Char) (boot : BootTime) (s : State) : Step (State × Unit × Bool) := do
  let now := boot.elapsed
  let (s, _) ← s.prepareBoot boot
  let s ← s.moveIfPending host now
  let (s, _) := s.prune now
  let h := ((s.hostForBoot host now).withoutPending).closeUntil (saturatingAdd now unresolvedClosureNanos)
    .unresolvedAttempt
  .ok ({ s with hosts := s.hosts.insert host h }, (), true)

/-- The pause and the closure that a status brings. -/
def HostState.answered (h : HostState) (status : Nat) (retryAfter : Option Nat) (now : Nat) : HostState :=
  let namedPause := if 200 ≤ status ∧ status < 300 then none else retryAfter.map fun delay => min delay dayNanos
  let h := namedPause.elim h fun pause => h.pauseUntil (saturatingAdd now pause) pause
  if status = 429 then
    let h := { h with rateLimits := h.rateLimits ++ [now] }
    let pause := max (namedPause.getD rateLimitPauseNanos) rateLimitPauseNanos
    let h := h.pauseUntil (saturatingAdd now pause) pause
    if 2 ≤ h.rateLimits.length then h.closeUntil (saturatingAdd now closureNanos) .rateLimits else h
  else if 400 ≤ status ∧ status ≤ 499 then
    let h := { h with refusals := h.refusals ++ [now] }
    if 3 ≤ h.refusals.length then h.closeUntil (saturatingAdd now closureNanos) .refusals else h
  else h

/-- What the caller is told of a response. -/
def HostState.responseDecision (h : HostState) (now : Nat) : ResponseDecision :=
  match h.pausedUntil with
  | none => .recorded
  | some paused => .paused (durationFromNanos (max paused (h.closedUntil.getD 0) - now))

def recordResponse (host : List Char) (status : Nat) (retryAfter : Option Nat) (boot : BootTime) (s : State) :
    Step (State × ResponseDecision × Bool) := do
  let now := boot.elapsed
  let (s, _) ← s.prepareBoot boot
  if !s.isPending host then corrupt (.noPending host)
  else do
    let s ← s.movePendingTo host now
    let (s, _) := s.prune now
    let h := ((s.hostForBoot host now).withoutPending).answered status retryAfter now
    .ok ({ s with hosts := s.hosts.insert host h }, h.responseDecision now, true)

/-- The request left, and nobody knows what became of it. -/
def recordUnknownOutcome (host : List Char) (boot : BootTime) (s : State) : Step (State × Nat × Bool) := do
  let now := boot.elapsed
  let (s, _) ← s.prepareBoot boot
  let s ← s.movePendingTo host now
  let (s, _) := s.prune now
  let h := s.hostForBoot host now
  let since := h.pendingSince.getD now
  let (ends, reason) :=
    if h.rateLimits = [] then
      (max (saturatingAdd since unresolvedAttemptNanos) (saturatingAdd now rateLimitPauseNanos),
        ClosureReason.unresolvedAttempt)
    else (saturatingAdd now closureNanos, ClosureReason.rateLimits)
  let h := h.withoutPending.closeUntil ends reason
  .ok ({ s with hosts := s.hosts.insert host h }, durationFromNanos (ends - now), true)

def recordNotHandedOff (host : List Char) (boot : BootTime) (s : State) : Step (State × Unit × Bool) := do
  let (s, _) ← s.prepareBoot boot
  let (s, _) := s.prune boot.elapsed
  .ok (s.rollbackPending host, (), true)

/-- A fresh tally: no send, no wait, no closure and no pause at any endpoint. -/
def freshState (generation : Nat) (boot : BootTime) : State where
  generation
  bootId := some boot.id
  bootHighWater := some boot.elapsed
  hosts := brokerHosts.foldl (fun hosts host => hosts.insert host {}) .empty
  sends := .empty
  pairWasEmpty := false

end Tally

end Iaam
