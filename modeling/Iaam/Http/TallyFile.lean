import Iaam.Http.Tally
import Iaam.Lib.Fields

/-! The records of the tally on disk (`tally.rs`): the lines of its file, the file of its generation, and the transaction of
a call, which reads both, updates what they hold, and replaces both. -/

namespace Iaam.Tally
open Outcome Fields

/-! ### Writing -/

def ClosureReason.token : ClosureReason → List Char
  | refusals => "refusals".toList
  | rateLimits => "rate-limits".toList
  | repeatedResponses => "repeated-responses".toList
  | unresolvedAttempt => "unresolved-attempt".toList

def formatOptionalNanos (value : Option Nat) : List Char := value.elim ['-'] numeral

def formatTimestamps (timestamps : List Nat) : List Char := [','].intercalate (timestamps.map numeral)

def tabbed (fields : List (List Char)) : List Char := ['\t'].intercalate fields

def formatOptionalAtom : Option (List Char) → Step (List Char)
  | some value => (validateAtom value 0).map fun _ => value
  | none => .ok ['-']

def hostLine (host : List Char) (h : HostState) : Step (List Char) := do
  validateAtom host 0
  let key ← formatOptionalAtom h.pendingBudgetKey
  .ok (tabbed ["host".toList, host, formatOptionalNanos h.lastSend, formatTimestamps h.dailySends,
    formatOptionalNanos h.closedUntil, h.closedReason.elim ['-'] ClosureReason.token, formatOptionalNanos h.pausedUntil,
    formatOptionalNanos h.pausedFor, formatTimestamps h.refusals, formatTimestamps h.rateLimits,
    formatOptionalNanos h.bootWaitUntil, formatOptionalNanos h.pendingSince, key])

def budgetLine (key : SendKey) (sent : List Nat) : Step (List Char) := do
  validateAtom (ofLex key).1 0
  validateAtom (ofLex key).2 0
  .ok (tabbed ["budget".toList, (ofLex key).1, (ofLex key).2, formatTimestamps sent])

def State.encode (s : State) : Step (List Char) := do
  let bootId ← okOr .noBootId s.bootId
  let highWater ← okOr .noHighWater s.bootHighWater
  validateAtom bootId 0
  let hosts ← s.hosts.entries.mapM fun e => hostLine e.1 e.2
  let budgets ← s.sends.entries.mapM fun e => budgetLine e.1 e.2
  .ok (unlines ([header.toList, tabbed ["generation".toList, numeral s.generation], tabbed ["boot".toList, bootId],
    tabbed ["high-water".toList, numeral highWater]] ++ hosts ++ budgets))

/-! ### Reading -/

def parseNumber (limit : Nat) (value : List Char) (line : Nat) (field : String) : Step Nat :=
  okOr (.number line field value) (parseUnsigned limit value)

def parseOptionalNanos (value : List Char) (line : Nat) : Step (Option Nat) :=
  if value = ['-'] then .ok none else (parseNumber nanosMax value line "time").map some

def parseOptionalAtom (value : List Char) (line : Nat) : Step (Option (List Char)) :=
  if value = ['-'] then .ok none else (validateAtom value line).map fun _ => some value

def parseOptionalReason (value : List Char) (line : Nat) : Step (Option ClosureReason) :=
  if value = ['-'] then .ok none
  else if value = ClosureReason.refusals.token then .ok (some .refusals)
  else if value = ClosureReason.rateLimits.token then .ok (some .rateLimits)
  else if value = ClosureReason.repeatedResponses.token then .ok (some .repeatedResponses)
  else if value = ClosureReason.unresolvedAttempt.token then .ok (some .unresolvedAttempt)
  else corrupt (.reason line value)

def validateOptionalPairs (line : Nat) (closedUntil : Option Nat) (closedReason : Option ClosureReason)
    (pausedUntil pausedFor : Option Nat) : Step Unit :=
  if closedUntil.isSome ≠ closedReason.isSome then corrupt (.unpairedClosure line)
  else if pausedUntil.isSome ≠ pausedFor.isSome then corrupt (.unpairedPause line)
  else .ok ()

def parseNumbers (value : List Char) (line : Nat) (field : String) : Step (List Nat) :=
  if value = [] then .ok [] else (value.splitOn ',').mapM fun value => parseNumber nanosMax value line field

def parseTimestamps (value : List Char) (line : Nat) (field : String) : Step (List Nat) := do
  let parsed ← parseNumbers value line field
  if (parsed.zip parsed.tail).any fun pair => pair.2 < pair.1 then corrupt (.outOfOrder line field) else .ok parsed

def State.insertHost (s : State) (host : List Char) (line : Nat) (h : HostState) : Step State := do
  validateAtom host line
  if (s.hosts.get? host).isSome then corrupt (.repeatedHost line host)
  else .ok { s with hosts := s.hosts.insert host h }

/-- Takes in the fields of one line. The number beside the state is the generation, once it was read. -/
def parseFields (line : Nat) (s : State) (generation : Option Nat) : List (List Char) → Step (State × Option Nat)
  | [tag, value] =>
    if tag = "generation".toList ∧ generation = none then do
      let value ← parseNumber generationMax value line "generation"
      .ok (s, some value)
    else if tag = "boot".toList ∧ s.bootId = none then do
      validateAtom value line
      .ok ({ s with bootId := some value }, generation)
    else if tag = "high-water".toList ∧ s.bootHighWater = none then do
      let value ← parseNumber nanosMax value line "boot high-water mark"
      .ok ({ s with bootHighWater := some value }, generation)
    else corrupt (.unknownShape line)
  | [tag, host, key, timestamps] =>
    if tag = "budget".toList then do
      validateAtom host line
      validateAtom key line
      if (s.sends.get? (toLex (host, key))).isSome then corrupt (.repeatedBudget line key host)
      else do
        let sent ← parseTimestamps timestamps line "send time"
        .ok ({ s with sends := s.sends.insert (toLex (host, key)) sent }, generation)
    else corrupt (.unknownShape line)
  | [tag, host, lastSend, dailySends, closedUntil, closedReason, pausedUntil, pausedFor, refusals, rateLimits, bootWaitUntil,
      pendingSince, pendingBudgetKey] =>
    if tag = "host".toList then do
      let closedUntil ← parseOptionalNanos closedUntil line
      let closedReason ← parseOptionalReason closedReason line
      let pausedUntil ← parseOptionalNanos pausedUntil line
      let pausedFor ← parseOptionalNanos pausedFor line
      validateOptionalPairs line closedUntil closedReason pausedUntil pausedFor
      let pendingSince ← parseOptionalNanos pendingSince line
      let pendingBudgetKey ← parseOptionalAtom pendingBudgetKey line
      if pendingSince.isSome ≠ pendingBudgetKey.isSome then corrupt (.unpairedPending line)
      else do
        let lastSend ← parseOptionalNanos lastSend line
        let dailySends ← parseTimestamps dailySends line "daily send time"
        let refusals ← parseTimestamps refusals line "refusal time"
        let rateLimits ← parseTimestamps rateLimits line "rate-limit time"
        let bootWaitUntil ← parseOptionalNanos bootWaitUntil line
        let s ← s.insertHost host line ⟨lastSend, dailySends, closedUntil, closedReason, pausedUntil, pausedFor, refusals,
          rateLimits, bootWaitUntil, pendingSince, pendingBudgetKey⟩
        .ok (s, generation)
    else corrupt (.unknownShape line)
  | _ => corrupt (.unknownShape line)

/-- Takes in the lines of a file, from the given number on. -/
def parseLines (s : State) (generation : Option Nat) (number : Nat) : List (List Char) → Step (State × Option Nat)
  | [] => .ok (s, generation)
  | line :: rest => do
    let (s, generation) ← parseFields number s generation (line.splitOn '\t')
    parseLines s generation (number + 1) rest

def State.parse (text : List Char) : Step State :=
  if text = [] then .ok { pairWasEmpty := true }
  else
    match lines text with
    | [] => corrupt (.header none)
    | first :: rest =>
      if first ≠ header.toList then corrupt (.header (some first))
      else do
        let (s, generation) ← parseLines {} none 2 rest
        let generation ← okOr .noGeneration generation
        if s.bootId = none then corrupt .noBootId
        else if s.bootHighWater = none then corrupt .noHighWater
        else .ok { s with generation }

def parseGeneration (text : List Char) : Step Nat :=
  let value := if text.getLast? = some '\n' then text.dropLast else text
  if value = [] ∨ '\n' ∈ value then corrupt .generationRecord
  else parseNumber generationMax value 0 "outbound tally generation"

/-! ### Transactions -/

/-- The contents of the two records. -/
structure Pair where
  tally : List Char
  generation : List Char
  deriving DecidableEq, Repr

def Pair.empty : Pair := ⟨[], []⟩

/-- What the records hold, and the highest generation that the process has seen. -/
def readState (pair : Pair) (process : Nat) : Step (State × Nat) := do
  let s ← State.parse pair.tally
  if pair.tally = [] then
    if pair.generation ≠ [] then corrupt .emptied else .ok ({ s with generation := process }, process)
  else do
    let recorded ← parseGeneration pair.generation
    if recorded ≠ s.generation then corrupt (.rolledBack recorded s.generation)
    else if s.generation < process then corrupt (.older s.generation process)
    else .ok (s, max process s.generation)

/-- The records of a state. -/
def persist (s : State) : Step Pair := do
  let tally ← s.encode
  .ok ⟨tally, numeral s.generation ++ ['\n']⟩

/-- The state with the next generation, in records. -/
def writeNext (s : State) : Step (Pair × Nat) :=
  if s.generation < generationMax then do
    let pair ← persist { s with generation := s.generation + 1 }
    .ok (pair, s.generation + 1)
  else corrupt .exhausted

/-- A call of the tally. -/
inductive Call where
  | decide (r : Request)
  | acknowledgeHandoff (host : List Char)
  | adoptPending (host : List Char)
  | recordJoinFailure (host : List Char)
  | recordResponse (host : List Char) (status : Nat) (retryAfter : Option Nat)
  | recordUnknownOutcome (host : List Char)
  | recordNotHandedOff (host : List Char)
  deriving DecidableEq, Repr

def Call.host : Call → List Char
  | decide r => r.host
  | acknowledgeHandoff host | adoptPending host | recordJoinFailure host | recordResponse host _ _
  | recordUnknownOutcome host | recordNotHandedOff host => host

inductive Answer where
  | decided (decision : Decision)
  | responded (decision : ResponseDecision)
  | closedFor (nanos : Nat)
  | done
  deriving DecidableEq, Repr

/-- An update whose value is given as an answer. -/
def answering {α : Type} (answer : α → Answer) (r : Step (State × α × Bool)) : Step (State × Answer × Bool) :=
  r.map fun (s, value, changed) => (s, answer value, changed)

def Call.update (boot : BootTime) (s : State) : Call → Step (State × Answer × Bool)
  | decide r => answering .decided (Tally.decide r boot s)
  | acknowledgeHandoff host => answering (fun _ => .done) (Tally.acknowledgeHandoff host boot s)
  | adoptPending host => answering (fun _ => .done) (Tally.adoptPending host boot s)
  | recordJoinFailure host => answering (fun _ => .done) (Tally.recordJoinFailure host boot s)
  | recordResponse host status retryAfter => answering .responded (Tally.recordResponse host status retryAfter boot s)
  | recordUnknownOutcome host => answering .closedFor (Tally.recordUnknownOutcome host boot s)
  | recordNotHandedOff host => answering (fun _ => .done) (Tally.recordNotHandedOff host boot s)

/-- The request that the gateway puts to the tally for a path. -/
def gatewayRequest (table : BudgetTable) (destination : Destination) (path : List Char) : Except BudgetError Request := do
  let (row, key) ← table.lookup destination path
  .ok ⟨destination.baseUrl, key.getD ['*'], row.used, row.window⟩

/-- Reads the records, updates what they hold, and writes it if it changed. -/
def transact (call : Call) (boot : BootTime) (pair : Pair) (process : Nat) : Step (Pair × Nat × Answer) := do
  let (s, process) ← readState pair process
  let (s, answer, changed) ← call.update boot s
  if changed then do
    let (pair, generation) ← writeNext s
    .ok (pair, max process generation, answer)
  else .ok (pair, process, answer)

/-- Writes a fresh tally where the records are empty, and nothing where they are not. -/
def initializeFreshPair (boot : BootTime) (pair : Pair) (process : Nat) : Step (Pair × Nat × Bool) := do
  let (s, process) ← readState pair process
  if !s.pairWasEmpty then .ok (pair, process, false)
  else do
    let (pair, generation) ← writeNext (freshState s.generation boot)
    .ok (pair, max process generation, true)

end Iaam.Tally
