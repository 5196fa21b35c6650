import Iaam.Theorems.TallyRecords

/-! Runs of the tally of outbound requests, over what happens to its records on disk: calls of any endpoint on any boot,
processes that come and go, writes that are cut off half way, and records that are lost. Whatever happens, no endpoint is
asked more often than its spacing, its day and its budgets allow. -/

namespace Iaam.Tally
open Outcome Sliding

variable {s s' : State} {host other : List Char} {clock : BootTime} {r : Request} {h : HostState} {now : Nat}
variable {changed changed' : Bool} {d : Decision} {starts : List Char → Nat} {time time' : Nat} {logs : Logs}

/-! ### The generation -/

theorem prepareBoot_generation (hok : s.prepareBoot clock = .ok (s', changed)) : s'.generation = s.generation := by
  obtain ⟨-, ⟨-, rfl⟩ | ⟨-, -, rfl⟩⟩ := prepareBoot_ok hok <;> rfl

theorem movePendingTo_generation (hok : s.movePendingTo other now = .ok s') : s'.generation = s.generation := by
  rcases movePendingTo_ok hok with ⟨-, rfl⟩ | ⟨_, _, _, -, rfl⟩ <;> rfl

theorem moveIfPending_generation (hok : s.moveIfPending other now = .ok s') : s'.generation = s.generation := by
  unfold State.moveIfPending at hok
  split_ifs at hok
  · exact movePendingTo_generation hok
  · cases hok
    rfl

theorem rollbackPending_generation (s : State) (other : List Char) : (s.rollbackPending other).generation = s.generation := by
  simp only [State.rollbackPending]
  cases s.pending other <;> rfl

theorem settle_generation (hok : settle s h r now changed = .ok (s', d, changed')) : s'.generation = s.generation := by
  simp only [settle] at hok
  cases hrefusal : activeRefusal h now with
  | some refusal =>
    rw [hrefusal] at hok
    cases hok
    rfl
  | none =>
    rw [hrefusal] at hok
    rcases pace_ok hok with ⟨-, rfl | rfl⟩ | ⟨-, -, -, -, -, rfl⟩ <;> rfl

theorem decide_generation (hok : decide r clock s = .ok (s', d, changed)) : s'.generation = s.generation := by
  obtain ⟨⟨s₁, changed₁⟩, hprepare, hok⟩ := bind_ok.mp hok
  have hfirst := prepareBoot_generation hprepare
  dsimp only at hok
  generalize (s₁.prune clock.elapsed).1.hostForBoot r.host clock.elapsed = h at hok
  cases hsince : h.pendingSince with
  | none =>
    rw [hsince] at hok
    exact (settle_generation hok).trans hfirst
  | some since =>
    rw [hsince] at hok
    dsimp only at hok
    split_ifs at hok
    · cases hok
      exact hfirst
    · obtain ⟨s₂, hmove, hok⟩ := bind_ok.mp hok
      have hmoved := movePendingTo_generation hmove
      exact (settle_generation hok).trans (hmoved.trans hfirst)

/-- No call touches the generation: only writing does. -/
theorem Call.update_generation {call : Call} {answer : Answer} (hok : call.update clock s = .ok (s', answer, changed)) :
    s'.generation = s.generation := by
  cases call <;> simp only [Call.update] at hok
  case decide r =>
    obtain ⟨d, hdecide, -⟩ := answering_ok hok
    exact decide_generation hdecide
  case recordNotHandedOff host =>
    obtain ⟨_, hcall, -⟩ := answering_ok hok
    obtain ⟨⟨s₁, changed₁⟩, hprepare, hcall⟩ := bind_ok.mp hcall
    have hfirst := prepareBoot_generation hprepare
    cases hcall
    exact (rollbackPending_generation _ host).trans hfirst
  case recordResponse host status retryAfter =>
    obtain ⟨_, hcall, -⟩ := answering_ok hok
    obtain ⟨⟨s₁, changed₁⟩, hprepare, hcall⟩ := bind_ok.mp hcall
    have hfirst := prepareBoot_generation hprepare
    dsimp only at hcall
    split_ifs at hcall
    · cases hcall
    · obtain ⟨s₂, hmove, hcall⟩ := bind_ok.mp hcall
      cases hcall
      exact (movePendingTo_generation hmove).trans hfirst
  case adoptPending host =>
    obtain ⟨_, hcall, -⟩ := answering_ok hok
    obtain ⟨⟨s₁, changed₁⟩, hprepare, hcall⟩ := bind_ok.mp hcall
    have hfirst := prepareBoot_generation hprepare
    dsimp only at hcall
    split_ifs at hcall
    · obtain ⟨s₂, hmove, hcall⟩ := bind_ok.mp hcall
      cases hcall
      exact (movePendingTo_generation hmove).trans hfirst
    · cases hcall
      exact hfirst
  case recordUnknownOutcome host =>
    obtain ⟨_, hcall, -⟩ := answering_ok hok
    obtain ⟨⟨s₁, changed₁⟩, hprepare, hcall⟩ := bind_ok.mp hcall
    have hfirst := prepareBoot_generation hprepare
    obtain ⟨s₂, hmove, hcall⟩ := bind_ok.mp hcall
    dsimp only at hcall
    cases hcall
    exact (movePendingTo_generation hmove).trans hfirst
  all_goals
    obtain ⟨_, hcall, -⟩ := answering_ok hok
    obtain ⟨⟨s₁, changed₁⟩, hprepare, hcall⟩ := bind_ok.mp hcall
    have hfirst := prepareBoot_generation hprepare
    obtain ⟨s₂, hmove, hcall⟩ := bind_ok.mp hcall
    cases hcall
    exact (moveIfPending_generation hmove).trans hfirst

/-! ### What the gateway asks -/

/-- A call that the gateway makes: about a broker, and for a decision about a request of the table. -/
def Call.Asked (table : BudgetTable) : Call → Prop
  | decide r => ∃ (destination : Destination) (path : List Char), destination.isBroker = true ∧ gatewayRequest table destination path = .ok r
  | call => ∃ destination : Destination, destination.isBroker = true ∧ call.host = destination.baseUrl

/-- The method keys of the brokers. -/
def methodKeys : List (List Char) :=
  ["UsersService".toList, "OperationsService".toList, "AuthService.Sessions".toList, "AssetsService.GetAsset".toList,
    "AccountsService.Transactions".toList, "AccountsService.GetAccount".toList]

theorem brokerBudgetKey_mem {destination : Destination} {path key : List Char}
    (hkey : brokerBudgetKey destination path = some key) : key ∈ methodKeys := by
  unfold brokerBudgetKey at hkey
  generalize (path.dropWhile fun c => c = '/') = path' at hkey
  cases destination <;> dsimp only at hkey
  case tinkoffProd | tinkoffSandbox =>
    split_ifs at hkey <;> cases hkey <;> decide
  case finamApi =>
    split_ifs at hkey
    · cases hkey
      decide
    · split at hkey
      · split_ifs at hkey
        cases hkey
        decide
      · split at hkey
        · cases hkey
        · split at hkey <;> split_ifs at hkey <;> cases hkey <;> decide
  all_goals cases hkey

theorem key_ne_star {destination : Destination} {path : List Char} : brokerBudgetKey destination path ≠ some ['*'] := fun heq =>
  absurd (brokerBudgetKey_mem heq) (by decide)

theorem gatewayRequest_ok {table : BudgetTable} {destination : Destination} {path : List Char}
    (h : gatewayRequest table destination path = .ok r) :
    r.host = destination.baseUrl ∧ r.budgetKey ≠ ['-'] ∧ 0 < r.budgetLimit ∧
      (destination.isBroker = true → r.budgetWindow ≤ tallyRetention) := by
  obtain ⟨⟨row, key⟩, hlookup, h⟩ := bind_ok.mp h
  cases h
  obtain ⟨hrow, rfl, -, rfl⟩ := BudgetTable.lookup_ok hlookup
  obtain ⟨hused, hwindow⟩ := table.sound hrow
  refine ⟨rfl, ?_, hused, hwindow⟩
  cases hkey : brokerBudgetKey row.destination path with
  | none =>
    change ['*'] ≠ ['-']
    decide
  | some key =>
    have hmem := brokerBudgetKey_mem hkey
    rintro rfl
    exact absurd hmem (by decide)

/-- A budget key says which request it belongs to. -/
theorem gatewayRequest_unique {table : BudgetTable} {destination : Destination} {path path' : List Char} {r' : Request}
    (h : gatewayRequest table destination path = .ok r) (h' : gatewayRequest table destination path' = .ok r')
    (hkey : r.budgetKey = r'.budgetKey) : r = r' := by
  obtain ⟨⟨row, key⟩, hlookup, h⟩ := bind_ok.mp h
  obtain ⟨⟨row', key'⟩, hlookup', h'⟩ := bind_ok.mp h'
  cases h
  cases h'
  obtain ⟨-, -, -, rfl⟩ := BudgetTable.lookup_ok hlookup
  obtain ⟨-, -, -, rfl⟩ := BudgetTable.lookup_ok hlookup'
  have hsame : brokerBudgetKey destination path = brokerBudgetKey destination path' := by
    dsimp only at hkey
    cases hfirst : brokerBudgetKey destination path with
    | none =>
      cases hsecond : brokerBudgetKey destination path' with
      | none => rfl
      | some key =>
        rw [hfirst, hsecond] at hkey
        exact absurd (hsecond.trans (congrArg some hkey.symm)) key_ne_star
    | some key =>
      cases hsecond : brokerBudgetKey destination path' with
      | none =>
        rw [hfirst, hsecond] at hkey
        exact absurd (hfirst.trans (congrArg some hkey)) key_ne_star
      | some key' =>
        rw [hfirst, hsecond] at hkey
        exact congrArg some hkey
  have hrows : row = row' := by
    simp only [BudgetTable.lookup] at hlookup hlookup'
    rw [hsame] at hlookup
    cases hfind : table.rows.find? fun row => row.destination = destination ∧
        row.scope = (brokerBudgetKey destination path').elim .shared MethodScope.named with
    | none =>
      rw [hfind] at hlookup
      cases hlookup
    | some found =>
      rw [hfind] at hlookup hlookup'
      cases hlookup
      cases hlookup'
      rfl
  rw [hsame, hrows]

/-! ### What has left -/

/-- The requests that left for a destination, newest first, keep their distances. -/
structure Paced (table : BudgetTable) (destination : Destination) (time : Nat) (log : List Departure) : Prop where
  sorted : log.Pairwise fun d e => e.moment ≤ d.moment
  past : ∀ d ∈ log, d.moment ≤ time
  spacing : Spread 1 departureSpacingNanos (log.map Departure.moment)
  daily : Spread dailyCeiling dayNanos (log.map Departure.moment)
  budgets : ∀ path r, gatewayRequest table destination path = .ok r →
    Spread r.budgetLimit r.budgetWindow (momentsUnder r.budgetKey log)

variable {table : BudgetTable} {destination : Destination} {log : List Departure}

theorem spread_nil (limit window : Nat) : Spread limit window [] := fun _ _ _ hd => by cases hd

theorem paced_nil : Paced table destination time [] :=
  ⟨List.Pairwise.nil, fun d hd => (by cases hd), spread_nil _ _, spread_nil _ _,
    fun _ _ _ => spread_nil _ _⟩

theorem Paced.later (hp : Paced table destination time log) (htime : time ≤ time') : Paced table destination time' log :=
  ⟨hp.sorted, fun d hd => (hp.past d hd).trans htime, hp.spacing, hp.daily, hp.budgets⟩

theorem Paced.tail (hp : Paced table destination time log) : Paced table destination time log.tail := by
  rcases log with _ | ⟨⟨moment, key⟩, log⟩
  · exact hp
  · refine ⟨hp.sorted.of_cons, fun d hd => hp.past d (List.mem_cons_of_mem _ hd), hp.spacing.tail, hp.daily.tail,
      fun path r hr => ?_⟩
    have hbudget := hp.budgets path r hr
    rw [momentsUnder_cons] at hbudget
    split_ifs at hbudget
    · exact hbudget.tail
    · exact hbudget

/-- A request for which there is room may leave. -/
theorem Paced.depart (hp : Paced table destination time log) {path : List Char}
    (hr : gatewayRequest table destination path = .ok r) (hfree : Free time log r) :
    Paced table destination time (⟨time, r.budgetKey⟩ :: log) := by
  refine ⟨List.pairwise_cons.mpr ⟨hp.past, hp.sorted⟩, fun d hd => ?_, hp.spacing.cons (by decide) hfree.spacing,
    hp.daily.cons (by decide) hfree.daily, fun path' r' hr' => ?_⟩
  · rcases List.mem_cons.mp hd with rfl | hd
    · exact le_rfl
    · exact hp.past d hd
  · rw [momentsUnder_cons]
    split_ifs with hkey
    · obtain rfl := gatewayRequest_unique hr hr' hkey
      exact (hp.budgets path r hr).cons (gatewayRequest_ok hr).2.2.1 hfree.budget
    · exact hp.budgets path' r' hr'

/-- What the distances mean for any span of time: at most one departure within a second, at most a thousand within a day,
    and at most the budget's share within its window. -/
theorem Paced.counts (hp : Paced table destination time log) (since : Nat) :
    (log.countP fun d => since ≤ d.moment ∧ d.moment < since + departureSpacingNanos) ≤ 1 ∧
      (log.countP fun d => since ≤ d.moment ∧ d.moment < since + dayNanos) ≤ dailyCeiling ∧
      ∀ path r, gatewayRequest table destination path = .ok r →
        (log.countP fun d => d.budgetKey = r.budgetKey ∧ since ≤ d.moment ∧ d.moment < since + r.budgetWindow) ≤
          r.budgetLimit := by
  have hmoments : (log.map Departure.moment).Pairwise fun d e => e ≤ d := List.pairwise_map.mpr hp.sorted
  refine ⟨?_, ?_, fun path r hr => ?_⟩
  · have hcount := hp.spacing.count_le (by decide) hmoments since
    rw [List.countP_map] at hcount
    exact hcount
  · have hcount := hp.daily.count_le (by decide) hmoments since
    rw [List.countP_map] at hcount
    exact hcount
  · have hsub : (momentsUnder r.budgetKey log).Pairwise fun d e => e ≤ d := List.pairwise_map.mpr (hp.sorted.filter _)
    have hcount := (hp.budgets path r hr).count_le (gatewayRequest_ok hr).2.2.1 hsub since
    rw [momentsUnder, List.countP_map, List.countP_filter] at hcount
    refine le_of_eq_of_le (List.countP_congr fun d _ => ?_) hcount
    simp [and_comm]

/-! ### What happens -/

/-- The records on disk, the highest generation that the process has seen, the moment, and the requests that have left. -/
structure World where
  pair : Pair
  process : Nat
  time : Nat
  logs : Logs

inductive Event where
  | call (call : Call) (clock : BootTime)
  | cutOff (call : Call) (clock : BootTime)
  | lost
  | process (seen : Nat)

/-- One thing happens. A call is made, and its requests leave and are rolled back; or its write is cut off between the two
    files, and it answers nothing; or the records are lost; or a process starts, or learns of a generation. The boot clock
    shows the time since its boot began. -/
inductive Happens (table : BudgetTable) (starts : List Char → Nat) : World → Event → World → Prop
  | call {w : World} {call : Call} {clock : BootTime} {s : State} {pair : Pair} {process process' : Nat} {answer : Answer}
      (hasked : call.Asked table) (hclock : w.time ≤ starts clock.id + clock.elapsed)
      (hread : readState w.pair w.process = .ok (s, process'))
      (hok : transact call clock w.pair w.process = .ok (pair, process, answer)) :
      Happens table starts w (.call call clock) ⟨pair, process, starts clock.id + clock.elapsed,
        call.departures (starts clock.id + clock.elapsed) s w.logs answer⟩
  | cutOff {w : World} {call : Call} {clock : BootTime} {pair : Pair} {process : Nat} {answer : Answer}
      (hasked : call.Asked table) (hclock : w.time ≤ starts clock.id + clock.elapsed)
      (hok : transact call clock w.pair w.process = .ok (pair, process, answer)) :
      Happens table starts w (.cutOff call clock) { w with
        pair := ⟨w.pair.tally, pair.generation⟩
        time := starts clock.id + clock.elapsed }
  | lost {w : World} : Happens table starts w .lost { w with pair := Pair.empty }
  | process {w : World} (seen : Nat) : Happens table starts w (.process seen) { w with process := seen }

/-- The records at a moment: none, those of a state that keeps the books, or such as every read refuses. -/
inductive Records (starts : List Char → Nat) (time : Nat) (logs : Logs) : Pair → Prop
  | empty : Records starts time logs Pair.empty
  | written {pair : Pair} {s : State} {boot : List Char} (hwritten : Written pair s)
      (hkept : Kept (starts boot) time logs boot s) : Records starts time logs pair
  | torn {pair : Pair} (hrefused : ∀ process, ∃ why, readState pair process = corrupt why) : Records starts time logs pair

/-- What stands in every reachable world. -/
structure World.Stands (table : BudgetTable) (starts : List Char → Nat) (w : World) : Prop where
  paced : ∀ destination : Destination, destination.isBroker = true →
    Paced table destination w.time (w.logs destination.baseUrl)
  records : Records starts w.time w.logs w.pair

theorem mem_brokerHosts {destination : Destination} (hbroker : destination.isBroker = true) :
    destination.baseUrl ∈ brokerHosts := by
  cases destination <;> first | decide | cases hbroker

theorem exists_broker (hhost : host ∈ brokerHosts) :
    ∃ destination : Destination, destination.isBroker = true ∧ destination.baseUrl = host := by
  simp only [brokerHosts, List.mem_cons, List.not_mem_nil, or_false] at hhost
  rcases hhost with rfl | rfl | rfl
  · exact ⟨.tinkoffProd, rfl, rfl⟩
  · exact ⟨.tinkoffSandbox, rfl, rfl⟩
  · exact ⟨.finamApi, rfl, rfl⟩

theorem Call.Asked.broker {call : Call} (hasked : call.Asked table) : call.host ∈ brokerHosts ∧ call.named := by
  cases call with
  | decide r =>
    obtain ⟨destination, path, hbroker, hr⟩ := hasked
    obtain ⟨hhost, hkey, -⟩ := gatewayRequest_ok hr
    exact ⟨by rw [Call.host, hhost]; exact mem_brokerHosts hbroker, hkey⟩
  | _ =>
    obtain ⟨destination, hbroker, hhost⟩ := hasked
    exact ⟨hhost ▸ mem_brokerHosts hbroker, trivial⟩

/-- What a call reads keeps the books. -/
theorem Records.read {pair : Pair} {process process' : Nat} (hr : Records starts time logs pair)
    (hread : readState pair process = .ok (s, process')) :
    Standing starts time logs s ∧ Whole s ∧ (pair = Pair.empty ∨ Written pair s) := by
  cases hr with
  | empty =>
    rw [readState] at hread
    cases hread
    have hblank : Blank { generation := process, pairWasEmpty := true } := ⟨rfl, rfl, fun _ => rfl, fun _ => rfl⟩
    exact ⟨Or.inl hblank, Or.inl hblank, Or.inl rfl⟩
  | written hwritten hkept =>
    obtain rfl := hwritten.read hread
    obtain ⟨now, hsound, -⟩ := hwritten.sound
    exact ⟨Or.inr ⟨_, hkept⟩, Or.inr ⟨now, hsound⟩, Or.inr hwritten⟩
  | torn hrefused =>
    obtain ⟨why, hwhy⟩ := hrefused process
    rw [hwhy] at hread
    cases hread

theorem Kept.later {start : Nat} {boot : List Char} (hk : Kept start time logs boot s) (htime : time ≤ time') :
    Kept start time' logs boot s :=
  ⟨hk.boot, fun host hhost => (hk.known host hhost).later htime⟩

theorem Records.later {pair : Pair} (hr : Records starts time logs pair) (htime : time ≤ time') :
    Records starts time' logs pair := by
  cases hr with
  | empty => exact .empty
  | written hwritten hkept => exact .written hwritten (hkept.later htime)
  | torn hrefused => exact .torn hrefused

/-- A call that answers has read a state, updated it, and written it if it changed. -/
theorem transact_ok {call : Call} {pair pair' : Pair} {process process' : Nat} {answer : Answer}
    (h : transact call clock pair process = .ok (pair', process', answer)) :
    ∃ s seen s' changed, readState pair process = .ok (s, seen) ∧ call.update clock s = .ok (s', answer, changed) ∧
      (changed = false ∧ pair' = pair ∨ changed = true ∧ ∃ n, writeNext s' = .ok (pair', n)) := by
  obtain ⟨⟨s, seen⟩, hread, h⟩ := bind_ok.mp h
  obtain ⟨⟨s', answer', changed⟩, hupdate, h⟩ := bind_ok.mp h
  cases changed with
  | false =>
    cases h
    exact ⟨s, _, s', false, hread, hupdate, Or.inl ⟨rfl, rfl⟩⟩
  | true =>
    obtain ⟨⟨pair'', n⟩, hwrite, h⟩ := bind_ok.mp h
    cases h
    exact ⟨s, _, s', true, hread, hupdate, Or.inr ⟨rfl, n, hwrite⟩⟩

theorem Standing.later (hs : Standing starts time logs s) (htime : time ≤ time') : Standing starts time' logs s :=
  hs.imp_right fun ⟨boot, hkept⟩ => ⟨boot, hkept.later htime⟩

theorem Kept.stands {start : Nat} {boot : List Char} (hk : Kept start time logs boot s) : s.pairWasEmpty = false :=
  (hk.known _ List.mem_cons_self).1

theorem Kept.numbered {start : Nat} {boot : List Char} (hk : Kept start time logs boot s) (generation : Nat) :
    Kept start time logs boot { s with generation } :=
  ⟨hk.boot, hk.known⟩

theorem elapsed_le (clock : BootTime) : clock.elapsed ≤ nanosMax := (elapsed_lt clock).le

/-- A call keeps the distances, and what it writes keeps the books. -/
theorem World.Stands.call {w : World} (hw : w.Stands table starts) {call : Call} (hasked : call.Asked table)
    (hclock : w.time ≤ starts clock.id + clock.elapsed) {process process' : Nat} {pair : Pair} {answer : Answer}
    (hread : readState w.pair w.process = .ok (s, process'))
    (hok : transact call clock w.pair w.process = .ok (pair, process, answer)) :
    World.Stands table starts ⟨pair, process, starts clock.id + clock.elapsed,
      call.departures (starts clock.id + clock.elapsed) s w.logs answer⟩ := by
  obtain ⟨hhost, hnamed⟩ := hasked.broker
  obtain ⟨hstanding, hwhole, hrecords⟩ := hw.records.read hread
  obtain ⟨s₀, seen, s', changed, hread', hupdate, hwritten⟩ := transact_ok hok
  obtain ⟨rfl, rfl⟩ := Prod.mk.inj (Except.ok.inj (hread.symm.trans hread'))
  have hpast : ∀ host ∈ brokerHosts, ∀ d ∈ w.logs host, d.moment ≤ starts clock.id + clock.elapsed := by
    intro host hhost d hd
    obtain ⟨destination, hbroker, rfl⟩ := exists_broker hhost
    exact ((hw.paced destination hbroker).past d hd).trans hclock
  obtain ⟨hkept, hsame, hfree⟩ := Call.update_ok hupdate hhost hstanding hpast hclock rfl
  refine ⟨fun destination hbroker => ?_, ?_⟩
  · have hpaced := (hw.paced destination hbroker).later hclock
    dsimp only
    cases call
    case decide r =>
      cases answer
      case decided d =>
        change Paced _ _ _ (departed d r _ w.logs destination.baseUrl)
        unfold departed
        split_ifs with hsend
        · subst hsend
          obtain ⟨destination', path, hbroker', hr⟩ := hasked
          obtain ⟨hhost', -, hlimit, hwindow⟩ := gatewayRequest_ok hr
          by_cases hdestination : destination' = destination
          · subst hdestination
            rw [hhost', Function.update_self]
            have hroom := hfree r rfl rfl
            rw [hhost'] at hroom
            exact hpaced.depart hr (hroom (hw.paced destination' hbroker').sorted hlimit (hwindow hbroker'))
          · have hne : destination.baseUrl ≠ r.host := by
              rw [hhost']
              revert hbroker hbroker' hdestination
              cases destination <;> cases destination' <;> decide
            rw [Function.update_of_ne hne]
            exact hpaced
        · exact hpaced
      all_goals exact hpaced
    case recordNotHandedOff host =>
      change Paced _ _ _ ((if (s.pending host).isSome then Function.update w.logs host (w.logs host).tail else w.logs)
        destination.baseUrl)
      split_ifs
      · by_cases hsame : destination.baseUrl = host
        · subst hsame
          rw [Function.update_self]
          exact hpaced.tail
        · rw [Function.update_of_ne hsame]
          exact hpaced
      · exact hpaced
    all_goals exact hpaced
  · rcases hwritten with ⟨hchanged, rfl⟩ | ⟨-, n, hwrite⟩
    · dsimp only
      rw [hsame hchanged]
      exact hw.records.later hclock
    · have hsound := Call.update_sound hupdate hwhole hnamed
      obtain ⟨hpair, -⟩ := writeNext_ok hwrite hsound (elapsed_le clock) hkept.stands
      exact .written hpair (hkept.numbered _)

/-- A write that is cut off leaves records that nobody reads, or the old ones. -/
theorem World.Stands.cutOff {w : World} (hw : w.Stands table starts) {call : Call} (hasked : call.Asked table)
    (hclock : w.time ≤ starts clock.id + clock.elapsed) {process : Nat} {pair : Pair} {answer : Answer}
    (hok : transact call clock w.pair w.process = .ok (pair, process, answer)) :
    World.Stands table starts { w with pair := ⟨w.pair.tally, pair.generation⟩, time := starts clock.id + clock.elapsed } := by
  obtain ⟨hhost, hnamed⟩ := hasked.broker
  obtain ⟨s, seen, s', changed, hread, hupdate, hwritten⟩ := transact_ok hok
  obtain ⟨hstanding, hwhole, hrecords⟩ := hw.records.read hread
  refine ⟨fun destination hbroker => (hw.paced destination hbroker).later hclock, ?_⟩
  rcases hwritten with ⟨-, rfl⟩ | ⟨-, n, hwrite⟩
  · exact hw.records.later hclock
  · have hpast : ∀ host ∈ brokerHosts, ∀ d ∈ w.logs host, d.moment ≤ starts clock.id + clock.elapsed := by
      intro host hhost d hd
      obtain ⟨destination, hbroker, rfl⟩ := exists_broker hhost
      exact ((hw.paced destination hbroker).past d hd).trans hclock
    obtain ⟨hkept, -⟩ := Call.update_ok hupdate hhost hstanding hpast hclock rfl
    have hsound := Call.update_sound hupdate hwhole hnamed
    obtain ⟨hpair, hroom⟩ := writeNext_ok hwrite hsound (elapsed_le clock) hkept.stands
    obtain ⟨-, -, hgeneration⟩ := hpair.tally_ne_nil
    have hnumber := Call.update_generation hupdate
    refine .torn fun process => ?_
    rcases hrecords with hempty | hold
    · rw [hempty]
      exact torn_empty (by rw [hgeneration]; simp) process
    · refine hold.torn ⟨s'.generation + 1, hroom, ?_, hgeneration⟩ process
      omega

/-! ### Every run -/

/-- Where a run starts: nothing has left, and the records are empty or were made fresh. -/
structure World.Fresh (starts : List Char → Nat) (w : World) : Prop where
  logs : w.logs = fun _ => []
  records : w.pair = Pair.empty ∨ ∃ clock process,
    initializeFreshPair clock Pair.empty process = .ok (w.pair, w.process, true)

theorem get?_fresh (hhost : host ∈ brokerHosts) (generation : Nat) (clock : BootTime) :
    (freshState generation clock).hosts.get? host = some {} := by
  simp only [freshState, brokerHosts, List.foldl_cons, List.foldl_nil, SortedMap.get?_insert]
  simp only [brokerHosts, List.mem_cons, List.not_mem_nil, or_false] at hhost
  rcases hhost with rfl | rfl | rfl <;> simp

theorem sound_fresh (generation : Nat) (clock : BootTime) : (freshState generation clock).Sound clock.elapsed where
  highWater := rfl
  hosts host h hget := by
    simp only [freshState, brokerHosts, List.foldl_cons, List.foldl_nil, SortedMap.get?_insert, SortedMap.get?_empty] at hget
    split_ifs at hget <;> exact Option.some.inj hget ▸ HostState.sound_empty _
  sends key sent hget := by cases hget

theorem kept_fresh (start time generation : Nat) (clock : BootTime) :
    Kept start time (fun _ => []) clock.id (freshState generation clock) where
  boot := rfl
  known host hhost := ⟨rfl, {}, get?_fresh hhost generation clock, .settled rfl rfl
    ⟨.nil _, fun _ => .nil _, fun d hd => by cases hd⟩⟩

theorem World.Fresh.stands {w : World} (hw : w.Fresh starts) : w.Stands table starts := by
  refine ⟨fun destination _ => ?_, ?_⟩
  · rw [hw.logs]
    exact paced_nil
  · rw [hw.logs]
    rcases hw.records with hempty | ⟨clock, process, hfresh⟩
    · rw [hempty]
      exact .empty
    · obtain ⟨⟨s, seen⟩, hread, hfresh⟩ := bind_ok.mp hfresh
      rw [readState] at hread
      cases hread
      obtain ⟨⟨pair, n⟩, hwrite, hfresh⟩ := bind_ok.mp hfresh
      obtain ⟨rfl, -⟩ := Prod.mk.inj (Except.ok.inj hfresh)
      obtain ⟨hwritten, -⟩ := writeNext_ok hwrite (sound_fresh ..) (elapsed_le clock) rfl
      exact .written hwritten ((kept_fresh (starts clock.id) w.time _ clock).numbered _)

theorem World.Stands.step {w w' : World} {event : Event} (hw : w.Stands table starts) (h : Happens table starts w event w') :
    w'.Stands table starts := by
  cases h with
  | call hasked hclock hread hok => exact hw.call hasked hclock hread hok
  | cutOff hasked hclock hok => exact hw.cutOff hasked hclock hok
  | lost => exact ⟨hw.paced, .empty⟩
  | process seen => exact ⟨hw.paced, hw.records⟩

def morning (elapsed : Nat) (fits : elapsed ≤ durationMax) : BootTime := ⟨"morning".toList, elapsed, fits⟩

def freshRecords : Pair :=
  match initializeFreshPair (morning 5 (by decide)) Pair.empty 0 with
  | .ok (pair, _, _) => pair
  | .error _ => Pair.empty

def openSession : Request := ⟨Destination.finamApi.baseUrl, "AuthService.Sessions".toList, 100, minuteNanos⟩

theorem sessions_run : ∃ w, Runs.Run (Happens budgetTable fun _ => 100) ⟨freshRecords, 1, 105, fun _ => []⟩
    [.call (.decide openSession) (morning 7 (by decide)),
      .call (.recordResponse openSession.host 200 none) (morning 9 (by decide)),
      .call (.decide openSession) (morning 1000000009 (by decide))] w ∧
    (w.logs Destination.finamApi.baseUrl).map Departure.moment = [1000000109, 107] :=
  ⟨_, .cons (.call ⟨.finamApi, "v1/sessions".toList, rfl, rfl⟩ (by decide) rfl rfl)
    (.cons (.call ⟨.finamApi, rfl, rfl⟩ (by decide) rfl rfl)
      (.cons (.call ⟨.finamApi, "v1/sessions".toList, rfl, rfl⟩ (by decide) rfl rfl) (.nil _))), rfl⟩

end Iaam.Tally
