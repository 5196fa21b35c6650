import Mathlib.Data.List.Basic

/-! The endpoints that are asked, and the share of each one's documented limit that is used (`destination.rs`, `gateway.rs`).
Durations are in nanoseconds. -/

namespace Iaam

inductive Destination where
  | tinkoffProd | tinkoffSandbox | finamApi | moexIss | cbrScripts | cbrDailyInfo | tinvestContract
  deriving DecidableEq, Repr

namespace Destination

def baseUrl : Destination → List Char
  | tinkoffProd => "https://invest-public-api.tbank.ru/rest".toList
  | tinkoffSandbox => "https://sandbox-invest-public-api.tbank.ru/rest".toList
  | finamApi => "https://api.finam.ru".toList
  | moexIss => "https://iss.moex.com".toList
  | cbrScripts | cbrDailyInfo => "https://www.cbr.ru".toList
  | tinvestContract => "https://raw.githubusercontent.com".toList

/-- The destinations whose sends are counted on disk. -/
def isBroker : Destination → Bool
  | tinkoffProd | tinkoffSandbox | finamApi => true
  | moexIss | cbrScripts | cbrDailyInfo | tinvestContract => false

def debug : Destination → String
  | tinkoffProd => "TinkoffProd"
  | tinkoffSandbox => "TinkoffSandbox"
  | finamApi => "FinamApi"
  | moexIss => "MoexIss"
  | cbrScripts => "CbrScripts"
  | cbrDailyInfo => "CbrDailyInfo"
  | tinvestContract => "TinvestContract"

end Destination

/-! ### Rows -/

/-- Which method keys a row covers: one, or all of them together. -/
inductive MethodScope where
  | named (key : List Char)
  | shared
  deriving DecidableEq, Repr

def MethodScope.debug (quoted : List Char → String) : MethodScope → String
  | .named key => s!"Named({quoted key})"
  | .shared => "Shared"

structure Budget where
  destination : Destination
  scope : MethodScope
  /-- The limit that the destination documents, if it documents one. -/
  documented : Option Nat
  used : Nat
  window : Nat
  deriving DecidableEq, Repr

def secondNanos : Nat := 1000000000
def minuteNanos : Nat := 60 * secondNanos
def dayNanos : Nat := 24 * 60 * minuteNanos

/-- How long a send is remembered on disk. -/
def tallyRetention : Nat := dayNanos

def budgets : List Budget := [
  ⟨.tinkoffProd, .named "OperationsService".toList, some 100, 50, minuteNanos⟩,
  ⟨.tinkoffProd, .named "UsersService".toList, some 50, 25, minuteNanos⟩,
  ⟨.tinkoffSandbox, .named "OperationsService".toList, some 100, 50, minuteNanos⟩,
  ⟨.tinkoffSandbox, .named "UsersService".toList, some 50, 25, minuteNanos⟩,
  ⟨.finamApi, .named "AccountsService.GetAccount".toList, some 200, 100, minuteNanos⟩,
  ⟨.finamApi, .named "AccountsService.Transactions".toList, some 200, 100, minuteNanos⟩,
  ⟨.finamApi, .named "AssetsService.GetAsset".toList, some 200, 100, minuteNanos⟩,
  ⟨.finamApi, .named "AuthService.Sessions".toList, some 200, 100, minuteNanos⟩,
  ⟨.moexIss, .shared, none, 1, secondNanos / 10⟩,
  ⟨.cbrScripts, .shared, none, 1, secondNanos / 10⟩,
  ⟨.cbrDailyInfo, .shared, none, 1, secondNanos / 10⟩,
  ⟨.tinvestContract, .shared, none, 1, secondNanos⟩]

/-! ### The checked table -/

inductive BudgetOffence where
  | noRequests
  | overDocumented
  | longWindow
  | listedTwice
  deriving DecidableEq, Repr

def BudgetOffence.text : BudgetOffence → String
  | noRequests => "allows no requests"
  | overDocumented => "uses more than its documented limit"
  | longWindow => "has a window longer than the outbound tally retention"
  | listedTwice => "is listed twice"

/-- The refusals that the table gives. -/
inductive BudgetError where
  | unknownBudget (destination : Destination) (path : List Char)
  | invalidBudgets (row : Budget) (offence : BudgetOffence)
  deriving DecidableEq, Repr

def BudgetError.message (quoted : List Char → String) : BudgetError → String
  | unknownBudget destination path => s!"no budget is recorded for path {quoted path} at {destination.debug}"
  | invalidBudgets row offence =>
    s!"the budget table is invalid: {row.destination.debug} {row.scope.debug quoted} {offence.text}"

def rowOffence (earlier : List Budget) (row : Budget) : Option BudgetOffence :=
  if row.used = 0 ∨ row.window = 0 then some .noRequests
  else if row.documented.any fun documented => documented < row.used then some .overDocumented
  else if row.destination.isBroker ∧ tallyRetention < row.window then some .longWindow
  else if earlier.any fun row' => row'.destination = row.destination ∧ row'.scope = row.scope then some .listedTwice
  else none

/-- The first row that is refused, beside the rows before it. -/
def firstOffence (earlier : List Budget) : List Budget → Option (Budget × BudgetOffence)
  | [] => none
  | row :: rest =>
    match rowOffence earlier row with
    | some offence => some (row, offence)
    | none => firstOffence (earlier ++ [row]) rest

structure BudgetTable where
  rows : List Budget
  checked : firstOffence [] rows = none

def BudgetTable.new (rows : List Budget) : Except BudgetError BudgetTable :=
  match h : firstOffence [] rows with
  | none => .ok ⟨rows, h⟩
  | some (row, offence) => .error (.invalidBudgets row offence)

theorem rowOffence_none {earlier rows : List Budget} (h : firstOffence earlier rows = none) {row : Budget} (hrow : row ∈ rows) :
    ∃ earlier', rowOffence earlier' row = none := by
  induction rows generalizing earlier with
  | nil => cases hrow
  | cons row' rest ih =>
    rw [firstOffence] at h
    cases hrow' : rowOffence earlier row' with
    | some offence =>
      rw [hrow'] at h
      cases h
    | none =>
      rw [hrow'] at h
      rcases List.mem_cons.mp hrow with rfl | hmem
      · exact ⟨earlier, hrow'⟩
      · exact ih h hmem

/-- Every row of a checked table allows a request, and no row of a broker looks further back than sends are remembered. -/
theorem BudgetTable.sound (table : BudgetTable) {row : Budget} (hrow : row ∈ table.rows) :
    0 < row.used ∧ (row.destination.isBroker = true → row.window ≤ tallyRetention) := by
  obtain ⟨earlier, h⟩ := rowOffence_none table.checked hrow
  simp only [rowOffence] at h
  split_ifs at h with hnone _ hlong
  rw [not_or] at hnone
  exact ⟨Nat.pos_of_ne_zero hnone.1, fun hbroker => Nat.le_of_not_lt fun hlt => hlong ⟨hbroker, hlt⟩⟩

/-- The table in use is one. -/
def budgetTable : BudgetTable := ⟨budgets, by decide⟩

/-! ### The row of a request -/

def stripPrefix (front text : List Char) : Option (List Char) :=
  if front.isPrefixOf text then some (text.drop front.length) else none

def stripSuffix (back text : List Char) : Option (List Char) :=
  if back.isSuffixOf text then some (text.take (text.length - back.length)) else none

def isAsciiControl (c : Char) : Bool := c.toNat < 32 || c.toNat = 127

/-- The method key of a path at a broker. -/
def brokerBudgetKey (destination : Destination) (path : List Char) : Option (List Char) :=
  let path := path.dropWhile fun c => c = '/'
  match destination with
  | .tinkoffProd | .tinkoffSandbox =>
    if path = "tinkoff.public.invest.api.contract.v1.UsersService/GetAccounts".toList ∨
        path = "UsersService/GetAccounts".toList then
      some "UsersService".toList
    else if path = "tinkoff.public.invest.api.contract.v1.OperationsService/GetPortfolio".toList ∨
        path = "tinkoff.public.invest.api.contract.v1.OperationsService/GetOperationsByCursor".toList ∨
        path = "OperationsService/GetPortfolio".toList ∨ path = "OperationsService/GetOperationsByCursor".toList then
      some "OperationsService".toList
    else none
  | .finamApi =>
    if path.any isAsciiControl || (path.any fun c => c ∈ ['?', '#', '\\', '%']) ||
        (path.splitOn '/').any fun segment => segment = ".".toList || segment = "..".toList then
      none
    else if path = "v1/sessions".toList ∨ path = "v1/sessions/details".toList then some "AuthService.Sessions".toList
    else
      match stripPrefix "v1/assets/".toList path with
      | some asset => if asset ≠ [] ∧ '/' ∉ asset then some "AssetsService.GetAsset".toList else none
      | none =>
        match stripPrefix "v1/accounts/".toList path with
        | none => none
        | some accountPath =>
          match stripSuffix "/transactions".toList accountPath with
          | some account => if account ≠ [] ∧ '/' ∉ account then some "AccountsService.Transactions".toList else none
          | none => if accountPath ≠ [] ∧ '/' ∉ accountPath then some "AccountsService.GetAccount".toList else none
  | .moexIss | .cbrScripts | .cbrDailyInfo | .tinvestContract => none

/-- The row that covers a path, and the key under which its budget is kept. -/
def BudgetTable.lookup (table : BudgetTable) (destination : Destination) (path : List Char) :
    Except BudgetError (Budget × Option (List Char)) :=
  let key := brokerBudgetKey destination path
  let wanted := key.elim .shared MethodScope.named
  match table.rows.find? fun row => row.destination = destination ∧ row.scope = wanted with
  | some row => .ok (row, key)
  | none => .error (.unknownBudget destination path)

/-- A row is looked up for its own destination. -/
theorem BudgetTable.lookup_ok {table : BudgetTable} {destination : Destination} {path : List Char} {row : Budget}
    {key : Option (List Char)} (h : table.lookup destination path = .ok (row, key)) :
    row ∈ table.rows ∧ row.destination = destination ∧ row.scope = key.elim .shared MethodScope.named ∧
      key = brokerBudgetKey destination path := by
  simp only [lookup] at h
  cases hfind : table.rows.find? fun row =>
      row.destination = destination ∧ row.scope = (brokerBudgetKey destination path).elim .shared MethodScope.named with
  | none =>
    rw [hfind] at h
    cases h
  | some row' =>
    rw [hfind] at h
    cases h
    have hrow := List.find?_some hfind
    rw [decide_eq_true_eq] at hrow
    exact ⟨List.mem_of_find?_eq_some hfind, hrow.1, hrow.2, rfl⟩

end Iaam
