import Iaam.App.Correction

/-! Retraction of a declared import (`correct_import` of `scenarios/correction.rs`, `Scope` of `ports.rs`): every
effective event the import left in the journal is reversed, and an agent may do so only for a declaration of its
own that nothing was reconciled against. -/

namespace Iaam

inductive Scope where
  | owner | agent | readOnly
  deriving DecidableEq, Repr

namespace Scope

def maySubmit : Scope → Bool
  | owner | agent => true
  | readOnly => false

def mayAdminister : Scope → Bool
  | owner => true
  | agent | readOnly => false

def code : Scope → String
  | owner => "owner" | agent => "agent" | readOnly => "read_only"

end Scope

/-- What a request retracts: one named import, or all that came through a source without naming one. -/
inductive ImportTarget where
  | named (source : SourceId) («import» : ImportId)
  | unnamed (source : SourceId)
  deriving DecidableEq, Repr

namespace ImportTarget

def source : ImportTarget → SourceId
  | named source _ | unnamed source => source

def «import» : ImportTarget → Option ImportId
  | named _ «import» => some «import»
  | unnamed _ => none

def covers (target : ImportTarget) (event : Event) : Bool :=
  match target with
  | named _ «import» => event.provenance.import = some «import»
  | unnamed source => event.provenance.import.isNone && event.provenance.source = source

end ImportTarget

/-- The text of a date, `YYYY-MM-DD`: days are counted in years that begin on 1 March, in eras of 400 years. -/
def Date.text (d : Date) : String :=
  let days := d.day + 719468
  let era := days / 146097
  let dayOfEra := days % 146097
  let yearOfEra := (dayOfEra - dayOfEra / 1460 + dayOfEra / 36524 - dayOfEra / 146096) / 365
  let dayOfYear := dayOfEra - (365 * yearOfEra + yearOfEra / 4 - yearOfEra / 100)
  let fromMarch := (5 * dayOfYear + 2) / 153
  let day := dayOfYear - (153 * fromMarch + 2) / 5 + 1
  let month := if fromMarch < 10 then fromMarch + 3 else fromMarch - 9
  let year := yearOfEra + era * 400 + (if month ≤ 2 then 1 else 0)
  let digits (width : Nat) (n : Int) : String :=
    let text := toString n.natAbs
    String.ofList (List.replicate (width - text.length) '0') ++ text
  (if year < 0 then "-" else "") ++ digits 4 year ++ "-" ++ digits 2 month ++ "-" ++ digits 2 day

namespace Retraction

/-- Every account an event moves, with the one it is filed under. -/
def touched (event : Event) : List AccountId := event.account :: event.legs.map Leg.account

/-- The refusal of a token that may not submit at all. -/
def mayRetractAnImport (scope : Scope) : Except AppError Unit :=
  if scope.maySubmit then .ok () else .error (.invalid "scope" "permission to submit operations" scope.code)

/-- An assertion outside the import, about an account the import moved, whose interval holds the date of one of
    the import's rows. -/
def reconciledAgainst (covered : List Event) (event : Event) : Option AssertionPeriod :=
  match event.kind with
  | .controlAssertion period _ =>
    if event.id ∈ covered.map Event.id ∨ event.account ∉ covered.flatMap touched then none
    else if covered.any fun row => period.contains row.order.date then some period
    else none
  | _ => none

/-- The bound on the retraction of an agent: it may take back its own declaration and nothing else. -/
def undoesOnlyItsOwnDeclaration (principal : Principal) (target : ImportTarget) (journal effective : List Event)
    (effectiveCovered : List Event) : Except AppError Unit :=
  match target.import with
  | none =>
    .error (.invalid "source.label"
      ("the label this import was declared under: without one, the request reaches every row of the account and " ++
        "channel that named no import, which is nobody's declaration to take back")
      "absent")
  | some «import» =>
    let covered := journal.filter target.covers
    let foreign := (covered.filter fun event => event.provenance.declaredBy ≠ some principal.id).length
    if 0 < foreign then
      .error (.invalid "source" "an import every row of which this token declared"
        ("import " ++ «import».text ++ " holds " ++ toString foreign ++ " of " ++ toString covered.length ++
          " rows submitted under another credential, or under none recorded"))
    else if covered.length ≠ effectiveCovered.length then
      .error (.invalid "source" "an import none of whose rows has been reversed or replaced"
        (toString (covered.length - effectiveCovered.length) ++ " of " ++ toString covered.length ++
          " rows are no longer effective"))
    else
      match effective.findSome? fun event => (reconciledAgainst covered event).map fun period => (event, period) with
      | some (event, period) =>
        .error (.invalid "source" "an import nothing has been reconciled against"
          ("control assertion " ++ event.id.text ++ " covers " ++ period.from.text ++ "..=" ++ period.to.text ++
            " on an account these rows moved"))
      | none => .ok ()

/-- The facts that retract an import: one reversal for each effective event of it. `fresh` stands for the
    identifiers that are drawn. -/
def reversals (hashes : Hashes) (fresh : Event → EventId) (principal : Principal) (target : ImportTarget)
    (effective : List Event) : List Event :=
  (effective.filter target.covers).map fun event => reversalFor hashes (fresh event) event principal.id

/-- The part of `correct_import` between the journal it loads and the facts it appends. -/
def correctImport (hashes : Hashes) (fresh : Event → EventId) (principal : Principal) (scope : Scope)
    (target : ImportTarget) (journal : List Event) : Except AppError (List Event) := do
  mayRetractAnImport scope
  let effective ← (resolve journal).mapError .correction
  let targets := effective.filter target.covers
  if !scope.mayAdminister then undoesOnlyItsOwnDeclaration principal target journal effective targets
  return reversals hashes fresh principal target effective

end Retraction
end Iaam
