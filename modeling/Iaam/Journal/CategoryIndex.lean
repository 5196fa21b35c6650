import Iaam.Category

/-! The category rules an owner has written (`categories.rs` of the store) and the stored assignments computed from
them (`journal/category_index.rs`): a projection that carries the revision it was computed at, and the test by which
a reader decides whether to compute it anew. -/

namespace Iaam

/-! ### Tables -/

structure CategoryRuleRow where
  id : CategoryRuleId
  owner : OwnerId
  version : Nat
  matcher : CategoryMatcher
  category : CategoryId
  validFrom : Option Date
  validTo : Option Date
  retiredAt : Option String
  replaces : Option CategoryRuleId
  deriving DecidableEq, Repr

/-- The rule of a row, as the assignment reads it. -/
def CategoryRuleRow.toRule (r : CategoryRuleRow) : CategoryRule :=
  ⟨r.id, r.version, ⟨r.validFrom, r.validTo⟩, r.matcher, r.category⟩

/-- A rule to write. -/
structure NewCategoryRule where
  matcher : CategoryMatcher
  category : CategoryId
  validFrom : Option Date
  validTo : Option Date
  deriving DecidableEq, Repr

/-- A row of `event_category_assignments`. The columns `basis` and `rule` make one value. -/
structure AssignmentRow where
  owner : OwnerId
  event : EventId
  category : CategoryId
  basis : CategoryBasis
  rulesRevision : Nat
  deriving DecidableEq, Repr

/-- The tables the index is made from, and the index. -/
structure CategoryStore where
  categories : List (OwnerId × CategoryId)
  rules : List CategoryRuleRow
  events : List Event
  assignments : List AssignmentRow

inductive CategoryStoreError where
  | notFound (what : String) (uuid : Nat)
  | duplicateKey
  deriving DecidableEq, Repr

namespace CategoryStore

/-- A store without events and without rules. -/
def empty (categories : List (OwnerId × CategoryId)) : CategoryStore := ⟨categories, [], [], []⟩

/-! ### Writing rules -/

/-- The greatest number of 32 bits. -/
def maxVersion : Nat := 2 ^ 32 - 1

/-- The number of the next rule: one above every rule the owner has written, retired ones included. -/
def nextVersion (s : CategoryStore) (owner : OwnerId) : Nat :=
  match ((s.rules.filter fun r => r.owner = owner).map CategoryRuleRow.version).max? with
  | none => 1
  | some used => min (used + 1) maxVersion

/-- Inserts a rule with the next number of the owner. The identifier is given, where the source draws one. The
    identifier is the key of the table, and the owner with the number is a unique index. -/
def writeCategoryRule (s : CategoryStore) (owner : OwnerId) (id : CategoryRuleId) (rule : NewCategoryRule)
    (replaces : Option CategoryRuleId) : Except CategoryStoreError CategoryStore :=
  if (owner, rule.category) ∉ s.categories then .error (.notFound "category" rule.category.uuid)
  else
    let version := s.nextVersion owner
    if s.rules.any fun r => r.id = id ∨ r.owner = owner ∧ r.version = version then .error .duplicateKey
    else
      .ok { s with rules := s.rules ++
        [⟨id, owner, version, rule.matcher, rule.category, rule.validFrom, rule.validTo, none, replaces⟩] }

/-- Whether a row is the active rule of the owner with the identifier. -/
def isActiveRule (owner : OwnerId) (id : CategoryRuleId) (r : CategoryRuleRow) : Bool :=
  r.owner = owner ∧ r.id = id ∧ r.retiredAt = none

def retireCategoryRuleRow (s : CategoryStore) (owner : OwnerId) (id : CategoryRuleId) (now : String) :
    Except CategoryStoreError CategoryStore :=
  if s.rules.any (isActiveRule owner id) then
    .ok { s with rules := s.rules.map fun r => if isActiveRule owner id r then { r with retiredAt := some now } else r }
  else .error (.notFound "active category rule" id.uuid)

/-- Retires the previous rule and writes the new one, both or neither. -/
def amendCategoryRule (s : CategoryStore) (owner : OwnerId) (previous id : CategoryRuleId) (rule : NewCategoryRule)
    (now : String) : Except CategoryStoreError CategoryStore := do
  let retired ← s.retireCategoryRuleRow owner previous now
  retired.writeCategoryRule owner id rule (some previous)

/-! ### The index -/

def activeRules (s : CategoryStore) (owner : OwnerId) : List CategoryRule :=
  (s.rules.filter fun r => r.owner = owner ∧ r.retiredAt = none).map CategoryRuleRow.toRule

/-- The highest number among the rules, or 0 when there is none. -/
def highestVersion (rules : List CategoryRule) : Nat := (rules.map CategoryRule.version).max?.getD 0

/-- Makes the stored row of an event agree with its assignment: the row is put, or there is no row. -/
def storeAssignment (toLowercase : String → String) (s : CategoryStore) (owner : OwnerId) (e : Event)
    (rules : List CategoryRule) (rulesRevision : Nat) : CategoryStore × Bool :=
  let others := s.assignments.filter fun row => ¬(row.owner = owner ∧ row.event = e.id)
  match Category.assign toLowercase (.of e) rules with
  | .notDecomposed => ({ s with assignments := others }, false)
  | .assigned category basis =>
    ({ s with assignments := others ++ [⟨owner, e.id, category, basis, rulesRevision⟩] }, true)

/-- Recomputes the rows of the owner from the journal and the active rules, and counts the events that have one. -/
def rebuild (toLowercase : String → String) (s : CategoryStore) (owner : OwnerId) : CategoryStore × Nat :=
  let rules := s.activeRules owner
  let cleared := { s with assignments := s.assignments.filter fun row => row.owner ≠ owner }
  (s.events.filter fun e => e.owner = owner).foldl
    (fun (acc : CategoryStore × Nat) e =>
      let (stored, written) := storeAssignment toLowercase acc.1 owner e rules (highestVersion rules)
      (stored, if written then min (acc.2 + 1) maxVersion else acc.2))
    (cleared, 0)

/-- Assigns categories for exactly these events, by the rules active now. -/
def assignFor (toLowercase : String → String) (s : CategoryStore) (owner : OwnerId) (events : List Event) :
    CategoryStore :=
  let rules := s.activeRules owner
  events.foldl (fun s e => (storeAssignment toLowercase s owner e rules (highestVersion rules)).1) s

/-- Writes an event and its assignment. The identifier is the key of the table. -/
def insertEvent (toLowercase : String → String) (s : CategoryStore) (e : Event) :
    Except CategoryStoreError CategoryStore :=
  if s.events.any fun e' => e'.id = e.id then .error .duplicateKey
  else .ok (assignFor toLowercase { s with events := s.events ++ [e] } e.owner [e])

/-- The revision a read must be built from. -/
def revision (s : CategoryStore) (owner : OwnerId) : Nat :=
  ((s.rules.filter fun r => r.owner = owner ∧ r.retiredAt = none).map CategoryRuleRow.version).max?.getD 0

/-- Whether the index must be rebuilt before it answers: a row of another revision, or no row despite a rule. -/
def isStale (s : CategoryStore) (owner : OwnerId) : Bool :=
  let current := s.revision owner
  if s.assignments.any fun row => row.owner = owner ∧ row.rulesRevision ≠ current then true
  else if current = 0 then false
  else !s.assignments.any fun row => row.owner = owner

end CategoryStore

/-! ### Operations -/

/-- What is done to a store, one transaction after another. -/
inductive CategoryOperation where
  | insertEvent (e : Event)
  | insertRule (owner : OwnerId) (id : CategoryRuleId) (rule : NewCategoryRule) (replaces : Option CategoryRuleId)
  | amendRule (owner : OwnerId) (previous id : CategoryRuleId) (rule : NewCategoryRule) (now : String)
  | retireRule (owner : OwnerId) (id : CategoryRuleId) (now : String)
  | rebuild (owner : OwnerId)

namespace CategoryStore

/-- One transaction, which may be refused. -/
def transact (toLowercase : String → String) (s : CategoryStore) :
    CategoryOperation → Except CategoryStoreError CategoryStore
  | .insertEvent e => s.insertEvent toLowercase e
  | .insertRule owner id rule replaces => s.writeCategoryRule owner id rule replaces
  | .amendRule owner previous id rule now => s.amendCategoryRule owner previous id rule now
  | .retireRule owner id now => s.retireCategoryRuleRow owner id now
  | .rebuild owner => .ok (s.rebuild toLowercase owner).1

/-- The store after a transaction. One that is refused is rolled back. -/
def after (toLowercase : String → String) (s : CategoryStore) (op : CategoryOperation) : CategoryStore :=
  match s.transact toLowercase op with
  | .ok t => t
  | .error _ => s

end CategoryStore

end Iaam
