import Iaam.Event.Envelope
import Iaam.Lib.Search
import Mathlib.Data.List.Infix
import Mathlib.Data.Prod.Lex

/-! Owner categories (`category.rs`): what the owner's rules file a row under, and what they would file it under
with a rule that is only proposed. -/

namespace Iaam

/-! ### What a row says -/

/-- The inclusive days a rule is valid on. -/
structure CategoryInterval where
  «from» : Option Date
  «to» : Option Date
  deriving DecidableEq, Repr

def CategoryInterval.covers (i : CategoryInterval) (on : Date) : Bool :=
  i.«from».all (fun start => decide (start ≤ on)) && i.«to».all (fun stop => decide (on ≤ stop))

structure CategorySubject where
  rowKey : Option String
  sourceCategory : Option String
  counterparty : Option String
  description : Option String
  on : Date
  deriving DecidableEq, Repr

/-- The stable key of a row: the identifier of the source before the caller's own. -/
def Event.rowKey (e : Event) : Option String := e.provenance.sourceOperationId.or e.idempotencyKey

/-- The source states one text, which stands for the counterparty and for the description. -/
def CategorySubject.of (e : Event) : CategorySubject where
  rowKey := e.rowKey
  sourceCategory := e.provenance.sourceCategory
  counterparty := e.provenance.description
  description := e.provenance.description
  on := e.order.date

/-! ### Rules -/

inductive DescriptionMatchMode where
  | equals | startsWith | contains
  deriving DecidableEq, Repr

inductive CategoryMatcher where
  | row (key : String)
  | sourceCategory (value : String)
  | descriptionContains (text : String)
  | description (text : String) (mode : DescriptionMatchMode)
  deriving DecidableEq, Repr

/-- Whether a text of the row has the wanted one, both in lower case. `toLowercase` is the lower-casing of the
    standard library, which ranges over all of Unicode. -/
def descriptionMatches (toLowercase : String → String) (text : String) (mode : DescriptionMatchMode)
    (subject : CategorySubject) : Bool :=
  if text = "" then false
  else
    (subject.counterparty.toList ++ subject.description.toList).any fun candidate =>
      match mode with
      | .equals => decide (toLowercase candidate = toLowercase text)
      | .startsWith => decide ((toLowercase text).toList <+: (toLowercase candidate).toList)
      | .contains => decide ((toLowercase text).toList <:+: (toLowercase candidate).toList)

namespace CategoryMatcher

def «matches» (toLowercase : String → String) (subject : CategorySubject) : CategoryMatcher → Bool
  | row key => decide (key ≠ "") && decide (subject.rowKey = some key)
  | sourceCategory value => decide (value ≠ "") && decide (subject.sourceCategory = some value)
  | descriptionContains text => descriptionMatches toLowercase text .contains subject
  | description text mode => descriptionMatches toLowercase text mode subject

def isRow : CategoryMatcher → Bool
  | row _ => true
  | _ => false

def isSourceCategory : CategoryMatcher → Bool
  | sourceCategory _ => true
  | _ => false

def isDescription : CategoryMatcher → Bool
  | descriptionContains _ | description .. => true
  | _ => false

/-- The length of the text that is matched, in characters. -/
def textLen : CategoryMatcher → Nat
  | row key => key.length
  | sourceCategory value => value.length
  | descriptionContains text | description text _ => text.length

end CategoryMatcher

structure CategoryRule where
  id : CategoryRuleId
  version : Nat
  interval : CategoryInterval
  matcher : CategoryMatcher
  category : CategoryId
  deriving DecidableEq, Repr

/-- Whether a rule has something to say of a row on its day. -/
def CategoryRule.applies (toLowercase : String → String) (subject : CategorySubject) (rule : CategoryRule) : Bool :=
  rule.interval.covers subject.on && rule.matcher.matches toLowercase subject

/-- A rule that is evaluated before it is written. -/
structure CategoryRuleProposal where
  id : CategoryRuleId
  interval : CategoryInterval
  matcher : CategoryMatcher
  category : CategoryId
  deriving DecidableEq, Repr

/-- The rule a proposal becomes when it is written. -/
def CategoryRuleProposal.saved (proposed : CategoryRuleProposal) (id : CategoryRuleId) (version : Nat) :
    CategoryRule where
  id
  version
  interval := proposed.interval
  matcher := proposed.matcher
  category := proposed.category

/-! ### Assignment -/

/-- Why a rule assigned the category. -/
inductive CategoryBasis where
  | row (rule : CategoryRuleId)
  | sourceCategory (rule : CategoryRuleId)
  | description (rule : CategoryRuleId)
  deriving DecidableEq, Repr

def CategoryBasis.rule : CategoryBasis → CategoryRuleId
  | row rule | sourceCategory rule | description rule => rule

inductive CategoryAssignment where
  | assigned (category : CategoryId) (basis : CategoryBasis)
  | notDecomposed
  deriving DecidableEq, Repr

def CategoryAssignment.category? : CategoryAssignment → Option CategoryId
  | assigned category _ => some category
  | notDecomposed => none

def CategoryMatcher.basis (rule : CategoryRuleId) : CategoryMatcher → CategoryBasis
  | row _ => .row rule
  | sourceCategory _ => .sourceCategory rule
  | descriptionContains _ | description .. => .description rule

namespace Category

def assignmentForRule (rule : CategoryRule) : CategoryAssignment :=
  .assigned rule.category (rule.matcher.basis rule.id)

def proposalAssignment (proposed : CategoryRuleProposal) : CategoryAssignment :=
  .assigned proposed.category (proposed.matcher.basis proposed.id)

/-- The longest text, then the newest version, then the identifier. -/
def rulePriority (rule : CategoryRule) : Nat ×ₗ Nat ×ₗ CategoryRuleId :=
  toLex (rule.matcher.textLen, toLex (rule.version, rule.id))

/-- The rules of one kind that apply to a row. -/
def applicable (toLowercase : String → String) (subject : CategorySubject) (kind : CategoryMatcher → Bool)
    (rules : List CategoryRule) : List CategoryRule :=
  rules.filter fun rule => kind rule.matcher && rule.applies toLowercase subject

/-- Of the rules of one kind that apply to a row, the one that decides. -/
def decidingRule (toLowercase : String → String) (subject : CategorySubject) (kind : CategoryMatcher → Bool)
    (rules : List CategoryRule) : Option CategoryRule :=
  Search.maxByKey rulePriority (applicable toLowercase subject kind rules)

/-- A rule for the row itself comes first, then one for the category of the source, then one for the text. -/
def assign (toLowercase : String → String) (subject : CategorySubject) (rules : List CategoryRule) :
    CategoryAssignment :=
  match decidingRule toLowercase subject CategoryMatcher.isRow rules with
  | some rule => assignmentForRule rule
  | none =>
    match decidingRule toLowercase subject CategoryMatcher.isSourceCategory rules with
    | some rule => assignmentForRule rule
    | none =>
      match decidingRule toLowercase subject CategoryMatcher.isDescription rules with
      | some rule => assignmentForRule rule
      | none => .notDecomposed

/-- The assignment with a rule that is not written yet, taken as the newest of its kind. -/
def assignWithProposed (toLowercase : String → String) (subject : CategorySubject) (rules : List CategoryRule)
    (proposed : CategoryRuleProposal) : CategoryAssignment :=
  let current := assign toLowercase subject rules
  if !proposed.interval.covers subject.on || !proposed.matcher.matches toLowercase subject then current
  else
    match proposed.matcher, current with
    | .row _, _ => proposalAssignment proposed
    | .sourceCategory _, .assigned _ (.row _) => current
    | .descriptionContains _, .assigned _ (.row _) | .descriptionContains _, .assigned _ (.sourceCategory _)
    | .description .., .assigned _ (.row _) | .description .., .assigned _ (.sourceCategory _) => current
    | _, _ => proposalAssignment proposed

end Category

end Iaam
