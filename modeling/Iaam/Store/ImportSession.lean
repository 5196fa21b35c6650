import Iaam.Lib.Outcome
import Iaam.Store.Stamp

/-! An import session (`import_session.rs`): the rows that were submitted, and the questions they raise. Nothing of it is in
the journal yet. The answer of the owner is written twice, on the question and on the row it is about.

The model is of one session. Identifiers are the texts that the tables keep, a new one is passed in, and so is the clock.
`json` says whether a text parses. -/

namespace Iaam
namespace ImportSession
open Outcome

inductive StoreError where
  | ruleNotJson (field : String)
  | notFound (what : String) (id : Text)
  | alreadyExists (what : String)
  | invalidValue (field : String) (value : Text)
  | sqlite
  deriving DecidableEq, Repr

inductive SessionState where
  | «open» | committed | abandoned
  deriving DecidableEq, Repr

def SessionState.code : SessionState → Text
  | «open» => "open".toList
  | committed => "committed".toList
  | abandoned => "abandoned".toList

/-- The standing rule an answer minted, with its version. -/
structure StoredAnswerRule where
  rule : Text
  version : Nat
  deriving DecidableEq, Repr

/-- One submitted line. -/
structure StoredObservation where
  row : Nat
  rowKey : Option Text
  concluded : Bool
  payload : Text
  answer : Option Text
  answerRule : Option StoredAnswerRule
  deriving DecidableEq, Repr

structure NewQuestion where
  question : Text
  alternatives : Text
  prompt : Text
  deriving DecidableEq, Repr

/-- One question put to the owner about one row. -/
structure StoredQuestion where
  id : Text
  row : Nat
  question : Text
  alternatives : Text
  prompt : Text
  askedAt : Text
  answeredAt : Option Text
  answer : Option Text
  rule : Option Text
  deriving DecidableEq, Repr

/-- A session with its rows of the two other tables, in the order of their insertion. -/
structure Session where
  id : Text
  owner : Text
  state : SessionState
  openedAt : Text
  closedAt : Option Text
  observations : List StoredObservation
  questions : List StoredQuestion
  deriving DecidableEq, Repr

/-- The session that a declaration opens. -/
def openImportSession (owner id openedAt : Text) : Session :=
  { id, owner, state := .open, openedAt, closedAt := none, observations := [], questions := [] }

/-! ### Reading -/

def checkJson (json : Text → Bool) (value : Text) (field : String) : Except StoreError Unit :=
  if json value then .ok () else .error (.ruleNotJson field)

/-- A session that is closed and one that is not there give one error. -/
def requireOpen (s : Session) (owner session : Text) : Except StoreError Unit :=
  if s.owner = owner ∧ s.id = session ∧ s.state = .open then .ok () else .error (.notFound "an open import session" session)

def observationByKey (s : Session) (key : Text) : Option StoredObservation :=
  s.observations.find? fun o => o.rowKey = some key

def questionForRow (s : Session) (row : Nat) : Option StoredQuestion :=
  s.questions.find? fun q => q.row = row

def questionById (s : Session) (id : Text) : Option StoredQuestion :=
  s.questions.find? fun q => q.id = id

/-! ### Writing

Each function is one transaction: when it fails, nothing of it is kept. -/

/-- The row number after `used`. The addition saturates. -/
def nextRow (used : Option Nat) : Nat :=
  match used with
  | none => 1
  | some value => min (value + 1) (2 ^ 32 - 1)

def addImportObservation (json : Text → Bool) (s : Session) (owner session : Text) (rowKey : Option Text)
    (concluded : Bool) (payload : Text) : Except StoreError (StoredObservation × Session) := do
  checkJson json payload "observation payload"
  requireOpen s owner session
  match rowKey.bind (observationByKey s) with
  | some existing => return (existing, s)
  | none =>
    let stored : StoredObservation := {
      row := nextRow (s.observations.map StoredObservation.row).max?
      rowKey, concluded, payload
      answer := none
      answerRule := none }
    -- The primary key of the table.
    if stored.row ∈ s.observations.map StoredObservation.row then .error .sqlite
    else return (stored, { s with observations := s.observations ++ [stored] })

/-- Nothing asks whether the session holds the row. -/
def recordImportQuestion (json : Text → Bool) (s : Session) (owner session : Text) (row : Nat) (asking : NewQuestion)
    (id askedAt : Text) : Except StoreError (StoredQuestion × Session) := do
  checkJson json asking.question "question"
  checkJson json asking.alternatives "question alternatives"
  requireOpen s owner session
  match questionForRow s row with
  | some existing => return (existing, s)
  | none =>
    let stored : StoredQuestion := {
      id, row
      question := asking.question
      alternatives := asking.alternatives
      prompt := asking.prompt
      askedAt
      answeredAt := none
      answer := none
      rule := none }
    if id ∈ s.questions.map StoredQuestion.id then .error .sqlite
    else return (stored, { s with questions := s.questions ++ [stored] })

/-- `UPDATE import_questions SET … WHERE id = ? AND …` -/
def updateQuestion (s : Session) (id : Text) (picks : StoredQuestion → Bool) (set : StoredQuestion → StoredQuestion) :
    Session :=
  { s with questions := s.questions.map fun q => if q.id = id && picks q then set q else q }

/-- `UPDATE import_observations SET … WHERE …` -/
def updateObservations (s : Session) (picks : StoredObservation → Bool) (set : StoredObservation → StoredObservation) :
    Session :=
  { s with observations := s.observations.map fun o => if picks o then set o else o }

/-- The question as it stands at the end of a transaction. -/
def readBack (s : Session) (id : Text) : Except StoreError (StoredQuestion × Session) :=
  match questionById s id with
  | none => .error (.notFound "an import question" id)
  | some stored => .ok (stored, s)

/-- The answer is written on the question, and on the row that the question is about. -/
def answerImportQuestion (json : Text → Bool) (s : Session) (owner session question answer now : Text) :
    Except StoreError (StoredQuestion × Session) := do
  checkJson json answer "answer"
  requireOpen s owner session
  if ¬ s.questions.any fun q => q.id = question && q.answeredAt.isNone then
    .error (.notFound "an unanswered import question" question)
  else
    let s := updateQuestion s question (fun q => q.answeredAt.isNone)
      fun q => { q with answeredAt := some now, answer := some answer }
    let row := (questionById s question).map StoredQuestion.row
    readBack (updateObservations s (fun o => some o.row = row) fun o => { o with answer := some answer }) question

/-- Takes back the answer that minted a rule. The question is found by its id, the rows by the rule that is stamped on
    them. -/
def withdrawImportAnswer (s : Session) (owner session question : Text) : Except StoreError (StoredQuestion × Session) := do
  requireOpen s owner session
  match (s.questions.find? fun q => q.id = question && q.answeredAt.isSome && q.rule.isSome).bind StoredQuestion.rule with
  | none => .error (.notFound "an answered import question with a standing rule" question)
  | some rule =>
    if s.questions.any fun q => q.rule = some rule && q.id ≠ question then
      .error (.alreadyExists "a second import question names the same minted rule")
    else
      let s := updateQuestion s question (fun _ => true) fun q => { q with answeredAt := none, answer := none, rule := none }
      let row := (questionById s question).map StoredQuestion.row
      readBack (updateObservations s (fun o => o.answerRule.any (·.rule = rule) || some o.row = row)
        fun o => { o with answer := none, answerRule := none }) question

/-- Names the rule that an answer was generalised into. -/
def attachImportQuestionRule (s : Session) (owner session question rule : Text) :
    Except StoreError (StoredQuestion × Session) := do
  requireOpen s owner session
  if ¬ s.questions.any fun q => q.id = question && (q.answeredAt.isSome && q.rule.isNone) then
    .error (.notFound "an answered import question without a rule" question)
  else
    readBack (updateQuestion s question (fun q => q.answeredAt.isSome && q.rule.isNone) fun q => { q with rule := some rule })
      question

/-- Stamps the rule on one of the rows that its answer settled. -/
def stampRow (rule : StoredAnswerRule) (s : Session) (row : Nat) : Except StoreError Session :=
  if ¬ s.observations.any fun o => o.row = row && o.answer.isSome && o.answerRule.isNone then
    .error (.notFound "an answered import row without a minted rule" (toString row).toList)
  else
    .ok (updateObservations s (fun o => o.row = row && o.answer.isSome && o.answerRule.isNone)
      fun o => { o with answerRule := some rule })

def attachImportAnswerRule (s : Session) (owner session : Text) (rows : List Nat) (rule : Text) (version : Nat) :
    Except StoreError Session := do
  requireOpen s owner session
  rows.foldlM (stampRow ⟨rule, version⟩) s

def closeImportSession (s : Session) (owner session : Text) (state : SessionState) (now : Text) :
    Except StoreError Session :=
  if state = .open then .error (.invalidValue "import session state" state.code)
  else if s.owner = owner ∧ s.id = session ∧ s.state = .open then .ok { s with state, closedAt := some now }
  else .error (.notFound "an open import session" session)

/-! ### Calls -/

/-- One call of the store. -/
inductive Call where
  | addObservation (owner session : Text) (rowKey : Option Text) (concluded : Bool) (payload : Text)
  | recordQuestion (owner session : Text) (row : Nat) (asking : NewQuestion) (id askedAt : Text)
  | answerQuestion (owner session question answer now : Text)
  | attachQuestionRule (owner session question rule : Text)
  | attachAnswerRule (owner session : Text) (rows : List Nat) (rule : Text) (version : Nat)
  | withdrawAnswer (owner session question : Text)
  | close (owner session : Text) (state : SessionState) (now : Text)

def Call.apply (json : Text → Bool) (s : Session) : Call → Except StoreError Session
  | addObservation owner session rowKey concluded payload =>
    Prod.snd <$> addImportObservation json s owner session rowKey concluded payload
  | recordQuestion owner session row asking id askedAt =>
    Prod.snd <$> recordImportQuestion json s owner session row asking id askedAt
  | answerQuestion owner session question answer now =>
    Prod.snd <$> answerImportQuestion json s owner session question answer now
  | attachQuestionRule owner session question rule => Prod.snd <$> attachImportQuestionRule s owner session question rule
  | attachAnswerRule owner session rows rule version => attachImportAnswerRule s owner session rows rule version
  | withdrawAnswer owner session question => Prod.snd <$> withdrawImportAnswer s owner session question
  | close owner session state now => closeImportSession s owner session state now

/-- The session after a call: a call that fails is rolled back. -/
def Call.step (json : Text → Bool) (s : Session) (c : Call) : Session :=
  match c.apply json s with
  | .ok t => t
  | .error _ => s

def run (json : Text → Bool) (s : Session) (calls : List Call) : Session := calls.foldl (Call.step json) s

/-- What `answer_question` asks of the store for a row and the rows like it: the answer on each of the others and then on the
    row itself, and where the answer generalises, the rule on the question and on all the rows. -/
def answerQuestionCalls (owner session : Text) (targets : List StoredQuestion) (question : StoredQuestion)
    (answer now : Text) (minted : Option StoredAnswerRule) : List Call :=
  (targets.map fun target => .answerQuestion owner session target.id answer now) ++
    .answerQuestion owner session question.id answer now ::
      match minted with
      | none => []
      | some rule => [.attachQuestionRule owner session question.id rule.rule,
          .attachAnswerRule owner session (targets.map StoredQuestion.row ++ [question.row]) rule.rule rule.version]

/-- The calls of a scenario, each a transaction of its own. The first that fails ends it. -/
def runUntilRefused (json : Text → Bool) : Session → List Call → Session
  | s, [] => s
  | s, c :: calls =>
    match c.apply json s with
    | .ok t => runUntilRefused json t calls
    | .error _ => s

end ImportSession
end Iaam
