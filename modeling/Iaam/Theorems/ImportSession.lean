import Iaam.Lib.Runs
import Iaam.Lib.Search
import Iaam.Store.ImportSession
import Mathlib.Data.List.Range

/-! A question of an import session is answered exactly when its row carries the answer, over any run of the calls of the
store. Two calls can part them: the answer of a question about a row that is not there, and the withdrawal of an answer whose
rule is stamped on other rows too. The questions of those rows stay answered, and nothing can answer them again. -/

namespace Iaam
namespace ImportSession
open Outcome Runs

variable {json : Text → Bool} {s t : Session} {owner session question answer rule now : Text}

/-! ### What a call does -/

theorem checkJson_ok {value : Text} {field : String} : checkJson json value field = .ok () ↔ json value = true := by
  simp only [checkJson]
  split <;> simp_all

/-- The session that a call names, still open. -/
def Session.IsOpen (s : Session) (owner session : Text) : Prop := s.owner = owner ∧ s.id = session ∧ s.state = .open

theorem requireOpen_ok : requireOpen s owner session = .ok () ↔ s.IsOpen owner session := by
  simp only [requireOpen, Session.IsOpen]
  split <;> simp_all

/-- A new row gets a number and a key that no other has. -/
theorem addImportObservation_ok {rowKey : Option Text} {concluded : Bool} {payload : Text}
    {out : StoredObservation × Session}
    (h : addImportObservation json s owner session rowKey concluded payload = .ok out) :
    s.IsOpen owner session ∧ (out.2 = s ∨
      out.1.row = nextRow (s.observations.map StoredObservation.row).max? ∧
      out.1.row ∉ s.observations.map StoredObservation.row ∧ out.1.answer = none ∧ out.1.answerRule = none ∧
      (∀ key, out.1.rowKey = some key → ∀ o ∈ s.observations, o.rowKey ≠ some key) ∧
      out.2 = { s with observations := s.observations ++ [out.1] }) := by
  obtain ⟨-, h⟩ := seq_ok.mp h
  obtain ⟨hopen, h⟩ := seq_ok.mp h
  refine ⟨requireOpen_ok.mp hopen, ?_⟩
  split at h
  · cases h
    exact .inl rfl
  · next hkey =>
    dsimp only at h
    split at h
    · cases h
    · next hrow =>
      cases h
      refine .inr ⟨rfl, hrow, rfl, rfl, ?_, rfl⟩
      rintro key rfl o ho hsame
      exact List.find?_eq_none.mp hkey o ho (decide_eq_true hsame)

theorem recordImportQuestion_ok {row : Nat} {asking : NewQuestion} {id askedAt : Text} {out : StoredQuestion × Session}
    (h : recordImportQuestion json s owner session row asking id askedAt = .ok out) :
    s.IsOpen owner session ∧ (out.2 = s ∨
      out.1.id ∉ s.questions.map StoredQuestion.id ∧ out.1.row ∉ s.questions.map StoredQuestion.row ∧
      out.1.answeredAt = none ∧ out.1.answer = none ∧ out.2 = { s with questions := s.questions ++ [out.1] }) := by
  obtain ⟨-, h⟩ := seq_ok.mp h
  obtain ⟨-, h⟩ := seq_ok.mp h
  obtain ⟨hopen, h⟩ := seq_ok.mp h
  refine ⟨requireOpen_ok.mp hopen, ?_⟩
  split at h
  · cases h
    exact .inl rfl
  · next hrow =>
    dsimp only at h
    split at h
    · cases h
    · next hid =>
      cases h
      refine .inr ⟨hid, ?_, rfl, rfl, rfl⟩
      intro hmem
      obtain ⟨q, hq, hqrow⟩ := List.mem_map.mp hmem
      exact List.find?_eq_none.mp hrow q hq (decide_eq_true hqrow)

/-- What of a row was submitted. -/
def StoredObservation.submitted (o : StoredObservation) : Nat × Option Text × Bool × Text :=
  (o.row, o.rowKey, o.concluded, o.payload)

/-- The session with its questions and rows rewritten one by one. -/
def Session.rewritten (s : Session) (f : StoredQuestion → StoredQuestion) (g : StoredObservation → StoredObservation) :
    Session :=
  { s with questions := s.questions.map f, observations := s.observations.map g }

/-- One question is written over. -/
def onQuestion (id : Text) (set : StoredQuestion → StoredQuestion) (q : StoredQuestion) : StoredQuestion :=
  if q.id = id then set q else q

def StoredQuestion.answeredWith (answer now : Text) (q : StoredQuestion) : StoredQuestion :=
  { q with answeredAt := some now, answer := some answer }

def StoredQuestion.reopened (q : StoredQuestion) : StoredQuestion :=
  { q with answeredAt := none, answer := none, rule := none }

/-- One row is written over. -/
def onRow (row : Nat) (set : StoredObservation → StoredObservation) (o : StoredObservation) : StoredObservation :=
  if o.row = row then set o else o

def StoredObservation.answeredWith (answer : Text) (o : StoredObservation) : StoredObservation :=
  { o with answer := some answer }

def StoredObservation.reopened (o : StoredObservation) : StoredObservation :=
  { o with answer := none, answerRule := none }

/-- What a withdrawal clears: the rows with the stamp, and the row of the question. -/
def StoredObservation.cleared (rule : Text) (row : Nat) (o : StoredObservation) : StoredObservation :=
  if o.answerRule.any (·.rule = rule) ∨ o.row = row then o.reopened else o

section
variable {q : StoredQuestion} {f : StoredQuestion → StoredQuestion}

theorem questionById_eq (hids : (s.questions.map StoredQuestion.id).Nodup) (hq : q ∈ s.questions) :
    questionById s q.id = some q :=
  (Search.find_key_eq_some hids).mpr ⟨hq, rfl⟩

theorem find_map_question (hids : (s.questions.map StoredQuestion.id).Nodup) (hq : q ∈ s.questions)
    (hf : ∀ p, (f p).id = p.id) : (s.questions.map f).find? (fun p => p.id = q.id) = some (f q) := by
  have hcomp : ((fun p : StoredQuestion => decide (p.id = q.id)) ∘ f) = fun p => decide (p.id = q.id) := by
    funext p
    rw [Function.comp_apply, hf]
  rw [List.find?_map, hcomp]
  exact congrArg (Option.map f) (questionById_eq hids hq)

/-- In a session with distinct ids, an update of one question that passes the test writes over that question. -/
theorem updateQuestion_eq (hids : (s.questions.map StoredQuestion.id).Nodup) (hq : q ∈ s.questions)
    {picks : StoredQuestion → Bool} {set : StoredQuestion → StoredQuestion} (hpicks : picks q = true) :
    updateQuestion s q.id picks set = { s with questions := s.questions.map (onQuestion q.id set) } := by
  simp only [updateQuestion]
  congr 1
  refine List.map_congr_left fun p hp => ?_
  simp only [onQuestion]
  by_cases hid : p.id = q.id
  · rw [List.inj_on_of_nodup_map hids hp hq hid, hpicks, Bool.and_true, decide_eq_true rfl, if_pos rfl, if_pos rfl]
  · rw [if_neg hid, if_neg (by simp [hid])]

theorem onQuestion_id (set : StoredQuestion → StoredQuestion) (hset : ∀ p, (set p).id = p.id) (id : Text)
    (p : StoredQuestion) : (onQuestion id set p).id = p.id := by
  simp only [onQuestion]
  split
  · exact hset p
  · rfl

/-- A question is written over, then the rows that are picked by its row, and the question is read back. -/
theorem settle_eq (hids : (s.questions.map StoredQuestion.id).Nodup) (hq : q ∈ s.questions)
    (picks : StoredQuestion → Bool) (set : StoredQuestion → StoredQuestion) (hpicks : picks q = true)
    (hid : ∀ p, (set p).id = p.id) (hrow : ∀ p, (set p).row = p.row) (picksRow : Option Nat → StoredObservation → Bool)
    (setRow : StoredObservation → StoredObservation) :
    readBack (updateObservations (updateQuestion s q.id picks set)
      (picksRow ((questionById (updateQuestion s q.id picks set) q.id).map StoredQuestion.row)) setRow) q.id =
      .ok (set q, s.rewritten (onQuestion q.id set) fun o => if picksRow (some q.row) o then setRow o else o) := by
  have hfind := find_map_question hids hq (onQuestion_id set hid q.id)
  rw [show onQuestion q.id set q = set q from if_pos rfl] at hfind
  rw [updateQuestion_eq hids hq hpicks]
  simp only [questionById, readBack, updateObservations, hfind, Option.map_some, hrow, Session.rewritten]

theorem answerImportQuestion_eq (hids : (s.questions.map StoredQuestion.id).Nodup) (hjson : json answer = true)
    (hopen : s.IsOpen owner session) (hq : q ∈ s.questions) (hunanswered : q.answeredAt = none) :
    answerImportQuestion json s owner session q.id answer now =
      .ok (q.answeredWith answer now, s.rewritten (onQuestion q.id (.answeredWith answer now)) (onRow q.row (.answeredWith answer))) := by
  have hany : (s.questions.any fun p => p.id = q.id && p.answeredAt.isNone) = true :=
    List.any_eq_true.mpr ⟨q, hq, by simp [hunanswered]⟩
  rw [answerImportQuestion, checkJson_ok.mpr hjson, requireOpen_ok.mpr hopen]
  simp only [ok_bind, hany, not_true_eq_false, if_false]
  refine (settle_eq hids hq (fun p => p.answeredAt.isNone) (.answeredWith answer now)
    (Option.isNone_iff_eq_none.mpr hunanswered) (fun _ => rfl) (fun _ => rfl) (fun row o => some o.row = row) _).trans ?_
  simp only [Option.some.injEq, decide_eq_true_eq]
  rfl

theorem answerImportQuestion_ok {out : StoredQuestion × Session}
    (h : answerImportQuestion json s owner session question answer now = .ok out) :
    json answer = true ∧ s.IsOpen owner session ∧ ∃ q ∈ s.questions, q.id = question ∧ q.answeredAt = none := by
  obtain ⟨hjson, h⟩ := seq_ok.mp h
  obtain ⟨hopen, h⟩ := seq_ok.mp h
  refine ⟨checkJson_ok.mp hjson, requireOpen_ok.mp hopen, ?_⟩
  split at h
  · cases h
  · next hany =>
    obtain ⟨q, hq, htest⟩ := List.any_eq_true.mp (not_not.mp hany)
    simp only [Bool.and_eq_true, decide_eq_true_eq, Option.isNone_iff_eq_none] at htest
    exact ⟨q, hq, htest⟩

theorem withdrawImportAnswer_eq (hids : (s.questions.map StoredQuestion.id).Nodup) (hopen : s.IsOpen owner session)
    (hq : q ∈ s.questions) (hanswered : q.answeredAt.isSome = true) (hrule : q.rule = some rule)
    (hown : ∀ p ∈ s.questions, p.rule = some rule → p.id = q.id) :
    withdrawImportAnswer s owner session q.id =
      .ok (q.reopened, s.rewritten (onQuestion q.id .reopened) (.cleared rule q.row)) := by
  have hnamed : (s.questions.find? fun p => p.id = q.id && p.answeredAt.isSome && p.rule.isSome) = some q := by
    refine (Search.find_eq_some ?_).mpr ⟨hq, by simp [hanswered, hrule]⟩
    intro x hx y hy hpx hpy
    simp only [Bool.and_eq_true, decide_eq_true_eq] at hpx hpy
    exact List.inj_on_of_nodup_map hids hx hy (hpx.1.1.trans hpy.1.1.symm)
  have hshared : (s.questions.any fun p => p.rule = some rule && p.id ≠ q.id) = false := by
    refine List.any_eq_false.mpr fun p hp => ?_
    simp only [Bool.and_eq_true, decide_eq_true_eq, not_and, not_not]
    exact hown p hp
  rw [withdrawImportAnswer, requireOpen_ok.mpr hopen]
  simp only [ok_bind, hnamed, Option.bind_some, hrule, hshared, Bool.false_eq_true, if_false]
  refine (settle_eq hids hq (fun _ => true) .reopened rfl (fun _ => rfl) (fun _ => rfl)
    (fun row o => o.answerRule.any (·.rule = rule) || some o.row = row) _).trans ?_
  simp only [Option.some.injEq, Bool.or_eq_true, decide_eq_true_eq]
  rfl

theorem withdrawImportAnswer_ok {out : StoredQuestion × Session}
    (h : withdrawImportAnswer s owner session question = .ok out) :
    s.IsOpen owner session ∧ ∃ q ∈ s.questions, q.id = question ∧ q.answeredAt.isSome = true ∧ ∃ rule, q.rule = some rule ∧
      ∀ p ∈ s.questions, p.rule = some rule → p.id = question := by
  obtain ⟨hopen, h⟩ := seq_ok.mp h
  refine ⟨requireOpen_ok.mp hopen, ?_⟩
  split at h
  · cases h
  · next rule hnamed =>
    obtain ⟨q, hfind, hrule⟩ := Option.bind_eq_some_iff.mp hnamed
    have htest := List.find?_some hfind
    simp only [Bool.and_eq_true, decide_eq_true_eq] at htest
    split at h
    · cases h
    · next hshared =>
      refine ⟨q, List.mem_of_find?_eq_some hfind, htest.1.1, htest.1.2, rule, hrule, fun p hp hsame => ?_⟩
      by_contra hne
      exact hshared (List.any_eq_true.mpr ⟨p, hp, by simp [hsame, hne]⟩)

end

/-- Only rules are written, and only on rows that have an answer. -/
def Relabelled (s t : Session) : Prop :=
  ∃ f g, t = s.rewritten f g ∧
    (∀ q, (f q).id = q.id ∧ (f q).row = q.row ∧ (f q).answeredAt = q.answeredAt ∧ (f q).answer = q.answer) ∧
    ∀ o, (g o).submitted = o.submitted ∧ (g o).answer = o.answer ∧
      ((g o).answerRule.isSome = true → o.answerRule.isSome = true ∨ o.answer.isSome = true)

theorem Relabelled.refl (s : Session) : Relabelled s s :=
  ⟨id, id, by simp [Session.rewritten], fun _ => ⟨rfl, rfl, rfl, rfl⟩, fun _ => ⟨rfl, rfl, .inl⟩⟩

theorem Relabelled.trans {u : Session} (h : Relabelled s t) (h' : Relabelled t u) : Relabelled s u := by
  obtain ⟨f, g, rfl, hf, hg⟩ := h
  obtain ⟨f', g', rfl, hf', hg'⟩ := h'
  refine ⟨f' ∘ f, g' ∘ g, by simp [Session.rewritten], fun q => ?_, fun o => ?_⟩
  · obtain ⟨hid, hrow, hat, hanswer⟩ := hf q
    obtain ⟨hid', hrow', hat', hanswer'⟩ := hf' (f q)
    exact ⟨hid'.trans hid, hrow'.trans hrow, hat'.trans hat, hanswer'.trans hanswer⟩
  · obtain ⟨hsub, hanswer, hstamp⟩ := hg o
    obtain ⟨hsub', hanswer', hstamp'⟩ := hg' (g o)
    refine ⟨hsub'.trans hsub, hanswer'.trans hanswer, fun hnew => ?_⟩
    rcases hstamp' hnew with hold | hanswered
    · exact hstamp hold
    · exact .inr (hanswer ▸ hanswered)

theorem attachImportQuestionRule_ok {out : StoredQuestion × Session}
    (h : attachImportQuestionRule s owner session question rule = .ok out) :
    s.IsOpen owner session ∧ Relabelled s out.2 := by
  obtain ⟨hopen, h⟩ := seq_ok.mp h
  refine ⟨requireOpen_ok.mp hopen, ?_⟩
  split at h
  · cases h
  · simp only [readBack] at h
    split at h
    · cases h
    · cases h
      refine ⟨fun q => if q.id = question && (q.answeredAt.isSome && q.rule.isNone) then { q with rule := some rule } else q,
        id, by simp [Session.rewritten, updateQuestion], fun q => ?_, fun _ => ⟨rfl, rfl, .inl⟩⟩
      dsimp only
      split <;> exact ⟨rfl, rfl, rfl, rfl⟩

theorem stampRow_ok {minted : StoredAnswerRule} {row : Nat} (h : stampRow minted s row = .ok t) : Relabelled s t := by
  simp only [stampRow] at h
  split at h
  · cases h
  · cases h
    refine ⟨id, fun o => if o.row = row && o.answer.isSome && o.answerRule.isNone then { o with answerRule := some minted } else o,
      by simp [Session.rewritten, updateObservations], fun _ => ⟨rfl, rfl, rfl, rfl⟩, fun o => ?_⟩
    dsimp only
    split
    · next hpicked =>
      simp only [Bool.and_eq_true] at hpicked
      exact ⟨rfl, rfl, fun _ => .inr hpicked.1.2⟩
    · exact ⟨rfl, rfl, .inl⟩

theorem attachImportAnswerRule_ok {rows : List Nat} {version : Nat}
    (h : attachImportAnswerRule s owner session rows rule version = .ok t) :
    s.IsOpen owner session ∧ Relabelled s t := by
  obtain ⟨hopen, h⟩ := seq_ok.mp h
  refine ⟨requireOpen_ok.mp hopen, ?_⟩
  exact (foldlM_ok.mp h).keeps (P := Relabelled s) (fun hrel hstep => hrel.trans (stampRow_ok hstep)) (.refl s)

theorem closeImportSession_ok {state : SessionState} (h : closeImportSession s owner session state now = .ok t) :
    s.IsOpen owner session ∧ t = { s with state, closedAt := some now } := by
  simp only [closeImportSession] at h
  split at h
  · cases h
  · split at h
    · next hopen =>
      cases h
      exact ⟨hopen, rfl⟩
    · cases h

/-- Everything a call can do. -/
inductive Did (json : Text → Bool) (s : Session) : Call → Session → Prop
  | same (c : Call) : Did json s c s
  | added (c : Call) (o : StoredObservation) (hrow : o.row = nextRow (s.observations.map StoredObservation.row).max?)
      (hnew : o.row ∉ s.observations.map StoredObservation.row) (hanswer : o.answer = none) (hstamp : o.answerRule = none)
      (hkey : ∀ key, o.rowKey = some key → ∀ p ∈ s.observations, p.rowKey ≠ some key) :
      Did json s c { s with observations := s.observations ++ [o] }
  | asked (c : Call) (q : StoredQuestion) (hid : q.id ∉ s.questions.map StoredQuestion.id)
      (hrow : q.row ∉ s.questions.map StoredQuestion.row) (hat : q.answeredAt = none) (hanswer : q.answer = none) :
      Did json s c { s with questions := s.questions ++ [q] }
  | answered (owner session answer now : Text) (q : StoredQuestion) (hopen : s.IsOpen owner session)
      (hjson : json answer = true) (hq : q ∈ s.questions) (hat : q.answeredAt = none) :
      Did json s (.answerQuestion owner session q.id answer now)
        (s.rewritten (onQuestion q.id (.answeredWith answer now)) (onRow q.row (.answeredWith answer)))
  | withdrawn (owner session rule : Text) (q : StoredQuestion) (hopen : s.IsOpen owner session) (hq : q ∈ s.questions)
      (hat : q.answeredAt.isSome = true) (hrule : q.rule = some rule)
      (hown : ∀ p ∈ s.questions, p.rule = some rule → p.id = q.id) :
      Did json s (.withdrawAnswer owner session q.id) (s.rewritten (onQuestion q.id .reopened) (.cleared rule q.row))
  | relabelled (c : Call) {t : Session} (h : Relabelled s t) : Did json s c t
  | closed (c : Call) (state : SessionState) (closedAt : Option Text) : Did json s c { s with state, closedAt }

theorem Call.apply_ok (hids : (s.questions.map StoredQuestion.id).Nodup) {c : Call} (h : c.apply json s = .ok t) :
    s.state = .open ∧ Did json s c t := by
  cases c with
  | addObservation owner session rowKey concluded payload =>
    obtain ⟨out, hout, h⟩ := bind_ok.mp h
    cases h
    obtain ⟨hopen, hsame | ⟨hrow, hnew, hanswer, hstamp, hkey, hout⟩⟩ := addImportObservation_ok hout
    · exact ⟨hopen.2.2, hsame ▸ .same _⟩
    · exact ⟨hopen.2.2, hout ▸ .added _ out.1 hrow hnew hanswer hstamp hkey⟩
  | recordQuestion owner session row asking id askedAt =>
    obtain ⟨out, hout, h⟩ := bind_ok.mp h
    cases h
    obtain ⟨hopen, hsame | ⟨hid, hrow, hat, hanswer, hout⟩⟩ := recordImportQuestion_ok hout
    · exact ⟨hopen.2.2, hsame ▸ .same _⟩
    · exact ⟨hopen.2.2, hout ▸ .asked _ out.1 hid hrow hat hanswer⟩
  | answerQuestion owner session question answer now =>
    obtain ⟨out, hout, h⟩ := bind_ok.mp h
    cases h
    obtain ⟨hjson, hopen, q, hq, rfl, hat⟩ := answerImportQuestion_ok hout
    cases (answerImportQuestion_eq hids hjson hopen hq hat).symm.trans hout
    exact ⟨hopen.2.2, .answered owner session answer now q hopen hjson hq hat⟩
  | attachQuestionRule owner session question rule =>
    obtain ⟨out, hout, h⟩ := bind_ok.mp h
    cases h
    obtain ⟨hopen, hrel⟩ := attachImportQuestionRule_ok hout
    exact ⟨hopen.2.2, .relabelled _ hrel⟩
  | attachAnswerRule owner session rows rule version =>
    obtain ⟨hopen, hrel⟩ := attachImportAnswerRule_ok h
    exact ⟨hopen.2.2, .relabelled _ hrel⟩
  | withdrawAnswer owner session question =>
    obtain ⟨out, hout, h⟩ := bind_ok.mp h
    cases h
    obtain ⟨hopen, q, hq, rfl, hat, rule, hrule, hown⟩ := withdrawImportAnswer_ok hout
    cases (withdrawImportAnswer_eq hids hopen hq hat hrule hown).symm.trans hout
    exact ⟨hopen.2.2, .withdrawn owner session rule q hopen hq hat hrule hown⟩
  | close owner session state now =>
    obtain ⟨hopen, rfl⟩ := closeImportSession_ok h
    exact ⟨hopen.2.2, .closed _ state (some now)⟩

theorem Call.step_cases (json : Text → Bool) (hids : (s.questions.map StoredQuestion.id).Nodup) (c : Call) : Did json s c (c.step json s) := by
  simp only [Call.step]
  split
  · next h => exact (Call.apply_ok hids h).2
  · exact .same c

/-! ### What holds in every state -/

/-- A question and its row have one answer or none, and neither has one without the other being there. -/
structure Inv (s : Session) : Prop where
  ids : (s.questions.map StoredQuestion.id).Nodup
  one_question : (s.questions.map StoredQuestion.row).Nodup
  rows : s.observations.map StoredObservation.row = List.range' 1 s.observations.length
  one_row : ∀ o ∈ s.observations, ∀ p ∈ s.observations, ∀ key, o.rowKey = some key → p.rowKey = some key → o.row = p.row
  answered : ∀ q ∈ s.questions, q.answeredAt.isSome = q.answer.isSome
  same : ∀ q ∈ s.questions, ∀ o ∈ s.observations, o.row = q.row → q.answer = o.answer
  held : ∀ q ∈ s.questions, q.answer.isSome = true → ∃ o ∈ s.observations, o.row = q.row
  asked : ∀ o ∈ s.observations, o.answer.isSome = true → ∃ q ∈ s.questions, q.row = o.row
  stamped : ∀ o ∈ s.observations, o.answerRule.isSome = true → o.answer.isSome = true

section
variable {f : StoredQuestion → StoredQuestion} {g : StoredObservation → StoredObservation}

theorem Inv.rows_nodup (h : Inv s) : (s.observations.map StoredObservation.row).Nodup := by
  rw [h.rows]
  exact List.nodup_range'

theorem inv_openImportSession (owner id openedAt : Text) : Inv (openImportSession owner id openedAt) := by
  constructor <;> simp [openImportSession]

theorem map_id {f : StoredQuestion → StoredQuestion} (hf : ∀ q, (f q).id = q.id) (questions : List StoredQuestion) :
    (questions.map f).map StoredQuestion.id = questions.map StoredQuestion.id := by
  rw [List.map_map]
  exact List.map_congr_left fun q _ => hf q

theorem map_submitted {g : StoredObservation → StoredObservation} (hg : ∀ o, (g o).submitted = o.submitted)
    (observations : List StoredObservation) :
    (observations.map g).map StoredObservation.submitted = observations.map StoredObservation.submitted := by
  rw [List.map_map]
  exact List.map_congr_left fun o _ => hg o

/-- Rewriting keeps the numbers and the keys; what is left to show is about the answers. -/
theorem Inv.rewritten (h : Inv s) (hf : ∀ q, (f q).id = q.id ∧ (f q).row = q.row)
    (hg : ∀ o, (g o).submitted = o.submitted)
    (hanswered : ∀ q ∈ s.questions, (f q).answeredAt.isSome = (f q).answer.isSome)
    (hsame : ∀ q ∈ s.questions, ∀ o ∈ s.observations, o.row = q.row → (f q).answer = (g o).answer)
    (hheld : ∀ q ∈ s.questions, (f q).answer.isSome = true → ∃ o ∈ s.observations, o.row = q.row)
    (hasked : ∀ o ∈ s.observations, (g o).answer.isSome = true → ∃ q ∈ s.questions, q.row = o.row)
    (hstamped : ∀ o ∈ s.observations, (g o).answerRule.isSome = true → (g o).answer.isSome = true) :
    Inv (s.rewritten f g) := by
  have hids := map_id (fun q => (hf q).1) s.questions
  have hqrows : (s.questions.map f).map StoredQuestion.row = s.questions.map StoredQuestion.row := by
    rw [List.map_map]
    exact List.map_congr_left fun q _ => (hf q).2
  have hrow : ∀ o, (g o).row = o.row := fun o => congrArg Prod.fst (hg o)
  have hkey : ∀ o, (g o).rowKey = o.rowKey := fun o => congrArg (fun x => x.2.1) (hg o)
  have horows : (s.observations.map g).map StoredObservation.row = s.observations.map StoredObservation.row := by
    rw [List.map_map]
    exact List.map_congr_left fun o _ => hrow o
  refine ⟨hids.symm ▸ h.ids, hqrows.symm ▸ h.one_question, ?_, ?_, ?_, ?_, ?_, ?_, ?_⟩
  all_goals simp only [Session.rewritten, List.forall_mem_map, List.length_map, hrow, hkey, (hf _).2]
  · exact horows.trans h.rows
  · exact h.one_row
  · exact hanswered
  · exact hsame
  · intro q hq hanswer
    obtain ⟨o, ho, horow⟩ := hheld q hq hanswer
    exact ⟨g o, List.mem_map_of_mem ho, (hrow o).trans horow⟩
  · intro o ho hanswer
    obtain ⟨q, hq, hqrow⟩ := hasked o ho hanswer
    exact ⟨f q, List.mem_map_of_mem hq, (hf q).2.trans hqrow⟩
  · exact hstamped

theorem Inv.relabelled (h : Inv s) (hrel : Relabelled s t) : Inv t := by
  obtain ⟨f, g, rfl, hf, hg⟩ := hrel
  refine h.rewritten (fun q => ⟨(hf q).1, (hf q).2.1⟩) (fun o => (hg o).1) (fun q hq => ?_) (fun q hq o ho hrow => ?_)
    (fun q hq hanswer => ?_) (fun o ho hanswer => ?_) (fun o ho hstamp => ?_)
  · rw [(hf q).2.2.1, (hf q).2.2.2]
    exact h.answered q hq
  · rw [(hf q).2.2.2, (hg o).2.1]
    exact h.same q hq o ho hrow
  · rw [(hf q).2.2.2] at hanswer
    exact h.held q hq hanswer
  · rw [(hg o).2.1] at hanswer
    exact h.asked o ho hanswer
  · rw [(hg o).2.1]
    rcases (hg o).2.2 hstamp with hold | hanswered
    · exact h.stamped o ho hold
    · exact hanswered

/-- The numbers saturate, but a number past the last would be one that is taken. -/
theorem nextRow_eq {n : Nat} (h : nextRow (List.range' 1 n).max? ∉ List.range' 1 n) :
    nextRow (List.range' 1 n).max? = n + 1 := by
  cases n with
  | zero => rfl
  | succ n =>
    have hmax : (List.range' 1 (n + 1)).max? = some (n + 1) := by
      refine List.max?_eq_some_iff.mpr ⟨?_, fun b hb => ?_⟩
      · rw [List.mem_range'_1]
        omega
      · rw [List.mem_range'_1] at hb
        omega
    rw [hmax, nextRow, List.mem_range'_1] at h
    rw [hmax, nextRow]
    omega

theorem Inv.added (h : Inv s) {o : StoredObservation}
    (hrow : o.row = nextRow (s.observations.map StoredObservation.row).max?)
    (hnew : o.row ∉ s.observations.map StoredObservation.row) (hanswer : o.answer = none) (hstamp : o.answerRule = none)
    (hkey : ∀ key, o.rowKey = some key → ∀ p ∈ s.observations, p.rowKey ≠ some key) :
    Inv { s with observations := s.observations ++ [o] } := by
  have hnumber : o.row = s.observations.length + 1 := by
    rw [hrow, h.rows] at hnew ⊢
    exact nextRow_eq hnew
  refine ⟨h.ids, h.one_question, ?_, ?_, h.answered, ?_, ?_, ?_, ?_⟩
  all_goals simp only [List.forall_mem_append, List.forall_mem_singleton, List.length_append, List.length_singleton,
    List.map_append, List.map_singleton]
  · rw [h.rows, hnumber, List.range'_concat, one_mul, Nat.add_comm]
  · refine ⟨fun p hp => ⟨h.one_row p hp, fun key hpk hok => absurd hpk (hkey key hok p hp)⟩,
      fun p hp key hok hpk => absurd hpk (hkey key hok p hp), fun _ _ _ => trivial⟩
  · intro q hq
    refine ⟨h.same q hq, fun hqrow => ?_⟩
    -- A question about a row that was not there has no answer yet.
    rw [hanswer]
    by_contra hne
    obtain ⟨p, hp, hprow⟩ := h.held q hq (Option.isSome_iff_ne_none.mpr hne)
    exact hnew (List.mem_map.mpr ⟨p, hp, hprow.trans hqrow.symm⟩)
  · intro q hq hanswered
    obtain ⟨p, hp, hprow⟩ := h.held q hq hanswered
    exact ⟨p, List.mem_append_left _ hp, hprow⟩
  · exact ⟨h.asked, fun hsome => by rw [hanswer] at hsome; cases hsome⟩
  · exact ⟨h.stamped, fun hsome => by rw [hstamp] at hsome; cases hsome⟩

theorem Inv.questioned (h : Inv s) {q : StoredQuestion} (hid : q.id ∉ s.questions.map StoredQuestion.id)
    (hrow : q.row ∉ s.questions.map StoredQuestion.row) (hat : q.answeredAt = none) (hanswer : q.answer = none) :
    Inv { s with questions := s.questions ++ [q] } := by
  refine ⟨?_, ?_, h.rows, h.one_row, ?_, ?_, ?_, ?_, h.stamped⟩
  all_goals simp only [List.forall_mem_append, List.forall_mem_singleton, List.map_append, List.map_singleton]
  · exact List.nodup_append.mpr ⟨h.ids, List.nodup_singleton _, fun a ha b hb heq =>
      hid (List.mem_singleton.mp hb ▸ heq ▸ ha)⟩
  · exact List.nodup_append.mpr ⟨h.one_question, List.nodup_singleton _, fun a ha b hb heq =>
      hrow (List.mem_singleton.mp hb ▸ heq ▸ ha)⟩
  · exact ⟨h.answered, by rw [hat, hanswer]⟩
  · refine ⟨h.same, fun o ho horow => ?_⟩
    -- A row that was not asked about has no answer yet.
    rw [hanswer]
    by_contra hne
    obtain ⟨p, hp, hprow⟩ := h.asked o ho (Option.isSome_iff_ne_none.mpr (Ne.symm hne))
    exact hrow (List.mem_map.mpr ⟨p, hp, hprow.trans horow⟩)
  · exact ⟨h.held, fun hsome => by rw [hanswer] at hsome; cases hsome⟩
  · intro o ho hanswered
    obtain ⟨p, hp, hprow⟩ := h.asked o ho hanswered
    exact ⟨p, List.mem_append_left _ hp, hprow⟩

end

/-! ### The two calls that can part them -/

/-- An answer reaches a row that is there, and a withdrawn rule is stamped on no row but that of its question. -/
def Meets (json : Text → Bool) (s : Session) : Call → Prop
  | .answerQuestion owner session question answer _ => s.IsOpen owner session → json answer = true →
    ∀ q ∈ s.questions, q.id = question → q.answeredAt = none → ∃ o ∈ s.observations, o.row = q.row
  | .withdrawAnswer owner session question => s.IsOpen owner session →
    ∀ q ∈ s.questions, q.id = question → q.answeredAt.isSome = true → ∀ rule, q.rule = some rule →
      (∀ p ∈ s.questions, p.rule = some rule → p.id = question) →
      ∀ o ∈ s.observations, o.answerRule.any (·.rule = rule) = true → o.row = q.row
  | _ => True

section
variable {q : StoredQuestion}

/-- The answer of one question and of its row are written over alike. -/
theorem Inv.settled (h : Inv s) (hq : q ∈ s.questions) {set : StoredQuestion → StoredQuestion}
    {setRow : StoredObservation → StoredObservation} (a : Option Text)
    (hset : ∀ p, (set p).id = p.id ∧ (set p).row = p.row ∧ (set p).answer = a ∧ (set p).answeredAt.isSome = a.isSome)
    (hsetRow : ∀ o, (setRow o).submitted = o.submitted ∧ (setRow o).answer = a)
    (hstamp : ∀ o, (setRow o).answerRule.isSome = true → a.isSome = true)
    (hheld : a.isSome = true → ∃ o ∈ s.observations, o.row = q.row) :
    Inv (s.rewritten (onQuestion q.id set) (onRow q.row setRow)) := by
  have hwritten : ∀ p ∈ s.questions, onQuestion q.id set p = if p.row = q.row then set p else p := by
    intro p hp
    simp only [onQuestion]
    by_cases hid : p.id = q.id
    · rw [List.inj_on_of_nodup_map h.ids hp hq hid, if_pos rfl, if_pos rfl]
    · rw [if_neg hid, if_neg fun hrow => hid (congrArg _ (List.inj_on_of_nodup_map h.one_question hp hq hrow))]
  refine h.rewritten (fun p => ⟨onQuestion_id set (fun p => (hset p).1) q.id p, ?_⟩) (fun o => ?_) (fun p hp => ?_)
    (fun p hp o ho hrow => ?_) (fun p hp hanswer => ?_) (fun o ho hanswer => ?_) (fun o ho hstamped => ?_)
  · simp only [onQuestion]
    split
    · exact (hset p).2.1
    · rfl
  · simp only [onRow]
    split
    · exact (hsetRow o).1
    · rfl
  · rw [hwritten p hp]
    split
    · rw [(hset p).2.2.2, (hset p).2.2.1]
    · exact h.answered p hp
  · rw [hwritten p hp, onRow, hrow]
    split
    · exact (hset p).2.2.1.trans (hsetRow o).2.symm
    · exact h.same p hp o ho hrow
  · rw [hwritten p hp] at hanswer
    split at hanswer
    · next hrow =>
      rw [(hset p).2.2.1] at hanswer
      exact hrow ▸ hheld hanswer
    · exact h.held p hp hanswer
  · simp only [onRow] at hanswer
    split at hanswer
    · next hrow => exact ⟨q, hq, hrow.symm⟩
    · exact h.asked o ho hanswer
  · simp only [onRow] at hstamped ⊢
    split
    · next hrow =>
      rw [if_pos hrow] at hstamped
      rw [(hsetRow o).2]
      exact hstamp o hstamped
    · next hrow =>
      rw [if_neg hrow] at hstamped
      exact h.stamped o ho hstamped

/-- A rule that is stamped on no other row is withdrawn from the row of its question alone. -/
theorem rewritten_cleared {f : StoredQuestion → StoredQuestion}
    (hown : ∀ o ∈ s.observations, o.answerRule.any (·.rule = rule) = true → o.row = q.row) :
    s.rewritten f (.cleared rule q.row) = s.rewritten f (onRow q.row .reopened) := by
  simp only [Session.rewritten]
  congr 1
  refine List.map_congr_left fun o ho => ?_
  simp only [StoredObservation.cleared, onRow]
  by_cases hrow : o.row = q.row
  · rw [if_pos (.inr hrow), if_pos hrow]
  · rw [if_neg hrow, if_neg (by rintro (hrule | hsame); exacts [hrow (hown o ho hrule), hrow hsame])]

theorem Inv.step (h : Inv s) {c : Call} (hmeets : Meets json s c) : Inv (c.step json s) := by
  have hdid := c.step_cases json h.ids
  generalize c.step json s = t at hdid ⊢
  cases hdid with
  | same => exact h
  | added _ o hrow hnew hanswer hstamp hkey => exact h.added hrow hnew hanswer hstamp hkey
  | asked _ q hid hrow hat hanswer => exact h.questioned hid hrow hat hanswer
  | answered owner session answer now q hopen hjson hq hat =>
    refine h.settled hq (some answer) (fun _ => ⟨rfl, rfl, rfl, rfl⟩) (fun _ => ⟨rfl, rfl⟩) (fun _ _ => rfl) fun _ => ?_
    exact hmeets hopen hjson q hq rfl hat
  | withdrawn owner session rule q hopen hq hat hrule hown =>
    rw [rewritten_cleared (hmeets hopen q hq rfl hat rule hrule hown)]
    exact h.settled hq none (fun _ => ⟨rfl, rfl, rfl, rfl⟩) (fun _ => ⟨rfl, rfl⟩) (fun _ hsome => hsome) (fun hsome => nomatch hsome)
  | relabelled _ hrel => exact h.relabelled hrel
  | closed _ state closedAt =>
    exact ⟨h.ids, h.one_question, h.rows, h.one_row, h.answered, h.same, h.held, h.asked, h.stamped⟩

end

/-! ### Over a whole run -/

/-- What an owner may rely on in a session. -/
structure Settled (json : Text → Bool) (s : Session) : Prop where
  same_answer : ∀ q ∈ s.questions, ∀ answer, q.answer = some answer ↔
    ∃ o ∈ s.observations, o.row = q.row ∧ o.answer = some answer
  stamped_answered : ∀ o ∈ s.observations, o.answerRule.isSome = true → o.answer.isSome = true
  one_question : ∀ q ∈ s.questions, ∀ p ∈ s.questions, q.row = p.row → q = p
  answerable : s.state = .open → ∀ o ∈ s.observations, o.answer = none → ∀ q ∈ s.questions, q.row = o.row →
    ∀ answer now, json answer = true → ∃ out, answerImportQuestion json s s.owner s.id q.id answer now = .ok out ∧
      out.1.answer = some answer ∧ ∃ p ∈ out.2.observations, p.row = o.row ∧ p.answer = some answer
  rows : s.observations.map StoredObservation.row = List.range' 1 s.observations.length
  in_order : ∀ calls, s.observations.map StoredObservation.submitted <+:
    (run json s calls).observations.map StoredObservation.submitted
  one_row : ∀ o ∈ s.observations, ∀ p ∈ s.observations, ∀ key, o.rowKey = some key → p.rowKey = some key → o = p
  resubmitted : s.state = .open → ∀ o ∈ s.observations, ∀ key, o.rowKey = some key → ∀ concluded payload,
    json payload = true → addImportObservation json s s.owner s.id (some key) concluded payload = .ok (o, s)
  closed : s.state ≠ .open → ∀ calls, run json s calls = s

theorem step_of_closed (hids : (s.questions.map StoredQuestion.id).Nodup) (h : s.state ≠ .open) (c : Call) :
    c.step json s = s := by
  simp only [Call.step]
  split
  · next happly => exact absurd (Call.apply_ok hids happly).1 h
  · rfl

theorem run_of_closed (hids : (s.questions.map StoredQuestion.id).Nodup) (h : s.state ≠ .open) (calls : List Call) :
    run json s calls = s := by
  induction calls with
  | nil => rfl
  | cons c calls ih =>
    rw [run, List.foldl_cons, step_of_closed hids h c]
    exact ih

theorem Inv.row_eq (h : Inv s) {o p : StoredObservation} (ho : o ∈ s.observations) (hp : p ∈ s.observations)
    (hrow : o.row = p.row) : o = p :=
  List.inj_on_of_nodup_map h.rows_nodup ho hp hrow

/-- Whatever is called, ids stay distinct and what was submitted stays in its place. -/
theorem Did.keeps {c : Call} (h : Did json s c t) (hids : (s.questions.map StoredQuestion.id).Nodup) :
    (t.questions.map StoredQuestion.id).Nodup ∧
      s.observations.map StoredObservation.submitted <+: t.observations.map StoredObservation.submitted := by
  cases h with
  | same => exact ⟨hids, List.prefix_rfl⟩
  | added _ o hrow hnew hanswer hstamp hkey =>
    refine ⟨hids, ?_⟩
    rw [List.map_append]
    exact List.prefix_append _ _
  | asked _ q hid hrow hat hanswer =>
    refine ⟨?_, List.prefix_rfl⟩
    rw [List.map_append]
    exact List.nodup_append.mpr ⟨hids, List.nodup_singleton _, fun a ha b hb heq => hid (List.mem_singleton.mp hb ▸ heq ▸ ha)⟩
  | answered owner session answer now q hopen hjson hq hat =>
    refine ⟨?_, ?_⟩
    · rw [Session.rewritten, map_id (onQuestion_id (.answeredWith answer now) (fun _ => rfl) q.id)]
      exact hids
    · rw [Session.rewritten, map_submitted]
      intro o
      simp only [onRow]
      split <;> rfl
  | withdrawn owner session rule q hopen hq hat hrule hown =>
    refine ⟨?_, ?_⟩
    · rw [Session.rewritten, map_id (onQuestion_id .reopened (fun _ => rfl) q.id)]
      exact hids
    · rw [Session.rewritten, map_submitted]
      intro o
      simp only [StoredObservation.cleared]
      split <;> rfl
  | relabelled _ hrel =>
    obtain ⟨f, g, rfl, hf, hg⟩ := hrel
    refine ⟨?_, ?_⟩
    · rw [Session.rewritten, map_id fun q => (hf q).1]
      exact hids
    · rw [Session.rewritten, map_submitted fun o => (hg o).1]
  | closed _ state closedAt => exact ⟨hids, List.prefix_rfl⟩

theorem run_submitted (hids : (s.questions.map StoredQuestion.id).Nodup) (calls : List Call) :
    s.observations.map StoredObservation.submitted <+:
      (run json s calls).observations.map StoredObservation.submitted := by
  induction calls generalizing s with
  | nil => exact List.prefix_rfl
  | cons c calls ih =>
    obtain ⟨hids', hprefix⟩ := (c.step_cases json hids).keeps hids
    exact hprefix.trans (ih hids')

theorem Inv.to_settled (h : Inv s) : Settled json s where
  same_answer := by
    intro q hq answer
    constructor
    · intro hanswer
      obtain ⟨o, ho, hrow⟩ := h.held q hq (hanswer ▸ rfl)
      exact ⟨o, ho, hrow, (h.same q hq o ho hrow).symm.trans hanswer⟩
    · rintro ⟨o, ho, hrow, hanswer⟩
      exact (h.same q hq o ho hrow).trans hanswer
  stamped_answered := h.stamped
  one_question := fun q hq p hp hrow => List.inj_on_of_nodup_map h.one_question hq hp hrow
  answerable := by
    intro hopen o ho hnone q hq hrow answer now hjson
    have hat : q.answeredAt = none := by
      rw [← Option.isNone_iff_eq_none, ← Option.not_isSome, h.answered q hq, h.same q hq o ho hrow.symm, hnone]
      rfl
    refine ⟨_, answerImportQuestion_eq h.ids hjson ⟨rfl, rfl, hopen⟩ hq hat, rfl, o.answeredWith answer, ?_, rfl, rfl⟩
    exact List.mem_map.mpr ⟨o, ho, if_pos hrow.symm⟩
  rows := h.rows
  in_order := run_submitted h.ids
  one_row := fun o ho p hp key hok hpk => h.row_eq ho hp (h.one_row o ho p hp key hok hpk)
  resubmitted := by
    intro hopen o ho key hkey concluded payload hjson
    have hfind : observationByKey s key = some o := by
      refine (Search.find_eq_some fun x hx y hy hkx hky => ?_).mpr ⟨ho, decide_eq_true hkey⟩
      exact h.row_eq hx hy (h.one_row x hx y hy key (of_decide_eq_true hkx) (of_decide_eq_true hky))
    rw [addImportObservation, checkJson_ok.mpr hjson, requireOpen_ok.mpr ⟨rfl, rfl, hopen⟩]
    simp only [ok_bind, Option.bind_some, hfind, pure_eq_ok]
  closed := run_of_closed h.ids

/-- A call that does not meet the condition leaves a question answered whose row has no answer. -/
theorem Inv.spoiled (h : Inv s) {c : Call} (hnot : ¬ Meets json s c) : ¬ Settled json (c.step json s) := by
  intro hsettled
  cases c with
  | answerQuestion owner session question answer now =>
    simp only [Meets, not_forall] at hnot
    obtain ⟨hopen, hjson, q, hq, rfl, hat, hno⟩ := hnot
    rw [Call.step, Call.apply, answerImportQuestion_eq h.ids hjson hopen hq hat] at hsettled
    have hmem : q.answeredWith answer now ∈ s.questions.map (onQuestion q.id (.answeredWith answer now)) :=
      List.mem_map.mpr ⟨q, hq, if_pos rfl⟩
    obtain ⟨o, ho, hrow, -⟩ := (hsettled.same_answer _ hmem answer).mp rfl
    obtain ⟨p, hp, rfl⟩ := List.mem_map.mp ho
    refine hno ⟨p, hp, ?_⟩
    rw [← show (onRow q.row (.answeredWith answer) p).row = p.row by simp only [onRow]; split <;> rfl]
    exact hrow
  | withdrawAnswer owner session question =>
    simp only [Meets, not_forall] at hnot
    obtain ⟨hopen, q, hq, rfl, hat, rule, hrule, hown, o, ho, hstamp, hrow⟩ := hnot
    rw [Call.step, Call.apply, withdrawImportAnswer_eq h.ids hopen hq hat hrule hown] at hsettled
    -- The row of the other question is cleared, and the question itself is not.
    have hsome : o.answerRule.isSome = true := by
      obtain ⟨minted, hminted, -⟩ := (Option.any_eq_true _ _).mp hstamp
      exact hminted ▸ rfl
    have hanswered := h.stamped o ho hsome
    obtain ⟨p, hp, hprow⟩ := h.asked o ho hanswered
    obtain ⟨answer, hanswer⟩ := Option.isSome_iff_exists.mp hanswered
    have hother : p.id ≠ q.id := by
      intro hid
      exact hrow (hprow ▸ congrArg StoredQuestion.row (List.inj_on_of_nodup_map h.ids hp hq hid))
    have hmem : p ∈ s.questions.map (onQuestion q.id .reopened) := List.mem_map.mpr ⟨p, hp, if_neg hother⟩
    obtain ⟨o', ho', hrow', hanswer'⟩ := (hsettled.same_answer p hmem answer).mp
      ((h.same p hp o ho hprow.symm).trans hanswer)
    obtain ⟨r, hr, rfl⟩ := List.mem_map.mp ho'
    have hkept : (r.cleared rule q.row).row = r.row := by
      simp only [StoredObservation.cleared]
      split <;> rfl
    cases h.row_eq hr ho (hkept.symm.trans (hrow'.trans hprow))
    rw [StoredObservation.cleared, if_pos (.inl hstamp)] at hanswer'
    cases hanswer'
  | addObservation => exact hnot trivial
  | recordQuestion => exact hnot trivial
  | attachQuestionRule => exact hnot trivial
  | attachAnswerRule => exact hnot trivial
  | close => exact hnot trivial

/-- Every state of a run is settled exactly when no call of it parts an answer from its row. -/
theorem settled_iff_meets (json : Text → Bool) (owner id openedAt : Text) (calls : List Call) :
    (∀ n, Settled json (run json (openImportSession owner id openedAt) (calls.take n))) ↔
      ∀ n c, calls[n]? = some c → Meets json (run json (openImportSession owner id openedAt) (calls.take n)) c :=
  forall_states_iff (fun _ h => h.to_settled) (fun _ _ h hmeets => h.step hmeets) (fun _ _ h hnot => h.spoiled hnot)
    (inv_openImportSession owner id openedAt)

/-- The scenario that answers a row and the rows like it is a run of the calls of the store. -/
theorem runUntilRefused_eq_run (json : Text → Bool) (s : Session) (calls : List Call) :
    ∃ n, runUntilRefused json s calls = run json s (calls.take n) := by
  induction calls generalizing s with
  | nil => exact ⟨0, rfl⟩
  | cons c calls ih =>
    simp only [runUntilRefused]
    cases happly : c.apply json s with
    | error e => exact ⟨0, rfl⟩
    | ok t =>
      obtain ⟨n, hn⟩ := ih t
      refine ⟨n + 1, ?_⟩
      rw [List.take_succ_cons, run, List.foldl_cons, Call.step, happly]
      exact hn

/-! Two rows that raise one question each. The answer of the first is given to both of them. -/

def sampleJson (text : Text) : Bool := text = "{}".toList || text = "[]".toList

def sampleAsking : NewQuestion := ⟨"{}".toList, "[]".toList, "Whose account is it?".toList⟩

def sampleId (last : Char) : Text := "00000000-0000-4000-8000-00000000000".toList ++ [last]

def sampleSession : Session := openImportSession (sampleId '1') (sampleId '2') "2024-01-01T00:00:00Z".toList

/-- A row is submitted and raises a question. -/
def submitCalls (row : Nat) (key id : Text) : List Call :=
  [.addObservation sampleSession.owner sampleSession.id (some key) false "{}".toList,
    .recordQuestion sampleSession.owner sampleSession.id row sampleAsking id "2024-01-01T00:00:00Z".toList]

def sampleQuestion (row : Nat) (id : Text) : StoredQuestion :=
  ⟨id, row, "{}".toList, "[]".toList, "Whose account is it?".toList, "2024-01-01T00:00:00Z".toList, none, none, none⟩

def answerBoth : List Call :=
  answerQuestionCalls sampleSession.owner sampleSession.id [sampleQuestion 2 (sampleId 'b')] (sampleQuestion 1 (sampleId 'a'))
    "{}".toList "2024-01-01T00:00:00Z".toList (some ⟨sampleId 'c', 1⟩)

def groupAnswered : List Call :=
  submitCalls 1 "k1".toList (sampleId 'a') ++ submitCalls 2 "k2".toList (sampleId 'b') ++ answerBoth ++
    [.withdrawAnswer sampleSession.owner sampleSession.id (sampleId 'a')]

/-- After the withdrawal neither row has an answer, the second question still has one, and it is refused another. -/
theorem sibling_left_answered :
    (run sampleJson sampleSession groupAnswered).questions.map StoredQuestion.answer = [none, some "{}".toList] ∧
      (run sampleJson sampleSession groupAnswered).observations.map StoredObservation.answer = [none, none] ∧
      answerImportQuestion sampleJson (run sampleJson sampleSession groupAnswered) sampleSession.owner sampleSession.id
        (sampleId 'b') "{}".toList "2024-01-02T00:00:00Z".toList =
          .error (.notFound "an unanswered import question" (sampleId 'b')) ∧
      ¬ Settled sampleJson (run sampleJson sampleSession groupAnswered) := by
  have hquestions : (run sampleJson sampleSession groupAnswered).questions.map StoredQuestion.answer =
      [none, some "{}".toList] := by decide
  have hrows : (run sampleJson sampleSession groupAnswered).observations.map StoredObservation.answer = [none, none] := by
    decide
  refine ⟨hquestions, hrows, by decide, fun hsettled => ?_⟩
  obtain ⟨q, hq, hanswer⟩ := List.mem_map.mp (hquestions.symm ▸ List.mem_of_getElem? (i := 1) rfl :
    some "{}".toList ∈ (run sampleJson sampleSession groupAnswered).questions.map StoredQuestion.answer)
  obtain ⟨o, ho, -, hrow⟩ := (hsettled.same_answer q hq _).mp hanswer
  have hmem := List.mem_map_of_mem (f := StoredObservation.answer) ho
  rw [hrows, hrow] at hmem
  simp at hmem

end ImportSession
end Iaam
