import Iaam.Lib.Runs
import Iaam.Theorems.TallySound

/-! The records of the tally on disk. A sound state is read back from its records as it was, and records that were torn apart
while they were written are refused. -/

namespace Iaam.Tally
open Outcome Fields

variable {now : Nat} {s s' : State} {h : HostState} {host : List Char} {moments : List Nat}

/-! ### The fields of a line -/

/-- A text that may stand in a field. -/
def Plain (text : List Char) : Prop := '\t' ∉ text ∧ '\n' ∉ text ∧ '\r' ∉ text

theorem plain_numeral (n : Nat) : Plain (numeral n) :=
  ⟨not_mem_numeral (by decide), not_mem_numeral (by decide), not_mem_numeral (by decide)⟩

theorem plain_of_validateAtom {value : List Char} {line : Nat} (h : validateAtom value line = .ok ()) :
    isAtom value = true ∧ Plain value := by
  have hatom : isAtom value = true := by
    by_contra hnot
    rw [validateAtom, if_neg hnot] at h
    cases h
  refine ⟨hatom, ?_⟩
  simp only [isAtom, Bool.and_eq_true, Bool.not_eq_true', List.any_eq_false, decide_eq_true_eq] at hatom
  exact ⟨fun hc => hatom.2 _ hc (by simp), fun hc => hatom.2 _ hc (by simp), fun hc => hatom.2 _ hc (by simp)⟩

theorem validateAtom_of_isAtom {value : List Char} (h : isAtom value = true) (line : Nat) : validateAtom value line = .ok () :=
  if_pos h

theorem plain_dash : Plain ['-'] := ⟨by decide, by decide, by decide⟩

theorem plain_formatOptionalNanos (value : Option Nat) : Plain (formatOptionalNanos value) := by
  cases value with
  | none => exact plain_dash
  | some n => exact plain_numeral n

theorem plain_formatTimestamps (moments : List Nat) : Plain (formatTimestamps moments) := by
  have hmem : ∀ c ∈ formatTimestamps moments, c = ',' ∨ c.isDigit = true := fun c hc => by
    rcases mem_joined hc with rfl | ⟨t, ht, hc⟩
    · exact Or.inl rfl
    · obtain ⟨n, -, rfl⟩ := List.mem_map.mp ht
      exact Or.inr (isDigit_of_mem_numeral hc)
  refine ⟨fun hc => ?_, fun hc => ?_, fun hc => ?_⟩ <;> exact absurd (hmem _ hc) (by decide)

theorem plain_token (reason : Option ClosureReason) : Plain (reason.elim ['-'] ClosureReason.token) := by
  cases reason with
  | none => exact plain_dash
  | some reason => cases reason <;> exact ⟨by decide, by decide, by decide⟩

theorem parseNumber_numeral {limit n : Nat} (hn : n ≤ limit) (line : Nat) (field : String) :
    parseNumber limit (numeral n) line field = .ok n := by
  rw [parseNumber, parseUnsigned_numeral hn]
  rfl

theorem parseOptionalNanos_format {value : Option Nat} (hvalue : ∀ n ∈ value, n ≤ nanosMax) (line : Nat) :
    parseOptionalNanos (formatOptionalNanos value) line = .ok value := by
  cases value with
  | none => rfl
  | some n =>
    have hdash : numeral n ≠ ['-'] := fun heq => not_mem_numeral (c := '-') (n := n) (by decide) (by rw [heq]; simp)
    change (if numeral n = ['-'] then Except.ok none else (parseNumber nanosMax (numeral n) line "time").map some) = _
    rw [if_neg hdash, parseNumber_numeral (hvalue n rfl)]
    rfl

theorem parseOptionalReason_token (reason : Option ClosureReason) (line : Nat) :
    parseOptionalReason (reason.elim ['-'] ClosureReason.token) line = .ok reason := by
  cases reason with
  | none => rfl
  | some reason => cases reason <;> rfl

theorem mapM_parseNumber (hmoments : ∀ m ∈ moments, m ≤ nanosMax) (line : Nat) (field : String) :
    (moments.map numeral).mapM (fun value => parseNumber nanosMax value line field) = .ok moments := by
  induction moments with
  | nil => rfl
  | cons m rest ih =>
    rw [List.map_cons, List.mapM_cons, parseNumber_numeral (hmoments m List.mem_cons_self),
      ih fun n hn => hmoments n (List.mem_cons_of_mem _ hn)]
    rfl

theorem adjacent_le (h : moments.Pairwise (· ≤ ·)) : ((moments.zip moments.tail).any fun pair => pair.2 < pair.1) = false := by
  induction moments with
  | nil => rfl
  | cons m rest ih =>
    cases rest with
    | nil => rfl
    | cons n rest =>
      have ih := ih h.of_cons
      rw [List.tail_cons] at ih ⊢
      rw [List.zip_cons_cons, List.any_cons, ih, Bool.or_false, decide_eq_false_iff_not, not_lt]
      exact List.rel_of_pairwise_cons h List.mem_cons_self

theorem parseTimestamps_format (ho : Ordered now moments) (hnow : now ≤ nanosMax) (line : Nat) (field : String) :
    parseTimestamps (formatTimestamps moments) line field = .ok moments := by
  have hparsed : parseNumbers (formatTimestamps moments) line field = .ok moments := by
    cases moments with
    | nil => rfl
    | cons m rest =>
      have hsplit : (formatTimestamps (m :: rest)).splitOn ',' = (m :: rest).map numeral := by
        refine splitOn_joined (by simp) fun t ht => ?_
        obtain ⟨n, -, rfl⟩ := List.mem_map.mp ht
        exact not_mem_numeral (by decide)
      have hne : formatTimestamps (m :: rest) ≠ [] := fun heq => by
        rw [heq] at hsplit
        exact numeral_ne_nil m (List.cons.inj hsplit).1.symm
      rw [parseNumbers, if_neg hne, hsplit]
      exact mapM_parseNumber (fun n hn => (ho.2 n hn).trans hnow) line field
  rw [parseTimestamps, hparsed]
  change (if ((moments.zip moments.tail).any fun pair => pair.2 < pair.1) = true then _ else _) = _
  rw [adjacent_le ho.1]
  rfl

/-! ### The lines -/

theorem splitOn_tabbed {fields : List (List Char)} (hne : fields ≠ []) (h : ∀ t ∈ fields, Plain t) :
    (tabbed fields).splitOn '\t' = fields := splitOn_joined hne fun t ht => (h t ht).1

theorem tabbed_oneLine {fields : List (List Char)} (h : ∀ t ∈ fields, Plain t) :
    '\n' ∉ tabbed fields ∧ '\r' ∉ tabbed fields := by
  constructor <;> intro hc <;> rcases mem_joined hc with heq | ⟨t, ht, hc⟩
  · exact absurd heq (by decide)
  · exact (h t ht).2.1 hc
  · exact absurd heq (by decide)
  · exact (h t ht).2.2 hc

def hostFields (host : List Char) (h : HostState) : List (List Char) :=
  ["host".toList, host, formatOptionalNanos h.lastSend, formatTimestamps h.dailySends, formatOptionalNanos h.closedUntil,
    h.closedReason.elim ['-'] ClosureReason.token, formatOptionalNanos h.pausedUntil, formatOptionalNanos h.pausedFor,
    formatTimestamps h.refusals, formatTimestamps h.rateLimits, formatOptionalNanos h.bootWaitUntil,
    formatOptionalNanos h.pendingSince, h.pendingBudgetKey.getD ['-']]

theorem hostLine_ok {line : List Char} (hline : hostLine host h = .ok line) :
    isAtom host = true ∧ (∀ key ∈ h.pendingBudgetKey, isAtom key = true) ∧ (∀ t ∈ hostFields host h, Plain t) ∧
      line = tabbed (hostFields host h) := by
  obtain ⟨⟨⟩, hhost, hline⟩ := bind_ok.mp hline
  obtain ⟨key, hkey, hline⟩ := bind_ok.mp hline
  cases hline
  obtain ⟨hatom, hplain⟩ := plain_of_validateAtom hhost
  have hboth : (∀ key ∈ h.pendingBudgetKey, isAtom key = true) ∧ key = h.pendingBudgetKey.getD ['-'] ∧ Plain key := by
    cases hpending : h.pendingBudgetKey with
    | none =>
      rw [hpending] at hkey
      cases hkey
      exact ⟨fun _ hmem => (by cases hmem), rfl, plain_dash⟩
    | some value =>
      rw [hpending, formatOptionalAtom] at hkey
      cases hvalid : validateAtom value 0 with
      | error e =>
        rw [hvalid] at hkey
        cases hkey
      | ok u =>
        rw [hvalid] at hkey
        cases hkey
        obtain ⟨hkeyAtom, hkeyPlain⟩ := plain_of_validateAtom hvalid
        exact ⟨fun key hmem => Option.some.inj hmem ▸ hkeyAtom, rfl, hkeyPlain⟩
  obtain ⟨hkeys, rfl, hkeyPlain⟩ := hboth
  refine ⟨hatom, hkeys, fun t ht => ?_, rfl⟩
  simp only [hostFields, List.mem_cons, List.not_mem_nil, or_false] at ht
  rcases ht with rfl | rfl | rfl | rfl | rfl | rfl | rfl | rfl | rfl | rfl | rfl | rfl | rfl
  · exact ⟨by decide, by decide, by decide⟩
  · exact hplain
  · exact plain_formatOptionalNanos _
  · exact plain_formatTimestamps _
  · exact plain_formatOptionalNanos _
  · exact plain_token _
  · exact plain_formatOptionalNanos _
  · exact plain_formatOptionalNanos _
  · exact plain_formatTimestamps _
  · exact plain_formatTimestamps _
  · exact plain_formatOptionalNanos _
  · exact plain_formatOptionalNanos _
  · exact hkeyPlain

theorem parseOptionalAtom_getD {key : Option (List Char)} (hdash : ∀ k ∈ key, k ≠ ['-']) (hatom : ∀ k ∈ key, isAtom k = true)
    (line : Nat) : parseOptionalAtom (key.getD ['-']) line = .ok key := by
  cases key with
  | none => rfl
  | some k =>
    rw [Option.getD_some, parseOptionalAtom, if_neg (hdash k rfl), validateAtom_of_isAtom (hatom k rfl)]
    rfl

theorem parseFields_host (hs : h.Sound now) (hnow : now ≤ nanosMax) (hatom : isAtom host = true)
    (hkeys : ∀ key ∈ h.pendingBudgetKey, isAtom key = true) (habsent : s.hosts.get? host = none) (line : Nat)
    (generation : Option Nat) :
    parseFields line s generation (hostFields host h) = .ok ({ s with hosts := s.hosts.insert host h }, generation) := by
  have hlast := parseOptionalNanos_format (fun n hn => (hs.lastSend n hn).trans hnow) line
  have hclosed := parseOptionalNanos_format (fun n hn => hs.fits n (Or.inl hn)) line
  have hreason := parseOptionalReason_token h.closedReason line
  have hpaused := parseOptionalNanos_format (fun n hn => hs.fits n (Or.inr (Or.inl hn))) line
  have hfor := parseOptionalNanos_format (fun n hn => hs.fits n (Or.inr (Or.inr (Or.inl hn)))) line
  have hboot := parseOptionalNanos_format (fun n hn => hs.fits n (Or.inr (Or.inr (Or.inr hn)))) line
  have hsince := parseOptionalNanos_format (fun n hn => (hs.pendingSince n hn).trans hnow) line
  have hkey := parseOptionalAtom_getD hs.key hkeys line
  have hpairs : validateOptionalPairs line h.closedUntil h.closedReason h.pausedUntil h.pausedFor = .ok () := by
    rw [validateOptionalPairs, if_neg (not_not.mpr hs.closed), if_neg (not_not.mpr hs.paused)]
  have hdaily := parseTimestamps_format hs.dailySends hnow line "daily send time"
  have hrefusals := parseTimestamps_format hs.refusals hnow line "refusal time"
  have hlimits := parseTimestamps_format hs.rateLimits hnow line "rate-limit time"
  have hinsert : s.insertHost host line h = .ok { s with hosts := s.hosts.insert host h } := by
    rw [State.insertHost, validateAtom_of_isAtom hatom, ok_bind, habsent]
    rfl
  rw [hostFields, parseFields, if_pos rfl, hclosed, ok_bind, hreason, ok_bind, hpaused, ok_bind, hfor, ok_bind, hpairs, ok_bind,
    hsince, ok_bind, hkey, ok_bind, if_neg (not_not.mpr hs.pending), hlast, ok_bind, hdaily, ok_bind, hrefusals, ok_bind,
    hlimits, ok_bind, hboot, ok_bind]
  change s.insertHost host line h >>= _ = _
  rw [hinsert]
  rfl

def budgetFields (key : SendKey) (sent : List Nat) : List (List Char) :=
  ["budget".toList, (ofLex key).1, (ofLex key).2, formatTimestamps sent]

theorem budgetLine_ok {key : SendKey} {sent : List Nat} {line : List Char} (hline : budgetLine key sent = .ok line) :
    isAtom (ofLex key).1 = true ∧ isAtom (ofLex key).2 = true ∧ (∀ t ∈ budgetFields key sent, Plain t) ∧
      line = tabbed (budgetFields key sent) := by
  obtain ⟨⟨⟩, hhost, hline⟩ := bind_ok.mp hline
  obtain ⟨⟨⟩, hkey, hline⟩ := bind_ok.mp hline
  cases hline
  obtain ⟨hhostAtom, hhostPlain⟩ := plain_of_validateAtom hhost
  obtain ⟨hkeyAtom, hkeyPlain⟩ := plain_of_validateAtom hkey
  refine ⟨hhostAtom, hkeyAtom, fun t ht => ?_, rfl⟩
  simp only [budgetFields, List.mem_cons, List.not_mem_nil, or_false] at ht
  rcases ht with rfl | rfl | rfl | rfl
  · exact ⟨by decide, by decide, by decide⟩
  · exact hhostPlain
  · exact hkeyPlain
  · exact plain_formatTimestamps _

theorem parseFields_budget {key : SendKey} {sent : List Nat} (ho : Ordered now sent) (hnow : now ≤ nanosMax)
    (hhost : isAtom (ofLex key).1 = true) (hkey : isAtom (ofLex key).2 = true) (habsent : s.sends.get? key = none) (line : Nat)
    (generation : Option Nat) :
    parseFields line s generation (budgetFields key sent) = .ok ({ s with sends := s.sends.insert key sent }, generation) := by
  have hsent := parseTimestamps_format ho hnow line "send time"
  have hlookup : (s.sends.get? (toLex ((ofLex key).1, (ofLex key).2))).isSome = false := by
    change (s.sends.get? key).isSome = false
    rw [habsent]
    rfl
  rw [budgetFields, parseFields, if_pos rfl, validateAtom_of_isAtom hhost, ok_bind, validateAtom_of_isAtom hkey, ok_bind,
    if_neg (by rw [hlookup]; exact Bool.false_ne_true), hsent, ok_bind]
  rfl

/-! ### The file -/

theorem parseLines_cons {generation generation' : Option Nat} {number : Nat} {fields : List (List Char)}
    (hne : fields ≠ []) (hplain : ∀ t ∈ fields, Plain t)
    (hfields : parseFields number s generation fields = .ok (s', generation')) (rest : List (List Char)) :
    parseLines s generation number (tabbed fields :: rest) = parseLines s' generation' (number + 1) rest := by
  rw [parseLines, splitOn_tabbed hne hplain, hfields, ok_bind]

theorem parseLines_hosts (hnow : now ≤ nanosMax) {entries : List (List Char × HostState)}
    (hsorted : entries.Pairwise fun l r => l.1 < r.1) (hsound : ∀ e ∈ entries, e.2.Sound now)
    {lines : List (List Char)} (hlines : List.Forall₂ (fun e line => hostLine e.1 e.2 = .ok line) entries lines)
    (habsent : ∀ e ∈ entries, s.hosts.get? e.1 = none) (generation : Option Nat) (number : Nat) (rest : List (List Char)) :
    parseLines s generation number (lines ++ rest) =
      parseLines { s with hosts := s.hosts.insertAll entries } generation (number + lines.length) rest := by
  induction entries generalizing s lines number with
  | nil =>
    cases hlines
    rfl
  | cons e entries ih =>
    obtain ⟨line, lines', hline, hlines', rfl⟩ := List.forall₂_cons_left_iff.mp hlines
    obtain ⟨hatom, hkeys, hplain, rfl⟩ := hostLine_ok hline
    have hlt : ∀ e' ∈ entries, e.1 < e'.1 := fun _ => List.rel_of_pairwise_cons hsorted
    rw [List.cons_append, parseLines_cons (by simp [hostFields]) hplain
      (parseFields_host (hsound e List.mem_cons_self) hnow hatom hkeys (habsent e List.mem_cons_self) number generation)]
    rw [ih hsorted.of_cons (fun e' he' => hsound e' (List.mem_cons_of_mem _ he')) hlines' fun e' he' => by
      rw [SortedMap.get?_insert_of_ne _ _ (hlt e' he').ne]
      exact habsent e' (List.mem_cons_of_mem _ he')]
    rw [List.length_cons, Nat.add_assoc, Nat.add_comm 1]
    rfl

theorem parseLines_budgets (hnow : now ≤ nanosMax) {entries : List (SendKey × List Nat)}
    (hsorted : entries.Pairwise fun l r => l.1 < r.1) (hordered : ∀ e ∈ entries, Ordered now e.2)
    {lines : List (List Char)} (hlines : List.Forall₂ (fun e line => budgetLine e.1 e.2 = .ok line) entries lines)
    (habsent : ∀ e ∈ entries, s.sends.get? e.1 = none) (generation : Option Nat) (number : Nat) :
    parseLines s generation number lines = .ok ({ s with sends := s.sends.insertAll entries }, generation) := by
  induction entries generalizing s lines number with
  | nil =>
    cases hlines
    rfl
  | cons e entries ih =>
    obtain ⟨line, lines', hline, hlines', rfl⟩ := List.forall₂_cons_left_iff.mp hlines
    obtain ⟨hhost, hkey, hplain, rfl⟩ := budgetLine_ok hline
    have hlt : ∀ e' ∈ entries, e.1 < e'.1 := fun _ => List.rel_of_pairwise_cons hsorted
    rw [parseLines_cons (by simp [budgetFields]) hplain
      (parseFields_budget (hordered e List.mem_cons_self) hnow hhost hkey (habsent e List.mem_cons_self) number generation)]
    rw [ih hsorted.of_cons (fun e' he' => hordered e' (List.mem_cons_of_mem _ he')) hlines' fun e' he' => by
      rw [SortedMap.get?_insert_of_ne _ _ (hlt e' he').ne]
      exact habsent e' (List.mem_cons_of_mem _ he')]
    rfl

/-- The lines before those of the hosts. -/
def markLines (generation : Nat) (bootId : List Char) (highWater : Nat) : List (List Char) :=
  [tabbed ["generation".toList, numeral generation], tabbed ["boot".toList, bootId],
    tabbed ["high-water".toList, numeral highWater]]

theorem encode_ok {text : List Char} (h : s.encode = .ok text) :
    ∃ bootId highWater hosts budgets, s.bootId = some bootId ∧ s.bootHighWater = some highWater ∧ isAtom bootId = true ∧
      Plain bootId ∧ List.Forall₂ (fun e line => hostLine e.1 e.2 = .ok line) s.hosts.entries hosts ∧
      List.Forall₂ (fun e line => budgetLine e.1 e.2 = .ok line) s.sends.entries budgets ∧
      text = unlines (header.toList :: (markLines s.generation bootId highWater ++ (hosts ++ budgets))) := by
  have hsome : ∀ {α : Type} {o : Option α} {why : Corruption} {a : α}, okOr why o = .ok a → o = some a := by
    intro α o why a ho
    cases o with
    | none => cases ho
    | some a' =>
      cases ho
      rfl
  obtain ⟨bootId, hboot, h⟩ := bind_ok.mp h
  obtain ⟨highWater, hhigh, h⟩ := bind_ok.mp h
  obtain ⟨⟨⟩, hatom, h⟩ := bind_ok.mp h
  obtain ⟨hosts, hhosts, h⟩ := bind_ok.mp h
  obtain ⟨budgets, hbudgets, h⟩ := bind_ok.mp h
  obtain ⟨hidAtom, hidPlain⟩ := plain_of_validateAtom hatom
  refine ⟨bootId, highWater, hosts, budgets, hsome hboot, hsome hhigh, hidAtom, hidPlain, Runs.mapM_ok.mp hhosts,
    Runs.mapM_ok.mp hbudgets, ?_⟩
  rw [← Except.ok.inj h, List.append_assoc]
  rfl

theorem parseLines_marks {generation highWater : Nat} {bootId : List Char} (hgeneration : generation ≤ generationMax)
    (hatom : isAtom bootId = true) (hplain : Plain bootId) (hhigh : highWater ≤ nanosMax) (rest : List (List Char)) :
    parseLines {} none 2 (markLines generation bootId highWater ++ rest) =
      parseLines { bootId := some bootId, bootHighWater := some highWater } (some generation) 5 rest := by
  have hgen : ∀ t ∈ ["generation".toList, numeral generation], Plain t := by
    simp only [List.forall_mem_cons, List.not_mem_nil, false_imp_iff, implies_true, and_true]
    exact ⟨⟨by decide, by decide, by decide⟩, plain_numeral _⟩
  have hboot : ∀ t ∈ ["boot".toList, bootId], Plain t := by
    simp only [List.forall_mem_cons, List.not_mem_nil, false_imp_iff, implies_true, and_true]
    exact ⟨⟨by decide, by decide, by decide⟩, hplain⟩
  have hwater : ∀ t ∈ ["high-water".toList, numeral highWater], Plain t := by
    simp only [List.forall_mem_cons, List.not_mem_nil, false_imp_iff, implies_true, and_true]
    exact ⟨⟨by decide, by decide, by decide⟩, plain_numeral _⟩
  have hfirst : parseFields 2 {} none ["generation".toList, numeral generation] = .ok ({}, some generation) := by
    rw [parseFields, if_pos ⟨rfl, rfl⟩, parseNumber_numeral hgeneration, ok_bind]
  have hsecond : parseFields 3 {} (some generation) ["boot".toList, bootId] =
      .ok ({ bootId := some bootId }, some generation) := by
    rw [parseFields, if_neg (fun hand => absurd hand.1 (by decide)), if_pos ⟨rfl, rfl⟩, validateAtom_of_isAtom hatom, ok_bind]
  have hthird : parseFields 4 { bootId := some bootId } (some generation) ["high-water".toList, numeral highWater] =
      .ok ({ bootId := some bootId, bootHighWater := some highWater }, some generation) := by
    rw [parseFields, if_neg (fun hand => absurd hand.1 (by decide)), if_neg (fun hand => absurd hand.1 (by decide)),
      if_pos ⟨rfl, rfl⟩, parseNumber_numeral hhigh, ok_bind]
  simp only [markLines, List.cons_append, List.nil_append]
  rw [parseLines_cons (by simp) hgen hfirst, parseLines_cons (by simp) hboot hsecond, parseLines_cons (by simp) hwater hthird]

/-- The records of a sound state are read back as it. -/
theorem parse_encode {text : List Char} (hs : s.Sound now) (hnow : now ≤ nanosMax) (hgeneration : s.generation ≤ generationMax)
    (hstands : s.pairWasEmpty = false) (hencode : s.encode = .ok text) : State.parse text = .ok s := by
  obtain ⟨bootId, highWater, hosts, budgets, hboot, hhigh, hatom, hplain, hhosts, hbudgets, rfl⟩ := encode_ok hencode
  obtain rfl : now = highWater := Option.some.inj (hs.highWater.symm.trans hhigh)
  have hlines : ∀ t ∈ header.toList :: (markLines s.generation bootId now ++ (hosts ++ budgets)), '\n' ∉ t ∧ '\r' ∉ t := by
    intro t ht
    rcases List.mem_cons.mp ht with rfl | ht
    · exact ⟨by decide, by decide⟩
    · rcases List.mem_append.mp ht with ht | ht
      · simp only [markLines, List.mem_cons, List.not_mem_nil, or_false] at ht
        rcases ht with rfl | rfl | rfl
        all_goals
          refine tabbed_oneLine ?_
          simp only [List.forall_mem_cons, List.not_mem_nil, false_imp_iff, implies_true, and_true]
        · exact ⟨⟨by decide, by decide, by decide⟩, plain_numeral _⟩
        · exact ⟨⟨by decide, by decide, by decide⟩, hplain⟩
        · exact ⟨⟨by decide, by decide, by decide⟩, plain_numeral _⟩
      · rcases List.mem_append.mp ht with ht | ht
        · obtain ⟨e, -, hline⟩ := Runs.exists_left hhosts ht
          obtain ⟨-, -, hfields, rfl⟩ := hostLine_ok hline
          exact tabbed_oneLine hfields
        · obtain ⟨e, -, hline⟩ := Runs.exists_left hbudgets ht
          obtain ⟨-, -, hfields, rfl⟩ := budgetLine_ok hline
          exact tabbed_oneLine hfields
  have hne : unlines (header.toList :: (markLines s.generation bootId now ++ (hosts ++ budgets))) ≠ [] := by
    rw [unlines, List.flatMap_cons]
    simp
  have hhostEntries : ∀ e ∈ s.hosts.entries, e.2.Sound now := fun e he =>
    hs.hosts e.1 e.2 (SortedMap.mem_entries_iff.mp he)
  have hsendEntries : ∀ e ∈ s.sends.entries, Ordered now e.2 := fun e he =>
    hs.sends e.1 e.2 (SortedMap.mem_entries_iff.mp he)
  rw [State.parse, if_neg hne, lines_unlines hlines]
  dsimp only
  rw [if_neg (not_not.mpr rfl), parseLines_marks hgeneration hatom hplain hnow,
    parseLines_hosts hnow s.hosts.sorted hhostEntries hhosts (fun _ _ => rfl),
    parseLines_budgets hnow s.sends.sorted hsendEntries hbudgets (fun _ _ => rfl), ok_bind]
  obtain ⟨generation, bootId', highWater', hosts', sends', stands'⟩ := s
  cases hboot
  cases hhigh
  cases hstands
  simp only [okOr, ok_bind, SortedMap.insertAll_entries, reduceCtorEq, if_false]

/-! ### Both records -/

theorem parseGeneration_numeral {n : Nat} (hn : n ≤ generationMax) : parseGeneration (numeral n ++ ['\n']) = .ok n := by
  have hfeed : '\n' ∉ numeral n := not_mem_numeral (by decide)
  rw [parseGeneration]
  simp only [List.getLast?_concat, if_true, List.dropLast_concat]
  rw [if_neg (by simp [numeral_ne_nil, hfeed]), parseNumber_numeral hn]

/-- The records of a sound state. -/
structure Written (pair : Pair) (s : State) : Prop where
  sound : ∃ now, s.Sound now ∧ now ≤ nanosMax
  generation : s.generation ≤ generationMax
  stands : s.pairWasEmpty = false
  persisted : persist s = .ok pair

theorem Written.tally_ne_nil {pair : Pair} (hw : Written pair s) :
    State.parse pair.tally = .ok s ∧ pair.tally ≠ [] ∧ pair.generation = numeral s.generation ++ ['\n'] := by
  obtain ⟨⟨now, hsound, hnow⟩, hgeneration, hstands, hpersisted⟩ := hw
  obtain ⟨tally, hencode, hpair⟩ := bind_ok.mp hpersisted
  cases hpair
  refine ⟨parse_encode hsound hnow hgeneration hstands hencode, fun hnil => ?_, rfl⟩
  obtain ⟨bootId, highWater, hosts, budgets, -, -, -, -, -, -, heq⟩ := encode_ok hencode
  dsimp only at hnil
  rw [hnil, unlines, List.flatMap_cons] at heq
  simp at heq

/-- What is read from the records of a state is that state. -/
theorem Written.read {pair : Pair} {process process' : Nat} {t : State} (hw : Written pair s)
    (hread : readState pair process = .ok (t, process')) : t = s := by
  obtain ⟨hparse, hne, hgeneration⟩ := hw.tally_ne_nil
  rw [readState, hparse, ok_bind, if_neg hne, hgeneration, parseGeneration_numeral hw.generation, ok_bind] at hread
  split_ifs at hread
  all_goals cases hread
  rfl

/-- A write that was cut off between its two files leaves records that are refused. -/
theorem Written.torn {pair : Pair} {generation : List Char} (hw : Written pair s)
    (hnext : ∃ n, n ≤ generationMax ∧ n ≠ s.generation ∧ generation = numeral n ++ ['\n']) (process : Nat) :
    ∃ why, readState ⟨pair.tally, generation⟩ process = corrupt why := by
  obtain ⟨hparse, hne, -⟩ := hw.tally_ne_nil
  obtain ⟨n, hn, hdiffer, rfl⟩ := hnext
  refine ⟨.rolledBack n s.generation, ?_⟩
  rw [readState, hparse, ok_bind, if_neg hne, parseGeneration_numeral hn, ok_bind, if_pos hdiffer]

theorem torn_empty {generation : List Char} (hne : generation ≠ []) (process : Nat) :
    ∃ why, readState ⟨[], generation⟩ process = corrupt why := by
  refine ⟨.emptied, ?_⟩
  rw [readState, State.parse, if_pos rfl, ok_bind, if_pos rfl, if_pos hne]

theorem writeNext_ok {pair : Pair} {generation : Nat} (h : writeNext s = .ok (pair, generation)) (hs : s.Sound now)
    (hnow : now ≤ nanosMax) (hstands : s.pairWasEmpty = false) :
    Written pair { s with generation := s.generation + 1 } ∧ s.generation + 1 ≤ generationMax := by
  have hroom : s.generation < generationMax := by
    by_contra hfull
    rw [writeNext, if_neg hfull] at h
    cases h
  rw [writeNext, if_pos hroom] at h
  obtain ⟨pair', hpersist, h⟩ := bind_ok.mp h
  cases h
  exact ⟨⟨⟨now, ⟨hs.highWater, hs.hosts, hs.sends⟩, hnow⟩, hroom, hstands, hpersist⟩, hroom⟩

end Iaam.Tally
