import Mathlib.Data.Char
import Mathlib.Data.List.Lex
import Upstat.BacktrackingPatterns
import Upstat.EvaluationWindows
import Upstat.NotifierPrograms
import Upstat.OrgOwners
import Upstat.TrimmedLists

/-! # Synthetic checks (`service/synthetics.go`, `probe/run.py`)

The service takes the steps of a check and stores what the probe finds; the probe runs them. Both
read assertions by a regular expression, each in its own language's way. -/
namespace Upstat.SyntheticRuns

open BacktrackingPatterns TrimmedLists
open OrgOwners (Error invalid)

abbrev Text := List Char

/-! ## Assertions -/

def isName (c : Char) : Bool := c.isAlphanum || c = '-'

def notNewline (c : Char) : Bool := c ≠ '\n'

/-- `\s` of Go. -/
def goBlank (c : Char) : Bool := c ∈ ['\t', '\n', '\x0c', '\r', ' ']

def subject : Pattern Char :=
  oneOf [word "status".toList, word "body".toList, thenTake (word "header.".toList) (plus isName), word "duration_ms".toList]

def operators : List Text := ["==", "!=", "<=", ">=", "<", ">", "contains"].map String.toList

def operator : Pattern Char := oneOf (operators.map word)

structure Assertion where
  subject : Text
  op : Text
  expected : Text
  deriving DecidableEq

/-- The ways of `^(…)\s*(…)\s*(.+)`, each with what is left. -/
def ways (blank : Char → Bool) (s : Text) : List (Assertion × Text) :=
  (subject s).flatMap fun a => (star blank a.2).flatMap fun b => (operator b.2).flatMap fun c =>
    (star blank c.2).flatMap fun d => (plus notNewline d.2).map fun e => (⟨a.1, c.1, e.1⟩, e.2)

/-- `strings.TrimSpace` -/
def trimSpace (s : Text) : Text := trim EvaluationWindows.isSpace s

/-- `str.strip` -/
def strip (s : Text) : Text := trim NotifierPrograms.isSpace s

/-- `assertionRe.MatchString` -/
def accepted (expr : Text) : Bool := (ways goBlank expr).any (·.2 = [])

/-- `_ASSERTION.match`, whose `$` is also before a last newline. -/
def matched (expr : Text) : Option Assertion :=
  ((ways NotifierPrograms.isSpace expr).find? fun w => w.2 = [] ∨ w.2 = ['\n']).map Prod.fst

/-! ## What the service stores -/

structure StepInput where
  kind : String
  method : String
  url : String
  expression : Text
  waitMs : Option ℤ

structure Step where
  kind : String
  summary : Text
  method : String := ""
  url : String := ""
  expression : Text := []
  waitMs : Option ℤ := none
  deriving DecidableEq

structure BrowserConfig where
  url : String
  viewport : String
  screenshotOnFailure : Bool

structure SyntheticCheck where
  kind : String
  steps : List Step
  browser : Option BrowserConfig

section
variable (validateTarget : String → Option Error)

/-- The step of a number. -/
def buildStep (st : StepInput) (i : ℕ) : Except Error Step :=
  if st.kind = "http" then
    if st.method ≠ "GET" ∧ st.method ≠ "POST" ∧ st.method ≠ "HEAD" then
      .error (invalid "bad_shape" s!"step {i}: method must be GET, POST or HEAD")
    else
      match validateTarget st.url with
      | some e => .error e
      | none => .ok { kind := st.kind, method := st.method, url := st.url, summary := (st.method ++ " " ++ st.url).toList }
  else if st.kind = "assertion" then
    let expr := trimSpace st.expression
    if accepted expr = false then .error (invalid "invalid_assertion" s!"step {i}: assertions look like status == 200")
    else .ok { kind := st.kind, expression := expr, summary := expr }
  else if st.kind = "wait" then
    match st.waitMs with
    | none => .error (invalid "bad_shape" s!"step {i}: wait is 0-30000 ms")
    | some w =>
      if w < 0 ∨ 30000 < w then .error (invalid "bad_shape" s!"step {i}: wait is 0-30000 ms")
      else .ok { kind := st.kind, waitMs := some w, summary := s!"wait {w} ms".toList }
  else .error (invalid "bad_shape" s!"step {i}: kind must be http, assertion or wait")

/-- The loop over the steps, from the step of a number on. -/
def buildFrom (i : ℕ) : List StepInput → Except Error (List Step)
  | [] => .ok []
  | st :: rest => do
    let step ← buildStep validateTarget st i
    let steps ← buildFrom (i + 1) rest
    return step :: steps

def buildSteps (inp : List StepInput) : Except Error (List Step) :=
  if 20 < inp.length then .error (invalid "bad_shape" "a check has at most 20 steps") else buildFrom validateTarget 1 inp

end

/-! ## What the probe runs -/

/-- Python's doubles. -/
structure Doubles (F : Type*) where
  parse : Text → Option F
  str : F → Text
  ofNat : ℕ → F
  eq : F → F → Bool
  lt : F → F → Bool
  le : F → F → Bool

structure Response (F : Type*) where
  statusCode : ℕ
  totalMs : F
  headers : List (Text × Text)
  /-- Decoded. -/
  body : Text
  cause : String

inductive Actual (F : Type*) where
  | number (n : F) (str : Text)
  | text (t : Text)

def Actual.str {F : Type*} : Actual F → Text
  | .number _ str => str
  | .text t => t

structure StepResult where
  index : ℕ
  kind : String
  summary : Text
  status : String
  durationMs : ℕ
  deriving DecidableEq

structure RunResponse where
  steps : List StepResult
  screenshotStep : ℕ

/-- What a step that begins finds. -/
structure World (F : Type*) where
  doubles : Doubles F
  /-- The answer to the fetch of a step, if it does not raise. -/
  fetch : ℕ → String → String → Option (Response F)
  durationMs : ℕ → ℕ

section
variable {F : Type*} (x : Doubles F) (w : World F)

def Actual.float : Actual F → Option F
  | .number n _ => some n
  | .text t => x.parse t

/-- What the operators but `contains` find. -/
def holds {α : Type*} (eq lt le : α → α → Bool) (op : Text) (a e : α) : Bool :=
  if op = "==".toList then eq a e
  else if op = "!=".toList then !eq a e
  else if op = "<".toList then lt a e
  else if op = "<=".toList then le a e
  else if op = ">".toList then lt e a
  else le e a

def compare (actual : Actual F) (op expected : Text) : Bool :=
  let expected := trim (· = '"') (strip expected)
  if op = "contains".toList then expected <:+: actual.str
  else
    match actual.float x, x.parse expected with
    | some a, some e => holds x.eq x.lt x.le op a e
    | _, _ => holds (· = ·) (· < ·) (· ≤ ·) op actual.str expected

def actualOf (last : Response F) (subject : Text) : Actual F :=
  if subject = "status".toList then .number (x.ofNat last.statusCode) (toString last.statusCode).toList
  else if subject = "duration_ms".toList then .number last.totalMs (x.str last.totalMs)
  else if subject = "body".toList then .text last.body
  else .text ((last.headers.lookup ((subject.drop "header.".length).map Char.toLower)).getD [])

def assertOn (expression : Text) (last : Option (Response F)) : Bool :=
  match matched (strip expression), last with
  | some m, some r => compare x (actualOf x r m.subject) m.op m.expected
  | _, _ => false

def Response.ok (r : Response F) : Bool := r.cause = "" ∧ 0 < r.statusCode ∧ r.statusCode < 400

def Step.fetch (st : Step) (i : ℕ) : Option (Response F) := w.fetch i st.url (if st.method = "" then "GET" else st.method)

/-- A step: whether it passes, and the latest response. -/
def runStep (i : ℕ) (last : Option (Response F)) (st : Step) : Bool × Option (Response F) :=
  if st.kind = "http" then
    match st.fetch w i with
    | none => (false, last)
    | some r => (r.ok, some r)
  else if st.kind = "assertion" then (assertOn w.doubles st.expression last, last)
  else (st.kind = "wait", last)

def runSteps (i : ℕ) (last : Option (Response F)) : List Step → List StepResult
  | [] => []
  | st :: rest =>
    let (passed, last') := runStep w i last st
    ⟨i, st.kind, st.summary, if passed then "pass" else "fail", w.durationMs i⟩ :: if passed then runSteps (i + 1) last' rest else []

/-- What a wait takes, in milliseconds. -/
def waits (st : Step) : ℤ := min (max (st.waitMs.getD 0) 0) 30000

def run (check : SyntheticCheck) : RunResponse :=
  if check.kind = "browser" then
    ⟨[⟨1, "http", ("open " ++ (check.browser.map BrowserConfig.url).getD "").toList, "fail", 0⟩], 0⟩
  else ⟨runSteps w 1 none check.steps, 0⟩

structure SyntheticRun where
  status : String
  totalMs : ℕ
  steps : List StepResult
  stepsTotal : ℕ
  /-- The step and the viewport. -/
  failureScreenshot : Option (ℕ × String)

def runSynthetic (check : SyntheticCheck) : SyntheticRun :=
  let res := run w check
  let status := if res.steps.any (·.status = "fail") then "fail" else "pass"
  { status
    totalMs := (res.steps.map StepResult.durationMs).sum
    steps := res.steps
    stepsTotal := if check.kind = "browser" ∧ check.steps.length = 0 then 1 else check.steps.length
    failureScreenshot :=
      if status = "fail" ∧ 0 < res.screenshotStep then
        (check.browser.filter BrowserConfig.screenshotOnFailure).map fun b => (res.screenshotStep, b.viewport)
      else none }

end

/-! ## How assertions are read -/

def IsSubject (t : Text) : Prop :=
  t = "status".toList ∨ t = "body".toList ∨ (∃ n, t = "header.".toList ++ n ∧ n ≠ [] ∧ ∀ c ∈ n, isName c = true) ∨ t = "duration_ms".toList

/-- The text is an assertion with blanks around its operator, and a rest. -/
def Reads (blank : Char → Bool) (s : Text) (a : Assertion) (rest : Text) : Prop :=
  ∃ b₁ b₂, s = a.subject ++ (b₁ ++ (a.op ++ (b₂ ++ (a.expected ++ rest)))) ∧ IsSubject a.subject ∧ (∀ c ∈ b₁, blank c = true) ∧
    a.op ∈ operators ∧ (∀ c ∈ b₂, blank c = true) ∧ (∀ c ∈ a.expected, notNewline c = true) ∧ a.expected ≠ []

section
variable {blank : Char → Bool} {s m r : Text} {a : Assertion}

theorem mem_subject : (m, r) ∈ subject s ↔ s = m ++ r ∧ IsSubject m := by
  have hheader : (m, r) ∈ thenTake (word "header.".toList) (plus isName) s ↔
      s = m ++ r ∧ ∃ n, m = "header.".toList ++ n ∧ n ≠ [] ∧ ∀ c ∈ n, isName c = true := by
    rw [mem_thenTake]
    constructor
    · rintro ⟨⟨h, t⟩, hh, ⟨n, v⟩, hn, heq⟩
      obtain ⟨rfl, rfl⟩ := mem_word.mp hh
      obtain ⟨⟨rfl, hname⟩, hne⟩ := mem_plus.mp hn
      obtain ⟨rfl, rfl⟩ := Prod.mk.inj heq
      exact ⟨(List.append_assoc _ _ _).symm, n, rfl, hne, hname⟩
    · rintro ⟨rfl, n, rfl, hne, hname⟩
      exact ⟨_, mem_word.mpr ⟨rfl, List.append_assoc _ _ _⟩, _, mem_plus.mpr ⟨⟨rfl, hname⟩, hne⟩, rfl⟩
  have hword (u : Text) : (m, r) ∈ word u s ↔ s = m ++ r ∧ m = u := by
    rw [mem_word]
    constructor <;> rintro ⟨rfl, rfl⟩ <;> exact ⟨rfl, rfl⟩
  simp only [subject, mem_oneOf, List.mem_cons, List.not_mem_nil, or_false, exists_eq_or_imp, exists_eq_left, hheader, hword, IsSubject,
    ← and_or_left]

theorem mem_operator : (m, r) ∈ operator s ↔ s = m ++ r ∧ m ∈ operators := by
  rw [operator, mem_oneOf]
  constructor
  · rintro ⟨p, hp, hm⟩
    obtain ⟨u, hu, rfl⟩ := List.mem_map.mp hp
    obtain ⟨rfl, rfl⟩ := mem_word.mp hm
    exact ⟨rfl, hu⟩
  · rintro ⟨rfl, hm⟩
    exact ⟨_, List.mem_map_of_mem hm, mem_word.mpr ⟨rfl, rfl⟩⟩

theorem mem_ways : (a, r) ∈ ways blank s ↔ Reads blank s a r := by
  simp only [ways, List.mem_flatMap, List.mem_map, Prod.exists]
  constructor
  · rintro ⟨subj, r₁, hsubj, b₁, r₂, hb₁, op, r₃, hop, b₂, r₄, hb₂, e, r₅, he, heq⟩
    obtain ⟨rfl, hsubject⟩ := mem_subject.mp hsubj
    obtain ⟨rfl, hblank₁⟩ := mem_star.mp hb₁
    obtain ⟨rfl, hoperator⟩ := mem_operator.mp hop
    obtain ⟨rfl, hblank₂⟩ := mem_star.mp hb₂
    obtain ⟨⟨rfl, hline⟩, hne⟩ := mem_plus.mp he
    obtain ⟨rfl, rfl⟩ := Prod.mk.inj heq
    exact ⟨b₁, b₂, rfl, hsubject, hblank₁, hoperator, hblank₂, hline, hne⟩
  · rintro ⟨b₁, b₂, rfl, hsubj, hb₁, hop, hb₂, hline, hne⟩
    exact ⟨_, _, mem_subject.mpr ⟨rfl, hsubj⟩, _, _, mem_star.mpr ⟨rfl, hb₁⟩, _, _, mem_operator.mpr ⟨rfl, hop⟩, _, _,
      mem_star.mpr ⟨rfl, hb₂⟩, _, _, mem_plus.mpr ⟨⟨rfl, hline⟩, hne⟩, rfl⟩

theorem accepted_iff : accepted s = true ↔ ∃ a, Reads goBlank s a [] := by
  simp only [accepted, List.any_eq_true, Prod.exists, decide_eq_true_iff, mem_ways]
  constructor
  · rintro ⟨a, r, hreads, rfl⟩
    exact ⟨a, hreads⟩
  · rintro ⟨a, hreads⟩
    exact ⟨a, [], hreads, rfl⟩

theorem isSpace_of_goBlank {c : Char} (h : goBlank c = true) : NotifierPrograms.isSpace c = true := by
  simp only [goBlank, List.mem_cons, List.not_mem_nil, or_false, decide_eq_true_iff] at h
  rcases h with rfl | rfl | rfl | rfl | rfl <;> decide

theorem Reads.py (h : Reads goBlank s a r) : Reads NotifierPrograms.isSpace s a r := by
  obtain ⟨b₁, b₂, hs, hsubj, hb₁, hop, hb₂, hrest⟩ := h
  exact ⟨b₁, b₂, hs, hsubj, fun c hc => isSpace_of_goBlank (hb₁ c hc), hop, fun c hc => isSpace_of_goBlank (hb₂ c hc), hrest⟩

/-- What is stripped has no newline at its end. -/
theorem strip_ne_line (h : strip s = s) (t : Text) : s ≠ t ++ ['\n'] := by
  rintro rfl
  have hlen : (strip t).length ≤ t.length :=
    (List.rdropWhile_prefix _ _).length_le.trans (List.dropWhile_suffix _).length_le
  have hline : strip (t ++ ['\n']) = strip t := trim_concat (by decide) t
  rw [hline] at h
  rw [h, List.length_append] at hlen
  simp at hlen

/-- What the service accepts the probe reads. -/
theorem matched_of_accepted (h : accepted s = true) (hstrip : strip s = s) :
    ∃ a, matched (strip s) = some a ∧ Reads NotifierPrograms.isSpace s a [] := by
  obtain ⟨a, hreads⟩ := accepted_iff.mp h
  have hsome : ((ways NotifierPrograms.isSpace s).find? fun w => w.2 = [] ∨ w.2 = ['\n']).isSome = true :=
    List.find?_isSome.mpr ⟨(a, []), mem_ways.mpr hreads.py, by simp⟩
  obtain ⟨⟨a', r⟩, hfind⟩ := Option.isSome_iff_exists.mp hsome
  have hreads' := mem_ways.mp (List.mem_of_find?_eq_some hfind)
  have hend : r = [] ∨ r = ['\n'] := by simpa using List.find?_some hfind
  refine ⟨a', by rw [hstrip, matched, hfind]; rfl, ?_⟩
  rcases hend with rfl | rfl
  · exact hreads'
  · obtain ⟨b₁, b₂, hs, -⟩ := hreads'
    refine absurd ?_ (strip_ne_line hstrip (a'.subject ++ (b₁ ++ (a'.op ++ (b₂ ++ a'.expected)))))
    rw [hs]
    simp

/-- An assertion as it is plainly written. -/
def print (a : Assertion) : Text := a.subject ++ ' ' :: (a.op ++ ' ' :: a.expected)

structure Written (a : Assertion) : Prop where
  subject : IsSubject a.subject
  op : a.op ∈ operators
  expected : a.expected ≠ []
  line : ∀ c ∈ a.expected, notNewline c = true
  begins : ∀ c ∈ a.expected.head?, NotifierPrograms.isSpace c = false

theorem takeWhile_one {p : Char → Bool} {c : Char} (hc : p c = true) (hs : ∀ d ∈ s.head?, p d = false) :
    (c :: s).takeWhile p = [c] ∧ (c :: s).dropWhile p = s := by
  cases s with
  | nil => exact ⟨by simp [hc], by simp [hc]⟩
  | cons d s =>
    have hd : p d = false := hs d rfl
    exact ⟨by simp [hc, hd], by simp [hc, hd]⟩

theorem subject_head (hm : IsSubject m) (r : Text) : (subject (m ++ ' ' :: r)).head? = some (m, ' ' :: r) := by
  rcases hm with rfl | rfl | ⟨n, rfl, hne, hname⟩ | rfl
  · simp [subject, oneOf, word]
  · simp [subject, oneOf, word]
  · have hstatus : word "status".toList ("header.".toList ++ n ++ ' ' :: r) = [] := by simp [word]
    have hbody : word "body".toList ("header.".toList ++ n ++ ' ' :: r) = [] := by simp [word]
    have htake : (n ++ ' ' :: r).takeWhile isName = n := by simp [List.takeWhile_append_of_pos hname, isName]
    have hdrop : (n ++ ' ' :: r).dropWhile isName = ' ' :: r := by simp [List.dropWhile_append_of_pos hname, isName]
    have hplus := plus_head (htake.symm ▸ hne)
    rw [htake, hdrop] at hplus
    have hword : (word "header.".toList ("header.".toList ++ n ++ ' ' :: r)).head? = some ("header.".toList, n ++ ' ' :: r) := by simp [word]
    have hheader : (thenTake (word "header.".toList) (plus isName) ("header.".toList ++ n ++ ' ' :: r)).head? =
        some ("header.".toList ++ n, ' ' :: r) := by
      refine head?_flatMap hword ?_
      rw [List.head?_map, hplus]
      rfl
    rw [subject, oneOf_skip hstatus, oneOf_skip hbody]
    exact oneOf_head hheader _
  · simp [subject, oneOf, word, thenTake]

theorem operator_head (hm : m ∈ operators) (r : Text) : (operator (m ++ ' ' :: r)).head? = some (m, ' ' :: r) := by
  simp only [operators, List.map_cons, List.map_nil, List.mem_cons, List.not_mem_nil, or_false] at hm
  rcases hm with rfl | rfl | rfl | rfl | rfl | rfl | rfl <;> simp [operator, operators, oneOf, word]

theorem operator_begins (hm : m ∈ operators) (r : Text) : ∀ c ∈ (m ++ r).head?, NotifierPrograms.isSpace c = false := by
  simp only [operators, List.map_cons, List.map_nil, List.mem_cons, List.not_mem_nil, or_false] at hm
  rcases hm with rfl | rfl | rfl | rfl | rfl | rfl | rfl <;> simp [NotifierPrograms.isSpace]

/-- The first way of a plainly written assertion is its own. -/
theorem ways_print (h : Written a) : (ways NotifierPrograms.isSpace (print a)).head? = some (a, []) := by
  have hspace : NotifierPrograms.isSpace ' ' = true := by decide
  obtain ⟨htake₁, hdrop₁⟩ := takeWhile_one hspace (operator_begins h.op (' ' :: a.expected))
  obtain ⟨htake₂, hdrop₂⟩ := takeWhile_one hspace h.begins
  have hb₁ := star_head NotifierPrograms.isSpace (' ' :: (a.op ++ ' ' :: a.expected))
  have hb₂ := star_head NotifierPrograms.isSpace (' ' :: a.expected)
  have hline : a.expected.takeWhile notNewline = a.expected := List.takeWhile_eq_self_iff.mpr h.line
  have hexpected := plus_head (hline.symm ▸ h.expected)
  rw [htake₁, hdrop₁] at hb₁
  rw [htake₂, hdrop₂] at hb₂
  rw [hline, List.dropWhile_eq_nil_iff.mpr h.line] at hexpected
  refine head?_flatMap (subject_head h.subject _) (head?_flatMap hb₁ (head?_flatMap (operator_head h.op _) (head?_flatMap hb₂ ?_)))
  rw [List.head?_map, hexpected]
  rfl

theorem matched_print (h : Written a) : matched (print a) = some a := by
  obtain ⟨rest, hrest⟩ := List.head?_eq_some_iff.mp (ways_print h)
  rw [matched, hrest, List.find?_cons_of_pos (by simp)]
  rfl

end

/-! ## Built steps -/

/-- What the service has seen to of a step. -/
inductive Built : Step → Prop where
  | http {st : Step} (kind : st.kind = "http") : Built st
  | assertion {st : Step} (kind : st.kind = "assertion") (expression : accepted st.expression = true) : Built st
  | wait {st : Step} {ms : ℤ} (kind : st.kind = "wait") (waitMs : st.waitMs = some ms) (low : 0 ≤ ms) (high : ms ≤ 30000) : Built st

section
variable {validateTarget : String → Option Error} {steps : List Step} {inp : List StepInput}

theorem built_buildStep {st : StepInput} {i : ℕ} {step : Step} (h : buildStep validateTarget st i = .ok step) : Built step := by
  unfold buildStep at h
  by_cases hhttp : st.kind = "http"
  · rw [if_pos hhttp] at h
    split_ifs at h
    cases htarget : validateTarget st.url with
    | some e =>
      rw [htarget] at h
      cases h
    | none =>
      rw [htarget] at h
      obtain rfl := Except.ok.inj h
      exact .http hhttp
  by_cases hassertion : st.kind = "assertion"
  · rw [if_neg hhttp, if_pos hassertion] at h
    dsimp only at h
    split_ifs at h with haccepted
    obtain rfl := Except.ok.inj h
    exact .assertion hassertion (by simpa using haccepted)
  by_cases hwait : st.kind = "wait"
  · rw [if_neg hhttp, if_neg hassertion, if_pos hwait] at h
    cases hms : st.waitMs with
    | none =>
      rw [hms] at h
      cases h
    | some ms =>
      rw [hms] at h
      dsimp only at h
      split_ifs at h with hbounds
      obtain rfl := Except.ok.inj h
      obtain ⟨hlow, hhigh⟩ := not_or.mp hbounds
      exact .wait hwait rfl (not_lt.mp hlow) (not_lt.mp hhigh)
  · rw [if_neg hhttp, if_neg hassertion, if_neg hwait] at h
    cases h

theorem built_buildFrom {i : ℕ} (h : buildFrom validateTarget i inp = .ok steps) : (∀ st ∈ steps, Built st) ∧ steps.length = inp.length := by
  induction inp generalizing i steps with
  | nil =>
    obtain rfl := Except.ok.inj h
    exact ⟨List.forall_mem_nil _, rfl⟩
  | cons st rest ih =>
    rcases hstep : buildStep validateTarget st i with e | step
    · simp [buildFrom, hstep, bind, Except.bind] at h
    rcases hrest : buildFrom validateTarget (i + 1) rest with e | built
    · simp [buildFrom, hstep, hrest, bind, Except.bind] at h
    obtain rfl : step :: built = steps := by simpa [buildFrom, hstep, hrest, bind, Except.bind, pure, Except.pure] using h
    obtain ⟨hbuilt, hlength⟩ := ih hrest
    exact ⟨List.forall_mem_cons.mpr ⟨built_buildStep hstep, hbuilt⟩, congrArg (· + 1) hlength⟩

theorem built_buildSteps (h : buildSteps validateTarget inp = .ok steps) : (∀ st ∈ steps, Built st) ∧ steps.length ≤ 20 := by
  unfold buildSteps at h
  split_ifs at h with hmany
  obtain ⟨hbuilt, hlength⟩ := built_buildFrom h
  exact ⟨hbuilt, hlength.trans_le (not_lt.mp hmany)⟩

end

/-! ## What a run finds -/

section
variable {α : Type*} (p : α → Bool)

/-- The longest front of which the predicate holds, and what stopped it. -/
def upTo (l : List α) : List α := l.takeWhile p ++ (l.dropWhile p).take 1

theorem upTo_cons (a : α) (l : List α) : upTo p (a :: l) = a :: if p a then upTo p l else [] := by
  unfold upTo
  cases ha : p a with
  | true => rw [List.takeWhile_cons_of_pos ha, List.dropWhile_cons_of_pos ha, List.cons_append, if_pos rfl]
  | false => simp [ha]

theorem forall_upTo (l : List α) : (∀ a ∈ upTo p l, p a = true) ↔ ∀ a ∈ l, p a = true := by
  induction l with
  | nil => rfl
  | cons a l ih =>
    rw [upTo_cons, List.forall_mem_cons, List.forall_mem_cons]
    refine and_congr_right fun ha => ?_
    rw [if_pos ha, ih]

theorem upTo_eq_self {l : List α} (h : ∀ a ∈ l, p a = true) : upTo p l = l := by
  rw [upTo, List.takeWhile_eq_self_iff.mpr h, List.dropWhile_eq_nil_iff.mpr h, List.take_nil, List.append_nil]

end

section
variable {F : Type*} (w : World F) (steps : List Step)

/-- The response that an assertion before the step of an index is about. -/
def latest : ℕ → Option (Response F)
  | 0 => none
  | k + 1 =>
    match steps[k]? with
    | some st => if st.kind = "http" then st.fetch w (k + 1) else latest k
    | none => latest k

/-- A step passes by itself. -/
def passes (p : Step × ℕ) : Bool :=
  if p.1.kind = "http" then (p.1.fetch w (p.2 + 1)).any Response.ok
  else if p.1.kind = "assertion" then assertOn w.doubles p.1.expression (latest w steps p.2)
  else p.1.kind = "wait"

def result (p : Step × ℕ) : StepResult :=
  ⟨p.2 + 1, p.1.kind, p.1.summary, if passes w steps p then "pass" else "fail", w.durationMs (p.2 + 1)⟩

variable {w steps} {st : Step} {n : ℕ}

theorem fst_runStep : (runStep w (n + 1) (latest w steps n) st).1 = passes w steps (st, n) := by
  unfold runStep passes
  split_ifs
  · cases st.fetch w (n + 1) <;> rfl
  · rfl
  · rfl

theorem snd_runStep (hst : steps[n]? = some st) (hpasses : passes w steps (st, n) = true) :
    (runStep w (n + 1) (latest w steps n) st).2 = latest w steps (n + 1) := by
  have hlatest : latest w steps (n + 1) = if st.kind = "http" then st.fetch w (n + 1) else latest w steps n := by rw [latest, hst]
  rw [hlatest]
  unfold runStep passes at *
  split_ifs at hpasses ⊢
  · cases hfetch : st.fetch w (n + 1) with
    | none => simp [hfetch] at hpasses
    | some r => rfl
  · rfl
  · rfl

/-- The probe runs the steps up to the first that does not pass. -/
theorem runSteps_eq {rest : List Step} (h : steps.drop n = rest) :
    runSteps w (n + 1) (latest w steps n) rest = (upTo (passes w steps) (rest.zipIdx n)).map (result w steps) := by
  induction rest generalizing n with
  | nil => rfl
  | cons st rest ih =>
    have hst : steps[n]? = some st := by
      have hhead := congrArg List.head? h
      rwa [List.head?_drop] at hhead
    have hrest : steps.drop (n + 1) = rest := by
      rw [← List.tail_drop, h]
      rfl
    rw [List.zipIdx_cons, upTo_cons, List.map_cons, runSteps]
    dsimp only
    rw [fst_runStep]
    refine congrArg₂ List.cons rfl ?_
    by_cases hpasses : passes w steps (st, n) = true
    · rw [if_pos hpasses, if_pos hpasses, snd_runStep hst hpasses, ih hrest]
    · rw [if_neg hpasses, if_neg hpasses]
      rfl

end

/-- What the probe makes of an assertion's text. -/
def Means {F : Type*} (x : Doubles F) (expr : Text) (a : Assertion) : Prop :=
  ∀ last : Option (Response F), assertOn x expr last = last.any fun r => compare x (actualOf x r a.subject) a.op a.expected

theorem means_of_matched {F : Type*} (x : Doubles F) {expr : Text} {a : Assertion} (h : matched (strip expr) = some a) : Means x expr a := by
  intro last
  unfold assertOn
  rw [h]
  cases last <;> rfl

theorem status_run {F : Type*} {w : World F} {steps : List Step} {l : List (Step × ℕ)} :
    ((l.map (result w steps)).any (·.status = "fail") = true) ↔ ¬∀ p ∈ l, passes w steps p = true := by
  rw [List.any_map, List.any_eq_true]
  push Not
  refine exists_congr fun p => and_congr_right fun _ => ?_
  cases hp : passes w steps p <;> simp [result, hp]

def digits (t : Text) : Option ℕ := if t.all Char.isDigit then some (t.foldl (fun n c => 10 * n + (c.toNat - 48)) 0) else none

/-- Doubles without a sign and a fraction, and a page that answers 204. -/
def someWorld : World ℕ where
  doubles := ⟨digits, fun n => (toString n).toList, fun n => n, fun a b => a = b, fun a b => a < b, fun a b => a ≤ b⟩
  fetch _ _ _ := some ⟨204, 12, [], [], ""⟩
  durationMs _ := 12

def someSteps : List Step :=
  [{ kind := "http", method := "GET", url := "https://h", summary := "GET https://h".toList },
    { kind := "assertion", expression := "status == 200".toList, summary := "status == 200".toList },
    { kind := "wait", waitMs := some 5, summary := "wait 5 ms".toList }]

end Upstat.SyntheticRuns
