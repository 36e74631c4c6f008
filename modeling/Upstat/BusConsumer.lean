import Mathlib.Data.List.Basic
import Mathlib.Tactic.Linarith

/-! # The Go consumer of the shared lanes (`pkg/bus/bus.go`)

`process` handles one message and says whether its offset may be committed; `runFrom`
is the fetch loop. JSON and the contract's schemas are parameters (`Codec`), and what
storage, the handler, the recorder and the context do while one message is handled is
an `Outside`, so a statement for every `Outside` covers every mix of failures. -/
namespace Upstat.BusConsumer

inductive Topic where
  | requests | results
  deriving DecidableEq, Repr

def product : String := "upstat."

/-- The lane each event travels on. -/
def topicFor : String → Option Topic
  | "upstat.config.changed" => some .requests
  | "upstat.synthetics.result" => some .requests
  | "upstat.alerting.verify_requested" => some .requests
  | "upstat.monitor.transition" => some .results
  | "upstat.alerting.delivery" => some .results
  | "upstat.rule.evaluated" => some .results
  | "upstat.slo.evaluated" => some .results
  | "upstat.insights.generated" => some .results
  | _ => none

def supportedMajor : String := "1"

/-- `contract` is an error marked `ErrContract`: the message can never be handled as it is. -/
inductive Err where
  | contract (text : String)
  | other (text : String)
  deriving DecidableEq, Repr

structure Envelope (Data : Type) where
  version : String
  requestID : String
  data : Data
  /-- The key of the claim-check object, when the payload travels by reference. -/
  dataRef : Option String

/-- Reading a message: its type, its envelope, and the contract's verdicts. -/
structure Codec (Raw Data : Type) where
  headType : Raw → Option String
  validateEnvelope : Raw → Option String
  envelope : Raw → Except String (Envelope Data)
  validateData : String → Data → Option String

structure Consumer (Raw Data : Type) where
  codec : Codec Raw Data
  topic : Topic
  handlers : String → Bool
  failures : String → Bool
  /-- Whether `OnFailure` has set a recorder. -/
  record : Bool
  attempts : ℕ

/-- A message the consumer gave up on. -/
structure Failed (Raw : Type) where
  event : String
  requestID : String
  raw : Raw
  cause : Err
  permanent : Bool

/-- What happens around one message: the object read and the handler's answer on each
attempt, whether the context has ended after it, whether the backoff ran to its end, the
recorder's answer, and whether the context has ended by then. -/
structure Outside (Data : Type) where
  get : ℕ → Except String Data
  handle : ℕ → Data → Option String
  ended : ℕ → Bool
  slept : ℕ → Bool
  fail : Option String
  record : Option String
  endedLast : Bool

inductive Action (Raw : Type) where
  | handled (attempt : ℕ) (err : Option String)
  | failure (err : Option String)
  | recorded (f : Failed Raw) (err : Option String)

variable {Raw Data : Type}

inductive Unwrapped (Data : Type) where
  | notOurs
  | invalid (err : Err)
  | ours (event : String) (env : Envelope Data)

def major (version : String) : String := String.ofList (version.toList.takeWhile (· ≠ '.'))

/-- The message's type, when this consumer has a handler for it and reads its lane. -/
def eventOf (c : Consumer Raw Data) (raw : Raw) : Option String :=
  match c.codec.headType raw with
  | none => none
  | some t => if product.toList.isPrefixOf t.toList ∧ c.handlers t ∧ topicFor t = some c.topic then some t else none

def unwrap (c : Consumer Raw Data) (raw : Raw) : Unwrapped Data :=
  match eventOf c raw with
  | none => .notOurs
  | some t =>
    match c.codec.validateEnvelope raw with
    | some err => .invalid (.contract ("envelope: " ++ err))
    | none =>
      match c.codec.envelope raw with
      | .error err => .invalid (.contract ("envelope: " ++ err))
      | .ok env =>
        if major env.version ≠ supportedMajor then
          .invalid (.contract ("unsupported envelope version " ++ env.version))
        else .ours t env

/-- The payload on attempt `n`, through the claim-check when there is one, validated. -/
def load (c : Consumer Raw Data) (w : Outside Data) (event : String) (env : Envelope Data)
    (n : ℕ) : Except Err Data :=
  let data : Except String Data := match env.dataRef with
    | some _ => w.get n
    | none => .ok env.data
  match data with
  | .error err => .error (.other err)
  | .ok data =>
    match c.codec.validateData event data with
    | some err => .error (.contract (event ++ ": " ++ err))
    | none => .ok data

/-- The recorder's own failure is logged and nothing else. -/
def recordFailed (c : Consumer Raw Data) (w : Outside Data) (f : Failed Raw) : List (Action Raw) :=
  if c.record then [.recorded f w.record] else []

/-- How one pass through the loop's body ends, with the calls it made. -/
inductive Attempt (Raw : Type) where
  | violates (err : Err)
  | succeeded (called : List (Action Raw))
  | failed (called : List (Action Raw)) (err : Err) (loaded : Bool)

/-- Attempt `n`: load the payload, then call the handler with it. Only what `load`
reports can be a contract violation; any error of the handler is tried again. -/
def attempt (c : Consumer Raw Data) (w : Outside Data) (event : String) (env : Envelope Data)
    (n : ℕ) : Attempt Raw :=
  match load c w event env n with
  | .error (.contract err) => .violates (.contract err)
  | .error (.other err) => .failed [] (.other err) false
  | .ok data =>
    match w.handle n data with
    | none => .succeeded [.handled n none]
    | some err => .failed [.handled n (some err)] (.other err) true

/-- What follows the last failing attempt: the event's failure hook, then the recorder. -/
def giveUp (c : Consumer Raw Data) (w : Outside Data) (raw : Raw) (event : String)
    (env : Envelope Data) (err : Err) (loaded : Bool) : List (Action Raw) :=
  (if c.failures event ∧ loaded then [.failure w.fail] else []) ++
    recordFailed c w ⟨event, env.requestID, raw, err, false⟩

/-- The attempts from number `n` on, with `left` more after it. -/
def attemptFrom (c : Consumer Raw Data) (w : Outside Data) (raw : Raw) (event : String)
    (env : Envelope Data) : (left n : ℕ) → List (Action Raw) × Bool
  | 0, n =>
    match attempt c w event env n with
    | .violates err => (recordFailed c w ⟨event, env.requestID, raw, err, true⟩, true)
    | .succeeded called => (called, true)
    | .failed called err loaded =>
      if w.ended n then (called, false)
      else (called ++ giveUp c w raw event env err loaded, !w.endedLast)
  | left + 1, n =>
    match attempt c w event env n with
    | .violates err => (recordFailed c w ⟨event, env.requestID, raw, err, true⟩, true)
    | .succeeded called => (called, true)
    | .failed called _ _ =>
      if w.ended n then (called, false)
      else if w.slept n then
        (called ++ (attemptFrom c w raw event env left (n + 1)).1,
          (attemptFrom c w raw event env left (n + 1)).2)
      else (called, false)

/-- What was done about the message, and whether its offset may be committed. -/
def process (c : Consumer Raw Data) (w : Outside Data) (raw : Raw) : List (Action Raw) × Bool :=
  match unwrap c raw with
  | .notOurs => ([], true)
  | .invalid err => (recordFailed c w ⟨"", "", raw, err, true⟩, true)
  | .ours event env => attemptFrom c w raw event env (c.attempts - 1) 1

/-! ## Which attempts succeed, and what the actions say -/

def Attempt.isFailed : Attempt Raw → Bool
  | .failed _ _ _ => true
  | _ => false

def Attempt.isSuccess : Attempt Raw → Bool
  | .succeeded _ => true
  | _ => false

/-- The handler answered without an error. -/
def Handled (acts : List (Action Raw)) : Prop := ∃ n, Action.handled n none ∈ acts

/-- The failure was stored: the recorder returned without an error. -/
def Recorded (acts : List (Action Raw)) : Prop := ∃ f, Action.recorded f none ∈ acts

def RecorderWorks (c : Consumer Raw Data) (w : Outside Data) : Prop :=
  c.record = true ∧ w.record = none

section Attempts
variable (c : Consumer Raw Data) (w : Outside Data) (raw : Raw) (event : String) (env : Envelope Data)

/-- Attempt `n` fails in a way worth another try, and the consumer gets to make it. -/
def GoesOn (n : ℕ) : Prop :=
  (attempt c w event env n).isFailed ∧ w.ended n = false ∧ w.slept n = true

/-- One of the attempts `n, …, n + left` is reached and succeeds. -/
def SucceedsFrom (left n : ℕ) : Prop :=
  ∃ k ≤ left, (∀ i < k, GoesOn c w event env (n + i)) ∧
    (attempt c w event env (n + k)).isSuccess

/-- The context ends while one of these attempts, or its backoff, or the recording after
the last of them is under way. -/
def EndsFrom (left n : ℕ) : Prop :=
  ∃ k ≤ left, (∀ i < k, GoesOn c w event env (n + i)) ∧
    (attempt c w event env (n + k)).isFailed ∧
    (w.ended (n + k) = true ∨ (k < left ∧ w.slept (n + k) = false) ∨ (k = left ∧ w.endedLast = true))

private theorem exists_reached_succ {G P : ℕ → Prop} (left n : ℕ) :
    (∃ k ≤ left + 1, (∀ i < k, G (n + i)) ∧ P k) ↔
      P 0 ∨ G n ∧ ∃ k ≤ left, (∀ i < k, G (n + 1 + i)) ∧ P (k + 1) := by
  constructor
  · rintro ⟨k, hk, hG, hP⟩
    cases k with
    | zero => exact .inl hP
    | succ k =>
      refine .inr ⟨hG 0 (by omega), k, by omega, fun i hi => ?_, hP⟩
      have h := hG (i + 1) (by omega)
      rwa [show n + (i + 1) = n + 1 + i by omega] at h
  · rintro (hP | ⟨hG, k, hk, hGs, hP⟩)
    · exact ⟨0, by omega, by simp, hP⟩
    · refine ⟨k + 1, by omega, fun i hi => ?_, hP⟩
      cases i with
      | zero => exact hG
      | succ i => rw [show n + (i + 1) = n + 1 + i by omega]; exact hGs i (by omega)

theorem succeedsFrom_zero (n : ℕ) :
    SucceedsFrom c w event env 0 n ↔ (attempt c w event env n).isSuccess := by
  simp [SucceedsFrom]

theorem succeedsFrom_succ (left n : ℕ) :
    SucceedsFrom c w event env (left + 1) n ↔
      (attempt c w event env n).isSuccess ∨
        GoesOn c w event env n ∧ SucceedsFrom c w event env left (n + 1) := by
  have h := exists_reached_succ (G := GoesOn c w event env)
    (P := fun k => (attempt c w event env (n + k)).isSuccess = true) left n
  simpa [SucceedsFrom, Nat.add_assoc, Nat.add_comm 1] using h

theorem endsFrom_zero (n : ℕ) :
    EndsFrom c w event env 0 n ↔
      (attempt c w event env n).isFailed ∧ (w.ended n = true ∨ w.endedLast = true) := by
  simp [EndsFrom]

theorem endsFrom_succ (left n : ℕ) :
    EndsFrom c w event env (left + 1) n ↔
      (attempt c w event env n).isFailed ∧ (w.ended n = true ∨ w.slept n = false) ∨
        GoesOn c w event env n ∧ EndsFrom c w event env left (n + 1) := by
  have h := exists_reached_succ (G := GoesOn c w event env)
    (P := fun k => (attempt c w event env (n + k)).isFailed = true ∧
      (w.ended (n + k) = true ∨ (k < left + 1 ∧ w.slept (n + k) = false) ∨
        (k = left + 1 ∧ w.endedLast = true))) left n
  simpa [EndsFrom, Nat.add_assoc, Nat.add_comm 1] using h

theorem recorded_recordFailed (f : Failed Raw) :
    Recorded (recordFailed c w f) ↔ RecorderWorks c w := by
  unfold Recorded recordFailed RecorderWorks
  by_cases hc : c.record
  · cases w.record <;> simp [hc]
  · simp [hc]

theorem not_handled_recordFailed (f : Failed Raw) : ¬Handled (recordFailed c w f) := by
  unfold Handled recordFailed
  split <;> simp

/-- The calls of one attempt: the handler answers without an error exactly when the
attempt succeeds, and nothing is recorded yet. -/
theorem attempt_called (n : ℕ) :
    match attempt c w event env n with
    | .violates _ => True
    | .succeeded called => Handled called
    | .failed called _ _ => ¬Handled called ∧ ¬Recorded called := by
  unfold attempt
  cases load c w event env n with
  | error err => cases err <;> simp [Handled, Recorded]
  | ok data => cases h : w.handle n data <;> simp [h, Handled, Recorded]

theorem handled_append (as bs : List (Action Raw)) : Handled (as ++ bs) ↔ Handled as ∨ Handled bs := by
  simp [Handled, exists_or]

theorem recorded_append (as bs : List (Action Raw)) : Recorded (as ++ bs) ↔ Recorded as ∨ Recorded bs := by
  simp [Recorded, exists_or]

theorem handled_giveUp (err : Err) (loaded : Bool) : ¬Handled (giveUp c w raw event env err loaded) := by
  simp only [giveUp, handled_append, not_or]
  refine ⟨?_, not_handled_recordFailed c w _⟩
  split <;> simp [Handled]

theorem recorded_giveUp (err : Err) (loaded : Bool) :
    Recorded (giveUp c w raw event env err loaded) ↔ RecorderWorks c w := by
  simp only [giveUp, recorded_append, recorded_recordFailed]
  split <;> simp [Recorded]

/-- The offset stays back exactly when the context ends on the way. -/
theorem attemptFrom_stays (left n : ℕ) :
    (attemptFrom c w raw event env left n).2 = false ↔ EndsFrom c w event env left n := by
  induction left generalizing n with
  | zero =>
    rw [endsFrom_zero, attemptFrom]
    cases h : attempt c w event env n with
    | violates err => simp [Attempt.isFailed]
    | succeeded called => simp [Attempt.isFailed]
    | failed called err loaded => cases he : w.ended n <;> simp [Attempt.isFailed]
  | succ left ih =>
    rw [endsFrom_succ, attemptFrom]
    cases h : attempt c w event env n with
    | violates err => simp [Attempt.isFailed, GoesOn, h]
    | succeeded called => simp [Attempt.isFailed, GoesOn, h]
    | failed called err loaded =>
      cases he : w.ended n <;> cases hs : w.slept n <;> simp [Attempt.isFailed, GoesOn, h, he, hs, ih]

theorem attemptFrom_handled (left n : ℕ) :
    Handled (attemptFrom c w raw event env left n).1 ↔ SucceedsFrom c w event env left n := by
  induction left generalizing n with
  | zero =>
    rw [succeedsFrom_zero, attemptFrom]
    have hcalled := attempt_called c w event env n
    cases h : attempt c w event env n with
    | violates err => simp [Attempt.isSuccess, not_handled_recordFailed]
    | succeeded called => rw [h] at hcalled; simpa [Attempt.isSuccess] using hcalled
    | failed called err loaded =>
      rw [h] at hcalled
      cases he : w.ended n <;> simp [Attempt.isSuccess, handled_append, handled_giveUp, hcalled.1]
  | succ left ih =>
    rw [succeedsFrom_succ, attemptFrom]
    have hcalled := attempt_called c w event env n
    cases h : attempt c w event env n with
    | violates err => simp [Attempt.isSuccess, Attempt.isFailed, GoesOn, h, not_handled_recordFailed]
    | succeeded called => rw [h] at hcalled; simpa [Attempt.isSuccess] using hcalled
    | failed called err loaded =>
      rw [h] at hcalled
      cases he : w.ended n <;> cases hs : w.slept n <;>
        simp [Attempt.isSuccess, Attempt.isFailed, GoesOn, h, he, hs, handled_append, hcalled.1, ih]

/-- Where no attempt succeeds and the context stays, the message ends at the recorder. -/
theorem attemptFrom_recorded (left n : ℕ) (hs : ¬SucceedsFrom c w event env left n)
    (he : ¬EndsFrom c w event env left n) :
    Recorded (attemptFrom c w raw event env left n).1 ↔ RecorderWorks c w := by
  induction left generalizing n with
  | zero =>
    rw [succeedsFrom_zero] at hs
    rw [endsFrom_zero] at he
    rw [attemptFrom]
    have hcalled := attempt_called c w event env n
    cases h : attempt c w event env n with
    | violates err => simp [recorded_recordFailed]
    | succeeded called => simp [h, Attempt.isSuccess] at hs
    | failed called err loaded =>
      rw [h] at hcalled he
      simp only [Attempt.isFailed, true_and, not_or, Bool.not_eq_true] at he
      simp [he.1, recorded_append, recorded_giveUp, hcalled.2]
  | succ left ih =>
    rw [succeedsFrom_succ] at hs
    rw [endsFrom_succ] at he
    rw [attemptFrom]
    have hcalled := attempt_called c w event env n
    cases h : attempt c w event env n with
    | violates err => simp [recorded_recordFailed]
    | succeeded called => simp [h, Attempt.isSuccess] at hs
    | failed called err loaded =>
      rw [h] at hcalled
      have hgoes : w.ended n = false ∧ w.slept n = true := by
        simp only [h, Attempt.isFailed, true_and, not_or, Bool.not_eq_true, Bool.not_eq_false] at he
        exact he.1
      have hG : GoesOn c w event env n := ⟨by simp [h, Attempt.isFailed], hgoes⟩
      have hs' : ¬SucceedsFrom c w event env left (n + 1) := fun h' => hs (.inr ⟨hG, h'⟩)
      have he' : ¬EndsFrom c w event env left (n + 1) := fun h' => he (.inr ⟨hG, h'⟩)
      simp [hgoes.1, hgoes.2, recorded_append, hcalled.2, ih (n + 1) hs' he']

end Attempts

/-! ## One message -/

/-- A fetched message and what happens around it. -/
structure Fetched (Raw Data : Type) where
  raw : Raw
  outside : Outside Data

/-- Some attempt the consumer gets to make on the message succeeds. -/
def Succeeds (c : Consumer Raw Data) (m : Fetched Raw Data) : Prop :=
  ∃ event env, unwrap c m.raw = .ours event env ∧ SucceedsFrom c m.outside event env (c.attempts - 1) 1

/-- The context ends while the message is worked on. -/
def Ends (c : Consumer Raw Data) (m : Fetched Raw Data) : Prop :=
  ∃ event env, unwrap c m.raw = .ours event env ∧ EndsFrom c m.outside event env (c.attempts - 1) 1

/-- A message of a handled type that no attempt handles, and whose handling the end of
the context does not cut short, finds a recorder that works. -/
def Covered (c : Consumer Raw Data) (m : Fetched Raw Data) : Prop :=
  eventOf c m.raw = none ∨ Succeeds c m ∨ Ends c m ∨ RecorderWorks c m.outside

theorem eventOf_eq_none_iff (c : Consumer Raw Data) (raw : Raw) :
    eventOf c raw = none ↔ unwrap c raw = .notOurs := by
  unfold unwrap
  cases eventOf c raw with
  | none => simp
  | some t =>
    cases c.codec.validateEnvelope raw with
    | some err => simp
    | none =>
      cases c.codec.envelope raw with
      | error err => simp
      | ok env => by_cases hv : major env.version = supportedMajor <;> simp [hv]

theorem process_stays (c : Consumer Raw Data) (m : Fetched Raw Data) :
    (process c m.outside m.raw).2 = false ↔ Ends c m := by
  unfold process Ends
  cases h : unwrap c m.raw with
  | notOurs => simp
  | invalid err => simp
  | ours event env => simp [attemptFrom_stays]

/-- A message whose offset may be committed has been handled or recorded exactly when it
is covered. -/
theorem process_kept_iff (c : Consumer Raw Data) (m : Fetched Raw Data) :
    ((process c m.outside m.raw).2 = true → (eventOf c m.raw).isSome →
      Handled (process c m.outside m.raw).1 ∨ Recorded (process c m.outside m.raw).1) ↔ Covered c m := by
  by_cases hE : Ends c m
  · simp [(process_stays c m).mpr hE, Covered, hE]
  · have hc : (process c m.outside m.raw).2 = true := by
      simpa using mt (process_stays c m).mp hE
    simp only [hc, true_implies, Covered, hE, false_or]
    cases h : unwrap c m.raw with
    | notOurs => simp [(eventOf_eq_none_iff c m.raw).mpr h]
    | invalid err =>
      have hs : eventOf c m.raw ≠ none := by simp [eventOf_eq_none_iff, h]
      simp only [hs, Option.isSome_iff_ne_none, ne_eq, not_false_eq_true, true_implies, process, h,
        Succeeds, reduceCtorEq, false_and, exists_false, false_or, recorded_recordFailed]
      simp [not_handled_recordFailed]
    | ours event env =>
      have hs : eventOf c m.raw ≠ none := by simp [eventOf_eq_none_iff, h]
      have hE' : ¬EndsFrom c m.outside event env (c.attempts - 1) 1 := fun he => hE ⟨event, env, h, he⟩
      have hS : Succeeds c m ↔ SucceedsFrom c m.outside event env (c.attempts - 1) 1 := by
        simp [Succeeds, h]
      simp only [hs, Option.isSome_iff_ne_none, ne_eq, not_false_eq_true, true_implies, process, h,
        false_or, hS, attemptFrom_handled]
      by_cases hok : SucceedsFrom c m.outside event env (c.attempts - 1) 1
      · simp [hok]
      · simp [hok, attemptFrom_recorded c m.outside m.raw event env _ _ hok hE']

/-! ## The fetch loop -/

/-- What the loop did with one message: the actions, and whether it went on to commit. -/
structure Entry (Raw Data : Type) where
  message : Fetched Raw Data
  actions : List (Action Raw)
  committed : Bool

/-- `Run` over the messages the lane delivers: it commits each message before it fetches
the next, and returns without committing once the context has ended. -/
def runFrom (c : Consumer Raw Data) : List (Fetched Raw Data) → List (Entry Raw Data)
  | [] => []
  | m :: ms =>
    let r := process c m.outside m.raw
    if r.2 then ⟨m, r.1, true⟩ :: runFrom c ms else [⟨m, r.1, false⟩]

/-- A commit covers the partition up to its offset, the messages before it included. -/
def CommitsKept (log : List (Entry Raw Data)) (c : Consumer Raw Data) : Prop :=
  ∀ i j : ℕ, i ≤ j → ∀ a b, log[i]? = some a → log[j]? = some b → b.committed = true →
    (eventOf c a.message.raw).isSome → Handled a.actions ∨ Recorded a.actions

/-- The messages the loop comes to: the context ends with none but the last of them. -/
def AllCovered (c : Consumer Raw Data) : List (Fetched Raw Data) → Prop
  | [] => True
  | m :: ms => Covered c m ∧ (¬Ends c m → AllCovered c ms)

theorem runFrom_committed (c : Consumer Raw Data) (ms : List (Fetched Raw Data)) {i j : ℕ}
    {a b : Entry Raw Data} (hij : i ≤ j) (ha : (runFrom c ms)[i]? = some a)
    (hb : (runFrom c ms)[j]? = some b) (hc : b.committed = true) : a.committed = true := by
  induction ms generalizing i j with
  | nil => simp [runFrom] at ha
  | cons m ms ih =>
    cases hp : (process c m.outside m.raw).2 with
    | false =>
      simp only [runFrom, hp, Bool.false_eq_true, ↓reduceIte, List.getElem?_singleton] at hb
      split at hb <;> simp at hb
      subst hb
      simp at hc
    | true =>
      simp only [runFrom, hp, ↓reduceIte] at ha hb
      cases i with
      | zero => simp at ha; subst ha; rfl
      | succ i =>
        obtain ⟨j, rfl⟩ : ∃ k, j = k + 1 := ⟨j - 1, by omega⟩
        exact ih (i := i) (j := j) (by omega) (by simpa using ha) (by simpa using hb)

theorem commitsKept_iff_forall (c : Consumer Raw Data) (ms : List (Fetched Raw Data)) :
    CommitsKept (runFrom c ms) c ↔ ∀ a ∈ runFrom c ms, a.committed = true →
      (eventOf c a.message.raw).isSome → Handled a.actions ∨ Recorded a.actions := by
  constructor
  · intro h a ha hc hs
    obtain ⟨i, hi⟩ := List.mem_iff_getElem?.mp ha
    exact h i i le_rfl a a hi hi hc hs
  · intro h i j hij a b ha hb hc hs
    exact h a (List.mem_of_getElem? ha) (runFrom_committed c ms hij ha hb hc) hs

/-- Every commit covers only messages that were handled or recorded, exactly when each
message the loop comes to is handled, cut short by the end of the context, or finds a
recorder that works. -/
theorem commitsKept_iff (c : Consumer Raw Data) (ms : List (Fetched Raw Data)) :
    CommitsKept (runFrom c ms) c ↔ AllCovered c ms := by
  rw [commitsKept_iff_forall]
  induction ms with
  | nil => simp [runFrom, AllCovered]
  | cons m ms ih =>
    rw [AllCovered, ← process_kept_iff]
    by_cases hE : Ends c m
    · have hp := (process_stays c m).mpr hE
      simp [runFrom, hp, hE]
    · have hp : (process c m.outside m.raw).2 = true := by simpa using mt (process_stays c m).mp hE
      simp [runFrom, hp, hE, ih]

/-- The common service's consumer, reading messages that are their own payload. -/
def resultsConsumer : Consumer Unit Unit where
  codec := {
    headType := fun _ => some "upstat.monitor.transition"
    validateEnvelope := fun _ => none
    envelope := fun _ => .ok ⟨"1.0", "r", (), none⟩
    validateData := fun _ _ => none }
  topic := .results
  handlers := fun t => t = "upstat.monitor.transition"
  failures := fun _ => false
  record := true
  attempts := 3

/-- The database is away: the handler and the recorder both fail. -/
def databaseAway : Outside Unit where
  get := fun _ => .ok ()
  handle := fun _ _ => some "db away"
  ended := fun _ => false
  slept := fun _ => true
  fail := none
  record := some "db away"
  endedLast := false

/-- The handler and the recorder fail together, and the message is committed all the same. -/
theorem databaseAway_loses :
    ¬CommitsKept (runFrom resultsConsumer [⟨(), databaseAway⟩]) resultsConsumer := by
  have hlog : runFrom resultsConsumer [⟨(), databaseAway⟩] =
      [⟨⟨(), databaseAway⟩, [.handled 1 (some "db away"), .handled 2 (some "db away"),
        .handled 3 (some "db away"),
        .recorded ⟨"upstat.monitor.transition", "r", (), .other "db away", false⟩ (some "db away")],
        true⟩] := by
    rfl
  rw [hlog]
  intro h
  have hours : (eventOf resultsConsumer ()).isSome := by decide +kernel
  rcases h 0 0 le_rfl _ _ rfl rfl rfl hours with ⟨n, hn⟩ | ⟨f, hf⟩
  · simp at hn
  · simp at hf

end Upstat.BusConsumer
