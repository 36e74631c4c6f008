import Mathlib.Algebra.Order.Ring.Rat
import Mathlib.Data.List.AList
import Upstat.GuardedRuns

/-! # Fixed windows of quotas (`quota/quota.service.ts`)

Each request goes to the script on Valkey and to the map in memory, so that their verdicts can be
compared. Times are milliseconds. `now` is the caller's time and `at_` the time of Valkey's clock,
by which a counter expires. -/
namespace Upstat.QuotaWindows

open GuardedRuns

/-- The arguments of `take`. Windows are of at least a second. -/
structure Request where
  key : String
  cost : ℕ
  limit : ℚ
  windowSeconds : ℕ
  now : ℤ
  at_ : ℤ
  deriving DecidableEq

def Request.window (r : Request) : ℤ := r.now / (1000 * r.windowSeconds)

structure Verdict where
  ok : Bool
  retryAfter : ℤ
  deriving DecidableEq

/-- The whole seconds until the next window, one at least. -/
def Request.retryAfter (r : Request) : ℤ := max 1 (-((r.now - (r.window + 1) * r.windowSeconds * 1000) / 1000))

def Request.verdict (r : Request) (allowed : Bool) : Verdict := if allowed then ⟨true, 0⟩ else ⟨false, r.retryAfter⟩

/-! ## The two stores -/

structure Counter where
  used : ℕ
  expireAt : ℤ
  deriving DecidableEq

/-- The counters on Valkey, by key and window. -/
abbrev Valkey := String × ℤ → Option Counter

/-- `TAKE_SCRIPT` -/
def takeScript (v : Valkey) (r : Request) : Valkey × Bool :=
  let live := (v (r.key, r.window)).filter fun c => r.at_ < c.expireAt
  let used := (live.elim 0 Counter.used) + r.cost
  let fresh := r.at_ + r.windowSeconds * 2 * 1000
  let expireAt := if used = r.cost then fresh else live.elim fresh Counter.expireAt
  if r.limit < used then (Function.update v (r.key, r.window) (some ⟨used - r.cost, expireAt⟩), false)
  else (Function.update v (r.key, r.window) (some ⟨used, expireAt⟩), true)

structure Slot where
  window : ℤ
  used : ℕ
  deriving DecidableEq

abbrev Local := AList fun _ : String => Slot

/-- The path without Valkey. A map of more than 50000 keys is cleared. -/
def takeLocal (m : Local) (r : Request) : Local × Bool :=
  let slot := (m.lookup r.key).filter fun slot => slot.window = r.window
  let used := (slot.elim 0 Slot.used) + r.cost
  if r.limit < used then (m, false)
  else
    let m' := m.insert r.key ⟨r.window, used⟩
    (if 50000 < m'.keys.length then ∅ else m', true)

structure Entry where
  request : Request
  inProcess : Verdict
  script : Verdict
  deriving DecidableEq

structure State where
  valkey : Valkey := fun _ => none
  local_ : Local := ∅
  /-- The requests so far with their verdicts, the latest first. -/
  log : List Entry := []

def step (s : State) (r : Request) : State :=
  let (valkey, script) := takeScript s.valkey r
  let (local_, inProcess) := takeLocal s.local_ r
  { valkey := valkey, local_ := local_, log := ⟨r, r.verdict inProcess, r.verdict script⟩ :: s.log }

/-! ## What is to hold -/

/-- The accepted costs of the key in the window. -/
def spent (key : String) (window : ℤ) : List Entry → ℕ
  | [] => 0
  | e :: es => (if e.script.ok ∧ e.request.key = key ∧ e.request.window = window then e.request.cost else 0) + spent key window es

/-- With each accepted request the accepted costs of its key and window are within its limit. -/
def Within : List Entry → Prop
  | [] => True
  | e :: es => (e.script.ok = true → (spent e.request.key e.request.window (e :: es) : ℚ) ≤ e.request.limit) ∧ Within es

/-- The verdicts are the same, what is accepted is within the limits, and the counters of both
stores have what was accepted and nothing else. -/
structure Exact (s : State) : Prop where
  same : ∀ e ∈ s.log, e.inProcess = e.script
  within : Within s.log
  valkey_spent : ∀ key window c, s.valkey (key, window) = some c → c.used = spent key window s.log
  local_spent : ∀ key slot, s.local_.lookup key = some slot → slot.used = spent key slot.window s.log

/-- Where the request's key has spent something in its window, the counter of that window has not
expired, and the map's slot is there and of that window. -/
def Remembered (s : State) (r : Request) : Prop :=
  spent r.key r.window s.log ≠ 0 →
    (∃ c ∈ s.valkey (r.key, r.window), r.at_ < c.expireAt) ∧ ∃ slot ∈ s.local_.lookup r.key, slot.window = r.window

instance (s : State) (r : Request) : Decidable (Remembered s r) :=
  inferInstanceAs (Decidable (_ → (∃ c ∈ s.valkey (r.key, r.window), _) ∧ ∃ slot ∈ s.local_.lookup r.key, _))

section
variable {s : State} {r : Request}

/-- What the script has counted for the window before the request. -/
theorem counted_valkey (he : Exact s) (hr : Remembered s r) :
    ((s.valkey (r.key, r.window)).filter fun c => r.at_ < c.expireAt).elim 0 Counter.used = spent r.key r.window s.log := by
  by_cases h0 : spent r.key r.window s.log = 0
  · rw [h0]
    cases hf : (s.valkey (r.key, r.window)).filter fun c => r.at_ < c.expireAt with
    | none => rfl
    | some c =>
      obtain ⟨hc, -⟩ := Option.filter_eq_some_iff.mp hf
      exact (he.valkey_spent _ _ c hc).trans h0
  · obtain ⟨⟨c, hc, hlive⟩, -⟩ := hr h0
    obtain hc : s.valkey (r.key, r.window) = some c := hc
    have hf : (s.valkey (r.key, r.window)).filter (fun c => r.at_ < c.expireAt) = some c :=
      Option.filter_eq_some_iff.mpr ⟨hc, by simpa using hlive⟩
    rw [hf]
    exact he.valkey_spent _ _ c hc

theorem counted_local (he : Exact s) (hr : Remembered s r) :
    ((s.local_.lookup r.key).filter fun slot => slot.window = r.window).elim 0 Slot.used = spent r.key r.window s.log := by
  by_cases h0 : spent r.key r.window s.log = 0
  · rw [h0]
    cases hf : (s.local_.lookup r.key).filter fun slot => slot.window = r.window with
    | none => rfl
    | some slot =>
      obtain ⟨hs, hw⟩ := Option.filter_eq_some_iff.mp hf
      have hw : slot.window = r.window := by simpa using hw
      have := he.local_spent _ slot hs
      rw [hw, h0] at this
      exact this
  · obtain ⟨-, slot, hs, hw⟩ := hr h0
    obtain hs : s.local_.lookup r.key = some slot := hs
    have hf : (s.local_.lookup r.key).filter (fun slot => slot.window = r.window) = some slot :=
      Option.filter_eq_some_iff.mpr ⟨hs, by simpa using hw⟩
    rw [hf]
    have := he.local_spent _ slot hs
    rwa [hw] at this

theorem spent_refused (key : String) (window : ℤ) (r : Request) (v : Verdict) (es : List Entry) :
    spent key window (⟨r, v, r.verdict false⟩ :: es) = spent key window es := by
  simp [spent, Request.verdict]

theorem spent_accepted (key : String) (window : ℤ) (r : Request) (v : Verdict) (es : List Entry) :
    spent key window (⟨r, v, r.verdict true⟩ :: es) =
      (if r.key = key ∧ r.window = window then r.cost else 0) + spent key window es := by
  simp [spent, Request.verdict]

/-- A refused request leaves both counters as they are. -/
theorem Exact.refused (he : Exact s) (hr : Remembered s r) (hover : r.limit < (spent r.key r.window s.log + r.cost : ℕ)) :
    Exact (step s r) := by
  have hscript : (takeScript s.valkey r).2 = false := by
    simp only [takeScript, counted_valkey he hr, if_pos hover]
  have hlocal : takeLocal s.local_ r = (s.local_, false) := by
    simp only [takeLocal, counted_local he hr, if_pos hover]
  constructor
  · intro e hmem
    simp only [step, hscript, hlocal, List.mem_cons] at hmem
    obtain rfl | hmem := hmem
    · rfl
    · exact he.same e hmem
  · simp only [step, hscript, Within]
    exact ⟨by simp [Request.verdict], he.within⟩
  · intro key window c hc
    simp only [step, hscript, spent_refused]
    simp only [step, takeScript, counted_valkey he hr, if_pos hover, Nat.add_sub_cancel] at hc
    by_cases hk : (key, window) = (r.key, r.window)
    · rw [hk, Function.update_self] at hc
      obtain ⟨rfl, rfl⟩ := Prod.mk.inj hk
      obtain rfl := Option.some.inj hc
      rfl
    · rw [Function.update_of_ne hk] at hc
      exact he.valkey_spent key window c hc
  · intro key slot hs
    simp only [step, hscript, spent_refused]
    simp only [step, hlocal] at hs
    exact he.local_spent key slot hs

/-- An accepted request is counted in both. -/
theorem Exact.accepted (he : Exact s) (hr : Remembered s r) (hfits : ¬r.limit < (spent r.key r.window s.log + r.cost : ℕ)) :
    Exact (step s r) := by
  have hscript : (takeScript s.valkey r).2 = true := by
    simp only [takeScript, counted_valkey he hr, if_neg hfits]
  have hlocal : (takeLocal s.local_ r).2 = true := by
    simp only [takeLocal, counted_local he hr, if_neg hfits]
  constructor
  · intro e hmem
    simp only [step, hscript, hlocal, List.mem_cons] at hmem
    obtain rfl | hmem := hmem
    · rfl
    · exact he.same e hmem
  · simp only [step, hscript, hlocal, Within, spent_accepted]
    refine ⟨fun _ => ?_, he.within⟩
    rw [if_pos ⟨trivial, trivial⟩, Nat.add_comm]
    exact not_lt.mp hfits
  · intro key window c hc
    simp only [step, hscript, spent_accepted]
    simp only [step, takeScript, counted_valkey he hr, if_neg hfits] at hc
    by_cases hk : (key, window) = (r.key, r.window)
    · rw [hk, Function.update_self] at hc
      obtain ⟨rfl, rfl⟩ := Prod.mk.inj hk
      obtain rfl := Option.some.inj hc
      simp [Nat.add_comm]
    · rw [Function.update_of_ne hk] at hc
      rw [if_neg fun h => hk (by rw [h.1, h.2]), Nat.zero_add]
      exact he.valkey_spent key window c hc
  · intro key slot hs
    simp only [step, hscript, spent_accepted]
    simp only [step, takeLocal, counted_local he hr, if_neg hfits] at hs
    split_ifs at hs with hfull
    · simp at hs
    · by_cases hk : key = r.key
      · rw [hk, AList.lookup_insert] at hs
        obtain rfl := Option.some.inj hs
        simp [hk, Nat.add_comm]
      · rw [AList.lookup_insert_ne hk] at hs
        rw [if_neg fun h => hk h.1.symm, Nat.zero_add]
        exact he.local_spent key slot hs

theorem Exact.step (he : Exact s) (hr : Remembered s r) : Exact (step s r) := by
  by_cases h : r.limit < (spent r.key r.window s.log + r.cost : ℕ)
  · exact he.refused hr h
  · exact he.accepted hr h

end

/-- In a sequence of requests of which none finds that what its key has spent in its window is
forgotten, both paths give the same verdicts and keep to the limits. -/
theorem same_verdicts (rs : List Request) (hr : Meets step Remembered {} rs) : Throughout step Exact {} rs := by
  refine hr.throughout (fun s r he h => he.step h) ⟨by simp, trivial, by simp, ?_⟩
  intro key slot hs
  simp at hs

def perMinute (cost : ℕ) (now : ℤ) : Request := ⟨"k", cost, 10, 60, now, now⟩

/-- Three requests of one minute, one of them refused, and one of the next. -/
theorem minute_same : Throughout step Exact {} [perMinute 6 60000, perMinute 6 61000, perMinute 4 62000, perMinute 10 120000] :=
  same_verdicts _ (by decide +kernel)

/-- Times that go back over the edge of a window and come again: the map has forgotten the ten
that were spent, and accepts ten more. -/
theorem edge_forgotten :
    let s := run step {} [perMinute 10 60000, perMinute 1 59000, perMinute 10 61000]
    (s.log.map fun e => (e.inProcess.ok, e.script.ok)) = [(true, false), (true, true), (true, true)] ∧ ¬Exact s := by
  refine ⟨by decide +kernel, fun h => ?_⟩
  have := h.same ⟨perMinute 10 61000, ⟨true, 0⟩, ⟨false, 59⟩⟩ (by decide +kernel)
  exact absurd this (by decide)

end Upstat.QuotaWindows
