import Mathlib.Data.Rat.Defs
import Mathlib.Data.Rat.Floor

/-! # The monitor state machine and its quorum (`evaluator/machine.py`)

Times are epoch seconds. A tick passes when fewer regions failed than the quorum, going
down takes `threshold` failed ticks in a row, coming up takes one pass. -/
namespace Upstat.MonitorMachine

inductive Status where
  | pending | up | down | nodata | paused
  deriving DecidableEq, Repr

structure MonitorState where
  status : Status := .pending
  consecutiveFailures : ℕ := 0
  seq : ℕ := 0
  /-- When the last tick some region reported on was. -/
  lastResultAt : Option ℚ := none
  deriving DecidableEq

/-- Each reporting region's verdict, missing regions excluded. -/
abbrev Results := List (String × Bool)

/-- One closed tick. -/
structure Tick where
  results : Results
  cause : String
  at_ : ℚ
  deriving DecidableEq

structure Transition where
  fromStatus : Status
  toStatus : Status
  cause : String
  consecutiveFailures : ℕ
  seq : ℕ
  deriving DecidableEq, Repr

/-- The verdict of a decided tick; `none` when no region reported. -/
def tickFailed (results : Results) (minFailingRegions : ℕ) : Option Bool :=
  if results = [] then none
  else
    let failing := results.countP fun r => !r.2
    let quorum := max 1 minFailingRegions
    if results.length < quorum then some (failing = results.length) else some (quorum ≤ failing)

def move (state : MonitorState) (to_ : Status) (cause : String) (failures : ℕ) :
    MonitorState × Option Transition :=
  let seq := state.seq + 1
  ({ state with status := to_, consecutiveFailures := if to_ = .up then 0 else failures, seq := seq },
    some ⟨state.status, to_, cause, failures, seq⟩)

/-- The state advanced by one closed tick. -/
def applyTick (state : MonitorState) (tick : Tick) (threshold minFailingRegions : ℕ) :
    MonitorState × Option Transition :=
  if state.status = .paused then (state, none)
  else
    match tickFailed tick.results minFailingRegions with
    | none => (state, none)
    | some false =>
      let state := { state with lastResultAt := some tick.at_ }
      if state.status = .up then ({ state with consecutiveFailures := 0 }, none)
      else move state .up "" 0
    | some true =>
      let state := { state with lastResultAt := some tick.at_ }
      let failures := state.consecutiveFailures + 1
      if state.status = .down then ({ state with consecutiveFailures := failures }, none)
      else if max 1 threshold ≤ failures then
        move state .down (if tick.cause = "" then "error" else tick.cause) failures
      else ({ state with consecutiveFailures := failures }, none)

/-- Up becomes nodata when no check completed for two intervals. -/
def checkNodata (state : MonitorState) (now : ℚ) (intervalS : ℕ) : MonitorState × Option Transition :=
  match state.lastResultAt with
  | none => (state, none)
  | some last =>
    if state.status ≠ .up ∨ now - last ≤ 2 * intervalS then (state, none)
    else move state .nodata "" state.consecutiveFailures

/-! ## What a step of the machine can do -/

/-- A transition leaves the status it names for another one, under the next number, and
the status it enters is kept; without one the status and the number stay. -/
structure Moves (state : MonitorState) (r : MonitorState × Option Transition) : Prop where
  stays : r.2 = none → r.1.status = state.status ∧ r.1.seq = state.seq
  moved : ∀ t, r.2 = some t → t.fromStatus = state.status ∧ t.toStatus = r.1.status ∧ t.seq = state.seq + 1 ∧
    r.1.seq = state.seq + 1 ∧ t.toStatus ≠ t.fromStatus ∧ t.toStatus ∈ [Status.up, .down, .nodata] ∧
    (t.toStatus = .nodata → t.fromStatus = .up)

theorem moves_stays {state state' : MonitorState} (hstatus : state'.status = state.status)
    (hseq : state'.seq = state.seq) : Moves state (state', none) :=
  ⟨fun _ => ⟨hstatus, hseq⟩, fun _ h => by cases h⟩

theorem moves_move {state state' : MonitorState} {to_ : Status} {cause : String} {failures : ℕ}
    (hstatus : state'.status = state.status) (hseq : state'.seq = state.seq) (hto : to_ ≠ state.status)
    (hmem : to_ ∈ [Status.up, .down, .nodata]) (hnodata : to_ = .nodata → state.status = .up) :
    Moves state (move state' to_ cause failures) := by
  refine ⟨fun h => by simp [move] at h, fun t h => ?_⟩
  simp only [move, Option.some.injEq] at h
  subst h
  simp only [move, hstatus, hseq]
  exact ⟨trivial, trivial, trivial, trivial, hto, hmem, hnodata⟩

theorem moves_applyTick (state : MonitorState) (tick : Tick) (threshold minFailingRegions : ℕ) :
    Moves state (applyTick state tick threshold minFailingRegions) := by
  unfold applyTick
  split
  · exact moves_stays rfl rfl
  · split
    · exact moves_stays rfl rfl
    · -- A pass: up stays up, anything else comes up.
      dsimp only
      split
      · exact moves_stays rfl rfl
      · next hup => exact moves_move rfl rfl (Ne.symm hup) (by simp) (by simp)
    · -- A failure: down stays down, anything else goes down at the threshold.
      dsimp only
      split
      · exact moves_stays rfl rfl
      · next hdown =>
        split
        · exact moves_move rfl rfl (Ne.symm hdown) (by simp) (by simp)
        · exact moves_stays rfl rfl

theorem moves_checkNodata (state : MonitorState) (now : ℚ) (intervalS : ℕ) :
    Moves state (checkNodata state now intervalS) := by
  unfold checkNodata
  split
  · exact moves_stays rfl rfl
  · split
    · exact moves_stays rfl rfl
    · next h =>
      have hup : state.status = .up := by
        by_contra hne
        exact h (.inl hne)
      exact moves_move rfl rfl (by simp [hup]) (by simp) (fun _ => hup)

theorem Moves.seq_le {state : MonitorState} {r : MonitorState × Option Transition} (h : Moves state r) :
    state.seq ≤ r.1.seq := by
  cases ht : r.2 with
  | none => exact (h.stays ht).2.ge
  | some t =>
    obtain ⟨-, -, -, hseq, -⟩ := h.moved t ht
    omega

theorem tickFailed_eq_none (results : Results) (minFailingRegions : ℕ) :
    tickFailed results minFailingRegions = none ↔ results = [] := by
  unfold tickFailed
  by_cases h : results = [] <;> simp only [h, if_true, if_false]
  split <;> simp

/-- A tick some region reported on sets the time of the last result, and only such a tick. -/
theorem lastResultAt_applyTick (state : MonitorState) (tick : Tick) (threshold minFailingRegions : ℕ) :
    (applyTick state tick threshold minFailingRegions).1.lastResultAt =
      if state.status ≠ .paused ∧ tick.results ≠ [] then some tick.at_ else state.lastResultAt := by
  by_cases hpaused : state.status = .paused
  · simp [applyTick, hpaused]
  by_cases hres : tick.results = []
  · rw [if_neg (by simp [hres]), applyTick, if_neg hpaused, (tickFailed_eq_none _ _).mpr hres]
  · rw [if_pos ⟨hpaused, hres⟩, applyTick, if_neg hpaused]
    rcases hfailed : tickFailed tick.results minFailingRegions with _ | _ | _
    · exact absurd ((tickFailed_eq_none _ _).mp hfailed) hres
    · dsimp only
      split <;> rfl
    · dsimp only
      split
      · rfl
      · split <;> rfl

theorem lastResultAt_checkNodata (state : MonitorState) (now : ℚ) (intervalS : ℕ) :
    (checkNodata state now intervalS).1.lastResultAt = state.lastResultAt := by
  unfold checkNodata
  split
  · rfl
  · split <;> rfl

/-- The timer decides only where a last result is known. -/
theorem lastResultAt_of_checkNodata {state st : MonitorState} {now : ℚ} {intervalS : ℕ} {t : Transition}
    (h : checkNodata state now intervalS = (st, some t)) : state.lastResultAt ≠ none := by
  intro hnone
  simp [checkNodata, hnone] at h

theorem status_of_checkNodata {state st : MonitorState} {now : ℚ} {intervalS : ℕ} {t : Transition}
    (h : checkNodata state now intervalS = (st, some t)) : state.status = .up := by
  unfold checkNodata at h
  split at h
  · cases h
  · split at h
    · cases h
    · next hup =>
      by_contra hne
      exact hup (.inl hne)

/-- A tick that does not pass leaves the status, or takes it down. -/
theorem status_applyTick_of_not_passed {state : MonitorState} (tick : Tick) {threshold minFailingRegions : ℕ}
    (h : tickFailed tick.results minFailingRegions ≠ some false) :
    (applyTick state tick threshold minFailingRegions).1.status = state.status ∨
      (applyTick state tick threshold minFailingRegions).1.status = .down := by
  unfold applyTick
  split
  · exact .inl rfl
  · split
    · exact .inl rfl
    · next hfalse => exact absurd hfalse h
    · dsimp only
      split
      · exact .inl rfl
      · split
        · exact .inr rfl
        · exact .inl rfl

/-- A pass brings up a monitor that is not. -/
theorem applyTick_passed {state : MonitorState} (tick : Tick) (threshold : ℕ) {minFailingRegions : ℕ}
    (hpaused : state.status ≠ .paused) (hup : state.status ≠ .up)
    (h : tickFailed tick.results minFailingRegions = some false) :
    ∃ t, (applyTick state tick threshold minFailingRegions).2 = some t ∧ t.toStatus = .up := by
  rw [applyTick, if_neg hpaused, h]
  dsimp only
  rw [if_neg hup]
  exact ⟨_, rfl, rfl⟩

/-! ## The history of one monitor -/

/-- What drives the machine: a closed tick under the settings of that moment, or the
no-data timer. -/
inductive Input where
  | tick (tick : Tick) (threshold minFailingRegions : ℕ)
  | timer (now : ℚ) (intervalS : ℕ)

def advance (state : MonitorState) : Input → MonitorState × Option Transition
  | .tick tick threshold minFailingRegions => applyTick state tick threshold minFailingRegions
  | .timer now intervalS => checkNodata state now intervalS

theorem moves_advance (state : MonitorState) (i : Input) : Moves state (advance state i) := by
  cases i with
  | tick tick threshold minFailingRegions => exact moves_applyTick state tick threshold minFailingRegions
  | timer now intervalS => exact moves_checkNodata state now intervalS

/-- The transitions decided from the state on, oldest first. -/
def decisions (state : MonitorState) : List Input → List Transition
  | [] => []
  | i :: is => (advance state i).2.toList ++ decisions (advance state i).1 is

/-- Consecutive transitions from a status and a number on. -/
def Chain (s : Status) (n : ℕ) : List Transition → Prop
  | [] => True
  | t :: ts => t.fromStatus = s ∧ t.seq = n + 1 ∧ t.toStatus ≠ t.fromStatus ∧
      t.toStatus ∈ [Status.up, .down, .nodata] ∧ (t.toStatus = .nodata → t.fromStatus = .up) ∧
      Chain t.toStatus t.seq ts

theorem chain_decisions (state : MonitorState) (is : List Input) :
    Chain state.status state.seq (decisions state is) := by
  induction is generalizing state with
  | nil => trivial
  | cons i is ih =>
    have hm := moves_advance state i
    have hrest := ih (advance state i).1
    cases ht : (advance state i).2 with
    | none =>
      obtain ⟨hstatus, hseq⟩ := hm.stays ht
      simpa [decisions, ht, hstatus, hseq] using hrest
    | some t =>
      obtain ⟨hfrom, hto, hseq, hseq', hne, hmem, hnodata⟩ := hm.moved t ht
      simp only [decisions, ht, Option.toList_some, List.cons_append, List.nil_append, Chain]
      refine ⟨hfrom, hseq, hne, hmem, hnodata, ?_⟩
      rwa [hto, hseq, ← hseq']

end Upstat.MonitorMachine
