import Mathlib.Data.List.Induction
import Mathlib.Tactic.Linarith
import Upstat.MonitorMachine

/-! # What a monitor's transitions say about its ticks (`evaluator/machine.py`)

Under one threshold and one quorum the machine's counter, status and transitions are
read off the ticks and the no-data checks that came before. -/
namespace Upstat.MonitorTraces

open MonitorMachine

/-- What the machine of one monitor is given: a closed tick, or a check of the no-data
timer. -/
inductive Event where
  | tick (tick : Tick)
  | check (now : ℚ) (intervalS : ℕ)
  deriving DecidableEq

/-- The verdict of a decided tick, `some true` for a failed one. -/
def Event.verdict (minFailingRegions : ℕ) : Event → Option Bool
  | .tick closed => tickFailed closed.results minFailingRegions
  | .check _ _ => none

/-- When a result came, for a tick some region reported on. -/
def Event.resultAt : Event → Option ℚ
  | .tick closed => if closed.results = [] then none else some closed.at_
  | .check _ _ => none

def Event.input (threshold minFailingRegions : ℕ) : Event → Input
  | .tick closed => .tick closed threshold minFailingRegions
  | .check now intervalS => .timer now intervalS

variable (threshold minFailingRegions : ℕ)

/-- The state after the events, from the initial one. -/
def after (es : List Event) : MonitorState :=
  es.foldl (fun state e => (advance state (e.input threshold minFailingRegions)).1) {}

/-- The transition that an event is answered with after the events before it. -/
def emitted (es : List Event) (e : Event) : Option Transition :=
  (advance (after threshold minFailingRegions es) (e.input threshold minFailingRegions)).2

/-- How many decided ticks failed since the last one that passed. -/
def failedSincePass (es : List Event) : ℕ :=
  ((es.filterMap (Event.verdict minFailingRegions)).reverse.takeWhile (· = true)).length

/-- When the results came, in the order of their ticks. -/
def resultTimes (es : List Event) : List ℚ := es.filterMap Event.resultAt

theorem after_append (es : List Event) (e : Event) :
    after threshold minFailingRegions (es ++ [e]) =
      (advance (after threshold minFailingRegions es) (e.input threshold minFailingRegions)).1 := by
  simp [after, List.foldl_append]

/-! ## The counts and times of a history with one more event -/

section

variable {threshold minFailingRegions : ℕ} (es : List Event) {e : Event}

theorem failedSincePass_undecided (h : e.verdict minFailingRegions = none) :
    failedSincePass minFailingRegions (es ++ [e]) = failedSincePass minFailingRegions es := by
  simp [failedSincePass, h]

theorem failedSincePass_passed (h : e.verdict minFailingRegions = some false) :
    failedSincePass minFailingRegions (es ++ [e]) = 0 := by
  simp [failedSincePass, h]

theorem failedSincePass_failed (h : e.verdict minFailingRegions = some true) :
    failedSincePass minFailingRegions (es ++ [e]) = failedSincePass minFailingRegions es + 1 := by
  simp [failedSincePass, h]

theorem resultTimes_append : resultTimes (es ++ [e]) = resultTimes es ++ e.resultAt.toList := by
  cases h : e.resultAt <;> simp [resultTimes, h]

end

/-! ## The machine's invariant -/

/-- What a state holds after the events. A monitor that is not paused is down from the
tick on at which the failed ticks reached the threshold, until one passes. -/
structure Holds (es : List Event) (state : MonitorState) : Prop where
  failures : state.consecutiveFailures = failedSincePass minFailingRegions es
  last : state.lastResultAt = (resultTimes es).getLast?
  running : state.status ≠ .paused
  down_iff : state.status = .down ↔ max 1 threshold ≤ failedSincePass minFailingRegions es

variable {threshold minFailingRegions : ℕ} {es : List Event} {state : MonitorState}

theorem holds_nil : Holds threshold minFailingRegions [] {} := by
  refine ⟨rfl, rfl, by simp, ?_⟩
  simp [failedSincePass]

/-- What leaves the counts and times of a history alone may leave the state. -/
theorem Holds.undecided {e : Event} (h : Holds threshold minFailingRegions es state)
    (hverdict : e.verdict minFailingRegions = none) (hresult : e.resultAt = none) :
    Holds threshold minFailingRegions (es ++ [e]) state := by
  refine ⟨?_, ?_, h.running, ?_⟩
  · rw [failedSincePass_undecided es hverdict]
    exact h.failures
  · rw [resultTimes_append, hresult]
    simpa using h.last
  · rw [failedSincePass_undecided es hverdict]
    exact h.down_iff

theorem Holds.tick (h : Holds threshold minFailingRegions es state) (tick : Tick) :
    Holds threshold minFailingRegions (es ++ [.tick tick]) (applyTick state tick threshold minFailingRegions).1 := by
  have hlast : (tick.results ≠ []) → (resultTimes (es ++ [Event.tick tick])).getLast? = some tick.at_ := by
    intro hres
    rw [resultTimes_append]
    simp [Event.resultAt, hres]
  rw [applyTick, if_neg h.running]
  rcases hfailed : tickFailed tick.results minFailingRegions with _ | _ | _
  · -- No region reported.
    have hres : tick.results = [] := (tickFailed_eq_none _ _).mp hfailed
    exact h.undecided hfailed (by simp [Event.resultAt, hres])
  · have hres : tick.results ≠ [] := fun hnil => by
      rw [(tickFailed_eq_none _ _).mpr hnil] at hfailed
      cases hfailed
    have hzero : failedSincePass minFailingRegions (es ++ [Event.tick tick]) = 0 :=
      failedSincePass_passed es hfailed
    dsimp only
    split
    · next hup => exact ⟨hzero.symm, (hlast hres).symm, h.running, by simp [hzero, hup]⟩
    · exact ⟨by simp [move, hzero], by simp [move, hlast hres], by simp [move], by simp [move, hzero]⟩
  · have hres : tick.results ≠ [] := fun hnil => by
      rw [(tickFailed_eq_none _ _).mpr hnil] at hfailed
      cases hfailed
    have hsucc : failedSincePass minFailingRegions (es ++ [Event.tick tick]) = failedSincePass minFailingRegions es + 1 :=
      failedSincePass_failed es hfailed
    dsimp only
    split
    · next hdown =>
      have hmax := h.down_iff.mp hdown
      refine ⟨by simp [hsucc, h.failures], (hlast hres).symm, h.running, ?_⟩
      rw [hsucc]
      exact iff_of_true hdown (by omega)
    · next hdown =>
      split
      · next hmax =>
        rw [h.failures] at hmax
        exact ⟨by simp [move, hsucc, h.failures], by simp [move, hlast hres], by simp [move], by simp [move, hsucc, hmax]⟩
      · next hmax =>
        rw [h.failures] at hmax
        refine ⟨by simp [hsucc, h.failures], (hlast hres).symm, h.running, ?_⟩
        rw [hsucc]
        exact iff_of_false hdown hmax

theorem Holds.check (h : Holds threshold minFailingRegions es state) (now : ℚ) (intervalS : ℕ) :
    Holds threshold minFailingRegions (es ++ [.check now intervalS]) (checkNodata state now intervalS).1 := by
  have hkept : Holds threshold minFailingRegions (es ++ [.check now intervalS]) state := h.undecided rfl rfl
  unfold checkNodata
  split
  · exact hkept
  · split
    · exact hkept
    · next hdue =>
      -- Up is not down, so the threshold is not reached, nor is it in the state entered.
      have hup : state.status = .up := by
        by_contra hne
        exact hdue (.inl hne)
      refine ⟨hkept.failures, hkept.last, by simp [move], ?_⟩
      rw [← hkept.down_iff]
      simp [move, hup]

variable (threshold minFailingRegions)

theorem holds_after (es : List Event) : Holds threshold minFailingRegions es (after threshold minFailingRegions es) := by
  induction es using List.reverseRecOn with
  | nil => exact holds_nil
  | append_singleton es e ih =>
    rw [after_append]
    cases e with
    | tick tick => exact ih.tick tick
    | check now intervalS => exact ih.check now intervalS

/-! ## The transitions -/

variable {threshold minFailingRegions}

/-- A tick takes a monitor down where its failures reach the threshold. -/
theorem Holds.down (h : Holds threshold minFailingRegions es state) (tick : Tick) :
    (∃ t, (applyTick state tick threshold minFailingRegions).2 = some t ∧ t.toStatus = .down) ↔
      state.status ≠ .down ∧ tickFailed tick.results minFailingRegions = some true ∧
        failedSincePass minFailingRegions (es ++ [.tick tick]) = max 1 threshold := by
  rw [applyTick, if_neg h.running]
  rcases hfailed : tickFailed tick.results minFailingRegions with _ | _ | _
  · simp
  · dsimp only
    split <;> simp [move]
  · have hsucc : failedSincePass minFailingRegions (es ++ [Event.tick tick]) = failedSincePass minFailingRegions es + 1 :=
      failedSincePass_failed es hfailed
    dsimp only
    split
    · next hdown => simp [hdown]
    · next hdown =>
      -- Not down, the failures before this one had not reached the threshold.
      have hbelow : ¬ max 1 threshold ≤ failedSincePass minFailingRegions es := fun hle => hdown (h.down_iff.mpr hle)
      rw [h.failures, hsucc]
      split
      · next hmax =>
        refine iff_of_true ⟨_, rfl, rfl⟩ ⟨hdown, rfl, ?_⟩
        omega
      · next hmax =>
        refine iff_of_false (by simp) ?_
        rintro ⟨-, -, heq⟩
        omega

theorem Holds.nodata (h : Holds threshold minFailingRegions es state) (now : ℚ) (intervalS : ℕ) :
    (∃ t, (checkNodata state now intervalS).2 = some t ∧ t.toStatus = .nodata) ↔
      state.status = .up ∧ ∃ last ∈ (resultTimes es).getLast?, 2 * (intervalS : ℚ) < now - last := by
  unfold checkNodata
  rw [h.last]
  rcases (resultTimes es).getLast? with _ | last
  · simp
  · dsimp only
    split
    · next hkept =>
      refine iff_of_false (by simp) ?_
      rintro ⟨hup, l, hl, hlate⟩
      cases hl
      rcases hkept with hne | hle
      · exact hne hup
      · exact absurd hlate (not_lt.mpr hle)
    · next hdue =>
      have hboth := not_or.mp hdue
      exact iff_of_true ⟨_, rfl, rfl⟩ ⟨not_not.mp hboth.1, last, rfl, not_le.mp hboth.2⟩

theorem not_nodata_of_tick (state : MonitorState) (tick : Tick) {t : Transition}
    (h : (applyTick state tick threshold minFailingRegions).2 = some t) : t.toStatus ≠ .nodata := by
  unfold applyTick at h
  split at h
  · cases h
  · split at h
    · cases h
    · dsimp only at h
      split at h
      · cases h
      · cases h
        simp
    · dsimp only at h
      split at h
      · cases h
      · split at h
        · cases h
          simp
        · cases h

theorem not_down_of_check (state : MonitorState) (now : ℚ) (intervalS : ℕ) {t : Transition}
    (h : (checkNodata state now intervalS).2 = some t) : t.toStatus ≠ .down := by
  unfold checkNodata at h
  split at h
  · cases h
  · split at h
    · cases h
    · cases h
      simp

theorem Holds.passed (h : Holds threshold minFailingRegions es state) {tick : Tick}
    (hpass : tickFailed tick.results minFailingRegions = some false) :
    (applyTick state tick threshold minFailingRegions).1.status = .up := by
  rw [applyTick, if_neg h.running, hpass]
  dsimp only
  split
  · assumption
  · rfl

theorem Holds.unreported (h : Holds threshold minFailingRegions es state) {tick : Tick} (hres : tick.results = []) :
    (applyTick state tick threshold minFailingRegions).2 = none := by
  rw [applyTick, if_neg h.running, (tickFailed_eq_none _ _).mpr hres]

/-- The last of times in order is the latest. -/
theorem le_getLast_of_pairwise {ts : List ℚ} (hts : ts.Pairwise (· ≤ ·)) {last : ℚ} (hlast : last ∈ ts.getLast?) :
    ∀ at_ ∈ ts, at_ ≤ last := by
  induction ts using List.reverseRecOn with
  | nil => simp
  | append_singleton ts t _ =>
    simp only [List.getLast?_append, List.getLast?_singleton, Option.some_or, Option.mem_def, Option.some.injEq] at hlast
    subst hlast
    intro at_ hat
    rcases List.mem_append.mp hat with hat | hat
    · exact (List.pairwise_append.mp hts).2.2 at_ hat t (by simp)
    · rw [List.mem_singleton.mp hat]

/-- After any events the counter is the number of failed ticks since the last that
passed; the next event takes the monitor down exactly where that number reaches the
threshold, up where a tick passes, to no data exactly where it is up and its last result
is older than two intervals; and the transitions chain. -/
theorem machine_traced (threshold minFailingRegions : ℕ) (es : List Event) (e : Event) :
    (after threshold minFailingRegions es).consecutiveFailures = failedSincePass minFailingRegions es ∧
    ((∃ t, emitted threshold minFailingRegions es e = some t ∧ t.toStatus = .down) ↔
      (after threshold minFailingRegions es).status ≠ .down ∧ e.verdict minFailingRegions = some true ∧
        failedSincePass minFailingRegions (es ++ [e]) = max 1 threshold) ∧
    (e.verdict minFailingRegions = some false → (after threshold minFailingRegions (es ++ [e])).status = .up) ∧
    ((∃ t, emitted threshold minFailingRegions es e = some t ∧ t.toStatus = .nodata) ↔
      (after threshold minFailingRegions es).status = .up ∧ ∃ now intervalS, e = .check now intervalS ∧
        ∃ last ∈ (resultTimes es).getLast?, 2 * (intervalS : ℚ) < now - last) ∧
    (∀ now intervalS, (∃ t, emitted threshold minFailingRegions es (.check now intervalS) = some t) →
      (resultTimes es).Pairwise (· ≤ ·) → ∀ at_ ∈ resultTimes es, 2 * (intervalS : ℚ) < now - at_) ∧
    (∀ tick, e = .tick tick → tick.results = [] → emitted threshold minFailingRegions es e = none) ∧
    Chain .pending 0 (decisions {} (es.map (Event.input threshold minFailingRegions))) := by
  have h := holds_after threshold minFailingRegions es
  refine ⟨h.failures, ?_, ?_, ?_, ?_, ?_, chain_decisions {} _⟩
  · cases e with
    | tick tick => exact h.down tick
    | check now intervalS =>
      refine iff_of_false ?_ (by simp [Event.verdict])
      rintro ⟨t, ht, hdown⟩
      exact not_down_of_check _ _ _ ht hdown
  · intro hpass
    rw [after_append]
    cases e with
    | tick tick => exact h.passed hpass
    | check now intervalS => cases hpass
  · cases e with
    | tick tick =>
      refine iff_of_false ?_ (by simp)
      rintro ⟨t, ht, hnodata⟩
      exact not_nodata_of_tick _ _ ht hnodata
    | check now intervalS =>
      have hiff := h.nodata now intervalS
      constructor
      · intro hex
        obtain ⟨hup, hlate⟩ := hiff.mp hex
        exact ⟨hup, now, intervalS, rfl, hlate⟩
      · rintro ⟨hup, now', intervalS', heq, hlate⟩
        cases heq
        exact hiff.mpr ⟨hup, hlate⟩
  · rintro now intervalS ⟨t, ht⟩ hsorted at_ hat
    have hnodata : t.toStatus = .nodata := by
      have hm := (moves_checkNodata (after threshold minFailingRegions es) now intervalS).moved t ht
      have hup := status_of_checkNodata (Prod.ext rfl ht)
      have hmem := hm.2.2.2.2.2.1
      have hne := hm.2.2.2.2.1
      rw [hm.1, hup] at hne
      have hdown := not_down_of_check _ _ _ ht
      simp only [List.mem_cons, List.not_mem_nil, or_false] at hmem
      rcases hmem with hto | hto | hto
      · exact absurd hto hne
      · exact absurd hto hdown
      · exact hto
    obtain ⟨-, last, hlast, hlate⟩ := (h.nodata now intervalS).mp ⟨t, ht, hnodata⟩
    have hle := le_getLast_of_pairwise hsorted hlast at_ hat
    linarith
  · intro tick heq hres
    subst heq
    exact h.unreported hres

end Upstat.MonitorTraces
