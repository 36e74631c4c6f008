import Mathlib.Tactic.Ring
import Upstat.MonitorMachine
import Upstat.SeriesAssembly

/-! # The status of a monitor on read (`common/internal/service/monitors.go`)

`lazyNodata` shows a monitor without a recent check as one without data, and the evaluator's sweep makes it one.
Here an instant is counted in nanoseconds, in the evaluator in seconds. -/
namespace Upstat.StaleReads

open MonitorMachine
open SeriesAssembly (maxInt64 mul64 nsPerSecond)

/-- A monitor's row. Its interval is an `integer` of the database. -/
structure Monitor where
  active : Bool
  status : Status
  intervalSeconds : ℕ
  lastCheckedAt : Option ℤ
  interval_lt : intervalSeconds < 2 ^ 31

/-- `Sub`, which saturates. -/
def sub (a b : ℤ) : ℤ := max (-2 ^ 63) (min maxInt64 (a - b))

/-- The status after `lazyNodata`. -/
def lazyNodata (now : ℤ) (m : Monitor) : Status :=
  if m.active = false ∨ m.status = .pending then m.status
  else
    match m.lastCheckedAt with
    | none => m.status
    | some last => if mul64 (mul64 2 m.intervalSeconds) nsPerSecond < sub now last then .nodata else m.status

def seconds (t : ℤ) : ℚ := t / nsPerSecond

/-- The status after the evaluator's sweep has come to the monitor, of which it has this state. -/
def swept (now : ℤ) (m : Monitor) (state : MonitorState) : Status :=
  if m.active then (checkNodata state (seconds now) m.intervalSeconds).1.status else state.status

/-- No check completed for two intervals. -/
def Stale (now : ℤ) (m : Monitor) : Prop := ∃ last ∈ m.lastCheckedAt, 2 * m.intervalSeconds * nsPerSecond < now - last

/-! ## Durations -/

theorem lt_sub_iff {a b d : ℤ} (hmin : -2 ^ 63 ≤ d) (hmax : d < maxInt64) : d < sub a b ↔ d < a - b := by
  rw [sub, lt_max_iff, lt_min_iff]
  omega

theorem duration_eq (m : Monitor) : mul64 (mul64 2 m.intervalSeconds) nsPerSecond = 2 * m.intervalSeconds * nsPerSecond := by
  have hlt := m.interval_lt
  have hinner : mul64 2 m.intervalSeconds = 2 * m.intervalSeconds := by
    rw [mul64, Int.bmod_eq_of_le_mul_two] <;> omega
  rw [hinner, mul64, nsPerSecond, Int.bmod_eq_of_le_mul_two] <;> omega

theorem stale_iff_sub {now last : ℤ} (m : Monitor) :
    mul64 (mul64 2 m.intervalSeconds) nsPerSecond < sub now last ↔ 2 * m.intervalSeconds * nsPerSecond < now - last := by
  have hlt := m.interval_lt
  rw [duration_eq, lt_sub_iff]
  · rw [nsPerSecond]
    omega
  · rw [nsPerSecond, maxInt64]
    omega

theorem stale_iff_seconds {now last : ℤ} (n : ℕ) : 2 * n * nsPerSecond < now - last ↔ ¬seconds now - seconds last ≤ 2 * n := by
  have hpos : (0 : ℚ) < (nsPerSecond : ℚ) := by
    rw [nsPerSecond]
    norm_num
  have hsub : seconds now - seconds last = ((now - last : ℤ) : ℚ) / nsPerSecond := by
    rw [seconds, seconds, Int.cast_sub]
    ring
  rw [hsub, not_le, lt_div_iff₀ hpos]
  exact_mod_cast Iff.rfl

/-! ## The two rules -/

theorem lazyNodata_eq (now : ℤ) (m : Monitor) :
    (m.active = true ∧ m.status ≠ .pending ∧ Stale now m → lazyNodata now m = .nodata) ∧
      (¬(m.active = true ∧ m.status ≠ .pending ∧ Stale now m) → lazyNodata now m = m.status) := by
  unfold lazyNodata Stale
  constructor
  · rintro ⟨hactive, hstatus, last, hlast, hstale⟩
    rw [if_neg (by simp [hactive, hstatus]), Option.mem_def.mp hlast]
    simp only
    rw [if_pos ((stale_iff_sub m).mpr hstale)]
  · intro h
    split
    · rfl
    · rename_i hshown
      push Not at hshown
      split
      · rfl
      · rename_i last hlast
        apply if_neg
        intro hsub
        exact h ⟨by simpa using hshown.1, hshown.2, last, hlast, (stale_iff_sub m).mp hsub⟩

theorem swept_eq {now : ℤ} {m : Monitor} {state : MonitorState} (hstatus : state.status = m.status)
    (hlast : state.lastResultAt = m.lastCheckedAt.map seconds) :
    (m.active = true ∧ m.status = .up ∧ Stale now m → swept now m state = .nodata) ∧
      (¬(m.active = true ∧ m.status = .up ∧ Stale now m) → swept now m state = m.status) := by
  unfold swept checkNodata Stale
  constructor
  · rintro ⟨hactive, hup, last, hmem, hstale⟩
    rw [if_pos hactive, hlast, Option.mem_def.mp hmem]
    simp only [Option.map_some]
    rw [if_neg]
    · rfl
    · rintro (hne | hle)
      · exact hne (hstatus.trans hup)
      · exact (stale_iff_seconds _).mp hstale hle
  · intro h
    split
    · rename_i hactive
      cases hm : m.lastCheckedAt with
      | none =>
        rw [hlast, hm]
        exact hstatus
      | some last =>
        rw [hlast, hm]
        simp only [Option.map_some]
        rw [if_pos]
        · exact hstatus
        · by_contra hboth
          push Not at hboth
          refine h ⟨hactive, hstatus ▸ hboth.1, last, hm, (stale_iff_seconds _).mpr ?_⟩
          exact not_le.mpr hboth.2
    · exact hstatus

/-- The two agree unless the monitor is active and down, or paused, and no check of it completed for two intervals. -/
theorem nodata_agrees_iff (now : ℤ) (m : Monitor) (state : MonitorState) (hstatus : state.status = m.status)
    (hlast : state.lastResultAt = m.lastCheckedAt.map seconds) :
    lazyNodata now m = swept now m state ↔ ¬(m.active = true ∧ (m.status = .down ∨ m.status = .paused) ∧ Stale now m) := by
  obtain ⟨hshown, hkept⟩ := lazyNodata_eq now m
  have hswept : (m.active = true ∧ m.status = .up ∧ Stale now m → swept now m state = .nodata) ∧
      (¬(m.active = true ∧ m.status = .up ∧ Stale now m) → swept now m state = m.status) := swept_eq hstatus hlast
  obtain ⟨hmade, hleft⟩ := hswept
  by_cases hstale : m.active = true ∧ Stale now m
  · obtain ⟨hactive, hstale⟩ := hstale
    cases hm : m.status with
    | pending =>
      rw [hkept (by simp [hm]), hleft (by simp [hm])]
      simp
    | up =>
      rw [hshown ⟨hactive, by simp [hm], hstale⟩, hmade ⟨hactive, hm, hstale⟩]
      simp
    | nodata =>
      rw [hshown ⟨hactive, by simp [hm], hstale⟩, hleft (by simp [hm]), hm]
      simp
    | down =>
      rw [hshown ⟨hactive, by simp [hm], hstale⟩, hleft (by simp [hm]), hm]
      simp [hactive, hstale]
    | paused =>
      rw [hshown ⟨hactive, by simp [hm], hstale⟩, hleft (by simp [hm]), hm]
      simp [hactive, hstale]
  · rw [hkept fun h => hstale ⟨h.1, h.2.2⟩, hleft fun h => hstale ⟨h.1, h.2.2⟩]
    simp only [true_iff]
    exact fun h => hstale ⟨h.1, h.2.2⟩

/-- A monitor checked every minute, for the last time at the beginning of 1970. -/
def checked (status : Status) : Monitor := ⟨true, status, 60, some 0, by decide⟩

theorem nodata_agrees_up : lazyNodata 180000000000 (checked .up) =
    swept 180000000000 (checked .up) { status := .up, lastResultAt := some 0 } := by
  refine (nodata_agrees_iff 180000000000 (checked .up) { status := .up, lastResultAt := some 0 } rfl ?_).mpr ?_
  · simp [checked, seconds]
  · simp [checked]

/-- Three minutes later a monitor that is down is shown without data. -/
theorem down_shown_nodata : lazyNodata 180000000000 (checked .down) = .nodata ∧
    swept 180000000000 (checked .down) { status := .down, lastResultAt := some 0 } = .down := by
  constructor
  · decide
  · rfl

end Upstat.StaleReads
