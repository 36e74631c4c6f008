import Mathlib.Data.Nat.Cast.Order.Ring
import Upstat.EvaluatorPrograms

/-! # The order in which ticks reach the machine

A tick closes when its last region answers or when a sweep finds it overdue. Only the
answers look at the closed marker, so this module says exactly which runs apply the ticks
of a monitor in the order they were scheduled and never set its last result back. -/
namespace Upstat.EvaluatorTickOrder

open GuardedRuns MonitorMachine CommonDatabase EvaluatorPrograms

/-- The ticks applied to the monitor's machine, in the order they are. -/
def applied (monitor : String) (config : Config) : Working → List Event → List OpenTick
  | _, [] => []
  | w, e :: es =>
    (((closing config w e).filter (·.id = monitor)).map Closing.tick).toList ++
      applied monitor config (step config w e) es

def lastResult (monitor : String) (w : Working) : Option ℚ := (w.mon monitor).bind MonitorState.lastResultAt

/-- The step does not set the last result back. -/
def LastKept (monitor : String) (config : Config) (w : Working) (e : Event) : Prop :=
  ∀ last ∈ lastResult monitor w, ∃ last' ∈ lastResult monitor (step config w e), last ≤ last'

/-- The machine takes the tick's time as its last result. -/
def reports (w : Working) (c : Closing) : Prop :=
  (monitorState w c.id c.monitor).status ≠ .paused ∧ c.tick.results ≠ []

/-- A tick of the monitor that closes was scheduled after the closed marker, and when some
region reported on it, its time is not before the last result. -/
def Fits (monitor : String) (config : Config) (w : Working) (e : Event) : Prop :=
  ∀ c ∈ closing config w e, c.id = monitor →
    (∀ closed ∈ w.closed monitor, closed < c.tick.scheduledAt) ∧
      (reports w c → ∀ last ∈ lastResult monitor w, last ≤ (closedTick c.tick c.outside).at_)

/-- What the working state says of the ticks applied so far: the marker is the latest of
them, and the stored state is no older than the snapshot. -/
structure Tracks (monitor : String) (config : Config) (w : Working) (log : List OpenTick) : Prop where
  marked : (log = [] ∧ w.closed monitor = none) ∨
    ∃ t ∈ log, w.closed monitor = some t.scheduledAt ∧ ∀ t' ∈ log, t'.scheduledAt ≤ t.scheduledAt
  current : ∀ st, w.mon monitor = some st →
    ∃ c, config monitor = some c ∧ c.active = true ∧ c.lastTransitionSeq ≤ st.seq

variable {monitor : String} {config : Config} {w : Working} {log : List OpenTick}

theorem tracks_empty (monitor : String) (config : Config) : Tracks monitor config empty [] :=
  ⟨.inl ⟨rfl, rfl⟩, fun _ h => by simp [empty] at h⟩

/-- The machine's last result is the stored one. -/
theorem lastResultAt_monitorState (h : Tracks monitor config w log) {c : MonitorConfig} (hc : config monitor = some c) :
    (monitorState w monitor c).lastResultAt = lastResult monitor w := by
  unfold lastResult monitorState
  cases hraw : w.mon monitor with
  | none => rfl
  | some raw =>
    obtain ⟨c', hc', -, hle⟩ := h.current raw hraw
    obtain rfl : c = c' := Option.some.inj (hc.symm.trans hc')
    simp [hle]

theorem before_marker_iff (h : Tracks monitor config w log) (x : ℚ) :
    (∀ closed ∈ w.closed monitor, closed < x) ↔ ∀ t ∈ log, t.scheduledAt < x := by
  rcases h.marked with ⟨rfl, hnone⟩ | ⟨t, ht, hclosed, htop⟩
  · simp [hnone]
  · simp only [hclosed, Option.mem_def, Option.some.injEq, forall_eq']
    exact ⟨fun hlt t' ht' => (htop t' ht').trans_lt hlt, fun hall => hall t ht⟩

/-- An event that closes no tick of the monitor. -/
theorem tracks_other (h : Tracks monitor config w log) {e : Event}
    (hc : ∀ c, closing config w e = some c → c.id ≠ monitor) :
    Tracks monitor config (step config w e) log ∧ LastKept monitor config w e := by
  -- The two keys the invariant reads are as they were, unless the timer moved the state.
  have hsame : ∀ w', w'.mon monitor = w.mon monitor → w'.closed monitor = w.closed monitor →
      Tracks monitor config w' log ∧ ∀ last ∈ lastResult monitor w, ∃ last' ∈ lastResult monitor w', last ≤ last' := by
    intro w' hmon hclosed
    refine ⟨⟨hclosed ▸ h.marked, hmon ▸ h.current⟩, fun last hlast => ⟨last, ?_, le_rfl⟩⟩
    rwa [lastResult, hmon]
  have hh := handling_writes config w e
  unfold LastKept step
  generalize writes config w e = ws at hh ⊢
  cases hh with
  | ignored hnone => exact hsame _ rfl rfl
  | @closed e c hsome =>
    have hne := Ne.symm (hc c hsome)
    exact hsame _ (by rw [mon_closing, Function.update_of_ne hne]) (by rw [closed_closing, Function.update_of_ne hne])
  | opened hconfig hactive hlate hnone => exact hsame _ rfl rfl
  | dropped hnone => exact hsame _ rfl rfl
  | expired => exact hsame _ rfl rfl
  | @forgot now id o c hconfig hactive =>
    refine hsame _ ?_ rfl
    by_cases hid : monitor = id
    · subst hid
      have hgone : w.mon monitor = none := by
        by_contra hsome
        obtain ⟨st, hst⟩ := Option.ne_none_iff_exists'.mp hsome
        obtain ⟨c', hc', hactive', -⟩ := h.current st hst
        rw [hconfig] at hc'
        obtain rfl := Option.some.inj hc'
        simp [hactive] at hactive'
      simp [write, hgone]
    · simp [write, Function.update_of_ne hid]
  | @timedOut now id o c st t hconfig hactive hnodata =>
    by_cases hid : monitor = id
    · subst hid
      have hseq := (moves_checkNodata (monitorState w monitor c) now c.intervalS).seq_le
      have hlast := lastResultAt_checkNodata (monitorState w monitor c) now c.intervalS
      rw [hnodata] at hseq hlast
      rw [lastResultAt_monitorState h hconfig] at hlast
      refine ⟨⟨by rw [closed_commit]; exact h.marked, fun st' hst' => ?_⟩, fun last hl => ⟨last, ?_, le_rfl⟩⟩
      · rw [mon_commit, Function.update_self] at hst'
        obtain rfl := Option.some.inj hst'
        exact ⟨c, hconfig, hactive, (le_seq_monitorState w monitor c).trans hseq⟩
      · rw [lastResult, mon_commit, Function.update_self]
        exact hlast.trans hl
    · exact hsame _ (by rw [mon_commit, Function.update_of_ne hid]) (by rw [closed_commit])
  | emitted hm => exact hsame _ (by rw [mon_emit]) (by rw [closed_emit])

/-- A tick of the monitor closes. -/
theorem tracks_closing (h : Tracks monitor config w log) {e : Event} {c : Closing} (hc : closing config w e = some c)
    (hid : c.id = monitor) :
    Tracks monitor config (step config w e) (log ++ [c.tick]) ∧
      (LastKept monitor config w e ↔
        (reports w c → ∀ last ∈ lastResult monitor w, last ≤ (closedTick c.tick c.outside).at_)) := by
  obtain ⟨hconfig, hactive, -⟩ := closing_spec hc
  subst hid
  have hstep : step config w e = run write w (c.writes w) := by rw [step, writes_closing hc]
  rw [LastKept, hstep]
  refine ⟨⟨.inr ?_, fun st hst => ?_⟩, ?_⟩
  · -- The new marker is the later of the tick and the old one.
    rw [closed_closing, Function.update_self]
    rcases h.marked with ⟨rfl, hnone⟩ | ⟨t, ht, hclosed, htop⟩
    · exact ⟨c.tick, by simp, by simp [marker, hnone, c.tick.scheduled_nonneg], by simp⟩
    · simp only [marker, hclosed, Option.getD_some]
      rcases le_total c.tick.scheduledAt t.scheduledAt with hle | hle
      · refine ⟨t, by simp [ht], by rw [max_eq_right hle], fun t' ht' => ?_⟩
        rcases List.mem_append.mp ht' with ht' | ht'
        · exact htop t' ht'
        · exact (List.mem_singleton.mp ht') ▸ hle
      · refine ⟨c.tick, by simp, by rw [max_eq_left hle], fun t' ht' => ?_⟩
        rcases List.mem_append.mp ht' with ht' | ht'
        · exact (htop t' ht').trans hle
        · exact (List.mem_singleton.mp ht') ▸ le_rfl
  · rw [mon_closing, Function.update_self] at hst
    obtain rfl := Option.some.inj hst
    have hseq := (moves_applyTick (monitorState w c.id c.monitor) (closedTick c.tick c.outside)
      c.monitor.failureThreshold c.monitor.minFailingRegions).seq_le
    exact ⟨c.monitor, hconfig, hactive, (le_seq_monitorState w c.id c.monitor).trans hseq⟩
  · have hlast : lastResult c.id (run write w (c.writes w)) =
        if (monitorState w c.id c.monitor).status ≠ .paused ∧ c.tick.results ≠ [] then
          some (closedTick c.tick c.outside).at_ else lastResult c.id w := by
      rw [← lastResultAt_monitorState h hconfig, lastResult, mon_closing, Function.update_self]
      exact lastResultAt_applyTick _ _ _ _
    rw [hlast]
    split
    · next hrep => simp [reports, hrep]
    · next hrep => exact iff_of_true (fun last hl => ⟨last, hl, le_rfl⟩) (fun hr => absurd hr hrep)

theorem tickOrder_from (h : Tracks monitor config w log)
    (hlog : log.Pairwise fun a b => a.scheduledAt < b.scheduledAt) (es : List Event) :
    (log ++ applied monitor config w es).Pairwise (fun a b => a.scheduledAt < b.scheduledAt) ∧
        Meets (step config) (LastKept monitor config) w es ↔
      Meets (step config) (Fits monitor config) w es := by
  induction es generalizing w log with
  | nil => simpa [applied] using hlog
  | cons e es ih =>
    rw [meets_cons, meets_cons, applied]
    by_cases hc : ∀ c, closing config w e = some c → c.id ≠ monitor
    · obtain ⟨htracks, hkept⟩ := tracks_other h hc
      have hfits : Fits monitor config w e := fun c hsome hid => absurd hid (hc c hsome)
      have hnone : (closing config w e).filter (·.id = monitor) = none := by
        cases hsome : closing config w e with
        | none => rfl
        | some c => simp [hc c hsome]
      simp only [hnone, Option.map_none, Option.toList_none, List.nil_append, hkept, hfits, true_and]
      exact ih htracks hlog
    · push Not at hc
      obtain ⟨c, hsome, hid⟩ := hc
      obtain ⟨htracks, hkept⟩ := tracks_closing h hsome hid
      have hfits : Fits monitor config w e ↔ (∀ t ∈ log, t.scheduledAt < c.tick.scheduledAt) ∧
          LastKept monitor config w e := by
        rw [hkept, ← before_marker_iff h]
        simp [Fits, hsome, hid]
      have happ : (((closing config w e).filter (·.id = monitor)).map Closing.tick).toList = [c.tick] := by
        simp [hsome, hid]
      rw [happ, hfits, ← List.append_assoc]
      by_cases hlt : ∀ t ∈ log, t.scheduledAt < c.tick.scheduledAt
      · have hlog' : (log ++ [c.tick]).Pairwise fun a b => a.scheduledAt < b.scheduledAt :=
          List.pairwise_append.mpr ⟨hlog, List.pairwise_singleton _ _, by simpa using hlt⟩
        rw [← ih htracks hlog']
        tauto
      · refine iff_of_false (fun hl => hlt fun t ht => ?_) (fun hr => hlt hr.1.1)
        have hpair := (List.pairwise_append.mp hl.1).1
        exact (List.pairwise_append.mp hpair).2.2 t ht c.tick (by simp)

/-- Ticks are applied in the order they were scheduled, none twice, and the last result is
never set back, exactly when every step of the run fits. -/
theorem tickOrder_iff (monitor : String) (config : Config) (es : List Event) :
    (applied monitor config empty es).Pairwise (fun a b => a.scheduledAt < b.scheduledAt) ∧
        Meets (step config) (LastKept monitor config) empty es ↔
      Meets (step config) (Fits monitor config) empty es :=
  tickOrder_from (tracks_empty monitor config) List.Pairwise.nil es

/-! ## A tick the sweep closes after a later one -/

def twoRegions : Config := fun id =>
  if id = "m" then some ⟨"o", true, 3, 2, 60, .pending, 0, 0⟩ else none

/-- An answer one second after the slot. -/
def answer (slot : ℕ) (region : String) (ok : Bool) : ResultMsg where
  monitorId := "m"
  scheduledAt := slot
  regionsExpected := ["eu", "us"]
  region := region
  missing := false
  ok := ok
  cause := ""
  checkedAt := slot + 1
  timeoutS := 10
  scheduled_nonneg := slot_nonneg slot

def outside : Outside := ⟨0, 0, true⟩

/-- One region of the slot 60 never answers, both of 120 do, and the sweep comes at 200. -/
def overdue : List Event :=
  [.result (answer 60 "eu" true) outside, .result (answer 120 "eu" false) outside,
    .result (answer 120 "us" true) outside] ++ sweep 200 [] [(("m", 60), outside)] [("m", outside)]

theorem overdue_out_of_order :
    (applied "m" twoRegions empty overdue).map OpenTick.scheduledAt = [120, 60] ∧
      ¬(applied "m" twoRegions empty overdue).Pairwise (fun a b => a.scheduledAt < b.scheduledAt) ∧
      ¬Meets (step twoRegions) (LastKept "m" twoRegions) empty overdue := by
  have horder : (applied "m" twoRegions empty overdue).map OpenTick.scheduledAt = [120, 60] := by decide +kernel
  have hsorted : ¬(applied "m" twoRegions empty overdue).Pairwise (fun a b => a.scheduledAt < b.scheduledAt) := by
    rw [← List.pairwise_map (f := OpenTick.scheduledAt) (R := (· < ·)), horder]
    decide +kernel
  refine ⟨horder, hsorted, fun h => ?_⟩
  -- Before the sweep the last result is 121, after it 61.
  have hkept := ((meets_append _ (overdue.take 3) (overdue.drop 3)).mp h).2.1
  have hbefore : lastResult "m" (run (step twoRegions) empty (overdue.take 3)) = some 121 := by decide +kernel
  have hafter : lastResult "m" (step twoRegions (run (step twoRegions) empty (overdue.take 3))
      (.sweptTick 200 ("m", 60) outside)) = some 61 := by decide +kernel
  obtain ⟨last', hlast', hle⟩ := hkept 121 hbefore
  obtain rfl : 61 = last' := Option.some.inj (hafter.symm.trans hlast')
  exact absurd hle (by decide +kernel)

end Upstat.EvaluatorTickOrder
