import Upstat.EvaluatorPrograms

/-! # The no-data timer over the loss of working state

A sweep takes a monitor off `up` once its last completed check is two intervals old. The
timer reads the last result from the working state, and a state rebuilt from the snapshot
has none. -/
namespace Upstat.NodataTimer

open GuardedRuns MonitorMachine CommonDatabase EvaluatorPrograms

/-- The working state, and when each monitor's last completed check was: that of the last
tick closed with a reporting region. -/
structure Observed where
  work : Working
  lastCheck : String → Option ℚ

def start : Observed := ⟨empty, fun _ => none⟩

/-- A handling under the config of its moment, or the loss of any of the stored keys. -/
inductive Moment where
  | handled (config : Config) (e : Event)
  | lost (mon closed : String → Bool) (ticks : TickId → Bool) (emit : TransitionId → Bool)

def lose (w : Working) (mon closed : String → Bool) (ticks : TickId → Bool) (emit : TransitionId → Bool) : Working :=
  { w with
    mon := fun id => if mon id then none else w.mon id
    closed := fun id => if closed id then none else w.closed id
    ticks := fun key => if ticks key then none else w.ticks key
    emit := fun key => if emit key then none else w.emit key }

/-- The last checks after a tick has closed, if one has. -/
def checked (lastCheck : String → Option ℚ) : Option Closing → String → Option ℚ
  | none => lastCheck
  | some c =>
    if c.tick.results = [] then lastCheck
    else Function.update lastCheck c.id (some (closedTick c.tick c.outside).at_)

def observe (s : Observed) : Moment → Observed
  | .handled config e => ⟨step config s.work e, checked s.lastCheck (closing config s.work e)⟩
  | .lost mon closed ticks emit => ⟨lose s.work mon closed ticks emit, s.lastCheck⟩

/-- What one sweep comes to: any keys, and each monitor of the snapshot once. -/
structure Sweep (config : Config) where
  now : ℚ
  emits : List (TransitionId × Outside)
  ticks : List (TickId × Outside)
  monitors : List (String × Outside)
  all : ∀ id, config id ≠ none → id ∈ monitors.map Prod.fst
  once : (monitors.map Prod.fst).Nodup

variable {config : Config}

/-- The sweep before it comes to the monitors. -/
def Sweep.opening (p : Sweep config) : List Moment := (sweep p.now p.emits p.ticks []).map (.handled config)

def Sweep.timers (p : Sweep config) : List Moment :=
  p.monitors.map fun m => .handled config (.sweptMonitor p.now m.1 m.2)

def Sweep.moments (p : Sweep config) : List Moment :=
  (sweep p.now p.emits p.ticks p.monitors).map (.handled config)

/-- The evaluator's status of the monitor. -/
def statusNow (s : Observed) (id : String) (monitor : MonitorConfig) : Status :=
  (monitorState s.work id monitor).status

/-- The last completed check, if there was one, is at most two intervals old. -/
def Recent (s : Observed) (now : ℚ) (id : String) (monitor : MonitorConfig) : Prop :=
  ∀ last, s.lastCheck id = some last → now - 2 * monitor.intervalS ≤ last

/-- No active monitor is up while its last completed check is older than two intervals. -/
def NoneStale (config : Config) (now : ℚ) (s : Observed) : Prop :=
  ∀ id monitor, config id = some monitor → monitor.active = true → statusNow s id monitor = .up →
    Recent s now id monitor

/-- An active monitor that is up without a known last result was checked recently. -/
def Known (config : Config) (now : ℚ) (s : Observed) : Prop :=
  ∀ id monitor, config id = some monitor → monitor.active = true → statusNow s id monitor = .up →
    (monitorState s.work id monitor).lastResultAt = none → Recent s now id monitor

/-! ## What a stored last result says -/

/-- A last result that is known is the last completed check; a paused state has none. -/
structure Tracks (lastCheck : String → Option ℚ) (id : String) (st : MonitorState) : Prop where
  last : ∀ x, st.lastResultAt = some x → lastCheck id = some x
  paused : st.status = .paused → st.lastResultAt = none

def Tracked (s : Observed) : Prop := ∀ id st, s.work.mon id = some st → Tracks s.lastCheck id st

theorem tracked_start : Tracked start := fun _ _ h => by cases h

variable {s : Observed} {id : String} {monitor : MonitorConfig}

theorem tracks_rebuilt (lastCheck : String → Option ℚ) : Tracks lastCheck id (rebuilt monitor) :=
  { last := fun x hx => by simp [rebuilt] at hx
    paused := fun _ => rfl }

theorem Tracked.monitorState (h : Tracked s) (id : String) (monitor : MonitorConfig) :
    Tracks s.lastCheck id (monitorState s.work id monitor) := by
  cases hb : behind s.work id monitor with
  | true =>
    rw [monitorState_of_behind hb]
    exact tracks_rebuilt _
  | false => exact h id _ (monitorState_of_not_behind hb)

/-- A move keeps the last result and never enters paused. -/
theorem Tracks.checkNodata {lastCheck : String → Option ℚ} {st : MonitorState} (h : Tracks lastCheck id st) (now : ℚ)
    (intervalS : ℕ) : Tracks lastCheck id (checkNodata st now intervalS).1 := by
  have hlast := lastResultAt_checkNodata st now intervalS
  refine ⟨fun x hx => h.last x (hlast ▸ hx), fun hp => ?_⟩
  have hm := moves_checkNodata st now intervalS
  cases ht : (MonitorMachine.checkNodata st now intervalS).2 with
  | none => exact hlast.trans (h.paused ((hm.stays ht).1 ▸ hp))
  | some t =>
    obtain ⟨-, hto, -, -, -, hmem, -⟩ := hm.moved t ht
    rw [hto, hp] at hmem
    simp at hmem

theorem tracks_closing (h : Tracked s) (c : Closing) :
    Tracks (checked s.lastCheck (some c)) c.id (verdict s.work c.id c.monitor c.tick c.outside).1 := by
  have hst := h.monitorState c.id c.monitor
  have hlast : (verdict s.work c.id c.monitor c.tick c.outside).1.lastResultAt =
      if (monitorState s.work c.id c.monitor).status ≠ .paused ∧ c.tick.results ≠ [] then
        some (closedTick c.tick c.outside).at_ else (monitorState s.work c.id c.monitor).lastResultAt :=
    lastResultAt_applyTick _ _ _ _
  have hm : Moves (monitorState s.work c.id c.monitor) (verdict s.work c.id c.monitor c.tick c.outside) :=
    moves_applyTick _ _ _ _
  have hpaused : (verdict s.work c.id c.monitor c.tick c.outside).1.status = .paused →
      (monitorState s.work c.id c.monitor).status = .paused := fun hp => by
    cases ht : (verdict s.work c.id c.monitor c.tick c.outside).2 with
    | none => exact (hm.stays ht).1 ▸ hp
    | some t =>
      obtain ⟨-, hto, -, -, -, hmem, -⟩ := hm.moved t ht
      rw [hto, hp] at hmem
      simp at hmem
  constructor
  · intro x hx
    by_cases hres : c.tick.results = []
    · rw [hlast, if_neg (by simp [hres])] at hx
      simpa [checked, hres] using hst.last x hx
    · by_cases hp : (monitorState s.work c.id c.monitor).status = .paused
      · rw [hlast, if_neg (by simp [hp]), hst.paused hp] at hx
        cases hx
      · rw [hlast, if_pos ⟨hp, hres⟩] at hx
        simpa [checked, hres] using hx
  · intro hp
    rw [hlast, if_neg (by simp [hpaused hp])]
    exact hst.paused (hpaused hp)

theorem tracked_observe (h : Tracked s) (m : Moment) : Tracked (observe s m) := by
  cases m with
  | lost mon closed ticks emit =>
    intro id st hst
    simp only [observe, lose] at hst
    split at hst
    · cases hst
    · exact h id st hst
  | handled config e =>
    change Tracked ⟨step config s.work e, checked s.lastCheck (closing config s.work e)⟩
    have hh := handling_writes config s.work e
    unfold step
    generalize writes config s.work e = ws at hh ⊢
    -- Where no tick closes the last checks stay, and so does each stored state unless a timer moved it.
    cases hh with
    | ignored hc => rw [hc]; exact h
    | @closed e c hc =>
      intro id st hst
      rw [hc]
      rw [mon_closing] at hst
      by_cases hid : id = c.id
      · subst hid
        rw [Function.update_self] at hst
        obtain rfl := Option.some.inj hst
        exact tracks_closing h c
      · rw [Function.update_of_ne hid] at hst
        have htracks := h id st hst
        refine ⟨fun x hx => ?_, htracks.paused⟩
        simp only [checked]
        split
        · exact htracks.last x hx
        · rw [Function.update_of_ne hid]
          exact htracks.last x hx
    | opened _ _ _ hc => rw [hc]; exact h
    | dropped hc => rw [hc]; exact h
    | expired => exact h
    | @forgot now id o monitor _ _ =>
      intro id' st hst
      by_cases hid : id' = id
      · simp [write, hid] at hst
      · exact h id' st (by simpa [write, Function.update_of_ne hid] using hst)
    | @timedOut now id o monitor st t _ _ hnodata =>
      intro id' st' hst
      rw [mon_commit] at hst
      by_cases hid : id' = id
      · subst hid
        rw [Function.update_self] at hst
        obtain rfl := Option.some.inj hst
        have := (h.monitorState id' monitor).checkNodata now monitor.intervalS
        rwa [hnodata] at this
      · exact h id' st' (by rwa [Function.update_of_ne hid] at hst)
    | emitted _ => exact fun id st hst => h id st (by rwa [mon_emit] at hst)

/-! ## The timers of one sweep -/

/-- The sweep at an active monitor advances its state by the timer. -/
theorem monitorState_swept (w : Working) (now : ℚ) (o : Outside) (hconfig : config id = some monitor)
    (hactive : monitor.active = true) :
    monitorState (step config w (.sweptMonitor now id o)) id monitor =
      (checkNodata (monitorState w id monitor) now monitor.intervalS).1 := by
  have hseq := (moves_checkNodata (monitorState w id monitor) now monitor.intervalS).seq_le
  have hstay := (moves_checkNodata (monitorState w id monitor) now monitor.intervalS).stays
  rcases hnodata : checkNodata (monitorState w id monitor) now monitor.intervalS with ⟨st, _ | t⟩
  · have hst : st = monitorState w id monitor := by
      have hcase : checkNodata (monitorState w id monitor) now monitor.intervalS = (monitorState w id monitor, none) := by
        unfold checkNodata at hnodata ⊢
        split at hnodata
        · rfl
        · split at hnodata
          · next h => rw [if_pos h]
          · cases hnodata
      rw [hcase] at hnodata
      exact (Prod.mk.inj hnodata).1.symm
    simp [step, writes, sweepMonitor, hconfig, hactive, hnodata, hst]
  · rw [hnodata] at hseq
    have hle : monitor.lastTransitionSeq ≤ st.seq := (le_seq_monitorState w id monitor).trans hseq
    have hmon : (step config w (.sweptMonitor now id o)).mon = Function.update w.mon id (some st) := by
      simp [step, writes, sweepMonitor, hconfig, hactive, hnodata]
    simp [monitorState, hmon, hle]

theorem monitorState_sweptOther (w : Working) (now : ℚ) (o : Outside) {other : String} (hne : id ≠ other) :
    monitorState (step config w (.sweptMonitor now other o)) id monitor = monitorState w id monitor := by
  have hmon : (step config w (.sweptMonitor now other o)).mon id = w.mon id := by
    have hh := handling_writes config w (.sweptMonitor now other o)
    unfold step
    generalize writes config w (.sweptMonitor now other o) = ws at hh ⊢
    cases hh with
    | ignored _ => rfl
    | closed hc => cases hc
    | forgot _ _ => simp [write, Function.update_of_ne hne]
    | timedOut _ _ _ => rw [mon_commit, Function.update_of_ne hne]
  simp [monitorState, hmon]

/-- After the timers each active monitor's state is advanced by its own, and no check completed. -/
theorem run_timers {monitors : List (String × Outside)} (honce : (monitors.map Prod.fst).Nodup) (now : ℚ) (s : Observed)
    (hconfig : config id = some monitor) (hactive : monitor.active = true) :
    let s' := run observe s (monitors.map fun m => .handled config (.sweptMonitor now m.1 m.2))
    s'.lastCheck = s.lastCheck ∧ monitorState s'.work id monitor =
      if id ∈ monitors.map Prod.fst then (checkNodata (monitorState s.work id monitor) now monitor.intervalS).1
      else monitorState s.work id monitor := by
  induction monitors generalizing s with
  | nil => exact ⟨rfl, rfl⟩
  | cons m ms ih =>
    obtain ⟨hnot, hnodup⟩ := List.nodup_cons.mp honce
    obtain ⟨hlast, hstate⟩ := ih hnodup (observe s (.handled config (.sweptMonitor now m.1 m.2)))
    refine ⟨hlast, hstate.trans ?_⟩
    by_cases hid : id = m.1
    · subst hid
      rw [if_neg hnot, if_pos (by simp)]
      exact monitorState_swept s.work now m.2 hconfig hactive
    · have hsame : monitorState (step config s.work (.sweptMonitor now m.1 m.2)) id monitor = monitorState s.work id monitor :=
        monitorState_sweptOther s.work now m.2 hid
      simp only [List.map_cons, List.mem_cons, hid, false_or]
      rw [show (observe s (.handled config (.sweptMonitor now m.1 m.2))).work =
        step config s.work (.sweptMonitor now m.1 m.2) from rfl, hsame]

/-- The timer leaves a monitor up with a last result not known, or at most two intervals old. -/
theorem up_checkNodata_iff (st : MonitorState) (now : ℚ) (intervalS : ℕ) :
    (checkNodata st now intervalS).1.status = .up ↔
      st.status = .up ∧ ∀ x, st.lastResultAt = some x → now - 2 * intervalS ≤ x := by
  unfold checkNodata
  cases st.lastResultAt with
  | none => simp
  | some last =>
    have hage : now - last ≤ 2 * intervalS ↔ now - 2 * intervalS ≤ last :=
      ⟨fun h => by linarith, fun h => by linarith⟩
    simp only [Option.some.injEq, forall_eq', ← hage]
    split
    · next hstay =>
      refine ⟨fun hup => ⟨hup, ?_⟩, And.left⟩
      exact hstay.resolve_left fun hne => hne hup
    · next hmoved => exact iff_of_false (by simp [move]) fun h => hmoved (.inr h.2)

theorem moments_eq (p : Sweep config) : p.moments = p.opening ++ p.timers := by
  simp [Sweep.moments, Sweep.opening, Sweep.timers, sweep, Function.comp_def]

theorem noneStale_timers (h : Tracked s) (p : Sweep config) :
    NoneStale config p.now (run observe s p.timers) ↔ Known config p.now s := by
  unfold NoneStale Known
  refine forall_congr' fun id => forall_congr' fun monitor => forall_congr' fun hconfig => forall_congr' fun hactive => ?_
  obtain ⟨hlast, hstate⟩ := run_timers p.once p.now s hconfig hactive
  rw [if_pos (p.all id (by simp [hconfig]))] at hstate
  have hrecent : Recent (run observe s p.timers) p.now id monitor ↔ Recent s p.now id monitor := by
    simp only [Recent, Sweep.timers, hlast]
  have hup : statusNow (run observe s p.timers) id monitor = .up ↔ statusNow s id monitor = .up ∧
      ∀ x, (monitorState s.work id monitor).lastResultAt = some x → p.now - 2 * monitor.intervalS ≤ x := by
    unfold statusNow
    rw [← up_checkNodata_iff]
    exact hstate ▸ Iff.rfl
  rw [hup, hrecent]
  constructor
  · intro hfresh hst hnone
    exact hfresh ⟨hst, fun x hx => by simp [hnone] at hx⟩
  · rintro hknown ⟨hst, hx⟩
    cases hres : (monitorState s.work id monitor).lastResultAt with
    | none => exact hknown hst hres
    | some x =>
      -- A known last result is the last completed check.
      intro last hl
      obtain rfl : x = last := Option.some.inj (((h.monitorState id monitor).last x hres).symm.trans hl)
      exact hx x hres

/-- Right after a sweep no active monitor is up on an old check, exactly when each that the
sweep found up without a known last result was checked recently. -/
theorem noneStale_iff (before : List Moment) (p : Sweep config) :
    NoneStale config p.now (run observe start (before ++ p.moments)) ↔
      Known config p.now (run observe start (before ++ p.opening)) := by
  rw [moments_eq, ← List.append_assoc, run_append]
  have htracked : Tracked (run observe start (before ++ p.opening)) :=
    run_keeps (P := Tracked) (fun s m h => tracked_observe h m) tracked_start _
  exact noneStale_timers htracked p

/-! ## A monitor whose state is lost while it is up -/

/-- One region, an interval of a minute, and the snapshot's status under its number. -/
def snapshot (status : Status) (seq : ℕ) : Config := fun id =>
  if id = "m" then some ⟨"o", true, 3, 1, 60, status, 0, seq⟩ else none

def outside : Outside := ⟨0, 0, true⟩

/-- The check of the slot 60 passes one second later. -/
def passes : ResultMsg where
  monitorId := "m"
  scheduledAt := (60 : ℕ)
  regionsExpected := ["eu"]
  region := "eu"
  missing := false
  ok := true
  cause := ""
  checkedAt := 61
  timeoutS := 10
  scheduled_nonneg := slot_nonneg 60

def sweepAt (now : ℚ) : Sweep (snapshot .up 1) where
  now := now
  emits := []
  ticks := []
  monitors := [("m", outside)]
  all := fun id h => by
    by_contra hne
    simp only [List.map_cons, List.map_nil, List.mem_singleton] at hne
    exact h (by simp [snapshot, hne])
  once := by decide

/-- The monitor comes up, all working state is lost, and the snapshot has it up. -/
def upThenLost : List Moment :=
  [.handled (snapshot .pending 0) (.result passes outside),
    .lost (fun _ => true) (fun _ => true) (fun _ => true) fun _ => true]

theorem upThenLost_stale :
    ¬NoneStale (snapshot .up 1) 1000 (run observe start (upThenLost ++ (sweepAt 1000).moments)) := by
  intro h
  have hup : statusNow (run observe start (upThenLost ++ (sweepAt 1000).moments)) "m"
      ⟨"o", true, 3, 1, 60, .up, 0, 1⟩ = .up := by decide +kernel
  have hlast : (run observe start (upThenLost ++ (sweepAt 1000).moments)).lastCheck "m" = some 61 := by decide +kernel
  have := h "m" _ rfl rfl hup 61 hlast
  norm_num at this

end Upstat.NodataTimer
