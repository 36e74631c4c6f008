import Mathlib.Data.Nat.Cast.Order.Ring
import Upstat.CommonDatabase
import Upstat.GuardedRuns

/-! # The evaluator's handlers as programs of writes (`evaluator/__init__.py`)

A handler reads the working state and returns the writes it makes, in their order, so that
a crash between two of them is a prefix. A sweep is one event for each key and monitor it
comes to. What the clock says and whether a publish succeeds is an `Outside`. -/
namespace Upstat.EvaluatorPrograms

open GuardedRuns MonitorMachine CommonDatabase

def tickGraceSeconds : ℚ := 10

/-- A monitor as the config snapshot has it. -/
structure MonitorConfig where
  orgId : String
  active : Bool
  failureThreshold : ℕ
  minFailingRegions : ℕ
  intervalS : ℕ
  status : Status
  consecutiveFailures : ℕ
  lastTransitionSeq : ℕ
  deriving DecidableEq

abbrev Config := String → Option MonitorConfig

/-- The monitor and the slot: the id the scheduler hashes from them, which tells them apart. -/
abbrev TickId := String × ℚ

/-- A tick whose regions are still answering. -/
structure OpenTick where
  monitorId : String
  expected : List String
  results : Results
  missing : List String
  cause : String
  scheduledAt : ℚ
  deadline : ℚ
  /-- The latest `checked_at` so far, 0 before the first. -/
  at_ : ℚ
  scheduled_nonneg : 0 ≤ scheduledAt
  deriving DecidableEq

/-- One region's answer. -/
structure ResultMsg where
  monitorId : String
  scheduledAt : ℚ
  regionsExpected : List String
  region : String
  missing : Bool
  ok : Bool
  cause : String
  checkedAt : ℚ
  timeoutS : ℚ
  scheduled_nonneg : 0 ≤ scheduledAt

theorem slot_nonneg (slot : ℕ) : (0 : ℚ) ≤ slot := Nat.cast_nonneg slot

def ResultMsg.tickId (m : ResultMsg) : TickId := (m.monitorId, m.scheduledAt)

/-- The working state under its keys `mon:`, `closed:`, `tick:` and `emit:`, and all that
was published. -/
structure Working where
  mon : String → Option MonitorState
  closed : String → Option ℚ
  ticks : TickId → Option OpenTick
  emit : TransitionId → Option TransitionMsg
  published : List TransitionMsg

/-- No key is set, nothing was published. -/
def empty : Working := ⟨fun _ => none, fun _ => none, fun _ => none, fun _ => none, []⟩

inductive Write where
  | save (id : String) (st : MonitorState)
  | forget (id : String)
  | putClosed (id : String) (scheduledAt : ℚ)
  | putTick (key : TickId) (tick : OpenTick)
  | deleteTick (key : TickId)
  | putEmit (m : TransitionMsg)
  | deleteEmit (key : TransitionId)
  | publish (m : TransitionMsg)

def write (w : Working) : Write → Working
  | .save id st => { w with mon := Function.update w.mon id (some st) }
  | .forget id => { w with mon := Function.update w.mon id none }
  | .putClosed id scheduledAt => { w with closed := Function.update w.closed id (some scheduledAt) }
  | .putTick key tick => { w with ticks := Function.update w.ticks key (some tick) }
  | .deleteTick key => { w with ticks := Function.update w.ticks key none }
  | .putEmit m => { w with emit := Function.update w.emit m.id (some m) }
  | .deleteEmit key => { w with emit := Function.update w.emit key none }
  | .publish m => { w with published := w.published ++ [m] }

/-- What one handling meets: the clock where a tick carries no time, the clock at the
transition, and whether publishing it succeeds. -/
structure Outside where
  clock : ℚ
  stamp : ℚ
  publishes : Bool

/-- The monitor's state from the snapshot. -/
def rebuilt (monitor : MonitorConfig) : MonitorState :=
  { status := monitor.status, consecutiveFailures := monitor.consecutiveFailures, seq := monitor.lastTransitionSeq }

/-- The state is missing, or the snapshot's number is ahead of it. -/
def behind (w : Working) (id : String) (monitor : MonitorConfig) : Bool :=
  (w.mon id).all fun raw => raw.seq < monitor.lastTransitionSeq

def monitorState (w : Working) (id : String) (monitor : MonitorConfig) : MonitorState :=
  match w.mon id with
  | some raw => if monitor.lastTransitionSeq ≤ raw.seq then raw else rebuilt monitor
  | none => rebuilt monitor

/-- Publishes a stored transition; a failure leaves it stored. -/
def emit (m : TransitionMsg) (o : Outside) : List Write :=
  if o.publishes then [.publish m, .deleteEmit m.id] else []

def message (id : String) (monitor : MonitorConfig) (t : Transition) (regions : Results) (o : Outside) :
    TransitionMsg where
  monitorId := id
  orgId := monitor.orgId
  seq := t.seq
  from_ := t.fromStatus
  to_ := t.toStatus
  cause := t.cause
  at_ := o.stamp
  regions := regions
  consecutiveFailures := t.consecutiveFailures

/-- Stores the transition, then the state, then publishes. -/
def commit (id : String) (monitor : MonitorConfig) (st : MonitorState) (t : Option Transition) (regions : Results)
    (o : Outside) : List Write :=
  match t with
  | none => [.save id st]
  | some t =>
    let data := message id monitor t regions o
    [.putEmit data, .save id st] ++ emit data o

/-- The tick as the machine takes it. -/
def closedTick (tick : OpenTick) (o : Outside) : Tick :=
  ⟨tick.results, tick.cause, if tick.at_ = 0 then o.clock else tick.at_⟩

/-- The machine's step for the tick. -/
def verdict (w : Working) (id : String) (monitor : MonitorConfig) (tick : OpenTick) (o : Outside) :
    MonitorState × Option Transition :=
  applyTick (monitorState w id monitor) (closedTick tick o) monitor.failureThreshold monitor.minFailingRegions

/-- The monitor's closed marker once the tick has closed. -/
def marker (w : Working) (id : String) (tick : OpenTick) : ℚ := max tick.scheduledAt ((w.closed id).getD 0)

def close (w : Working) (id : String) (monitor : MonitorConfig) (tick : OpenTick) (o : Outside) : List Write :=
  let (st, t) := verdict w id monitor tick o
  commit id monitor st t tick.results o ++ [.putClosed id (marker w id tick)]

/-- A result for a tick at or before the last closed one. -/
def late (w : Working) (m : ResultMsg) : Bool := (w.closed m.monitorId).any fun closed => m.scheduledAt ≤ closed

/-- The tick a first answer opens. -/
def newTick (m : ResultMsg) : OpenTick where
  monitorId := m.monitorId
  expected := m.regionsExpected
  results := []
  missing := []
  cause := ""
  scheduledAt := m.scheduledAt
  deadline := m.scheduledAt + m.timeoutS + tickGraceSeconds
  at_ := 0
  scheduled_nonneg := m.scheduled_nonneg

/-- A dict with one key assigned. -/
def assign (results : Results) (region : String) (ok : Bool) : Results :=
  if results.any (·.1 = region) then results.map fun r => if r.1 = region then (region, ok) else r
  else results ++ [(region, ok)]

/-- The tick with the answer in it. -/
def hear (tick : OpenTick) (m : ResultMsg) : OpenTick :=
  if m.missing then
    if m.region ∈ tick.missing then tick else { tick with missing := tick.missing ++ [m.region] }
  else { tick with
    results := assign tick.results m.region m.ok
    at_ := max tick.at_ m.checkedAt
    cause := if !m.ok ∧ tick.cause = "" then (if m.cause = "" then "error" else m.cause) else tick.cause }

/-- An answer leaves the tick's monitor and slot. -/
theorem hear_same (tick : OpenTick) (m : ResultMsg) :
    (hear tick m).monitorId = tick.monitorId ∧ (hear tick m).scheduledAt = tick.scheduledAt := by
  unfold hear
  split
  · split <;> exact ⟨rfl, rfl⟩
  · exact ⟨rfl, rfl⟩

/-- Every expected region has answered. -/
def answered (tick : OpenTick) : Bool :=
  tick.expected.all fun region => region ∈ tick.results.map Prod.fst ∨ region ∈ tick.missing

def onResult (config : Config) (w : Working) (m : ResultMsg) (o : Outside) : List Write :=
  match config m.monitorId with
  | none => []
  | some monitor =>
    if !monitor.active then []
    else if late w m then []
    else
      let tick := hear ((w.ticks m.tickId).getD (newTick m)) m
      if answered tick then close w m.monitorId monitor tick o ++ [.deleteTick m.tickId]
      else [.putTick m.tickId tick]

/-- A sweep at one open tick: past its deadline it closes with what it has. -/
def sweepTick (config : Config) (w : Working) (now : ℚ) (key : TickId) (o : Outside) : List Write :=
  match w.ticks key with
  | none => []
  | some tick =>
    if now < tick.deadline then []
    else
      (match config tick.monitorId with
        | some monitor => if monitor.active then close w tick.monitorId monitor tick o else []
        | none => []) ++ [.deleteTick key]

/-- A sweep at one monitor: the no-data timer, or forgetting a paused one. -/
def sweepMonitor (config : Config) (w : Working) (now : ℚ) (id : String) (o : Outside) : List Write :=
  match config id with
  | none => []
  | some monitor =>
    if !monitor.active then [.forget id]
    else
      match checkNodata (monitorState w id monitor) now monitor.intervalS with
      | (st, some t) => commit id monitor st (some t) [] o
      | (_, none) => []

/-- A sweep at one stored transition. -/
def flush (w : Working) (key : TransitionId) (o : Outside) : List Write :=
  match w.emit key with
  | none => []
  | some m => emit m o

inductive Event where
  | result (m : ResultMsg) (o : Outside)
  | flushKey (key : TransitionId) (o : Outside)
  | sweptTick (now : ℚ) (key : TickId) (o : Outside)
  | sweptMonitor (now : ℚ) (id : String) (o : Outside)
  /-- An open tick no answer came to for ten minutes is gone. -/
  | expired (key : TickId)

def writes (config : Config) (w : Working) : Event → List Write
  | .result m o => onResult config w m o
  | .flushKey key o => flush w key o
  | .sweptTick now key o => sweepTick config w now key o
  | .sweptMonitor now id o => sweepMonitor config w now id o
  | .expired key => [.deleteTick key]

def step (config : Config) (w : Working) (e : Event) : Working := run write w (writes config w e)

/-- A whole sweep, over the keys and monitors it lists, each with what it meets there. -/
def sweep (now : ℚ) (emits : List (TransitionId × Outside)) (ticks : List (TickId × Outside))
    (monitors : List (String × Outside)) : List Event :=
  emits.map (fun e => .flushKey e.1 e.2) ++ ticks.map (fun t => .sweptTick now t.1 t.2) ++
    monitors.map (fun m => .sweptMonitor now m.1 m.2)

/-! ## What a handler can do -/

/-- A tick about to be applied to its monitor's machine. -/
structure Closing where
  id : String
  monitor : MonitorConfig
  tick : OpenTick
  outside : Outside
  key : TickId

def Closing.writes (c : Closing) (w : Working) : List Write :=
  close w c.id c.monitor c.tick c.outside ++ [.deleteTick c.key]

/-- The tick the event closes, if it closes one. -/
def closing (config : Config) (w : Working) : Event → Option Closing
  | .result m o =>
    match config m.monitorId with
    | none => none
    | some monitor =>
      let tick := hear ((w.ticks m.tickId).getD (newTick m)) m
      if monitor.active ∧ ¬late w m ∧ answered tick then some ⟨m.monitorId, monitor, tick, o, m.tickId⟩ else none
  | .sweptTick now key o =>
    match w.ticks key with
    | none => none
    | some tick =>
      match config tick.monitorId with
      | none => none
      | some monitor =>
        if tick.deadline ≤ now ∧ monitor.active then some ⟨tick.monitorId, monitor, tick, o, key⟩ else none
  | _ => none

/-- What an event's writes are, and what led to them. -/
inductive Handling (config : Config) (w : Working) : Event → List Write → Prop where
  | ignored {e : Event} (hc : closing config w e = none) : Handling config w e []
  | closed {e : Event} {c : Closing} (hc : closing config w e = some c) : Handling config w e (c.writes w)
  | opened {m : ResultMsg} {o : Outside} {monitor : MonitorConfig} (hconfig : config m.monitorId = some monitor)
      (hactive : monitor.active = true) (hlate : late w m = false)
      (hc : closing config w (.result m o) = none) :
      Handling config w (.result m o) [.putTick m.tickId (hear ((w.ticks m.tickId).getD (newTick m)) m)]
  | dropped {now : ℚ} {key : TickId} {o : Outside} (hc : closing config w (.sweptTick now key o) = none) :
      Handling config w (.sweptTick now key o) [.deleteTick key]
  | expired {key : TickId} : Handling config w (.expired key) [.deleteTick key]
  | forgot {now : ℚ} {id : String} {o : Outside} {monitor : MonitorConfig} (hconfig : config id = some monitor)
      (hactive : monitor.active = false) : Handling config w (.sweptMonitor now id o) [.forget id]
  | timedOut {now : ℚ} {id : String} {o : Outside} {monitor : MonitorConfig} {st : MonitorState} {t : Transition}
      (hconfig : config id = some monitor) (hactive : monitor.active = true)
      (hnodata : checkNodata (monitorState w id monitor) now monitor.intervalS = (st, some t)) :
      Handling config w (.sweptMonitor now id o) (commit id monitor st (some t) [] o)
  | emitted {key : TransitionId} {o : Outside} {m : TransitionMsg} (hm : w.emit key = some m) :
      Handling config w (.flushKey key o) (emit m o)

theorem handling_writes (config : Config) (w : Working) (e : Event) : Handling config w e (writes config w e) := by
  cases e with
  | result m o =>
    cases hconfig : config m.monitorId with
    | none =>
      simp only [writes, onResult, hconfig]
      exact .ignored (by simp [closing, hconfig])
    | some monitor =>
      simp only [writes, onResult, hconfig]
      cases hactive : monitor.active with
      | false => exact .ignored (by simp [closing, hconfig, hactive])
      | true =>
        cases hlate : late w m with
        | true => exact .ignored (by simp [closing, hconfig, hlate])
        | false =>
          cases hans : answered (hear ((w.ticks m.tickId).getD (newTick m)) m) with
          | true =>
            have hc : closing config w (.result m o) =
                some ⟨m.monitorId, monitor, hear ((w.ticks m.tickId).getD (newTick m)) m, o, m.tickId⟩ := by
              simp [closing, hconfig, hactive, hlate, hans]
            exact .closed hc
          | false =>
            have hc : closing config w (.result m o) = none := by simp [closing, hconfig, hans]
            exact .opened hconfig hactive hlate hc
  | flushKey key o =>
    simp only [writes, flush]
    cases hm : w.emit key with
    | none => exact .ignored rfl
    | some m => exact .emitted hm
  | sweptTick now key o =>
    simp only [writes, sweepTick]
    cases htick : w.ticks key with
    | none => exact .ignored (by simp [closing, htick])
    | some tick =>
      dsimp only
      by_cases hnow : now < tick.deadline
      · rw [if_pos hnow]
        refine .ignored ?_
        simp only [closing, htick]
        cases config tick.monitorId <;> simp [hnow]
      · rw [if_neg hnow]
        cases hconfig : config tick.monitorId with
        | none => exact .dropped (by simp [closing, htick, hconfig])
        | some monitor =>
          cases hactive : monitor.active with
          | false =>
            have hc : closing config w (.sweptTick now key o) = none := by simp [closing, htick, hconfig, hactive]
            simp only [hactive]
            exact .dropped hc
          | true =>
            have hc : closing config w (.sweptTick now key o) = some ⟨tick.monitorId, monitor, tick, o, key⟩ := by
              simp [closing, htick, hconfig, hactive, not_lt.mp hnow]
            simp only [hactive]
            exact .closed hc
  | sweptMonitor now id o =>
    simp only [writes, sweepMonitor]
    cases hconfig : config id with
    | none => exact .ignored rfl
    | some monitor =>
      cases hactive : monitor.active with
      | false =>
        simp only [hactive]
        exact .forgot hconfig hactive
      | true =>
        rcases hnodata : checkNodata (monitorState w id monitor) now monitor.intervalS with ⟨st, _ | t⟩
        · simp only [hactive, hnodata]
          exact .ignored rfl
        · simp only [hactive, hnodata]
          exact .timedOut hconfig hactive hnodata
  | expired key => exact .expired

/-- An event that closes a tick makes the closing's writes. -/
theorem writes_closing {config : Config} {w : Working} {e : Event} {c : Closing} (hc : closing config w e = some c) :
    writes config w e = c.writes w := by
  have hh := handling_writes config w e
  generalize writes config w e = ws at hh
  cases hh with
  | ignored hnone => simp [hc] at hnone
  | closed hsome => rw [Option.some.inj (hsome.symm.trans hc)]
  | opened hconfig hactive hlate hnone => simp [hc] at hnone
  | dropped hnone => simp [hc] at hnone
  | expired => cases hc
  | forgot hconfig hactive => cases hc
  | timedOut hconfig hactive hnodata => cases hc
  | emitted hm => cases hc

/-- Where a closing comes from. -/
theorem closing_spec {config : Config} {w : Working} {e : Event} {c : Closing} (h : closing config w e = some c) :
    config c.id = some c.monitor ∧ c.monitor.active = true ∧
      ((∃ m, e = .result m c.outside ∧ c.id = m.monitorId ∧ c.key = m.tickId ∧ late w m = false ∧
          c.tick = hear ((w.ticks m.tickId).getD (newTick m)) m) ∨
        ∃ now, e = .sweptTick now c.key c.outside ∧ w.ticks c.key = some c.tick ∧ c.id = c.tick.monitorId ∧
          c.tick.deadline ≤ now) := by
  cases e with
  | result m o =>
    simp only [closing] at h
    split at h
    · cases h
    · next monitor hconfig =>
      split at h
      · next hcond =>
        obtain rfl := Option.some.inj h
        exact ⟨hconfig, hcond.1, .inl ⟨m, rfl, rfl, rfl, by simpa using hcond.2.1, rfl⟩⟩
      · cases h
  | sweptTick now key o =>
    simp only [closing] at h
    split at h
    · cases h
    · next tick htick =>
      split at h
      · cases h
      · next monitor hconfig =>
        split at h
        · next hcond =>
          obtain rfl := Option.some.inj h
          exact ⟨hconfig, hcond.2, .inr ⟨now, rfl, htick, rfl, hcond.1⟩⟩
        · cases h
  | flushKey key o => cases h
  | sweptMonitor now id o => cases h
  | expired key => cases h

theorem monitorState_of_not_behind {w : Working} {id : String} {monitor : MonitorConfig}
    (h : behind w id monitor = false) : w.mon id = some (monitorState w id monitor) := by
  unfold behind at h
  cases hraw : w.mon id with
  | none => simp [hraw] at h
  | some raw =>
    have hle : monitor.lastTransitionSeq ≤ raw.seq := by simpa [hraw] using h
    simp [monitorState, hraw, hle]

theorem monitorState_of_behind {w : Working} {id : String} {monitor : MonitorConfig}
    (h : behind w id monitor = true) : monitorState w id monitor = rebuilt monitor := by
  unfold behind at h
  cases hraw : w.mon id with
  | none => simp [monitorState, hraw]
  | some raw =>
    have hlt : raw.seq < monitor.lastTransitionSeq := by simpa [hraw] using h
    simp [monitorState, hraw, not_le.mpr hlt]

theorem le_seq_monitorState (w : Working) (id : String) (monitor : MonitorConfig) :
    monitor.lastTransitionSeq ≤ (monitorState w id monitor).seq := by
  unfold monitorState
  split
  · split
    · assumption
    · exact le_rfl
  · exact le_rfl

/-- The timer never decides on a state rebuilt from the snapshot. -/
theorem not_behind_of_checkNodata {w : Working} {id : String} {monitor : MonitorConfig} {now : ℚ} {st : MonitorState}
    {t : Transition} (h : checkNodata (monitorState w id monitor) now monitor.intervalS = (st, some t)) :
    behind w id monitor = false := by
  by_contra hb
  have hlast := lastResultAt_of_checkNodata h
  rw [monitorState_of_behind (by simpa using hb)] at hlast
  exact hlast rfl

/-! ## What the writes of a handler change -/

section Writes
variable (w : Working) (id : String) (monitor : MonitorConfig) (st : MonitorState) (t : Option Transition)
  (regions : Results) (tick : OpenTick) (o : Outside) (m : TransitionMsg)

theorem run_emit : run write w (emit m o) =
    if o.publishes then
      { w with published := w.published ++ [m], emit := Function.update w.emit m.id none } else w := by
  cases h : o.publishes <;> simp [emit, h, write]

@[simp] theorem mon_emit : (run write w (emit m o)).mon = w.mon := by
  rw [run_emit]; split <;> rfl

@[simp] theorem closed_emit : (run write w (emit m o)).closed = w.closed := by
  rw [run_emit]; split <;> rfl

@[simp] theorem ticks_emit : (run write w (emit m o)).ticks = w.ticks := by
  rw [run_emit]; split <;> rfl

@[simp] theorem mon_commit : (run write w (commit id monitor st t regions o)).mon =
    Function.update w.mon id (some st) := by
  cases t <;> simp [commit, write]

@[simp] theorem closed_commit : (run write w (commit id monitor st t regions o)).closed = w.closed := by
  cases t <;> simp [commit, write]

@[simp] theorem ticks_commit : (run write w (commit id monitor st t regions o)).ticks = w.ticks := by
  cases t <;> simp [commit, write]

@[simp] theorem mon_closing (c : Closing) : (run write w (c.writes w)).mon =
    Function.update w.mon c.id (some (verdict w c.id c.monitor c.tick c.outside).1) := by
  simp [Closing.writes, close, write]

@[simp] theorem closed_closing (c : Closing) : (run write w (c.writes w)).closed =
    Function.update w.closed c.id (some (marker w c.id c.tick)) := by
  simp [Closing.writes, close, write]

@[simp] theorem ticks_closing (c : Closing) : (run write w (c.writes w)).ticks =
    Function.update w.ticks c.key none := by
  simp [Closing.writes, close, write]

end Writes

/-! ## Ticks stand under their own ids -/

def Keyed (w : Working) : Prop :=
  ∀ key tick, w.ticks key = some tick → tick.monitorId = key.1 ∧ tick.scheduledAt = key.2

theorem keyed_empty : Keyed empty := fun _ _ h => by simp [empty] at h

/-- The tick an answer goes to has the answer's monitor and slot. -/
theorem heard_key {w : Working} (h : Keyed w) (m : ResultMsg) :
    (hear ((w.ticks m.tickId).getD (newTick m)) m).monitorId = m.monitorId ∧
      (hear ((w.ticks m.tickId).getD (newTick m)) m).scheduledAt = m.scheduledAt := by
  obtain ⟨hid, hsched⟩ := hear_same ((w.ticks m.tickId).getD (newTick m)) m
  rw [hid, hsched]
  cases htick : w.ticks m.tickId with
  | none => exact ⟨rfl, rfl⟩
  | some tick => exact h _ _ htick

theorem closing_keyed {w : Working} (h : Keyed w) {config : Config} {e : Event} {c : Closing}
    (hc : closing config w e = some c) : c.id = c.key.1 ∧ c.tick.scheduledAt = c.key.2 := by
  obtain ⟨-, -, ⟨m, -, hid, hkey, -, htick⟩ | ⟨now, -, htick, hid, -⟩⟩ := closing_spec hc
  · refine ⟨by rw [hid, hkey]; rfl, ?_⟩
    rw [htick, (heard_key h m).2, hkey]
    rfl
  · obtain ⟨hmon, hsched⟩ := h _ _ htick
    exact ⟨hid.trans hmon, hsched⟩

theorem keyed_step {w : Working} (h : Keyed w) (config : Config) (e : Event) : Keyed (step config w e) := by
  have hdelete : ∀ w' key', w'.ticks = Function.update w.ticks key' none → Keyed w' := by
    intro w' key' hticks key tick htick
    rw [hticks] at htick
    by_cases hkey : key = key'
    · simp [hkey] at htick
    · exact h key tick (by rwa [Function.update_of_ne hkey] at htick)
  have hh := handling_writes config w e
  unfold step
  generalize writes config w e = ws at hh ⊢
  cases hh with
  | ignored _ => exact h
  | @closed e c _ => exact hdelete _ c.key (ticks_closing w c)
  | @opened m o monitor hconfig hactive hlate _ =>
    intro key tick htick
    by_cases hkey : key = m.tickId
    · subst hkey
      simp only [run_cons, run_nil, write, Function.update_self, Option.some.injEq] at htick
      exact htick ▸ heard_key h m
    · exact h key tick (by simpa [write, Function.update_of_ne hkey] using htick)
  | @dropped now key' o _ => exact hdelete _ key' rfl
  | @expired key' => exact hdelete _ key' rfl
  | forgot hconfig hactive => exact h
  | timedOut hconfig hactive hnodata => exact fun key tick htick => h key tick (by rwa [ticks_commit] at htick)
  | emitted hm => exact fun key tick htick => h key tick (by rwa [ticks_emit] at htick)

end Upstat.EvaluatorPrograms
