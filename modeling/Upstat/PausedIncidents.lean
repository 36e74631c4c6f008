import Upstat.GuardedRuns
import Upstat.TransitionConsumer

/-! # A paused monitor and its auto-incident

Edits of one monitor and transitions interleave. An edit reads the monitor without a lock,
so other transactions may commit between its read and its writes; the writes themselves
and a whole transition each hold the monitor's row. -/
namespace Upstat.PausedIncidents

open GuardedRuns MonitorMachine CommonDatabase TransitionConsumer

/-- The committed database, and what each edit in flight read. -/
structure State where
  db : Db
  reads : ℕ → Option MonitorRow

inductive Event where
  | read (task : ℕ)
  | write (task : ℕ) (now : ℚ) (in_ : MonitorInput)
  | transition (now : ℚ) (m : TransitionMsg)

def step (monitor : String) (s : State) : Event → State
  | .read task => { s with reads := Function.update s.reads task (getMonitor s.db monitor).toOption }
  | .write task now in_ =>
    match s.reads task with
    | none => s
    | some cur => ⟨edit s.db now cur monitor in_, Function.update s.reads task none⟩
  | .transition now m => { s with db := deliver s.db (now, m) }

/-- No inactive monitor of that id has an open auto-incident. -/
def NonePaused (monitor : String) (s : State) : Prop :=
  ∀ r ∈ s.db.monitors monitor, r.active = false → hasOpen s.db monitor = false

/-- A pause had read the monitor as active or finds no open incident, and a transition into
down that is stored finds the monitor active. -/
def Fits (monitor : String) (s : State) : Event → Prop
  | .read _ => True
  | .write task _ in_ => ∀ cur ∈ s.reads task, accepted s.db monitor in_ = true → in_.active = some false →
      cur.active = true ∨ hasOpen s.db monitor = false
  | .transition _ m => m.monitorId = monitor → fresh s.db m = true → direction m = some true →
      ∀ r ∈ s.db.monitors monitor, r.active = true

theorem nonePaused_read (monitor : String) (s : State) (task : ℕ) (h : NonePaused monitor s) :
    NonePaused monitor (step monitor s (.read task)) := h

theorem nonePaused_write (monitor : String) (s : State) (task : ℕ) (now : ℚ) (in_ : MonitorInput)
    (h : NonePaused monitor s) :
    NonePaused monitor (step monitor s (.write task now in_)) ↔ Fits monitor s (.write task now in_) := by
  simp only [step, Fits]
  cases hread : s.reads task with
  | none => simpa using h
  | some cur =>
    have hspec := edited_edit s.db now cur monitor in_
    simp only [Option.mem_def, Option.some.injEq, forall_eq', NonePaused, hspec.monitors, hspec.hasOpen, and_true]
    cases hacc : accepted s.db monitor in_ with
    | false => simpa [NonePaused] using h
    | true =>
      obtain ⟨r, hr⟩ : ∃ r, s.db.monitors monitor = some r := by
        simp only [accepted, Bool.and_eq_true, Option.isSome_iff_exists] at hacc
        exact hacc.2
      have hold : r.active = false → hasOpen s.db monitor = false := h r hr
      simp only [if_true, Function.update_self, hr, Option.map_some, Option.some.injEq, forall_eq', true_and,
        true_implies]
      -- Which activity the edit asks for decides what the row becomes.
      rcases hin : in_.active with _ | _ | _
      · simpa [MonitorInput.patch, closes, hin] using hold
      · cases hcur : cur.active <;> simp [MonitorInput.patch, closes, hin, hcur]
      · simp [MonitorInput.patch, hin]

theorem nonePaused_transition (monitor : String) (s : State) (now : ℚ) (m : TransitionMsg) (h : NonePaused monitor s) :
    NonePaused monitor (step monitor s (.transition now m)) ↔ Fits monitor s (.transition now m) := by
  have hspec := handled_deliver s.db (now, m)
  -- A transition keeps every monitor's activity.
  have hactive : ((deliver s.db (now, m)).monitors monitor).map MonitorRow.active =
      (s.db.monitors monitor).map MonitorRow.active := by
    rw [hspec.monitors]
    split
    · by_cases hm : monitor = m.monitorId
      · subst hm
        simp [applyTo, Option.map_map, Function.comp_def, applied]
      · simp [applyTo, Function.update_of_ne hm]
    · rfl
  have hpaused : NonePaused monitor (step monitor s (.transition now m)) ↔
      ((s.db.monitors monitor).map MonitorRow.active = some false → hasOpen (deliver s.db (now, m)) monitor = false) := by
    rw [← hactive]
    simp [NonePaused, step]
  have hold : (s.db.monitors monitor).map MonitorRow.active = some false → hasOpen s.db monitor = false := by
    simpa [NonePaused] using h
  rw [hpaused, hspec.hasOpen]
  simp only [Fits]
  by_cases hm : monitor = m.monitorId
  · subst hm
    cases hf : fresh s.db m with
    | false => simpa using hold
    | true =>
      rcases hdir : direction m with _ | _ | _
      · simpa [hdir] using hold
      · simp
      · cases hr : s.db.monitors m.monitorId <;> simp
  · simpa [hm, Ne.symm hm] using hold

theorem nonePaused_step (monitor : String) (s : State) (e : Event) (h : NonePaused monitor s) :
    NonePaused monitor (step monitor s e) ↔ Fits monitor s e := by
  cases e with
  | read task => exact iff_of_true (nonePaused_read monitor s task h) trivial
  | write task now in_ => exact nonePaused_write monitor s task now in_ h
  | transition now m => exact nonePaused_transition monitor s now m h

/-- Throughout a run no paused monitor has an open incident, exactly when every step fits. -/
theorem none_paused_iff (monitor : String) (s : State) (h : NonePaused monitor s) (es : List Event) :
    Throughout (step monitor) (NonePaused monitor) s es ↔ Meets (step monitor) (Fits monitor) s es :=
  throughout_iff_meets (Q := fun _ => True) (fun _ _ _ _ => trivial)
    (fun s e _ hs => nonePaused_step monitor s e hs) trivial h es

/-! ## A pause with a transition in flight -/

instance (monitor : String) (s : State) : (e : Event) → Decidable (Fits monitor s e)
  | .read _ => isTrue trivial
  | .write task _ in_ =>
    inferInstanceAs (Decidable (∀ cur ∈ s.reads task, accepted s.db monitor in_ = true → in_.active = some false →
      cur.active = true ∨ hasOpen s.db monitor = false))
  | .transition _ m =>
    inferInstanceAs (Decidable (m.monitorId = monitor → fresh s.db m = true → direction m = some true →
      ∀ r ∈ s.db.monitors monitor, r.active = true))

def checkout : MonitorRow := ⟨"m", "o", "checkout", true, .up, 60, 3, 1, 0, 1⟩

def serving : State where
  db := {
    monitors := fun id => if id = "m" then some checkout else none
    transitions := [⟨"m", "o", 1, .pending, .up, "", 60, [("eu", true)], 0⟩]
    incidents := noIncidents
    timeline := [] }
  reads := fun _ => none

theorem nonePaused_serving : NonePaused "m" serving := by
  intro r hr hinactive
  rfl

def wentDown : TransitionMsg := ⟨"m", "o", 2, .up, .down, "timeout", 120, [("eu", false)], 3⟩

def pause : MonitorInput := ⟨none, some false, none, none, none, false⟩

/-- Down, then paused: the pause closes the incident. -/
theorem down_then_paused :
    Throughout (step "m") (NonePaused "m") serving [.transition 121 wentDown, .read 0, .write 0 130 pause] :=
  (none_paused_iff "m" serving nonePaused_serving _).mpr (by decide +kernel)

/-- Paused while the transition into down is in flight: handling it opens an incident. -/
theorem paused_then_down :
    ¬NonePaused "m" (run (step "m") serving [.read 0, .write 0 125 pause, .transition 130 wentDown]) := by
  have hrow : (run (step "m") serving [.read 0, .write 0 125 pause, .transition 130 wentDown]).db.monitors "m" =
      some ⟨"m", "o", "checkout", false, .paused, 60, 3, 1, 0, 1⟩ := by decide +kernel
  have hopen : hasOpen (run (step "m") serving [.read 0, .write 0 125 pause, .transition 130 wentDown]).db "m" = true := by
    decide +kernel
  intro h
  have hclosed := h _ hrow rfl
  rw [hopen] at hclosed
  cases hclosed

end Upstat.PausedIncidents
