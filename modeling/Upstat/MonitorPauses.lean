import Upstat.NotifierJobs

/-! # The notifier beside the pauses of monitors

A pause, a resume and a deletion change api/common's row and its snapshot, and nothing of
the notifier's state. The evaluator forgets the state of a paused monitor when it sweeps. -/
namespace Upstat.MonitorPauses

open AwaitedPrograms NotifierPrograms NotifierOrdering NotifierRuns NotifierJobs CommonDatabase MonitorMachine

inductive Occurrence where
  | notified (happening : Happening)
  | paused (monitorId : String)
  | resumed (monitorId : String)
  | deleted (monitorId : String)
  | decided (id : TransitionId)
  | forgotten (monitorId : String)

/-- What occurs next, and how long after the last. -/
structure Later where
  delay : ℚ≥0
  occurrence : Occurrence

def forget (w : NotifierWorld) (monitorId : String) : NotifierWorld :=
  { w with store := { w.store with mon := Function.update w.store.mon monitorId none } }

def occur (n : Notifier) (answer : ℕ → (c : Call) → Reply c) (s : Clocked) (o : Later) : Clocked :=
  match o.occurrence with
  | .notified happening => tick n answer s ⟨o.delay, happening⟩
  | .forgotten monitorId => ⟨s.clock + o.delay, forget s.world monitorId⟩
  | _ => ⟨s.clock + o.delay, s.world⟩

def Later.at (s : Clocked) (o : Later) : ℚ := s.clock + o.delay

theorem Later.le_at (s : Clocked) (o : Later) : s.clock ≤ o.at s := by
  simp [Later.at]

theorem clock_occur (n : Notifier) (answer : ℕ → (c : Call) → Reply c) (s : Clocked) (o : Later) :
    (occur n answer s o).clock = o.at s := by
  unfold occur
  split <;> rfl

theorem waiting_occur (n : Notifier) (answer : ℕ → (c : Call) → Reply c) {s : Clocked} (h : AllWaiting s.store) (o : Later) :
    AllWaiting (occur n answer s o).store := by
  unfold occur
  split
  · exact wp_run answer (keeps_program n _ s.world h)
  · exact h
  · exact h

end Upstat.MonitorPauses
