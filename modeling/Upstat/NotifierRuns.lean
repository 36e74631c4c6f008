import Mathlib.Data.NNRat.Defs
import Upstat.NotifierEffects
import Upstat.NotifierOrdering

/-! # Runs of the notifier in time

What happens to the notifier happens a while after what happened before. This module says
what each of its events leaves of the marks, the flapping windows, the stamps and the timers. -/
namespace Upstat.NotifierRuns

open AwaitedPrograms NotifierPrograms NotifierEffects NotifierOrdering CommonDatabase MonitorMachine

inductive Happening where
  | transition (c : Config) (msg : TransitionMsg)
  | retry (c : Config) (key : DeliveryId)
  | sweep (c : Config) (monitorId : String)
  | renotify (c : Config) (key : String × String)
  | verify (c : Config) (channelId orgId requestedAt : String) (requestId : Option String)
  | alert (c : Config) (rule : Rule) (entered : Bool) (value : Option ℚ) (transitionId : Option String)
  | saved (monitorId : String) (st : MonitorState)

def Happening.at (now : ℚ) : Happening → Event
  | transition c msg => .transition c msg now
  | retry c key => .retry c key now
  | sweep c monitorId => .sweep c monitorId now
  | renotify c key => .renotify c key now
  | verify c channelId orgId requestedAt requestId => .verify c channelId orgId requestedAt requestId now
  | alert c rule entered value transitionId => .alert c rule entered value now transitionId
  | saved monitorId st => .saved monitorId st

/-- What happens next, and how long after the last. -/
structure Moment where
  delay : ℚ≥0
  happening : Happening

structure Clocked where
  clock : ℚ
  world : NotifierWorld

def Clocked.store (s : Clocked) : Store := s.world.store

/-- The time of the moment. -/
def Clocked.at (s : Clocked) (m : Moment) : ℚ := s.clock + m.delay

def tick (n : Notifier) (answer : ℕ → (c : Call) → Reply c) (s : Clocked) (m : Moment) : Clocked :=
  ⟨s.at m, step n answer s.world (m.happening.at (s.at m))⟩

theorem Clocked.le_at (s : Clocked) (m : Moment) : s.clock ≤ s.at m := by
  simp [Clocked.at]

/-! ## Marks and windows -/

/-- The window of the monitor, empty where none is stored. -/
def window (s : Store) (monitorId : String) : Flap := (s.flap monitorId).getD {}

/-- The window after a transition has been counted. -/
def flapAfter (flap : Flap) (edge : List ℚ) (now : ℚ) : Flap :=
  let edges := recentEdges (flap.edges ++ edge) now
  ⟨edges, if flap.on then 1 < edges.length else flapEdges ≤ edges.length⟩

/-- The window after a sweep, which only ends flapping. -/
def flapSwept (flap : Flap) (now : ℚ) : Flap :=
  let edges := recentEdges flap.edges now
  if flap.on ∧ edges.length ≤ 1 then ⟨edges, false⟩ else flap

/-- A write to neither the marks nor the windows. -/
def Aside : Write → Prop
  | .handled _ | .putFlap _ _ => False
  | _ => True

section Windows
variable {n : Notifier} {c : Config} {rule : Rule} {monitor : Monitor} {now : ℚ} {ok : Store → Write → Prop}

theorem aside_dispatch {ruleId m : String} {direction : Direction} {x : Write}
    (h : OfDispatch ruleId m direction now x) : Aside x := by
  cases x <;> trivial

theorem aside_exit {m : String} {x : Write} (h : OfExit m now x) : Aside x := by
  cases x with
  | handled id => exact h.choose_spec.elim
  | putFlap m' flap => exact h.choose_spec.elim
  | _ => trivial

theorem aside_delivery {m : Option String} {direction : Direction} {x : Write} (h : OfDelivery m direction x) :
    Aside x := by
  cases x <;> trivial

/-- Programs that write aside keep the marks and the windows. -/
theorem keeps_aside {α : Type} {p : Program α} (hp : p.Only Aside) (tx : TransitionId → Bool)
    (flap : String → Option Flap) : p.Keeps write ok fun s => s.tx = tx ∧ s.flap = flap := by
  refine hp.keeps fun s x hx hs => ?_
  cases x <;> first | exact hs | exact hx.elim

theorem wp_flapping (t : TransitionMsg) (w : NotifierWorld) :
    (flapping n c t monitor now).wp write ok (fun _ w' => w'.store.tx = w.store.tx ∧ w'.store.flap =
      Function.update w.store.flap monitor.id (some (flapAfter (window w.store monitor.id) (edgeOf t now) now))) w := by
  -- Each branch stores the window and then writes aside.
  have after : ∀ (flap : Flap) (p : Program Bool), p.Only Aside →
      flap = flapAfter (window w.store monitor.id) (edgeOf t now) now →
      (Prog.put (.putFlap monitor.id flap) >>= fun _ => p).wp write ok (fun _ w' => w'.store.tx = w.store.tx ∧
        w'.store.flap = Function.update w.store.flap monitor.id
          (some (flapAfter (window w.store monitor.id) (edgeOf t now) now))) w := by
    intro flap p hp hflap
    rw [wp_put_bind]
    intro _
    subst hflap
    exact keeps_aside hp w.store.tx _ (w.put write _) ⟨rfl, rfl⟩
  unfold flapping
  rw [wp_get_bind]
  dsimp only
  change (if _ then _ else _ : Program Bool).wp write ok _ w
  generalize hedges : recentEdges (((w.store.flap monitor.id).getD {}).edges ++ edgeOf t now) now = edges
  split
  · next h =>
    refine after _ _ ?_ (by simp [flapAfter, window, hedges, h.1, h.2])
    refine only_bind (only_forEach _ fun rule _ => ?_) fun _ => only_pure _
    exact (only_dispatch true).mono fun x hx => aside_dispatch hx
  · next h =>
    split
    · next h' =>
      refine after _ _ ?_ (by simp [flapAfter, window, hedges, h'.1, Nat.not_lt.mpr h'.2])
      exact only_bind ((only_exitFlapping _ _ _).mono fun x hx => aside_exit hx) fun _ => only_pure _
    · next h' =>
      refine after _ _ (only_bind (only_when fun _ => only_recordFlapping t) fun _ => only_pure _) ?_
      cases hon : ((w.store.flap monitor.id).getD {}).on with
      | true =>
        have : 1 < edges.length := by
          by_contra hle
          exact h' ⟨hon, Nat.not_lt.mp hle⟩
        simp [flapAfter, window, hedges, hon, this]
      | false =>
        have : ¬flapEdges ≤ edges.length := fun hle => h ⟨by simp [hon], hle⟩
        simp [flapAfter, window, hedges, hon, this]

theorem only_clearRenotify (m : String) : (clearRenotify m).Only fun x => ∃ key, x = .deleteRenotify key ∧ key.2 = m := by
  refine only_get_bind fun s => only_forEach _ fun key hkey => only_put ⟨key, rfl, ?_⟩
  simpa using (List.mem_filter.mp hkey).2

/-- Writes of the handling of a transition of the monitor. -/
def OfHandling (m : String) (now : ℚ) (x : Write) : Prop :=
  (∃ flap, x = .putFlap m flap) ∨ OfExit m now x ∨ ∃ ruleId direction, OfDispatch ruleId m direction now x

theorem only_flapping (t : TransitionMsg) : (flapping n c t monitor now).Only (OfHandling monitor.id now) := by
  refine only_get_bind fun s => ?_
  dsimp only
  split
  · refine only_bind (only_put (.inl ⟨_, rfl⟩)) fun _ => only_bind (only_forEach _ fun rule _ => ?_) fun _ => only_pure _
    exact (only_dispatch true).mono fun x hx => .inr (.inr ⟨rule.id, _, hx⟩)
  · split
    · refine only_bind (only_put (.inl ⟨_, rfl⟩)) fun _ => only_bind ?_ fun _ => only_pure _
      exact (only_exitFlapping _ _ _).mono fun x hx => .inr (.inl hx)
    · refine only_bind (only_put (.inl ⟨_, rfl⟩)) fun _ => ?_
      exact only_bind (only_when fun _ => only_recordFlapping t) fun _ => only_pure _

theorem only_handle (t : TransitionMsg) : (handle n c t now).Only (OfHandling t.monitorId now) := by
  have hid := monitorOf_id c t
  refine only_bind (only_when fun _ => ?_) fun _ => only_bind (hid ▸ only_flapping t) fun suppressed => ?_
  · refine (only_clearRenotify _).mono fun x ⟨key, hx, hkey⟩ => .inr (.inr ⟨key.1, .recovered, ?_⟩)
    subst hx
    exact ⟨Prod.ext rfl (hkey.trans hid), rfl⟩
  · split
    · exact only_pure ()
    · cases directionOf t.from_ t.to_ with
      | none => exact only_pure ()
      | some direction =>
        refine only_forEach _ fun rule _ => (only_dispatch false).mono fun x hx => .inr (.inr ⟨rule.id, direction, ?_⟩)
        exact hid ▸ hx

theorem wp_handle (t : TransitionMsg) (w : NotifierWorld) :
    (handle n c t now).wp write ok (fun _ w' => w'.store.tx = w.store.tx ∧ w'.store.flap =
      Function.update w.store.flap t.monitorId (some (flapAfter (window w.store t.monitorId) (edgeOf t now) now))) w := by
  have hclear : ((clearRenotify (monitorOf c t).id).Only Aside) :=
    (only_clearRenotify (monitorOf c t).id).mono fun x ⟨key, hx, _⟩ => hx ▸ trivial
  refine wp_handle_of (R := fun w1 => w1.store.tx = w.store.tx ∧ w1.store.flap = w.store.flap)
    (fun _ => keeps_aside hclear w.store.tx w.store.flap w ⟨rfl, rfl⟩) (fun _ => ⟨rfl, rfl⟩) fun w1 ⟨htx, hflap⟩ => ?_
  -- After the window is stored, the dispatches write aside.
  refine wp_bind (wp_mono (fun a w2 h2 => ?_) (wp_flapping t w1))
  rw [window, hflap, htx, monitorOf_id] at h2
  cases a with
  | none => exact h2
  | some suppressed =>
    refine keeps_aside ?_ _ _ w2 h2
    split
    · exact only_pure ()
    · cases directionOf t.from_ t.to_ with
      | none => exact only_pure ()
      | some direction => exact only_forEach _ fun rule _ => (only_dispatch false).mono fun x hx => aside_dispatch hx

/-- A transition that comes for the first time is counted, and marked unless its handling raises. -/
theorem wp_onTransition (n : Notifier) (c : Config) (t : TransitionMsg) (now : ℚ) (w : NotifierWorld) :
    (onTransition n c t now).wp write ok (fun a w' =>
      if w.store.tx t.id then w'.store.tx = w.store.tx ∧ w'.store.flap = w.store.flap
      else w'.store.flap = Function.update w.store.flap t.monitorId
          (some (flapAfter (window w.store t.monitorId) (edgeOf t now) now)) ∧
        w'.store.tx = if a = none then w.store.tx else Function.update w.store.tx t.id true) w := by
  unfold onTransition
  rw [wp_get_bind]
  cases htx : w.store.tx t.id with
  | true => exact ⟨rfl, rfl⟩
  | false =>
    refine wp_bind (wp_mono (fun a w1 h1 => ?_) (wp_handle t w))
    cases a with
    | none => exact ⟨h1.2, h1.1⟩
    | some _ =>
      intro _
      refine ⟨h1.2, ?_⟩
      rw [if_neg (by simp), ← h1.1]
      rfl

theorem wp_sweep (n : Notifier) (c : Config) (m : String) (now : ℚ) (w : NotifierWorld) :
    (sweep n c m now).wp write ok (fun _ w' => w'.store.tx = w.store.tx ∧
      window w'.store = Function.update (window w.store) m (flapSwept (window w.store m) now)) w := by
  unfold sweep
  rw [wp_get_bind]
  cases hflap : w.store.flap m with
  | none =>
    have hempty : window w.store m = {} := by rw [window, hflap]; rfl
    refine ⟨rfl, (Function.update_eq_self_iff.mpr ?_).symm⟩
    simp [hempty, flapSwept]
  | some flap =>
    have hwindow : window w.store m = flap := by rw [window, hflap]; rfl
    dsimp only
    split
    · next h =>
      rw [wp_put_bind]
      intro _
      refine wp_mono (fun a w' hw' => ?_) (keeps_aside ?_ w.store.tx
        (Function.update w.store.flap m (some ⟨recentEdges flap.edges now, false⟩)) (w.put write _) ⟨rfl, rfl⟩)
      · refine ⟨hw'.1, funext fun m' => ?_⟩
        rw [window, hw'.2]
        by_cases hm : m' = m
        · subst hm
          simp [flapSwept, hwindow, h.1, h.2]
        · rw [Function.update_of_ne hm, Function.update_of_ne hm]
          rfl
      · cases c.monitor m with
        | none => exact only_pure ()
        | some monitor => exact only_get_bind fun s => (only_exitFlapping _ _ _).mono fun x hx => aside_exit hx
    · next h =>
      refine ⟨rfl, (Function.update_eq_self_iff.mpr ?_).symm⟩
      rw [hwindow, flapSwept, if_neg h]

theorem only_renotify_aside (key : String × String) : (renotify n c key now).Only Aside := by
  refine only_get_bind fun s => ?_
  split
  · split
    · exact only_put trivial
    · dsimp only
      split
      · exact only_pure ()
      · exact only_bind ((only_dispatch true).mono fun x hx => aside_dispatch hx) fun _ => only_put trivial
  · exact only_put trivial

theorem only_onVerify {A : Write → Prop} (channelId orgId requestedAt : String) (requestId : Option String) :
    (onVerify c channelId orgId requestedAt requestId now).Only A := by
  unfold onVerify
  cases c.channels.find? (·.id = channelId) with
  | none => exact only_pure ()
  | some channel => exact only_bind (fun _ => trivial) fun outcome => only_publish _ _

theorem only_ruleAlert_aside (entered : Bool) (value : Option ℚ) (transitionId : Option String) :
    (ruleAlert n c rule entered value now transitionId).Only Aside := by
  refine only_get_bind fun s => ?_
  dsimp only
  split
  · exact only_pure ()
  · refine only_bind (only_forEach _ fun channelId _ => only_get_bind fun s => ?_) fun _ => only_when fun _ => only_put trivial
    exact (only_attempt c _ now).mono fun x hx => aside_delivery hx

end Windows

section Step
variable (n : Notifier) (answer : ℕ → (c : Call) → Reply c) (w : NotifierWorld)

/-- A transition that comes for the first time is counted, and marked unless its handling raises. -/
theorem transition_step (c : Config) (t : TransitionMsg) (now : ℚ) (htx : w.store.tx t.id = false) :
    let r := (onTransition n c t now).run write answer w
    window (step n answer w (.transition c t now)).store =
        Function.update (window w.store) t.monitorId (flapAfter (window w.store t.monitorId) (edgeOf t now) now) ∧
      (step n answer w (.transition c t now)).store.tx =
        if r.1 = none then w.store.tx else Function.update w.store.tx t.id true := by
  have h := wp_run answer (wp_onTransition n c t now w)
  rw [htx, if_neg (by simp)] at h
  refine ⟨funext fun m => ?_, h.2⟩
  rw [window, step, program, h.1]
  by_cases hm : m = t.monitorId
  · subst hm
    simp
  · rw [Function.update_of_ne hm, Function.update_of_ne hm]
    rfl

/-- A transition that is marked changes neither marks nor windows. -/
theorem marked_step (c : Config) (t : TransitionMsg) (now : ℚ) (htx : w.store.tx t.id = true) :
    window (step n answer w (.transition c t now)).store = window w.store ∧
      (step n answer w (.transition c t now)).store.tx = w.store.tx := by
  have h := wp_run answer (wp_onTransition n c t now w)
  rw [htx, if_pos rfl] at h
  exact ⟨funext fun m => by rw [window, step, program, h.2]; rfl, h.1⟩

theorem sweep_step (c : Config) (m : String) (now : ℚ) :
    window (step n answer w (.sweep c m now)).store = Function.update (window w.store) m (flapSwept (window w.store m) now) ∧
      (step n answer w (.sweep c m now)).store.tx = w.store.tx := by
  have h := wp_run answer (wp_sweep n c m now w)
  exact ⟨h.2, h.1⟩

/-- Neither a transition nor a sweep. -/
def Happening.besides : Happening → Bool
  | .transition _ _ | .sweep _ _ => false
  | _ => true

theorem only_besides {happening : Happening} (h : happening.besides = true) (now : ℚ) :
    (program n (happening.at now)).Only Aside := by
  cases happening with
  | transition c t => cases h
  | sweep c m => cases h
  | retry c key => exact (only_retryDue key).mono fun x ⟨_, _, hx⟩ => aside_delivery hx
  | renotify c key => exact only_renotify_aside key
  | verify c channelId orgId requestedAt requestId => exact only_onVerify channelId orgId requestedAt requestId
  | alert c rule entered value transitionId => exact only_ruleAlert_aside entered value transitionId
  | saved m st => exact only_put trivial

/-- Everything besides transitions and sweeps leaves marks and windows. -/
theorem besides_step {happening : Happening} (h : happening.besides = true) (now : ℚ) :
    window (step n answer w (happening.at now)).store = window w.store ∧
      (step n answer w (happening.at now)).store.tx = w.store.tx := by
  have h := wp_run answer (keeps_aside (only_besides n h now) w.store.tx w.store.flap w ⟨rfl, rfl⟩)
  exact ⟨funext fun m => by rw [window, step, h.2]; rfl, h.1⟩

end Step

end Upstat.NotifierRuns
