import Upstat.FlappingGuard
import Upstat.MonitorPauses

/-! # Messages that a monitor is still down

A timer is armed when a down is dispatched and cleared by a transition out of down. A pause
or a deletion clears no timer, and nothing takes back a message that waits for another try. -/
namespace Upstat.StillDown

open GuardedRuns AwaitedPrograms NotifierPrograms NotifierEffects NotifierOrdering NotifierRuns NotifierJobs
  MonitorPauses CommonDatabase MonitorMachine
open FlappingGuard (renotifies wp_sweep_staying wp_renotify_undue)

/-- The run, the monitors that are paused or deleted, the transition of each monitor that was
handled last, those whose flapping ended since while that was not into down, and the messages
that a transition out of down has overtaken. -/
structure Watched where
  run : Clocked
  inactive : String → Bool
  last : String → Option TransitionMsg
  rearmed : String → Bool
  overtaken : DeliveryId → Bool

def start (clock : ℚ) : Watched := ⟨⟨clock, init⟩, fun _ => false, fun _ => none, fun _ => false, fun _ => false⟩

def intoDown (t : TransitionMsg) : Bool := t.to_ = .down

/-- The transition neither enters nor leaves down. -/
def crossing (t : TransitionMsg) : Bool := t.from_ ≠ .down ∧ t.to_ ≠ .down

/-- A sweep at this time ends the monitor's flapping. -/
def endsFlapping (s : Store) (monitorId : String) (now : ℚ) : Bool :=
  (window s monitorId).on ∧ (recentEdges (window s monitorId).edges now).length ≤ 1

/-- A message that this monitor is still down waits for another try. -/
def waits (s : Store) (monitorId : String) (id : DeliveryId) : Bool :=
  (s.retry.lookup id).any fun job => job.direction = .renotify ∧ job.monitorId = some monitorId

/-- The monitor of a message that it is still down. -/
def stillDownOf : (c : Call) × Reply c → Option String
  | ⟨.deliver _ _ payload _ _, _⟩ =>
    (aboutMonitor payload).bind fun about => if about.1 = "monitor.renotify" then some about.2 else none
  | _ => none

section Statement
variable (n : Notifier) (answer : ℕ → (c : Call) → Reply c)

def handle (s : Watched) (o : Later) : Watched :=
  let s' := { s with run := occur n answer s.run o }
  match o.occurrence with
  | .paused m | .deleted m => { s' with inactive := Function.update s.inactive m true }
  | .resumed m => { s' with inactive := Function.update s.inactive m false }
  | .notified (.transition _ t) =>
    if s.run.store.tx t.id then s'
    else
      { s' with
        last := Function.update s.last t.monitorId (some t)
        rearmed := Function.update s.rearmed t.monitorId false
        overtaken := fun id => if waits s.run.store t.monitorId id then ¬intoDown t else s.overtaken id }
  | .notified (.sweep _ m) =>
    if endsFlapping s.run.store m (o.at s.run) ∧ ¬(s.last m).any intoDown then
      { s' with rearmed := Function.update s.rearmed m true }
    else s'
  | _ => s'

/-- What is sent says only of active monitors whose last transition is into down that they are
still down. -/
def OnlyWhileDown (s : Watched) (o : Later) : Prop :=
  ∀ call ∈ (handle n answer s o).run.world.calls.drop s.run.world.calls.length, ∀ m, stillDownOf call = some m →
    s.inactive m = false ∧ (s.last m).any intoDown = true

/-- No timer is due, and no message due for another try, while the monitor is paused or
deleted; no timer that a transition past down left standing or the end of flapping armed
early; and no message that a transition out of down has overtaken. -/
def Fits (s : Watched) (o : Later) : Prop :=
  match o.occurrence with
  | .notified (.renotify c key) => renotifies c key s.run.store (o.at s.run) = true →
    s.inactive key.2 = false ∧ (s.last key.2).any crossing = false ∧ s.rearmed key.2 = false
  | .notified (.retry c key) => ∀ job ∈ s.run.store.retry.lookup key, job.direction = .renotify → job.final = none →
    job.nextAt ≤ o.at s.run → (c.channel job.channelId).isSome →
    s.overtaken key = false ∧ ∀ m ∈ job.monitorId, s.inactive m = false
  | _ => True

instance (s : Watched) : DecidablePred (Fits s)
  | ⟨_, .notified (.renotify _ _)⟩ | ⟨_, .notified (.retry _ _)⟩ => by unfold Fits; infer_instance
  | ⟨_, .notified (.transition _ _)⟩ | ⟨_, .notified (.sweep _ _)⟩ | ⟨_, .notified (.verify _ _ _ _ _)⟩
  | ⟨_, .notified (.alert _ _ _ _ _)⟩ | ⟨_, .notified (.saved _ _)⟩ | ⟨_, .paused _⟩ | ⟨_, .resumed _⟩
  | ⟨_, .deleted _⟩ | ⟨_, .decided _⟩ | ⟨_, .forgotten _⟩ => isTrue trivial

end Statement

variable {n : Notifier} {answer : ℕ → (c : Call) → Reply c} {ok : Store → Write → Prop} {c : Config} {now : ℚ}
  {m : String} {s : Watched} {w : NotifierWorld}

/-! ## Timers -/

/-- A write that arms no timer. -/
def Unarming : Write → Prop
  | .putRenotify _ _ => False
  | _ => True

/-- A write that arms at most timers of the monitor. -/
def ArmingOnly (m : String) : Write → Prop
  | .putRenotify key _ => key.2 = m
  | _ => True

def armed (s : Store) (key : String × String) : Bool := (s.renotify.lookup key).isSome

theorem armed_unarming {s : Store} {x : Write} (hx : Unarming x) {key : String × String} (h : armed (write s x) key = true) :
    armed s key = true := by
  cases x with
  | putRenotify key' stamp => exact hx.elim
  | deleteRenotify key' =>
    by_cases hkey : key = key'
    · subst hkey
      rw [armed, write, AList.lookup_erase] at h
      cases h
    · rwa [armed, write, AList.lookup_erase_ne hkey] at h
  | _ => exact h

theorem armed_armingOnly {s : Store} {x : Write} (hx : ArmingOnly m x) {key : String × String} (hkey : key.2 ≠ m)
    (h : armed (write s x) key = true) : armed s key = true := by
  cases x with
  | putRenotify key' stamp =>
    have hne : key ≠ key' := fun heq => hkey (heq ▸ hx)
    rwa [armed, write, AList.lookup_insert_ne hne] at h
  | deleteRenotify key' => exact armed_unarming (x := .deleteRenotify key') trivial h
  | _ => exact h

theorem armingOnly_dispatch {ruleId : String} {direction : Direction} {x : Write} (hx : OfDispatch ruleId m direction now x) :
    ArmingOnly m x := by
  cases x with
  | putRenotify key stamp => exact congrArg Prod.snd hx.1
  | _ => trivial

theorem unarming_dispatch {ruleId : String} {direction : Direction} (hdirection : direction ≠ .down) {x : Write}
    (hx : OfDispatch ruleId m direction now x) : Unarming x := by
  cases x with
  | putRenotify key stamp => exact hdirection hx.2.2
  | _ => trivial

theorem unarming_delivery {direction : Direction} {monitorId : Option String} {x : Write}
    (hx : OfDelivery monitorId direction x) : Unarming x := by
  cases x with
  | putRenotify key stamp => exact hx.elim
  | _ => trivial

theorem armingOnly_exit {x : Write} (hx : OfExit m now x) : ArmingOnly m x := by
  cases x with
  | putRenotify key stamp => exact armingOnly_dispatch (x := .putRenotify key stamp) hx.choose_spec
  | _ => trivial

/-- The guard arms nothing: what it announces is no down. -/
theorem unarming_flapping {t : TransitionMsg} {monitor : Monitor} : (flapping n c t monitor now).Only Unarming := by
  refine only_get_bind fun s => ?_
  dsimp only
  split
  · refine only_bind (only_put trivial) fun _ => only_bind (only_forEach _ fun rule _ => ?_) fun _ => only_pure _
    exact (only_dispatch true).mono fun x hx => unarming_dispatch (by decide) hx
  · split
    · refine only_bind (only_put trivial) fun _ => only_bind ?_ fun _ => only_pure _
      refine only_bind (only_forEach _ fun rule _ => only_bind (only_put trivial) fun _ => only_put trivial) fun _ => ?_
      exact only_bind (only_publish _ _) fun _ => only_when fun hc => absurd (of_decide_eq_true hc).1 (by simp)
    · exact only_bind (only_put trivial) fun _ => only_bind (only_when fun _ => only_recordFlapping t) fun _ => only_pure _

theorem armingOnly_onTransition (n : Notifier) (c : Config) (t : TransitionMsg) (now : ℚ) :
    (onTransition n c t now).Only (ArmingOnly t.monitorId) := by
  refine only_get_bind fun s => ?_
  split
  · exact only_pure ()
  · refine only_bind ((only_handle t).mono fun x hx => ?_) fun _ => only_put trivial
    rcases hx with ⟨flap, rfl⟩ | hexit | ⟨ruleId, direction, hdispatch⟩
    · trivial
    · exact armingOnly_exit hexit
    · exact armingOnly_dispatch hdispatch

theorem wp_clearRenotify_cleared (m : String) (w : NotifierWorld) :
    (clearRenotify m).wp write ok (fun _ w' => ∀ key, key.2 = m → armed w'.store key = false) w := by
  unfold clearRenotify
  rw [wp_get_bind]
  refine wp_mono (fun a w' hw' => ?_) (wp_forEach (R := fun _ => False)
    (I := fun left w' => ∀ key, key.2 = m → armed w'.store key = true → key ∈ left) (fun key left w' hw' => ?_) ?_)
  · cases a with
    | none => exact hw'.elim
    | some _ =>
      intro key hkey
      by_contra harmed
      exact absurd (hw' key hkey (by simpa using harmed)) (by simp)
  · intro _ other hother harmed
    have hbefore : armed w'.store other = true := armed_unarming (x := .deleteRenotify key) trivial harmed
    rcases List.mem_cons.mp (hw' other hother hbefore) with rfl | hleft
    · have hgone : armed (write w'.store (.deleteRenotify other)) other = false := by
        rw [armed, write, AList.lookup_erase]
        rfl
      rw [World.put, hgone] at harmed
      cases harmed
    · exact hleft
  · intro key hkey harmed
    exact List.mem_filter.mpr ⟨AList.lookup_isSome.mp harmed, by simpa using hkey⟩

theorem armingOnly_sweep (n : Notifier) (c : Config) (id : String) (now : ℚ) : (sweep n c id now).Only (ArmingOnly id) := by
  refine only_get_bind fun s => ?_
  cases s.flap id with
  | none => exact only_pure ()
  | some flap =>
    dsimp only
    split
    · refine only_bind (only_put trivial) fun _ => ?_
      cases hmonitor : c.monitor id with
      | none => exact only_pure ()
      | some monitor =>
        refine only_get_bind fun s => (only_exitFlapping _ _ _).mono fun x hx => ?_
        exact monitor_id hmonitor ▸ armingOnly_exit hx
    · exact only_pure ()

/-- A transition out of down clears the monitor's timers, and arms none. -/
theorem wp_onTransition_cleared (n : Notifier) (c : Config) (now : ℚ) {t : TransitionMsg} (htx : w.store.tx t.id = false) (hfrom : t.from_ = .down)
    (hto : t.to_ ≠ .down) : (onTransition n c t now).wp write ok
      (fun _ w' => ∀ key, key.2 = t.monitorId → armed w'.store key = false) w := by
  have hid := monitorOf_id c t
  -- What follows the clearing arms nothing.
  have hrest : (afterClearing n c t now).Only Unarming := by
    refine only_bind unarming_flapping fun suppressed => ?_
    split
    · exact only_pure ()
    · cases hdirection : directionOf t.from_ t.to_ with
      | none => exact only_pure ()
      | some direction =>
        refine only_forEach _ fun rule _ => (only_dispatch false).mono fun x hx => unarming_dispatch (fun hdown => ?_) hx
        rcases directionOf_cases hdirection with ⟨-, h⟩ | ⟨h, -⟩ | ⟨h, -⟩
        · exact hto h
        · exact absurd (hdown ▸ h) (by decide)
        · exact absurd (hdown ▸ h) (by decide)
  have hkeep : ∀ s x, Unarming x → (∀ key : String × String, key.2 = t.monitorId → armed s key = false) →
      ∀ key : String × String, key.2 = t.monitorId → armed (write s x) key = false := by
    intro s x hx hs key hkey
    by_contra harmed
    have hbefore := armed_unarming hx (by simpa using harmed : armed (write s x) key = true)
    rw [hs key hkey] at hbefore
    cases hbefore
  unfold onTransition
  rw [wp_get_bind, htx, if_neg (by simp)]
  have hclear : (clearRenotify (monitorOf c t).id).wp write ok
      (fun _ w' => ∀ key, key.2 = t.monitorId → armed w'.store key = false) w := hid ▸ wp_clearRenotify_cleared _ w
  refine wp_bind (wp_mono (fun a w' hw' => ?_)
    (wp_handle_of (fun _ => hclear) (fun hnot => absurd ⟨hto, hfrom⟩ hnot) fun w1 h1 => hrest.keeps hkeep w1 h1))
  cases a with
  | none => exact hw'
  | some _ => exact fun _ => hkeep _ _ trivial hw'

/-- A pass of the ladder arms no timer that was not. -/
theorem wp_renotify_armed (key : String × String) (w : NotifierWorld) :
    (renotify n c key now).wp write ok (fun _ w' => ∀ other, armed w'.store other = true → armed w.store other = true) w := by
  unfold renotify
  rw [wp_get_bind]
  have hdelete : ∀ other, armed (write w.store (.deleteRenotify key)) other = true → armed w.store other = true :=
    fun other h => armed_unarming (x := .deleteRenotify key) trivial h
  split
  · next stamp rule monitor hstamp _ _ =>
    split
    · exact fun _ => hdelete
    · dsimp only
      split
      · exact fun other h => h
      · have hkeeps : ∀ msg, (dispatch n c rule monitor msg .renotify now true).Keeps write ok fun s =>
            ∀ other, armed s other = true → armed w.store other = true :=
          fun msg => ((only_dispatch true).mono fun x hx => unarming_dispatch (by decide) hx).keeps
            fun s x hx hs other hother => hs other (armed_unarming hx hother)
        refine wp_bind (wp_mono (fun a w' hw' => ?_) (hkeeps _ w fun other h => h))
        cases a with
        | none => exact hw'
        | some _ =>
          intro _ other hother
          by_cases hkey : other = key
          · subst hkey
            rw [armed, hstamp]
            rfl
          · refine hw' other ?_
            rwa [armed, World.put, write, AList.lookup_insert_ne hkey] at hother
  · exact fun _ => hdelete

/-- What is neither a transition, a sweep nor a pass of the ladder arms nothing. -/
theorem unarming_program {happening : Happening} (h : happening.besides = true)
    (hladder : ∀ c key, happening ≠ .renotify c key) (now : ℚ) : (program n (happening.at now)).Only Unarming := by
  cases happening with
  | transition c t => cases h
  | sweep c m => cases h
  | retry c key => exact (only_retryDue key).mono fun x ⟨_, _, hx⟩ => unarming_delivery hx
  | renotify c key => exact absurd rfl (hladder c key)
  | verify c channelId orgId requestedAt requestId => exact only_onVerify channelId orgId requestedAt requestId
  | alert c rule entered value transitionId =>
    refine only_get_bind fun s => ?_
    dsimp only
    split
    · exact only_pure ()
    · refine only_bind (only_forEach _ fun channelId _ => only_get_bind fun s => ?_) fun _ => only_when fun _ => only_put trivial
      exact (only_attempt c _ now).mono fun x hx => unarming_delivery hx
  | saved m st => exact only_put trivial

/-! ## Messages that wait -/

/-- Every waiting message that a monitor is still down waited before, or is of the allowed monitor. -/
def Traced (s : Store) (allowed : Option String) (s' : Store) : Prop :=
  ∀ id job, s'.retry.lookup id = some job → job.direction = .renotify →
    ∀ m, job.monitorId = some m → waits s m id = true ∨ allowed = some m

/-- The kinds of messages a program may send that allows only this monitor's. -/
def Allowed (allowed : Option String) (direction : Direction) (monitorId : Option String) : Prop :=
  direction = .renotify → ∀ m, monitorId = some m → allowed = some m

section Waiting
variable {s s' : Store} {allowed : Option String} {job : Job} {state : DeliveryState}

theorem Traced.congr (h : Traced s allowed s') {s'' : Store} (hretry : s''.retry = s'.retry) : Traced s allowed s'' :=
  fun id job hjob => h id job (hretry ▸ hjob)

theorem Traced.deleteRetry (h : Traced s allowed s') (id : DeliveryId) : Traced s allowed (write s' (.deleteRetry id)) := by
  intro id' job hjob
  by_cases hid : id' = id
  · subst hid
    rw [write, AList.lookup_erase] at hjob
    cases hjob
  · rw [write, AList.lookup_erase_ne hid] at hjob
    exact h id' job hjob

/-- The job may be stored again. -/
def Storable (s : Store) (allowed : Option String) (job : Job) : Prop :=
  job.direction = .renotify → ∀ m, job.monitorId = some m → waits s m job.deliveryId = true ∨ allowed = some m

theorem Traced.putRetry (h : Traced s allowed s') (hjob : Storable s allowed job) :
    Traced s allowed (write s' (.putRetry job)) := by
  intro id' other hother
  by_cases hid : id' = job.deliveryId
  · subst hid
    rw [write, AList.lookup_insert] at hother
    rw [← Option.some.inj hother]
    exact hjob
  · rw [write, AList.lookup_insert_ne hid] at hother
    exact h id' other hother

theorem traced_publishFinal : (publishFinal job).Keeps write ok (Traced s allowed) := by
  unfold publishFinal
  cases job.final with
  | none => exact fun _ hw => hw
  | some final =>
    exact keeps_bind (keeps_publish _ _) fun _ => keeps_when fun _ => keeps_put fun _ hs _ => hs.deleteRetry _

theorem traced_finish (hjob : Storable s allowed job) : (finish job state now).Keeps write ok (Traced s allowed) := by
  refine keeps_bind (keeps_when fun _ => keeps_put fun _ hs _ => hs) fun _ w hw => wp_catch ?_
  refine wp_mono (fun a w' hw' => ?_) (traced_publishFinal w hw)
  cases a with
  | none => exact fun _ => hw'.putRetry hjob
  | some _ => exact hw'

theorem traced_attempt (hjob : Storable s allowed job) : (attempt c job now).Keeps write ok (Traced s allowed) := by
  unfold attempt
  cases c.channel job.channelId with
  | none => exact keeps_bind (keeps_put fun _ hs _ => hs) fun _ => keeps_put fun _ hs _ => hs.deleteRetry _
  | some channel =>
    refine keeps_bind (fun w hw _ => hw) fun outcome => ?_
    split
    · exact keeps_bind (keeps_put fun _ hs _ => hs) fun _ => traced_finish hjob
    · split
      · exact keeps_put fun _ hs _ => hs.putRetry hjob
      · exact keeps_bind (keeps_put fun _ hs _ => hs) fun _ => traced_finish hjob

theorem traced_abandon (m ch : String) : (abandonDownRetries m ch now).Keeps write ok (Traced s allowed) := by
  refine keeps_get_bind fun s _ => keeps_forEach _ fun key _ => keeps_get_bind fun s _ => ?_
  cases s.retry.lookup key with
  | none => exact keeps_pure ()
  | some job =>
    refine keeps_when fun hdown => traced_finish fun hrenotify => ?_
    -- Only a down is abandoned.
    have hdirection : job.direction = .down := (of_decide_eq_true hdown).2.1
    rw [show (job.withError "abandoned: the monitor recovered").direction = job.direction from rfl, hdirection] at hrenotify
    cases hrenotify

theorem atoms_traced (s : Store) (allowed : Option String) (c : Config) (now : ℚ) :
    Atoms (Allowed allowed) c now fun _ (p : Program _) => p.Keeps write ok (Traced s allowed) where
  toCompositional := compositional_keeps
  plain := by
    intro x hx
    refine keeps_put fun s' hs _ => hs.congr ?_
    cases x <;> first | rfl | exact hx.elim
  attempt := fun job _ _ _ hallowed => traced_attempt fun hrenotify m hm => .inr (hallowed hrenotify m hm)
  abandon := traced_abandon
  report := fun _ _ _ => keeps_publish _ _
  kinds := fun _ _ hne hrenotify => absurd hrenotify hne

theorem traced_self (s : Store) (allowed : Option String) : Traced s allowed s := by
  intro id job hjob hrenotify m hm
  refine .inl ?_
  rw [waits, hjob, Option.any_some]
  exact decide_eq_true ⟨hrenotify, hm⟩

/-- A retry pass stores its own job again. -/
theorem wp_retryDue_traced (key : DeliveryId) (w : NotifierWorld) (hwaiting : AllWaiting w.store) :
    (retryDue c key now).wp write ok (fun _ w' => Traced w.store none w'.store) w := by
  unfold retryDue
  rw [wp_get_bind]
  cases hjob : w.store.retry.lookup key with
  | none => exact traced_self w.store none
  | some job =>
    dsimp only
    split
    · exact traced_self w.store none
    · refine wp_catch (wp_mono (Q := fun _ w' => Traced w.store none w'.store) (fun a w' hw' => ?_) ?_)
      · cases a with
        | none => exact hw'
        | some _ => exact hw'
      · split
        · exact traced_publishFinal w (traced_self w.store none)
        · refine traced_attempt (fun hrenotify m hm => traced_self w.store none _ job ?_ hrenotify m hm) w (traced_self w.store none)
          rw [(hwaiting key job hjob).1]
          exact hjob

end Waiting

/-! ## What is sent -/

/-- What the log says since it was `k` calls long of monitors that are still down is of the allowed one. -/
def Said (allowed : Option String) (k : ℕ) (calls : List ((c : Call) × Reply c)) : Prop :=
  k ≤ calls.length ∧ ∀ call ∈ calls.drop k, ∀ m, stillDownOf call = some m → allowed = some m

section Sent
variable {allowed : Option String} {k : ℕ}

theorem Said.append {calls : List ((c : Call) × Reply c)} (h : Said allowed k calls) {call : (c : Call) × Reply c}
    (hcall : ∀ m, stillDownOf call = some m → allowed = some m) : Said allowed k (calls ++ [call]) := by
  refine ⟨h.1.trans (by simp), fun other hother => ?_⟩
  rw [List.drop_append_of_le_length h.1] at hother
  rcases List.mem_append.mp hother with hother | hother
  · exact h.2 other hother
  · exact (List.mem_singleton.mp hother) ▸ hcall

theorem event_renotify {direction : Direction} (h : event direction = "monitor.renotify") : direction = .renotify := by
  cases direction <;> first | rfl | exact absurd h (by decide)

/-- A job says that a monitor is still down when it is of the ladder. -/
theorem stillDownOf_job {job : Job} (hmade : Made job) {channel : Channel} {outcome : Outcome} {m : String}
    (h : stillDownOf ⟨.deliver channel job.deliveryId job.payload job.subject job.text, outcome⟩ = some m) :
    job.direction = .renotify ∧ job.monitorId = some m := by
  unfold stillDownOf at h
  dsimp only at h
  rw [hmade.about] at h
  cases hmonitor : job.monitorId with
  | none =>
    rw [hmonitor] at h
    cases h
  | some m' =>
    rw [hmonitor, Option.map_some, Option.bind_some] at h
    split at h
    · next hevent => exact ⟨event_renotify hevent, h⟩
    · cases h

theorem logProperty_said (allowed : Option String) (k : ℕ) : LogProperty (Allowed allowed) (Said allowed k) where
  deliver := by
    intro calls channel job outcome hmade hallowed h
    refine h.append fun m hm => ?_
    obtain ⟨hrenotify, hmonitor⟩ := stillDownOf_job hmade hm
    exact hallowed hrenotify m hmonitor
  publish := fun _ _ _ _ _ _ _ h => h.append fun m hm => by cases hm

theorem atoms_said (allowed : Option String) (k : ℕ) (c : Config) (now : ℚ) :
    Atoms (Allowed allowed) c now fun _ (p : Program _) => p.Preserves write ok (WaitingLog (Said allowed k)) where
  toSending := sending_log (logProperty_said allowed k) c now
  report := by
    intro key delivery _ w hw reply
    have hcalled : ∀ r : Bool, WaitingLog (Said allowed k) (w.called (.publish key delivery) r) :=
      fun r => ⟨hw.1, hw.2.append fun m hm => by cases hm⟩
    cases hreply : (reply : Bool) <;> exact hcalled _
  kinds := fun _ _ hne hrenotify => absurd hrenotify hne

theorem said_start (w : NotifierWorld) (allowed : Option String) (hwaiting : AllWaiting w.store) :
    WaitingLog (Said allowed w.calls.length) w := ⟨hwaiting, le_rfl, by simp⟩

/-- A retry pass that sends nothing of the ladder, or only of the allowed monitor. -/
theorem wp_retryDue_said {key : DeliveryId} (hwaiting : AllWaiting w.store)
    (h : ∀ job, w.store.retry.lookup key = some job → job.direction = .renotify → job.final = none → job.nextAt ≤ now →
      (c.channel job.channelId).isSome → ∀ m, job.monitorId = some m → allowed = some m) :
    (retryDue c key now).wp write ok (fun _ w' => WaitingLog (Said allowed w.calls.length) w') w := by
  have hstart := said_start w allowed hwaiting
  unfold retryDue
  rw [wp_get_bind]
  cases hjob : w.store.retry.lookup key with
  | none => exact hstart
  | some job =>
    dsimp only
    split
    · exact hstart
    · next hdue =>
      obtain ⟨-, hstored⟩ := hwaiting key job hjob
      refine wp_catch (wp_mono (Q := fun _ w' => WaitingLog (Said allowed w.calls.length) w') (fun a w' hw' => ?_) ?_)
      · cases a with
        | none => exact hw'
        | some _ => exact hw'
      · cases hfinal : job.final with
        | some final => exact preserves_publishFinal_log (logProperty_said allowed _) hstored.toMade w hstart
        | none =>
          rw [hfinal] at hdue
          cases hchannel : c.channel job.channelId with
          | none =>
            rw [if_neg (by simp), attempt, hchannel]
            exact fun _ _ => ⟨hwaiting.deleteRetry _, hstart.2⟩
          | some channel =>
            refine preserves_attempt_log (logProperty_said allowed _) (hstored.open hfinal) (fun hrenotify => ?_) w hstart
            exact h job hjob hrenotify hfinal (by simpa using hdue) (by simp [hchannel])

/-- A verification says nothing of monitors. -/
theorem wp_onVerify_said (channelId orgId requestedAt : String) (requestId : Option String)
    (hwaiting : AllWaiting w.store) : (onVerify c channelId orgId requestedAt requestId now).wp write ok
      (fun _ w' => WaitingLog (Said allowed w.calls.length) w') w := by
  have hstart := said_start w allowed hwaiting
  unfold onVerify
  cases c.channels.find? (·.id = channelId) with
  | none => exact hstart
  | some channel =>
    refine wp_sent fun outcome reply => ?_
    have hsent : Said allowed w.calls.length (w.calls ++ [⟨.deliver channel (.verify (requestId.getD requestedAt))
        (.verify channel.id requestedAt) "[Upstat] Verify this alert channel"
        "This is a test from Upstat. If you received it, the channel works.", outcome⟩]) :=
      hstart.2.append fun m hm => by cases hm
    cases hreply : (reply : Bool) <;> exact ⟨hwaiting, hsent.append fun m hm => by cases hm⟩

end Sent

/-! ## Runs -/

structure Inv (s : Watched) : Prop where
  waiting : AllWaiting s.run.store
  timers : ∀ key, armed s.run.store key = true →
    (s.last key.2).any intoDown = true ∨ (s.last key.2).any crossing = true ∨ s.rearmed key.2 = true
  messages : ∀ m id, waits s.run.store m id = true → s.overtaken id = false → (s.last m).any intoDown = true

theorem inv_start (clock : ℚ) : Inv (start clock) where
  waiting := allWaiting_empty
  timers := fun _ h => by cases h
  messages := fun _ _ h => by cases h

theorem run_handle (s : Watched) (o : Later) : (handle n answer s o).run = occur n answer s.run o := by
  unfold handle
  dsimp only
  split
  · rfl
  · rfl
  · rfl
  · split <;> rfl
  · split <;> rfl
  · rfl

/-- A timer that is due and neither left standing nor armed early is of a monitor that is down. -/
theorem Inv.down_of_due (h : Inv s) {key : String × String} (hdue : renotifies c key s.run.store now = true)
    (hcrossing : (s.last key.2).any crossing = false) (hrearmed : s.rearmed key.2 = false) :
    (s.last key.2).any intoDown = true := by
  have harmed : armed s.run.store key = true := by
    unfold renotifies at hdue
    split at hdue
    · next stamp _ _ hstamp _ _ =>
      rw [armed, hstamp]
      rfl
    · cases hdue
  rcases h.timers key harmed with hdown | hcrossed | hrearmed'
  · exact hdown
  · rw [hcrossing] at hcrossed
    cases hcrossed
  · rw [hrearmed] at hrearmed'
    cases hrearmed'

theorem onlyWhileDown_of_fits (h : Inv s) {o : Later} (hfits : Fits s o) : OnlyWhileDown n answer s o := by
  -- It is enough that the log speaks of one monitor at most, which is active and down.
  have enough : ∀ allowed, WaitingLog (Said allowed s.run.world.calls.length) (occur n answer s.run o).world →
      (∀ m, allowed = some m → s.inactive m = false ∧ (s.last m).any intoDown = true) → OnlyWhileDown n answer s o := by
    intro allowed hsaid hallowed call hcall m hm
    rw [run_handle] at hcall
    exact hallowed m (hsaid.2.2 call hcall m hm)
  have silent : WaitingLog (Said none s.run.world.calls.length) (occur n answer s.run o).world → OnlyWhileDown n answer s o :=
    fun hsaid => enough none hsaid fun m hm => by cases hm
  have hstart : ∀ allowed, WaitingLog (Said allowed s.run.world.calls.length) s.run.world :=
    fun allowed => said_start s.run.world allowed h.waiting
  obtain ⟨delay, occurrence⟩ := o
  cases occurrence with
  | notified happening =>
    cases happening with
    | transition c t => exact silent (wp_run answer ((atoms_said none _ c _).dispatching.onTransition t s.run.world (hstart none)))
    | sweep c m => exact silent (wp_run answer ((atoms_said none _ c _).dispatching.sweep m s.run.world (hstart none)))
    | verify c channelId orgId requestedAt requestId =>
      exact silent (wp_run answer (wp_onVerify_said channelId orgId requestedAt requestId h.waiting))
    | alert c rule entered value transitionId =>
      exact silent (wp_run answer ((atoms_said none _ c _).dispatching.ruleAlert entered value transitionId s.run.world (hstart none)))
    | saved m st => exact silent ⟨h.waiting, (hstart none).2⟩
    | renotify c key =>
      cases hdue : renotifies c key s.run.store (s.run.clock + delay) with
      | false =>
        have hlog : WaitingLog (Said none s.run.world.calls.length)
            ((renotify n c key (s.run.clock + delay)).run write answer s.run.world).2 := by
          rcases wp_run answer (wp_renotify_undue (n := n) hdue) with hsame | hdeleted
          · rw [hsame]
            exact hstart none
          · rw [hdeleted]
            exact ⟨h.waiting, (hstart none).2⟩
        exact silent hlog
      | true =>
        obtain ⟨hactive, hcrossing, hrearmed⟩ := hfits hdue
        have hdown := h.down_of_due hdue hcrossing hrearmed
        refine enough (some key.2) (wp_run answer ((atoms_said (some key.2) _ c _).renotify (fun _ m hm => hm) s.run.world
          (hstart (some key.2)))) fun m hm => ?_
        rw [← Option.some.inj hm]
        exact ⟨hactive, hdown⟩
    | retry c key =>
      by_cases hsends : ∃ job, s.run.store.retry.lookup key = some job ∧ job.direction = .renotify ∧ job.final = none ∧
          job.nextAt ≤ s.run.clock + delay ∧ (c.channel job.channelId).isSome
      · obtain ⟨job, hjob, hrenotify, hfinal, hdue, hchannel⟩ := hsends
        obtain ⟨hovertaken, hactive⟩ := hfits job hjob hrenotify hfinal hdue hchannel
        refine enough job.monitorId (wp_run answer (wp_retryDue_said h.waiting fun job' hjob' _ _ _ _ m hm => ?_)) fun m hm => ?_
        · have hsame : some job' = some job := hjob'.symm.trans hjob
          rw [← Option.some.inj hsame, hm]
        · refine ⟨hactive m hm, h.messages m key ?_ hovertaken⟩
          rw [waits, hjob, Option.any_some]
          exact decide_eq_true ⟨hrenotify, hm⟩
      · refine silent (wp_run answer (wp_retryDue_said h.waiting fun job hjob hrenotify hfinal hdue hchannel => ?_))
        exact absurd ⟨job, hjob, hrenotify, hfinal, hdue, hchannel⟩ hsends
  | forgotten m => exact silent ⟨h.waiting, (hstart none).2⟩
  | paused m => exact silent (hstart none)
  | resumed m => exact silent (hstart none)
  | deleted m => exact silent (hstart none)
  | decided id => exact silent (hstart none)

theorem waits_of_traced {s s' : Store} {allowed : Option String} (h : Traced s allowed s') {id : DeliveryId}
    (hwaits : waits s' m id = true) : waits s m id = true ∨ allowed = some m := by
  unfold waits at hwaits
  cases hjob : s'.retry.lookup id with
  | none =>
    rw [hjob] at hwaits
    cases hwaits
  | some job =>
    rw [hjob, Option.any_some] at hwaits
    obtain ⟨hrenotify, hmonitor⟩ := of_decide_eq_true hwaits
    exact h id job hjob hrenotify m hmonitor

theorem waits_unique {s : Store} {id : DeliveryId} {m m' : String} (h : waits s m id = true) (h' : waits s m' id = true) :
    m = m' := by
  unfold waits at h h'
  cases hjob : s.retry.lookup id with
  | none =>
    rw [hjob] at h
    cases h
  | some job =>
    rw [hjob, Option.any_some] at h h'
    have hm := (of_decide_eq_true h).2
    rw [(of_decide_eq_true h').2] at hm
    exact (Option.some.inj hm).symm

/-- What arms no timer and leaves no new message of the ladder waiting. -/
theorem Inv.kept (h : Inv s) {s' : Watched} (hlast : s'.last = s.last) (hrearmed : s'.rearmed = s.rearmed)
    (hovertaken : s'.overtaken = s.overtaken) (hwaiting : AllWaiting s'.run.store)
    (harmed : ∀ key, armed s'.run.store key = true → armed s.run.store key = true)
    (htraced : Traced s.run.store none s'.run.store) : Inv s' where
  waiting := hwaiting
  timers := fun key hkey => by
    rw [hlast, hrearmed]
    exact h.timers key (harmed key hkey)
  messages := fun m id hwaits hid => by
    rw [hlast]
    rw [hovertaken] at hid
    exact h.messages m id ((waits_of_traced htraced hwaits).resolve_right (by simp)) hid

theorem armed_keeps {p : Program Unit} (hp : p.Only Unarming) (answer : ℕ → (c : Call) → Reply c) (w : NotifierWorld) :
    ∀ key, armed (p.run write answer w).2.store key = true → armed w.store key = true :=
  wp_run answer (hp.keeps (I := fun s => ∀ key, armed s key = true → armed w.store key = true)
    (fun _ _ hx hs key hkey => hs key (armed_unarming hx hkey)) w fun _ hkey => hkey)

theorem inv_transition (h : Inv s) {delay : ℚ≥0} {t : TransitionMsg} :
    Inv (handle n answer s ⟨delay, .notified (.transition c t)⟩) := by
  have hwaiting := waiting_occur n answer h.waiting ⟨delay, .notified (.transition c t)⟩
  have htraced : Traced s.run.store none (occur n answer s.run ⟨delay, .notified (.transition c t)⟩).store :=
    wp_run answer ((atoms_traced s.run.store none c _).dispatching.onTransition t s.run.world (traced_self _ _))
  cases htx : s.run.store.tx t.id with
  | true =>
    have hsame : (handle n answer s ⟨delay, .notified (.transition c t)⟩) =
        { s with run := occur n answer s.run ⟨delay, .notified (.transition c t)⟩ } := if_pos htx
    have hnothing : (onTransition n c t (s.run.clock + delay)).wp write (fun _ _ => True) (fun _ w' => w' = s.run.world)
        s.run.world := by
      unfold onTransition
      rw [wp_get_bind, show s.run.world.store.tx t.id = true from htx]
      rfl
    rw [hsame]
    refine h.kept rfl rfl rfl hwaiting (fun key hkey => ?_) htraced
    have hworld : (occur n answer s.run ⟨delay, .notified (.transition c t)⟩).world = s.run.world := wp_run answer hnothing
    rwa [Clocked.store, hworld] at hkey
  | false =>
    have hhandle : (handle n answer s ⟨delay, .notified (.transition c t)⟩) =
        { s with
          run := occur n answer s.run ⟨delay, .notified (.transition c t)⟩
          last := Function.update s.last t.monitorId (some t)
          rearmed := Function.update s.rearmed t.monitorId false
          overtaken := fun id => if waits s.run.store t.monitorId id then ¬intoDown t else s.overtaken id } :=
      if_neg (by simp [htx])
    rw [hhandle]
    refine ⟨hwaiting, fun key hkey => ?_, fun m id hwaits hid => ?_⟩
    · by_cases hm : key.2 = t.monitorId
      · -- A transition that is not into down either clears the timers or crosses.
        dsimp only
        rw [hm, Function.update_self, Option.any_some, Option.any_some]
        by_cases hto : t.to_ = .down
        · exact .inl (decide_eq_true hto)
        · by_cases hfrom : t.from_ = .down
          · have hcleared := wp_run answer (wp_onTransition_cleared n c (s.run.clock + delay) (w := s.run.world) htx hfrom
              hto) key hm
            have hkey' : armed ((onTransition n c t (s.run.clock + delay)).run write answer s.run.world).2.store key = true := hkey
            rw [hcleared] at hkey'
            cases hkey'
          · exact .inr (.inl (decide_eq_true ⟨hfrom, hto⟩))
      · dsimp only
        rw [Function.update_of_ne hm, Function.update_of_ne hm]
        refine h.timers key ?_
        have hkept := wp_run answer ((armingOnly_onTransition n c t (s.run.clock + delay)).keeps
          (I := fun s' => armed s' key = true → armed s.run.world.store key = true)
          (fun _ _ hx hs hkey => hs (armed_armingOnly hx hm hkey)) s.run.world fun hkey => hkey)
        exact hkept hkey
    · have hbefore := (waits_of_traced htraced hwaits).resolve_right (by simp)
      dsimp only at hid ⊢
      by_cases hm : m = t.monitorId
      · subst hm
        rw [Function.update_self, Option.any_some]
        rw [if_pos hbefore] at hid
        simpa using hid
      · rw [Function.update_of_ne hm]
        rw [if_neg fun hother => hm (waits_unique hbefore hother)] at hid
        exact h.messages m id hbefore hid

theorem inv_sweep (h : Inv s) {delay : ℚ≥0} {id : String} : Inv (handle n answer s ⟨delay, .notified (.sweep c id)⟩) := by
  have hwaiting := waiting_occur n answer h.waiting ⟨delay, .notified (.sweep c id)⟩
  have htraced : Traced s.run.store none (occur n answer s.run ⟨delay, .notified (.sweep c id)⟩).store :=
    wp_run answer ((atoms_traced s.run.store none c _).dispatching.sweep id s.run.world (traced_self _ _))
  cases hends : endsFlapping s.run.store id (s.run.clock + delay) with
  | false =>
    have hsame : handle n answer s ⟨delay, .notified (.sweep c id)⟩ =
        { s with run := occur n answer s.run ⟨delay, .notified (.sweep c id)⟩ } :=
      if_neg fun hboth => by
        have hends' : endsFlapping s.run.store id (s.run.clock + delay) = true := hboth.1
        rw [hends] at hends'
        cases hends'
    have hworld : (occur n answer s.run ⟨delay, .notified (.sweep c id)⟩).world = s.run.world :=
      wp_run answer (wp_sweep_staying (of_decide_eq_false hends))
    rw [hsame]
    refine h.kept rfl rfl rfl hwaiting (fun key hkey => ?_) htraced
    rwa [Clocked.store, hworld] at hkey
  | true =>
    have hkept : ∀ key : String × String, key.2 ≠ id →
        armed (occur n answer s.run ⟨delay, .notified (.sweep c id)⟩).store key = true → armed s.run.store key = true := by
      intro key hne
      exact wp_run answer ((armingOnly_sweep n c id (s.run.clock + delay)).keeps
        (I := fun s' => armed s' key = true → armed s.run.world.store key = true)
        (fun _ _ hx hs hkey => hs (armed_armingOnly hx hne hkey)) s.run.world fun hkey => hkey)
    -- Where the last transition is into down, its timers may stand.
    cases hdown : (s.last id).any intoDown with
    | true =>
      have hsame : handle n answer s ⟨delay, .notified (.sweep c id)⟩ =
          { s with run := occur n answer s.run ⟨delay, .notified (.sweep c id)⟩ } := if_neg fun hboth => hboth.2 hdown
      rw [hsame]
      refine ⟨hwaiting, fun key hkey => ?_, fun m id' hwaits hid =>
        h.messages m id' ((waits_of_traced htraced hwaits).resolve_right (by simp)) hid⟩
      by_cases hm : key.2 = id
      · exact .inl (hm ▸ hdown)
      · exact h.timers key (hkept key hm hkey)
    | false =>
      have hrearmed : handle n answer s ⟨delay, .notified (.sweep c id)⟩ =
          { s with
            run := occur n answer s.run ⟨delay, .notified (.sweep c id)⟩
            rearmed := Function.update s.rearmed id true } := if_pos ⟨hends, by simp [hdown]⟩
      rw [hrearmed]
      refine ⟨hwaiting, fun key hkey => ?_, fun m id' hwaits hid =>
        h.messages m id' ((waits_of_traced htraced hwaits).resolve_right (by simp)) hid⟩
      dsimp only
      by_cases hm : key.2 = id
      · rw [hm, Function.update_self]
        exact .inr (.inr rfl)
      · rw [Function.update_of_ne hm]
        exact h.timers key (hkept key hm hkey)

theorem inv_renotify (h : Inv s) {delay : ℚ≥0} {key : String × String}
    (hfits : Fits s ⟨delay, .notified (.renotify c key)⟩) : Inv (handle n answer s ⟨delay, .notified (.renotify c key)⟩) := by
  have hwaiting := waiting_occur n answer h.waiting ⟨delay, .notified (.renotify c key)⟩
  have harmed : ∀ other, armed (occur n answer s.run ⟨delay, .notified (.renotify c key)⟩).store other = true →
      armed s.run.store other = true := wp_run answer (wp_renotify_armed key s.run.world)
  cases hdue : renotifies c key s.run.store (s.run.clock + delay) with
  | false =>
    refine h.kept rfl rfl rfl hwaiting harmed ((traced_self _ _).congr ?_)
    have hretry : ((renotify n c key (s.run.clock + delay)).run write answer s.run.world).2.store.retry = s.run.world.store.retry := by
      rcases wp_run answer (wp_renotify_undue (n := n) hdue) with hsame | hdeleted
      · rw [hsame]
      · rw [hdeleted]
        rfl
    exact hretry
  | true =>
    obtain ⟨-, hcrossing, hrearmed⟩ := hfits hdue
    have hdown := h.down_of_due hdue hcrossing hrearmed
    have htraced : Traced s.run.store (some key.2) (occur n answer s.run ⟨delay, .notified (.renotify c key)⟩).store :=
      wp_run answer ((atoms_traced s.run.store (some key.2) c _).renotify (fun _ _ hm => hm) s.run.world (traced_self _ _))
    refine ⟨hwaiting, fun other hother => h.timers other (harmed other hother), fun m id hwaits hid => ?_⟩
    rcases waits_of_traced htraced hwaits with hbefore | hm
    · exact h.messages m id hbefore hid
    · exact Option.some.inj hm ▸ hdown

theorem inv_besides (h : Inv s) {delay : ℚ≥0} (happening : Happening) (hbesides : happening.besides = true)
    (hladder : ∀ c key, happening ≠ .renotify c key)
    (htraced : Traced s.run.store none (occur n answer s.run ⟨delay, .notified happening⟩).store) :
    Inv (handle n answer s ⟨delay, .notified happening⟩) := by
  have hwaiting := waiting_occur n answer h.waiting ⟨delay, .notified happening⟩
  have hhandle : handle n answer s ⟨delay, .notified happening⟩ =
      { s with run := occur n answer s.run ⟨delay, .notified happening⟩ } := by
    cases happening with
    | transition c t => cases hbesides
    | sweep c id => cases hbesides
    | _ => rfl
  rw [hhandle]
  exact h.kept rfl rfl rfl hwaiting
    (armed_keeps (unarming_program hbesides hladder (s.run.clock + delay)) answer s.run.world) htraced

theorem inv_handle (h : Inv s) {o : Later} (hfits : Fits s o) : Inv (handle n answer s o) := by
  have hwaiting := waiting_occur n answer h.waiting o
  obtain ⟨delay, occurrence⟩ := o
  cases occurrence with
  | notified happening =>
    cases happening with
    | transition c t => exact inv_transition h
    | sweep c id => exact inv_sweep h
    | renotify c key => exact inv_renotify h hfits
    | retry c key =>
      exact inv_besides h (.retry c key) rfl (by simp) (wp_run answer (wp_retryDue_traced key s.run.world h.waiting))
    | verify c channelId orgId requestedAt requestId =>
      have htraced : Traced s.run.store none
          ((onVerify c channelId orgId requestedAt requestId (s.run.clock + delay)).run write answer s.run.world).2.store :=
        wp_run answer ((only_onVerify (A := fun _ => False) channelId orgId requestedAt requestId).keeps
          (fun _ _ hx _ => hx.elim) s.run.world (traced_self _ _))
      exact inv_besides h (.verify c channelId orgId requestedAt requestId) rfl (by simp) htraced
    | alert c rule entered value transitionId =>
      have htraced : Traced s.run.store none
          ((ruleAlert n c rule entered value (s.run.clock + delay) transitionId).run write answer s.run.world).2.store :=
        wp_run answer ((atoms_traced s.run.store none c _).dispatching.ruleAlert entered value transitionId s.run.world (traced_self _ _))
      exact inv_besides h (.alert c rule entered value transitionId) rfl (by simp) htraced
    | saved m st => exact inv_besides h (.saved m st) rfl (by simp) ((traced_self _ _).congr rfl)
  | forgotten m => exact h.kept rfl rfl rfl hwaiting (fun _ hkey => hkey) ((traced_self _ _).congr rfl)
  | paused m => exact h.kept rfl rfl rfl hwaiting (fun _ hkey => hkey) (traced_self _ _)
  | resumed m => exact h.kept rfl rfl rfl hwaiting (fun _ hkey => hkey) (traced_self _ _)
  | deleted m => exact h.kept rfl rfl rfl hwaiting (fun _ hkey => hkey) (traced_self _ _)
  | decided id => exact h.kept rfl rfl rfl hwaiting (fun _ hkey => hkey) (traced_self _ _)

/-- In every run whose steps all fit, a monitor is said to be still down only while it is
active and the transition of it that was handled last is into down. -/
theorem said_only_while_down (n : Notifier) (answer : ℕ → (c : Call) → Reply c) (clock : ℚ) (os : List Later)
    (h : Meets (handle n answer) Fits (start clock) os) : Meets (handle n answer) (OnlyWhileDown n answer) (start clock) os :=
  h.imp_of (fun _ _ hs ho => onlyWhileDown_of_fits hs ho) (fun _ _ hs ho => inv_handle hs ho) (inv_start clock)

/-! ## A timer of a paused monitor -/

/-- One monitor, and a rule that repeats every five minutes. -/
def nagging : Config :=
  { homepage with
    rules := [⟨"r", "o", "Homepage down", "uptime", "check:Homepage", { channelIds := ["c"], renotifyMinutes := 5 }⟩] }

def goesDown : Later := ⟨0, .notified (.transition nagging ⟨"m", "o", 1, .up, .down, "timeout", 0, [], 3⟩)⟩

def renotified : Later := ⟨300, .notified (.renotify nagging ("r", "m"))⟩

theorem still_down_said :
    Meets (handle plain (failsAt 9)) Fits (start 0) [goesDown, renotified] ∧
      Meets (handle plain (failsAt 9)) (OnlyWhileDown plain (failsAt 9)) (start 0) [goesDown, renotified] := by
  have fits : Meets (handle plain (failsAt 9)) Fits (start 0) [goesDown, renotified] := by decide +kernel
  exact ⟨fits, said_only_while_down plain (failsAt 9) 0 _ fits⟩

/-- The pause leaves the timer, and the pass says of the paused monitor that it is still down. -/
theorem said_while_paused :
    ¬Meets (handle plain (failsAt 9)) (OnlyWhileDown plain (failsAt 9)) (start 0) [goesDown, ⟨60, .paused "m"⟩, renotified] := by
  rintro ⟨-, -, h, -⟩
  have hsaid : ∃ call ∈ (handle plain (failsAt 9) (run (handle plain (failsAt 9)) (start 0) [goesDown, ⟨60, .paused "m"⟩])
      renotified).run.world.calls.drop (run (handle plain (failsAt 9)) (start 0)
        [goesDown, ⟨60, .paused "m"⟩]).run.world.calls.length, stillDownOf call = some "m" := by decide +kernel
  obtain ⟨call, hcall, hm⟩ := hsaid
  have hactive : (run (handle plain (failsAt 9)) (start 0) [goesDown, ⟨60, .paused "m"⟩]).inactive "m" = false :=
    (h call hcall "m" hm).1
  have hpaused : (run (handle plain (failsAt 9)) (start 0) [goesDown, ⟨60, .paused "m"⟩]).inactive "m" = true := by
    decide +kernel
  rw [hpaused] at hactive
  cases hactive

end Upstat.StillDown
