import Upstat.NotifierRuns

/-! # The jobs of deliveries

A delivery is one job from its first attempt to its outcome, in hand during an attempt and
stored between two. Everything else the notifier does is marks, windows, stamps, timers and
reports, so what holds of one attempt and of abandoning holds of its whole programs. -/
namespace Upstat.NotifierJobs

open AwaitedPrograms NotifierPrograms NotifierEffects NotifierOrdering NotifierRuns CommonDatabase MonitorMachine

/-- The event and the monitor of a payload about a monitor. -/
def aboutMonitor : Payload → Option (String × String)
  | .monitor event id _ _ _ _ _ _ _ => some (event, id)
  | _ => none

/-- The channel of a rule that the id's message is for. -/
def channelOf : DeliveryId → Option String
  | .sent _ _ channelId _ | .ruleAlert _ channelId _ _ => some channelId
  | _ => none

/-- What a job is made of fits together. -/
structure Made (job : Job) : Prop where
  reported : job.record.id = job.deliveryId
  channel : channelOf job.deliveryId = some job.channelId
  about : aboutMonitor job.payload = job.monitorId.map fun m => (event job.direction, m)

/-- A job that has not ended and may be attempted. -/
structure Open (job : Job) : Prop extends Made job where
  attempts : job.attempts ≤ ladder.length
  final : job.final = none

/-- A stored job. -/
structure Waiting (job : Job) : Prop extends Made job where
  queued : job.queued = true
  attempts : job.attempts ≤ ladder.length + if job.final.isSome then 1 else 0
  final : ∀ f, job.final = some f → f.state ≠ .suppressed

def AllWaiting (s : Store) : Prop := ∀ id job, s.retry.lookup id = some job → job.deliveryId = id ∧ Waiting job

variable {n : Notifier} {c : Config} {rule : Rule} {monitor : Monitor} {msg : Msg} {direction : Direction} {now : ℚ}
  {job : Job} {state : DeliveryState} {ok : Store → Write → Prop}

/-! ## Jobs in hand and stored -/

theorem open_newJob (channelId : String) (missed : Option ℚ) (turn : ℕ) :
    Open (newJob n rule monitor msg direction now channelId missed turn) where
  reported := rfl
  channel := rfl
  about := rfl
  attempts := Nat.zero_le _
  final := rfl

theorem Waiting.open (h : Waiting job) (hfinal : job.final = none) : Open job where
  toMade := h.toMade
  attempts := by simpa [hfinal] using h.attempts
  final := hfinal

theorem Open.requeued (h : Open job) (hmore : job.tried.attempts ≤ ladder.length) (error : String) (nextAt : ℚ) :
    Waiting ((job.tried.withError error).waitUntil nextAt).queue where
  reported := h.reported
  channel := h.channel
  about := h.about
  queued := rfl
  attempts := hmore.trans (Nat.le_add_right _ _)
  final := fun f hf => by
    have hnone : ((job.tried.withError error).waitUntil nextAt).queue.final = none := h.final
    rw [hnone] at hf
    cases hf

theorem Open.closed (h : Open job) (hstate : state ≠ .suppressed) (now : ℚ) : Waiting (job.close state now).queue where
  reported := h.reported
  channel := h.channel
  about := h.about
  queued := rfl
  attempts := h.attempts.trans (Nat.le_add_right _ _)
  final := fun f hf => by
    have hf' : some ⟨state, now⟩ = some f := hf
    rw [← Option.some.inj hf']
    exact hstate

theorem Open.tried_closed (h : Open job) (hstate : state ≠ .suppressed) (now : ℚ) :
    Waiting (job.tried.close state now).queue where
  reported := h.reported
  channel := h.channel
  about := h.about
  queued := rfl
  attempts := Nat.add_le_add_right h.attempts 1
  final := fun f hf => by
    have hf' : some ⟨state, now⟩ = some f := hf
    rw [← Option.some.inj hf']
    exact hstate

theorem Open.withError (h : Open job) (error : String) : Open (job.withError error) :=
  ⟨⟨h.reported, h.channel, h.about⟩, h.attempts, h.final⟩

theorem allWaiting_empty : AllWaiting empty := fun _ _ h => by cases h

theorem AllWaiting.putRetry {s : Store} (hs : AllWaiting s) (h : Waiting job) : AllWaiting (write s (.putRetry job)) := by
  intro id other hother
  by_cases hid : id = job.deliveryId
  · subst hid
    rw [write, AList.lookup_insert] at hother
    rw [← Option.some.inj hother]
    exact ⟨rfl, h⟩
  · rw [write, AList.lookup_insert_ne hid] at hother
    exact hs id other hother

theorem AllWaiting.deleteRetry {s : Store} (hs : AllWaiting s) (id : DeliveryId) : AllWaiting (write s (.deleteRetry id)) := by
  intro id' other hother
  by_cases hid : id' = id
  · subst hid
    rw [write, AList.lookup_erase] at hother
    cases hother
  · rw [write, AList.lookup_erase_ne hid] at hother
    exact hs id' other hother

/-! ## What becomes of a property of programs -/

theorem directionOf_cases {from_ to_ : Status} (h : directionOf from_ to_ = some direction) :
    (direction = .down ∧ to_ = .down) ∨ (direction = .recovered ∧ from_ = .down ∧ to_ = .up) ∨
      (direction = .nodata ∧ to_ = .nodata) := by
  unfold directionOf at h
  split at h
  · next hdown => exact .inl ⟨(Option.some.inj h).symm, hdown⟩
  · split at h
    · next hup => exact .inr (.inl ⟨(Option.some.inj h).symm, hup⟩)
    · split at h
      · next hnodata => exact .inr (.inr ⟨(Option.some.inj h).symm, hnodata⟩)
      · cases h

theorem directionOf_ne_renotify {from_ to_ : Status} (h : directionOf from_ to_ = some direction) :
    direction ≠ .renotify := by
  rcases directionOf_cases h with ⟨rfl, -⟩ | ⟨rfl, -⟩ | ⟨rfl, -⟩ <;> decide

theorem directionOf_ne_flapping {from_ to_ : Status} (h : directionOf from_ to_ = some direction) :
    direction ≠ .flapping := by
  rcases directionOf_cases h with ⟨rfl, -⟩ | ⟨rfl, -⟩ | ⟨rfl, -⟩ <;> decide

/-- A write that concerns no delivery on its way. -/
def Plain : Write → Prop
  | .putRetry _ | .deleteRetry _ | .putDownfail _ _ | .delivered _ | .gaveUp _ => False
  | _ => True

/-- The message is suppressed by the rule's cooldown. -/
def cooling (rule : Rule) (monitor : Monitor) (direction : Direction) (now : ℚ) (bypassCooldown : Bool) (s : Store) : Prop :=
  (direction = .down ∨ direction = .nodata) ∧ ¬bypassCooldown ∧ 0 < cooldown rule ∧
    (s.cool (rule.id, monitor.id, direction)).any fun at_ => now - at_ < cooldown rule

instance (bypassCooldown : Bool) (s : Store) : Decidable (cooling rule monitor direction now bypassCooldown s) :=
  inferInstanceAs (Decidable (_ ∧ _))

/-- A dispatch once nothing suppresses it. -/
def sends (n : Notifier) (c : Config) (rule : Rule) (monitor : Monitor) (msg : Msg) (direction : Direction) (now : ℚ) :
    Program Unit := do
  let channelIds := rule.notify.channelIds.filter fun id => (c.channel id).isSome
  .forEach channelIds (dispatchTo n c rule monitor msg direction now)
  .when_ (channelIds ≠ [] ∧ (direction = .down ∨ direction = .nodata)) (.put (.putCool (rule.id, monitor.id, direction) now))
  .when_ (direction = .down ∧ 0 < rule.notify.renotifyMinutes) (.put (.putRenotify (rule.id, monitor.id) ⟨now, msg.id⟩))
  .when_ (direction = .recovered) (.put (.deleteRenotify (rule.id, monitor.id)))

theorem dispatch_eq (bypassCooldown : Bool) : dispatch n c rule monitor msg direction now bypassCooldown =
    Prog.get >>= fun s =>
      if monitor.muted then record rule monitor msg direction now "suppressed: monitor muted"
      else if mutedNow n rule now then record rule monitor msg direction now "suppressed: mute window"
      else if cooling rule monitor direction now bypassCooldown s then
        record rule monitor msg direction now "suppressed: cooldown"
      else sends n c rule monitor msg direction now := rfl

/-- A property of programs that what sends messages of the kind `D` is made up of has,
writing `A` besides. -/
structure Sending (A : Write → Prop) (D : Direction → Option String → Prop) (c : Config) (now : ℚ)
    (K : (α : Type) → Program α → Prop) : Prop extends Compositional K where
  plain : ∀ x, A x → K Unit (.put x)
  attempt : ∀ job, Open job → job.attempts = 0 → job.queued = false → D job.direction job.monitorId →
    K Unit (attempt c job now)
  abandon : ∀ monitorId channelId, K Unit (abandonDownRetries monitorId channelId now)

/-- A property of programs that everything the notifier's programs are made up of has, but for
the renotify ladder. -/
structure Atoms (D : Direction → Option String → Prop) (c : Config) (now : ℚ) (K : (α : Type) → Program α → Prop) :
    Prop extends Sending Plain D c now K where
  report : ∀ key delivery, delivery.state = .suppressed → K Unit (publish key delivery)
  kinds : ∀ direction monitorId, direction ≠ .renotify → D direction monitorId

/-- A write that is neither of a delivery nor of its dispatch. -/
def Marking : Write → Prop
  | .putRetry _ | .deleteRetry _ | .putDownfail _ _ | .deleteDownfail _ | .delivered _ | .gaveUp _ | .dispatched _ => False
  | _ => True

/-- A property of programs that the allowed dispatches to one channel have, alerts to one
channel, reports of what is suppressed, and marks. -/
structure Dispatching (A : Direction → Monitor → Msg → Prop) (n : Notifier) (c : Config) (now : ℚ)
    (K : (α : Type) → Program α → Prop) : Prop extends Compositional K where
  mark : ∀ x, Marking x → K Unit (.put x)
  report : ∀ key delivery, delivery.state = .suppressed → K Unit (publish key delivery)
  dispatchTo : ∀ {rule monitor msg direction} channelId, (c.channel channelId).isSome = true → A direction monitor msg →
    K Unit (dispatchTo n c rule monitor msg direction now channelId)
  alertTo : ∀ {rule} entered value tick channelId, K Unit (ruleAlertTo n c rule entered value now tick channelId)
  kinds : ∀ direction monitor msg, direction ≠ .renotify → msg.id.monitorId = monitor.id → A direction monitor msg

section Programs
variable {D : Direction → Option String → Prop} {K : (α : Type) → Program α → Prop}

theorem Sending.dispatchTo {A : Write → Prop} (h : Sending A D c now K) (hD : D direction (some monitor.id))
    (hdispatched : ∀ notice : Notice, notice.monitorId = some monitor.id ∧ notice.direction = direction → A (.dispatched notice))
    (hdownfail : ∀ key, A (.deleteDownfail key)) (channelId : String) :
    K Unit (dispatchTo n c rule monitor msg direction now channelId) := by
  refine h.bind ?_ fun missed => h.bind h.get fun s =>
    h.bind (h.plain _ (hdispatched _ ⟨rfl, rfl⟩)) fun _ => h.attempt _ (open_newJob _ _ _) rfl rfl hD
  unfold recover
  split
  · refine h.bind (h.abandon _ _) fun _ => h.bind h.get fun s => ?_
    exact h.bind (h.when fun _ => h.plain _ (hdownfail _)) fun _ => h.pure _
  · exact h.pure none

theorem Sending.sends {A : Write → Prop} (h : Sending A D c now K) (hD : D direction (some monitor.id))
    (hA : ∀ x, OfDispatch rule.id monitor.id direction now x → Plain x → A x) :
    K Unit (sends n c rule monitor msg direction now) := by
  refine h.bind (h.forEach _ fun channelId _ =>
    h.dispatchTo hD (fun _ hx => hA _ hx trivial) (fun _ => hA _ trivial trivial) channelId) fun _ => ?_
  refine h.bind (h.when fun hc => h.plain _ (hA _ ⟨rfl, rfl, (of_decide_eq_true hc).2⟩ trivial)) fun _ => ?_
  refine h.bind (h.when fun hc => h.plain _ (hA _ ⟨rfl, rfl, (of_decide_eq_true hc).1⟩ trivial)) fun _ => ?_
  exact h.when fun hc => h.plain _ (hA _ ⟨rfl, of_decide_eq_true hc⟩ trivial)

end Programs

section Programs
variable {A : Direction → Monitor → Msg → Prop} {K : (α : Type) → Program α → Prop} (h : Dispatching A n c now K)
include h

theorem Dispatching.sends (hA : A direction monitor msg) : K Unit (sends n c rule monitor msg direction now) := by
  refine h.bind (h.forEach _ fun channelId hchannel => h.dispatchTo channelId ?_ hA) fun _ => ?_
  · simpa using (List.mem_filter.mp hchannel).2
  · refine h.bind (h.when fun _ => h.mark _ trivial) fun _ => ?_
    exact h.bind (h.when fun _ => h.mark _ trivial) fun _ => h.when fun _ => h.mark _ trivial

theorem Dispatching.dispatch (hA : A direction monitor msg) (bypassCooldown : Bool) :
    K Unit (dispatch n c rule monitor msg direction now bypassCooldown) := by
  rw [dispatch_eq]
  refine h.bind h.get fun s => ?_
  split
  · exact h.report _ _ rfl
  · split
    · exact h.report _ _ rfl
    · split
      · exact h.report _ _ rfl
      · exact h.sends hA

theorem Dispatching.exitFlapping (orgId : String) (status : Status) (redispatch : Bool) :
    K Unit (exitFlapping n c monitor orgId now status redispatch) := by
  refine h.bind (h.forEach _ fun rule _ => h.bind (h.mark _ trivial) fun _ => h.mark _ trivial) fun _ => ?_
  refine h.bind (h.report _ _ rfl) fun _ => h.when fun _ => h.bind h.get fun s => ?_
  exact h.forEach _ fun rule _ => h.dispatch (h.kinds _ _ _ (by decide) rfl) false

theorem Dispatching.recordFlapping (t : TransitionMsg) : K Unit (recordFlapping c t monitor now) := by
  unfold NotifierPrograms.recordFlapping
  cases directionOf t.from_ t.to_ with
  | none => exact h.pure ()
  | some direction => exact h.forEach _ fun rule _ => h.report _ _ rfl

theorem Dispatching.flapping (t : TransitionMsg) (hid : t.monitorId = monitor.id) : K Bool (flapping n c t monitor now) := by
  refine h.bind h.get fun s => ?_
  dsimp only
  split
  · refine h.bind (h.mark _ trivial) fun _ => h.bind (h.forEach _ fun rule _ => ?_) fun _ => h.pure _
    exact h.dispatch (h.kinds _ _ (msgOf t) (by decide) hid) true
  · split
    · exact h.bind (h.mark _ trivial) fun _ => h.bind (h.exitFlapping _ _ _) fun _ => h.pure _
    · exact h.bind (h.mark _ trivial) fun _ => h.bind (h.when fun _ => h.recordFlapping t) fun _ => h.pure _

theorem Dispatching.clearRenotify (m : String) : K Unit (clearRenotify m) :=
  h.bind h.get fun _ => h.forEach _ fun _ _ => h.mark _ trivial

theorem Dispatching.handle (t : TransitionMsg) : K Unit (handle n c t now) := by
  have hid : t.monitorId = (monitorOf c t).id := (monitorOf_id c t).symm
  refine h.bind (h.when fun _ => h.clearRenotify _) fun _ => h.bind (h.flapping t hid) fun suppressed => ?_
  split
  · exact h.pure ()
  · cases hdirection : directionOf t.from_ t.to_ with
    | none => exact h.pure ()
    | some direction =>
      exact h.forEach _ fun rule _ => h.dispatch (h.kinds _ _ (msgOf t) (directionOf_ne_renotify hdirection) hid) false

theorem Dispatching.onTransition (t : TransitionMsg) : K Unit (onTransition n c t now) := by
  refine h.bind h.get fun s => ?_
  split
  · exact h.pure ()
  · exact h.bind (h.handle t) fun _ => h.mark _ trivial

theorem Dispatching.sweep (m : String) : K Unit (sweep n c m now) := by
  refine h.bind h.get fun s => ?_
  cases s.flap m with
  | none => exact h.pure ()
  | some flap =>
    dsimp only
    split
    · refine h.bind (h.mark _ trivial) fun _ => ?_
      cases c.monitor m with
      | none => exact h.pure ()
      | some monitor => exact h.bind h.get fun s => h.exitFlapping _ _ _
    · exact h.pure ()

theorem Dispatching.renotify {key : String × String} (hA : ∀ monitor msg, monitor.id = key.2 → A .renotify monitor msg) :
    K Unit (renotify n c key now) := by
  refine h.bind h.get fun s => ?_
  split
  · next hm =>
    split
    · exact h.mark _ trivial
    · dsimp only
      split
      · exact h.pure ()
      · exact h.bind (h.dispatch (hA _ _ (monitor_id hm)) true) fun _ => h.mark _ trivial
  · exact h.mark _ trivial

theorem Dispatching.ruleAlert (entered : Bool) (value : Option ℚ) (transitionId : Option String) :
    K Unit (ruleAlert n c rule entered value now transitionId) := by
  refine h.bind h.get fun s => ?_
  dsimp only
  split
  · exact h.pure ()
  · exact h.bind (h.forEach _ fun channelId _ => h.alertTo _ _ _ channelId) fun _ => h.when fun _ => h.mark _ trivial

end Programs

section Programs
variable {D : Direction → Option String → Prop} {K : (α : Type) → Program α → Prop}

theorem Atoms.dispatching (h : Atoms D c now K) : Dispatching (fun direction monitor _ => D direction (some monitor.id)) n c now K where
  toCompositional := h.toCompositional
  mark := fun x hx => h.plain x (by cases x <;> first | exact hx.elim | trivial)
  report := h.report
  dispatchTo := fun channelId _ hD => h.toSending.dispatchTo hD (fun _ _ => trivial) (fun _ => trivial) channelId
  alertTo := fun _ _ _ _ => h.bind h.get fun _ => h.attempt _ ⟨⟨rfl, rfl, rfl⟩, Nat.zero_le _, rfl⟩ rfl rfl (h.kinds _ _ (by simp))
  kinds := fun direction monitor _ hne _ => h.kinds direction (some monitor.id) hne

theorem Atoms.renotify (h : Atoms D c now K) {key : String × String} (hD : D .renotify (some key.2)) :
    K Unit (renotify n c key now) := h.dispatching.renotify fun _ _ hid => hid ▸ hD

end Programs

/-! ## The stored jobs are waiting -/

theorem AllWaiting.plain {s : Store} (hs : AllWaiting s) {x : Write} (hx : Plain x) : AllWaiting (write s x) := by
  cases x <;> first | exact hs | exact hx.elim

theorem keeps_plain {x : Write} (hx : Plain x) : (Prog.put x : Program Unit).Keeps write ok AllWaiting :=
  keeps_put fun _ hs _ => hs.plain hx

theorem keeps_publish {I : Store → Prop} (key : String) (delivery : Delivery) :
    (publish key delivery).Keeps write ok I := by
  intro w hw reply
  cases (reply : Bool) <;> exact hw

theorem keeps_publishFinal (job : Job) : (publishFinal job).Keeps write ok AllWaiting := by
  unfold publishFinal
  cases job.final with
  | none => exact fun _ hw => hw
  | some final =>
    exact keeps_bind (keeps_publish _ _) fun _ => keeps_when fun _ => keeps_put fun s hs _ => hs.deleteRetry _

theorem keeps_finish (h : Waiting (job.close state now).queue) : (finish job state now).Keeps write ok AllWaiting := by
  refine keeps_bind (keeps_when fun _ => keeps_put fun s hs _ => hs) fun _ w hw => wp_catch ?_
  refine wp_mono (fun a w' hw' => ?_) (keeps_publishFinal _ w hw)
  cases a with
  | none => exact fun _ => hw'.putRetry h
  | some _ => exact hw'

theorem keeps_attempt (h : Open job) : (attempt c job now).Keeps write ok AllWaiting := by
  unfold NotifierPrograms.attempt
  cases c.channel job.channelId with
  | none => exact keeps_bind (keeps_put fun s hs _ => hs) fun _ => keeps_put fun s hs _ => hs.deleteRetry _
  | some channel =>
    refine keeps_bind (fun w hw _ => hw) fun outcome => ?_
    split
    · exact keeps_bind (keeps_put fun s hs _ => hs) fun _ => keeps_finish (h.tried_closed (by decide) now)
    · split
      · next hmore => exact keeps_put fun s hs _ => hs.putRetry (h.requeued hmore.2 _ _)
      · exact keeps_bind (keeps_put fun s hs _ => hs) fun _ =>
          keeps_finish ((h.withError outcome.error).tried_closed (by decide) now)

theorem keeps_abandonDownRetries (m ch : String) : (abandonDownRetries m ch now).Keeps write ok AllWaiting := by
  refine keeps_get_bind fun s _ => keeps_forEach _ fun key _ => keeps_get_bind fun s hs => ?_
  cases hjob : s.retry.lookup key with
  | none => exact keeps_pure ()
  | some job =>
    refine keeps_when fun hdown => keeps_finish ?_
    have hopen : job.final = none := by simpa using (of_decide_eq_true hdown).1
    exact (((hs key job hjob).2.open hopen).withError _).closed (by decide) now

theorem atoms_allWaiting (c : Config) (now : ℚ) :
    Atoms (fun _ _ => True) c now fun _ (p : Program _) => p.Keeps write ok AllWaiting where
  toCompositional := compositional_keeps
  plain := fun _ hx => keeps_plain hx
  report := fun _ _ _ => keeps_publish _ _
  attempt := fun _ hjob _ _ _ => keeps_attempt hjob
  abandon := keeps_abandonDownRetries
  kinds := fun _ _ _ => trivial

theorem keeps_retryDue (key : DeliveryId) : (retryDue c key now).Keeps write ok AllWaiting := by
  refine keeps_get_bind fun s hs => ?_
  cases hjob : s.retry.lookup key with
  | none => exact keeps_pure ()
  | some job =>
    dsimp only
    split
    · exact keeps_pure ()
    · intro w hw
      refine wp_catch (wp_mono (Q := fun _ w' => AllWaiting w'.store) (fun a w' hw' => ?_) ?_)
      · cases a with
        | none => exact hw'
        | some _ => exact hw'
      · split
        · exact keeps_publishFinal job w hw
        · next hfinal => exact keeps_attempt ((hs key job hjob).2.open (by simpa using hfinal)) w hw

theorem keeps_program (n : Notifier) (e : Event) : (program n e).Keeps write ok AllWaiting := by
  cases e with
  | transition c t now => exact (atoms_allWaiting c now).dispatching.onTransition t
  | retry c key now => exact keeps_retryDue key
  | sweep c m now => exact (atoms_allWaiting c now).dispatching.sweep m
  | renotify c key now => exact (atoms_allWaiting c now).renotify trivial
  | verify c channelId orgId requestedAt requestId now =>
    exact (only_onVerify (A := Plain) channelId orgId requestedAt requestId).keeps fun s x hx hs => by
      cases x <;> first | exact hs | exact hx.elim
  | alert c rule entered value now transitionId => exact (atoms_allWaiting c now).dispatching.ruleAlert entered value transitionId
  | saved m st => exact keeps_put fun s hs _ => hs

/-! ## The log of calls -/

/-- Sending leaves the call and its outcome in the log. -/
theorem wp_sent {α : Type} {channel : Channel} {id : DeliveryId} {payload : Payload} {subject text : String}
    {f : Outcome → Program α} {Q : Option α → NotifierWorld → Prop} {w : NotifierWorld}
    (h : ∀ outcome, (f outcome).wp write ok Q (w.called (.deliver channel id payload subject text) outcome)) :
    (deliver channel id payload subject text >>= f).wp write ok Q w := h

/-- A property of the log that the attempts of messages of the kind `D` and all reports of
jobs keep. -/
structure LogProperty (D : Direction → Option String → Prop) (J : List ((c : Call) × Reply c) → Prop) : Prop where
  deliver : ∀ calls channel (job : Job) outcome, Made job → D job.direction job.monitorId → J calls →
    J (calls ++ [⟨.deliver channel job.deliveryId job.payload job.subject job.text, outcome⟩])
  publish : ∀ calls key (job : Job) (delivery : Delivery) reply, Made job → delivery.record = job.record → J calls →
    J (calls ++ [⟨.publish key delivery, reply⟩])

/-- The stored jobs are waiting, and the log has the property. -/
def WaitingLog (J : List ((c : Call) × Reply c) → Prop) (w : NotifierWorld) : Prop := AllWaiting w.store ∧ J w.calls

section Log
variable {D : Direction → Option String → Prop} {J : List ((c : Call) × Reply c) → Prop}

theorem preserves_put_log {x : Write} (hx : ∀ s, AllWaiting s → AllWaiting (write s x)) :
    (Prog.put x : Program Unit).Preserves write ok (WaitingLog J) := fun _ hw _ => ⟨hx _ hw.1, hw.2⟩

theorem preserves_publishFinal_log (hJ : LogProperty D J) (hmade : Made job) :
    (publishFinal job).Preserves write ok (WaitingLog J) := by
  unfold publishFinal
  cases job.final with
  | none => exact fun _ hw => hw
  | some final =>
    refine compositional_preserves.bind (fun w hw reply => ?_) fun _ =>
      compositional_preserves.when fun _ => preserves_put_log fun s hs => hs.deleteRetry _
    have hcalled : ∀ r : Bool, WaitingLog J (w.called (.publish job.key ⟨job.record, final.state, job.attempts, final.at_⟩) r) :=
      fun r => ⟨hw.1, hJ.publish _ _ job _ r hmade rfl hw.2⟩
    cases hreply : (reply : Bool) <;> exact hcalled _

theorem preserves_finish_log (hJ : LogProperty D J) (hclosed : Waiting (job.close state now).queue) :
    (finish job state now).Preserves write ok (WaitingLog J) := by
  have hmade : Made (job.close state now) := ⟨hclosed.reported, hclosed.channel, hclosed.about⟩
  refine compositional_preserves.bind (compositional_preserves.when fun _ => preserves_put_log fun _ hs => hs)
    fun _ w hw => wp_catch (wp_mono (fun a w' hw' => ?_) (preserves_publishFinal_log hJ hmade w hw))
  cases a with
  | none => exact fun _ => ⟨hw'.1.putRetry hclosed, hw'.2⟩
  | some _ => exact hw'

theorem preserves_attempt_log (hJ : LogProperty D J) (hopen : Open job) (hD : D job.direction job.monitorId) :
    (attempt c job now).Preserves write ok (WaitingLog J) := by
  unfold attempt
  cases c.channel job.channelId with
  | none =>
    exact compositional_preserves.bind (preserves_put_log fun _ hs => hs) fun _ =>
      preserves_put_log fun _ hs => hs.deleteRetry _
  | some channel =>
    refine compositional_preserves.bind (fun w hw outcome => ⟨hw.1, hJ.deliver _ channel job outcome hopen.toMade hD hw.2⟩)
      fun outcome => ?_
    split
    · exact compositional_preserves.bind (preserves_put_log fun _ hs => hs) fun _ =>
        preserves_finish_log hJ (hopen.tried_closed (by decide) now)
    · split
      · next hmore => exact preserves_put_log fun _ hs => hs.putRetry (hopen.requeued hmore.2 _ _)
      · exact compositional_preserves.bind (preserves_put_log fun _ hs => hs) fun _ =>
          preserves_finish_log hJ ((hopen.withError outcome.error).tried_closed (by decide) now)

theorem preserves_abandon_log (hJ : LogProperty D J) (m ch : String) :
    (abandonDownRetries m ch now).Preserves write ok (WaitingLog J) := by
  refine compositional_preserves.bind compositional_preserves.get fun s =>
    compositional_preserves.forEach _ fun key _ w hw => ?_
  rw [wp_get_bind]
  cases hjob : w.store.retry.lookup key with
  | none => exact hw
  | some job =>
    refine wp_when (fun hdown => ?_) fun _ => hw
    have hfinal : job.final = none := by simpa using (of_decide_eq_true hdown).1
    have hopen := ((hw.1 key job hjob).2.open hfinal).withError "abandoned: the monitor recovered"
    exact preserves_finish_log hJ (hopen.closed (by decide) now) w hw

theorem sending_log (hJ : LogProperty D J) (c : Config) (now : ℚ) :
    Sending Plain D c now fun _ (p : Program _) => p.Preserves write ok (WaitingLog J) where
  toCompositional := compositional_preserves
  plain := fun _ hx => preserves_put_log fun _ hs => hs.plain hx
  attempt := fun _ hopen _ _ hD => preserves_attempt_log hJ hopen hD
  abandon := preserves_abandon_log hJ

end Log

end Upstat.NotifierJobs
