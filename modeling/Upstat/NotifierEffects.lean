import Upstat.NotifierPrograms

/-! # What the notifier's programs can write, and when they raise

A dispatch writes under its own rule, monitor and direction. Only the report of a message
that is suppressed, or of the end of flapping, lets an exception through: the outcome of a
delivery is stored when it cannot be published. -/
namespace Upstat.NotifierEffects

open AwaitedPrograms NotifierPrograms CommonDatabase MonitorMachine

/-- Writes of a delivery on its way, which is about `monitorId` and in `direction`. -/
def OfDelivery (monitorId : Option String) (direction : Direction) : Write → Prop
  | .putRetry _ | .deleteRetry _ | .putDownfail _ _ | .deleteDownfail _ | .gaveUp _ => True
  | .delivered notice => notice.monitorId = monitorId ∧ notice.direction = direction
  | _ => False

/-- Writes of a dispatch to the rule. -/
def OfDispatch (ruleId monitorId : String) (direction : Direction) (now : ℚ) : Write → Prop
  | .putCool key at_ => key = (ruleId, monitorId, direction) ∧ at_ = now ∧ (direction = .down ∨ direction = .nodata)
  | .putRenotify key stamp => key = (ruleId, monitorId) ∧ stamp.at_ = now ∧ direction = .down
  | .deleteRenotify key => key = (ruleId, monitorId) ∧ direction = .recovered
  | .dispatched notice => notice.monitorId = some monitorId ∧ notice.direction = direction
  | x => OfDelivery (some monitorId) direction x

/-- Writes of the end of flapping: the stamps are cleared, and a down may be dispatched. -/
def OfExit (monitorId : String) (now : ℚ) : Write → Prop
  | .deleteCool key => key.2.1 = monitorId
  | x => ∃ ruleId, OfDispatch ruleId monitorId .down now x

variable {n : Notifier} {c : Config} {rule : Rule} {monitor : Monitor} {msg : Msg} {direction : Direction} {now : ℚ}
  {job : Job}

theorem OfDelivery.dispatch {monitorId : String} {x : Write} (h : OfDelivery (some monitorId) direction x)
    (ruleId : String) (now : ℚ) : OfDispatch ruleId monitorId direction now x := by
  cases x <;> simp_all [OfDelivery, OfDispatch]

/-! ## The writes -/

section Writes

theorem only_publish {A : Write → Prop} (key : String) (delivery : Delivery) : (publish key delivery).Only A := by
  intro reply
  cases (reply : Bool) <;> exact trivial

theorem only_publishFinal {monitorId : Option String} : (publishFinal job).Only (OfDelivery monitorId direction) := by
  unfold publishFinal
  cases job.final with
  | none => exact trivial
  | some final => exact only_bind (only_publish _ _) fun _ => only_when fun _ => only_put trivial

theorem only_finish {monitorId : Option String} (state : DeliveryState) :
    (finish job state now).Only (OfDelivery monitorId direction) :=
  only_bind (only_when fun _ => only_put trivial) fun _ => only_catch only_publishFinal (only_put trivial)

theorem only_attempt (c : Config) (job : Job) (now : ℚ) : (attempt c job now).Only (OfDelivery job.monitorId job.direction) := by
  unfold attempt
  cases c.channel job.channelId with
  | none => exact only_bind (only_put trivial) fun _ => only_put trivial
  | some channel =>
    refine only_bind (fun _ => trivial) fun outcome => ?_
    split
    · exact only_bind (only_put ⟨rfl, rfl⟩) fun _ => only_finish .delivered
    · split
      · exact only_put trivial
      · exact only_bind (only_put trivial) fun _ => only_finish .failed

theorem only_abandonDownRetries {monitorId : Option String} (m ch : String) :
    (abandonDownRetries m ch now).Only (OfDelivery monitorId direction) := by
  refine only_get_bind fun s => only_forEach _ fun key _ => only_get_bind fun s => ?_
  cases s.retry.lookup key with
  | none => exact only_pure ()
  | some job => exact only_when fun _ => only_finish .failed

theorem only_recover (m ch : String) : (recover direction m ch now).Only (OfDelivery (some m) direction) := by
  unfold recover
  split
  · refine only_bind (only_abandonDownRetries m ch) fun _ => only_get_bind fun s => ?_
    exact only_bind (only_when fun _ => only_put trivial) fun _ => only_pure _
  · exact only_pure none

theorem only_dispatchTo (channelId : String) :
    (dispatchTo n c rule monitor msg direction now channelId).Only (OfDispatch rule.id monitor.id direction now) := by
  refine only_bind ((only_recover monitor.id channelId).mono fun x hx => hx.dispatch rule.id now) fun missed =>
    only_get_bind fun s => only_bind (only_put ⟨rfl, rfl⟩) fun _ => ?_
  exact (only_attempt c (newJob n rule monitor msg direction now channelId missed s.dispatched.length) now).mono
    fun x hx => hx.dispatch rule.id now

theorem only_dispatch (bypassCooldown : Bool) :
    (dispatch n c rule monitor msg direction now bypassCooldown).Only (OfDispatch rule.id monitor.id direction now) := by
  refine only_get_bind fun s => ?_
  dsimp only
  split
  · exact only_publish _ _
  · split
    · exact only_publish _ _
    · split
      · exact only_publish _ _
      · refine only_bind (only_forEach _ fun channelId _ => only_dispatchTo channelId) fun _ => ?_
        refine only_bind (only_when fun hc => only_put ⟨rfl, rfl, (of_decide_eq_true hc).2⟩) fun _ => ?_
        refine only_bind (only_when fun hc => only_put ⟨rfl, rfl, (of_decide_eq_true hc).1⟩) fun _ => ?_
        exact only_when fun hc => only_put ⟨rfl, of_decide_eq_true hc⟩

theorem only_exitFlapping (orgId : String) (status : Status) (redispatch : Bool) :
    (exitFlapping n c monitor orgId now status redispatch).Only (OfExit monitor.id now) := by
  refine only_bind (only_forEach _ fun rule _ => ?_) fun _ => ?_
  · exact only_bind (only_put rfl) fun _ => only_put rfl
  · refine only_bind (only_publish _ _) fun _ => only_when fun _ => only_get_bind fun s => ?_
    refine only_forEach _ fun rule _ => (only_dispatch false).mono fun x hx => ?_
    cases x with
    | deleteCool key => exact hx.elim
    | _ => exact ⟨rule.id, hx⟩

theorem only_recordFlapping {A : Write → Prop} (t : TransitionMsg) : (recordFlapping c t monitor now).Only A := by
  unfold recordFlapping
  cases directionOf t.from_ t.to_ with
  | none => exact only_pure ()
  | some direction => exact only_forEach _ fun rule _ => only_publish _ _

theorem only_retryDue (key : DeliveryId) : (retryDue c key now).Only fun x =>
    ∃ monitorId direction, OfDelivery monitorId direction x := by
  refine only_get_bind fun s => ?_
  cases s.retry.lookup key with
  | none => exact only_pure ()
  | some job =>
    dsimp only
    split
    · exact only_pure ()
    · refine only_catch ?_ (only_pure ())
      split
      · exact only_publishFinal.mono fun x hx => ⟨job.monitorId, job.direction, hx⟩
      · exact (only_attempt c job now).mono fun x hx => ⟨job.monitorId, job.direction, hx⟩

end Writes

/-! ## Raising -/

/-- The report of a message that is suppressed, or of the end of flapping, is published. -/
def Reported : (c : Call) → Reply c → Prop
  | .publish _ delivery, reply => delivery.state = .suppressed → reply = true
  | .deliver _ _ _ _ _, _ => True

instance (c : Call) (r : Reply c) : Decidable (Reported c r) :=
  match c, r with
  | .publish _ delivery, r => inferInstanceAs (Decidable (delivery.state = .suppressed → (r : Bool) = true))
  | .deliver _ _ _ _ _, _ => isTrue trivial

section Raising
variable {good : (c : Call) → Reply c → Prop}

theorem safe_finish (state : DeliveryState) : (finish job state now).Safe good :=
  safe_bind (safe_when fun _ => trivial) fun _ => safe_catch trivial

theorem safe_attempt : (attempt c job now).Safe good := by
  unfold attempt
  cases c.channel job.channelId with
  | none => exact safe_bind trivial fun _ => trivial
  | some channel =>
    refine safe_bind (fun _ _ => trivial) fun outcome => ?_
    split
    · exact safe_bind trivial fun _ => safe_finish .delivered
    · split
      · exact trivial
      · exact safe_bind trivial fun _ => safe_finish .failed

theorem safe_abandonDownRetries (m ch : String) : (abandonDownRetries m ch now).Safe good := by
  refine safe_get_bind fun s => safe_forEach _ fun key _ => safe_get_bind fun s => ?_
  cases s.retry.lookup key with
  | none => exact trivial
  | some job => exact safe_when fun _ => safe_finish .failed

theorem safe_recover (m ch : String) : (recover direction m ch now).Safe good := by
  unfold recover
  split
  · refine safe_bind (safe_abandonDownRetries m ch) fun _ => safe_get_bind fun s => ?_
    exact safe_bind (safe_when fun _ => trivial) fun _ => trivial
  · exact trivial

/-- A delivery never raises, whatever it meets. -/
theorem safe_dispatchTo (channelId : String) :
    (dispatchTo n c rule monitor msg direction now channelId).Safe good :=
  safe_bind (safe_recover monitor.id channelId) fun _ => safe_get_bind fun _ => safe_bind trivial fun _ => safe_attempt

theorem safe_publish {key : String} {delivery : Delivery} (h : delivery.state = .suppressed) :
    (publish key delivery).Safe Reported := by
  intro reply hreply
  rw [show reply = true from hreply h]
  exact trivial

theorem safe_record (message : String) : (record rule monitor msg direction now message).Safe Reported :=
  safe_publish rfl

theorem safe_dispatch (bypassCooldown : Bool) :
    (dispatch n c rule monitor msg direction now bypassCooldown).Safe Reported := by
  refine safe_get_bind fun s => ?_
  dsimp only
  split
  · exact safe_record _
  · split
    · exact safe_record _
    · split
      · exact safe_record _
      · refine safe_bind (safe_forEach _ fun channelId _ => safe_dispatchTo channelId) fun _ => ?_
        refine safe_bind (safe_when fun _ => trivial) fun _ => ?_
        exact safe_bind (safe_when fun _ => trivial) fun _ => safe_when fun _ => trivial

theorem safe_exitFlapping (orgId : String) (status : Status) (redispatch : Bool) :
    (exitFlapping n c monitor orgId now status redispatch).Safe Reported := by
  refine safe_bind (safe_forEach _ fun _ _ => trivial) fun _ => safe_bind (safe_publish rfl) fun _ => ?_
  exact safe_when fun _ => safe_get_bind fun s => safe_forEach _ fun rule _ => safe_dispatch false

theorem safe_recordFlapping (t : TransitionMsg) : (recordFlapping c t monitor now).Safe Reported := by
  unfold recordFlapping
  cases directionOf t.from_ t.to_ with
  | none => exact trivial
  | some direction => exact safe_forEach _ fun rule _ => safe_record _

theorem safe_clearRenotify (m : String) : (clearRenotify m).Safe good :=
  safe_get_bind fun _ => safe_forEach _ fun _ _ => trivial

theorem safe_flapping (t : TransitionMsg) : (flapping n c t monitor now).Safe Reported := by
  refine safe_get_bind fun s => ?_
  dsimp only
  split
  · exact safe_bind trivial fun _ => safe_bind (safe_forEach _ fun rule _ => safe_dispatch true) fun _ => trivial
  · split
    · exact safe_bind trivial fun _ => safe_bind (safe_exitFlapping _ _ _) fun _ => trivial
    · exact safe_bind trivial fun _ => safe_bind (safe_when fun _ => safe_recordFlapping t) fun _ => trivial

theorem safe_handle (t : TransitionMsg) : (handle n c t now).Safe Reported := by
  refine safe_bind (safe_when fun _ => safe_clearRenotify _) fun _ => safe_bind (safe_flapping t) fun suppressed => ?_
  split
  · exact trivial
  · cases directionOf t.from_ t.to_ with
    | none => exact trivial
    | some direction => exact safe_forEach _ fun rule _ => safe_dispatch false

theorem safe_onTransition (t : TransitionMsg) : (onTransition n c t now).Safe Reported := by
  refine safe_get_bind fun s => ?_
  split
  · exact trivial
  · exact safe_bind (safe_handle t) fun _ => trivial

end Raising

/-! ## The handling of a transition in two parts -/

/-- What a handling does once it has cleared the renotify timers: the guard, then the dispatches. -/
def afterClearing (n : Notifier) (c : Config) (t : TransitionMsg) (now : ℚ) : Program Unit := do
  let suppressed ← flapping n c t (monitorOf c t) now
  if suppressed then pure ()
  else
    match directionOf t.from_ t.to_ with
    | none => pure ()
    | some direction =>
      .forEach ((c.uptimeRules t.orgId).filter fun rule => ruleMatches rule (monitorOf c t) direction) fun rule =>
        dispatch n c rule (monitorOf c t) (msgOf t) direction now false

/-- The clearing raises nothing, so the rest always follows. -/
theorem wp_handle_of {ok : Store → Write → Prop} {t : TransitionMsg} {w : World Store Reply}
    {R : World Store Reply → Prop} {Q : Option Unit → World Store Reply → Prop}
    (hclear : t.to_ ≠ .down ∧ t.from_ = .down → (clearRenotify (monitorOf c t).id).wp write ok (fun _ w' => R w') w)
    (hstart : ¬(t.to_ ≠ .down ∧ t.from_ = .down) → R w)
    (hguarded : ∀ w', R w' → (afterClearing n c t now).wp write ok Q w') : (handle n c t now).wp write ok Q w := by
  refine wp_bind (wp_when (fun hc => wp_mono (fun a w' hw' => ?_)
    (wp_safe (safe_clearRenotify _) (hclear (of_decide_eq_true hc)))) fun hc => ?_)
  · cases a with
    | none => exact absurd rfl hw'.1
    | some _ => exact hguarded w' hw'.2
  · exact hguarded w (hstart (of_decide_eq_false hc))

end Upstat.NotifierEffects
