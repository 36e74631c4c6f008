import Upstat.DeliveryOutcomes

/-! # Deliveries that are owed

A delivery that is not done with waits in the retry queue, where an entry is kept for an
hour. Whatever the notifier is doing may be cut off between any two writes. -/
namespace Upstat.DurableDeliveries

open GuardedRuns AwaitedPrograms NotifierPrograms NotifierEffects NotifierOrdering NotifierRuns NotifierJobs CommonDatabase
  MonitorMachine
open DeliveryOutcomes (isOutcome)

def retryTtl : ℚ := 3600

/-- When the stored job was stored last. -/
def storedAt (job : Job) : ℚ :=
  match job.final with
  | some final => final.at_
  | none => job.nextAt - ladder.getD (job.attempts - 1) 0

def fresh (now : ℚ) (job : Job) : Bool := now < storedAt job + retryTtl

/-- The working state without the retry entries that have expired. -/
def expire (now : ℚ) (s : Store) : Store :=
  { s with retry := ⟨s.retry.entries.filter fun e => fresh now e.2, s.retry.nodupKeys.sublist List.filter_sublist⟩ }

/-- What happens next, and after how many writes and calls the process dies, if it is not
done before. -/
structure Cutoff where
  moment : Moment
  steps : ℕ

/-- The run, and the deliveries that its handled transitions owe. -/
structure Owing where
  run : Clocked
  owed : List DeliveryId

def start (clock : ℚ) : Owing := ⟨⟨clock, init⟩, []⟩

def published (id : DeliveryId) (calls : List ((c : Call) × Reply c)) : Bool := calls.any (isOutcome id)

/-- The call reports under this id, and is published. -/
def notes (id : DeliveryId) : (c : Call) × Reply c → Bool
  | ⟨.publish _ delivery, reply⟩ => delivery.record.id = id ∧ (reply : Bool) = true
  | _ => false

/-- Since the log was `k` calls long the message was reported as suppressed. -/
def suppressedSince (k : ℕ) (id : DeliveryId) (calls : List ((c : Call) × Reply c)) : Bool :=
  match id with
  | .sent msg ruleId _ direction => (calls.drop k).any (notes (.noted msg ruleId direction .suppressed))
  | _ => false

def entersFlapping (s : Store) (t : TransitionMsg) (now : ℚ) : Bool :=
  ¬(window s t.monitorId).on ∧ flapEdges ≤ (recentEdges ((window s t.monitorId).edges ++ edgeOf t now) now).length

/-- What a transition is dispatched as, where nothing suppresses it. -/
def dispatchedAs (s : Store) (t : TransitionMsg) (now : ℚ) : Option Direction :=
  if entersFlapping s t now then some .flapping else directionOf t.from_ t.to_

/-- A down rule hears of flapping. -/
def heard (direction : Direction) : Direction := if direction = .flapping then .down else direction

def matching (c : Config) (t : TransitionMsg) (direction : Direction) : List Rule :=
  (c.uptimeRules t.orgId).filter fun rule => ruleMatches rule (monitorOf c t) (heard direction)

/-- The messages to a rule's channels that are there and verified. -/
def messages (c : Config) (msg : Msg) (direction : Direction) (rule : Rule) : List DeliveryId :=
  (rule.notify.channelIds.filter fun id => (c.channel id).isSome).map fun id => .sent msg.id rule.id id direction

/-- The deliveries of a transition that was handled from one world to the other. -/
def owes (c : Config) (t : TransitionMsg) (now : ℚ) (w w' : NotifierWorld) : List DeliveryId :=
  (dispatchedAs w.store t now).elim [] fun direction =>
    ((matching c t direction).flatMap (messages c (msgOf t) direction)).filter fun id =>
      ¬suppressedSince w.calls.length id w'.calls

/-- The delivery's channel is there and verified, where the config is read at all. -/
def attached (happening : Happening) (id : DeliveryId) : Bool :=
  match happening with
  | .transition c _ | .retry c _ | .sweep c _ | .renotify c _ | .verify c _ _ _ _ | .alert c _ _ _ _ =>
    (channelOf id).all fun channelId => (c.channel channelId).isSome
  | .saved _ _ => true

section Statement
variable (n : Notifier) (answer : ℕ → (c : Call) → Reply c)

/-- What the moment finds. -/
def found (s : Owing) (o : Cutoff) : NotifierWorld :=
  { s.run.world with store := expire (s.run.at o.moment) s.run.store }

/-- What it leaves. -/
def left (s : Owing) (o : Cutoff) : NotifierWorld :=
  (((program n (o.moment.happening.at (s.run.at o.moment))).cut o.steps).run write answer (found s o)).2

/-- A transition that is marked now owes its deliveries, until their channel is detached. -/
def handle (s : Owing) (o : Cutoff) : Owing where
  run := ⟨s.run.at o.moment, left n answer s o⟩
  owed := s.owed.filter (attached o.moment.happening) ++ match o.moment.happening with
    | .transition c t =>
      if (found s o).store.tx t.id = false ∧ (left n answer s o).store.tx t.id = true then
        owes c t (s.run.at o.moment) (found s o) (left n answer s o)
      else []
    | _ => []

end Statement

/-- Every delivery that is owed has its outcome published, or is stored for a later pass. -/
def Kept (s : Owing) : Prop :=
  ∀ id ∈ s.owed, published id s.run.world.calls = true ∨ (s.run.store.retry.lookup id).isSome = true

/-- No delivery that is owed and has no outcome published has its entry expire. -/
def Fits (s : Owing) (o : Cutoff) : Prop :=
  ∀ id ∈ s.owed, published id s.run.world.calls = false →
    ∀ job ∈ s.run.store.retry.lookup id, fresh (s.run.at o.moment) job = true

instance : DecidablePred Kept := fun s => by unfold Kept; infer_instance

instance (s : Owing) : DecidablePred (Fits s) := fun o => by unfold Fits; infer_instance

variable {n : Notifier} {answer : ℕ → (c : Call) → Reply c} {c : Config} {now : ℚ} {rule : Rule} {monitor : Monitor} {msg : Msg}
  {direction : Direction} {job : Job} {state : DeliveryState} {w : NotifierWorld} {k : ℕ} {ok : Store → Write → Prop}

/-! ## When an entry was stored -/

/-- A job is stored with the time of it. -/
def StoredNow (now : ℚ) : Write → Prop
  | .putRetry job => storedAt job = now
  | _ => True

theorem storedNow_publishFinal : (publishFinal job).Only (StoredNow now) := by
  unfold publishFinal
  cases job.final with
  | none => exact trivial
  | some final => exact only_bind (only_publish _ _) fun _ => only_when fun _ => only_put trivial

theorem storedNow_finish : (finish job state now).Only (StoredNow now) :=
  only_bind (only_when fun _ => only_put trivial) fun _ => only_catch storedNow_publishFinal (only_put rfl)

theorem storedNow_attempt (hfinal : job.final = none) : (attempt c job now).Only (StoredNow now) := by
  unfold attempt
  cases c.channel job.channelId with
  | none => exact only_bind (only_put trivial) fun _ => only_put trivial
  | some channel =>
    refine only_bind (fun _ => trivial) fun outcome => ?_
    split
    · exact only_bind (only_put trivial) fun _ => storedNow_finish
    · split
      · -- The next try comes the ladder's step after now.
        refine only_put ?_
        have hstored : storedAt ((job.tried.withError outcome.error).waitUntil
            (now + ladder.getD (job.tried.attempts - 1) 0)).queue = now := by
          rw [storedAt, show ((job.tried.withError outcome.error).waitUntil _).queue.final = none from hfinal]
          exact add_sub_cancel_right _ _
        exact hstored
      · exact only_bind (only_put trivial) fun _ => storedNow_finish

theorem atoms_storedNow (c : Config) (now : ℚ) :
    Atoms (fun _ _ => True) c now fun _ (p : Program _) => p.Only (StoredNow now) where
  toCompositional := compositional_only
  plain := fun x hx => only_put (by cases x <;> trivial)
  attempt := fun _ hopen _ _ _ => storedNow_attempt hopen.final
  abandon := fun m ch => only_get_bind fun s => only_forEach _ fun key _ => only_get_bind fun s => by
    cases s.retry.lookup key with
    | none => exact only_pure ()
    | some job => exact only_when fun _ => storedNow_finish
  report := fun _ _ _ => only_publish _ _
  kinds := fun _ _ _ => trivial

/-- Whatever the notifier does, each entry it stores is stored now. -/
theorem storedNow_program (n : Notifier) (happening : Happening) (now : ℚ) :
    (program n (happening.at now)).Only (StoredNow now) := by
  cases happening with
  | transition c t => exact (atoms_storedNow c now).dispatching.onTransition t
  | retry c key =>
    refine only_get_bind fun s => ?_
    cases s.retry.lookup key with
    | none => exact only_pure ()
    | some job =>
      dsimp only
      split
      · exact only_pure ()
      · refine only_catch ?_ (only_pure ())
        split
        · exact storedNow_publishFinal
        · next hfinal => exact storedNow_attempt (by simpa using hfinal)
  | sweep c m => exact (atoms_storedNow c now).dispatching.sweep m
  | renotify c key => exact (atoms_storedNow c now).renotify trivial
  | verify c channelId orgId requestedAt requestId => exact only_onVerify channelId orgId requestedAt requestId
  | alert c rule entered value transitionId => exact (atoms_storedNow c now).dispatching.ruleAlert entered value transitionId
  | saved m st => exact only_put trivial

/-! ## What a delivery is held by -/

/-- A property of the log that settles a delivery: it stays, and a terminal outcome has it. -/
structure Settles (E : DeliveryId → List ((c : Call) × Reply c) → Prop) : Prop where
  grows : ∀ id calls call, E id calls → E id (calls ++ [call])
  outcome : ∀ id calls call, isOutcome id call = true → E id (calls ++ [call])

theorem settles_published : Settles fun id calls => published id calls = true where
  grows := fun id calls call h => by rw [published, List.any_append, Bool.or_eq_true]; exact .inl h
  outcome := fun id calls call h => by simp [published, h]

theorem suppressedSince_append {id : DeliveryId} {calls : List ((c : Call) × Reply c)} (call : (c : Call) × Reply c)
    (h : suppressedSince k id calls = true) : suppressedSince k id (calls ++ [call]) = true := by
  unfold suppressedSince at h ⊢
  split at h
  · next msg ruleId channelId direction => rw [List.drop_append, List.any_append, h, Bool.true_or]
  · cases h

/-- The outcome is published, or the message reported as suppressed. -/
def Answered (k : ℕ) (id : DeliveryId) (calls : List ((c : Call) × Reply c)) : Prop :=
  published id calls = true ∨ suppressedSince k id calls = true

theorem settles_answered (k : ℕ) : Settles (Answered k) where
  grows := fun id calls call h =>
    h.imp (settles_published.grows id calls call) fun hnoted => suppressedSince_append call hnoted
  outcome := fun id calls call h => .inl (settles_published.outcome id calls call h)

/-- The delivery is settled, or stored. -/
def Accounted (E : DeliveryId → List ((c : Call) × Reply c) → Prop) (id : DeliveryId) (w : NotifierWorld) : Prop :=
  E id w.calls ∨ (w.store.retry.lookup id).isSome = true

/-- The stored jobs are waiting, and the log is as long as it was. -/
def Base (k : ℕ) (w : NotifierWorld) : Prop := AllWaiting w.store ∧ k ≤ w.calls.length

/-- All these deliveries are accounted for. -/
def Held (k : ℕ) (E : DeliveryId → List ((c : Call) × Reply c) → Prop) (S : DeliveryId → Prop) (w : NotifierWorld) : Prop :=
  Base k w ∧ ∀ id, S id → Accounted E id w

/-- The channels of these deliveries are there and verified. -/
def There (c : Config) (S : DeliveryId → Prop) : Prop :=
  ∀ id channelId, S id → channelOf id = some channelId → (c.channel channelId).isSome = true

section Holding
variable {E : DeliveryId → List ((c : Call) × Reply c) → Prop} {S : DeliveryId → Prop}

theorem Accounted.called (hE : Settles E) {id : DeliveryId} (h : Accounted E id w) (call : Call) (reply : Reply call) :
    Accounted E id (w.called call reply) := h.imp_left (hE.grows id w.calls ⟨call, reply⟩)

theorem Held.called (hE : Settles E) (h : Held k E S w) (call : Call) (reply : Reply call) :
    Held k E S (w.called call reply) :=
  ⟨⟨h.1.1, h.1.2.trans (by simp [World.called])⟩, fun id hid => (h.2 id hid).called hE call reply⟩

theorem Held.aside (h : Held k E S w) {x : Write} (hretry : (write w.store x).retry = w.store.retry) :
    Held k E S (w.put write x) := by
  refine ⟨⟨fun id job hjob => h.1.1 id job ?_, h.1.2⟩, fun id hid => (h.2 id hid).imp_right fun hstored => ?_⟩
  · rwa [World.put, hretry] at hjob
  · rwa [World.put, hretry]

theorem Held.putRetry (h : Held k E S w) (hjob : Waiting job) : Held k E S (w.put write (.putRetry job)) := by
  refine ⟨⟨h.1.1.putRetry hjob, h.1.2⟩, fun id hid => (h.2 id hid).imp_right fun hstored => ?_⟩
  by_cases hsame : id = job.deliveryId
  · subst hsame
    rw [World.put, write, AList.lookup_insert]
    rfl
  · rwa [World.put, write, AList.lookup_insert_ne hsame]

/-- A settled delivery need not be stored. -/
theorem Held.deleteRetry (h : Held k E S w) {id : DeliveryId} (hsettled : S id → E id w.calls) :
    Held k E S (w.put write (.deleteRetry id)) := by
  refine ⟨⟨h.1.1.deleteRetry id, h.1.2⟩, fun id' hid' => ?_⟩
  by_cases hsame : id' = id
  · subst hsame
    exact .inl (hsettled hid')
  · refine (h.2 id' hid').imp_right fun hstored => ?_
    rwa [World.put, write, AList.lookup_erase_ne hsame]

theorem guards_put {I : NotifierWorld → Prop} {x : Write} (h : ∀ w, I w → I (w.put write x)) :
    (Prog.put x : Program Unit).Guards write I := fun w hw => ⟨hw, h w hw⟩

theorem guards_publish (hE : Settles E) (key : String) (delivery : Delivery) :
    (publish key delivery).Guards write (Held k E S) := by
  refine fun w hw => ⟨hw, fun reply => ?_⟩
  cases hreply : (reply : Bool) <;> exact hw.called hE _ _

/-- The entry is deleted once the outcome is published. -/
theorem guards_publishFinal (hE : Settles E) (hmade : Made job) (hfinal : ∀ f, job.final = some f → f.state ≠ .suppressed) :
    (publishFinal job).Guards write (Held k E S) := by
  unfold publishFinal
  cases hjob : job.final with
  | none => exact fun w hw => hw
  | some final =>
    refine fun w hw => ⟨hw, fun reply => ?_⟩
    cases hreply : (reply : Bool) with
    | false => exact hw.called hE _ _
    | true =>
      have hcalled := hw.called hE (.publish job.key ⟨job.record, final.state, job.attempts, final.at_⟩) true
      have hsettled : E job.deliveryId (w.called (.publish job.key ⟨job.record, final.state, job.attempts, final.at_⟩) true).calls :=
        hE.outcome _ _ _ (by simp [isOutcome, hmade.reported, hfinal final hjob])
      cases hqueued : job.queued with
      | false => exact hcalled
      | true => exact ⟨hcalled, hcalled.deleteRetry fun _ => hsettled⟩

theorem guards_finish (hE : Settles E) (hclosed : Waiting (job.close state now).queue) :
    (finish job state now).Guards write (Held k E S) := by
  have hmade : Made (job.close state now) := ⟨hclosed.reported, hclosed.channel, hclosed.about⟩
  refine compositional_guards.bind (compositional_guards.when fun _ => guards_put fun w hw => hw.aside rfl) fun _ => ?_
  exact guards_catch (guards_publishFinal hE hmade hclosed.final) (guards_put fun w hw => hw.putRetry hclosed)

/-- An attempt without a channel drops the entry, so the channel must be there. -/
theorem guards_attempt (hE : Settles E) (hS : There c S) (hopen : Open job) :
    (attempt c job now).Guards write (Held k E S) := by
  unfold attempt
  cases hchannel : c.channel job.channelId with
  | none =>
    refine compositional_guards.bind (guards_put fun w hw => hw.aside rfl) fun _ => guards_put fun w hw => ?_
    refine hw.deleteRetry fun hid => ?_
    have hthere := hS _ _ hid hopen.channel
    rw [hchannel] at hthere
    cases hthere
  | some channel =>
    refine compositional_guards.bind (fun w hw => ⟨hw, fun outcome => hw.called hE _ outcome⟩) fun outcome => ?_
    split
    · exact compositional_guards.bind (guards_put fun w hw => hw.aside rfl) fun _ =>
        guards_finish hE (hopen.tried_closed (by decide) now)
    · split
      · next hmore => exact guards_put fun w hw => hw.putRetry (hopen.requeued hmore.2 _ _)
      · exact compositional_guards.bind (guards_put fun w hw => hw.aside rfl) fun _ =>
          guards_finish hE ((hopen.withError outcome.error).tried_closed (by decide) now)

theorem guards_abandon (hE : Settles E) (m ch : String) : (abandonDownRetries m ch now).Guards write (Held k E S) := by
  refine compositional_guards.bind compositional_guards.get fun s =>
    compositional_guards.forEach _ fun key _ w hw => ?_
  rw [through_get_bind]
  cases hjob : w.store.retry.lookup key with
  | none => exact hw
  | some job =>
    refine compositional_guards.when (fun hdown => ?_) w hw
    have hfinal : job.final = none := by simpa using (of_decide_eq_true hdown).1
    exact guards_finish hE ((((hw.1.1 key job hjob).2.open hfinal).withError _).closed (by decide) now)

theorem atoms_held (hE : Settles E) (hS : There c S) (now : ℚ) :
    Atoms (fun _ _ => True) c now fun _ (p : Program _) => p.Guards write (Held k E S) where
  toCompositional := compositional_guards
  plain := fun x hx => guards_put fun w hw => hw.aside (by cases x <;> first | rfl | exact hx.elim)
  attempt := fun _ hopen _ _ _ => guards_attempt hE hS hopen
  abandon := guards_abandon hE
  report := fun key delivery _ => guards_publish hE key delivery
  kinds := fun _ _ _ => trivial

theorem guards_retryDue (hE : Settles E) (hS : There c S) (key : DeliveryId) :
    (retryDue c key now).Guards write (Held k E S) := by
  intro w hw
  unfold retryDue
  rw [through_get_bind]
  cases hjob : w.store.retry.lookup key with
  | none => exact hw
  | some job =>
    obtain ⟨-, hwaiting⟩ := hw.1.1 key job hjob
    dsimp only
    split
    · exact hw
    · refine guards_catch ?_ (compositional_guards.pure ()) w hw
      split
      · exact guards_publishFinal hE hwaiting.toMade hwaiting.final
      · next hfinal => exact guards_attempt hE hS (hwaiting.open (by simpa using hfinal))

/-- Whatever the notifier does, the deliveries stay accounted for wherever it is cut off. -/
theorem guards_program (hE : Settles E) (n : Notifier) (happening : Happening) (now : ℚ)
    (hS : ∀ id, S id → attached happening id = true) : (program n (happening.at now)).Guards write (Held k E S) := by
  have hthere : ∀ c, (∀ id, S id → (channelOf id).all (fun channelId => (c.channel channelId).isSome) = true) → There c S := by
    intro c h id channelId hid hchannel
    have hall := h id hid
    rwa [hchannel, Option.all_some] at hall
  cases happening with
  | transition c t => exact (atoms_held hE (hthere c hS) now).dispatching.onTransition t
  | retry c key => exact guards_retryDue hE (hthere c hS) key
  | sweep c m => exact (atoms_held hE (hthere c hS) now).dispatching.sweep m
  | renotify c key => exact (atoms_held hE (hthere c hS) now).renotify trivial
  | verify c channelId orgId requestedAt requestId =>
    unfold Happening.at program onVerify
    dsimp only
    cases c.channels.find? (·.id = channelId) with
    | none => exact compositional_guards.pure ()
    | some channel =>
      exact compositional_guards.bind (fun w hw => ⟨hw, fun outcome => hw.called hE _ outcome⟩) fun outcome =>
        guards_publish hE _ _
  | alert c rule entered value transitionId => exact (atoms_held hE (hthere c hS) now).dispatching.ruleAlert entered value transitionId
  | saved m st => exact guards_put fun w hw => hw.aside rfl

end Holding

/-! ## What a handling leaves accounted for -/

section Owed
variable {E : DeliveryId → List ((c : Call) × Reply c) → Prop}

theorem accounted_putRetry {id : DeliveryId} (hid : job.deliveryId = id) (w : NotifierWorld) :
    Accounted E id (w.put write (.putRetry job)) := by
  subst hid
  refine .inr ?_
  rw [World.put, write, AList.lookup_insert]
  rfl

/-- The outcome is published, or the publish raises and the job is stored. -/
theorem wp_finish_accounted (hE : Settles E) (hmade : Made job) (hstate : state ≠ .suppressed) (w : NotifierWorld) :
    (finish job state now).wp write ok (fun _ w' => Accounted E job.deliveryId w') w := by
  have hpublish : ∀ w : NotifierWorld, ((publishFinal (job.close state now)).catch_
      (.put (.putRetry (job.close state now).queue))).wp write ok (fun _ w' => Accounted E job.deliveryId w') w := by
    intro w
    refine wp_catch fun reply => ?_
    cases hreply : (reply : Bool) with
    | false => exact fun _ => accounted_putRetry rfl _
    | true =>
      have hsettled : E job.deliveryId (w.called (.publish job.key ⟨job.record, state, job.attempts, now⟩) true).calls :=
        hE.outcome _ _ _ (by simp [isOutcome, hmade.reported, hstate])
      exact wp_when (fun _ _ => .inl hsettled) fun _ => .inl hsettled
  exact wp_bind (wp_when (fun _ _ => hpublish _) fun _ => hpublish w)

/-- An attempt on a channel that is there ends with the outcome published or the job stored. -/
theorem wp_attempt_accounted (hE : Settles E) (hmade : Made job) (hthere : (c.channel job.channelId).isSome = true)
    (w : NotifierWorld) : (attempt c job now).wp write ok (fun _ w' => Accounted E job.deliveryId w') w := by
  unfold attempt
  cases hchannel : c.channel job.channelId with
  | none =>
    rw [hchannel] at hthere
    cases hthere
  | some channel =>
    have htried : Made job.tried := ⟨hmade.reported, hmade.channel, hmade.about⟩
    refine wp_sent fun outcome => ?_
    split
    · exact fun _ => wp_finish_accounted hE htried (by decide) _
    · split
      · exact fun _ => accounted_putRetry rfl _
      · have hfailed : Made (job.tried.withError outcome.error) := ⟨hmade.reported, hmade.channel, hmade.about⟩
        exact fun _ => wp_finish_accounted hE hfailed (by decide) _

theorem there_messages : There c (· ∈ messages c msg direction rule) := by
  intro id channelId hid hchannel
  obtain ⟨channelId', hmem, rfl⟩ := List.mem_map.mp hid
  rw [← Option.some.inj hchannel]
  simpa using (List.mem_filter.mp hmem).2

theorem wp_dispatchTo_accounted (hE : Settles E) {channelId : String} (hthere : (c.channel channelId).isSome = true)
    (w : NotifierWorld) : (dispatchTo n c rule monitor msg direction now channelId).wp write ok
      (fun _ w' => Accounted E (.sent msg.id rule.id channelId direction) w') w := by
  have hsafe : (recover direction monitor.id channelId now).Safe fun _ _ => True := safe_recover _ _
  refine wp_bind (wp_mono (fun a w' hw' => ?_) (wp_safe hsafe (wp_true _ w)))
  cases a with
  | none => exact absurd rfl hw'.1
  | some missed => exact fun _ => wp_attempt_accounted hE (open_newJob channelId missed _).toMade hthere _

/-- Once nothing suppresses the message, each channel's delivery is accounted for. -/
theorem wp_sends_accounted (hE : Settles E) (hw : Base k w) : (sends n c rule monitor msg direction now).wp write ok
    (fun a w' => a ≠ none → Base k w' ∧ ∀ id ∈ messages c msg direction rule, Accounted E id w') w := by
  have hchannel : ∀ channelId ∈ rule.notify.channelIds.filter fun id => (c.channel id).isSome,
      (c.channel channelId).isSome = true := fun channelId hmem => by simpa using (List.mem_filter.mp hmem).2
  have hthere : ∀ channelId ∈ rule.notify.channelIds.filter fun id => (c.channel id).isSome,
      There c (· = .sent msg.id rule.id channelId direction) := by
    rintro channelId hmem id channelId' rfl hid
    rw [← Option.some.inj hid]
    exact hchannel channelId hmem
  have hbase : ∀ channelId, (dispatchTo n c rule monitor msg direction now channelId).Preserves write ok (Base k) := by
    intro channelId w hw
    have hnone : There c fun _ => False := fun _ _ hid => hid.elim
    have hguards : (dispatchTo n c rule monitor msg direction now channelId).Guards write (Held k E fun _ => False) :=
      (atoms_held hE hnone now).toSending.dispatchTo trivial (fun _ _ => trivial) (fun _ => trivial) channelId
    exact wp_mono (fun a w' hw' => hw'.1) (hguards.preserves w ⟨hw, fun _ hid => hid.elim⟩)
  have hloop : (Prog.forEach (rule.notify.channelIds.filter fun id => (c.channel id).isSome)
      (dispatchTo n c rule monitor msg direction now)).wp write ok _ w :=
    wp_forEach_each (I := Base k)
      (P := fun channelId w => ∀ id, id = .sent msg.id rule.id channelId direction → Accounted E id w) _
      (fun channelId hmem w hw => wp_mono (fun a w' h _ => ⟨h.1, fun id hid => hid ▸ h.2⟩)
        (wp_and (hbase channelId w hw) (wp_dispatchTo_accounted hE (hchannel channelId hmem) w)))
      (fun channelId hmem channelId' hmem' => ((atoms_held hE (hthere channelId' hmem') now).toSending.dispatchTo trivial
        (fun _ _ => trivial) (fun _ => trivial) channelId).preserves) hw
  refine wp_bind (wp_mono (fun a w' h => ?_) hloop)
  cases a with
  | none => exact fun hne => absurd rfl hne
  | some _ =>
    obtain ⟨hbase', hall⟩ := h (Option.some_ne_none _)
    have hheld : Held k E (· ∈ messages c msg direction rule) w' := by
      refine ⟨hbase', fun id hid => ?_⟩
      obtain ⟨channelId, hmem, rfl⟩ := List.mem_map.mp hid
      exact hall channelId hmem _ rfl
    -- The stamp and the timers leave the deliveries.
    refine wp_mono (fun a w'' h'' _ => h'') (Prog.Guards.preserves (I := Held k E (· ∈ messages c msg direction rule)) ?_ w' hheld)
    refine compositional_guards.bind (compositional_guards.when fun _ => guards_put fun w hw => hw.aside rfl) fun _ => ?_
    refine compositional_guards.bind (compositional_guards.when fun _ => guards_put fun w hw => hw.aside rfl) fun _ => ?_
    exact compositional_guards.when fun _ => guards_put fun w hw => hw.aside rfl

/-- The report of a suppressed message accounts for its deliveries. -/
theorem wp_record_accounted {message : String} (hw : Base k w) :
    (record rule monitor msg direction now message).wp write ok
      (fun a w' => a ≠ none → Base k w' ∧ ∀ id ∈ messages c msg direction rule, Accounted (Answered k) id w') w := by
  intro reply
  cases hreply : (reply : Bool) with
  | false => exact fun hne => absurd rfl hne
  | true =>
    refine fun _ => ⟨⟨hw.1, hw.2.trans (by simp [World.called])⟩, fun id hid => .inl (.inr ?_)⟩
    obtain ⟨channelId, -, rfl⟩ := List.mem_map.mp hid
    unfold suppressedSince World.called
    dsimp only
    rw [List.drop_append_of_le_length hw.2, List.any_append, Bool.or_eq_true]
    exact .inr (by simp [notes, recordData])

/-- A dispatch is reported as suppressed or accounts for the rule's deliveries. -/
theorem wp_dispatch_accounted (bypassCooldown : Bool) (hw : Base k w) :
    (dispatch n c rule monitor msg direction now bypassCooldown).wp write ok
      (fun a w' => a ≠ none → Base k w' ∧ ∀ id ∈ messages c msg direction rule, Accounted (Answered k) id w') w := by
  rw [dispatch_eq, wp_get_bind]
  split
  · exact wp_record_accounted hw
  · split
    · exact wp_record_accounted hw
    · split
      · exact wp_record_accounted hw
      · exact wp_sends_accounted (settles_answered k) hw

/-- A loop over rules that does the same for each. -/
theorem wp_rules_accounted {f : Rule → Program Unit} (rules : List Rule) (direction : Direction)
    (each : ∀ rule w, Base k w → (f rule).wp write ok
      (fun a w' => a ≠ none → Base k w' ∧ ∀ id ∈ messages c msg direction rule, Accounted (Answered k) id w') w)
    (keep : ∀ rule S, There c S → (f rule).Guards write (Held k (Answered k) S)) (hw : Base k w) :
    (Prog.forEach rules f : Program Unit).wp write ok (fun a w' => a ≠ none → Base k w' ∧
      ∀ rule ∈ rules, ∀ id ∈ messages c msg direction rule, Accounted (Answered k) id w') w :=
  wp_forEach_each (P := fun rule w => ∀ id, id ∈ messages c msg direction rule → Accounted (Answered k) id w) rules
    (fun rule _ w hw => each rule w hw) (fun rule _ _ _ => (keep rule _ there_messages).preserves) hw

theorem wp_dispatches_accounted (rules : List Rule) (bypassCooldown : Bool) (hw : Base k w) :
    (Prog.forEach rules fun rule => dispatch n c rule monitor msg direction now bypassCooldown : Program Unit).wp write ok
      (fun a w' => a ≠ none → Base k w' ∧ ∀ rule ∈ rules, ∀ id ∈ messages c msg direction rule, Accounted (Answered k) id w') w :=
  wp_rules_accounted rules direction (fun _ _ hw => wp_dispatch_accounted bypassCooldown hw)
    (fun _ _ hS => (atoms_held (settles_answered k) hS now).dispatching.dispatch trivial bypassCooldown) hw

/-- What a flapping monitor's transition would have sent is reported as suppressed. -/
theorem wp_recordFlapping_accounted {t : TransitionMsg} (hdirection : directionOf t.from_ t.to_ = some direction)
    (hw : Base k w) : (recordFlapping c t monitor now).wp write ok (fun a w' => a ≠ none → Base k w' ∧
      ∀ rule ∈ (c.uptimeRules t.orgId).filter fun rule => ruleMatches rule monitor direction,
        ∀ id ∈ messages c (msgOf t) direction rule, Accounted (Answered k) id w') w := by
  unfold recordFlapping
  rw [hdirection]
  exact wp_rules_accounted _ direction (fun _ _ hw => wp_record_accounted hw)
    (fun _ _ _ => guards_publish (settles_answered k) _ _) hw

theorem guards_base {α : Type} {p : Program α} (hp : p.Guards write (Held k (Answered k) fun _ => False)) (hw : Base k w) :
    p.wp write ok (fun _ w' => Base k w') w :=
  wp_mono (fun _ _ h => h.1) (hp.preserves w ⟨hw, fun _ hid => hid.elim⟩)

/-- The guard accounts for what the transition owes, or lets it through as what it is. -/
theorem wp_flapping_accounted {t : TransitionMsg} {s : Store} (hs : w.store.flap = s.flap) (hw : Base k w) :
    (flapping n c t (monitorOf c t) now).wp write ok (fun a w' => a ≠ none → Base k w' ∧
      (a = some true → ∀ direction, dispatchedAs s t now = some direction → ∀ rule ∈ matching c t direction,
        ∀ id ∈ messages c (msgOf t) direction rule, Accounted (Answered k) id w') ∧
      (a = some false → dispatchedAs s t now = directionOf t.from_ t.to_)) w := by
  have hatoms := atoms_held (c := c) (k := k) (settles_answered k) (S := fun _ => False) (fun _ _ hid => hid.elim) now
  have hwindow : (w.store.flap (monitorOf c t).id).getD {} = window s t.monitorId := by rw [hs, monitorOf_id, window]
  have hput : ∀ flap, Base k (w.put write (.putFlap (monitorOf c t).id flap)) := fun flap => ⟨hw.1.plain trivial, hw.2⟩
  have hnot : ¬entersFlapping s t now = true → dispatchedAs s t now = directionOf t.from_ t.to_ := fun h => if_neg h
  unfold flapping
  rw [wp_get_bind, hwindow]
  dsimp only
  split
  · next henters =>
    have henters' : dispatchedAs s t now = some .flapping := if_pos (decide_eq_true henters)
    rw [wp_put_bind]
    intro _
    refine wp_bind (wp_mono (fun a w' h => ?_) (wp_dispatches_accounted _ true (hput _)))
    cases a with
    | none => exact fun hne => absurd rfl hne
    | some _ =>
      obtain ⟨hbase, hall⟩ := h (Option.some_ne_none _)
      refine fun _ => ⟨hbase, fun _ direction hdirection rule hrule => ?_, fun hfalse => by cases hfalse⟩
      rw [henters'] at hdirection
      obtain rfl := Option.some.inj hdirection
      exact hall rule hrule
  · next henters =>
    have hsame := hnot fun h => henters (of_decide_eq_true h)
    split
    · rw [wp_put_bind]
      intro _
      refine wp_bind (wp_mono (fun a w' h => ?_) (guards_base (hatoms.dispatching.exitFlapping t.orgId t.to_ false) (hput _)))
      cases a with
      | none => exact fun hne => absurd rfl hne
      | some _ => exact fun _ => ⟨h, fun htrue => (by cases htrue), fun _ => hsame⟩
    · rw [wp_put_bind]
      intro _
      cases hon : (window s t.monitorId).on with
      | false => exact fun _ => ⟨hput _, fun htrue => (by cases htrue), fun _ => hsame⟩
      | true =>
        cases hdirection : directionOf t.from_ t.to_ with
        | none =>
          refine wp_bind (wp_mono (fun a w' h => ?_) (guards_base ((hatoms.dispatching (n := n)).recordFlapping t) (hput _)))
          cases a with
          | none => exact fun hne => absurd rfl hne
          | some _ =>
            refine fun _ => ⟨h, fun _ direction hdispatched => ?_, fun hfalse => (by cases hfalse)⟩
            rw [hsame, hdirection] at hdispatched
            cases hdispatched
        | some direction =>
          refine wp_bind (wp_mono (fun a w' h => ?_) (wp_recordFlapping_accounted hdirection (hput _)))
          cases a with
          | none => exact fun hne => absurd rfl hne
          | some _ =>
            obtain ⟨hbase, hall⟩ := h (Option.some_ne_none _)
            refine fun _ => ⟨hbase, fun _ direction' hdispatched rule hrule => ?_, fun hfalse => (by cases hfalse)⟩
            rw [hsame, hdirection] at hdispatched
            obtain rfl := Option.some.inj hdispatched
            refine hall rule ?_
            rwa [matching, heard, if_neg (directionOf_ne_flapping hdirection)] at hrule

theorem wp_handle_accounted {t : TransitionMsg} (hw : Base k w) :
    (NotifierPrograms.handle n c t now).wp write ok (fun a w' => a ≠ none → Base k w' ∧
      ∀ direction, dispatchedAs w.store t now = some direction → ∀ rule ∈ matching c t direction,
        ∀ id ∈ messages c (msgOf t) direction rule, Accounted (Answered k) id w') w := by
  have hatoms := atoms_held (c := c) (k := k) (settles_answered k) (S := fun _ => False) (fun _ _ hid => hid.elim) now
  have hclear : (clearRenotify (monitorOf c t).id).wp write ok (fun _ w' => Base k w' ∧ w'.store.flap = w.store.flap) w := by
    refine wp_and (guards_base ((hatoms.dispatching (n := n)).clearRenotify _) hw) ?_
    refine ((only_clearRenotify _).keeps (I := fun s => s.flap = w.store.flap) (fun s x hx hs => ?_)) w rfl
    obtain ⟨key, rfl, -⟩ := hx
    exact hs
  refine wp_handle_of (fun _ => hclear) (fun _ => ⟨hw, rfl⟩) fun w1 ⟨h1, hflap⟩ => ?_
  refine wp_bind (wp_mono (fun a w2 h2 => ?_) (wp_flapping_accounted hflap h1))
  cases a with
  | none => exact fun hne => absurd rfl hne
  | some suppressed =>
    obtain ⟨hbase, hheld, hthrough⟩ := h2 (Option.some_ne_none _)
    cases suppressed with
    | true => exact fun _ => ⟨hbase, hheld rfl⟩
    | false =>
      rw [hthrough rfl]
      cases hdirection : directionOf t.from_ t.to_ with
      | none => exact fun _ => ⟨hbase, fun direction h => by cases h⟩
      | some direction =>
        refine wp_mono (fun a w3 h3 hne => ?_) (wp_dispatches_accounted _ false hbase)
        obtain ⟨hbase3, hall⟩ := h3 hne
        refine ⟨hbase3, fun direction' h rule hrule => ?_⟩
        obtain rfl := Option.some.inj h
        rw [matching, heard, if_neg (directionOf_ne_flapping hdirection)] at hrule
        exact hall rule hrule

/-- A write that marks no transition. -/
def Unmarking : Write → Prop
  | .handled _ => False
  | _ => True

theorem unmarking_handle (t : TransitionMsg) : (NotifierPrograms.handle n c t now).Only Unmarking := by
  refine (only_handle t).mono fun x hx => ?_
  cases x with
  | handled id => obtain ⟨flap, hx⟩ | ⟨ruleId, hx⟩ | ⟨ruleId, direction, hx⟩ := hx <;> cases hx
  | _ => trivial

/-- Where the handling is cut off before the mark, the mark is missing. -/
theorem wp_onTransition_marked {t : TransitionMsg} (htx : w.store.tx t.id = false) (hw : Base k w) (j : ℕ) :
    ((onTransition n c t now).cut j).wp write ok (fun _ w' => w'.store.tx t.id = true →
      ∀ direction, dispatchedAs w.store t now = some direction → ∀ rule ∈ matching c t direction,
        ∀ id ∈ messages c (msgOf t) direction rule, Accounted (Answered k) id w') w := by
  have hunmarked : (NotifierPrograms.handle n c t now).Guards write fun w => w.store.tx t.id = false :=
    (unmarking_handle t).guards (I := fun s => s.tx t.id = false) fun s x hx hs => by
      cases x <;> first | exact hs | exact hx.elim
  have hcut : ((NotifierPrograms.handle n c t now >>= fun _ => .put (.handled t.id)).cut j).wp write ok
      (fun _ w' => w'.store.tx t.id = true → ∀ direction, dispatchedAs w.store t now = some direction →
        ∀ rule ∈ matching c t direction, ∀ id ∈ messages c (msgOf t) direction rule, Accounted (Answered k) id w') w := by
    refine wp_cut_bind (fun j => ?_) j
    refine wp_mono (fun a w' hw' => ?_) (wp_cut (wp_and (wp_handle_accounted hw) (wp_handle t w)) (hunmarked w htx) j)
    have hnot : w'.store.tx t.id = false := by
      rcases hw' with hended | hcut
      · rw [hended.2.1, htx]
      · exact hcut.2
    cases a with
    | none => exact fun hmarked => absurd hmarked (by simp [hnot])
    | some _ =>
      have hheld := hw'.resolve_right fun h => absurd h.1 (Option.some_ne_none _)
      intro j
      cases j with
      | zero => exact fun hmarked => absurd hmarked (by simp [hnot])
      | succ j => exact fun _ _ => (hheld.1 (Option.some_ne_none _)).2
  unfold onTransition
  rw [wp_cut_get_bind, htx]
  exact hcut

/-- What a transition owes once it is marked is accounted for. -/
theorem owes_accounted {t : TransitionMsg} (htx : w.store.tx t.id = false) (hwaiting : AllWaiting w.store)
    (answer : ℕ → (c : Call) → Reply c) (j : ℕ)
    (hmarked : (((onTransition n c t now).cut j).run write answer w).2.store.tx t.id = true) :
    ∀ id ∈ owes c t now w (((onTransition n c t now).cut j).run write answer w).2,
      Accounted (fun id calls => published id calls = true) id (((onTransition n c t now).cut j).run write answer w).2 := by
  intro id hid
  have haccounted := wp_run answer (wp_onTransition_marked htx ⟨hwaiting, le_rfl⟩ j) hmarked
  unfold owes at hid
  cases hdirection : dispatchedAs w.store t now with
  | none =>
    rw [hdirection] at hid
    cases hid
  | some direction =>
    rw [hdirection] at hid
    obtain ⟨hmem, hsent⟩ := List.mem_filter.mp hid
    obtain ⟨rule, hrule, hmessage⟩ := List.mem_flatMap.mp hmem
    rcases haccounted direction hdirection rule hrule id hmessage with (hpublished | hsuppressed) | hstored
    · exact .inl hpublished
    · exact absurd hsuppressed (by simpa using hsent)
    · exact .inr hstored

end Owed

/-! ## Runs -/

theorem allWaiting_expire {s : Store} (h : AllWaiting s) (now : ℚ) : AllWaiting (expire now s) := by
  intro id job hjob
  refine h id job (AList.mem_lookup_iff.mpr ?_)
  exact (List.mem_filter.mp (AList.mem_lookup_iff.mp hjob)).1

/-- An entry that is fresh stays. -/
theorem lookup_expire {s : Store} {id : DeliveryId} (hjob : s.retry.lookup id = some job) (hfresh : fresh now job = true) :
    (expire now s).retry.lookup id = some job :=
  AList.mem_lookup_iff.mpr (List.mem_filter.mpr ⟨AList.mem_lookup_iff.mp hjob, hfresh⟩)

/-- The stored jobs are waiting, and no delivery that is owed is lost. -/
structure Inv (s : Owing) : Prop where
  waiting : AllWaiting s.run.store
  kept : Kept s

theorem inv_start (clock : ℚ) : Inv (start clock) := ⟨allWaiting_empty, fun _ hid => by cases hid⟩

/-- Without an entry that expires, what the moment finds still has every delivery. -/
theorem Inv.found {s : Owing} (h : Inv s) {o : Cutoff} (hfits : Fits s o) :
    Held 0 (fun id calls => published id calls = true) (· ∈ s.owed.filter (attached o.moment.happening)) (found s o) := by
  refine ⟨⟨allWaiting_expire h.waiting _, Nat.zero_le _⟩, fun id hid => ?_⟩
  have howed := (List.mem_filter.mp hid).1
  cases hpublished : published id s.run.world.calls with
  | true => exact .inl hpublished
  | false =>
    have hstored := (h.kept id howed).resolve_left (by simp [hpublished])
    obtain ⟨job, hjob⟩ := Option.isSome_iff_exists.mp hstored
    refine .inr ?_
    rw [DurableDeliveries.found, lookup_expire hjob (hfits id howed hpublished job hjob)]
    rfl

theorem inv_handle {s : Owing} (h : Inv s) {o : Cutoff} (hfits : Fits s o) : Inv (handle n answer s o) := by
  have hheld : Held 0 (fun id calls => published id calls = true) (· ∈ s.owed.filter (attached o.moment.happening))
      (left n answer s o) :=
    ((guards_program settles_published n o.moment.happening _ (fun id hid => (List.mem_filter.mp hid).2) _
      (h.found hfits)).cut o.steps).run answer
  refine ⟨hheld.1.1, fun id hid => ?_⟩
  rcases List.mem_append.mp hid with hbefore | hnew
  · exact hheld.2 id hbefore
  · obtain ⟨⟨delay, happening⟩, steps⟩ := o
    cases happening with
    | transition c t =>
      dsimp only at hnew
      split at hnew
      · next hmarked => exact owes_accounted hmarked.1 (h.found hfits).1.1 answer steps hmarked.2 id hnew
      · cases hnew
    | _ => cases hnew

/-- In every run in which no owed delivery's entry expires, no delivery that is owed is lost. -/
theorem owed_kept (n : Notifier) (answer : ℕ → (c : Call) → Reply c) (clock : ℚ) (os : List Cutoff)
    (h : Meets (handle n answer) Fits (start clock) os) : Throughout (handle n answer) Kept (start clock) os :=
  (h.throughout (fun _ _ hs ho => inv_handle hs ho) (inv_start clock)).imp fun _ hs => hs.kept

/-! ## A pass that comes an hour late -/

/-- The monitor goes down, and nothing cuts the handling off. -/
def goesDown : Cutoff := ⟨⟨0, .transition homepage ⟨"m", "o", 1, .up, .down, "timeout", 0, [], 3⟩⟩, 100⟩

/-- The retry pass that comes to its delivery. -/
def retriedAfter (delay : ℚ≥0) : Cutoff :=
  ⟨⟨delay, .retry homepage (.sent (.transition ("m", 1)) "r" "c" .down)⟩, 100⟩

theorem retried_soon_kept :
    Meets (handle plain (failsAt 0)) Fits (start 0) [goesDown, retriedAfter 15] ∧
      Throughout (handle plain (failsAt 0)) Kept (start 0) [goesDown, retriedAfter 15] := by
  have fits : Meets (handle plain (failsAt 0)) Fits (start 0) [goesDown, retriedAfter 15] := by decide +kernel
  exact ⟨fits, owed_kept plain (failsAt 0) 0 _ fits⟩

/-- The first attempt fails, and its entry expires before the next pass. -/
theorem retried_late_lost : ¬Throughout (handle plain (failsAt 0)) Kept (start 0) [goesDown, retriedAfter 3600] := by
  decide +kernel

end Upstat.DurableDeliveries
