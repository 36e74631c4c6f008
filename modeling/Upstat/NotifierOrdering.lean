import Upstat.GuardedRuns
import Upstat.NotifierPrograms

/-! # The order of a monitor's messages on a channel

Deliveries are retried on later passes, so a message can be overtaken by a newer one. What
keeps them in order is that a message is only dispatched when every retry still queued for
its monitor and channel has its direction. -/
namespace Upstat.NotifierOrdering

open AwaitedPrograms NotifierPrograms GuardedRuns CommonDatabase MonitorMachine

/-- What the notifier does next, and the evaluator saving a monitor's state. -/
inductive Event where
  | transition (c : Config) (msg : TransitionMsg) (now : ℚ)
  | retry (c : Config) (key : DeliveryId) (now : ℚ)
  | sweep (c : Config) (monitorId : String) (now : ℚ)
  | renotify (c : Config) (key : String × String) (now : ℚ)
  | verify (c : Config) (channelId orgId requestedAt : String) (requestId : Option String) (now : ℚ)
  | alert (c : Config) (rule : Rule) (entered : Bool) (value : Option ℚ) (now : ℚ) (transitionId : Option String)
  | saved (monitorId : String) (st : MonitorState)

def program (n : Notifier) : Event → Program Unit
  | .transition c msg now => onTransition n c msg now
  | .retry c key now => retryDue c key now
  | .sweep c monitorId now => sweep n c monitorId now
  | .renotify c key now => NotifierPrograms.renotify n c key now
  | .verify c channelId orgId requestedAt requestId now => onVerify c channelId orgId requestedAt requestId now
  | .alert c rule entered value now transitionId => ruleAlert n c rule entered value now transitionId
  | .saved monitorId st => .put (.saved monitorId st)

abbrev NotifierWorld := World Store Reply

def init : NotifierWorld := ⟨empty, []⟩

/-- `answer` says how each publish and each send of the run ends. -/
def step (n : Notifier) (answer : ℕ → (c : Call) → Reply c) (w : NotifierWorld) (e : Event) : NotifierWorld :=
  ((program n e).run write answer w).2

section Statement
variable (m ch : String)

def about (notice : Notice) : Bool := notice.monitorId = some m ∧ notice.channelId = ch

/-- The queued retries of the monitor on the channel that are still to be sent. -/
def waiting (s : Store) : List Job :=
  (s.retry.entries.map fun p => p.2).filter fun job => job.final.isNone ∧ about m ch job.notice

def lastDirection (notices : List Notice) : Option Direction :=
  ((notices.filter (about m ch)).getLast?).map (·.direction)

/-- Once no retry is queued, the last message delivered has the direction of the latest
dispatched. -/
def Settled (s : Store) : Prop :=
  waiting m ch s = [] → lastDirection m ch s.delivered = lastDirection m ch s.dispatched

/-- No message is delivered after the message of a newer one of another direction. -/
def InOrder (s : Store) : Prop :=
  (s.delivered.filter (about m ch)).Pairwise fun earlier later =>
    later.turn < earlier.turn → later.direction = earlier.direction

def Ordered (s : Store) : Prop := Settled m ch s ∧ InOrder m ch s

/-- A message is dispatched when all queued retries have its direction, and a delivery is
given up when the last message delivered has its direction or another retry is queued. -/
def Fits (s : Store) : Write → Prop
  | .dispatched notice => about m ch notice → ∀ job ∈ waiting m ch s, job.direction = notice.direction
  | .gaveUp job => about m ch job.notice →
    lastDirection m ch s.delivered = some job.direction ∨ ∃ other ∈ waiting m ch s, other.deliveryId ≠ job.deliveryId
  | _ => True

instance : DecidablePred (Settled m ch) := fun s =>
  inferInstanceAs (Decidable (waiting m ch s = [] → _))

instance : DecidablePred (InOrder m ch) := fun s =>
  inferInstanceAs (Decidable ((s.delivered.filter (about m ch)).Pairwise _))

instance : DecidablePred (Ordered m ch) := fun s => inferInstanceAs (Decidable (Settled m ch s ∧ InOrder m ch s))

instance (s : Store) : DecidablePred (Fits m ch s)
  | .dispatched notice =>
    inferInstanceAs (Decidable (about m ch notice → ∀ job ∈ waiting m ch s, job.direction = notice.direction))
  | .gaveUp job =>
    inferInstanceAs (Decidable (about m ch job.notice → _ ∨ ∃ other ∈ waiting m ch s, other.deliveryId ≠ job.deliveryId))
  | .handled _ | .putFlap _ _ | .putCool _ _ | .deleteCool _ | .putRenotify _ _ | .deleteRenotify _ | .putRetry _
  | .deleteRetry _ | .putDownfail _ _ | .deleteDownfail _ | .saved _ _ | .delivered _ => isTrue trivial

/-- Every dispatch and every giving up within the event fits. -/
def EventFits (n : Notifier) (answer : ℕ → (c : Call) → Reply c) (w : NotifierWorld) (e : Event) : Prop :=
  (program n e).Meets write (Fits m ch) answer w

instance (n : Notifier) (answer : ℕ → (c : Call) → Reply c) (w : NotifierWorld) :
    DecidablePred (EventFits m ch n answer w) := fun e =>
  Prog.Meets.decidable write (Fits m ch) answer (program n e) w

end Statement

/-! ## Ids -/

def monitorOfId : DeliveryId → Option String
  | .sent msg _ _ _ => some msg.monitorId
  | _ => none

def channelOfId : DeliveryId → String
  | .sent _ _ channelId _ => channelId
  | .ruleAlert _ channelId _ _ => channelId
  | _ => ""

/-- The delivery id tells the monitor and the channel. -/
def Keyed (job : Job) : Prop :=
  job.monitorId = monitorOfId job.deliveryId ∧ job.channelId = channelOfId job.deliveryId

variable {m ch : String} {s s' : Store} {job : Job}

theorem Keyed.about_eq {job' : Job} (h : Keyed job) (h' : Keyed job') (hid : job.deliveryId = job'.deliveryId) :
    about m ch job.notice = about m ch job'.notice := by
  simp only [about, Job.notice, h.1, h.2, h'.1, h'.2, hid]

/-! ## The invariant -/

/-- The message was dispatched, and every newer one on its channel has its direction. -/
structure Held (m ch : String) (s : Store) (job : Job) : Prop where
  dispatched : job.notice ∈ s.dispatched
  newer : ∀ notice ∈ s.dispatched, about m ch notice → job.turn ≤ notice.turn → notice.direction = job.direction

structure Sound (m ch : String) (s : Store) : Prop where
  stored : ∀ id job, s.retry.lookup id = some job → job.deliveryId = id ∧ job.queued = true ∧ Keyed job
  stamps : ∀ key stamp, s.renotify.lookup key = some stamp → stamp.transitionId.monitorId = key.2
  sorted : s.dispatched.Pairwise fun a b => a.turn < b.turn
  turns : ∀ notice ∈ s.dispatched, notice.turn < s.dispatched.length
  sent : ∀ notice ∈ s.delivered, about m ch notice → notice ∈ s.dispatched
  held : ∀ job ∈ waiting m ch s, Held m ch s job
  inOrder : InOrder m ch s

theorem mem_waiting : job ∈ waiting m ch s ↔
    (∃ id, s.retry.lookup id = some job) ∧ job.final = none ∧ about m ch job.notice := by
  simp only [waiting, List.mem_filter, List.mem_map, decide_eq_true_eq, Option.isNone_iff_eq_none]
  constructor
  · rintro ⟨⟨⟨id, job'⟩, hmem, rfl⟩, hfinal, habout⟩
    exact ⟨⟨id, AList.mem_lookup_iff.mpr hmem⟩, hfinal, habout⟩
  · rintro ⟨⟨id, hid⟩, hfinal, habout⟩
    exact ⟨⟨⟨id, job⟩, AList.mem_lookup_iff.mp hid, rfl⟩, hfinal, habout⟩

theorem Sound.lookup_of_waiting (h : Sound m ch s) (hjob : job ∈ waiting m ch s) :
    s.retry.lookup job.deliveryId = some job := by
  obtain ⟨⟨id, hid⟩, -⟩ := mem_waiting.mp hjob
  rw [(h.stored id job hid).1, hid]

/-- A delivery of another channel has another id than those that wait. -/
theorem Sound.ne_of_waiting (h : Sound m ch s) (hk : Keyed job) (habout : ¬about m ch job.notice) {other : Job}
    (hother : other ∈ waiting m ch s) : other.deliveryId ≠ job.deliveryId := by
  intro hid
  have hkeyed := (h.stored _ _ (h.lookup_of_waiting hother)).2.2
  rw [← hkeyed.about_eq hk hid] at habout
  exact habout (mem_waiting.mp hother).2.2

theorem lastDirection_append (notices : List Notice) (notice : Notice) :
    lastDirection m ch (notices ++ [notice]) =
      if about m ch notice then some notice.direction else lastDirection m ch notices := by
  simp only [lastDirection, List.filter_append, List.filter_cons, List.filter_nil]
  split <;> simp

theorem Held.congr (h : Held m ch s job) (hd : s'.dispatched = s.dispatched) : Held m ch s' job :=
  ⟨by rw [hd]; exact h.dispatched, by rw [hd]; exact h.newer⟩

theorem InOrder.congr (h : InOrder m ch s) (hd : s'.delivered = s.delivered) : InOrder m ch s' := by
  rw [InOrder, hd]
  exact h

/-- A waiting retry leaves nothing to settle. -/
theorem settled_of_waiting (h : job ∈ waiting m ch s) : Settled m ch s := by
  intro hnone
  rw [hnone] at h
  cases h

/-- The channel stays settled while its retries go on waiting. -/
theorem Settled.of_waiting (h : Settled m ch s) (hd : s'.dispatched = s.dispatched) (hl : s'.delivered = s.delivered)
    (hwaiting : ∀ other ∈ waiting m ch s, other ∈ waiting m ch s') : Settled m ch s' := by
  intro hnone
  rw [hl, hd]
  refine h (List.eq_nil_iff_forall_not_mem.mpr fun other hother => ?_)
  have := hwaiting other hother
  rw [hnone] at this
  cases this

/-- Where a message is held, the latest one dispatched on its channel has its direction. -/
theorem Held.lastDirection (h : Held m ch s job) (hs : s.dispatched.Pairwise fun a b => a.turn < b.turn)
    (habout : about m ch job.notice) : lastDirection m ch s.dispatched = some job.direction := by
  have hmem : job.notice ∈ s.dispatched.filter (about m ch) := List.mem_filter.mpr ⟨h.dispatched, habout⟩
  obtain ⟨front, last, hlast⟩ : ∃ front last, s.dispatched.filter (about m ch) = front ++ [last] :=
    (List.eq_nil_or_concat _).resolve_left (List.ne_nil_of_mem hmem) |>.imp fun _ ⟨a, h⟩ => ⟨a, by simpa using h⟩
  have hlastmem : last ∈ s.dispatched ∧ about m ch last := List.mem_filter.mp (by simp [hlast])
  have hle : job.turn ≤ last.turn := by
    have hsorted := hs.filter (about m ch)
    rw [hlast] at hsorted hmem
    rcases List.mem_append.mp hmem with hfront | hl
    · exact (List.pairwise_append.mp hsorted).2.2 _ hfront last (by simp) |>.le
    · obtain rfl : job.notice = last := by simpa using hl
      exact le_rfl
  simp only [NotifierOrdering.lastDirection, hlast, List.getLast?_concat, Option.map_some]
  rw [h.newer last hlastmem.1 hlastmem.2 hle]

/-! ## The end of a delivery -/

/-- What recording an outcome does: the job is gone from the queue, or stays there with its
outcome, or was not queued and nothing changes. -/
structure Finished (job : Job) (s s' : Store) : Prop where
  dispatched : s'.dispatched = s.dispatched
  delivered : s'.delivered = s.delivered
  renotify : s'.renotify = s.renotify
  others : ∀ id ≠ job.deliveryId, s'.retry.lookup id = s.retry.lookup id
  own : s'.retry.lookup job.deliveryId = none ∨
    (∃ closed, s'.retry.lookup job.deliveryId = some closed ∧ closed.final.isSome ∧
      closed.deliveryId = job.deliveryId ∧ closed.queued = true ∧ Keyed closed) ∨
    (job.queued = false ∧ s'.retry.lookup job.deliveryId = s.retry.lookup job.deliveryId)

theorem wp_publish {ok : Store → Write → Prop} {key : String} {delivery : Delivery}
    {Q : Option Unit → NotifierWorld → Prop} {w : NotifierWorld}
    (h : ∀ a calls, Q a ⟨w.store, calls⟩) : (publish key delivery).wp write ok Q w := by
  intro reply
  cases (reply : Bool) with
  | true => exact h (some ()) _
  | false => exact h none _

theorem wp_publishFinal {ok : Store → Write → Prop} {Q : Option Unit → NotifierWorld → Prop} {w : NotifierWorld}
    (hraised : ∀ calls, Q none ⟨w.store, calls⟩)
    (hkept : job.queued = false → ∀ calls, Q (some ()) ⟨w.store, calls⟩)
    (hdeleted : ∀ calls, Q (some ()) ⟨write w.store (.deleteRetry job.deliveryId), calls⟩) :
    (publishFinal job).wp write ok Q w := by
  unfold publishFinal
  cases job.final with
  | none => exact hraised _
  | some final =>
    refine wp_bind (wp_publish fun a calls => ?_)
    cases a with
    | none => exact hraised _
    | some _ =>
      exact wp_when (fun _ _ => hdeleted calls) fun hq => hkept hq calls

theorem finished_close (hk : Keyed job) (state : DeliveryState) (now : ℚ) (s1 : Store)
    (hd : s1.dispatched = s.dispatched) (hl : s1.delivered = s.delivered) (hn : s1.renotify = s.renotify)
    (hr : s1.retry = s.retry) :
    (job.queued = false → Finished job s s1) ∧ Finished job s (write s1 (.deleteRetry job.deliveryId)) ∧
      Finished job s (write s1 (.putRetry (job.close state now).queue)) := by
  refine ⟨fun hq => ⟨hd, hl, hn, fun id _ => by rw [hr], .inr (.inr ⟨hq, by rw [hr]⟩)⟩, ?_, ?_⟩
  · refine ⟨hd, hl, hn, fun id hid => ?_, .inl (AList.lookup_erase _ _)⟩
    rw [← hr]
    exact AList.lookup_erase_ne hid
  · refine ⟨hd, hl, hn, fun id hid => ?_, .inr (.inl ⟨(job.close state now).queue, AList.lookup_insert _, rfl, rfl, rfl, hk⟩)⟩
    rw [← hr]
    exact AList.lookup_insert_ne hid

theorem wp_finish (hk : Keyed job) {state : DeliveryState} {now : ℚ} {Q : Option Unit → NotifierWorld → Prop}
    {w : NotifierWorld} (hQ : ∀ w' : NotifierWorld, Finished job w.store w'.store → Q (some ()) w') :
    (finish job state now).wp write (Fits m ch) Q w := by
  have closing : ∀ w1 : NotifierWorld, w1.store.dispatched = w.store.dispatched →
      w1.store.delivered = w.store.delivered → w1.store.renotify = w.store.renotify →
      w1.store.retry = w.store.retry →
      ((publishFinal (job.close state now)).catch_ (.put (.putRetry (job.close state now).queue))).wp write
        (Fits m ch) Q w1 := by
    intro w1 hd hl hn hr
    obtain ⟨hkept, hdeleted, hstored⟩ := finished_close hk state now w1.store hd hl hn hr
    refine wp_catch (wp_publishFinal (fun calls => ?_) (fun hq calls => ?_) fun calls => ?_)
    · exact fun _ => hQ _ hstored
    · exact hQ _ (hkept hq)
    · exact hQ _ hdeleted
  refine wp_bind (wp_when (fun _ _ => ?_) fun _ => ?_)
  · exact closing _ rfl rfl rfl rfl
  · exact closing w rfl rfl rfl rfl

theorem Finished.waiting (h : Finished job s s') {other : Job} (hother : other ∈ waiting m ch s') :
    other ∈ waiting m ch s := by
  obtain ⟨⟨id, hid⟩, hfinal, habout⟩ := mem_waiting.mp hother
  refine mem_waiting.mpr ⟨⟨id, ?_⟩, hfinal, habout⟩
  by_cases hne : id = job.deliveryId
  · subst hne
    rcases h.own with hnone | ⟨closed, hclosed, hsome, -⟩ | ⟨-, hsame⟩
    · rw [hnone] at hid
      cases hid
    · rw [hclosed] at hid
      obtain rfl : closed = other := Option.some.inj hid
      rw [hfinal] at hsome
      cases hsome
    · rw [← hsame, hid]
  · rw [← h.others id hne, hid]

theorem Finished.waiting_of_ne (h : Finished job s s') (hs : Sound m ch s) {other : Job}
    (hother : other ∈ NotifierOrdering.waiting m ch s) (hne : other.deliveryId ≠ job.deliveryId) :
    other ∈ NotifierOrdering.waiting m ch s' := by
  have hlook := hs.lookup_of_waiting hother
  obtain ⟨-, hfinal, habout⟩ := mem_waiting.mp hother
  exact mem_waiting.mpr ⟨⟨_, (h.others _ hne).trans hlook⟩, hfinal, habout⟩

theorem Sound.finished (hs : Sound m ch s) (h : Finished job s s') : Sound m ch s' where
  stored := by
    intro id other hid
    by_cases hne : id = job.deliveryId
    · subst hne
      rcases h.own with hnone | ⟨closed, hclosed, -, hkeyed⟩ | ⟨-, hsame⟩
      · rw [hnone] at hid
        cases hid
      · rw [hclosed] at hid
        obtain rfl : closed = other := Option.some.inj hid
        exact hkeyed
      · rw [hsame] at hid
        exact hs.stored _ _ hid
    · rw [h.others id hne] at hid
      exact hs.stored _ _ hid
  stamps := by rw [h.renotify]; exact hs.stamps
  sorted := by rw [h.dispatched]; exact hs.sorted
  turns := by rw [h.dispatched]; exact hs.turns
  sent := by rw [h.dispatched, h.delivered]; exact hs.sent
  held := fun other hother => (hs.held other (h.waiting hother)).congr h.dispatched
  inOrder := hs.inOrder.congr h.delivered

/-! ## One attempt -/

/-- A delivery in the notifier's hands: it may be sent, and if it is of the channel then it is
held, else the channel is settled. -/
structure InHand (m ch : String) (s : Store) (job : Job) : Prop where
  keyed : Keyed job
  unfinished : job.final = none
  held : about m ch job.notice → Held m ch s job
  settled : ¬about m ch job.notice → Settled m ch s

/-- The end of a delivery that no retry of the channel waits for leaves the channel settled. -/
theorem Finished.settled (h : Finished job s s') (hs : Sound m ch s)
    (hne : ∀ other ∈ NotifierOrdering.waiting m ch s, other.deliveryId ≠ job.deliveryId) (hsettled : Settled m ch s) :
    Settled m ch s' :=
  hsettled.of_waiting h.dispatched h.delivered fun other hother => h.waiting_of_ne hs hother (hne other hother)

theorem Finished.settled_other (h : Finished job s s') (hs : Sound m ch s) (hk : Keyed job)
    (habout : ¬about m ch job.notice) (hsettled : Settled m ch s) : Settled m ch s' := by
  exact h.settled hs (fun other hother => hs.ne_of_waiting hk habout hother) hsettled

/-- The message is delivered: the newest of its channel, or in another one. -/
theorem Sound.delivered (hs : Sound m ch s) (h : about m ch job.notice → Held m ch s job) :
    Sound m ch (write s (.delivered job.notice)) where
  stored := hs.stored
  stamps := hs.stamps
  sorted := hs.sorted
  turns := hs.turns
  sent := by
    intro notice hmem habout
    rcases List.mem_append.mp hmem with hold | hnew
    · exact hs.sent notice hold habout
    · obtain rfl : notice = job.notice := by simpa using hnew
      exact (h habout).dispatched
  held := fun other hother => (hs.held other hother).congr rfl
  inOrder := by
    simp only [InOrder, write, List.filter_append, List.filter_cons, List.filter_nil]
    split
    · next habout =>
      refine List.pairwise_append.mpr ⟨hs.inOrder, by simp, ?_⟩
      intro earlier hearlier later hlater hturn
      obtain ⟨hmem, habout'⟩ := List.mem_filter.mp hearlier
      obtain rfl : later = job.notice := by simpa using hlater
      exact ((h habout).newer earlier (hs.sent earlier hmem habout') habout' hturn.le).symm
    · rw [List.append_nil]
      exact hs.inOrder

theorem settled_delivered (hs : Sound m ch s) (h : InHand m ch s job) :
    Settled m ch (write s (.delivered job.notice)) := by
  intro hnone
  simp only [write, lastDirection_append]
  split
  · next habout => exact ((h.held habout).lastDirection hs.sorted habout).symm
  · next habout => exact h.settled habout hnone

/-- The last message delivered already has the direction of the latest dispatched. -/
def Level (m ch : String) (s : Store) : Prop :=
  lastDirection m ch s.delivered = lastDirection m ch s.dispatched

theorem level_delivered (hs : Sound m ch s) (h : InHand m ch s job) (habout : about m ch job.notice) :
    Level m ch (write s (.delivered job.notice)) := by
  simp only [Level, write, lastDirection_append, habout, if_true]
  exact ((h.held habout).lastDirection hs.sorted habout).symm

theorem Finished.level (h : Finished job s s') (hl : Level m ch s) : Level m ch s' := by
  rw [Level, h.delivered, h.dispatched]
  exact hl

/-- Giving a delivery up where that fits leaves the channel settled. -/
theorem Finished.settled_gaveUp (h : Finished job s s') (hs : Sound m ch s) (hj : InHand m ch s job)
    (hfits : Fits m ch s (.gaveUp job)) : Settled m ch s' := by
  by_cases habout : about m ch job.notice
  · rcases hfits habout with hlast | ⟨other, hother, hne⟩
    · intro _
      have hlevel : Level m ch s := hlast.trans ((hj.held habout).lastDirection hs.sorted habout).symm
      exact h.level hlevel
    · exact settled_of_waiting (h.waiting_of_ne hs hother hne)
  · exact h.settled_other hs hj.keyed habout (hj.settled habout)

/-- Queueing a delivery in hand leaves the channel sound and settled. -/
theorem InHand.putRetry (hj : InHand m ch s job) (hs : Sound m ch s) (hq : job.queued = true) :
    Sound m ch (write s (.putRetry job)) ∧ Settled m ch (write s (.putRetry job)) := by
  have hown : (write s (.putRetry job)).retry.lookup job.deliveryId = some job := AList.lookup_insert _
  have hothers : ∀ id ≠ job.deliveryId, (write s (.putRetry job)).retry.lookup id = s.retry.lookup id :=
    fun id hid => AList.lookup_insert_ne hid
  have hwaiting : ∀ other ∈ waiting m ch (write s (.putRetry job)), other = job ∨ other ∈ waiting m ch s := by
    intro other hother
    obtain ⟨⟨id, hid⟩, hfinal, habout⟩ := mem_waiting.mp hother
    by_cases hne : id = job.deliveryId
    · subst hne
      rw [hown] at hid
      exact .inl (Option.some.inj hid).symm
    · rw [hothers id hne] at hid
      exact .inr (mem_waiting.mpr ⟨⟨id, hid⟩, hfinal, habout⟩)
  refine ⟨⟨?_, hs.stamps, hs.sorted, hs.turns, hs.sent, ?_, hs.inOrder⟩, ?_⟩
  · intro id other hid
    by_cases hne : id = job.deliveryId
    · subst hne
      rw [hown] at hid
      obtain rfl : job = other := Option.some.inj hid
      exact ⟨rfl, hq, hj.keyed⟩
    · rw [hothers id hne] at hid
      exact hs.stored _ _ hid
  · intro other hother
    rcases hwaiting other hother with rfl | hold
    · exact (hj.held (mem_waiting.mp hother).2.2).congr rfl
    · exact (hs.held other hold).congr rfl
  · by_cases habout : about m ch job.notice
    · exact settled_of_waiting (mem_waiting.mpr ⟨⟨_, hown⟩, hj.unfinished, habout⟩)
    · refine (hj.settled habout).of_waiting rfl rfl fun other hother => ?_
      have hlook := hs.lookup_of_waiting hother
      obtain ⟨-, hfinal, habout'⟩ := mem_waiting.mp hother
      have hne := hs.ne_of_waiting hj.keyed habout hother
      exact mem_waiting.mpr ⟨⟨_, (hothers _ hne).trans hlook⟩, hfinal, habout'⟩

/-- Sound and settled: what holds between the events. -/
def Inv (m ch : String) (s : Store) : Prop := Sound m ch s ∧ Settled m ch s

theorem wp_deliver {α : Type} {ok : Store → Write → Prop} {channel : Channel} {id : DeliveryId} {payload : Payload}
    {subject text : String} {f : Outcome → Program α} {Q : Option α → NotifierWorld → Prop} {w : NotifierWorld}
    (h : ∀ outcome calls, (f outcome).wp write ok Q ⟨w.store, calls⟩) :
    (deliver channel id payload subject text >>= f).wp write ok Q w :=
  fun outcome => h outcome _

theorem wp_attempt {c : Config} {now : ℚ} {Q : Option Unit → NotifierWorld → Prop} {w : NotifierWorld}
    (hs : Sound m ch w.store) (hj : InHand m ch w.store job)
    (hQ : ∀ w' : NotifierWorld, Inv m ch w'.store → Q (some ()) w') :
    (attempt c job now).wp write (Fits m ch) Q w := by
  unfold attempt
  cases c.channel job.channelId with
  | none =>
    intro hfits _
    have hfinished := (finished_close hj.keyed .failed now w.store rfl rfl rfl rfl).2.1
    exact hQ _ ⟨hs.finished hfinished, hfinished.settled_gaveUp hs hj hfits⟩
  | some channel =>
    refine wp_deliver fun outcome calls => ?_
    split
    · -- Delivered: the outcome's record changes nothing of the order.
      have hs' := hs.delivered hj.held
      rw [wp_put_bind]
      refine fun _ => wp_finish (show Keyed job.tried from hj.keyed) fun w' hfinished => hQ w' ⟨hs'.finished hfinished, ?_⟩
      by_cases habout : about m ch job.notice
      · exact fun _ => hfinished.level (level_delivered hs hj habout)
      · exact hfinished.settled_other hs' (show Keyed job.tried from hj.keyed) habout (settled_delivered hs hj)
    · split
      · -- Queued for the next step of the ladder.
        refine fun _ => hQ _ (InHand.putRetry ?_ hs rfl)
        exact ⟨hj.keyed, hj.unfinished, fun habout => ⟨(hj.held habout).1, (hj.held habout).2⟩, hj.settled⟩
      · have hj' : InHand m ch w.store (job.tried.withError outcome.error) :=
          ⟨hj.keyed, hj.unfinished, fun habout => ⟨(hj.held habout).1, (hj.held habout).2⟩, hj.settled⟩
        rw [wp_put_bind]
        refine fun hfits => wp_finish hj'.keyed fun w' hfinished => hQ w' ⟨hs.finished hfinished, ?_⟩
        exact hfinished.settled_gaveUp hs hj' hfits

/-! ## One dispatch -/

/-- The store's parts the order depends on are the same. -/
structure Alike (s s' : Store) : Prop where
  retry : s'.retry = s.retry
  dispatched : s'.dispatched = s.dispatched
  delivered : s'.delivered = s.delivered

theorem Alike.waiting (h : Alike s s') : waiting m ch s' = NotifierOrdering.waiting m ch s := by
  rw [NotifierOrdering.waiting, h.retry, NotifierOrdering.waiting]

theorem Alike.settled (h : Alike s s') (hs : Settled m ch s) : Settled m ch s' := by
  rw [Settled, h.waiting, h.delivered, h.dispatched]
  exact hs

theorem Alike.sound (h : Alike s s') (hs : Sound m ch s)
    (hstamps : ∀ key stamp, s'.renotify.lookup key = some stamp → stamp.transitionId.monitorId = key.2) :
    Sound m ch s' where
  stored := by rw [h.retry]; exact hs.stored
  stamps := hstamps
  sorted := by rw [h.dispatched]; exact hs.sorted
  turns := by rw [h.dispatched]; exact hs.turns
  sent := by rw [h.dispatched, h.delivered]; exact hs.sent
  held := by
    rw [h.waiting]
    exact fun job hjob => (hs.held job hjob).congr h.dispatched
  inOrder := hs.inOrder.congr h.delivered

/-- While a recovery abandons the retries of its channel, the others stay settled. -/
def InvExcept (m ch monitorId channelId : String) (s : Store) : Prop :=
  Sound m ch s ∧ (¬(monitorId = m ∧ channelId = ch) → Settled m ch s)

theorem wp_abandonDownRetries {monitorId channelId : String} {now : ℚ} {Q : Option Unit → NotifierWorld → Prop}
    {w : NotifierWorld} (h : InvExcept m ch monitorId channelId w.store)
    (hQ : ∀ w' : NotifierWorld, InvExcept m ch monitorId channelId w'.store → Q (some ()) w') :
    (abandonDownRetries monitorId channelId now).wp write (Fits m ch) Q w := by
  unfold abandonDownRetries
  rw [wp_get_bind]
  refine wp_mono (fun a w' hw' => ?_) (wp_forEach (I := fun _ w => InvExcept m ch monitorId channelId w.store)
    (R := fun _ => False) (fun key keys w h => ?_) h)
  · cases a with
    | none => exact hw'.elim
    | some _ => exact hQ w' hw'
  · rw [wp_get_bind]
    cases hlook : w.store.retry.lookup key with
    | none => exact h
    | some job =>
      obtain ⟨rfl, -, hk⟩ := h.1.stored key job hlook
      refine wp_when (fun hdown => ?_) fun _ => h
      have hkeyed : Keyed (job.withError "abandoned: the monitor recovered") := hk
      refine wp_finish hkeyed fun w' hfinished => ⟨h.1.finished hfinished, fun hother => ?_⟩
      refine hfinished.settled_other h.1 hkeyed (fun habout => hother ?_) (h.2 hother)
      obtain ⟨-, -, hmonitor, hchannel⟩ : job.final.isNone ∧ job.direction = .down ∧ job.monitorId = some monitorId ∧
          job.channelId = channelId := by simpa [Job.downRetry] using hdown
      obtain ⟨hm, hc⟩ : job.monitorId = some m ∧ job.channelId = ch := of_decide_eq_true habout
      rw [hmonitor] at hm
      rw [hchannel] at hc
      exact ⟨Option.some.inj hm, hc⟩

theorem Sound.dispatched {notice : Notice} (hs : Sound m ch s) (hfits : Fits m ch s (.dispatched notice))
    (hturn : notice.turn = s.dispatched.length) : Sound m ch (write s (.dispatched notice)) where
  stored := hs.stored
  stamps := hs.stamps
  sorted := by
    refine List.pairwise_append.mpr ⟨hs.sorted, by simp, fun a ha b hb => ?_⟩
    obtain rfl : b = notice := by simpa using hb
    rw [hturn]
    exact hs.turns a ha
  turns := by
    intro a ha
    simp only [write, List.length_append, List.length_singleton]
    rcases List.mem_append.mp ha with hold | hnew
    · exact (hs.turns a hold).trans (Nat.lt_succ_self _)
    · obtain rfl : a = notice := by simpa using hnew
      omega
  sent := fun a ha habout => List.mem_append_left _ (hs.sent a ha habout)
  held := by
    intro job hjob
    obtain ⟨hd, hn⟩ := hs.held job hjob
    refine ⟨List.mem_append_left _ hd, fun a ha habout hle => ?_⟩
    rcases List.mem_append.mp ha with hold | hnew
    · exact hn a hold habout hle
    · obtain rfl : a = notice := by simpa using hnew
      exact (hfits habout job hjob).symm
  inOrder := hs.inOrder

theorem inHand_dispatched (hs : Sound m ch s) (hk : Keyed job) (hfinal : job.final = none)
    (hturn : job.turn = s.dispatched.length) (hsettled : ¬about m ch job.notice → Settled m ch s) :
    InHand m ch (write s (.dispatched job.notice)) job where
  keyed := hk
  unfinished := hfinal
  held := by
    intro _
    refine ⟨List.mem_append_right _ (by simp), fun a ha _ hle => ?_⟩
    rcases List.mem_append.mp ha with hold | hnew
    · have := hs.turns a hold
      omega
    · obtain rfl : a = job.notice := by simpa using hnew
      rfl
  settled := by
    intro habout hnone
    simp only [write, lastDirection_append, habout]
    exact hsettled habout hnone

theorem wp_recover {direction : Direction} {monitorId channelId : String} {now : ℚ}
    {Q : Option (Option ℚ) → NotifierWorld → Prop} {w : NotifierWorld} (h : Inv m ch w.store)
    (hQ : ∀ missed, ∀ w' : NotifierWorld, InvExcept m ch monitorId channelId w'.store → Q (some missed) w') :
    (recover direction monitorId channelId now).wp write (Fits m ch) Q w := by
  have hexcept : InvExcept m ch monitorId channelId w.store := ⟨h.1, fun _ => h.2⟩
  unfold recover
  split
  · refine wp_bind (wp_abandonDownRetries hexcept fun w' hw' => ?_)
    simp only [Option.elim, takeMissed]
    rw [wp_get_bind]
    refine wp_bind (wp_when (fun _ _ => ?_) fun _ => hQ _ _ hw')
    have halike : Alike w'.store (write w'.store (.deleteDownfail (some monitorId, channelId))) := ⟨rfl, rfl, rfl⟩
    exact hQ _ _ ⟨halike.sound hw'.1 hw'.1.stamps, fun htarget => halike.settled (hw'.2 htarget)⟩
  · exact hQ _ _ hexcept

theorem wp_dispatchTo {n : Notifier} {c : Config} {rule : Rule} {monitor : Monitor} {msg : Msg} {direction : Direction}
    {now : ℚ} {channelId : String} {Q : Option Unit → NotifierWorld → Prop} {w : NotifierWorld}
    (hmsg : msg.id.monitorId = monitor.id) (h : Inv m ch w.store)
    (hQ : ∀ w' : NotifierWorld, Inv m ch w'.store → Q (some ()) w') :
    (dispatchTo n c rule monitor msg direction now channelId).wp write (Fits m ch) Q w := by
  unfold dispatchTo
  refine wp_bind (wp_recover h fun missed w1 h1 => ?_)
  simp only [Option.elim]
  rw [wp_get_bind, wp_put_bind]
  intro hfits
  generalize hjob : newJob n rule monitor msg direction now channelId missed w1.store.dispatched.length = job at hfits ⊢
  have hk : Keyed job := by
    subst hjob
    exact ⟨congrArg some hmsg.symm, rfl⟩
  have hmonitor : job.monitorId = some monitor.id := by subst hjob; rfl
  have hchannel : job.channelId = channelId := by subst hjob; rfl
  have hfinal : job.final = none := by subst hjob; rfl
  have hturn : job.turn = w1.store.dispatched.length := by subst hjob; rfl
  -- Once the downs are abandoned, the channel itself need not be settled.
  have hsettled : ¬about m ch job.notice → Settled m ch w1.store := by
    intro habout
    refine h1.2 fun htarget => habout ?_
    simp [about, Job.notice, hmonitor, hchannel, htarget]
  exact wp_attempt (h1.1.dispatched hfits hturn) (inHand_dispatched h1.1 hk hfinal hturn hsettled) hQ

/-! ## What every program keeps -/

section Keeps

/-- The program keeps the invariant, if its dispatches and its giving up fit. -/
abbrev Kept (m ch : String) {α : Type} (p : Program α) : Prop := p.Keeps write (Fits m ch) (Inv m ch)

theorem kept_publish (key : String) (delivery : Delivery) : Kept m ch (publish key delivery) :=
  fun _ hw => wp_publish fun _ _ => hw

/-- A write under another key than `retry:` and `renotify:`. -/
theorem kept_write {x : Write} (halike : ∀ s, Alike s (write s x)) (hstamps : ∀ s, (write s x).renotify = s.renotify) :
    Kept m ch (.put x) := by
  refine keeps_put fun s hs _ => ?_
  refine ⟨(halike s).sound hs.1 ?_, (halike s).settled hs.2⟩
  rw [hstamps]
  exact hs.1.stamps

theorem kept_putCool (key : String × String × Direction) (at_ : ℚ) : Kept m ch (.put (.putCool key at_)) :=
  kept_write (fun _ => ⟨rfl, rfl, rfl⟩) fun _ => rfl

theorem kept_deleteCool (key : String × String × Direction) : Kept m ch (.put (.deleteCool key)) :=
  kept_write (fun _ => ⟨rfl, rfl, rfl⟩) fun _ => rfl

theorem kept_putFlap (monitorId : String) (flap : Flap) : Kept m ch (.put (.putFlap monitorId flap)) :=
  kept_write (fun _ => ⟨rfl, rfl, rfl⟩) fun _ => rfl

theorem kept_putRenotify {key : String × String} {stamp : Stamp} (hstamp : stamp.transitionId.monitorId = key.2) :
    Kept m ch (.put (.putRenotify key stamp)) := by
  refine keeps_put fun s hs _ => ?_
  have halike : Alike s (write s (.putRenotify key stamp)) := ⟨rfl, rfl, rfl⟩
  refine ⟨halike.sound hs.1 fun key' stamp' hlook => ?_, halike.settled hs.2⟩
  by_cases hkey : key' = key
  · subst hkey
    obtain rfl : stamp = stamp' := Option.some.inj ((AList.lookup_insert s.renotify).symm.trans hlook)
    exact hstamp
  · exact hs.1.stamps key' stamp' ((AList.lookup_insert_ne hkey).symm.trans hlook)

theorem kept_deleteRenotify (key : String × String) : Kept m ch (.put (.deleteRenotify key)) := by
  refine keeps_put fun s hs _ => ?_
  have halike : Alike s (write s (.deleteRenotify key)) := ⟨rfl, rfl, rfl⟩
  refine ⟨halike.sound hs.1 fun key' stamp' hlook => ?_, halike.settled hs.2⟩
  by_cases hkey : key' = key
  · subst hkey
    cases (AList.lookup_erase key' s.renotify).symm.trans hlook
  · exact hs.1.stamps key' stamp' ((AList.lookup_erase_ne hkey).symm.trans hlook)

variable {n : Notifier} {c : Config} {rule : Rule} {monitor : Monitor} {msg : Msg} {now : ℚ}

theorem kept_record (direction : Direction) (message : String) :
    Kept m ch (record rule monitor msg direction now message) := kept_publish _ _

theorem kept_dispatch {direction : Direction} {bypassCooldown : Bool} (hmsg : msg.id.monitorId = monitor.id) :
    Kept m ch (dispatch n c rule monitor msg direction now bypassCooldown) := by
  refine keeps_get_bind fun s _ => ?_
  dsimp only
  split
  · exact kept_record _ _
  · split
    · exact kept_record _ _
    · split
      · exact kept_record _ _
      · refine keeps_bind (keeps_forEach _ fun channelId _ => ?_) fun _ => ?_
        · exact fun _ hw => wp_dispatchTo hmsg hw fun _ hw' => hw'
        · refine keeps_bind (keeps_when fun _ => kept_putCool _ _) fun _ => ?_
          refine keeps_bind (keeps_when fun _ => kept_putRenotify hmsg) fun _ => ?_
          exact keeps_when fun _ => kept_deleteRenotify _

theorem kept_exitFlapping {orgId : String} {status : Status} {redispatch : Bool} :
    Kept m ch (exitFlapping n c monitor orgId now status redispatch) := by
  refine keeps_bind (keeps_forEach _ fun rule _ => ?_) fun _ => ?_
  · exact keeps_bind (kept_deleteCool _) fun _ => kept_deleteCool _
  · refine keeps_bind (kept_publish _ _) fun _ => keeps_when fun _ => ?_
    refine keeps_get_bind fun s _ => keeps_forEach _ fun rule _ => ?_
    exact kept_dispatch rfl

theorem kept_recordFlapping {t : TransitionMsg} : Kept m ch (recordFlapping c t monitor now) := by
  unfold recordFlapping
  cases directionOf t.from_ t.to_ with
  | none => exact keeps_pure ()
  | some direction => exact keeps_forEach _ fun rule _ => kept_record _ _

theorem kept_flapping {t : TransitionMsg} (ht : t.monitorId = monitor.id) : Kept m ch (flapping n c t monitor now) := by
  refine keeps_get_bind fun s _ => ?_
  dsimp only
  split
  · -- The edge that enters flapping.
    refine keeps_bind (kept_putFlap _ _) fun _ => keeps_bind (keeps_forEach _ fun rule _ => ?_) fun _ => keeps_pure _
    exact kept_dispatch ht
  · split
    · exact keeps_bind (kept_putFlap _ _) fun _ => keeps_bind kept_exitFlapping fun _ => keeps_pure _
    · refine keeps_bind (kept_putFlap _ _) fun _ => keeps_bind (keeps_when fun _ => ?_) fun _ => keeps_pure _
      exact kept_recordFlapping

theorem kept_handle (t : TransitionMsg) : Kept m ch (handle n c t now) := by
  have hid : t.monitorId = (monitorOf c t).id := (monitorOf_id c t).symm
  refine keeps_bind (keeps_when fun _ => ?_) fun _ => keeps_bind (kept_flapping hid) fun suppressed => ?_
  · exact keeps_get_bind fun s _ => keeps_forEach _ fun key _ => kept_deleteRenotify _
  · split
    · exact keeps_pure ()
    · cases directionOf t.from_ t.to_ with
      | none => exact keeps_pure ()
      | some direction => exact keeps_forEach _ fun rule _ => kept_dispatch hid

theorem kept_onTransition (t : TransitionMsg) : Kept m ch (onTransition n c t now) := by
  refine keeps_get_bind fun s _ => ?_
  split
  · exact keeps_pure ()
  · exact keeps_bind (kept_handle t) fun _ => kept_write (fun _ => ⟨rfl, rfl, rfl⟩) fun _ => rfl

theorem kept_sweep (monitorId : String) : Kept m ch (sweep n c monitorId now) := by
  refine keeps_get_bind fun s _ => ?_
  cases s.flap monitorId with
  | none => exact keeps_pure ()
  | some flap =>
    dsimp only
    split
    · refine keeps_bind (kept_putFlap _ _) fun _ => ?_
      cases c.monitor monitorId with
      | none => exact keeps_pure ()
      | some monitor => exact keeps_get_bind fun s _ => kept_exitFlapping
    · exact keeps_pure ()

theorem kept_renotify (key : String × String) : Kept m ch (NotifierPrograms.renotify n c key now) := by
  refine keeps_get_bind fun s hs => ?_
  split
  · next stamp rule monitor hstamp _ hmonitor =>
    have hid : stamp.transitionId.monitorId = key.2 := hs.1.stamps key stamp hstamp
    split
    · exact kept_deleteRenotify _
    · dsimp only
      split
      · exact keeps_pure ()
      · refine keeps_bind (kept_dispatch ?_) fun _ => kept_putRenotify hid
        exact hid.trans (monitor_id hmonitor).symm
  · exact kept_deleteRenotify _

theorem kept_onVerify (channelId orgId requestedAt : String) (requestId : Option String) :
    Kept m ch (onVerify c channelId orgId requestedAt requestId now) := by
  unfold onVerify
  cases c.channels.find? (·.id = channelId) with
  | none => exact keeps_pure ()
  | some channel => exact fun w hw => wp_deliver fun outcome calls => kept_publish _ _ _ hw

theorem kept_ruleAlert (entered : Bool) (value : Option ℚ) (transitionId : Option String) :
    Kept m ch (ruleAlert n c rule entered value now transitionId) := by
  refine keeps_get_bind fun s _ => ?_
  dsimp only
  split
  · exact keeps_pure ()
  · refine keeps_bind (keeps_forEach _ fun channelId _ => ?_) fun _ => keeps_when fun _ => kept_putCool _ _
    -- The alert is about no monitor, so whatever becomes of it leaves the channel as it is.
    refine keeps_get_bind fun s _ w hw => wp_attempt hw.1 ?_ fun w' hw' => hw'
    refine ⟨⟨rfl, rfl⟩, rfl, fun habout => ?_, fun _ => hw.2⟩
    simp [about, Job.notice] at habout

theorem kept_retryDue (key : DeliveryId) : Kept m ch (retryDue c key now) := by
  intro w hw
  unfold retryDue
  rw [wp_get_bind]
  cases hlook : w.store.retry.lookup key with
  | none => exact hw
  | some job =>
    obtain ⟨rfl, -, hk⟩ := hw.1.stored key job hlook
    dsimp only
    split
    · exact hw
    · refine wp_catch ?_
      split
      · next hfinal =>
        -- Only the outcome is published again; the job was not waiting.
        refine wp_publishFinal (fun _ => hw) (fun _ _ => hw) fun _ => ?_
        have hfinished := (finished_close hk .failed now w.store rfl rfl rfl rfl).2.1
        refine ⟨hw.1.finished hfinished, hfinished.settled hw.1 (fun other hother hid => ?_) hw.2⟩
        have hsame := hw.1.lookup_of_waiting hother
        rw [hid, hlook] at hsame
        obtain rfl : job = other := Option.some.inj hsame
        rw [(mem_waiting.mp hother).2.1] at hfinal
        cases hfinal
      · next hfinal =>
        have hfinal : job.final = none := by simpa using hfinal
        have hheld : about m ch job.notice → Held m ch w.store job :=
          fun habout => hw.1.held job (mem_waiting.mpr ⟨⟨_, hlook⟩, hfinal, habout⟩)
        exact wp_attempt hw.1 ⟨hk, hfinal, hheld, fun _ => hw.2⟩ fun w' hw' => hw'

theorem kept_program (n : Notifier) (e : Event) : Kept m ch (program n e) := by
  cases e with
  | transition c msg now => exact kept_onTransition msg
  | retry c key now => exact kept_retryDue key
  | sweep c monitorId now => exact kept_sweep monitorId
  | renotify c key now => exact kept_renotify key
  | verify c channelId orgId requestedAt requestId now => exact kept_onVerify channelId orgId requestedAt requestId
  | alert c rule entered value now transitionId => exact kept_ruleAlert entered value transitionId
  | saved monitorId st => exact kept_write (fun _ => ⟨rfl, rfl, rfl⟩) fun _ => rfl

end Keeps

theorem inv_empty (m ch : String) : Inv m ch empty := by
  refine ⟨⟨?_, ?_, .nil, ?_, ?_, ?_, .nil⟩, fun _ => rfl⟩
  · exact fun id job h => by cases h
  · exact fun key stamp h => by cases h
  · exact fun notice h => by cases h
  · exact fun notice h => by cases h
  · exact fun job h => by cases h

/-- One monitor, one rule with the default cooldown, one channel. -/
def homepage : Config where
  monitors := [{ id := "m", name := "Homepage", target := "https://example.com", orgId := "o" }]
  rules := [⟨"r", "o", "Homepage down", "uptime", "check:Homepage", { channelIds := ["c"] }⟩]
  channels := [⟨"c", "verified"⟩]

def plain : Notifier := ⟨"", fun _ => "", fun _ => none, fun _ => ""⟩

def goesDown (seq : ℕ) (now : ℚ) : Event :=
  .transition homepage ⟨"m", "o", seq, .up, .down, "timeout", now, [], 3⟩ now

def recovers (seq : ℕ) (now : ℚ) : Event :=
  .transition homepage ⟨"m", "o", seq, .down, .up, "", now, [], 0⟩ now

def queuedRetry (seq : ℕ) (direction : Direction) (now : ℚ) : Event :=
  .retry homepage (.sent (.transition ("m", seq)) "r" "c" direction) now

/-- Every publish succeeds and every send but the one that is call number `k`. -/
def failsAt (k n : ℕ) : (c : Call) → Reply c
  | .publish _ _ => true
  | .deliver _ _ _ _ _ => { delivered := n ≠ k, error := if n = k then "status 500" else "" }

end Upstat.NotifierOrdering
