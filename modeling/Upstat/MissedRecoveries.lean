import Upstat.FollowedWrites
import Upstat.NotifierJobs

/-! # Recoveries that tell of a missed down

A recovered message begins with a note when the last down of its channel failed. The note
is stored when a down fails and taken when a recovery is dispatched, so it is right as long
as a recovery comes between two downs; one that is skipped leaves an old note behind. -/
namespace Upstat.MissedRecoveries

open AwaitedPrograms NotifierPrograms NotifierEffects NotifierJobs GuardedRuns
open NotifierOrdering (Event NotifierWorld about init step program plain homepage goesDown recovers)

section Statement
variable (n : Notifier) (m ch : String)

/-- The text of a recovered message without the note. -/
def backUp : Payload → String
  | .monitor _ id name _ _ _ _ _ _ =>
    let text := name ++ " is back up."
    if n.web = "" then text else text ++ "\n" ++ n.web ++ "/dashboard/monitors/" ++ id
  | _ => ""

def missedLead : String := "(missed: was down since "

/-- What stands before the message itself begins with the note. -/
def prefixed (payload : Payload) (text : String) : Bool :=
  missedLead.toList.isPrefixOf (text.toList.take (text.toList.length - (backUp n payload).toList.length))

def isDown (notice : Notice) : Bool := about m ch notice ∧ notice.direction = .down

def isRecovered (notice : Notice) : Bool := about m ch notice ∧ notice.direction = .recovered

/-- The latest down that was dispatched on the channel. -/
def lastDown (s : Store) : Option Notice := (s.dispatched.filter (isDown m ch)).getLast?

/-- The downs of the channel that are still to be sent. -/
def pending (s : Store) : List Job := (s.retry.entries.map fun p => p.2).filter (Job.downRetry · m ch)

/-- The latest down is neither delivered nor still to be sent. -/
def LastFailed (s : Store) : Prop :=
  ∃ d ∈ lastDown m ch s, d ∉ s.delivered ∧ ∀ job ∈ pending m ch s, job.notice ≠ d

instance : DecidablePred (LastFailed m ch) := fun s => inferInstanceAs (Decidable (∃ d ∈ lastDown m ch s, _))

/-- The call sends a message that carries the note if and only if the latest down failed,
when no down is still to be sent. -/
def Tells (s : Store) : Option Call → Prop
  | some (.deliver _ _ payload _ text) => (prefixed n payload text ↔ LastFailed m ch s) ∧ pending m ch s = []
  | _ => False

/-- A recovered message that is dispatched is sent at once, and tells. -/
def Told (s : Store) : Write → Option Call → Prop
  | .dispatched notice, call => isRecovered m ch notice → Tells n m ch s call
  | _, _ => True

/-- No recovered message was dispatched after the down. -/
def Untold (s : Store) (d : Notice) : Prop := ∀ r ∈ s.dispatched, isRecovered m ch r → r.turn < d.turn

/-- A recovered message follows a delivered down or is the first after its down, a down is
delivered as the latest one when no note is stored, and none fails once the latest is
delivered. -/
def Fits (s : Store) : Write → Prop
  | .dispatched notice => isRecovered m ch notice → ∀ d ∈ lastDown m ch s, d ∈ s.delivered ∨ Untold m ch s d
  | .delivered notice => lastDown m ch s = some notice → s.downfail (some m, ch) = none
  | .putDownfail key _ => key = (some m, ch) → ∀ d ∈ lastDown m ch s, d ∉ s.delivered
  | _ => True

/-- A down is not retried once its channel is gone. -/
def ChannelKept (w : NotifierWorld) : Event → Prop
  | .retry c key _ => ∀ job ∈ w.store.retry.lookup key, job.downRetry m ch → (c.channel ch).isSome
  | _ => True

def EventFits (answer : ℕ → (c : Call) → Reply c) (w : NotifierWorld) (e : Event) : Prop :=
  (program n e).Meets write (Fits m ch) answer w ∧ ChannelKept m ch w e

/-- Every recovered message the event dispatches tells. -/
def EventTold (answer : ℕ → (c : Call) → Reply c) (w : NotifierWorld) (e : Event) : Prop :=
  (program n e).Follows write (Told n m ch) answer w

instance (s : Store) : (call : Option Call) → Decidable (Tells n m ch s call)
  | some (.deliver _ _ payload _ text) =>
    inferInstanceAs (Decidable ((prefixed n payload text ↔ LastFailed m ch s) ∧ pending m ch s = []))
  | some (.publish _ _) | none => isFalse id

instance (s : Store) : (x : Write) → (call : Option Call) → Decidable (Told n m ch s x call)
  | .dispatched notice, call => inferInstanceAs (Decidable (isRecovered m ch notice → Tells n m ch s call))
  | .handled _, _ | .putFlap _ _, _ | .putCool _ _, _ | .deleteCool _, _ | .putRenotify _ _, _ | .deleteRenotify _, _
  | .putRetry _, _ | .deleteRetry _, _ | .putDownfail _ _, _ | .deleteDownfail _, _ | .saved _ _, _ | .delivered _, _
  | .gaveUp _, _ => isTrue trivial

instance (s : Store) (d : Notice) : Decidable (Untold m ch s d) := inferInstanceAs (Decidable (∀ r ∈ s.dispatched, _))

instance (s : Store) : DecidablePred (Fits m ch s)
  | .dispatched notice =>
    inferInstanceAs (Decidable (isRecovered m ch notice → ∀ d ∈ lastDown m ch s, d ∈ s.delivered ∨ Untold m ch s d))
  | .delivered notice => inferInstanceAs (Decidable (lastDown m ch s = some notice → s.downfail (some m, ch) = none))
  | .putDownfail key _ => inferInstanceAs (Decidable (key = (some m, ch) → ∀ d ∈ lastDown m ch s, d ∉ s.delivered))
  | .handled _ | .putFlap _ _ | .putCool _ _ | .deleteCool _ | .putRenotify _ _ | .deleteRenotify _ | .putRetry _
  | .deleteRetry _ | .deleteDownfail _ | .saved _ _ | .gaveUp _ => isTrue trivial

instance (w : NotifierWorld) : DecidablePred (ChannelKept m ch w)
  | .retry c key _ => inferInstanceAs (Decidable (∀ job ∈ w.store.retry.lookup key, job.downRetry m ch → (c.channel ch).isSome))
  | .transition _ _ _ | .sweep _ _ _ | .renotify _ _ _ | .verify _ _ _ _ _ _ | .alert _ _ _ _ _ _ | .saved _ _ => isTrue trivial

instance (answer : ℕ → (c : Call) → Reply c) (w : NotifierWorld) : DecidablePred (EventFits n m ch answer w) := fun e =>
  inferInstanceAs (Decidable ((program n e).Meets write (Fits m ch) answer w ∧ ChannelKept m ch w e))

instance (answer : ℕ → (c : Call) → Reply c) (w : NotifierWorld) : DecidablePred (EventTold n m ch answer w) := fun e =>
  Prog.Follows.decidable write (Told n m ch) answer (program n e) w

end Statement

/-! ## The invariant -/

/-- The id tells whether a message is a down of the channel. -/
def downId (m ch : String) : DeliveryId → Bool
  | .sent msg _ channelId direction => msg.monitorId = m ∧ channelId = ch ∧ direction = .down
  | _ => false

/-- A job whose id tells what its message is, which was dispatched if it is a down. -/
structure Placed (m ch : String) (s : Store) (job : Job) : Prop where
  known : isDown m ch job.notice = downId m ch job.deliveryId
  dispatched : isDown m ch job.notice → job.notice ∈ s.dispatched

structure Sound (m ch : String) (s : Store) : Prop where
  stored : ∀ id job, s.retry.lookup id = some job → job.deliveryId = id ∧ job.queued = true ∧ Placed m ch s job
  turns : ∀ notice ∈ s.dispatched, notice.turn < s.dispatched.length
  sent : ∀ notice ∈ s.delivered, isDown m ch notice → notice ∈ s.dispatched
  noted : (s.downfail (some m, ch)).isSome → ∃ d ∈ lastDown m ch s, d ∉ s.delivered

/-- The latest down, if it is neither delivered nor told of, is noted, still to be sent, or in hand. -/
def Accounted (m ch : String) (s : Store) (hand : Notice → Prop) : Prop :=
  ∀ d ∈ lastDown m ch s, d ∉ s.delivered → Untold m ch s d →
    (s.downfail (some m, ch)).isSome ∨ (∃ job ∈ pending m ch s, job.notice = d) ∨ hand d

structure Inv (m ch : String) (s : Store) : Prop extends Sound m ch s where
  accounted : Accounted m ch s fun _ => False

/-- A delivery in the notifier's hands; what is stored under its id is no other's latest down. -/
structure InHand (m ch : String) (s : Store) (job : Job) : Prop extends Sound m ch s, Placed m ch s job where
  accounted : Accounted m ch s (· = job.notice)
  own : ∀ other, s.retry.lookup job.deliveryId = some other → other.downRetry m ch →
    lastDown m ch s = some other.notice → other.notice = job.notice

variable {n : Notifier} {m ch : String} {s s' : Store} {job : Job} {c : Config} {now : ℚ} {state : DeliveryState}

theorem downRetry_iff : job.downRetry m ch = true ↔ job.final = none ∧ isDown m ch job.notice = true := by
  simp only [Job.downRetry, isDown, decide_eq_true_eq, Option.isNone_iff_eq_none, Job.notice]
  simp only [about, decide_eq_true_eq]
  tauto

theorem mem_pending : job ∈ pending m ch s ↔ (∃ id, s.retry.lookup id = some job) ∧ job.downRetry m ch := by
  simp only [pending, List.mem_filter, List.mem_map]
  constructor
  · rintro ⟨⟨⟨id, job'⟩, hmem, rfl⟩, hdown⟩
    exact ⟨⟨id, AList.mem_lookup_iff.mpr hmem⟩, hdown⟩
  · rintro ⟨⟨id, hid⟩, hdown⟩
    exact ⟨⟨⟨id, job⟩, AList.mem_lookup_iff.mp hid, rfl⟩, hdown⟩

theorem Sound.lookup_of_pending (hs : Sound m ch s) (hjob : job ∈ pending m ch s) :
    s.retry.lookup job.deliveryId = some job := by
  obtain ⟨⟨id, hid⟩, -⟩ := mem_pending.mp hjob
  rw [(hs.stored id job hid).1, hid]

theorem lastDown_congr (h : s'.dispatched = s.dispatched) : lastDown m ch s' = lastDown m ch s := by
  rw [lastDown, lastDown, h]

theorem lastDown_dispatched (s : Store) (notice : Notice) :
    lastDown m ch (write s (.dispatched notice)) = if isDown m ch notice then some notice else lastDown m ch s := by
  simp only [lastDown, write, List.filter_append, List.filter_cons, List.filter_nil]
  split <;> simp

theorem mem_of_lastDown {d : Notice} (h : d ∈ lastDown m ch s) : d ∈ s.dispatched ∧ isDown m ch d = true :=
  List.mem_filter.mp (List.mem_of_getLast? h)

theorem exists_lastDown {notice : Notice} (hmem : notice ∈ s.dispatched) (hdown : isDown m ch notice = true) :
    ∃ d, d ∈ lastDown m ch s := by
  have hne : s.dispatched.filter (isDown m ch) ≠ [] := List.ne_nil_of_mem (List.mem_filter.mpr ⟨hmem, hdown⟩)
  exact ⟨_, List.getLast?_eq_some_getLast hne⟩

theorem Untold.congr {d : Notice} (h : s'.dispatched = s.dispatched) (hd : Untold m ch s' d) : Untold m ch s d := by
  rw [Untold, ← h]
  exact hd

theorem Placed.congr (hp : Placed m ch s job) (h : s'.dispatched = s.dispatched) : Placed m ch s' job :=
  ⟨hp.known, by rw [h]; exact hp.dispatched⟩

theorem Sound.notDelivered (hs : Sound m ch s) {notice : Notice} (hdown : isDown m ch notice = true)
    (hturn : notice.turn = s.dispatched.length) : notice ∉ s.delivered := by
  intro hmem
  have := hs.turns _ (hs.sent _ hmem hdown)
  omega

/-- What is stored under the id of a message that is no down is no down either. -/
theorem Sound.own (hs : Sound m ch s) (hp : Placed m ch s job) (hdown : ¬isDown m ch job.notice = true) {other : Job}
    (hlook : s.retry.lookup job.deliveryId = some other) : ¬other.downRetry m ch = true := by
  intro hother
  obtain ⟨hid, -, hplaced⟩ := hs.stored _ _ hlook
  apply hdown
  rw [hp.known, ← hid, ← hplaced.known]
  exact (downRetry_iff.mp hother).2

/-- A stored job may be taken in hand. -/
theorem Inv.inHand (h : Inv m ch s) {id : DeliveryId} (hlook : s.retry.lookup id = some job) : InHand m ch s job where
  toSound := h.toSound
  toPlaced := (h.stored id job hlook).2.2
  accounted := fun d hd hnot huntold => (h.accounted d hd hnot huntold).imp_right fun h => h.imp_right False.elim
  own := by
    intro other hother _ _
    rw [(h.stored id job hlook).1, hlook] at hother
    rw [Option.some.inj hother]

/-- So may one whose message is no down of the channel. -/
theorem Inv.inHand_other (h : Inv m ch s) (hdown : isDown m ch job.notice = false) (hid : downId m ch job.deliveryId = false) :
    InHand m ch s job := by
  have hnot : ¬isDown m ch job.notice = true := by rw [hdown]; decide
  have hplaced : Placed m ch s job := ⟨hdown.trans hid.symm, fun hd => absurd hd hnot⟩
  refine ⟨h.toSound, hplaced, fun d hd hmem huntold => ?_, fun other hother hretry => absurd hretry (h.own hplaced hnot hother)⟩
  exact (h.accounted d hd hmem huntold).imp_right fun h => h.imp_right False.elim

theorem InHand.congr {job' : Job} (hj : InHand m ch s job) (hid : job'.deliveryId = job.deliveryId)
    (hnotice : job'.notice = job.notice) : InHand m ch s job' where
  toSound := hj.toSound
  known := by rw [hid, hnotice]; exact hj.known
  dispatched := by rw [hnotice]; exact hj.dispatched
  accounted := by rw [hnotice]; exact hj.accounted
  own := by rw [hid, hnotice]; exact hj.own

/-! ## The end of a delivery -/

/-- What recording an outcome does: a down that failed is noted, and the job is gone, stays
with its outcome, or was not stored. -/
structure Finished (job : Job) (state : DeliveryState) (s s' : Store) : Prop where
  dispatched : s'.dispatched = s.dispatched
  delivered : s'.delivered = s.delivered
  downfail : s'.downfail = if state = .failed ∧ job.direction = .down
    then Function.update s.downfail (job.monitorId, job.channelId) (some job.since) else s.downfail
  others : ∀ id ≠ job.deliveryId, s'.retry.lookup id = s.retry.lookup id
  own : ∀ other, s'.retry.lookup job.deliveryId = some other →
    (other.final.isSome ∧ other.queued = true ∧ other.deliveryId = job.deliveryId ∧ other.notice = job.notice) ∨
      (job.queued = false ∧ s.retry.lookup job.deliveryId = some other)

theorem finished_delete (job : Job) (s : Store) : Finished job .delivered s (write s (.deleteRetry job.deliveryId)) where
  dispatched := rfl
  delivered := rfl
  downfail := (if_neg (by simp)).symm
  others := fun id hid => AList.lookup_erase_ne hid
  own := by
    intro other hother
    cases (AList.lookup_erase _ _).symm.trans hother

theorem wp_finish {Q : Option Unit → NotifierWorld → Prop} {w : NotifierWorld}
    (hQ : ∀ w' : NotifierWorld, Finished job state w.store w'.store →
      (state = .failed → job.direction = .down → Fits m ch w.store (.putDownfail (job.monitorId, job.channelId) job.since)) →
      Q (some ()) w') : (finish job state now).wp write (Fits m ch) Q w := by
  have closing : ∀ s1 : Store, ∀ calls, s1.dispatched = w.store.dispatched → s1.delivered = w.store.delivered →
      s1.downfail = (if state = .failed ∧ job.direction = .down
        then Function.update w.store.downfail (job.monitorId, job.channelId) (some job.since) else w.store.downfail) →
      s1.retry = w.store.retry →
      (state = .failed → job.direction = .down → Fits m ch w.store (.putDownfail (job.monitorId, job.channelId) job.since)) →
      ((publishFinal (job.close state now)).catch_ (.put (.putRetry (job.close state now).queue))).wp write
        (Fits m ch) Q ⟨s1, calls⟩ := by
    intro s1 calls hd hl hn hr hfits
    refine wp_catch (NotifierOrdering.wp_publishFinal (fun calls _ => ?_) (fun hq calls => ?_) fun calls => ?_)
    · refine hQ _ ⟨hd, hl, hn, fun id hid => ?_, fun other hother => ?_⟩ hfits
      · rw [← hr]
        exact AList.lookup_insert_ne hid
      · have hsame : (job.close state now).queue = other := Option.some.inj ((AList.lookup_insert _).symm.trans hother)
        subst hsame
        exact .inl ⟨rfl, rfl, rfl, rfl⟩
    · refine hQ _ ⟨hd, hl, hn, fun id _ => by rw [hr], fun other hother => .inr ⟨hq, ?_⟩⟩ hfits
      rw [← hr]
      exact hother
    · refine hQ _ ⟨hd, hl, hn, fun id hid => ?_, fun other hother => ?_⟩ hfits
      · rw [← hr]
        exact AList.lookup_erase_ne hid
      · cases (AList.lookup_erase _ _).symm.trans hother
  refine wp_bind (wp_when (fun hc hfits => ?_) fun hc => ?_)
  · exact closing _ _ rfl rfl (if_pos (of_decide_eq_true hc)).symm rfl fun _ _ => hfits
  · have hno : ¬(state = .failed ∧ job.direction = .down) := of_decide_eq_false hc
    exact closing _ _ rfl rfl (if_neg hno).symm rfl fun hfailed hdown => absurd ⟨hfailed, hdown⟩ hno

theorem Finished.sound (h : Finished job state s s') (hs : Sound m ch s) (hp : Placed m ch s job)
    (hfits : state = .failed → job.direction = .down → Fits m ch s (.putDownfail (job.monitorId, job.channelId) job.since)) :
    Sound m ch s' where
  stored := by
    intro id other hid
    by_cases hne : id = job.deliveryId
    · subst hne
      rcases h.own other hid with ⟨-, hq, hsame, hnotice⟩ | ⟨-, hold⟩
      · refine ⟨hsame, hq, Placed.congr ⟨?_, ?_⟩ h.dispatched⟩
        · rw [hnotice, hsame]
          exact hp.known
        · rw [hnotice]
          exact hp.dispatched
      · obtain ⟨hid', hq, hplaced⟩ := hs.stored _ _ hold
        exact ⟨hid', hq, hplaced.congr h.dispatched⟩
    · rw [h.others id hne] at hid
      obtain ⟨hid', hq, hplaced⟩ := hs.stored _ _ hid
      exact ⟨hid', hq, hplaced.congr h.dispatched⟩
  turns := by rw [h.dispatched]; exact hs.turns
  sent := by rw [h.dispatched, h.delivered]; exact hs.sent
  noted := by
    rw [h.downfail, lastDown_congr h.dispatched, h.delivered]
    split
    · next hfailed =>
      by_cases hkey : (job.monitorId, job.channelId) = (some m, ch)
      · intro _
        have hdown : isDown m ch job.notice = true := by
          obtain ⟨hm, hc⟩ := Prod.mk.inj hkey
          simp [isDown, about, Job.notice, hm, hc, hfailed.2]
        obtain ⟨d, hd⟩ := exists_lastDown (hp.dispatched hdown) hdown
        exact ⟨d, hd, hfits hfailed.1 hfailed.2 hkey d hd⟩
      · rw [Function.update_of_ne (Ne.symm hkey)]
        exact hs.noted
    · exact hs.noted

theorem Finished.note (h : Finished job state s s') (hnote : (s.downfail (some m, ch)).isSome) :
    (s'.downfail (some m, ch)).isSome := by
  rw [h.downfail]
  split
  · by_cases hkey : (some m, ch) = (job.monitorId, job.channelId)
    · rw [hkey, Function.update_self]
      rfl
    · rw [Function.update_of_ne hkey]
      exact hnote
  · exact hnote

/-- A down that failed is noted. -/
theorem Finished.noted (h : Finished job .failed s s') (hdown : isDown m ch job.notice = true) :
    (s'.downfail (some m, ch)).isSome := by
  obtain ⟨habout, hdirection⟩ : about m ch job.notice = true ∧ job.direction = .down := of_decide_eq_true hdown
  obtain ⟨hm, hc⟩ : job.monitorId = some m ∧ job.channelId = ch := of_decide_eq_true habout
  rw [h.downfail, if_pos ⟨rfl, hdirection⟩, hm, hc, Function.update_self]
  rfl

theorem Finished.pending_of_ne (h : Finished job state s s') (hs : Sound m ch s) {other : Job}
    (hother : other ∈ pending m ch s) (hne : other.deliveryId ≠ job.deliveryId) : other ∈ pending m ch s' :=
  mem_pending.mpr ⟨⟨_, (h.others _ hne).trans (hs.lookup_of_pending hother)⟩, (mem_pending.mp hother).2⟩

/-- The end of a delivery in hand: a down that did not fail was delivered. -/
theorem InHand.finished (hj : InHand m ch s job) (h : Finished job state s s')
    (hfits : state = .failed → job.direction = .down → Fits m ch s (.putDownfail (job.monitorId, job.channelId) job.since))
    (hend : isDown m ch job.notice → state = .failed ∨ job.notice ∈ s.delivered) : Inv m ch s' where
  toSound := h.sound hj.toSound hj.toPlaced hfits
  accounted := by
    intro d hd hnot huntold
    rw [lastDown_congr h.dispatched] at hd
    rw [h.delivered] at hnot
    by_cases hown : d = job.notice
    · subst hown
      have hdown := (mem_of_lastDown hd).2
      rcases hend hdown with rfl | hdelivered
      · exact .inl (h.noted hdown)
      · exact absurd hdelivered hnot
    · rcases hj.accounted d hd hnot (huntold.congr h.dispatched) with hnote | ⟨other, hother, hsame⟩ | heq
      · exact .inl (h.note hnote)
      · refine .inr (.inl ⟨other, h.pending_of_ne hj.toSound hother fun hid => hown ?_, hsame⟩)
        have hlook := hj.lookup_of_pending hother
        rw [hid] at hlook
        rw [← hsame]
        exact hj.own other hlook (mem_pending.mp hother).2 (hsame ▸ hd)
      · exact absurd heq hown

/-- Of a job that had ended, the outcome is published and the job is dropped. -/
theorem Inv.deleteFinal (h : Inv m ch s) {id : DeliveryId} (hlook : s.retry.lookup id = some job) (hfinal : job.final.isSome) :
    Inv m ch (write s (.deleteRetry job.deliveryId)) := by
  have hfinished := finished_delete job s
  have hid : job.deliveryId = id := (h.stored id job hlook).1
  refine ⟨hfinished.sound h.toSound (h.stored id job hlook).2.2 nofun, fun d hd hnot huntold => ?_⟩
  rcases h.accounted d hd hnot huntold with hnote | ⟨other, hother, hsame⟩ | hfalse
  · exact .inl hnote
  · refine .inr (.inl ⟨other, hfinished.pending_of_ne h.toSound hother fun heq => ?_, hsame⟩)
    have hown := h.lookup_of_pending hother
    rw [heq, hid, hlook] at hown
    obtain rfl : job = other := Option.some.inj hown
    rw [(downRetry_iff.mp (mem_pending.mp hother).2).1] at hfinal
    cases hfinal
  · exact hfalse.elim

/-! ## One attempt -/

theorem InHand.delivered (hj : InHand m ch s job) (hfits : Fits m ch s (.delivered job.notice)) :
    InHand m ch (write s (.delivered job.notice)) job where
  stored := fun id other hid => by
    obtain ⟨hid', hq, hplaced⟩ := hj.stored id other hid
    exact ⟨hid', hq, hplaced.congr rfl⟩
  turns := hj.turns
  sent := by
    intro notice hmem hdown
    rcases List.mem_append.mp hmem with hold | hnew
    · exact hj.sent notice hold hdown
    · obtain rfl : notice = job.notice := by simpa using hnew
      exact hj.dispatched hdown
  noted := by
    intro hnote
    obtain ⟨d, hd, hnot⟩ := hj.noted hnote
    refine ⟨d, hd, fun hmem => ?_⟩
    rcases List.mem_append.mp hmem with hold | hnew
    · exact hnot hold
    · obtain rfl : d = job.notice := by simpa using hnew
      have hnone : s.downfail (some m, ch) = none := hfits hd
      have hsome : (s.downfail (some m, ch)).isSome := hnote
      rw [hnone] at hsome
      cases hsome
  toPlaced := hj.toPlaced.congr rfl
  accounted := fun d hd hnot huntold => hj.accounted d hd (fun hmem => hnot (List.mem_append_left _ hmem)) huntold
  own := hj.own

/-- A delivery in hand is queued for the next step of the ladder. -/
theorem InHand.putRetry (hj : InHand m ch s job) (hq : job.queued = true) (hfinal : job.final = none) :
    Inv m ch (write s (.putRetry job)) := by
  have hown : (write s (.putRetry job)).retry.lookup job.deliveryId = some job := AList.lookup_insert _
  have hothers : ∀ id ≠ job.deliveryId, (write s (.putRetry job)).retry.lookup id = s.retry.lookup id :=
    fun id hid => AList.lookup_insert_ne hid
  refine ⟨⟨fun id other hid => ?_, hj.turns, hj.sent, hj.noted⟩, fun d hd hnot huntold => ?_⟩
  · by_cases hne : id = job.deliveryId
    · subst hne
      rw [hown] at hid
      obtain rfl : job = other := Option.some.inj hid
      exact ⟨rfl, hq, hj.toPlaced.congr rfl⟩
    · rw [hothers id hne] at hid
      obtain ⟨hid', hq', hplaced⟩ := hj.stored _ _ hid
      exact ⟨hid', hq', hplaced.congr rfl⟩
  · by_cases hhand : d = job.notice
    · subst hhand
      have hdown : job.downRetry m ch := downRetry_iff.mpr ⟨hfinal, (mem_of_lastDown hd).2⟩
      exact .inr (.inl ⟨job, mem_pending.mpr ⟨⟨_, hown⟩, hdown⟩, rfl⟩)
    · rcases hj.accounted d hd hnot huntold with hnote | ⟨other, hother, hsame⟩ | heq
      · exact .inl hnote
      · have hlook := hj.lookup_of_pending hother
        have hdown := (mem_pending.mp hother).2
        refine .inr (.inl ⟨other, mem_pending.mpr ⟨⟨other.deliveryId, ?_⟩, hdown⟩, hsame⟩)
        rw [hothers _ fun hid => hhand ?_, hlook]
        rw [hid] at hlook
        rw [← hsame]
        exact hj.own other hlook hdown (hsame ▸ hd)
      · exact absurd heq hhand

theorem wp_attempt {w : NotifierWorld} (hj : InHand m ch w.store job) (hfinal : job.final = none)
    (hkept : isDown m ch job.notice → (c.channel job.channelId).isSome) :
    (attempt c job now).wp write (Fits m ch) (fun _ w' => Inv m ch w'.store) w := by
  unfold attempt
  cases hchannel : c.channel job.channelId with
  | none =>
    intro _ _
    refine hj.finished (finished_delete job w.store) nofun fun hdown => ?_
    rw [hchannel] at hkept
    cases hkept hdown
  | some channel =>
    refine NotifierOrdering.wp_deliver fun outcome calls => ?_
    split
    · rw [wp_put_bind]
      intro hfits
      have hj' : InHand m ch (write w.store (.delivered job.notice)) job.tried := (hj.delivered hfits).congr rfl rfl
      exact wp_finish fun w' hfinished hdownfail =>
        hj'.finished hfinished hdownfail fun _ => .inr (List.mem_append_right _ (List.mem_singleton_self _))
    · split
      · have hj' : InHand m ch w.store ((job.tried.withError outcome.error).waitUntil
            (now + ladder.getD (job.tried.attempts - 1) 0)).queue := hj.congr rfl rfl
        exact fun _ => hj'.putRetry rfl hfinal
      · rw [wp_put_bind]
        have hj' : InHand m ch w.store (job.tried.withError outcome.error) := hj.congr rfl rfl
        exact fun _ => wp_finish fun w' hfinished hdownfail => hj'.finished hfinished hdownfail fun _ => .inl rfl

theorem told_of_delivery {monitorId : Option String} {direction : Direction} (s : Store) (x : Write) (call : Option Call)
    (h : OfDelivery monitorId direction x) : Told n m ch s x call := by
  cases x <;> first | exact trivial | exact h.elim

theorem grants_attempt {w : NotifierWorld} (hj : InHand m ch w.store job) (hfinal : job.final = none)
    (hkept : isDown m ch job.notice → (c.channel job.channelId).isSome) :
    (attempt c job now).grants write (Fits m ch) (Told n m ch) (fun _ w' => Inv m ch w'.store) w :=
  grants_of_only told_of_delivery (only_attempt c job now) (wp_attempt hj hfinal hkept)

/-! ## What a recovery does first -/

/-- While a recovery abandons the downs of its channel, those left are under the keys to come. -/
def LeftIn (m ch : String) (keys : List DeliveryId) (s : Store) : Prop :=
  ∀ job ∈ pending m ch s, job.deliveryId ∈ keys

theorem leftIn_keys (hs : Sound m ch s) : LeftIn m ch s.retry.keys s := fun job hjob =>
  AList.mem_keys.mp (AList.lookup_isSome.mp (by rw [hs.lookup_of_pending hjob]; rfl))

theorem LeftIn.tail {key : DeliveryId} {keys : List DeliveryId} (h : LeftIn m ch (key :: keys) s)
    (hkey : ∀ job ∈ pending m ch s, job.deliveryId ≠ key) : LeftIn m ch keys s := fun job hjob =>
  (List.mem_cons.mp (h job hjob)).resolve_left (hkey job hjob)

/-- A job that has ended is pending no longer, and none else becomes so. -/
theorem Finished.pending (h : Finished job state s s') (hq : job.queued = true) {other : Job} (hs' : Sound m ch s')
    (hother : other ∈ MissedRecoveries.pending m ch s') :
    other ∈ MissedRecoveries.pending m ch s ∧ other.deliveryId ≠ job.deliveryId := by
  have hlook := hs'.lookup_of_pending hother
  have hdown := (mem_pending.mp hother).2
  have hne : other.deliveryId ≠ job.deliveryId := by
    intro hid
    rw [hid] at hlook
    rcases h.own other hlook with ⟨hfinal, -⟩ | ⟨hnot, -⟩
    · rw [(downRetry_iff.mp hdown).1] at hfinal
      cases hfinal
    · rw [hq] at hnot
      cases hnot
  exact ⟨mem_pending.mpr ⟨⟨_, (h.others _ hne).symm.trans hlook⟩, hdown⟩, hne⟩

theorem wp_abandonDownRetries {monitorId channelId : String} {Q : Option Unit → NotifierWorld → Prop} {w : NotifierWorld}
    (h : Inv m ch w.store)
    (hQ : ∀ w' : NotifierWorld, Inv m ch w'.store → (monitorId = m ∧ channelId = ch → pending m ch w'.store = []) →
      Q (some ()) w') :
    (abandonDownRetries monitorId channelId now).wp write (Fits m ch) Q w := by
  unfold abandonDownRetries
  rw [wp_get_bind]
  refine wp_mono (fun a w' hw' => ?_) (wp_forEach
    (I := fun keys w => Inv m ch w.store ∧ (monitorId = m ∧ channelId = ch → LeftIn m ch keys w.store))
    (R := fun _ => False) (fun key keys w h => ?_) ⟨h, fun _ => leftIn_keys h.toSound⟩)
  · cases a with
    | none => exact hw'.elim
    | some _ =>
      refine hQ w' hw'.1 fun htarget => List.eq_nil_iff_forall_not_mem.mpr fun job hjob => ?_
      cases hw'.2 htarget job hjob
  · obtain ⟨hinv, hleft⟩ := h
    rw [wp_get_bind]
    cases hlook : w.store.retry.lookup key with
    | none =>
      refine ⟨hinv, fun htarget => (hleft htarget).tail fun job hjob hid => ?_⟩
      have hown := hinv.lookup_of_pending hjob
      rw [hid, hlook] at hown
      cases hown
    | some job =>
      obtain ⟨hid, hq, -⟩ := hinv.stored key job hlook
      refine wp_when (fun hdown => ?_) fun hnot => ⟨hinv, fun htarget => (hleft htarget).tail fun other hother hkey => ?_⟩
      · have hj : InHand m ch w.store (job.withError "abandoned: the monitor recovered") := (hinv.inHand hlook).congr rfl rfl
        refine wp_finish fun w' hfinished hdownfail => ?_
        have hinv' : Inv m ch w'.store := hj.finished hfinished hdownfail fun _ => .inl rfl
        refine ⟨hinv', fun htarget other hother => ?_⟩
        obtain ⟨hbefore, hne⟩ := hfinished.pending hq hinv'.toSound hother
        exact (List.mem_cons.mp (hleft htarget other hbefore)).resolve_left fun hkey => hne (hkey.trans hid.symm)
      · obtain ⟨rfl, rfl⟩ := htarget
        have hown := hinv.lookup_of_pending hother
        rw [hkey, hlook] at hown
        obtain rfl : job = other := Option.some.inj hown
        rw [(mem_pending.mp hother).2] at hnot
        cases hnot

/-- What a recovery finds on its channel once it has abandoned the downs and taken the note:
the note was there just when the latest down failed. -/
structure Asked (m ch : String) (missed : Option ℚ) (s : Store) : Prop extends Sound m ch s where
  nothing : pending m ch s = []
  taken : s.downfail (some m, ch) = none
  only : missed.isSome → ∃ d ∈ lastDown m ch s, d ∉ s.delivered
  all : ∀ d ∈ lastDown m ch s, d ∉ s.delivered → Untold m ch s d → missed.isSome

/-- The message recovers the monitor on the channel. -/
def Recovery (m ch : String) (direction : Direction) (monitorId channelId : String) : Prop :=
  direction = .recovered ∧ monitorId = m ∧ channelId = ch

/-- Taking another channel's note changes nothing of this one. -/
theorem Inv.deleteDownfail (h : Inv m ch s) {key : Option String × String} (hkey : key ≠ (some m, ch)) :
    Inv m ch (write s (.deleteDownfail key)) := by
  have hsame : (write s (.deleteDownfail key)).downfail (some m, ch) = s.downfail (some m, ch) :=
    Function.update_of_ne (Ne.symm hkey) _ _
  refine ⟨⟨fun id job hid => ?_, h.turns, h.sent, ?_⟩, ?_⟩
  · obtain ⟨hid', hq, hplaced⟩ := h.stored id job hid
    exact ⟨hid', hq, hplaced.congr rfl⟩
  · rw [hsame]
    exact h.noted
  · rw [Accounted, hsame]
    exact h.accounted

/-- Taking the channel's own note, when no down is still to be sent. -/
theorem Inv.take (h : Inv m ch s) (hnothing : pending m ch s = []) (htaken : s'.downfail (some m, ch) = none)
    (hd : s'.dispatched = s.dispatched) (hl : s'.delivered = s.delivered) (hr : s'.retry = s.retry) :
    Asked m ch (s.downfail (some m, ch)) s' where
  stored := by
    rw [hr]
    intro id job hid
    obtain ⟨hid', hq, hplaced⟩ := h.stored id job hid
    exact ⟨hid', hq, hplaced.congr hd⟩
  turns := by rw [hd]; exact h.turns
  sent := by rw [hd, hl]; exact h.sent
  noted := by
    rw [htaken]
    nofun
  nothing := by
    rw [pending, hr]
    exact hnothing
  taken := htaken
  only := by
    rw [lastDown_congr hd, hl]
    exact h.noted
  all := by
    rw [lastDown_congr hd, hl]
    intro d hlast hnot huntold
    rcases h.accounted d hlast hnot (huntold.congr hd) with hnote | ⟨job, hjob, -⟩ | hfalse
    · exact hnote
    · rw [hnothing] at hjob
      cases hjob
    · exact hfalse.elim

theorem wp_recover {direction : Direction} {monitorId channelId : String} {Q : Option (Option ℚ) → NotifierWorld → Prop}
    {w : NotifierWorld} (h : Inv m ch w.store)
    (hQ : ∀ missed, ∀ w' : NotifierWorld, (¬Recovery m ch direction monitorId channelId → Inv m ch w'.store) →
      (Recovery m ch direction monitorId channelId → Asked m ch missed w'.store) → Q (some missed) w') :
    (recover direction monitorId channelId now).wp write (Fits m ch) Q w := by
  unfold recover
  split
  · next hdirection =>
    refine wp_bind (wp_abandonDownRetries h fun w1 h1 hnothing => ?_)
    simp only [Option.elim, takeMissed]
    rw [wp_get_bind]
    refine wp_bind (wp_when (fun _ _ => ?_) fun hnone => ?_)
    · refine hQ _ _ (fun hother => h1.deleteDownfail fun hkey => hother ?_) fun hrecovery => ?_
      · obtain ⟨hm, hc⟩ := Prod.mk.inj hkey
        exact ⟨hdirection, Option.some.inj hm, hc⟩
      · obtain ⟨-, rfl, rfl⟩ := hrecovery
        exact h1.take (hnothing ⟨rfl, rfl⟩) (Function.update_self ..) rfl rfl rfl
    · refine hQ _ _ (fun _ => h1) fun hrecovery => ?_
      obtain ⟨-, rfl, rfl⟩ := hrecovery
      exact h1.take (hnothing ⟨rfl, rfl⟩) (by simpa using hnone) rfl rfl rfl
  · next hdirection => exact hQ _ _ (fun _ => h) fun hrecovery => absurd hrecovery.1 hdirection

/-! ## One dispatch -/

theorem Sound.dispatched (hs : Sound m ch s) {notice : Notice} (hturn : notice.turn = s.dispatched.length) :
    Sound m ch (write s (.dispatched notice)) where
  stored := by
    intro id job hid
    obtain ⟨hid', hq, hplaced⟩ := hs.stored id job hid
    exact ⟨hid', hq, hplaced.known, fun hdown => List.mem_append_left _ (hplaced.dispatched hdown)⟩
  turns := by
    intro a ha
    simp only [write, List.length_append, List.length_singleton]
    rcases List.mem_append.mp ha with hold | hnew
    · exact (hs.turns a hold).trans (Nat.lt_succ_self _)
    · obtain rfl : a = notice := by simpa using hnew
      omega
  sent := fun a ha hdown => List.mem_append_left _ (hs.sent a ha hdown)
  noted := by
    intro hnote
    rw [lastDown_dispatched]
    split
    · next hdown => exact ⟨notice, rfl, hs.notDelivered hdown hturn⟩
    · exact hs.noted hnote

/-- A message that is dispatched is in hand, and the latest down if it is one. -/
theorem Sound.inHand (hs : Sound m ch s) (hknown : isDown m ch job.notice = downId m ch job.deliveryId)
    (hturn : job.turn = s.dispatched.length) (haccounted : ¬isDown m ch job.notice → Accounted m ch
      (write s (.dispatched job.notice)) fun _ => False) : InHand m ch (write s (.dispatched job.notice)) job := by
  have hs' : Sound m ch (write s (.dispatched job.notice)) := hs.dispatched hturn
  have hplaced : Placed m ch (write s (.dispatched job.notice)) job :=
    ⟨hknown, fun _ => List.mem_append_right _ (List.mem_singleton_self _)⟩
  by_cases hdown : isDown m ch job.notice = true
  · have hlast : lastDown m ch (write s (.dispatched job.notice)) = some job.notice := by
      rw [lastDown_dispatched, if_pos hdown]
    refine ⟨hs', hplaced, fun d hd _ _ => .inr (.inr ?_), fun other _ _ hother => ?_⟩
    · exact Option.some.inj (hd.symm.trans hlast)
    · exact Option.some.inj (hother.symm.trans hlast)
  · refine ⟨hs', hplaced, fun d hd hnot huntold => ?_, fun other hlook hother _ => absurd hother (hs'.own hplaced hdown hlook)⟩
    exact (haccounted hdown d hd hnot huntold).imp_right fun h => h.imp_right False.elim

theorem Untold.before {d notice : Notice} (h : Untold m ch (write s (.dispatched notice)) d) : Untold m ch s d :=
  fun r hr => h r (List.mem_append_left _ hr)

theorem Inv.dispatched (h : Inv m ch s) {notice : Notice} (hdown : ¬isDown m ch notice) :
    Accounted m ch (write s (.dispatched notice)) fun _ => False := by
  intro d hd hnot huntold
  rw [lastDown_dispatched, if_neg hdown] at hd
  exact h.accounted d hd hnot huntold.before

/-- After a recovery every down before it is told of. -/
theorem Sound.recovered (hs : Sound m ch s) {notice : Notice} (hdown : ¬isDown m ch notice) (hrecovered : isRecovered m ch notice)
    (hturn : notice.turn = s.dispatched.length) : Accounted m ch (write s (.dispatched notice)) fun _ => False := by
  intro d hd _ huntold
  rw [lastDown_dispatched, if_neg hdown] at hd
  have hbefore := hs.turns d (mem_of_lastDown hd).1
  have hlater := huntold notice (List.mem_append_right _ (List.mem_singleton_self _)) hrecovered
  omega

variable {rule : Rule} {monitor : Monitor} {msg : Msg} {direction : Direction}

theorem prefixed_backUp (n : Notifier) (payload : Payload) : prefixed n payload (backUp n payload) = false := by
  rw [prefixed, Nat.sub_self, List.take_zero]
  decide

theorem prefixed_note (n : Notifier) (payload : Payload) (note : String) :
    prefixed n payload (missedLead ++ note ++ backUp n payload) = true := by
  rw [prefixed, String.toList_append, List.length_append, Nat.add_sub_cancel, List.take_left, String.toList_append]
  exact List.isPrefixOf_iff_prefix.mpr (List.prefix_append _ _)

theorem text_newJob (channelId : String) (missed : Option ℚ) (turn : ℕ) :
    (newJob n rule monitor msg .recovered now channelId missed turn).text =
      missed.elim (backUp n (newJob n rule monitor msg .recovered now channelId missed turn).payload) fun since =>
        "(missed: was down since " ++ n.iso since ++ ") " ++
          backUp n (newJob n rule monitor msg .recovered now channelId missed turn).payload := rfl

/-- A recovered message has the note before it just when a down was missed. -/
theorem prefixed_newJob (channelId : String) (missed : Option ℚ) (turn : ℕ) :
    prefixed n (newJob n rule monitor msg .recovered now channelId missed turn).payload
      (newJob n rule monitor msg .recovered now channelId missed turn).text = missed.isSome := by
  rw [text_newJob]
  cases missed with
  | none => exact prefixed_backUp n _
  | some since =>
    have hnote := prefixed_note n (newJob n rule monitor msg .recovered now channelId (some since) turn).payload
      (n.iso since ++ ") ")
    rw [← String.append_assoc] at hnote
    exact hnote

theorem Asked.lastFailed_iff {missed : Option ℚ} (h : Asked m ch missed s) {notice : Notice}
    (hfits : Fits m ch s (.dispatched notice)) (hrecovered : isRecovered m ch notice) :
    missed.isSome ↔ LastFailed m ch s := by
  constructor
  · intro hsome
    obtain ⟨d, hd, hnot⟩ := h.only hsome
    have hnone : ∀ job ∈ pending m ch s, job.notice ≠ d := by
      rw [h.nothing]
      exact fun job hjob => absurd hjob List.not_mem_nil
    exact ⟨d, hd, hnot, hnone⟩
  · rintro ⟨d, hd, hnot, -⟩
    exact h.all d hd hnot ((hfits hrecovered d hd).resolve_left hnot)

theorem firstCall_attempt {channel : Channel} (h : c.channel job.channelId = some channel) :
    (attempt c job now).firstCall = some (.deliver channel job.deliveryId job.payload job.subject job.text) := by
  unfold attempt
  rw [h]
  rfl

theorem isRecovered_newJob (channelId : String) (missed : Option ℚ) (turn : ℕ) :
    isRecovered m ch (newJob n rule monitor msg direction now channelId missed turn).notice = true ↔
      Recovery m ch direction monitor.id channelId := by
  simp only [isRecovered, decide_eq_true_eq, Recovery]
  simp only [about, decide_eq_true_eq, Job.notice, newJob, Option.some.injEq]
  tauto

/-- The id of a message tells its monitor, but for those of the renotify ladder. -/
theorem known_newJob (hmsg : direction ≠ .renotify → msg.id.monitorId = monitor.id) (channelId : String)
    (missed : Option ℚ) (turn : ℕ) :
    isDown m ch (newJob n rule monitor msg direction now channelId missed turn).notice =
      downId m ch (newJob n rule monitor msg direction now channelId missed turn).deliveryId := by
  rw [Bool.eq_iff_iff]
  simp only [isDown, decide_eq_true_eq, downId, newJob, Job.notice]
  simp only [about, decide_eq_true_eq, Option.some.injEq]
  by_cases hdown : direction = .down
  · rw [hmsg (by rw [hdown]; decide)]
    tauto
  · tauto

theorem told_none (s : Store) (x : Write) (call : Option Call) (h : Told n m ch s x none) : Told n m ch s x call := by
  cases x with
  | dispatched notice => exact fun hrecovered => (h hrecovered).elim
  | _ => trivial

theorem grants_dispatchTo {channelId : String} (hchannel : (c.channel channelId).isSome)
    (hmsg : direction ≠ .renotify → msg.id.monitorId = monitor.id) {w : NotifierWorld} (h : Inv m ch w.store) :
    (dispatchTo n c rule monitor msg direction now channelId).grants write (Fits m ch) (Told n m ch)
      (fun _ w' => Inv m ch w'.store) w := by
  unfold dispatchTo
  refine grants_bind told_none (grants_of_only told_of_delivery (only_recover monitor.id channelId)
    (wp_recover h fun missed w1 hother hasked => ?_))
  rw [Option.elim_some, grants_get_bind, grants_put_bind]
  intro hfits
  generalize hjob : newJob n rule monitor msg direction now channelId missed w1.store.dispatched.length = job at hfits ⊢
  have hknown : isDown m ch job.notice = downId m ch job.deliveryId := by
    rw [← hjob]
    exact known_newJob hmsg channelId missed _
  have hrecovered : isRecovered m ch job.notice = true ↔ Recovery m ch direction monitor.id channelId := by
    rw [← hjob]
    exact isRecovered_newJob channelId missed _
  have hturn : job.turn = w1.store.dispatched.length := by subst hjob; rfl
  have hfinal : job.final = none := by subst hjob; rfl
  have hkept : (c.channel job.channelId).isSome := by subst hjob; exact hchannel
  by_cases hrecovery : Recovery m ch direction monitor.id channelId
  · have h1 := hasked hrecovery
    refine ⟨fun hr => ?_, grants_attempt (h1.inHand hknown hturn fun hdown =>
      h1.recovered hdown (hrecovered.mpr hrecovery) hturn) hfinal fun _ => hkept⟩
    obtain ⟨channel, hsome⟩ := Option.isSome_iff_exists.mp hkept
    rw [firstCall_attempt hsome]
    refine ⟨?_, h1.nothing⟩
    obtain ⟨rfl, -⟩ := hrecovery
    rw [← h1.lastFailed_iff hfits hr, ← hjob, prefixed_newJob]
  · have h1 := hother hrecovery
    exact ⟨fun hr => absurd (hrecovered.mp hr) hrecovery, grants_attempt (h1.toSound.inHand hknown hturn h1.dispatched) hfinal
      fun _ => hkept⟩

/-! ## Every program -/

/-- The program's recovered messages tell and it keeps the invariant, if its writes fit. -/
abbrev Telling (n : Notifier) (m ch : String) (α : Type) (p : Program α) : Prop :=
  ∀ w, Inv m ch w.store → p.grants write (Fits m ch) (Told n m ch) (fun _ w' => Inv m ch w'.store) w

theorem Inv.congr (h : Inv m ch s) (hr : s'.retry = s.retry) (hn : s'.downfail = s.downfail) (hd : s'.dispatched = s.dispatched)
    (hl : s'.delivered = s.delivered) : Inv m ch s' := by
  obtain ⟨tx, flap, cool, renotify, retry, downfail, mon, dispatched, delivered⟩ := s'
  subst hr hn hd hl
  refine ⟨⟨fun id job hid => ?_, h.turns, h.sent, h.noted⟩, h.accounted⟩
  obtain ⟨hid', hq, hplaced⟩ := h.stored id job hid
  exact ⟨hid', hq, hplaced.congr rfl⟩

theorem telling_mark {x : Write} (hx : Marking x) : Telling n m ch Unit (.put x) := by
  intro w hw _
  refine ⟨?_, ?_⟩
  · cases x <;> first | exact trivial | exact hx.elim
  · cases x <;> first | exact hw.congr rfl rfl rfl rfl | exact hx.elim

theorem telling_publish (key : String) (delivery : Delivery) : Telling n m ch Unit (publish key delivery) := by
  intro w hw reply
  cases (reply : Bool) <;> exact hw

/-- A rule's alert is about no monitor, so whatever becomes of it leaves the downs as they are. -/
theorem telling_ruleAlertTo (entered : Bool) (value : Option ℚ) (tick : String ⊕ ℤ) (channelId : String) :
    Telling n m ch Unit (ruleAlertTo n c rule entered value now tick channelId) := by
  intro w hw
  unfold ruleAlertTo
  rw [grants_get_bind]
  dsimp only
  generalize hjob : Job.mk (DeliveryId.ruleAlert rule.id channelId entered tick) .. = job
  have hdown : isDown m ch job.notice = false := by
    subst hjob
    simp [isDown, about, Job.notice]
  have hid : downId m ch job.deliveryId = false := by
    subst hjob
    rfl
  refine grants_attempt (hw.inHand_other hdown hid) (by subst hjob; rfl) fun h => ?_
  rw [hdown] at h
  cases h

theorem telling_retryDue (key : DeliveryId) {w : NotifierWorld} (hw : Inv m ch w.store)
    (hkept : ∀ job ∈ w.store.retry.lookup key, job.downRetry m ch → (c.channel ch).isSome) :
    (retryDue c key now).grants write (Fits m ch) (Told n m ch) (fun _ w' => Inv m ch w'.store) w := by
  have hA : ∀ (s : Store) x call, (∃ monitorId direction, OfDelivery monitorId direction x) → Told n m ch s x call :=
    fun s x call ⟨_, _, hx⟩ => told_of_delivery s x call hx
  refine grants_of_only hA (only_retryDue key) ?_
  unfold retryDue
  rw [wp_get_bind]
  cases hlook : w.store.retry.lookup key with
  | none => exact hw
  | some job =>
    dsimp only
    split
    · exact hw
    · refine wp_catch ?_
      split
      · next hfinal =>
        exact NotifierOrdering.wp_publishFinal (fun _ => hw) (fun _ _ => hw) fun _ => hw.deleteFinal hlook hfinal
      · next hfinal =>
        have hfinal : job.final = none := by simpa using hfinal
        refine wp_mono (fun a w' hw' => ?_) (wp_attempt (hw.inHand hlook) hfinal fun hdown => ?_)
        · cases a <;> exact hw'
        · have hsome := hkept job hlook (downRetry_iff.mpr ⟨hfinal, hdown⟩)
          obtain ⟨habout, -⟩ : about m ch job.notice = true ∧ job.direction = .down := of_decide_eq_true hdown
          obtain ⟨-, hchannel⟩ : job.monitorId = some m ∧ job.channelId = ch := of_decide_eq_true habout
          rw [hchannel]
          exact hsome

theorem telling_dispatching (n : Notifier) (m ch : String) (c : Config) (now : ℚ) :
    Dispatching (fun direction monitor msg => direction ≠ .renotify → msg.id.monitorId = monitor.id) n c now
      (Telling n m ch) where
  toCompositional := compositional_grants told_none
  mark := fun _ hx => telling_mark hx
  report := fun key delivery _ => telling_publish key delivery
  dispatchTo := fun _ hchannel hmsg _ hw => grants_dispatchTo hchannel hmsg hw
  alertTo := fun entered value tick channelId => telling_ruleAlertTo entered value tick channelId
  kinds := fun _ _ _ _ hmsg _ => hmsg

theorem grants_program {w : NotifierWorld} {e : Event} (hw : Inv m ch w.store) (hkept : ChannelKept m ch w e) :
    (program n e).grants write (Fits m ch) (Told n m ch) (fun _ w' => Inv m ch w'.store) w := by
  cases e with
  | transition c msg now => exact (telling_dispatching n m ch c now).onTransition msg w hw
  | retry c key now => exact telling_retryDue key hw hkept
  | sweep c monitorId now => exact (telling_dispatching n m ch c now).sweep monitorId w hw
  | renotify c key now => exact (telling_dispatching n m ch c now).renotify (fun _ _ _ hne => absurd rfl hne) w hw
  | verify c channelId orgId requestedAt requestId now =>
    have hnone : (onVerify c channelId orgId requestedAt requestId now).Only fun _ => False :=
      NotifierRuns.only_onVerify channelId orgId requestedAt requestId
    exact grants_of_only (fun _ _ _ => False.elim) hnone (hnone.keeps (fun _ _ h => h.elim) w hw)
  | alert c rule entered value now transitionId =>
    exact (telling_dispatching n m ch c now).ruleAlert entered value transitionId w hw
  | saved monitorId st => exact telling_mark (x := .saved monitorId st) trivial w hw

theorem inv_empty (m ch : String) : Inv m ch empty where
  stored := fun _ _ h => by cases h
  turns := fun _ h => by cases h
  sent := fun _ h => by cases h
  noted := fun h => by cases h
  accounted := fun _ h => by cases h

/-- The first send to a channel fails for good, every later one succeeds. -/
def firstRefused : ℕ → (c : Call) → Reply c
  | _, .publish _ _ => true
  | k, .deliver _ _ _ _ _ => { delivered := k ≠ 0, retry := false }

/-- The homepage's config while its monitor is muted. -/
def muted : Config := { homepage with monitors := homepage.monitors.map fun monitor => { monitor with muted := true } }

/-- A down that fails, its recovery while muted, a down that is delivered, and its recovery. -/
def skippedRecovery : List Event :=
  [goesDown 1 0, .transition muted ⟨"m", "o", 2, .down, .up, "", 60, [], 0⟩ 60, goesDown 3 2000, recovers 4 2060]

end Upstat.MissedRecoveries
