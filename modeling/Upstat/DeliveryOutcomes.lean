import Upstat.FlappingEdges
import Upstat.NotifierJobs

/-! # Attempts and outcomes of a delivery

A redelivered transition enters its deliveries again under the same ids, unless its handling
had come to an end. Each time an id is entered it is good for one terminal outcome and for
one attempt and those of the ladder. -/
namespace Upstat.DeliveryOutcomes

open GuardedRuns AwaitedPrograms NotifierPrograms NotifierEffects NotifierOrdering NotifierJobs CommonDatabase
  MonitorMachine
open FlappingEdges (unpublished)

section Statement
variable (n : Notifier) (answer : ℕ → (c : Call) → Reply c) (id : DeliveryId)

/-- The call sends the delivery. -/
def isAttempt : (c : Call) × Reply c → Bool
  | ⟨.deliver _ id' _ _ _, _⟩ => id' = id
  | _ => false

/-- The call reports that the delivery is delivered, failed or abandoned, and is published. -/
def isOutcome : (c : Call) × Reply c → Bool
  | ⟨.publish _ delivery, reply⟩ => delivery.record.id = id ∧ delivery.state ≠ .suppressed ∧ (reply : Bool) = true
  | _ => false

def attemptsOf (calls : List ((c : Call) × Reply c)) : ℕ := calls.countP (isAttempt id)

def outcomesOf (calls : List ((c : Call) × Reply c)) : ℕ := calls.countP (isOutcome id)

/-- The world, and how often the delivery was entered: attempted other than by a retry pass. -/
structure Entered where
  world : NotifierWorld
  entered : ℕ

def start : Entered := ⟨init, 0⟩

def handle (s : Entered) (e : Event) : Entered where
  world := step n answer s.world e
  entered := match e with
    | .retry _ _ _ => s.entered
    | _ => s.entered + (attemptsOf id (step n answer s.world e).calls - attemptsOf id s.world.calls)

/-- No more terminal outcomes than entries, no more attempts than each entry is good for, and
no attempt where every entry has its outcome. -/
structure Accounted (s : Entered) : Prop where
  outcomes : outcomesOf id s.world.calls ≤ s.entered
  attempts : attemptsOf id s.world.calls ≤ (1 + ladder.length) * s.entered
  pending : ∀ before call after, s.world.calls = before ++ call :: after → isAttempt id call = true →
    outcomesOf id before < s.entered

/-- At most one terminal outcome and one and the ladder's attempts, and no attempt after the
outcome, however often the delivery is entered. -/
structure Single (s : Entered) : Prop where
  outcomes : outcomesOf id s.world.calls ≤ 1
  attempts : attemptsOf id s.world.calls ≤ 1 + ladder.length
  last : ∀ before call after, s.world.calls = before ++ call :: after → isAttempt id call = true → outcomesOf id before = 0

end Statement

variable {n : Notifier} {answer : ℕ → (c : Call) → Reply c} {id : DeliveryId} {entered : ℕ} {w : NotifierWorld}
  {c : Config} {now : ℚ} {job : Job} {state : DeliveryState} {ok : Store → Write → Prop}

/-! ## Calls and stored jobs -/

theorem attempts_append (calls : List ((c : Call) × Reply c)) (call : (c : Call) × Reply c) :
    attemptsOf id (calls ++ [call]) = attemptsOf id calls + if isAttempt id call then 1 else 0 := by
  rw [attemptsOf, List.countP_append, List.countP_singleton]
  rfl

theorem outcomes_append (calls : List ((c : Call) × Reply c)) (call : (c : Call) × Reply c) :
    outcomesOf id (calls ++ [call]) = outcomesOf id calls + if isOutcome id call then 1 else 0 := by
  rw [outcomesOf, List.countP_append, List.countP_singleton]
  rfl

/-- Whether a job of the delivery is stored. -/
def stored (id : DeliveryId) (s : Store) : ℕ := if (s.retry.lookup id).isSome then 1 else 0

/-- How many attempts the stored job is still good for. -/
def left (id : DeliveryId) (s : Store) : ℕ := (s.retry.lookup id).elim 0 fun job => 1 + ladder.length - job.attempts

structure Inv (id : DeliveryId) (entered : ℕ) (w : NotifierWorld) : Prop where
  waiting : AllWaiting w.store
  outcomes : outcomesOf id w.calls + stored id w.store ≤ entered
  attempts : attemptsOf id w.calls + left id w.store ≤ (1 + ladder.length) * entered
  pending : ∀ before call after, w.calls = before ++ call :: after → isAttempt id call = true →
    outcomesOf id before < entered

theorem inv_init : Inv id 0 init where
  waiting := allWaiting_empty
  outcomes := le_rfl
  attempts := le_rfl
  pending := fun before call after h => by
    simp [init] at h

theorem Inv.accounted {s : Entered} (h : Inv id s.entered s.world) : Accounted id s where
  outcomes := (Nat.le_add_right _ _).trans h.outcomes
  attempts := (Nat.le_add_right _ _).trans h.attempts
  pending := h.pending

/-- A write that leaves no job of the delivery that was not stored. -/
theorem Inv.put (h : Inv id entered w) {x : Write} (hwaiting : AllWaiting (write w.store x))
    (hlookup : (write w.store x).retry.lookup id = w.store.retry.lookup id ∨ (write w.store x).retry.lookup id = none) :
    Inv id entered (w.put write x) where
  waiting := hwaiting
  outcomes := by
    refine le_trans (Nat.add_le_add_left ?_ _) h.outcomes
    rcases hlookup with hsame | hnone
    · simp only [stored, World.put, hsame, le_refl]
    · simp [stored, World.put, hnone]
  attempts := by
    refine le_trans (Nat.add_le_add_left ?_ _) h.attempts
    rcases hlookup with hsame | hnone
    · simp only [left, World.put, hsame, le_refl]
    · simp [left, World.put, hnone]
  pending := h.pending

/-- An element of a list that grew by one is the new one or was there before. -/
theorem split_concat {α : Type} {xs before after : List α} {x y : α} (h : xs ++ [x] = before ++ y :: after) :
    before = xs ∧ y = x ∨ ∃ after', xs = before ++ y :: after' := by
  rcases List.eq_nil_or_concat after with rfl | ⟨after', z, rfl⟩
  · obtain ⟨rfl, hxy⟩ := List.append_inj' h rfl
    exact .inl ⟨rfl, (List.singleton_inj.mp hxy).symm⟩
  · rw [List.concat_eq_append, ← List.cons_append, ← List.append_assoc] at h
    exact .inr ⟨after', (List.append_inj' h rfl).1⟩

/-- A call that is neither an attempt nor an outcome of the delivery. -/
theorem Inv.called (h : Inv id entered w) {call : Call} {reply : Reply call} (hattempt : isAttempt id ⟨call, reply⟩ = false)
    (houtcome : isOutcome id ⟨call, reply⟩ = false) : Inv id entered (w.called call reply) where
  waiting := h.waiting
  outcomes := by
    rw [World.called, outcomes_append, houtcome]
    exact h.outcomes
  attempts := by
    rw [World.called, attempts_append, hattempt]
    exact h.attempts
  pending := by
    intro before call' after hcalls hcall'
    rcases split_concat hcalls with ⟨rfl, rfl⟩ | ⟨after', hbefore⟩
    · rw [hattempt] at hcall'
      cases hcall'
    · exact h.pending before call' after' hbefore hcall'

/-! ## Jobs in hand -/

/-- The job of the delivery that is in hand has an entry to end, its own stored one or one
that no stored job stands for, and the attempts that are left of it. -/
structure Held (id : DeliveryId) (entered : ℕ) (w : NotifierWorld) (job : Job) : Prop where
  waiting : AllWaiting w.store
  outcomes : outcomesOf id w.calls + 1 + (if job.queued then 0 else stored id w.store) ≤ entered
  attempts : attemptsOf id w.calls + (1 + ladder.length - job.attempts) ≤ (1 + ladder.length) * entered
  apart : job.queued = false → attemptsOf id w.calls + left id w.store ≤ (1 + ladder.length) * entered
  pending : ∀ before call after, w.calls = before ++ call :: after → isAttempt id call = true →
    outcomesOf id before < entered

/-- What holds while the job is in hand, whichever delivery it is of. -/
def InHand (id : DeliveryId) (entered : ℕ) (w : NotifierWorld) (job : Job) : Prop :=
  if job.deliveryId = id then Held id entered w job else Inv id entered w

theorem InHand.held (h : InHand id entered w job) (hid : job.deliveryId = id) : Held id entered w job := by
  rwa [InHand, if_pos hid] at h

theorem InHand.inv (h : InHand id entered w job) (hid : job.deliveryId ≠ id) : Inv id entered w := by
  rwa [InHand, if_neg hid] at h

theorem Held.inHand (h : Held id entered w job) (hid : job.deliveryId = id) : InHand id entered w job := by
  rwa [InHand, if_pos hid]

theorem Inv.inHand_other (h : Inv id entered w) (hid : job.deliveryId ≠ id) : InHand id entered w job := by
  rwa [InHand, if_neg hid]

/-- Put aside, the job leaves what holds without it. -/
theorem Held.inv (h : Held id entered w job) (hqueued : job.queued = false) : Inv id entered w := by
  have houtcomes := h.outcomes
  rw [hqueued] at houtcomes
  simp only [Bool.false_eq_true, if_false] at houtcomes
  exact ⟨h.waiting, by omega, h.apart hqueued, h.pending⟩

theorem InHand.waiting (h : InHand id entered w job) : AllWaiting w.store := by
  unfold InHand at h
  split at h
  · exact h.waiting
  · exact h.waiting

/-- A job that differs only in what is not counted. -/
theorem InHand.congr (h : InHand id entered w job) {job' : Job} (hid : job'.deliveryId = job.deliveryId)
    (hattempts : job'.attempts = job.attempts) (hqueued : job'.queued = job.queued) : InHand id entered w job' := by
  unfold InHand at h ⊢
  rw [hid]
  split at h
  · next heq =>
    rw [if_pos heq]
    exact ⟨h.waiting, by rw [hqueued]; exact h.outcomes, by rw [hattempts]; exact h.attempts,
      fun hq => h.apart (hqueued ▸ hq), h.pending⟩
  · next hne => rwa [if_neg hne]

/-- A write that concerns no retry. -/
theorem InHand.put (h : InHand id entered w job) {x : Write} (hx : (write w.store x).retry = w.store.retry) :
    InHand id entered (w.put write x) job := by
  have hwaiting : AllWaiting (write w.store x) := fun id' other hother => h.waiting id' other (hx ▸ hother)
  unfold InHand at h ⊢
  split at h
  · next heq =>
    rw [if_pos heq]
    refine ⟨hwaiting, ?_, h.attempts, ?_, h.pending⟩
    · rw [World.put, stored, hx]
      exact h.outcomes
    · rw [World.put, left, hx]
      exact h.apart
  · next hne =>
    rw [if_neg hne]
    exact h.put hwaiting (.inl (by rw [hx]))

theorem InHand.putRetry (h : InHand id entered w job) (hjob : Waiting job.queue) :
    Inv id entered (w.put write (.putRetry job.queue)) := by
  by_cases hid : job.deliveryId = id
  · have hheld := h.held hid
    have hlookup : (write w.store (.putRetry job.queue)).retry.lookup id = some job.queue := by
      subst hid
      exact AList.lookup_insert _
    refine ⟨hheld.waiting.putRetry hjob, ?_, ?_, hheld.pending⟩
    · rw [World.put, stored, hlookup]
      exact (Nat.le_add_right _ _).trans hheld.outcomes
    · rw [World.put, left, hlookup]
      exact hheld.attempts
  · refine (h.inv hid).put ((h.inv hid).waiting.putRetry hjob) (.inl ?_)
    exact AList.lookup_insert_ne (Ne.symm hid)

theorem Inv.deleteRetry (h : Inv id entered w) (id' : DeliveryId) : Inv id entered (w.put write (.deleteRetry id')) := by
  refine h.put (h.waiting.deleteRetry id') ?_
  by_cases hid : id = id'
  · subst hid
    exact .inr (AList.lookup_erase _ _)
  · exact .inl (AList.lookup_erase_ne hid)

/-- A stored job is in hand. -/
theorem Inv.inHand (h : Inv id entered w) {key : DeliveryId} (hjob : w.store.retry.lookup key = some job) :
    InHand id entered w job := by
  obtain ⟨hkey, hwaiting⟩ := h.waiting key job hjob
  unfold InHand
  split
  · next hid =>
    rw [← hkey, hid] at hjob
    have houtcomes := h.outcomes
    have hattempts := h.attempts
    rw [stored, hjob, Option.isSome_some, if_pos rfl] at houtcomes
    rw [left, hjob, Option.elim_some] at hattempts
    refine ⟨h.waiting, by rw [hwaiting.queued]; exact houtcomes, hattempts, fun hq => ?_, h.pending⟩
    rw [hwaiting.queued] at hq
    cases hq
  · exact h

/-! ## Ending a delivery -/

/-- The outcome is published, and a stored job deleted. -/
theorem Held.reported (h : Held id entered w job) {call : Call} {reply : Reply call} (hattempt : isAttempt id ⟨call, reply⟩ = false)
    (hid : job.deliveryId = id) :
    Inv id entered (if job.queued then (w.called call reply).put write (.deleteRetry job.deliveryId) else w.called call reply) := by
  have hcount : attemptsOf id (w.called call reply).calls = attemptsOf id w.calls := by
    rw [World.called, attempts_append, hattempt]
    rfl
  have houtcomes : outcomesOf id (w.called call reply).calls ≤ outcomesOf id w.calls + 1 := by
    rw [World.called, outcomes_append]
    refine Nat.add_le_add_left ?_ _
    split <;> decide
  have hpending : ∀ before call' after, (w.called call reply).calls = before ++ call' :: after → isAttempt id call' = true →
      outcomesOf id before < entered := by
    intro before call' after hcalls hcall'
    rcases split_concat hcalls with ⟨rfl, rfl⟩ | ⟨after', hbefore⟩
    · rw [hattempt] at hcall'
      cases hcall'
    · exact h.pending before call' after' hbefore hcall'
  have hentry := h.outcomes
  cases hqueued : job.queued with
  | true =>
    have hgone : ((w.called call reply).put write (.deleteRetry job.deliveryId)).store.retry.lookup id = none := by
      subst hid
      exact AList.lookup_erase _ _
    refine ⟨h.waiting.deleteRetry _, ?_, ?_, hpending⟩
    · rw [if_pos rfl, stored, hgone]
      exact houtcomes.trans ((Nat.le_add_right _ _).trans hentry)
    · rw [if_pos rfl, left, hgone]
      exact hcount.trans_le ((Nat.le_add_right _ _).trans h.attempts)
  | false =>
    rw [hqueued] at hentry
    refine ⟨h.waiting, ?_, ?_, hpending⟩
    · exact (Nat.add_le_add_right houtcomes _).trans hentry
    · exact (Nat.add_le_add_right hcount.le _).trans (h.apart hqueued)

/-- A report that is not published changes nothing. -/
theorem Held.unreported (h : Held id entered w job) {call : Call} {reply : Reply call} (hattempt : isAttempt id ⟨call, reply⟩ = false)
    (houtcome : isOutcome id ⟨call, reply⟩ = false) : Held id entered (w.called call reply) job where
  waiting := h.waiting
  outcomes := by
    rw [World.called, outcomes_append, houtcome]
    exact h.outcomes
  attempts := by
    rw [World.called, attempts_append, hattempt]
    exact h.attempts
  apart := by
    rw [World.called, attempts_append, hattempt]
    exact h.apart
  pending := by
    intro before call' after hcalls hcall'
    rcases split_concat hcalls with ⟨rfl, rfl⟩ | ⟨after', hbefore⟩
    · rw [hattempt] at hcall'
      cases hcall'
    · exact h.pending before call' after' hbefore hcall'

theorem InHand.called (h : InHand id entered w job) {call : Call} {reply : Reply call} (hattempt : isAttempt id ⟨call, reply⟩ = false)
    (houtcome : isOutcome id ⟨call, reply⟩ = false) : InHand id entered (w.called call reply) job := by
  unfold InHand at h ⊢
  split at h
  · next hid =>
    rw [if_pos hid]
    exact h.unreported hattempt houtcome
  · next hid =>
    rw [if_neg hid]
    exact h.called hattempt houtcome

/-- Reporting the outcome of a job ends its entry, unless the report is not published. -/
theorem wp_publishFinal_inv (h : InHand id entered w job) (hmade : Made job) {final : Final} (hfinal : job.final = some final) :
    (publishFinal job).wp write ok (fun a w' => attemptsOf id w'.calls = attemptsOf id w.calls ∧
      if a = none then InHand id entered w' job ∧ (Inv id entered w → Inv id entered w') else Inv id entered w') w := by
  unfold publishFinal
  rw [hfinal]
  intro reply
  have hattempt : ∀ r : Bool, isAttempt id ⟨.publish job.key ⟨job.record, final.state, job.attempts, final.at_⟩, r⟩ = false :=
    fun _ => rfl
  have hcount : ∀ r : Bool, attemptsOf id
      (w.called (.publish job.key ⟨job.record, final.state, job.attempts, final.at_⟩) r).calls = attemptsOf id w.calls := by
    intro r
    rw [World.called, attempts_append, hattempt]
    rfl
  cases hreply : (reply : Bool) with
  | false =>
    have houtcome : isOutcome id ⟨.publish job.key ⟨job.record, final.state, job.attempts, final.at_⟩, false⟩ = false := by
      simp [isOutcome]
    exact ⟨hcount false, h.called (hattempt false) houtcome, fun hinv => hinv.called (hattempt false) houtcome⟩
  | true =>
    by_cases hid : job.deliveryId = id
    · have hreported := (h.held hid).reported (hattempt true) hid
      cases hqueued : job.queued with
      | true =>
        rw [hqueued, if_pos rfl] at hreported
        exact fun _ => ⟨hcount true, hreported⟩
      | false =>
        rw [hqueued] at hreported
        exact ⟨hcount true, hreported⟩
    · have houtcome : isOutcome id ⟨.publish job.key ⟨job.record, final.state, job.attempts, final.at_⟩, true⟩ = false := by
        simp [isOutcome, hmade.reported, hid]
      have hcalled := (h.inv hid).called (hattempt true) houtcome
      exact wp_when (fun _ _ => ⟨hcount true, hcalled.deleteRetry _⟩) fun _ => ⟨hcount true, hcalled⟩

/-- A job that ends, however its report fares. -/
theorem wp_finish_inv (h : InHand id entered w job) (hclosed : Waiting (job.close state now).queue) :
    (finish job state now).wp write ok (fun _ w' => attemptsOf id w'.calls = attemptsOf id w.calls ∧ Inv id entered w') w := by
  have hmade : Made (job.close state now) := ⟨hclosed.reported, hclosed.channel, hclosed.about⟩
  have hend : ∀ w1 : NotifierWorld, attemptsOf id w1.calls = attemptsOf id w.calls → InHand id entered w1 job →
      ((publishFinal (job.close state now)).catch_ (.put (.putRetry (job.close state now).queue)) : Program Unit).wp write ok
        (fun _ w' => attemptsOf id w'.calls = attemptsOf id w.calls ∧ Inv id entered w') w1 := by
    intro w1 hcount h1
    have hhand : InHand id entered w1 (job.close state now) := h1.congr rfl rfl rfl
    refine wp_catch (wp_mono (fun a w2 h2 => ?_) (wp_publishFinal_inv hhand hmade rfl))
    cases a with
    | some _ => exact ⟨h2.1.trans hcount, h2.2⟩
    | none => exact fun _ => ⟨h2.1.trans hcount, InHand.putRetry h2.2.1 hclosed⟩
  exact wp_bind (wp_when (fun _ _ => hend _ rfl (h.put rfl)) fun _ => hend w rfl h)

/-! ## One attempt -/

/-- The attempt is made for an entry that has not ended. -/
theorem Held.attempted (h : Held id entered w job) (htries : job.attempts ≤ ladder.length) (call : Call) (reply : Reply call)
    (hattempt : isAttempt id ⟨call, reply⟩ = true)
    (hapart : job.queued = false → attemptsOf id w.calls + 1 + left id w.store ≤ (1 + ladder.length) * entered) :
    attemptsOf id (w.called call reply).calls = attemptsOf id w.calls + 1 ∧ Held id entered (w.called call reply) job.tried := by
  have houtcome : isOutcome id ⟨call, reply⟩ = false := by
    cases call with
    | publish key delivery => cases hattempt
    | deliver channel id' payload subject text => rfl
  have hcount : attemptsOf id (w.called call reply).calls = attemptsOf id w.calls + 1 := by
    rw [World.called, attempts_append, hattempt]
    rfl
  have houtcomes : outcomesOf id (w.called call reply).calls = outcomesOf id w.calls := by
    rw [World.called, outcomes_append, houtcome]
    rfl
  refine ⟨hcount, h.waiting, ?_, ?_, ?_, ?_⟩
  · rw [houtcomes]
    exact h.outcomes
  · have hbudget := h.attempts
    have htried : job.tried.attempts = job.attempts + 1 := rfl
    rw [hcount, htried]
    omega
  · intro hqueued
    rw [hcount]
    exact hapart hqueued
  · intro before call' after hcalls hcall'
    rcases split_concat hcalls with ⟨rfl, -⟩ | ⟨after', hbefore⟩
    · have hentry := h.outcomes
      omega
    · exact h.pending before call' after' hbefore hcall'

/-- An attempt counts for its delivery, unless the channel is gone. -/
theorem wp_attempt_inv (hopen : Open job) {entered' : ℕ} (hle : entered ≤ entered') (h : Inv id entered w)
    (hheld : job.deliveryId = id → Held id entered' w job)
    (hapart : job.deliveryId = id → job.queued = false →
      attemptsOf id w.calls + 1 + left id w.store ≤ (1 + ladder.length) * entered') :
    (attempt c job now).wp write ok (fun _ w' => attemptsOf id w'.calls = attemptsOf id w.calls ∧ Inv id entered w' ∨
      attemptsOf id w'.calls = attemptsOf id w.calls + 1 ∧ Inv id entered' w') w := by
  unfold attempt
  cases c.channel job.channelId with
  | none => exact fun _ _ => .inl ⟨rfl, Inv.deleteRetry (h.put (x := .gaveUp job) h.waiting (.inl rfl)) _⟩
  | some channel =>
    refine wp_sent fun outcome => ?_
    -- Whichever way the attempt went, the job is in hand with one attempt more.
    obtain ⟨count, entered₁, hcase, hhand⟩ : ∃ count entered₁,
        (count = attemptsOf id w.calls ∧ entered₁ = entered ∨ count = attemptsOf id w.calls + 1 ∧ entered₁ = entered') ∧
          attemptsOf id (w.called (.deliver channel job.deliveryId job.payload job.subject job.text) outcome).calls = count ∧
          InHand id entered₁ (w.called (.deliver channel job.deliveryId job.payload job.subject job.text) outcome) job.tried := by
      by_cases hid : job.deliveryId = id
      · have hattempted := (hheld hid).attempted hopen.attempts (.deliver channel job.deliveryId job.payload job.subject job.text)
          outcome (by simp [isAttempt, hid]) (hapart hid)
        exact ⟨_, entered', .inr ⟨rfl, rfl⟩, hattempted.1, hattempted.2.inHand hid⟩
      · have hattempt : isAttempt id ⟨.deliver channel job.deliveryId job.payload job.subject job.text, outcome⟩ = false := by
          simp [isAttempt, hid]
        refine ⟨_, entered, .inl ⟨rfl, rfl⟩, ?_, ?_⟩
        · rw [World.called, attempts_append, hattempt]
          rfl
        · exact (h.called hattempt rfl).inHand_other hid
    have hfinal : ∀ w' : NotifierWorld, attemptsOf id w'.calls = count → Inv id entered₁ w' →
        attemptsOf id w'.calls = attemptsOf id w.calls ∧ Inv id entered w' ∨
          attemptsOf id w'.calls = attemptsOf id w.calls + 1 ∧ Inv id entered' w' := by
      intro w' hcount' h'
      rcases hcase with ⟨hc, rfl⟩ | ⟨hc, rfl⟩
      · exact .inl ⟨hcount'.trans hc, h'⟩
      · exact .inr ⟨hcount'.trans hc, h'⟩
    obtain ⟨hcount, hhand⟩ := hhand
    split
    · rw [wp_put_bind]
      refine fun _ => wp_mono (fun a w' hw' => hfinal w' (hw'.1.trans hcount) hw'.2)
        (wp_finish_inv ?_ (hopen.tried_closed (by decide) now))
      exact hhand.put rfl
    · split
      · next hmore =>
        refine fun _ => hfinal _ hcount ?_
        exact InHand.putRetry (InHand.congr hhand rfl rfl rfl) (hopen.requeued hmore.2 _ _)
      · rw [wp_put_bind]
        refine fun _ => wp_mono (fun a w' hw' => hfinal w' (hw'.1.trans hcount) hw'.2)
          (wp_finish_inv ?_ ((hopen.withError outcome.error).tried_closed (by decide) now))
        have herror : InHand id entered₁ (w.called (.deliver channel job.deliveryId job.payload job.subject job.text) outcome)
            (job.tried.withError outcome.error) := hhand.congr rfl rfl rfl
        exact herror.put rfl

/-! ## Whole programs -/

theorem wp_abandon_inv (h : Inv id entered w) (m ch : String) :
    (abandonDownRetries m ch now).wp write ok (fun _ w' => attemptsOf id w'.calls = attemptsOf id w.calls ∧ Inv id entered w') w := by
  have hkept : (abandonDownRetries m ch now).Preserves write ok fun w' =>
      attemptsOf id w'.calls = attemptsOf id w.calls ∧ Inv id entered w' := by
    refine compositional_preserves.bind compositional_preserves.get fun s =>
      compositional_preserves.forEach _ fun key _ w1 h1 => ?_
    rw [wp_get_bind]
    cases hjob : w1.store.retry.lookup key with
    | none => exact h1
    | some job =>
      refine wp_when (fun hdown => ?_) fun _ => h1
      have hfinal : job.final = none := by simpa using (of_decide_eq_true hdown).1
      have hopen := ((h1.2.waiting key job hjob).2.open hfinal).withError "abandoned: the monitor recovered"
      refine wp_mono (fun a w2 h2 => ⟨h2.1.trans h1.1, h2.2⟩) (wp_finish_inv ?_ (hopen.closed (by decide) now))
      exact (h1.2.inHand hjob).congr rfl rfl rfl
  exact hkept w ⟨rfl, h⟩

/-- The invariant where every attempt since `count` is a new entry. -/
def Entering (id : DeliveryId) (entered count : ℕ) (w : NotifierWorld) : Prop :=
  count ≤ attemptsOf id w.calls ∧ Inv id (entered + (attemptsOf id w.calls - count)) w

theorem Entering.same {count : ℕ} (h : Entering id entered count w) {w' : NotifierWorld}
    (hcount : attemptsOf id w'.calls = attemptsOf id w.calls) (h' : Inv id (entered + (attemptsOf id w.calls - count)) w') :
    Entering id entered count w' := by
  rw [Entering, hcount]
  exact ⟨h.1, h'⟩

/-- A new job is in hand for a new entry. -/
theorem Inv.enter (h : Inv id entered w) (hnone : job.attempts = 0) (hqueued : job.queued = false) :
    Held id (entered + 1) w job ∧ attemptsOf id w.calls + 1 + left id w.store ≤ (1 + ladder.length) * (entered + 1) := by
  have houtcomes := h.outcomes
  have hattempts := h.attempts
  have hladder : 1 + ladder.length = 4 := rfl
  rw [hladder] at hattempts
  refine ⟨⟨h.waiting, ?_, ?_, fun _ => ?_, fun before call after hcalls hcall => ?_⟩, ?_⟩
  · rw [hqueued]
    simp only [Bool.false_eq_true, if_false]
    omega
  · rw [hnone, hladder]
    omega
  · rw [hladder]
    omega
  · exact (h.pending before call after hcalls hcall).trans (Nat.lt_succ_self _)
  · rw [hladder]
    omega

/-- A first attempt enters the delivery. -/
theorem wp_attempt_entering {count : ℕ} (h : Entering id entered count w) (hopen : Open job) (hnone : job.attempts = 0)
    (hqueued : job.queued = false) : (attempt c job now).wp write ok (fun _ w' => Entering id entered count w') w := by
  obtain ⟨hcount, hinv⟩ := h
  obtain ⟨hheld, hapart⟩ := hinv.enter hnone hqueued
  refine wp_mono (fun a w' hw' => ?_) (wp_attempt_inv hopen (Nat.le_succ _) hinv (fun _ => hheld) fun _ _ => hapart)
  rcases hw' with ⟨hsame, h'⟩ | ⟨hmore, h'⟩
  · exact Entering.same ⟨hcount, hinv⟩ hsame h'
  · refine ⟨by omega, ?_⟩
    rw [hmore, Nat.sub_add_comm hcount]
    exact h'

theorem atoms_entering (id : DeliveryId) (entered count : ℕ) (c : Config) (now : ℚ) :
    Atoms (fun _ _ => True) c now fun _ (p : Program _) => p.Preserves write ok (Entering id entered count) where
  toCompositional := compositional_preserves
  plain := by
    intro x hx w hw _
    have hretry : (write w.store x).retry = w.store.retry := by cases x <;> first | rfl | exact hx.elim
    exact hw.same rfl (hw.2.put (fun id' job hjob => hw.2.waiting id' job (hretry ▸ hjob)) (.inl (by rw [hretry])))
  report := by
    intro key delivery hstate w hw reply
    have houtcome : ∀ r : Bool, isOutcome id ⟨.publish key delivery, r⟩ = false := by
      intro r
      simp [isOutcome, hstate]
    have hcalled : ∀ r : Bool, Entering id entered count (w.called (.publish key delivery) r) := by
      intro r
      refine hw.same ?_ (hw.2.called rfl (houtcome r))
      rw [World.called, attempts_append]
      rfl
    cases hreply : (reply : Bool) <;> exact hcalled _
  attempt := fun _ hopen hnone hqueued _ _ hw => wp_attempt_entering hw hopen hnone hqueued
  abandon := fun m ch w hw => wp_mono (fun _ _ hw' => hw.same hw'.1 hw'.2) (wp_abandon_inv hw.2 m ch)
  kinds := fun _ _ _ => trivial

/-- A delivery that is sent once and then reported. -/
theorem wp_sent_reported {count : ℕ} (h : Entering id entered count w) (job : Job) (hnone : job.attempts = 0)
    (hqueued : job.queued = false) {channel : Channel} {key : String} {report : Outcome → Delivery}
    (hreport : ∀ outcome, (report outcome).record.id = job.deliveryId) :
    (deliver channel job.deliveryId job.payload job.subject job.text >>= fun outcome => publish key (report outcome)).wp write
      ok (fun _ w' => Entering id entered count w') w := by
  obtain ⟨hcount, hinv⟩ := h
  refine wp_sent fun outcome reply => ?_
  have hpublish : ∀ r : Bool, isAttempt id ⟨.publish key (report outcome), r⟩ = false := fun _ => rfl
  have hafter : ∀ r : Bool, Entering id entered count ((w.called (.deliver channel job.deliveryId job.payload job.subject
      job.text) outcome).called (.publish key (report outcome)) r) := by
    intro r
    by_cases hid : job.deliveryId = id
    · obtain ⟨hheld, hapart⟩ := hinv.enter hnone hqueued
      obtain ⟨hmore, hheld'⟩ := hheld.attempted (hnone ▸ Nat.zero_le _)
        (.deliver channel job.deliveryId job.payload job.subject job.text) outcome
        (by simp [isAttempt, hid]) fun _ => hapart
      have hreported := hheld'.reported (hpublish r) hid
      rw [show job.tried.queued = job.queued from rfl, hqueued] at hreported
      have hcalls : attemptsOf id ((w.called (.deliver channel job.deliveryId job.payload job.subject job.text) outcome).called
          (.publish key (report outcome)) r).calls = attemptsOf id w.calls + 1 := by
        rw [World.called, attempts_append, hpublish, hmore]
        rfl
      refine ⟨by omega, ?_⟩
      rw [hcalls, Nat.sub_add_comm hcount]
      exact hreported
    · have hattempt : isAttempt id ⟨.deliver channel job.deliveryId job.payload job.subject job.text, outcome⟩ = false := by
        simp [isAttempt, hid]
      have houtcome : isOutcome id ⟨.publish key (report outcome), r⟩ = false := by
        simp [isOutcome, hreport, hid]
      refine Entering.same ⟨hcount, hinv⟩ ?_ ((hinv.called hattempt rfl).called (hpublish r) houtcome)
      rw [World.called, attempts_append, hpublish, World.called, attempts_append, hattempt]
      rfl
  cases hreply : (reply : Bool) <;> exact hafter _

theorem wp_onVerify_entering {count : ℕ} (channelId orgId requestedAt : String) (requestId : Option String)
    (h : Entering id entered count w) :
    (onVerify c channelId orgId requestedAt requestId now).wp write ok (fun _ w' => Entering id entered count w') w := by
  unfold onVerify
  cases c.channels.find? (·.id = channelId) with
  | none => exact h
  | some channel =>
    -- As a job, the verification is one that is never stored.
    let job : Job :=
      { deliveryId := .verify (requestId.getD requestedAt), channelId := channelId, payload := .verify channel.id requestedAt,
        subject := "[Upstat] Verify this alert channel",
        text := "This is a test from Upstat. If you received it, the channel works.", direction := .rule, monitorId := none,
        since := now, key := channel.id,
        record := ⟨.verify (requestId.getD requestedAt), orgId, "verify", none, none, "sev2", "", "", some channelId⟩,
        nextAt := now, turn := 0 }
    exact wp_sent_reported h job rfl rfl fun _ => rfl

/-- A retry pass enters nothing. -/
theorem wp_retryDue_inv (h : Inv id entered w) (key : DeliveryId) :
    (retryDue c key now).wp write ok (fun _ w' => Inv id entered w') w := by
  unfold retryDue
  rw [wp_get_bind]
  cases hjob : w.store.retry.lookup key with
  | none => exact h
  | some job =>
    dsimp only
    split
    · exact h
    · obtain ⟨-, hwaiting⟩ := h.waiting key job hjob
      refine wp_catch (wp_mono (Q := fun _ w' => Inv id entered w') (fun a w' hw' => ?_) ?_)
      · cases a with
        | none => exact hw'
        | some _ => exact hw'
      · cases hfinal : job.final with
        | some final =>
          refine wp_mono (fun a w' hw' => ?_) (wp_publishFinal_inv (h.inHand hjob) hwaiting.toMade hfinal)
          cases a with
          | none => exact hw'.2.2 h
          | some _ => exact hw'.2
        | none =>
          refine wp_mono (fun a w' hw' => ?_) (wp_attempt_inv (hwaiting.open hfinal) le_rfl h
            (fun hid => (h.inHand hjob).held hid) fun _ hqueued => ?_)
          · rcases hw' with ⟨-, hw'⟩ | ⟨-, hw'⟩
            · exact hw'
            · exact hw'
          · rw [hwaiting.queued] at hqueued
            cases hqueued

theorem inv_handle {s : Entered} (h : Inv id s.entered s.world) (e : Event) :
    Inv id (handle n answer id s e).entered (handle n answer id s e).world := by
  have hstart : Entering id s.entered (attemptsOf id s.world.calls) s.world := ⟨le_rfl, by rwa [Nat.sub_self]⟩
  -- Everything but a retry pass enters what it attempts.
  have entering : (program n e).wp write (fun _ _ => True)
      (fun _ w' => Entering id s.entered (attemptsOf id s.world.calls) w') s.world →
      Inv id (s.entered + (attemptsOf id (step n answer s.world e).calls - attemptsOf id s.world.calls))
        (step n answer s.world e) := fun hwp => (wp_run answer hwp).2
  cases e with
  | transition c t now => exact entering ((atoms_entering id _ _ c now).dispatching.onTransition t s.world hstart)
  | retry c key now => exact wp_run answer (wp_retryDue_inv h key)
  | sweep c m now => exact entering ((atoms_entering id _ _ c now).dispatching.sweep m s.world hstart)
  | renotify c key now => exact entering ((atoms_entering id _ _ c now).renotify trivial s.world hstart)
  | verify c channelId orgId requestedAt requestId now =>
    exact entering (wp_onVerify_entering channelId orgId requestedAt requestId hstart)
  | alert c rule entered value now transitionId =>
    exact entering ((atoms_entering id _ _ c now).dispatching.ruleAlert entered value transitionId s.world hstart)
  | saved m st => exact entering fun _ => hstart.same rfl (hstart.2.put (x := .saved m st) hstart.2.waiting (.inl rfl))

/-- The second rule is muted for a day. -/
def twoRules : Config :=
  { homepage with
    rules := homepage.rules ++ [⟨"q", "o", "Homepage quiet", "uptime", "check:Homepage",
      { channelIds := ["c"], muteWindows := [⟨some "2026-01-01T00:00:00Z", some "2026-01-02T00:00:00Z"⟩] }⟩] }

def dated : Notifier :=
  { plain with
    timestamp := fun s =>
      if s = "2026-01-01T00:00:00Z" then some 1767225600
      else if s = "2026-01-02T00:00:00Z" then some 1767312000 else none }

def recoversMuted : Event := .transition twoRules ⟨"m", "o", 2, .down, .up, "", 0, [], 0⟩ 1767225660

end Upstat.DeliveryOutcomes
