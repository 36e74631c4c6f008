import Mathlib.Data.List.Dedup
import Upstat.FlappingEdges

/-! # The flapping guard

The guard is entered on the seventh edge of a sliding window and left when at most one is in
it. Dispatches ask the guard, but neither the retries nor the renotify ladder do. -/
namespace Upstat.FlappingGuard

open GuardedRuns AwaitedPrograms NotifierPrograms NotifierEffects NotifierOrdering NotifierRuns FlappingEdges
  CommonDatabase MonitorMachine

/-- The run, the times of all the monitor's edges so far, and the transitions that came. -/
structure Guarded where
  run : Clocked
  edges : List ℚ
  seen : List TransitionId

def start (clock : ℚ) : Guarded := ⟨⟨clock, init⟩, [], []⟩

def concerning (monitor : String) (notices : List Notice) : List Notice :=
  notices.filter fun notice => notice.monitorId = some monitor

section Statement
variable (n : Notifier) (answer : ℕ → (c : Call) → Reply c) (monitor : String)

/-- The moment is a transition of the monitor. -/
def Moment.transitionOf (m : Moment) : Option TransitionMsg :=
  match m.happening with
  | .transition _ t => if t.monitorId = monitor then some t else none
  | _ => none

def Moment.sweeps (m : Moment) : Bool :=
  match m.happening with
  | .sweep _ id => id = monitor
  | _ => false

def handle (s : Guarded) (m : Moment) : Guarded where
  run := tick n answer s.run m
  edges := s.edges ++ ((Moment.transitionOf monitor m).filter isEdge).toList.map fun _ => s.run.at m
  seen := s.seen ++ ((Moment.transitionOf monitor m).map TransitionMsg.id).toList

def on (s : Guarded) : Bool := (window s.run.store monitor).on

/-- How many edges are in the thirty minutes before now. -/
def inWindow (s : Guarded) : ℕ := (recentEdges s.edges s.run.clock).length

/-- The channels of the rule that are there and verified. -/
def reached (c : Config) (rule : Rule) : List String := rule.notify.channelIds.filter fun id => (c.channel id).isSome

/-- The rules that hear of flapping. -/
def concerned (c : Config) (t : TransitionMsg) : List Rule :=
  (c.uptimeRules t.orgId).filter fun rule => ruleMatches rule (monitorOf c t) .down

/-- One flapping message for each channel of each matching rule. -/
def announcement (m : Moment) : List (String × Direction) :=
  match m.happening with
  | .transition c t => (concerned c t).flatMap fun rule => (reached c rule).dedup.map fun id => (id, .flapping)
  | _ => []

/-- What the guard does at a moment. -/
structure Guards (s : Guarded) (m : Moment) : Prop where
  enters : on monitor s = false → (on monitor (handle n answer monitor s m) = true ↔
    (Moment.transitionOf monitor m).any isEdge = true ∧ inWindow (handle n answer monitor s m) = flapEdges)
  leaves : on monitor s = true → (on monitor (handle n answer monitor s m) = false ↔
    ((Moment.transitionOf monitor m).isSome ∨ Moment.sweeps monitor m) ∧ inWindow (handle n answer monitor s m) ≤ 1)
  announced : on monitor s = false → on monitor (handle n answer monitor s m) = true → ∃ more,
    concerning monitor (handle n answer monitor s m).run.store.dispatched =
      concerning monitor s.run.store.dispatched ++ more ∧
    (more.map fun notice => (notice.channelId, notice.direction)) = announcement m
  quiet : on monitor s = true → on monitor (handle n answer monitor s m) = true →
    concerning monitor (handle n answer monitor s m).run.store.dispatched = concerning monitor s.run.store.dispatched
  held : on monitor (handle n answer monitor s m) = true → ∃ more,
    concerning monitor (handle n answer monitor s m).run.store.delivered =
      concerning monitor s.run.store.delivered ++ more ∧
    ∀ notice ∈ more, notice.direction = .flapping

/-- A transition of the monitor comes once, and finds neither it nor a rule of its org muted. -/
def Assumed (s : Guarded) (m : Moment) : Prop :=
  match m.happening with
  | .transition c t => t.monitorId = monitor → t.id ∉ s.seen ∧ (monitorOf c t).muted = false ∧
    ∀ rule ∈ c.uptimeRules t.orgId, mutedNow n rule (s.run.at m) = false
  | _ => True

/-- The pass finds the timer due, and nothing that says the monitor is not down. -/
def renotifies (c : Config) (key : String × String) (s : Store) (now : ℚ) : Bool :=
  match s.renotify.lookup key, c.rule key.1, c.monitor key.2 with
  | some stamp, some rule, some _ =>
    ¬(s.mon key.2).any (fun st => st.status ≠ .down) ∧ 0 < (rule.notify.renotifyMinutes * 60 : ℚ) ∧
      (rule.notify.renotifyMinutes * 60 : ℚ) ≤ now - stamp.at_
  | _, _, _ => false

/-- The pass sends a message about the monitor that is not of flapping. -/
def resends (c : Config) (key : DeliveryId) (s : Store) (now : ℚ) : Bool :=
  (s.retry.lookup key).any fun job =>
    job.monitorId = some monitor ∧ job.direction ≠ .flapping ∧ job.final.isNone ∧ job.nextAt ≤ now ∧
      (c.channel job.channelId).isSome

/-- While the monitor is flapping no timer and no retry of another message about it is due,
and the rules that hear of its flapping list each channel once. -/
def Fits (s : Guarded) (m : Moment) : Prop :=
  match m.happening with
  | .transition c t => t.monitorId = monitor → on monitor s = false →
    flapEdges ≤ (recentEdges (s.edges ++ edgeOf t (s.run.at m)) (s.run.at m)).length →
    ∀ rule ∈ concerned c t, (reached c rule).Nodup
  | .retry c key => on monitor s = true → resends monitor c key s.run.store (s.run.at m) = false
  | .renotify c key => on monitor s = true → key.2 = monitor → renotifies c key s.run.store (s.run.at m) = false
  | _ => True

instance (s : Guarded) (m : Moment) : Decidable (Assumed n monitor s m ∧ Fits monitor s m) :=
  match m with
  | ⟨_, .transition _ _⟩ | ⟨_, .retry _ _⟩ | ⟨_, .renotify _ _⟩ => by unfold Assumed Fits; infer_instance
  | ⟨_, .sweep _ _⟩ | ⟨_, .verify _ _ _ _ _⟩ | ⟨_, .alert _ _ _ _ _⟩ | ⟨_, .saved _ _⟩ => isTrue ⟨trivial, trivial⟩

end Statement

variable {n : Notifier} {answer : ℕ → (c : Call) → Reply c} {monitor : String} {s : Guarded}
  {ok : Store → Write → Prop}

/-! ## Messages about the monitor -/

/-- No message about the monitor is dispatched or delivered. -/
def Silent (monitor : String) : Write → Prop
  | .dispatched notice | .delivered notice => notice.monitorId ≠ some monitor
  | _ => True

/-- No message about the monitor is delivered that is not of flapping. -/
def Held (monitor : String) : Write → Prop
  | .delivered notice => notice.monitorId = some monitor → notice.direction = .flapping
  | _ => True

/-- Nothing is dispatched. -/
def Undispatched : Write → Prop
  | .dispatched _ => False
  | _ => True

theorem concerning_append (notices : List Notice) (notice : Notice) :
    concerning monitor (notices ++ [notice]) =
      concerning monitor notices ++ if notice.monitorId = some monitor then [notice] else [] := by
  simp only [concerning, List.filter_append, List.filter_cons, List.filter_nil, decide_eq_true_eq]

theorem keeps_silent {α : Type} {p : Program α} (hp : p.Only (Silent monitor)) (dispatched delivered : List Notice) :
    p.Keeps write ok fun s => concerning monitor s.dispatched = dispatched ∧ concerning monitor s.delivered = delivered := by
  refine hp.keeps fun s x hx hs => ?_
  cases x with
  | dispatched notice =>
    refine ⟨?_, hs.2⟩
    rw [write, concerning_append, if_neg hx, List.append_nil]
    exact hs.1
  | delivered notice =>
    refine ⟨hs.1, ?_⟩
    rw [write, concerning_append, if_neg hx, List.append_nil]
    exact hs.2
  | _ => exact hs

theorem keeps_held {α : Type} {p : Program α} (hp : p.Only (Held monitor)) (delivered : List Notice) :
    p.Keeps write ok fun s => ∃ more, concerning monitor s.delivered = delivered ++ more ∧
      ∀ notice ∈ more, notice.direction = .flapping := by
  refine hp.keeps fun s x hx hs => ?_
  cases x with
  | delivered notice =>
    obtain ⟨more, hmore, hall⟩ := hs
    rw [write, concerning_append, hmore]
    by_cases hid : notice.monitorId = some monitor
    · refine ⟨more ++ [notice], by rw [if_pos hid, List.append_assoc], fun other hother => ?_⟩
      rcases List.mem_append.mp hother with hother | hother
      · exact hall other hother
      · exact (List.mem_singleton.mp hother) ▸ hx hid
    · exact ⟨more, by rw [if_neg hid, List.append_nil], hall⟩
  | _ => exact hs

theorem keeps_dispatched {α : Type} {p : Program α} (hp : p.Only Undispatched) (dispatched : List Notice) :
    p.Keeps write ok fun s => s.dispatched = dispatched := by
  refine hp.keeps fun s x hx hs => ?_
  cases x with
  | dispatched notice => exact hx.elim
  | _ => exact hs

theorem undispatched_delivery {m : Option String} {direction : Direction} {x : Write} (h : OfDelivery m direction x) :
    Undispatched x := by
  cases x <;> trivial

theorem silent_dispatch {ruleId m : String} {direction : Direction} {now : ℚ} {x : Write} (hm : m ≠ monitor)
    (h : OfDispatch ruleId m direction now x) : Silent monitor x := by
  cases x with
  | dispatched notice => exact fun he => hm (Option.some.inj (h.1.symm.trans he))
  | delivered notice => exact fun he => hm (Option.some.inj (h.1.symm.trans he))
  | _ => trivial

theorem silent_exit {m : String} {now : ℚ} {x : Write} (hm : m ≠ monitor) (h : OfExit m now x) : Silent monitor x := by
  cases x with
  | dispatched notice => exact silent_dispatch hm h.choose_spec
  | delivered notice => exact silent_dispatch hm h.choose_spec
  | _ => trivial

theorem held_flapping {ruleId m : String} {now : ℚ} {x : Write} (h : OfDispatch ruleId m .flapping now x) :
    Held monitor x := by
  cases x with
  | delivered notice => exact fun _ => h.2
  | _ => trivial

theorem Silent.held {x : Write} (h : Silent monitor x) : Held monitor x := by
  cases x with
  | delivered notice => exact fun hid => absurd hid h
  | _ => trivial

/-! ## The announcement of flapping -/

section Announcement
variable {c : Config} {rule : Rule} {subject : Monitor} {msg : Msg} {now : ℚ} {dispatched : List Notice}
  {targets : List (String × Direction)}

/-- Messages about the monitor were dispatched to these targets, in order. -/
def Announced (monitor : String) (dispatched : List Notice) (targets : List (String × Direction)) (s : Store) : Prop :=
  ∃ more, s.dispatched = dispatched ++ more ∧ (∀ notice ∈ more, notice.monitorId = some monitor) ∧
    (more.map fun notice => (notice.channelId, notice.direction)) = targets

theorem Announced.trans {s s' : Store} {targets' : List (String × Direction)} (h : Announced monitor dispatched targets s)
    (h' : Announced monitor s.dispatched targets' s') : Announced monitor dispatched (targets ++ targets') s' := by
  obtain ⟨more, hmore, hmon, rfl⟩ := h
  obtain ⟨more', hmore', hmon', rfl⟩ := h'
  refine ⟨more ++ more', by rw [hmore', hmore, List.append_assoc], fun notice hn => ?_, List.map_append⟩
  exact (List.mem_append.mp hn).elim (hmon notice) (hmon' notice)

theorem Announced.concerning {s : Store} (h : Announced monitor dispatched targets s) :
    ∃ more, FlappingGuard.concerning monitor s.dispatched = FlappingGuard.concerning monitor dispatched ++ more ∧
      (more.map fun notice => (notice.channelId, notice.direction)) = targets := by
  obtain ⟨more, hmore, hmon, hmap⟩ := h
  refine ⟨more, ?_, hmap⟩
  rw [hmore, FlappingGuard.concerning, List.filter_append]
  exact congrArg _ (List.filter_eq_self.mpr fun notice hn => by simpa using hmon notice hn)

/-- A loop announces what its bodies announce, one after the other. -/
theorem wp_forEach_announced {β : Type} {f : β → Program Unit} {g : β → List (String × Direction)} (bs : List β)
    (hf : ∀ b ∈ bs, ∀ w : NotifierWorld, (f b).wp write ok
      (fun a w' => a ≠ none ∧ Announced monitor w.store.dispatched (g b) w'.store) w) (w : NotifierWorld) :
    (Prog.forEach bs f).wp write ok
      (fun a w' => a ≠ none ∧ Announced monitor w.store.dispatched (bs.flatMap g) w'.store) w := by
  induction bs generalizing w with
  | nil => exact ⟨Option.some_ne_none _, [], by simp, by simp, rfl⟩
  | cons b bs ih =>
    refine wp_bind (wp_mono (fun a w1 h1 => ?_) (hf b (List.mem_cons_self ..) w))
    cases a with
    | none => exact absurd rfl h1.1
    | some _ =>
      refine wp_mono (fun a w2 h2 => ⟨h2.1, ?_⟩) (ih (fun b' hb' => hf b' (List.mem_cons_of_mem _ hb')) w1)
      exact h1.2.trans h2.2

theorem wp_dispatchTo_announced (n : Notifier) (channelId : String) (w : NotifierWorld) :
    (dispatchTo n c rule subject msg .flapping now channelId).wp write ok (fun a w' => a ≠ none ∧
      Announced subject.id w.store.dispatched [(channelId, .flapping)] w'.store) w := by
  refine wp_safe (safe_dispatchTo channelId) ?_
  -- A flapping message abandons nothing: it is dispatched, and then attempted.
  let job := newJob n rule subject msg .flapping now channelId none w.store.dispatched.length
  refine fun _ => wp_mono (fun a w' hw' => ⟨[job.notice], hw', fun notice hn => ?_, rfl⟩)
    (keeps_dispatched ((only_attempt c job now).mono fun x hx => undispatched_delivery hx)
      (w.store.dispatched ++ [job.notice]) (w.put write (.dispatched job.notice)) rfl)
  exact (List.mem_singleton.mp hn) ▸ rfl

theorem wp_dispatch_announced (n : Notifier) (hmuted : subject.muted = false) (hwindow : mutedNow n rule now = false)
    (w : NotifierWorld) :
    (dispatch n c rule subject msg .flapping now true).wp write ok (fun a w' => a ≠ none ∧
      Announced subject.id w.store.dispatched ((reached c rule).map fun id => (id, .flapping)) w'.store) w := by
  unfold dispatch
  rw [wp_get_bind]
  simp only [hmuted, hwindow, Bool.false_eq_true, if_false, not_true_eq_false, false_and, and_false]
  refine wp_bind (wp_mono (fun a w1 h1 => ?_) (wp_forEach_announced (g := fun id => [(id, .flapping)]) _
    (fun channelId _ w => wp_dispatchTo_announced n channelId w) w))
  cases a with
  | none => exact absurd rfl h1.1
  | some _ =>
    rw [List.map_eq_flatMap]
    -- No stamp and no timer is written for flapping.
    simp only [reduceCtorEq, or_false, and_false, false_and, decide_false]
    exact ⟨Option.some_ne_none _, h1.2⟩

/-- What was delivered about the monitor since is of flapping. -/
def OnlyFlapping (monitor : String) (delivered : List Notice) (s : Store) : Prop :=
  ∃ more, concerning monitor s.delivered = concerning monitor delivered ++ more ∧ ∀ notice ∈ more, notice.direction = .flapping

/-- Announcing to the rules delivers nothing but flapping. -/
theorem wp_announce (rules : List Rule) (hmuted : subject.muted = false)
    (hwindows : ∀ rule ∈ rules, mutedNow n rule now = false) (w : NotifierWorld) :
    (Prog.forEach rules fun rule => dispatch n c rule subject msg .flapping now true : Program Unit).wp write ok
      (fun a w' => (a ≠ none ∧ Announced subject.id w.store.dispatched
          (rules.flatMap fun rule => (reached c rule).map fun id => (id, .flapping)) w'.store) ∧
        OnlyFlapping subject.id w.store.delivered w'.store) w := by
  refine wp_and (wp_forEach_announced _ (fun rule hrule w => wp_dispatch_announced n hmuted (hwindows rule hrule) w) w) ?_
  refine keeps_held (only_forEach _ fun rule _ => (only_dispatch true).mono fun x hx => held_flapping hx) _ w ?_
  exact ⟨[], by rw [List.append_nil], by simp⟩

end Announcement

/-! ## A transition while the guard is on -/

section Transition
variable {c : Config} {t : TransitionMsg} {now : ℚ} {w : NotifierWorld}

/-- The windows and the logs are the same. -/
structure SameLogs (s s' : Store) : Prop where
  flap : s'.flap = s.flap
  dispatched : s'.dispatched = s.dispatched
  delivered : s'.delivered = s.delivered

/-- A handling whose guard lets nothing through does what the guard does. -/
theorem wp_suppressed {P : Store → Prop} (htx : w.store.tx t.id = false)
    (hmark : ∀ s, P s → P (write s (.handled t.id)))
    (hflapping : ∀ w1 : NotifierWorld, SameLogs w.store w1.store →
      (flapping n c t (monitorOf c t) now).wp write ok (fun a w' => a ≠ some false ∧ P w'.store) w1) :
    (onTransition n c t now).wp write ok (fun _ w' => P w'.store) w := by
  have hclear : (clearRenotify (monitorOf c t).id).Keeps write ok (SameLogs w.store) := by
    refine (only_clearRenotify (monitorOf c t).id).keeps fun s x hx hs => ?_
    obtain ⟨key, rfl, -⟩ := hx
    exact ⟨hs.flap, hs.dispatched, hs.delivered⟩
  have hhandle : (NotifierPrograms.handle n c t now).wp write ok (fun _ w' => P w'.store) w := by
    refine wp_handle_of (fun _ => hclear w ⟨rfl, rfl, rfl⟩) (fun _ => ⟨rfl, rfl, rfl⟩) fun w1 h1 => ?_
    -- Where the guard suppresses the transition nothing follows it.
    refine wp_bind (wp_mono (fun a w2 h2 => ?_) (hflapping w1 h1))
    rcases a with _ | _ | _
    · exact h2.2
    · exact absurd rfl h2.1
    · exact h2.2
  unfold onTransition
  rw [wp_get_bind, htx, if_neg (by simp)]
  refine wp_bind (wp_mono (fun a w' hw' => ?_) hhandle)
  cases a with
  | none => exact hw'
  | some _ => exact fun _ => hmark _ hw'

/-- The seventh edge: flapping is announced, and nothing else is sent. -/
theorem wp_entering (htx : w.store.tx t.id = false) (hmuted : (monitorOf c t).muted = false)
    (hwindows : ∀ rule ∈ c.uptimeRules t.orgId, mutedNow n rule now = false)
    (hoff : (window w.store t.monitorId).on = false)
    (hseven : flapEdges ≤ (recentEdges ((window w.store t.monitorId).edges ++ edgeOf t now) now).length) :
    (onTransition n c t now).wp write ok (fun _ w' =>
      Announced t.monitorId w.store.dispatched
        ((concerned c t).flatMap fun rule => (reached c rule).map fun id => (id, .flapping)) w'.store ∧
      OnlyFlapping t.monitorId w.store.delivered w'.store) w := by
  refine wp_suppressed (P := fun s => Announced t.monitorId w.store.dispatched _ s ∧
    OnlyFlapping t.monitorId w.store.delivered s) htx (fun s hs => hs) fun w1 h1 => ?_
  have hid := monitorOf_id c t
  unfold flapping
  rw [wp_get_bind]
  dsimp only
  have hflap : (w1.store.flap (monitorOf c t).id).getD {} = window w.store t.monitorId := by rw [h1.flap, hid]; rfl
  rw [hflap, if_pos ⟨by simp [hoff], hseven⟩, wp_put_bind]
  intro _
  refine wp_bind (wp_mono (fun a w2 h2 => ?_) (wp_announce (concerned c t) hmuted
    (fun rule hrule => hwindows rule (List.mem_filter.mp hrule).1) (w1.put write _)))
  rw [hid] at h2
  cases a with
  | none => exact absurd rfl h2.1.1
  | some _ =>
    refine ⟨by simp, ?_, ?_⟩
    · rw [← h1.dispatched]
      exact h2.1.2
    · rw [← h1.delivered]
      exact h2.2

/-- While the guard stays on nothing is sent. -/
theorem wp_staying (htx : w.store.tx t.id = false) (hon : (window w.store t.monitorId).on = true)
    (hmany : 1 < (recentEdges ((window w.store t.monitorId).edges ++ edgeOf t now) now).length) :
    (onTransition n c t now).wp write ok (fun _ w' =>
      w'.store.dispatched = w.store.dispatched ∧ w'.store.delivered = w.store.delivered) w := by
  refine wp_suppressed (P := fun s => s.dispatched = w.store.dispatched ∧ s.delivered = w.store.delivered) htx
    (fun s hs => hs) fun w1 h1 => ?_
  have hid := monitorOf_id c t
  unfold flapping
  rw [wp_get_bind]
  dsimp only
  have hflap : (w1.store.flap (monitorOf c t).id).getD {} = window w.store t.monitorId := by rw [h1.flap, hid]; rfl
  rw [hflap, if_neg (by simp [hon]), if_neg (fun h => absurd h.2 (Nat.not_le.mpr hmany)), wp_put_bind]
  intro _
  have hnothing : (Prog.when_ (window w.store t.monitorId).on (recordFlapping c t (monitorOf c t) now)).Only
      fun _ => False := only_when fun _ => only_recordFlapping t
  refine wp_bind (wp_mono (fun a w2 h2 => ?_) (hnothing.keeps (I := fun s =>
    s.dispatched = w.store.dispatched ∧ s.delivered = w.store.delivered) (fun s x hx _ => hx.elim) (w1.put write _)
    ⟨h1.dispatched, h1.delivered⟩))
  cases a with
  | none => exact ⟨by simp, h2⟩
  | some _ => exact ⟨by simp [hon], h2⟩

end Transition

/-! ## Everything else -/

section Elsewhere
variable {c : Config} {now : ℚ}

theorem silent_exitFlapping {subject : Monitor} {orgId : String} {status : Status} {redispatch : Bool}
    (h : subject.id ≠ monitor) : (exitFlapping n c subject orgId now status redispatch).Only (Silent monitor) :=
  (only_exitFlapping orgId status redispatch).mono fun _ hx => silent_exit h hx

theorem silent_flapping {t : TransitionMsg} {subject : Monitor} (h : subject.id ≠ monitor) :
    (flapping n c t subject now).Only (Silent monitor) := by
  refine only_get_bind fun s => ?_
  dsimp only
  split
  · refine only_bind (only_put trivial) fun _ => only_bind (only_forEach _ fun rule _ => ?_) fun _ => only_pure _
    exact (only_dispatch true).mono fun x hx => silent_dispatch h hx
  · split
    · exact only_bind (only_put trivial) fun _ => only_bind (silent_exitFlapping h) fun _ => only_pure _
    · exact only_bind (only_put trivial) fun _ => only_bind (only_when fun _ => only_recordFlapping t) fun _ => only_pure _

theorem silent_onTransition {t : TransitionMsg} (h : t.monitorId ≠ monitor) :
    (onTransition n c t now).Only (Silent monitor) := by
  have hid : (monitorOf c t).id ≠ monitor := monitorOf_id c t ▸ h
  refine only_get_bind fun s => ?_
  split
  · exact only_pure ()
  · refine only_bind (only_bind (only_when fun _ => ?_) fun _ => only_bind (silent_flapping hid) fun suppressed => ?_)
      fun _ => only_put trivial
    · exact (only_clearRenotify _).mono fun x ⟨key, hx, _⟩ => hx ▸ trivial
    · split
      · exact only_pure ()
      · cases directionOf t.from_ t.to_ with
        | none => exact only_pure ()
        | some direction =>
          exact only_forEach _ fun rule _ => (only_dispatch false).mono fun x hx => silent_dispatch hid hx

theorem silent_sweep {m : String} (h : m ≠ monitor) : (sweep n c m now).Only (Silent monitor) := by
  refine only_get_bind fun s => ?_
  cases s.flap m with
  | none => exact only_pure ()
  | some flap =>
    dsimp only
    split
    · refine only_bind (only_put trivial) fun _ => ?_
      cases hm : c.monitor m with
      | none => exact only_pure ()
      | some subject => exact only_get_bind fun s => silent_exitFlapping (monitor_id hm ▸ h)
    · exact only_pure ()

theorem silent_renotify {key : String × String} (h : key.2 ≠ monitor) :
    (NotifierPrograms.renotify n c key now).Only (Silent monitor) := by
  refine only_get_bind fun s => ?_
  split
  · next stamp rule subject _ _ hm =>
    split
    · exact only_put trivial
    · dsimp only
      split
      · exact only_pure ()
      · refine only_bind ((only_dispatch true).mono fun x hx => ?_) fun _ => only_put trivial
        exact silent_dispatch (monitor_id hm ▸ h) hx
  · exact only_put trivial

theorem silent_ruleAlert {rule : Rule} (entered : Bool) (value : Option ℚ) (transitionId : Option String) :
    (ruleAlert n c rule entered value now transitionId).Only (Silent monitor) := by
  refine only_get_bind fun s => ?_
  dsimp only
  split
  · exact only_pure ()
  · refine only_bind (only_forEach _ fun channelId _ => only_get_bind fun s => ?_) fun _ => only_when fun _ => only_put trivial
    refine (only_attempt c _ now).mono fun x hx => ?_
    cases x with
    | dispatched notice => exact hx.elim
    | delivered notice => exact fun he => absurd (hx.1.symm.trans he) (by simp)
    | _ => trivial

/-- A sweep that does not end flapping does nothing. -/
theorem wp_sweep_staying {m : String} {w : NotifierWorld}
    (hstays : ¬((window w.store m).on = true ∧ (recentEdges (window w.store m).edges now).length ≤ 1)) :
    (sweep n c m now).wp write ok (fun _ w' => w' = w) w := by
  unfold sweep
  rw [wp_get_bind]
  cases hflap : w.store.flap m with
  | none => rfl
  | some flap =>
    have hwindow : window w.store m = flap := by
      rw [window, hflap]
      rfl
    dsimp only
    rw [if_neg (hwindow ▸ hstays)]
    rfl

/-- A timer that is not due is at most deleted. -/
theorem wp_renotify_undue {key : String × String} {w : NotifierWorld} (h : renotifies c key w.store now = false) :
    (NotifierPrograms.renotify n c key now).wp write ok (fun _ w' => w' = w ∨ w' = w.put write (.deleteRenotify key)) w := by
  unfold NotifierPrograms.renotify
  rw [wp_get_bind]
  split
  · next stamp rule subject hstamp hrule hm =>
    split
    · exact fun _ => .inr rfl
    · next hdown =>
      dsimp only
      split
      · exact .inl rfl
      · next hdue =>
        -- The timer would be due.
        rw [not_or, not_le, not_lt] at hdue
        have hdue' : renotifies c key w.store now = true := by
          simp only [renotifies, hstamp, hrule, hm]
          exact decide_eq_true ⟨hdown, hdue⟩
        rw [h] at hdue'
        cases hdue'
  · exact fun _ => .inr rfl

/-- A retry pass that sends nothing else about the monitor delivers only flapping. -/
theorem wp_retryDue_held {key : DeliveryId} {w : NotifierWorld} (h : resends monitor c key w.store now = false) :
    (retryDue c key now).wp write ok (fun _ w' =>
      w'.store.dispatched = w.store.dispatched ∧ OnlyFlapping monitor w.store.delivered w'.store) w := by
  have hsame : OnlyFlapping monitor w.store.delivered w.store := ⟨[], by rw [List.append_nil], by simp⟩
  have hnone : (retryDue c key now).Only Undispatched :=
    (only_retryDue key).mono fun x ⟨_, _, hx⟩ => undispatched_delivery hx
  refine wp_and (keeps_dispatched hnone _ w rfl) ?_
  unfold retryDue
  rw [wp_get_bind]
  cases hjob : w.store.retry.lookup key with
  | none => exact hsame
  | some job =>
    dsimp only
    split
    · exact hsame
    · next hdue =>
      refine keeps_held (only_catch ?_ (only_pure ())) _ w hsame
      cases hfinal : job.final with
      | some final =>
        have honly : (publishFinal job).Only (OfDelivery none .flapping) := only_publishFinal
        exact honly.mono fun x hx => by
          cases x with
          | delivered notice => exact fun _ => hx.2
          | _ => trivial
      | none =>
        simp only [resends, hjob, hfinal, Option.any_some, Option.isNone_none] at h hdue
        cases hchannel : c.channel job.channelId with
        | none =>
          simp only [attempt, hchannel]
          exact only_bind (only_put trivial) fun _ => only_put trivial
        | some channel =>
          refine (only_attempt c job now).mono fun x hx => ?_
          cases x with
          | delivered notice =>
            intro hid
            by_contra hdirection
            rw [hx.1] at hid
            rw [hx.2] at hdirection
            simp [hid, hdirection, hchannel] at h
            simp at hdue
            linarith
          | _ => trivial

end Elsewhere

/-! ## The invariant -/

/-- The stored edges are the run's, fewer than seven while the guard is off, and only
transitions that came are marked. -/
structure Inv (monitor : String) (s : Guarded) : Prop where
  edges : ∀ now, s.run.clock ≤ now → recentEdges (window s.run.store monitor).edges now = recentEdges s.edges now
  below : on monitor s = false → (window s.run.store monitor).edges.length < flapEdges
  marks : ∀ id, id.1 = monitor → s.run.store.tx id = true → id ∈ s.seen

theorem inv_start (clock : ℚ) : Inv monitor (start clock) where
  edges := fun _ _ => rfl
  below := fun _ => by
    change 0 < 7
    decide
  marks := fun _ _ h => by cases h

section Step
variable {m : Moment} {c : Config} {t : TransitionMsg}

theorem transitionOf_eq (hm : m.happening = .transition c t) (hid : t.monitorId = monitor) :
    Moment.transitionOf monitor m = some t := by
  simp [Moment.transitionOf, hm, hid]

/-- The run's edges after a transition of the monitor. -/
theorem edges_handle (hm : m.happening = .transition c t) (hid : t.monitorId = monitor) :
    (handle n answer monitor s m).edges = s.edges ++ edgeOf t (s.run.at m) := by
  rw [handle, transitionOf_eq hm hid, edgeOf_eq, Option.filter_some]
  cases isEdge t <;> rfl

theorem edges_handle_none (hm : Moment.transitionOf monitor m = none) :
    (handle n answer monitor s m).edges = s.edges ∧ (handle n answer monitor s m).seen = s.seen := by
  simp [handle, hm]

theorem Inv.unmarked (h : Inv monitor s) (hm : m.happening = .transition c t) (hid : t.monitorId = monitor)
    (hassumed : Assumed n monitor s m) : s.run.store.tx t.id = false := by
  simp only [Assumed, hm] at hassumed
  by_contra hne
  exact (hassumed hid).1 (h.marks t.id hid (by simpa using hne))

theorem window_transition (hm : m.happening = .transition c t) (hid : t.monitorId = monitor)
    (htx : s.run.store.tx t.id = false) : window (handle n answer monitor s m).run.store monitor =
      flapAfter (window s.run.store monitor) (edgeOf t (s.run.at m)) (s.run.at m) := by
  have h := (transition_step n answer s.run.world c t (s.run.at m) htx).1
  subst hid
  rw [handle, Clocked.store, tick, hm, Happening.at, h, Function.update_self, Clocked.store]

theorem window_sweep {id : String} (hm : m.happening = .sweep c id) :
    window (handle n answer monitor s m).run.store monitor =
      if id = monitor then flapSwept (window s.run.store monitor) (s.run.at m) else window s.run.store monitor := by
  have h := (sweep_step n answer s.run.world c id (s.run.at m)).1
  rw [handle, Clocked.store, tick, hm, Happening.at, h]
  split
  · next hid =>
    subst hid
    rw [Function.update_self, Clocked.store]
  · next hid =>
    rw [Function.update_of_ne (Ne.symm hid), Clocked.store]

theorem aside_handle (hm : m.happening.besides = true) :
    window (handle n answer monitor s m).run.store = window s.run.store ∧
      (handle n answer monitor s m).run.store.tx = s.run.store.tx := besides_step n answer s.run.world hm (s.run.at m)

/-- Nothing else touches the window. -/
theorem besides_handle (htransition : Moment.transitionOf monitor m = none) (hsweep : Moment.sweeps monitor m = false) :
    window (handle n answer monitor s m).run.store monitor = window s.run.store monitor := by
  obtain ⟨delay, happening⟩ := m
  cases happening with
  | transition c t =>
    have hid : t.monitorId ≠ monitor := by
      intro hid
      rw [transitionOf_eq rfl hid] at htransition
      cases htransition
    rw [handle, Clocked.store, tick, Happening.at]
    cases htx : s.run.store.tx t.id with
    | true => rw [(marked_step n answer s.run.world c t _ htx).1, Clocked.store]
    | false =>
      rw [(transition_step n answer s.run.world c t _ htx).1, Function.update_of_ne (Ne.symm hid), Clocked.store]
  | sweep c id =>
    have hid : id ≠ monitor := by simpa [Moment.sweeps] using hsweep
    rw [window_sweep rfl, if_neg hid]
  | _ => exact congrFun (aside_handle (by rfl)).1 monitor

theorem tx_handle (id : TransitionId) (hid : id.1 = monitor)
    (htx : (handle n answer monitor s m).run.store.tx id = true) :
    s.run.store.tx id = true ∨ ∃ t, Moment.transitionOf monitor m = some t ∧ t.id = id := by
  obtain ⟨delay, happening⟩ := m
  cases happening with
  | transition c t =>
    rw [handle, Clocked.store, tick] at htx
    cases hbefore : s.run.store.tx t.id with
    | true =>
      rw [Happening.at, (marked_step n answer s.run.world c t _ hbefore).2] at htx
      exact .inl htx
    | false =>
      rw [Happening.at, (transition_step n answer s.run.world c t _ hbefore).2] at htx
      split at htx
      · exact .inl htx
      · by_cases hsame : id = t.id
        · subst hsame
          exact .inr ⟨t, transitionOf_eq rfl hid, rfl⟩
        · rw [Function.update_of_ne hsame] at htx
          exact .inl htx
  | sweep c m =>
    rw [handle, Clocked.store, tick, Happening.at, (sweep_step n answer s.run.world c m _).2] at htx
    exact .inl htx
  | _ =>
    rw [(aside_handle (by rfl)).2] at htx
    exact .inl htx

/-- A transition of the monitor, its sweep, or neither. -/
theorem moment_cases (monitor : String) (m : Moment) :
    (∃ c t, m.happening = .transition c t ∧ t.monitorId = monitor) ∨
      (∃ c, m.happening = .sweep c monitor) ∨
      Moment.transitionOf monitor m = none ∧ Moment.sweeps monitor m = false := by
  obtain ⟨delay, happening⟩ := m
  cases happening with
  | transition c t =>
    by_cases hid : t.monitorId = monitor
    · exact .inl ⟨c, t, rfl, hid⟩
    · exact .inr (.inr ⟨by simp [Moment.transitionOf, hid], rfl⟩)
  | sweep c id =>
    by_cases hid : id = monitor
    · exact .inr (.inl ⟨c, hid ▸ rfl⟩)
    · exact .inr (.inr ⟨rfl, by simpa [Moment.sweeps] using hid⟩)
  | _ => exact .inr (.inr ⟨rfl, rfl⟩)

theorem Inv.edges_handle (h : Inv monitor s) (hassumed : Assumed n monitor s m) (now : ℚ) (hnow : s.run.at m ≤ now) :
    recentEdges (window (handle n answer monitor s m).run.store monitor).edges now =
      recentEdges (handle n answer monitor s m).edges now := by
  have hbefore := h.edges now ((s.run.le_at m).trans hnow)
  obtain ⟨c, t, hm, hid⟩ | ⟨c, hm⟩ | ⟨htransition, hsweep⟩ := moment_cases monitor m
  · rw [window_transition hm hid (h.unmarked hm hid hassumed), FlappingGuard.edges_handle hm hid, flapAfter,
      recentEdges_recentEdges _ hnow, recentEdges_append, hbefore, recentEdges_append]
  · have hnone : Moment.transitionOf monitor m = none := by simp [Moment.transitionOf, hm]
    rw [(edges_handle_none hnone).1, ← hbefore, window_sweep hm, if_pos rfl, flapSwept]
    split
    · exact recentEdges_recentEdges _ hnow
    · rfl
  · rw [(edges_handle_none htransition).1, ← hbefore, besides_handle htransition hsweep]

theorem inv_handle (h : Inv monitor s) (hassumed : Assumed n monitor s m) : Inv monitor (handle n answer monitor s m) where
  edges := h.edges_handle hassumed
  below := by
    intro hoff
    have hoff' : (window (handle n answer monitor s m).run.store monitor).on = false := hoff
    obtain ⟨c, t, hm, hid⟩ | ⟨c, hm⟩ | ⟨htransition, hsweep⟩ := moment_cases monitor m
    · rw [window_transition hm hid (h.unmarked hm hid hassumed)] at hoff' ⊢
      cases hon : (window s.run.store monitor).on with
      | true =>
        have hfew : (flapAfter (window s.run.store monitor) (edgeOf t (s.run.at m)) (s.run.at m)).edges.length ≤ 1 := by
          simpa [flapAfter, hon] using hoff'
        exact hfew.trans_lt (by decide)
      | false => simpa [flapAfter, hon] using hoff'
    · rw [window_sweep hm, if_pos rfl, flapSwept] at hoff' ⊢
      split at hoff'
      · next hexit =>
        rw [if_pos hexit]
        exact hexit.2.trans_lt (by decide)
      · next hstays =>
        rw [if_neg hstays]
        exact h.below hoff'
    · rw [besides_handle htransition hsweep] at hoff' ⊢
      exact h.below hoff'
  marks := by
    intro id hid htx
    rcases tx_handle id hid htx with hbefore | ⟨t, ht, rfl⟩
    · exact List.mem_append_left _ (h.marks id hid hbefore)
    · exact List.mem_append_right _ (by simp [ht])

/-- How many edges a transition of the monitor leaves in the window. -/
theorem Inv.inWindow_transition (h : Inv monitor s) (hassumed : Assumed n monitor s m) (hm : m.happening = .transition c t)
    (hid : t.monitorId = monitor) : inWindow (handle n answer monitor s m) =
      (recentEdges ((window s.run.store monitor).edges ++ edgeOf t (s.run.at m)) (s.run.at m)).length := by
  have hclock : (handle n answer monitor s m).run.clock = s.run.at m := rfl
  rw [inWindow, hclock, ← h.edges_handle hassumed _ le_rfl, window_transition hm hid (h.unmarked hm hid hassumed), flapAfter,
    recentEdges_recentEdges _ le_rfl]

theorem Inv.inWindow_sweep (h : Inv monitor s) (hassumed : Assumed n monitor s m) (hm : m.happening = .sweep c monitor) :
    inWindow (handle n answer monitor s m) =
      (recentEdges (window s.run.store monitor).edges (s.run.at m)).length := by
  have hclock : (handle n answer monitor s m).run.clock = s.run.at m := rfl
  rw [inWindow, hclock, ← h.edges_handle hassumed _ le_rfl, window_sweep hm, if_pos rfl, flapSwept]
  split
  · rw [recentEdges_recentEdges _ le_rfl]
  · rfl

/-- Fewer than seven edges and one more are seven exactly when there is one more and they
are seven. -/
theorem Inv.seventh (h : Inv monitor s) (hoff : on monitor s = false) (t : TransitionMsg) (now : ℚ) :
    flapEdges ≤ (recentEdges ((window s.run.store monitor).edges ++ edgeOf t now) now).length ↔
      isEdge t = true ∧ (recentEdges ((window s.run.store monitor).edges ++ edgeOf t now) now).length = flapEdges := by
  have hbelow := h.below hoff
  have hle : (recentEdges ((window s.run.store monitor).edges ++ edgeOf t now) now).length ≤
      (window s.run.store monitor).edges.length + (edgeOf t now).length := by
    rw [← List.length_append]
    exact List.length_filter_le _ _
  rw [edgeOf_eq] at hle ⊢
  cases hedge : isEdge t <;> simp only [hedge, if_true, if_false, Bool.false_eq_true, List.length_singleton, List.length_nil,
    flapEdges, true_and, false_and, iff_false, not_le] at hle hbelow ⊢ <;> omega

theorem Inv.enters (h : Inv monitor s) (hassumed : Assumed n monitor s m) (hoff : on monitor s = false) :
    on monitor (handle n answer monitor s m) = true ↔
      (Moment.transitionOf monitor m).any isEdge = true ∧ inWindow (handle n answer monitor s m) = flapEdges := by
  have hoff' : (window s.run.store monitor).on = false := hoff
  obtain ⟨c, t, hm, hid⟩ | ⟨c, hm⟩ | ⟨htransition, hsweep⟩ := moment_cases monitor m
  · rw [on, window_transition hm hid (h.unmarked hm hid hassumed), h.inWindow_transition hassumed hm hid,
      transitionOf_eq hm hid, Option.any_some, ← h.seventh hoff]
    simp [flapAfter, hoff']
  · have hnone : Moment.transitionOf monitor m = none := by simp [Moment.transitionOf, hm]
    rw [on, window_sweep hm, if_pos rfl, flapSwept, hnone]
    simp [hoff']
  · rw [on, besides_handle htransition hsweep, htransition]
    simp [hoff']

theorem Inv.leaves (answer : ℕ → (c : Call) → Reply c) (h : Inv monitor s) (hassumed : Assumed n monitor s m)
    (hon : on monitor s = true) : on monitor (handle n answer monitor s m) = false ↔
      ((Moment.transitionOf monitor m).isSome ∨ Moment.sweeps monitor m) ∧ inWindow (handle n answer monitor s m) ≤ 1 := by
  have hon' : (window s.run.store monitor).on = true := hon
  obtain ⟨c, t, hm, hid⟩ | ⟨c, hm⟩ | ⟨htransition, hsweep⟩ := moment_cases monitor m
  · rw [on, window_transition hm hid (h.unmarked hm hid hassumed), h.inWindow_transition hassumed hm hid,
      transitionOf_eq hm hid]
    simp [flapAfter, hon']
  · have hsweeps : Moment.sweeps monitor m = true := by simp [Moment.sweeps, hm]
    rw [on, window_sweep hm, if_pos rfl, h.inWindow_sweep hassumed hm, hsweeps, flapSwept]
    by_cases hfew : (recentEdges (window s.run.store monitor).edges (s.run.at m)).length ≤ 1
    · simp [hon', hfew]
    · simp [hon', hfew]
  · rw [on, besides_handle htransition hsweep, htransition, hsweep]
    simp [hon']

/-- Nothing is dispatched about the monitor, and nothing but flapping delivered. -/
theorem Inv.quiet (h : Inv monitor s) (hassumed : Assumed n monitor s m) (hfits : Fits monitor s m)
    (hon : on monitor s = true) (hstays : on monitor (handle n answer monitor s m) = true) :
    concerning monitor (handle n answer monitor s m).run.store.dispatched = concerning monitor s.run.store.dispatched ∧
      OnlyFlapping monitor s.run.store.delivered (handle n answer monitor s m).run.store := by
  have hon' : (window s.run.store monitor).on = true := hon
  -- Where the logs are the same, or only others' messages are added.
  have same : (handle n answer monitor s m).run.store.dispatched = s.run.store.dispatched →
      (handle n answer monitor s m).run.store.delivered = s.run.store.delivered →
      concerning monitor (handle n answer monitor s m).run.store.dispatched = concerning monitor s.run.store.dispatched ∧
        OnlyFlapping monitor s.run.store.delivered (handle n answer monitor s m).run.store := by
    intro hd hl
    exact ⟨by rw [hd], [], by rw [hl, List.append_nil], by simp⟩
  have silent : (program n (m.happening.at (s.run.at m))).Only (Silent monitor) →
      concerning monitor (handle n answer monitor s m).run.store.dispatched = concerning monitor s.run.store.dispatched ∧
        OnlyFlapping monitor s.run.store.delivered (handle n answer monitor s m).run.store := by
    intro hp
    have hsilent := wp_run answer (keeps_silent hp _ _ s.run.world ⟨rfl, rfl⟩)
    exact ⟨hsilent.1, [], by rw [List.append_nil]; exact hsilent.2, by simp⟩
  obtain ⟨c, t, hm, hid⟩ | ⟨c, hm⟩ | ⟨htransition, hsweep⟩ := moment_cases monitor m
  · have hmany : 1 < (recentEdges ((window s.run.store monitor).edges ++ edgeOf t (s.run.at m)) (s.run.at m)).length := by
      by_contra hfew
      have hleft := (h.leaves answer hassumed hon).mpr
        ⟨.inl (by simp [transitionOf_eq hm hid]), by rw [h.inWindow_transition hassumed hm hid]; omega⟩
      rw [hstays] at hleft
      cases hleft
    have htx := h.unmarked hm hid hassumed
    subst hid
    have hquiet := wp_run answer (wp_staying (n := n) (c := c) htx hon' hmany)
    refine same ?_ ?_
    · rw [handle, Clocked.store, tick, hm]
      exact hquiet.1
    · rw [handle, Clocked.store, tick, hm]
      exact hquiet.2
  · have hmany : ¬(recentEdges (window s.run.store monitor).edges (s.run.at m)).length ≤ 1 := by
      intro hfew
      have hleft := (h.leaves answer hassumed hon).mpr
        ⟨.inr (by simp [Moment.sweeps, hm]), by rw [h.inWindow_sweep hassumed hm]; exact hfew⟩
      rw [hstays] at hleft
      cases hleft
    have hsame : (handle n answer monitor s m).run.world = s.run.world := by
      rw [handle, tick, hm]
      exact wp_run answer (wp_sweep_staying fun hboth => hmany hboth.2)
    refine same ?_ ?_
    · rw [Clocked.store, hsame, Clocked.store]
    · rw [Clocked.store, hsame, Clocked.store]
  · obtain ⟨delay, happening⟩ := m
    cases happening with
    | transition c t => exact silent (silent_onTransition (by simpa [Moment.transitionOf] using htransition))
    | sweep c id => exact silent (silent_sweep (by simpa [Moment.sweeps] using hsweep))
    | retry c key =>
      have hheld := wp_run answer (wp_retryDue_held (hfits hon))
      exact ⟨congrArg (concerning monitor) hheld.1, hheld.2⟩
    | renotify c key =>
      by_cases hkey : key.2 = monitor
      · rcases wp_run answer (wp_renotify_undue (n := n) (hfits hon hkey)) with hsame | hdeleted
        · exact same (congrArg (fun w => w.store.dispatched) hsame) (congrArg (fun w => w.store.delivered) hsame)
        · exact same (congrArg (fun w => w.store.dispatched) hdeleted) (congrArg (fun w => w.store.delivered) hdeleted)
      · exact silent (silent_renotify hkey)
    | verify c channelId orgId requestedAt requestId => exact silent (only_onVerify channelId orgId requestedAt requestId)
    | alert c rule entered value transitionId => exact silent (silent_ruleAlert entered value transitionId)
    | saved m st => exact silent (only_put trivial)

/-- The seventh edge announces flapping on every channel, and delivers nothing else. -/
theorem Inv.announces (h : Inv monitor s) (hassumed : Assumed n monitor s m) (hfits : Fits monitor s m)
    (hoff : on monitor s = false) (henters : on monitor (handle n answer monitor s m) = true) :
    (∃ more, concerning monitor (handle n answer monitor s m).run.store.dispatched =
        concerning monitor s.run.store.dispatched ++ more ∧
      (more.map fun notice => (notice.channelId, notice.direction)) = announcement m) ∧
      OnlyFlapping monitor s.run.store.delivered (handle n answer monitor s m).run.store := by
  obtain ⟨c, t, hm, hid⟩ | ⟨c, hm⟩ | ⟨htransition, hsweep⟩ := moment_cases monitor m
  · have htx := h.unmarked hm hid hassumed
    have hseven := ((h.enters hassumed hoff).mp henters).2
    rw [h.inWindow_transition hassumed hm hid] at hseven
    simp only [Assumed, hm] at hassumed
    obtain ⟨-, hmuted, hwindows⟩ := hassumed hid
    have hedges : (recentEdges (s.edges ++ edgeOf t (s.run.at m)) (s.run.at m)).length = flapEdges := by
      rw [recentEdges_append, ← h.edges _ (s.run.le_at m), ← recentEdges_append, hseven]
    have hnodup : ∀ rule ∈ concerned c t, (reached c rule).Nodup := by
      simp only [Fits, hm] at hfits
      exact hfits hid hoff hedges.ge
    -- Each channel is listed once, so there is one message for each.
    have htargets : ((concerned c t).flatMap fun rule => (reached c rule).map fun id => (id, Direction.flapping)) =
        announcement m := by
      simp only [announcement, hm]
      exact List.flatMap_congr fun rule hrule => by rw [(hnodup rule hrule).dedup]
    subst hid
    have hentering := wp_run answer (wp_entering htx hmuted hwindows hoff hseven.ge)
    have hstore : (handle n answer t.monitorId s m).run.store =
        ((onTransition n c t (s.run.at m)).run write answer s.run.world).2.store := by
      rw [handle, Clocked.store, tick, hm]
      rfl
    rw [hstore, ← htargets]
    exact ⟨hentering.1.concerning, hentering.2⟩
  · have hnone : Moment.transitionOf monitor m = none := by simp [Moment.transitionOf, hm]
    have := ((h.enters hassumed hoff).mp henters).1
    rw [hnone] at this
    cases this
  · have := ((h.enters hassumed hoff).mp henters).1
    rw [htransition] at this
    cases this

theorem Inv.guards (h : Inv monitor s) (hassumed : Assumed n monitor s m) (hfits : Fits monitor s m) :
    Guards n answer monitor s m where
  enters := h.enters hassumed
  leaves := h.leaves answer hassumed
  announced := fun hoff henters => (h.announces hassumed hfits hoff henters).1
  quiet := fun hon hstays => (h.quiet hassumed hfits hon hstays).1
  held := by
    intro hafter
    cases hbefore : on monitor s with
    | true => exact (h.quiet hassumed hfits hbefore hafter).2
    | false => exact (h.announces hassumed hfits hbefore hafter).2

end Step

/-- In every run of distinct transitions of an unmuted monitor whose moments all fit, the guard
does at every moment what it is for. -/
theorem guarded (n : Notifier) (answer : ℕ → (c : Call) → Reply c) (monitor : String) (clock : ℚ) (ms : List Moment)
    (h : Meets (handle n answer monitor) (fun s m => Assumed n monitor s m ∧ Fits monitor s m) (start clock) ms) :
    Meets (handle n answer monitor) (Guards n answer monitor) (start clock) ms := by
  exact h.imp_of (fun s m hs hm => hs.guards hm.1 hm.2) (fun s m hs hm => inv_handle hs hm.1) (inv_start clock)

/-! ## A queued retry -/

/-- The monitor goes down for an odd number and recovers for an even one, ten seconds after the last. -/
def flips (seq : ℕ) : Moment :=
  ⟨10, .transition homepage (if seq % 2 = 1 then ⟨"m", "o", seq, .up, .down, "timeout", 0, [], 3⟩
    else ⟨"m", "o", seq, .down, .up, "", 0, [], 0⟩)⟩

/-- A retry pass comes to the sixth transition's message, the last recovery before flapping. -/
def lastRecoveryRetried : Moment := ⟨15, .retry homepage (.sent (.transition ("m", 6)) "r" "c" .recovered)⟩

def sevenFlips : List Moment := (List.range' 1 7).map flips

theorem seven_flips_guarded :
    Meets (handle plain (failsAt 0) "m") (fun s m => Assumed plain "m" s m ∧ Fits "m" s m) (start 0)
        (sevenFlips ++ [lastRecoveryRetried, ⟨1800, .sweep homepage "m"⟩]) ∧
      Meets (handle plain (failsAt 0) "m") (Guards plain (failsAt 0) "m") (start 0)
        (sevenFlips ++ [lastRecoveryRetried, ⟨1800, .sweep homepage "m"⟩]) := by
  have fits : Meets (handle plain (failsAt 0) "m") (fun s m => Assumed plain "m" s m ∧ Fits "m" s m) (start 0)
      (sevenFlips ++ [lastRecoveryRetried, ⟨1800, .sweep homepage "m"⟩]) := by decide +kernel
  exact ⟨fits, guarded plain (failsAt 0) "m" 0 _ fits⟩

/-- The sixth message fails once and is queued, the seventh edge enters flapping, and the
next pass delivers the recovery. -/
theorem retried_while_flapping :
    ¬Meets (handle plain (failsAt 8) "m") (Guards plain (failsAt 8) "m") (start 0)
      (sevenFlips ++ [lastRecoveryRetried]) := by
  intro h
  obtain ⟨more, hmore, hall⟩ := ((meets_append _ _ _).mp h).2.1.held (by decide +kernel)
  have hdelivered : concerning "m" (handle plain (failsAt 8) "m" (run (handle plain (failsAt 8) "m") (start 0) sevenFlips)
      lastRecoveryRetried).run.store.delivered = concerning "m" (run (handle plain (failsAt 8) "m") (start 0)
        sevenFlips).run.store.delivered ++ [⟨some "m", "c", .recovered, 3⟩] := by decide +kernel
  rw [hdelivered, List.append_cancel_left_eq] at hmore
  have := hall ⟨some "m", "c", .recovered, 3⟩ (hmore ▸ List.mem_singleton_self _)
  cases this

end Upstat.FlappingGuard
