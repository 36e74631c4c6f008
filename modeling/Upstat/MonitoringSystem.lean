import Upstat.EvaluatorPrograms
import Upstat.TransitionConsumer

/-! # The evaluator, the bus and the common service together

The service snapshots its monitors, the evaluator decides transitions from its working state
or from a snapshot that lags, and the bus brings them back in any order, any number of
times. The number of a decision is one more than that of the state it is decided on. -/
namespace Upstat.MonitoringSystem

open GuardedRuns MonitorMachine CommonDatabase TransitionConsumer EvaluatorPrograms

/-- `stored` is the snapshot in storage and `config` the evaluator's copy of an earlier or the
same one. `decided` is every transition decided so far; no handler reads it. -/
structure System where
  working : Working
  db : Db
  stored : Config
  config : Config
  decided : List TransitionMsg

/-- Keys of the working state that are gone. -/
structure Loss where
  mon : String → Bool
  closed : String → Bool
  ticks : TickId → Bool
  emit : TransitionId → Bool

inductive Act where
  | evaluate (e : Event)
  | lose (gone : Loss)
  /-- The `n`th message published reaches the service, for the first time or again. -/
  | deliver (now : ℚ) (n : ℕ)
  /-- An edit that had read the monitor as `cur`. -/
  | edit (now : ℚ) (cur : MonitorRow) (id : String) (in_ : MonitorInput)
  | rewrite
  | reload

/-- The monitors as a snapshot carries them. -/
def snapshotOf (db : Db) : Config := fun id =>
  (db.monitors id).map fun r =>
    { orgId := r.orgId
      active := r.active
      failureThreshold := r.failureThreshold
      minFailingRegions := r.minFailingRegions
      intervalS := r.intervalS
      status := r.status
      consecutiveFailures := r.consecutiveFailures
      lastTransitionSeq := r.lastTransitionSeq }

def lose (w : Working) (gone : Loss) : Working :=
  { w with
    mon := fun id => if gone.mon id then none else w.mon id
    closed := fun id => if gone.closed id then none else w.closed id
    ticks := fun key => if gone.ticks key then none else w.ticks key
    emit := fun key => if gone.emit key then none else w.emit key }

/-- The transitions the writes store as decided. -/
def decisionsOf (ws : List Write) : List TransitionMsg :=
  ws.filterMap fun
    | .putEmit m => some m
    | _ => none

def act (s : System) : Act → System
  | .evaluate e =>
    { s with
      working := step s.config s.working e
      decided := s.decided ++ decisionsOf (writes s.config s.working e) }
  | .lose gone => { s with working := lose s.working gone }
  | .deliver now n =>
    match s.working.published[n]? with
    | none => s
    | some m => { s with db := deliver s.db (now, m) }
  | .edit now cur id in_ => { s with db := edit s.db now cur id in_ }
  | .rewrite => { s with stored := snapshotOf s.db }
  | .reload => { s with config := s.stored }

/-- Monitors as they may be, and nothing decided or recorded yet. -/
def start (monitors : String → Option MonitorRow) : System where
  working := empty
  db := ⟨monitors, [], noIncidents, []⟩
  stored := fun _ => none
  config := fun _ => none
  decided := []

/-! ## What the evaluator decides, stores and publishes -/

def Write.message : Write → Option TransitionMsg
  | .putEmit m => some m
  | .publish m => some m
  | _ => none

/-- Every stored or published transition is one of these, stored under its own id. -/
structure Sourced (known : List TransitionMsg) (w : Working) : Prop where
  stored : ∀ key m, w.emit key = some m → m ∈ known
  published : ∀ m ∈ w.published, m ∈ known

theorem Sourced.mono {known known' : List TransitionMsg} {w : Working} (h : Sourced known w)
    (hsub : ∀ m ∈ known, m ∈ known') : Sourced known' w :=
  ⟨fun key m hm => hsub m (h.stored key m hm), fun m hm => hsub m (h.published m hm)⟩

theorem sourced_run {known : List TransitionMsg} {w : Working} (h : Sourced known w) {ws : List Write}
    (hws : ∀ x ∈ ws, ∀ m ∈ Write.message x, m ∈ known) : Sourced known (run write w ws) := by
  induction ws generalizing w with
  | nil => exact h
  | cons x ws ih =>
    refine ih ?_ fun y hy => hws y (List.mem_cons_of_mem _ hy)
    have hx := hws x (by simp)
    cases x with
    | putEmit m =>
      refine ⟨fun key m' hm' => ?_, h.published⟩
      by_cases hkey : key = m.id
      · subst hkey
        simp only [write, Function.update_self, Option.some.injEq] at hm'
        exact hm' ▸ hx m rfl
      · exact h.stored key m' (by simpa [write, Function.update_of_ne hkey] using hm')
    | deleteEmit key =>
      refine ⟨fun key' m' hm' => ?_, h.published⟩
      by_cases hkey : key' = key
      · simp [write, hkey] at hm'
      · exact h.stored key' m' (by simpa [write, Function.update_of_ne hkey] using hm')
    | publish m =>
      refine ⟨h.stored, fun m' hm' => ?_⟩
      rcases List.mem_append.mp hm' with hm' | hm'
      · exact h.published m' hm'
      · exact List.mem_singleton.mp hm' ▸ hx m rfl
    | save id st => exact ⟨h.stored, h.published⟩
    | forget id => exact ⟨h.stored, h.published⟩
    | putClosed id scheduledAt => exact ⟨h.stored, h.published⟩
    | putTick key tick => exact ⟨h.stored, h.published⟩
    | deleteTick key => exact ⟨h.stored, h.published⟩

theorem decisionsOf_append (xs ys : List Write) : decisionsOf (xs ++ ys) = decisionsOf xs ++ decisionsOf ys :=
  List.filterMap_append

theorem decisionsOf_emit (m : TransitionMsg) (o : Outside) : decisionsOf (emit m o) = [] := by
  unfold emit
  split <;> rfl

theorem decisionsOf_commit (id : String) (monitor : MonitorConfig) (st : MonitorState) (t : Option Transition)
    (regions : Results) (o : Outside) :
    decisionsOf (commit id monitor st t regions o) = (t.map fun t => message id monitor t regions o).toList := by
  cases t with
  | none => rfl
  | some t =>
    rw [commit, decisionsOf_append, decisionsOf_emit]
    rfl

theorem decisionsOf_closing (w : Working) (c : Closing) :
    decisionsOf (c.writes w) = ((verdict w c.id c.monitor c.tick c.outside).2.map fun t =>
      message c.id c.monitor t c.tick.results c.outside).toList := by
  simp only [Closing.writes, close, decisionsOf_append, decisionsOf_commit]
  simp [decisionsOf]

/-- A handler stores and publishes what it decides, and publishes what was stored. -/
theorem message_writes {config : Config} {w : Working} {e : Event} {x : Write} (hx : x ∈ writes config w e)
    {m : TransitionMsg} (hm : Write.message x = some m) :
    m ∈ decisionsOf (writes config w e) ∨ ∃ key, w.emit key = some m := by
  have hemit : ∀ {m' : TransitionMsg} {o : Outside}, x ∈ emit m' o → m = m' := fun {m' o} hx => by
    unfold emit at hx
    split at hx
    · rcases List.mem_cons.mp hx with rfl | hx
      · exact (Option.some.inj hm).symm
      · rw [List.mem_singleton.mp hx] at hm
        cases hm
    · cases hx
  have hcommit : ∀ {id monitor st t regions o}, x ∈ commit id monitor st t regions o →
      m ∈ decisionsOf (commit id monitor st t regions o) := fun {id monitor st t regions o} hx => by
    rw [decisionsOf_commit]
    cases t with
    | none =>
      rw [List.mem_singleton.mp hx] at hm
      cases hm
    | some t =>
      simp only [commit, List.cons_append, List.nil_append, List.mem_cons] at hx
      rcases hx with rfl | rfl | hx
      · simpa using (Option.some.inj hm).symm
      · cases hm
      · simpa using hemit hx
  have hh := handling_writes config w e
  generalize writes config w e = ws at hh hx ⊢
  cases hh with
  | ignored _ => cases hx
  | @closed e c _ =>
    rw [Closing.writes, close, decisionsOf_append, decisionsOf_append]
    rw [Closing.writes, close] at hx
    simp only [List.mem_append, List.mem_singleton] at hx
    rcases hx with (hx | rfl) | rfl
    · exact .inl (List.mem_append_left _ (List.mem_append_left _ (hcommit hx)))
    · cases hm
    · cases hm
  | opened => rw [List.mem_singleton.mp hx] at hm; cases hm
  | dropped => rw [List.mem_singleton.mp hx] at hm; cases hm
  | expired => rw [List.mem_singleton.mp hx] at hm; cases hm
  | forgot => rw [List.mem_singleton.mp hx] at hm; cases hm
  | timedOut => exact .inl (hcommit hx)
  | @emitted key o m' hm' => exact .inr ⟨key, hemit hx ▸ hm'⟩

theorem sourced_evaluate {known : List TransitionMsg} {w : Working} (h : Sourced known w) (config : Config) (e : Event) :
    Sourced (known ++ decisionsOf (writes config w e)) (step config w e) := by
  refine sourced_run (h.mono fun m hm => List.mem_append_left _ hm) fun x hx m hm => ?_
  rcases message_writes hx hm with hd | ⟨key, hkey⟩
  · exact List.mem_append_right _ hd
  · exact List.mem_append_left _ (h.stored key m hkey)

/-- A handler moves one machine, or none: then it decides nothing and states are kept or
forgotten. A state it moves was stored, unless the handler closes a tick. -/
theorem moves_or_keeps (config : Config) (w : Working) (e : Event) :
    (∃ id monitor r regions o, config id = some monitor ∧ monitor.active = true ∧
      Moves (monitorState w id monitor) r ∧ (step config w e).mon = Function.update w.mon id (some r.1) ∧
      decisionsOf (writes config w e) = (r.2.map fun t => message id monitor t regions o).toList ∧
      (behind w id monitor = true → ∃ c ∈ closing config w e, c.id = id)) ∨
    decisionsOf (writes config w e) = [] ∧ closing config w e = none ∧
      ∀ id, (step config w e).mon id = w.mon id ∨
        (step config w e).mon id = none ∧ ∃ monitor, config id = some monitor ∧ monitor.active = false := by
  have hh := handling_writes config w e
  unfold step
  generalize writes config w e = ws at hh ⊢
  cases hh with
  | ignored hnone => exact .inr ⟨rfl, hnone, fun _ => .inl rfl⟩
  | @closed e c hc =>
    obtain ⟨hconfig, hactive, -⟩ := closing_spec hc
    exact .inl ⟨c.id, c.monitor, verdict w c.id c.monitor c.tick c.outside, c.tick.results, c.outside, hconfig, hactive,
      moves_applyTick .., mon_closing .., decisionsOf_closing .., fun _ => ⟨c, hc, rfl⟩⟩
  | opened hconfig hactive hlate hnone => exact .inr ⟨rfl, hnone, fun _ => .inl rfl⟩
  | dropped hnone => exact .inr ⟨rfl, hnone, fun _ => .inl rfl⟩
  | expired => exact .inr ⟨rfl, rfl, fun _ => .inl rfl⟩
  | @forgot now id o monitor hconfig hactive =>
    refine .inr ⟨rfl, rfl, fun id' => ?_⟩
    by_cases hid : id' = id
    · subst hid
      exact .inr ⟨by simp [write], monitor, hconfig, hactive⟩
    · exact .inl (by simp [write, Function.update_of_ne hid])
  | @timedOut now id o monitor st t hconfig hactive hnodata =>
    refine .inl ⟨id, monitor, (st, some t), [], o, hconfig, hactive, ?_, mon_commit .., decisionsOf_commit .., ?_⟩
    · exact hnodata ▸ moves_checkNodata _ now monitor.intervalS
    · simp [not_behind_of_checkNodata hnodata]
  | emitted hm => exact .inr ⟨decisionsOf_emit .., rfl, fun _ => .inl (by rw [mon_emit])⟩

/-- All that is stored, published or recorded was decided, and ticks stand under their ids. -/
structure Traced (s : System) : Prop where
  keyed : Keyed s.working
  sourced : Sourced s.decided s.working
  rows : ∀ r ∈ s.db.transitions, r ∈ s.decided

theorem traced_start (monitors : String → Option MonitorRow) : Traced (start monitors) :=
  ⟨keyed_empty, ⟨fun _ _ h => by simp [start, empty] at h, by simp [start, empty]⟩, by simp [start]⟩

theorem traced_act {s : System} (h : Traced s) (a : Act) : Traced (act s a) := by
  cases a with
  | evaluate e =>
    exact ⟨keyed_step h.keyed s.config e, sourced_evaluate h.sourced s.config e,
      fun r hr => List.mem_append_left _ (h.rows r hr)⟩
  | lose gone =>
    refine ⟨fun key tick htick => ?_, ⟨fun key m hm => ?_, h.sourced.published⟩, h.rows⟩
    · have htick : (if gone.ticks key then none else s.working.ticks key) = some tick := htick
      split at htick
      · cases htick
      · exact h.keyed key tick htick
    have hm : (if gone.emit key then none else s.working.emit key) = some m := hm
    split at hm
    · cases hm
    · exact h.sourced.stored key m hm
  | deliver now n =>
    simp only [act]
    cases hm : s.working.published[n]? with
    | none => exact h
    | some m =>
      refine ⟨h.keyed, h.sourced, fun r hr => ?_⟩
      have hr : r ∈ (deliver s.db (now, m)).transitions := hr
      rw [(handled_deliver s.db (now, m)).transitions] at hr
      rcases List.mem_append.mp hr with hold | hnew
      · exact h.rows r hold
      · split at hnew
        · exact List.mem_singleton.mp hnew ▸ h.sourced.published m (List.mem_of_getElem? hm)
        · cases hnew
  | edit now cur id in_ =>
    refine ⟨h.keyed, h.sourced, fun r hr => ?_⟩
    have hr : r ∈ (edit s.db now cur id in_).transitions := hr
    rw [(edited_edit s.db now cur id in_).transitions] at hr
    exact h.rows r hr
  | rewrite => exact ⟨h.keyed, h.sourced, h.rows⟩
  | reload => exact ⟨h.keyed, h.sourced, h.rows⟩

/-! ## No number is given twice -/

/-- The row would keep the transition from being stored. -/
def standsInWay (r m : TransitionMsg) : Prop := r.id = m.id ∨ (r.monitorId = m.monitorId ∧ r.seq = m.seq)

/-- Every decision has a monitor and number of its own, and what stands in a decision's way
when it is to be stored is the decision itself. -/
def Unique (s : System) : Prop :=
  s.decided.Pairwise (fun a b => ¬(a.monitorId = b.monitorId ∧ a.seq = b.seq)) ∧
    ∀ m ∈ s.decided, ∀ r ∈ s.db.transitions, standsInWay r m → r = m

/-- A tick closes on a state rebuilt from the snapshot only when the snapshot's number is
not below one already decided. -/
def Fits (s : System) : Act → Prop
  | .evaluate e => ∀ c ∈ closing s.config s.working e, behind s.working c.id c.monitor = true →
      ∀ m ∈ s.decided, m.monitorId = c.id → m.seq ≤ c.monitor.lastTransitionSeq
  | _ => True

/-- Stored states are not behind the decisions, and these have numbers of their own. -/
structure Numbered (s : System) : Prop extends Traced s where
  current : ∀ id st, s.working.mon id = some st → ∀ m ∈ s.decided, m.monitorId = id → m.seq ≤ st.seq
  unique : s.decided.Pairwise fun a b => ¬(a.monitorId = b.monitorId ∧ a.seq = b.seq)

theorem numbered_start (monitors : String → Option MonitorRow) : Numbered (start monitors) where
  toTraced := traced_start monitors
  current := fun id st h => by simp [start, empty] at h
  unique := List.Pairwise.nil

/-- Two decisions of one monitor and number are one. -/
theorem Numbered.eq {s : System} (h : Numbered s) {a b : TransitionMsg} (ha : a ∈ s.decided) (hb : b ∈ s.decided)
    (hmon : a.monitorId = b.monitorId) (hseq : a.seq = b.seq) : a = b := by
  by_contra hne
  have hsymm : Std.Symm fun a b : TransitionMsg => ¬(a.monitorId = b.monitorId ∧ a.seq = b.seq) :=
    ⟨fun _ _ h he => h ⟨he.1.symm, he.2.symm⟩⟩
  exact h.unique.forall ha hb hne ⟨hmon, hseq⟩

theorem Numbered.toUnique {s : System} (h : Numbered s) : Unique s := by
  refine ⟨h.unique, fun m hm r hr hway => ?_⟩
  rcases hway with hid | ⟨hmon, hseq⟩
  · obtain ⟨hmon, hseq⟩ := Prod.mk.inj hid
    exact h.eq (h.rows r hr) hm hmon hseq
  · exact h.eq (h.rows r hr) hm hmon hseq

theorem numbered_evaluate {s : System} (h : Numbered s) {e : Event} (hfits : Fits s (.evaluate e)) :
    Numbered (act s (.evaluate e)) := by
  have htraced := traced_act h.toTraced (.evaluate e)
  rcases moves_or_keeps s.config s.working e with
    ⟨id, monitor, r, regions, o, hconfig, -, hmoves, hmon, hdecided, hbehind⟩ | ⟨hdecided, -, hmon⟩
  · -- The machine starts from a state no decision of the monitor is ahead of.
    have hstart : ∀ m ∈ s.decided, m.monitorId = id → m.seq ≤ (monitorState s.working id monitor).seq := by
      cases hb : behind s.working id monitor with
      | false => exact h.current id _ (monitorState_of_not_behind hb)
      | true =>
        obtain ⟨c, hc, rfl⟩ := hbehind hb
        obtain ⟨hconfig', -, -⟩ := closing_spec hc
        obtain rfl : monitor = c.monitor := Option.some.inj (hconfig.symm.trans hconfig')
        rw [monitorState_of_behind hb]
        exact hfits c hc hb
    have hnew : ∀ m ∈ decisionsOf (writes s.config s.working e), m.monitorId = id ∧
        m.seq = (monitorState s.working id monitor).seq + 1 ∧ m.seq = r.1.seq := by
      rw [hdecided]
      intro m hm
      simp only [Option.mem_toList, Option.map_eq_some_iff] at hm
      obtain ⟨t, ht, rfl⟩ := hm
      obtain ⟨-, -, hseq, hseq', -⟩ := hmoves.moved t ht
      exact ⟨rfl, hseq, hseq.trans hseq'.symm⟩
    refine ⟨htraced, fun id' st hst m hm hmid => ?_, ?_⟩
    · have hst : (step s.config s.working e).mon id' = some st := hst
      rw [hmon] at hst
      by_cases hid : id' = id
      · subst hid
        rw [Function.update_self] at hst
        obtain rfl := Option.some.inj hst
        rcases List.mem_append.mp hm with hold | hnow
        · exact (hstart m hold hmid).trans hmoves.seq_le
        · exact (hnew m hnow).2.2.le
      · rw [Function.update_of_ne hid] at hst
        rcases List.mem_append.mp hm with hold | hnow
        · exact h.current id' st hst m hold hmid
        · exact absurd (hmid.symm.trans (hnew m hnow).1) hid
    · refine List.pairwise_append.mpr ⟨h.unique, ?_, fun a ha b hb he => ?_⟩
      · rw [hdecided]
        cases r.2 <;> simp
      · obtain ⟨hbid, hbseq, -⟩ := hnew b hb
        have hle := hstart a ha (he.1.trans hbid)
        have hseq := he.2
        omega
  · have hact : act s (.evaluate e) = { s with working := step s.config s.working e } := by simp [act, hdecided]
    rw [hact] at htraced ⊢
    refine ⟨htraced, fun id st hst => ?_, h.unique⟩
    rcases hmon id with hsame | ⟨hgone, -⟩
    · exact h.current id st (hsame ▸ hst)
    · have hst : (step s.config s.working e).mon id = some st := hst
      simp [hgone] at hst

theorem numbered_act {s : System} (h : Numbered s) {a : Act} (hfits : Fits s a) : Numbered (act s a) := by
  have htraced := traced_act h.toTraced a
  cases a with
  | evaluate e => exact numbered_evaluate h hfits
  | lose gone =>
    refine ⟨htraced, fun id st hst => ?_, h.unique⟩
    have hst : (if gone.mon id then none else s.working.mon id) = some st := hst
    split at hst
    · cases hst
    · exact h.current id st hst
  | deliver now n =>
    simp only [act] at htraced ⊢
    cases hm : s.working.published[n]? with
    | none => exact h
    | some m =>
      rw [hm] at htraced
      exact ⟨htraced, h.current, h.unique⟩
  | edit now cur id in_ => exact ⟨htraced, h.current, h.unique⟩
  | rewrite => exact ⟨htraced, h.current, h.unique⟩
  | reload => exact ⟨htraced, h.current, h.unique⟩

instance (s : System) : (a : Act) → Decidable (Fits s a)
  | .evaluate e => inferInstanceAs (Decidable (∀ c ∈ closing s.config s.working e,
      behind s.working c.id c.monitor = true → ∀ m ∈ s.decided, m.monitorId = c.id → m.seq ≤ c.monitor.lastTransitionSeq))
  | .lose _ | .deliver _ _ | .edit _ _ _ _ | .rewrite | .reload => isTrue trivial

/-- One monitor, checked from one region. -/
def oneMonitor : String → Option MonitorRow := fun id =>
  if id = "m" then some ⟨"m", "o", "api", true, .pending, 60, 1, 1, 0, 0⟩ else none

def answer (slot : ℕ) (ok : Bool) : Act :=
  .evaluate (.result ⟨"m", slot, ["eu"], "eu", false, ok, "timeout", slot + 1, 10, slot_nonneg slot⟩
    ⟨slot + 1, slot + 1, true⟩)

def everything : Loss := ⟨fun _ => true, fun _ => true, fun _ => true, fun _ => true⟩

end Upstat.MonitoringSystem
