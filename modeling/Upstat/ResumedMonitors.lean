import Upstat.MonitoringSystem

/-! # A monitor that was paused and resumed

The service resets the row when the monitor is resumed, the evaluator forgets its state when
a sweep sees the monitor inactive. This module follows one pause and resume from the edit
to the next pause, and says what both have to have seen for the two to start afresh together. -/
namespace Upstat.ResumedMonitors

open GuardedRuns MonitorMachine CommonDatabase TransitionConsumer EvaluatorPrograms MonitoringSystem

/-- A run around one pause and resume of a monitor: what came before, the two edits and what
lies between them, the time until the evaluator loads the resumed monitor, and what follows. -/
structure PausedRun (id : String) where
  monitors : String → Option MonitorRow
  before : List Act
  pausedAt : ℚ
  pauseRead : MonitorRow
  pause : MonitorInput
  pauses : pause.active = some false ∧ pause.refused = false
  between : List Act
  resumedAt : ℚ
  resumeRead : MonitorRow
  resume : MonitorInput
  resumes : resume.active = some true ∧ resume.refused = false
  gap : List Act
  after : List Act

variable {id : String}

/-- The state the resume is committed in. -/
def PausedRun.resumed (p : PausedRun id) : System :=
  run act (start p.monitors) (p.before ++ [.edit p.pausedAt p.pauseRead id p.pause] ++ p.between ++
    [.edit p.resumedAt p.resumeRead id p.resume])

/-- The state before the evaluator loads the snapshot that shows the monitor resumed. -/
def PausedRun.loading (p : PausedRun id) : System := run act p.resumed p.gap

/-- The state after it has. -/
def PausedRun.loaded (p : PausedRun id) : System := act p.loading .reload

/-- The tick of the monitor an act applies. -/
def closedTick (id : String) (s : System) : Act → Option OpenTick
  | .evaluate e => ((closing s.config s.working e).filter (·.id = id)).map Closing.tick
  | _ => none

/-- The ticks of the monitor applied in a run from the state on. -/
def appliedTicks (id : String) : System → List Act → List OpenTick
  | _, [] => []
  | s, a :: as => (closedTick id s a).toList ++ appliedTicks id (act s a) as

/-- No result for a slot before the pause comes in, no state is lost, nobody pauses again. -/
def Undisturbed (id : String) (pausedAt : ℚ) : Act → Prop
  | .evaluate (.result m _) => m.monitorId = id → pausedAt ≤ m.scheduledAt
  | .lose gone => gone.mon id = false
  | .edit _ _ id' in_ => id' = id → in_.active ≠ some false
  | _ => True

/-- The evaluator stayed with the monitor inactive until it loads it resumed. By then a
sweep has forgotten its state, no open tick is older than the pause, and the snapshot, as
the row still is, is pending under a number no decision is above. Nothing disturbs it after. -/
structure StartsAfresh (p : PausedRun id) : Prop where
  inactive : Throughout act (fun s => ∀ c ∈ s.config id, c.active = false) p.resumed p.gap
  forgotten : p.loading.working.mon id = none
  ticks : ∀ key tick, p.loading.working.ticks key = some tick → tick.monitorId = id → p.pausedAt ≤ tick.scheduledAt
  snapshot : ∃ c ∈ p.loading.stored id, c.active = true ∧ c.status = .pending ∧ c.consecutiveFailures = 0 ∧
    (∀ m ∈ p.loading.decided, m.monitorId = id → m.seq ≤ c.lastTransitionSeq) ∧
    ∃ r ∈ p.loading.db.monitors id, r.active = true ∧ r.status = .pending ∧ r.lastTransitionSeq = c.lastTransitionSeq
  undisturbed : ∀ a ∈ p.after, Undisturbed id p.pausedAt a

/-- No tick of the monitor that closes passes. -/
def NoPass (id : String) (s : System) : Act → Prop
  | .evaluate e => ∀ c ∈ closing s.config s.working e, c.id = id →
      tickFailed c.tick.results c.monitor.minFailingRegions ≠ some false
  | _ => True

/-- The row has the status the evaluator goes on from. -/
def StatusesAgree (id : String) (s : System) : Prop :=
  ∃ r ∈ s.db.monitors id, ∃ c ∈ s.config id, r.status = (monitorState s.working id c).status

/-- The latest decision, if there is one since the number, has been handled. -/
def LatestHandled (id : String) (top : ℕ) (s : System) : Prop :=
  ∀ c ∈ s.config id, ∀ m ∈ s.decided, m.monitorId = id → top < m.seq →
    m.seq = (monitorState s.working id c).seq → recorded s.db m = true

/-- What the resume is to bring about. -/
structure RestartsPending (p : PausedRun id) : Prop where
  restarts : ∃ c ∈ p.loaded.config id, (monitorState p.loaded.working id c).status = .pending ∧
    (monitorState p.loaded.working id c).consecutiveFailures = 0
  no_old_tick : ∀ tick ∈ appliedTicks id p.resumed (p.gap ++ .reload :: p.after), p.pausedAt ≤ tick.scheduledAt
  first_pass : ∀ as e bs, p.after = as ++ .evaluate e :: bs → Meets act (NoPass id) p.loaded as →
    let s := run act p.loaded as
    ∀ c ∈ closing s.config s.working e, c.id = id →
      tickFailed c.tick.results c.monitor.minFailingRegions = some false →
      ∃ m ∈ decisionsOf (writes s.config s.working e), m.monitorId = id ∧ m.to_ = .up
  agree : ∀ c ∈ p.loaded.config id, ∀ as, as <+: p.after →
    LatestHandled id c.lastTransitionSeq (run act p.loaded as) → StatusesAgree id (run act p.loaded as)

/-! ## The evaluator and the row after the resume -/

/-- The number is that of the resume, with pending, or of a decision since, with what it
went to. -/
def At (id : String) (top : ℕ) (decided : List TransitionMsg) (seq : ℕ) (status : Status) : Prop :=
  (seq = top ∧ status = .pending) ∨ ∃ m ∈ decided, m.monitorId = id ∧ top < m.seq ∧ m.seq = seq ∧ m.to_ = status

/-- The number the evaluator goes on from. -/
def seqOf (id : String) (top : ℕ) (w : Working) : ℕ := (w.mon id).elim top MonitorState.seq

/-- Since the evaluator loaded the resumed monitor, its state, its copy of the snapshot, the
snapshot and the row each stand at some decision made since, the first ahead of the others. -/
structure Resumed (id : String) (pausedAt : ℚ) (top : ℕ) (s : System) : Prop extends Traced s where
  ticks : ∀ key tick, s.working.ticks key = some tick → tick.monitorId = id → pausedAt ≤ tick.scheduledAt
  bound : ∀ m ∈ s.decided, m.monitorId = id → m.seq ≤ seqOf id top s.working
  single : ∀ m ∈ s.decided, ∀ m' ∈ s.decided, m.monitorId = id → m'.monitorId = id → top < m.seq → m.seq = m'.seq →
    m.to_ = m'.to_
  state : ∀ st, s.working.mon id = some st → At id top s.decided st.seq st.status
  copy : ∃ c, s.config id = some c ∧ c.active = true ∧ At id top s.decided c.lastTransitionSeq c.status ∧
    c.lastTransitionSeq ≤ seqOf id top s.working
  stored : ∃ c, s.stored id = some c ∧ c.active = true ∧ At id top s.decided c.lastTransitionSeq c.status ∧
    c.lastTransitionSeq ≤ seqOf id top s.working
  row : ∃ r, s.db.monitors id = some r ∧ r.active = true ∧ At id top s.decided r.lastTransitionSeq r.status ∧
    r.lastTransitionSeq ≤ seqOf id top s.working ∧
    ∀ m ∈ s.db.transitions, m.monitorId = id → top < m.seq → m.seq ≤ r.lastTransitionSeq

variable {pausedAt : ℚ} {top : ℕ} {s : System}

theorem At.mono {decided decided' : List TransitionMsg} {seq : ℕ} {status : Status} (h : At id top decided seq status)
    (hsub : ∀ m ∈ decided, m ∈ decided') : At id top decided' seq status := by
  rcases h with h | ⟨m, hm, hrest⟩
  · exact .inl h
  · exact .inr ⟨m, hsub m hm, hrest⟩

theorem At.top_le {decided : List TransitionMsg} {seq : ℕ} {status : Status} (h : At id top decided seq status) :
    top ≤ seq := by
  rcases h with ⟨rfl, -⟩ | ⟨m, -, -, hlt, rfl, -⟩
  · exact le_rfl
  · exact hlt.le

/-- At one number there is one status. -/
theorem Resumed.at_unique (h : Resumed id pausedAt top s) {seq : ℕ} {status status' : Status}
    (ha : At id top s.decided seq status) (hb : At id top s.decided seq status') : status = status' := by
  rcases ha with ⟨rfl, rfl⟩ | ⟨m, hm, hmon, hlt, rfl, rfl⟩
  · rcases hb with ⟨-, rfl⟩ | ⟨m', -, -, hlt', hseq', -⟩
    · rfl
    · omega
  · rcases hb with ⟨hseq, -⟩ | ⟨m', hm', hmon', -, hseq', rfl⟩
    · omega
    · exact h.single m hm m' hm' hmon hmon' hlt hseq'.symm

/-- The machine goes on from the stored state, or from pending at the number of the resume. -/
theorem Resumed.goesOn (h : Resumed id pausedAt top s) {c : MonitorConfig} (hc : s.config id = some c) :
    (∀ st, s.working.mon id = some st → monitorState s.working id c = st) ∧
      (monitorState s.working id c).seq = seqOf id top s.working ∧
      At id top s.decided (monitorState s.working id c).seq (monitorState s.working id c).status := by
  obtain ⟨c', hc', -, hat, hle⟩ := h.copy
  obtain rfl : c = c' := Option.some.inj (hc.symm.trans hc')
  cases hmon : s.working.mon id with
  | none =>
    have hseq : seqOf id top s.working = top := by simp [seqOf, hmon]
    have hstate : monitorState s.working id c = rebuilt c := by simp [monitorState, hmon]
    rw [hstate, hseq]
    exact ⟨fun st hst => by simp at hst, le_antisymm (hseq ▸ hle) hat.top_le, hat⟩
  | some st =>
    have hseq : seqOf id top s.working = st.seq := by simp [seqOf, hmon]
    have hstate : monitorState s.working id c = st := by simp [monitorState, hmon, hseq ▸ hle]
    rw [hstate, hseq]
    exact ⟨fun st' hst' => Option.some.inj hst', rfl, h.state st hmon⟩

/-- Where the latest decision has been handled, the row has caught up. -/
theorem Resumed.agree (h : Resumed id pausedAt top s) (hhandled : LatestHandled id top s) : StatusesAgree id s := by
  obtain ⟨c, hc, -, -, -⟩ := h.copy
  obtain ⟨r, hr, -, hat, hle, hrows⟩ := h.row
  obtain ⟨-, hseq, hstate⟩ := h.goesOn hc
  refine ⟨r, hr, c, hc, ?_⟩
  have heq : r.lastTransitionSeq = (monitorState s.working id c).seq := by
    rcases hstate with ⟨htop, -⟩ | ⟨m, hm, hmon, hlt, hmseq, -⟩
    · have := hat.top_le
      omega
    · -- The row that records the latest decision is not above the row's own number.
      have hrec := hhandled c hc m hm hmon hlt hmseq
      simp only [recorded, List.any_eq_true, decide_eq_true_eq] at hrec
      obtain ⟨m', hm', hway⟩ := hrec
      have hsame : m'.monitorId = m.monitorId ∧ m'.seq = m.seq := by
        rcases hway with hid | hway
        · exact Prod.mk.inj hid
        · exact hway
      have hle' := hrows m' hm' (hsame.1.trans hmon) (by omega)
      omega
  exact h.at_unique hat (heq ▸ hstate)

/-! ## Each step after the resume -/

/-- No tick older than the pause is opened, unless a result for it comes in. -/
theorem ticks_evaluate (config : Config) {w : Working} {e : Event}
    (h : ∀ key tick, w.ticks key = some tick → tick.monitorId = id → pausedAt ≤ tick.scheduledAt)
    (ha : Undisturbed id pausedAt (.evaluate e)) :
    ∀ key tick, (step config w e).ticks key = some tick → tick.monitorId = id → pausedAt ≤ tick.scheduledAt := by
  have hdelete : ∀ key', ∀ key tick, Function.update w.ticks key' none key = some tick → tick.monitorId = id →
      pausedAt ≤ tick.scheduledAt := fun key' key tick htick => by
    by_cases hkey : key = key'
    · simp [hkey] at htick
    · exact h key tick (by rwa [Function.update_of_ne hkey] at htick)
  have hh := handling_writes config w e
  unfold step
  generalize writes config w e = ws at hh ⊢
  cases hh with
  | ignored _ => exact h
  | @closed e c _ => rw [ticks_closing]; exact hdelete c.key
  | @opened m o monitor hconfig hactive hlate _ =>
    intro key tick htick hid
    by_cases hkey : key = m.tickId
    · subst hkey
      simp only [run_cons, run_nil, write, Function.update_self, Option.some.injEq] at htick
      subst htick
      obtain ⟨hmon, hsched⟩ := hear_same ((w.ticks m.tickId).getD (newTick m)) m
      rw [hmon] at hid
      rw [hsched]
      cases hold : w.ticks m.tickId with
      | none => exact ha (by simpa [hold, newTick] using hid)
      | some tick => exact h _ tick hold (by simpa [hold] using hid)
    · exact h key tick (by simpa [write, Function.update_of_ne hkey] using htick) hid
  | @dropped now key' o _ => exact hdelete key'
  | @expired key' => exact hdelete key'
  | forgot hconfig hactive => exact h
  | timedOut hconfig hactive hnodata => rw [ticks_commit]; exact h
  | emitted hm => rw [ticks_emit]; exact h

theorem resumed_evaluate (h : Resumed id pausedAt top s) {e : Event} (ha : Undisturbed id pausedAt (.evaluate e)) :
    Resumed id pausedAt top (act s (.evaluate e)) := by
  have htraced := traced_act h.toTraced (.evaluate e)
  have hticks := ticks_evaluate s.config h.ticks ha
  obtain ⟨c, hc, hcactive, hcat, hcle⟩ := h.copy
  obtain ⟨c', hc', hcactive', hcat', hcle'⟩ := h.stored
  obtain ⟨r, hr, hractive, hrat, hrle, hrows⟩ := h.row
  -- Decisions about other monitors, or none, leave everything where it stands.
  have hother : (step s.config s.working e).mon id = s.working.mon id →
      (∀ m ∈ decisionsOf (writes s.config s.working e), m.monitorId ≠ id) →
      Resumed id pausedAt top (act s (.evaluate e)) := by
    intro hmon hnew
    have hseq : seqOf id top (step s.config s.working e) = seqOf id top s.working := by simp [seqOf, hmon]
    have hsub : ∀ m ∈ s.decided, m ∈ s.decided ++ decisionsOf (writes s.config s.working e) := fun m hm =>
      List.mem_append_left _ hm
    have hold : ∀ m ∈ s.decided ++ decisionsOf (writes s.config s.working e), m.monitorId = id → m ∈ s.decided :=
      fun m hm hid => (List.mem_append.mp hm).resolve_right fun hm => hnew m hm hid
    exact {
      toTraced := htraced
      ticks := hticks
      bound := fun m hm hid => hseq ▸ h.bound m (hold m hm hid) hid
      single := fun m hm m' hm' hid hid' => h.single m (hold m hm hid) m' (hold m' hm' hid') hid hid'
      state := fun st hst => (h.state st (hmon ▸ hst)).mono hsub
      copy := ⟨c, hc, hcactive, hcat.mono hsub, hseq ▸ hcle⟩
      stored := ⟨c', hc', hcactive', hcat'.mono hsub, hseq ▸ hcle'⟩
      row := ⟨r, hr, hractive, hrat.mono hsub, hseq ▸ hrle, hrows⟩ }
  rcases moves_or_keeps s.config s.working e with
    ⟨id', monitor, x, regions, o, hconfig, -, hmoves, hmon, hdecided, -⟩ | ⟨hdecided, -, hmon⟩
  · by_cases hid : id' = id
    · subst hid
      obtain ⟨-, hstartseq, hstart⟩ := h.goesOn hconfig
      have hseq : seqOf id' top (step s.config s.working e) = x.1.seq := by simp [seqOf, hmon]
      have hge : seqOf id' top s.working ≤ x.1.seq := hstartseq ▸ hmoves.seq_le
      have hsub : ∀ m ∈ s.decided, m ∈ s.decided ++ decisionsOf (writes s.config s.working e) := fun m hm =>
        List.mem_append_left _ hm
      have hnew : ∀ m ∈ decisionsOf (writes s.config s.working e), m.monitorId = id' ∧
          m.seq = seqOf id' top s.working + 1 ∧ m.seq = x.1.seq ∧ m.to_ = x.1.status := by
        rw [hdecided]
        intro m hm
        simp only [Option.mem_toList, Option.map_eq_some_iff] at hm
        obtain ⟨t, ht, rfl⟩ := hm
        obtain ⟨-, hto, htseq, hxseq, -⟩ := hmoves.moved t ht
        exact ⟨rfl, by rw [← hstartseq]; exact htseq, htseq.trans hxseq.symm, hto⟩
      have hstate : At id' top (s.decided ++ decisionsOf (writes s.config s.working e)) x.1.seq x.1.status := by
        cases ht : x.2 with
        | none =>
          obtain ⟨hstatus, hxseq⟩ := hmoves.stays ht
          rw [hstatus, hxseq]
          exact hstart.mono hsub
        | some t =>
          have hm : message id' monitor t regions o ∈ decisionsOf (writes s.config s.working e) := by simp [hdecided, ht]
          obtain ⟨hmid, hmseq, hmx, hmto⟩ := hnew _ hm
          have htop := hstart.top_le
          exact .inr ⟨_, List.mem_append_right _ hm, hmid, by omega, hmx, hmto⟩
      exact {
        toTraced := htraced
        ticks := hticks
        bound := fun m hm hmid => by
          rcases List.mem_append.mp hm with hm | hm
          · exact (h.bound m hm hmid).trans (hseq ▸ hge)
          · exact (hseq ▸ (hnew m hm).2.2.1).le
        single := fun m hm m' hm' hmid hmid' hlt he => by
          rcases List.mem_append.mp hm with hm | hm <;> rcases List.mem_append.mp hm' with hm' | hm'
          · exact h.single m hm m' hm' hmid hmid' hlt he
          · have := h.bound m hm hmid
            have := (hnew m' hm').2.1
            omega
          · have := h.bound m' hm' hmid'
            have := (hnew m hm).2.1
            omega
          · rw [(hnew m hm).2.2.2, (hnew m' hm').2.2.2]
        state := fun st hst => by
          have hst : (step s.config s.working e).mon id' = some st := hst
          rw [hmon, Function.update_self] at hst
          exact Option.some.inj hst ▸ hstate
        copy := ⟨c, hc, hcactive, hcat.mono hsub, hcle.trans (hseq ▸ hge)⟩
        stored := ⟨c', hc', hcactive', hcat'.mono hsub, hcle'.trans (hseq ▸ hge)⟩
        row := ⟨r, hr, hractive, hrat.mono hsub, hrle.trans (hseq ▸ hge), hrows⟩ }
    · refine hother (by rw [hmon, Function.update_of_ne (Ne.symm hid)]) fun m hm => ?_
      rw [hdecided] at hm
      simp only [Option.mem_toList, Option.map_eq_some_iff] at hm
      obtain ⟨t, -, rfl⟩ := hm
      exact hid
  · refine hother ?_ (by simp [hdecided])
    rcases hmon id with hsame | ⟨-, monitor, hconfig, hinactive⟩
    · exact hsame
    · -- The evaluator's copy shows the monitor active, so no sweep forgets it.
      obtain rfl : c = monitor := Option.some.inj (hc.symm.trans hconfig)
      simp [hcactive] at hinactive

theorem resumed_deliver (h : Resumed id pausedAt top s) (now : ℚ) (n : ℕ) :
    Resumed id pausedAt top (act s (.deliver now n)) := by
  have htraced := traced_act h.toTraced (.deliver now n)
  simp only [act] at htraced ⊢
  cases hm : s.working.published[n]? with
  | none => exact h
  | some m =>
    rw [hm] at htraced
    have hspec := handled_deliver s.db (now, m)
    have hdecided : m ∈ s.decided := h.sourced.published m (List.mem_of_getElem? hm)
    obtain ⟨r, hr, hractive, hrat, hrle, hrows⟩ := h.row
    refine ⟨htraced, h.ticks, h.bound, h.single, h.state, h.copy, h.stored, ?_⟩
    dsimp only
    rw [hspec.monitors, hspec.transitions]
    by_cases hid : m.monitorId = id
    · have happlies : applies s.db m = decide (r.lastTransitionSeq < m.seq) := by
        simp [applies, hid, hr, hractive]
      -- A row about the monitor that is recorded now is the message itself.
      have hrows' : ∀ m' ∈ s.db.transitions ++ (if fresh s.db m then [m] else []), m'.monitorId = id →
          top < m'.seq → m'.seq ≤ max r.lastTransitionSeq (if fresh s.db m then m.seq else 0) := fun m' hm' hid' hlt => by
        rcases List.mem_append.mp hm' with hold | hnew
        · exact (hrows m' hold hid' hlt).trans (le_max_left _ _)
        · split at hnew
          · next hfresh => simp [hfresh, List.mem_singleton.mp hnew]
          · cases hnew
      by_cases hmoves : fresh s.db m = true ∧ applies s.db m = true
      · have hlt : r.lastTransitionSeq < m.seq := by simpa [happlies] using hmoves.2
        have htop := hrat.top_le
        rw [if_pos hmoves]
        refine ⟨applied m r, by simp [applyTo, hid, hr], hractive,
          .inr ⟨m, hdecided, hid, by omega, rfl, rfl⟩, h.bound m hdecided hid, fun m' hm' hid' htop' => ?_⟩
        have hle := hrows' m' hm' hid' htop'
        rw [if_pos hmoves.1, max_eq_right hlt.le] at hle
        exact hle
      · rw [if_neg hmoves]
        refine ⟨r, hr, hractive, hrat, hrle, fun m' hm' hid' htop' => ?_⟩
        have hle := hrows' m' hm' hid' htop'
        split at hle
        · next hfresh =>
          have hge : m.seq ≤ r.lastTransitionSeq := by
            simpa [happlies] using not_and.mp hmoves hfresh
          rwa [max_eq_left hge] at hle
        · simpa using hle
    · refine ⟨r, ?_, hractive, hrat, hrle, fun m' hm' hid' htop' => ?_⟩
      · split
        · rw [applyTo, Function.update_of_ne (Ne.symm hid)]
          exact hr
        · exact hr
      · rcases List.mem_append.mp hm' with hold | hnew
        · exact hrows m' hold hid' htop'
        · split at hnew
          · have hsame : m' = m := List.mem_singleton.mp hnew
            exact absurd (hsame ▸ hid') hid
          · cases hnew

theorem resumed_edit (h : Resumed id pausedAt top s) (now : ℚ) (cur : MonitorRow) (id' : String) (in_ : MonitorInput)
    (ha : Undisturbed id pausedAt (.edit now cur id' in_)) : Resumed id pausedAt top (act s (.edit now cur id' in_)) := by
  have htraced := traced_act h.toTraced (.edit now cur id' in_)
  have hspec := edited_edit s.db now cur id' in_
  obtain ⟨r, hr, hractive, hrat, hrle, hrows⟩ := h.row
  refine ⟨htraced, h.ticks, h.bound, h.single, h.state, h.copy, h.stored, ?_⟩
  simp only [act, hspec.monitors, hspec.transitions]
  by_cases hid : id' = id
  · subst hid
    split
    · -- An edit that does not pause keeps an active row's activity, status and number.
      refine ⟨in_.patch r, by simp [hr], ?_, ?_, hrle, hrows⟩
      · rcases hin : in_.active with _ | _ | _
        · simp [MonitorInput.patch, hin, hractive]
        · exact absurd hin (ha rfl)
        · simp [MonitorInput.patch, hin]
      · have hstatus : (in_.patch r).status = r.status := by
          rcases hin : in_.active with _ | _ | _
          · simp [MonitorInput.patch, hin]
          · exact absurd hin (ha rfl)
          · simp [MonitorInput.patch, hin, hractive]
        rw [hstatus]
        exact hrat
    · exact ⟨r, hr, hractive, hrat, hrle, hrows⟩
  · refine ⟨r, ?_, hractive, hrat, hrle, hrows⟩
    split
    · rw [Function.update_of_ne (Ne.symm hid)]
      exact hr
    · exact hr

theorem resumed_act (h : Resumed id pausedAt top s) {a : Act} (ha : Undisturbed id pausedAt a) :
    Resumed id pausedAt top (act s a) := by
  have htraced := traced_act h.toTraced a
  cases a with
  | evaluate e => exact resumed_evaluate h ha
  | lose gone =>
    have hkept : (lose s.working gone).mon id = s.working.mon id := by
      have hgone : gone.mon id = false := ha
      simp [lose, hgone]
    have hseq : seqOf id top (lose s.working gone) = seqOf id top s.working := by simp [seqOf, hkept]
    refine ⟨htraced, fun key tick htick => ?_, fun m hm hid => hseq ▸ h.bound m hm hid, h.single,
      fun st hst => h.state st (hkept ▸ hst), ?_, ?_, ?_⟩
    · have htick : (if gone.ticks key then none else s.working.ticks key) = some tick := htick
      split at htick
      · cases htick
      · exact h.ticks key tick htick
    · simpa only [act, hseq] using h.copy
    · simpa only [act, hseq] using h.stored
    · simpa only [act, hseq] using h.row
  | deliver now n => exact resumed_deliver h now n
  | edit now cur id' in_ => exact resumed_edit h now cur id' in_ ha
  | rewrite =>
    obtain ⟨r, hr, hractive, hrat, hrle, -⟩ := h.row
    refine ⟨htraced, h.ticks, h.bound, h.single, h.state, h.copy, ⟨_, by simp [act, snapshotOf, hr]; rfl, ?_⟩, h.row⟩
    exact ⟨hractive, hrat, hrle⟩
  | reload => exact ⟨htraced, h.ticks, h.bound, h.single, h.state, h.stored, h.stored, h.row⟩

/-! ## Ticks and passes after the resume -/

/-- A tick of the monitor that closes was scheduled after the pause. -/
theorem Resumed.scheduled (h : Resumed id pausedAt top s) {e : Event} (ha : Undisturbed id pausedAt (.evaluate e))
    {c : Closing} (hc : closing s.config s.working e = some c) (hid : c.id = id) : pausedAt ≤ c.tick.scheduledAt := by
  obtain ⟨hkey, hsched⟩ := closing_keyed h.keyed hc
  obtain ⟨-, -, ⟨m, rfl, hmid, hmkey, -, -⟩ | ⟨now, -, htick, hmid, -⟩⟩ := closing_spec hc
  · have hle := ha (hmid.symm.trans hid)
    rw [hsched, hmkey]
    exact hle
  · exact h.ticks c.key c.tick htick (hmid.symm.trans hid)

theorem closedTick_spec {a : Act} {tick : OpenTick} (h : closedTick id s a = some tick) :
    ∃ e c, a = .evaluate e ∧ closing s.config s.working e = some c ∧ c.id = id ∧ c.tick = tick := by
  cases a with
  | evaluate e =>
    simp only [closedTick, Option.map_eq_some_iff, Option.filter_eq_some_iff, decide_eq_true_eq] at h
    obtain ⟨c, ⟨hc, hid⟩, htick⟩ := h
    exact ⟨e, c, rfl, hc, hid, htick⟩
  | lose gone => cases h
  | deliver now n => cases h
  | edit now cur id' in_ => cases h
  | rewrite => cases h
  | reload => cases h

theorem appliedTicks_append (s : System) (as bs : List Act) :
    appliedTicks id s (as ++ bs) = appliedTicks id s as ++ appliedTicks id (run act s as) bs := by
  induction as generalizing s with
  | nil => rfl
  | cons a as ih => simp [appliedTicks, ih, List.append_assoc]

/-- While the evaluator has the monitor inactive it applies none of its ticks. -/
theorem appliedTicks_inactive {as : List Act}
    (h : Throughout act (fun s => ∀ c ∈ s.config id, c.active = false) s as) : appliedTicks id s as = [] := by
  induction as generalizing s with
  | nil => rfl
  | cons a as ih =>
    have hnone : closedTick id s a = none := by
      by_contra hsome
      obtain ⟨tick, htick⟩ := Option.ne_none_iff_exists'.mp hsome
      obtain ⟨e, c, -, hc, hid, -⟩ := closedTick_spec htick
      obtain ⟨hconfig, hactive, -⟩ := closing_spec hc
      have hinactive := h.1 c.monitor (hid ▸ hconfig)
      simp [hactive] at hinactive
    rw [appliedTicks, hnone, ih h.2]
    rfl

theorem Resumed.appliedTicks (h : Resumed id pausedAt top s) {as : List Act} (has : ∀ a ∈ as, Undisturbed id pausedAt a) :
    ∀ tick ∈ appliedTicks id s as, pausedAt ≤ tick.scheduledAt := by
  induction as generalizing s with
  | nil => intro tick htick; cases htick
  | cons a as ih =>
    intro tick htick
    have ha := has a (by simp)
    rcases List.mem_append.mp htick with hnow | hlater
    · obtain ⟨e, c, rfl, hc, hid, rfl⟩ := closedTick_spec (Option.mem_toList.mp hnow)
      exact h.scheduled ha hc hid
    · exact ih (resumed_act h ha) (fun a' ha' => has a' (by simp [ha'])) tick hlater

theorem Resumed.run (h : Resumed id pausedAt top s) {as : List Act} (has : ∀ a ∈ as, Undisturbed id pausedAt a) :
    Resumed id pausedAt top (run act s as) := by
  induction as generalizing s with
  | nil => exact h
  | cons a as ih => exact ih (resumed_act h (has a (by simp))) fun a' ha' => has a' (by simp [ha'])

/-- The stored state is neither up nor paused. -/
def NotUp (id : String) (s : System) : Prop :=
  ∀ st, s.working.mon id = some st → st.status ≠ .up ∧ st.status ≠ .paused

/-- Nor then is the one the machine goes on from. -/
theorem Resumed.notUp (h : Resumed id pausedAt top s) (hup : NotUp id s) {c : MonitorConfig}
    (hc : s.config id = some c) :
    (monitorState s.working id c).status ≠ .up ∧ (monitorState s.working id c).status ≠ .paused := by
  obtain ⟨hstored, hseq, hat⟩ := h.goesOn hc
  cases hmon : s.working.mon id with
  | some st => rw [hstored st hmon]; exact hup st hmon
  | none =>
    have htop : seqOf id top s.working = top := by simp [seqOf, hmon]
    rcases hat with ⟨-, hpending⟩ | ⟨m, -, -, hlt, hmseq, -⟩
    · simp [hpending]
    · omega

theorem notUp_act (h : Resumed id pausedAt top s) (hup : NotUp id s) {a : Act} (ha : NoPass id s a) :
    NotUp id (act s a) := by
  cases a with
  | evaluate e =>
    have hkept : ∀ w : Working, w.mon id = s.working.mon id → NotUp id { s with working := w } := fun w hw st hst =>
      hup st (hw ▸ hst)
    intro st hst
    have hst : (step s.config s.working e).mon id = some st := hst
    have hh := handling_writes s.config s.working e
    unfold step at hst
    generalize writes s.config s.working e = ws at hh hst
    cases hh with
    | ignored _ => exact hup st hst
    | @closed e c hc =>
      rw [mon_closing] at hst
      by_cases hid : c.id = id
      · subst hid
        obtain ⟨hconfig, -, -⟩ := closing_spec hc
        obtain ⟨hnup, hnpaused⟩ := h.notUp hup hconfig
        rw [Function.update_self] at hst
        obtain rfl := Option.some.inj hst
        have hpass := ha c hc rfl
        rcases status_applyTick_of_not_passed (EvaluatorPrograms.closedTick c.tick c.outside) hpass with hsame | hdown
        · rw [verdict, hsame]
          exact ⟨hnup, hnpaused⟩
        · rw [verdict, hdown]
          simp
      · exact hup st (by rwa [Function.update_of_ne (Ne.symm hid)] at hst)
    | opened => exact hup st hst
    | dropped => exact hup st hst
    | expired => exact hup st hst
    | @forgot now id' o monitor hconfig hactive =>
      by_cases hid : id = id'
      · simp [write, hid] at hst
      · exact hup st (by simpa [write, Function.update_of_ne hid] using hst)
    | @timedOut now id' o monitor st' t hconfig hactive hnodata =>
      rw [mon_commit] at hst
      by_cases hid : id = id'
      · subst hid
        exact absurd (status_of_checkNodata hnodata) (h.notUp hup hconfig).1
      · exact hup st (by rwa [Function.update_of_ne hid] at hst)
    | emitted => exact hup st (by rwa [mon_emit] at hst)
  | lose gone =>
    intro st hst
    have hst : (if gone.mon id then none else s.working.mon id) = some st := hst
    split at hst
    · cases hst
    · exact hup st hst
  | deliver now n =>
    simp only [act]
    split <;> exact hup
  | edit now cur id' in_ => exact hup
  | rewrite => exact hup
  | reload => exact hup

theorem notUp_run (h : Resumed id pausedAt top s) {as : List Act} (has : ∀ a ∈ as, Undisturbed id pausedAt a)
    (hup : NotUp id s) (hpass : Meets act (NoPass id) s as) : NotUp id (run act s as) := by
  induction as generalizing s with
  | nil => exact hup
  | cons a as ih =>
    exact ih (resumed_act h (has a (by simp))) (fun a' ha' => has a' (by simp [ha'])) (notUp_act h hup hpass.1) hpass.2

/-- The first pass is a transition to up. -/
theorem Resumed.firstPass (h : Resumed id pausedAt top s) (hup : NotUp id s) {e : Event} {c : Closing}
    (hc : closing s.config s.working e = some c) (hid : c.id = id)
    (hpass : tickFailed c.tick.results c.monitor.minFailingRegions = some false) :
    ∃ m ∈ decisionsOf (writes s.config s.working e), m.monitorId = id ∧ m.to_ = .up := by
  subst hid
  obtain ⟨hconfig, -, -⟩ := closing_spec hc
  obtain ⟨hnup, hnpaused⟩ := h.notUp hup hconfig
  obtain ⟨t, ht, hto⟩ := applyTick_passed (EvaluatorPrograms.closedTick c.tick c.outside)
    c.monitor.failureThreshold hnpaused hnup hpass
  have hverdict : (verdict s.working c.id c.monitor c.tick c.outside).2 = some t := ht
  rw [writes_closing hc, decisionsOf_closing, hverdict]
  exact ⟨_, by simp; rfl, rfl, hto⟩

/-! ## The whole run -/

theorem PausedRun.traced_loading (p : PausedRun id) : Traced p.loading :=
  run_keeps (P := Traced) (fun _ a hs => traced_act hs a)
    (run_keeps (P := Traced) (fun _ a hs => traced_act hs a) (traced_start _) _) _

/-- What the evaluator goes on from when it has loaded the resumed monitor. -/
theorem StartsAfresh.loaded {p : PausedRun id} (h : StartsAfresh p) :
    ∃ c, p.loaded.config id = some c ∧ monitorState p.loaded.working id c = rebuilt c ∧ c.status = .pending ∧
      c.consecutiveFailures = 0 ∧ NotUp id p.loaded ∧ Resumed id p.pausedAt c.lastTransitionSeq p.loaded := by
  obtain ⟨c, hc, hactive, hpending, hzero, htop, r, hr, hractive, hrpending, hrseq⟩ := h.snapshot
  have htraced := traced_act p.traced_loading .reload
  have hseq : seqOf id c.lastTransitionSeq p.loading.working = c.lastTransitionSeq := by simp [seqOf, h.forgotten]
  refine ⟨c, hc, by simp [PausedRun.loaded, act, monitorState, h.forgotten], hpending, hzero,
    fun st hst => by simp [PausedRun.loaded, act, h.forgotten] at hst, htraced, h.ticks, ?_, ?_, ?_,
    ⟨c, hc, hactive, .inl ⟨rfl, hpending⟩, hseq.ge⟩, ⟨c, hc, hactive, .inl ⟨rfl, hpending⟩, hseq.ge⟩,
    r, hr, hractive, .inl ⟨hrseq, hrpending⟩, ?_, ?_⟩
  · exact fun m hm hid => (htop m hm hid).trans hseq.ge
  · -- No decision is above the number of the resume yet.
    exact fun m hm m' hm' hid hid' hlt _ => absurd (htop m hm hid) (by omega)
  · exact fun st hst => by simp [PausedRun.loaded, act, h.forgotten] at hst
  · exact hrseq.le.trans hseq.ge
  · exact fun m hm hid hlt => absurd (htop m (p.traced_loading.rows m hm) hid) (by omega)

/-- Where both sides start afresh, the resume brings about what it is to. -/
theorem restarts_of_startsAfresh (p : PausedRun id) (h : StartsAfresh p) : RestartsPending p := by
  obtain ⟨c, hc, hrebuilt, hpending, hzero, hup, hresumed⟩ := h.loaded
  refine ⟨⟨c, hc, by rw [hrebuilt]; exact hpending, by rw [hrebuilt]; exact hzero⟩, ?_, ?_, ?_⟩
  · rw [appliedTicks_append, appliedTicks_inactive h.inactive, List.nil_append]
    exact hresumed.appliedTicks h.undisturbed
  · intro as e bs hafter hpass s d hd hid hpassed
    have has : ∀ a ∈ as, Undisturbed id p.pausedAt a := fun a ha => h.undisturbed a (by simp [hafter, ha])
    exact (hresumed.run has).firstPass (notUp_run hresumed has hup hpass) hd hid hpassed
  · intro c' hc' as has hhandled
    obtain rfl : c = c' := Option.some.inj (hc.symm.trans hc')
    exact (hresumed.run fun a ha => h.undisturbed a (has.subset ha)).agree hhandled

/-! ## A pause no sweep saw -/

def check (slot : ℕ) (ok : Bool) : Act := .evaluate (.result
  ⟨"m", slot, ["eu"], "eu", false, ok, "timeout", slot + 1, 10, slot_nonneg slot⟩ ⟨slot + 1, slot + 1, true⟩)

def sweepOne (now : ℚ) : Act := .evaluate (.sweptMonitor now "m" ⟨now, now, true⟩)

def apiRow : MonitorRow := ⟨"m", "o", "api", true, .pending, 60, 1, 1, 0, 0⟩

def setActive (active : Bool) : MonitorInput := ⟨none, some active, none, none, none, false⟩

/-- The monitor came up, and was paused at 90 and resumed at 95. -/
def pausedAndResumed (between : List Act) : PausedRun "m" where
  monitors := fun id => if id = "m" then some apiRow else none
  before := [.rewrite, .reload, check 60 true, .deliver 62 0]
  pausedAt := 90
  pauseRead := { apiRow with status := .up, lastTransitionSeq := 1 }
  pause := setActive false
  pauses := ⟨rfl, rfl⟩
  between := between
  resumedAt := 95
  resumeRead := { apiRow with active := false, status := .paused, lastTransitionSeq := 1 }
  resume := setActive true
  resumes := ⟨rfl, rfl⟩
  gap := [.rewrite]
  after := [check 120 true, .deliver 122 1]

/-- A sweep saw the monitor inactive. -/
def seen : PausedRun "m" := pausedAndResumed [.rewrite, .reload, sweepOne 92]

def unseen : PausedRun "m" := pausedAndResumed []

theorem seen_startsAfresh : StartsAfresh seen where
  inactive := by decide +kernel
  forgotten := by decide +kernel
  ticks := by
    have hticks : seen.loading.working.ticks = Function.update (fun _ => none) ("m", 60) none := by rfl
    intro key tick htick
    by_cases hkey : key = ("m", 60) <;> simp [hticks, hkey] at htick
  snapshot := ⟨⟨"o", true, 1, 1, 60, .pending, 0, 1⟩, by decide +kernel, rfl, rfl, rfl, by decide +kernel,
    { apiRow with lastTransitionSeq := 1 }, by decide +kernel, rfl, rfl, rfl⟩
  undisturbed := by
    simp only [seen, pausedAndResumed, check, List.mem_cons, List.not_mem_nil, or_false, forall_eq_or_imp, forall_eq,
      Undisturbed, and_true]
    decide +kernel

theorem seen_restarts : RestartsPending seen := restarts_of_startsAfresh seen seen_startsAfresh

/-- No sweep came between: the evaluator goes on as up, emits nothing on a pass, and the row
stays pending. -/
theorem unseen_stays : ¬RestartsPending unseen ∧
    (run act unseen.loaded unseen.after).decided.map TransitionMsg.seq = [1] ∧
    ((run act unseen.loaded unseen.after).db.monitors "m").map MonitorRow.status = some .pending ∧
    ((run act unseen.loaded unseen.after).working.mon "m").map MonitorState.status = some .up := by
  refine ⟨?_, by decide +kernel, by decide +kernel, by decide +kernel⟩
  rintro ⟨⟨c, hc, hpending, -⟩, -, -, -⟩
  have hup : (unseen.loaded.config "m").map (fun c => (monitorState unseen.loaded.working "m" c).status) = some .up := by
    decide +kernel
  rw [Option.mem_def.mp hc, Option.map_some, hpending] at hup
  cases hup

end Upstat.ResumedMonitors
