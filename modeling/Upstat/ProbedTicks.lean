import Upstat.TickAnswers
import Upstat.UptimeStrips

/-! # From the probes' answers to a monitor's verdict (`service/scheduler.go`)

A pass calls every region of its due monitors at once and relays what came back: a message for
each region, through the outbox, the last check of each monitor, and a copy for the telemetry
plane. Times are epoch seconds. -/
namespace Upstat.ProbedTicks

open GuardedRuns MonitorMachine EvaluatorPrograms TickAnswers

structure DueMonitor where
  id : String
  orgId : String
  timeoutS : ℕ
  regions : List String
  scheduledAt : ℚ
  scheduled_nonneg : 0 ≤ scheduledAt

/-- What the tick's id is hashed from. -/
def DueMonitor.tick (m : DueMonitor) : TickId := (m.id, m.scheduledAt)

structure CheckResponse where
  ok : Bool
  cause : String
  statusCode : ℤ
  totalMs : ℚ

structure CheckResult where
  tickId : TickId
  monitorId : String
  orgId : String
  region : String
  cause : String
  scheduledAt : ℚ
  checkedAt : ℚ
  ok : Bool
  missing : Bool
  statusCode : ℤ
  timeoutS : ℕ
  totalMs : ℚ
  scheduled_nonneg : 0 ≤ scheduledAt

/-- A call that ended, with the probe's answer if there is one. -/
structure Call where
  monitor : DueMonitor
  region : String
  answer : Option CheckResponse
  endedAt : ℚ
  ended_pos : 0 < endedAt

def regionsOf (configured : List String) (m : DueMonitor) : List String := if m.regions = [] then configured else m.regions

/-- The calls in the order in which they end. -/
def Probed (configured : List String) (due : List DueMonitor) (cs : List Call) : Prop :=
  (cs.map fun c => (c.monitor, c.region)).Perm (due.flatMap fun m => (regionsOf configured m).map fun region => (m, region))

/-- What `probe` adds to its results as a call ends. -/
def Call.result (c : Call) : CheckResult where
  tickId := c.monitor.tick
  monitorId := c.monitor.id
  orgId := c.monitor.orgId
  region := c.region
  scheduledAt := c.monitor.scheduledAt
  timeoutS := c.monitor.timeoutS
  checkedAt := c.endedAt
  missing := c.answer.isNone
  cause := c.answer.elim "error" (·.cause)
  ok := c.answer.elim false (·.ok)
  statusCode := c.answer.elim 0 (·.statusCode)
  totalMs := c.answer.elim 0 (·.totalMs)
  scheduled_nonneg := c.monitor.scheduled_nonneg

def probe (cs : List Call) : List CheckResult := cs.map Call.result

def expected (results : List CheckResult) (tick : TickId) : List String := (results.filter (·.tickId = tick)).map (·.region)

def payload (results : List CheckResult) (r : CheckResult) : ResultMsg where
  monitorId := r.monitorId
  scheduledAt := r.scheduledAt
  regionsExpected := expected results r.tickId
  region := r.region
  missing := r.missing
  ok := r.ok
  cause := if r.ok then "" else r.cause
  checkedAt := r.checkedAt
  timeoutS := max 1 r.timeoutS
  scheduled_nonneg := r.scheduled_nonneg

structure LastCheck where
  checkedAt : ℚ
  responseTimeMs : ℤ
  statusCode : ℤ

/-- The database and the telemetry plane. -/
structure Stores where
  outbox : List (String × ResultMsg)
  lastCheck : String → Option LastCheck
  telemetry : List CheckResult

/-- `int(r.TotalMs)`. -/
def truncate (q : ℚ) : ℤ := if 0 ≤ q then ⌊q⌋ else ⌈q⌉

/-- `RecordCheck`: a later check stays. -/
def recordCheck (r : CheckResult) : Option LastCheck → Option LastCheck
  | none => some ⟨r.checkedAt, truncate r.totalMs, r.statusCode⟩
  | some last => if last.checkedAt ≤ r.checkedAt then some ⟨r.checkedAt, truncate r.totalMs, r.statusCode⟩ else some last

def enqueue (results : List CheckResult) (s : Stores) (r : CheckResult) : Stores :=
  { s with
    outbox := s.outbox ++ [(r.monitorId, payload results r)]
    lastCheck := if r.missing then s.lastCheck else Function.update s.lastCheck r.monitorId (recordCheck r (s.lastCheck r.monitorId)) }

/-- `relay`: nothing is left of a transaction that fails, and a copy that is not sent is lost. -/
def relay (commits sends : Bool) (results : List CheckResult) (s : Stores) : Stores :=
  if commits then
    let s' := results.foldl (enqueue results) s
    if sends then { s' with telemetry := s'.telemetry ++ results.filter (!·.missing) } else s'
  else s

/-! ## What a pass queues -/

/-- The messages of a tick in the outbox. -/
def queued (s : Stores) (tick : TickId) : List ResultMsg := (s.outbox.map Prod.snd).filter (·.tickId = tick)

/-- Those that a pass queues. -/
def messages (results : List CheckResult) (tick : TickId) : List ResultMsg :=
  (results.filter (·.tickId = tick)).map (payload results)

theorem outbox_enqueue (results rs : List CheckResult) (s : Stores) :
    (rs.foldl (enqueue results) s).outbox = s.outbox ++ rs.map fun r => (r.monitorId, payload results r) := by
  induction rs generalizing s with
  | nil => simp
  | cons r rs ih => rw [List.foldl_cons, ih, enqueue, List.append_assoc, List.map_cons, List.singleton_append]

theorem outbox_relay (sends : Bool) (results : List CheckResult) (s : Stores) :
    (relay true sends results s).outbox = s.outbox ++ results.map fun r => (r.monitorId, payload results r) := by
  rw [← outbox_enqueue]
  unfold relay
  cases sends <;> rfl

theorem queued_relay (sends : Bool) (cs : List Call) (s : Stores) (tick : TickId) :
    queued (relay true sends (probe cs) s) tick = queued s tick ++ messages (probe cs) tick := by
  have hrows : (((probe cs).map fun r => (r.monitorId, payload (probe cs) r)).map Prod.snd).filter (·.tickId = tick) =
      messages (probe cs) tick := by
    rw [List.map_map, List.filter_map, messages]
    refine congrArg (List.map _) (List.filter_congr fun r hr => ?_)
    obtain ⟨c, -, rfl⟩ := List.mem_map.mp hr
    rfl
  rw [queued, outbox_relay, List.map_append, List.filter_append, hrows, queued]

theorem filter_probe (cs : List Call) (tick : TickId) :
    (probe cs).filter (·.tickId = tick) = (cs.filter (·.monitor.tick = tick)).map Call.result := by
  rw [probe, List.filter_map]
  rfl

/-- The calls of one tick. -/
def callsOf (cs : List Call) (m : DueMonitor) : List Call := cs.filter (·.monitor.tick = m.tick)

theorem expected_probe (cs : List Call) (m : DueMonitor) : expected (probe cs) m.tick = (callsOf cs m).map Call.region := by
  rw [expected, filter_probe, List.map_map]
  rfl

theorem messages_probe (cs : List Call) (m : DueMonitor) :
    messages (probe cs) m.tick = (callsOf cs m).map fun c => payload (probe cs) c.result := by
  rw [messages, filter_probe, List.map_map]
  rfl

section
variable {configured : List String} {due : List DueMonitor} {cs : List Call} {m : DueMonitor}

theorem filter_calls (hdue : (due.map DueMonitor.tick).Nodup) (hm : m ∈ due) (f : DueMonitor → List String) :
    (due.flatMap fun m => (f m).map fun region => (m, region)).filter (fun c => c.1.tick = m.tick) =
      (f m).map fun region => (m, region) := by
  induction due with
  | nil => cases hm
  | cons d due ih =>
    rw [List.map_cons, List.nodup_cons] at hdue
    obtain ⟨hnew, hrest⟩ := hdue
    rw [List.flatMap_cons, List.filter_append]
    by_cases heq : d.tick = m.tick
    · -- The tick is the first one's, and no other monitor has it.
      have hd : d = m := by
        rcases List.mem_cons.mp hm with rfl | hm
        · rfl
        · exact absurd (heq ▸ List.mem_map_of_mem hm) hnew
      subst hd
      have hothers : (due.flatMap fun m => (f m).map fun region => (m, region)).filter (fun c => c.1.tick = d.tick) = [] := by
        apply List.filter_eq_nil_iff.mpr
        intro c hc hsame
        obtain ⟨d', hd', hcd⟩ := List.mem_flatMap.mp hc
        obtain ⟨region, -, rfl⟩ := List.mem_map.mp hcd
        exact hnew (of_decide_eq_true hsame ▸ List.mem_map_of_mem hd')
      rw [hothers, List.append_nil]
      apply List.filter_eq_self.mpr
      intro c hc
      obtain ⟨region, -, rfl⟩ := List.mem_map.mp hc
      exact decide_eq_true rfl
    · have hm' : m ∈ due := (List.mem_cons.mp hm).resolve_left fun h => heq (by rw [h])
      have hnone : ((f d).map fun region => (d, region)).filter (fun c => c.1.tick = m.tick) = [] := by
        apply List.filter_eq_nil_iff.mpr
        intro c hc hsame
        obtain ⟨region, -, rfl⟩ := List.mem_map.mp hc
        exact heq (of_decide_eq_true hsame)
      rw [hnone, List.nil_append]
      exact ih hrest hm'

/-- A tick expects the regions of its monitor. -/
theorem Probed.regions (h : Probed configured due cs) (hdue : (due.map DueMonitor.tick).Nodup) (hm : m ∈ due) :
    ((callsOf cs m).map Call.region).Perm (regionsOf configured m) := by
  have hperm := (h.filter fun c => c.1.tick = m.tick).map Prod.snd
  rw [filter_calls hdue hm, List.filter_map, List.map_map, List.map_map] at hperm
  have hself : ((regionsOf configured m).map fun region => (m, region)).map Prod.snd = regionsOf configured m := by simp
  rw [List.map_map] at hself
  exact hself ▸ hperm

/-! ## The tick of a monitor -/

/-- The verdicts of the regions that answered. -/
def verdicts (cs : List Call) (m : DueMonitor) : Results := (callsOf cs m).filterMap fun c => c.answer.map fun res => (c.region, res.ok)

/-- The latest answer. -/
def latest (cs : List Call) (m : DueMonitor) : ℚ := (((callsOf cs m).filter (·.answer.isSome)).map Call.endedAt).foldr max 0

theorem mem_callsOf {c : Call} : c ∈ callsOf cs m ↔ c ∈ cs ∧ c.monitor.tick = m.tick := by
  rw [callsOf, List.mem_filter, decide_eq_true_iff]

/-- A message's verdict is its region's call. -/
theorem same_call (h : ((callsOf cs m).map Call.region).Nodup) {c c' : Call} (hc : c ∈ callsOf cs m) (hc' : c' ∈ callsOf cs m)
    (hregion : c.region = c'.region) : c = c' := List.inj_on_of_nodup_map h hc hc' hregion

/-- The messages of a tick as the evaluator takes them. -/
def tickOf (cs : List Call) (m : DueMonitor) (hne : callsOf cs m ≠ []) (h : ((callsOf cs m).map Call.region).Nodup) : RegionMessages where
  tickId := m.tick
  expected := (callsOf cs m).map Call.region
  messages := messages (probe cs) m.tick
  expected_ne := by simpa using hne
  same_tick := by
    rw [messages_probe]
    intro msg hmsg
    obtain ⟨c, hc, rfl⟩ := List.mem_map.mp hmsg
    have htick : c.monitor.tick = m.tick := (mem_callsOf.mp hc).2
    refine ⟨htick, ?_⟩
    rw [← expected_probe, ← htick]
    rfl
  from_expected := by
    rw [messages_probe]
    intro msg hmsg
    obtain ⟨c, hc, rfl⟩ := List.mem_map.mp hmsg
    exact List.mem_map_of_mem hc
  one_verdict := by
    rw [messages_probe]
    intro msg hmsg msg' hmsg' hregion
    obtain ⟨c, hc, rfl⟩ := List.mem_map.mp hmsg
    obtain ⟨c', hc', rfl⟩ := List.mem_map.mp hmsg'
    obtain rfl := same_call h hc hc' hregion
    exact ⟨rfl, fun _ => ⟨rfl, rfl⟩⟩
  checked_pos := by
    rw [messages_probe]
    intro msg hmsg _
    obtain ⟨c, -, rfl⟩ := List.mem_map.mp hmsg
    exact c.ended_pos

theorem mem_verdicts {region : String} {ok : Bool} :
    (region, ok) ∈ verdicts cs m ↔ ∃ c ∈ callsOf cs m, c.answer.isNone = false ∧ c.region = region ∧ c.answer.elim false (·.ok) = ok := by
  rw [verdicts, List.mem_filterMap]
  refine exists_congr fun c => and_congr_right fun _ => ?_
  cases hanswer : c.answer with
  | none => simp
  | some res => simp

theorem nodup_verdicts (h : ((callsOf cs m).map Call.region).Nodup) : (verdicts cs m).Nodup := by
  unfold verdicts
  generalize callsOf cs m = calls at h
  induction calls with
  | nil => exact List.nodup_nil
  | cons c rest ih =>
    rw [List.map_cons, List.nodup_cons] at h
    obtain ⟨hnew, hrest⟩ := h
    cases hanswer : c.answer with
    | none => rw [List.filterMap_cons_none (by rw [hanswer]; rfl)]; exact ih hrest
    | some res =>
      rw [List.filterMap_cons_some (by rw [hanswer]; rfl)]
      refine List.nodup_cons.mpr ⟨fun hmem => ?_, ih hrest⟩
      obtain ⟨c', hc', hsame⟩ := List.mem_filterMap.mp hmem
      obtain ⟨res', -, heq⟩ := Option.map_eq_some_iff.mp hsame
      exact hnew (List.mem_map.mpr ⟨c', hc', congrArg Prod.fst heq⟩)

theorem le_foldr_max {x : ℚ} {xs : List ℚ} (h : x ∈ xs) : x ≤ xs.foldr max 0 := by
  induction xs with
  | nil => cases h
  | cons y ys ih =>
    rcases List.mem_cons.mp h with rfl | h
    · exact le_max_left _ _
    · exact (ih h).trans (le_max_right _ _)

theorem foldr_max_nonneg (xs : List ℚ) : 0 ≤ xs.foldr max 0 := by
  induction xs with
  | nil => exact le_rfl
  | cons x xs ih => exact ih.trans (le_max_right x _)

theorem foldr_max_le {y : ℚ} {xs : List ℚ} (h₀ : 0 ≤ y) (h : ∀ x ∈ xs, x ≤ y) : xs.foldr max 0 ≤ y := by
  induction xs with
  | nil => exact h₀
  | cons x xs ih => exact max_le (h x List.mem_cons_self) (ih fun x' hx' => h x' (List.mem_cons_of_mem x hx'))

section
variable {heard : List ResultMsg} {t : OpenTick} {hne : callsOf cs m ≠ []} {h : ((callsOf cs m).map Call.region).Nodup}

/-- A complete record has heard of every call. -/
theorem heard_call (hknown : ∀ msg ∈ heard, msg ∈ (tickOf cs m hne h).messages) (hall : (tickOf cs m hne h).HeardAll heard)
    {c : Call} (hc : c ∈ callsOf cs m) : payload (probe cs) c.result ∈ heard := by
  obtain ⟨msg, hmsg, hregion⟩ := hall c.region (List.mem_map_of_mem hc)
  have hmem : msg ∈ messages (probe cs) m.tick := hknown msg hmsg
  rw [messages_probe] at hmem
  obtain ⟨c', hc', rfl⟩ := List.mem_map.mp hmem
  obtain rfl := same_call h hc' hc hregion
  exact hmsg

theorem heard_iff (hknown : ∀ msg ∈ heard, msg ∈ (tickOf cs m hne h).messages) (hall : (tickOf cs m hne h).HeardAll heard) {msg : ResultMsg} :
    msg ∈ heard ↔ ∃ c ∈ callsOf cs m, payload (probe cs) c.result = msg := by
  constructor
  · intro hmsg
    have hmem : msg ∈ messages (probe cs) m.tick := hknown msg hmsg
    rw [messages_probe] at hmem
    exact List.mem_map.mp hmem
  · rintro ⟨c, hc, rfl⟩
    exact heard_call hknown hall hc

/-- A complete record holds the verdicts of the answers. -/
theorem results_perm (hcollected : (tickOf cs m hne h).Collected heard t) (hknown : ∀ msg ∈ heard, msg ∈ (tickOf cs m hne h).messages)
    (hall : (tickOf cs m hne h).HeardAll heard) : t.results.Perm (verdicts cs m) := by
  apply (List.perm_ext_iff_of_nodup hcollected.regions_nodup.of_map (nodup_verdicts h)).mpr
  rintro ⟨region, ok⟩
  rw [hcollected.answered_iff, mem_verdicts]
  constructor
  · rintro ⟨msg, hmsg, hanswered, hregion, hok⟩
    obtain ⟨c, hc, rfl⟩ := (heard_iff hknown hall).mp hmsg
    exact ⟨c, hc, hanswered, hregion, hok⟩
  · rintro ⟨c, hc, hanswered, hregion, hok⟩
    exact ⟨_, heard_call hknown hall hc, hanswered, hregion, hok⟩

theorem at_eq_latest (hcollected : (tickOf cs m hne h).Collected heard t) (hknown : ∀ msg ∈ heard, msg ∈ (tickOf cs m hne h).messages)
    (hall : (tickOf cs m hne h).HeardAll heard) : t.at_ = latest cs m := by
  apply le_antisymm
  · rcases hcollected.at_from with hzero | ⟨msg, hmsg, hanswered, hat⟩
    · exact hzero.trans_le (foldr_max_nonneg _)
    · obtain ⟨c, hc, rfl⟩ := (heard_iff hknown hall).mp hmsg
      rw [← hat]
      apply le_foldr_max
      apply List.mem_map_of_mem (f := Call.endedAt)
      exact List.mem_filter.mpr ⟨hc, by simpa [payload, Call.result] using hanswered⟩
  · apply foldr_max_le (hcollected.at_nonneg hknown)
    intro x hx
    obtain ⟨c, hc, rfl⟩ := List.mem_map.mp hx
    obtain ⟨hc, hsome⟩ := List.mem_filter.mp hc
    apply hcollected.at_ge _ (heard_call hknown hall hc)
    simpa [payload, Call.result] using hsome

end

variable {config : Config} {monitor : MonitorConfig} {w : Working} {s : Stores} {sends : Bool}

/-- In whatever order the calls end and their messages arrive, with any copies, the evaluator
applies the monitor's tick once, to the verdicts of the regions that answered. -/
theorem verdict_of_probes (hprobed : Probed configured due cs) (hdue : (due.map DueMonitor.tick).Nodup) (hm : m ∈ due)
    (hsome : regionsOf configured m ≠ []) (hdistinct : (regionsOf configured m).Nodup) (hconfig : config m.id = some monitor)
    (hactive : monitor.active = true) (hfresh : ∀ closed ∈ w.closed m.id, closed < m.scheduledAt) (hopen : w.ticks m.tick = none)
    (hnew : queued s m.tick = []) (ds : List Delivery) (hds : ∀ d ∈ ds, d.1 ∈ queued (relay true sends (probe cs) s) m.tick)
    (hall : ∀ region ∈ regionsOf configured m, ∃ d ∈ ds, d.1.region = region) :
    ∃ a, outcomes config w (events ds) = [a] ∧ a.regions.Perm (verdicts cs m) ∧
      (let spec := applyTick (monitorState w m.id monitor) ⟨verdicts cs m, "", latest cs m⟩ monitor.failureThreshold monitor.minFailingRegions
       a.state = spec.1 ∧ a.transition.map uncaused = spec.2.map uncaused) ∧
      (run (step config) w (events ds)).mon m.id = some a.state ∧
      ∀ msg ∈ queued (relay true sends (probe cs) s) m.tick, ∀ o,
        step config (run (step config) w (events ds)) (.result msg o) = run (step config) w (events ds) := by
  rw [queued_relay, hnew, List.nil_append] at hds ⊢
  have hregions := hprobed.regions hdue hm
  have hnodup : ((callsOf cs m).map Call.region).Nodup := hregions.nodup_iff.mpr hdistinct
  have hne : callsOf cs m ≠ [] := by
    intro hnil
    rw [hnil] at hregions
    exact hsome hregions.nil_eq.symm
  have htaken : (tickOf cs m hne hnodup).Taken config monitor w := ⟨hconfig, hactive, hfresh⟩
  have hunheard : ¬(tickOf cs m hne hnodup).HeardAll [] := by
    intro hnone
    obtain ⟨region, hregion⟩ := List.exists_mem_of_ne_nil _ (tickOf cs m hne hnodup).expected_ne
    obtain ⟨msg, hmsg, -⟩ := hnone region hregion
    cases hmsg
  have hheard : (tickOf cs m hne hnodup).HeardAll ([] ++ ds.map Prod.fst) := by
    intro region hregion
    obtain ⟨d, hd, hsame⟩ := hall region (hregions.mem_iff.mp hregion)
    exact ⟨d.1, List.mem_map_of_mem hd, hsame⟩
  obtain ⟨heard, t, o, hknown, hheard', hcollected, houtcomes, hsettled⟩ :=
    applied_from htaken (waiting_start hopen) hunheard ds hds hheard
  have hresults := results_perm hcollected hknown hheard'
  have htime : (closedTick t o).results ≠ [] → (closedTick t o).at_ = latest cs m := by
    intro hanswered
    have hzero : t.at_ ≠ 0 := hcollected.at_ne_zero hknown hanswered
    simp only [closedTick]
    rw [if_neg hzero, at_eq_latest hcollected hknown hheard']
  obtain ⟨hstate, htransition⟩ := @applyTick_agree (monitorState w m.id monitor) (closedTick t o) ⟨verdicts cs m, "", latest cs m⟩ hresults htime
    monitor.failureThreshold monitor.minFailingRegions
  exact ⟨_, houtcomes, hresults, ⟨hstate, htransition⟩, hsettled.mon, fun msg hmsg o => (ignored_step hsettled hmsg o).2⟩

end

def noStores : Stores := ⟨[], fun _ => none, []⟩

def slot60 : DueMonitor := ⟨"m", "o", 10, [], 60, by norm_num⟩

/-- One region passes, the other does not answer. -/
def halfAnswered : List Call := [⟨slot60, "us", some ⟨true, "", 200, 12⟩, 61, by norm_num⟩, ⟨slot60, "eu", none, 75, by norm_num⟩]

open EvaluatorTickOrder (twoRegions outside) in
theorem verdict_of_halfAnswered :
    ∃ a, outcomes twoRegions empty (events ((messages (probe halfAnswered) slot60.tick).map (·, outside))) = [a] ∧
      a.regions.Perm [("us", true)] := by
  have hprobed : Probed ["eu", "us"] [slot60] halfAnswered := List.Perm.swap _ _ _
  have hqueued : queued (relay true true (probe halfAnswered) noStores) slot60.tick = messages (probe halfAnswered) slot60.tick := by
    rw [queued_relay]
    rfl
  have hall : ∀ region ∈ ["eu", "us"], ∃ d ∈ (messages (probe halfAnswered) slot60.tick).map (·, outside), d.1.region = region := by
    decide +kernel
  have hverdicts : verdicts halfAnswered slot60 = [("us", true)] := by decide +kernel
  have hsends : ∀ d ∈ (messages (probe halfAnswered) slot60.tick).map (·, outside),
      d.1 ∈ queued (relay true true (probe halfAnswered) noStores) slot60.tick := by
    simp [hqueued]
  have hfresh : ∀ closed ∈ empty.closed slot60.id, closed < slot60.scheduledAt := nofun
  have hconfig : twoRegions slot60.id = some _ := rfl
  obtain ⟨a, houtcomes, hregions, -⟩ := verdict_of_probes hprobed (List.nodup_singleton _) List.mem_cons_self (by decide) (by decide)
    hconfig rfl hfresh rfl rfl _ hsends hall
  exact ⟨a, houtcomes, hverdicts ▸ hregions⟩

/-! ## What passes leave behind -/

structure Pass where
  commits : Bool
  sends : Bool
  calls : List Call

def Pass.run (s : Stores) (p : Pass) : Stores := relay p.commits p.sends (probe p.calls) s

/-- What the passes leave, in the order in which they commit. -/
def storesAfter (ps : List Pass) : Stores := ps.foldl Pass.run noStores

/-- The answers that the pass reports. -/
def Pass.answered (p : Pass) : List CheckResult := if p.commits then (probe p.calls).filter (!·.missing) else []

def lastOf (r : CheckResult) : LastCheck := ⟨r.checkedAt, truncate r.totalMs, r.statusCode⟩

/-- The last check that is shown is none later than a given list's, and one of its. -/
def Latest (rs : List CheckResult) (id : String) : Option LastCheck → Prop
  | none => ∀ r ∈ rs, r.monitorId ≠ id
  | some last => (∃ r ∈ rs, r.monitorId = id ∧ last = lastOf r) ∧ ∀ r ∈ rs, r.monitorId = id → r.checkedAt ≤ last.checkedAt

theorem latest_recordCheck {rs : List CheckResult} {id : String} {last : Option LastCheck} (h : Latest rs id last) {r : CheckResult}
    (hid : r.monitorId = id) : Latest (rs ++ [r]) id (recordCheck r last) := by
  cases last with
  | none =>
    refine ⟨⟨r, by simp, hid, rfl⟩, fun r' hr' hid' => ?_⟩
    rcases List.mem_append.mp hr' with hr' | hr'
    · exact absurd hid' (h r' hr')
    · rw [List.mem_singleton.mp hr']
  | some last =>
    obtain ⟨⟨r₀, hr₀, hid₀, hlast⟩, hle⟩ := h
    by_cases hlater : last.checkedAt ≤ r.checkedAt
    · rw [recordCheck, if_pos hlater]
      refine ⟨⟨r, by simp, hid, rfl⟩, fun r' hr' hid' => ?_⟩
      rcases List.mem_append.mp hr' with hr' | hr'
      · exact (hle r' hr' hid').trans hlater
      · rw [List.mem_singleton.mp hr']
    · rw [recordCheck, if_neg hlater]
      refine ⟨⟨r₀, List.mem_append_left _ hr₀, hid₀, hlast⟩, fun r' hr' hid' => ?_⟩
      rcases List.mem_append.mp hr' with hr' | hr'
      · exact hle r' hr' hid'
      · rw [List.mem_singleton.mp hr']
        exact (not_le.mp hlater).le

theorem Latest.other {rs : List CheckResult} {id : String} {last : Option LastCheck} (h : Latest rs id last) {r : CheckResult}
    (hid : r.monitorId ≠ id) : Latest (rs ++ [r]) id last := by
  have hmem : ∀ r' ∈ rs ++ [r], r'.monitorId = id → r' ∈ rs := by
    intro r' hr' hid'
    rcases List.mem_append.mp hr' with hr' | hr'
    · exact hr'
    · exact absurd (List.mem_singleton.mp hr' ▸ hid') hid
  cases last with
  | none => exact fun r' hr' hid' => h r' (hmem r' hr' hid') hid'
  | some last =>
    obtain ⟨⟨r₀, hr₀, hr₀'⟩, hle⟩ := h
    exact ⟨⟨r₀, List.mem_append_left _ hr₀, hr₀'⟩, fun r' hr' hid' => hle r' (hmem r' hr' hid') hid'⟩

theorem latest_enqueue (results : List CheckResult) {rs : List CheckResult} {s : Stores} (h : ∀ id, Latest rs id (s.lastCheck id)) (r : CheckResult)
    (id : String) : Latest (rs ++ [r].filter (!·.missing)) id ((enqueue results s r).lastCheck id) := by
  cases hmissing : r.missing with
  | true => simpa [enqueue, hmissing] using h id
  | false =>
    have hkept : [r].filter (!·.missing) = [r] := by simp [hmissing]
    have hlast : (enqueue results s r).lastCheck = Function.update s.lastCheck r.monitorId (recordCheck r (s.lastCheck r.monitorId)) := by
      simp [enqueue, hmissing]
    rw [hkept, hlast]
    by_cases hid : r.monitorId = id
    · subst hid
      rw [Function.update_self]
      exact latest_recordCheck (h _) rfl
    · rw [Function.update_of_ne (Ne.symm hid)]
      exact (h id).other hid

theorem latest_enqueues (results rs₀ : List CheckResult) {rs : List CheckResult} {s : Stores} (h : ∀ id, Latest rs id (s.lastCheck id)) :
    ∀ id, Latest (rs ++ rs₀.filter (!·.missing)) id ((rs₀.foldl (enqueue results) s).lastCheck id) := by
  induction rs₀ generalizing rs s with
  | nil => simpa using h
  | cons r rs₀ ih =>
    have hstep := ih (latest_enqueue results h r)
    rw [List.append_assoc, ← List.filter_append] at hstep
    exact hstep

theorem telemetry_enqueues (results rs : List CheckResult) (s : Stores) : (rs.foldl (enqueue results) s).telemetry = s.telemetry := by
  induction rs generalizing s with
  | nil => rfl
  | cons r rs ih => rw [List.foldl_cons, ih, enqueue]

/-- What the passes so far have answered is what they leave. -/
structure Reports (ps : List Pass) (s : Stores) : Prop where
  lastCheck : ∀ id, Latest (ps.flatMap Pass.answered) id (s.lastCheck id)
  telemetry : s.telemetry.Sublist (ps.flatMap Pass.answered)
  sent : (∀ p ∈ ps, p.sends = true) → s.telemetry = ps.flatMap Pass.answered

theorem reports_run {ps : List Pass} {s : Stores} (h : Reports ps s) (p : Pass) : Reports (ps ++ [p]) (Pass.run s p) := by
  have hall : (ps ++ [p]).flatMap Pass.answered = ps.flatMap Pass.answered ++ p.answered := by simp
  cases hcommits : p.commits with
  | false =>
    have hnone : p.answered = [] := by simp [Pass.answered, hcommits]
    have hsame : Pass.run s p = s := by simp [Pass.run, relay, hcommits]
    rw [hsame]
    refine ⟨?_, ?_, fun hsends => ?_⟩
    all_goals rw [hall, hnone, List.append_nil]
    · exact h.lastCheck
    · exact h.telemetry
    · exact h.sent fun q hq => hsends q (List.mem_append_left _ hq)
  | true =>
    have hanswered : p.answered = (probe p.calls).filter (!·.missing) := by simp [Pass.answered, hcommits]
    have hlast : (Pass.run s p).lastCheck = ((probe p.calls).foldl (enqueue (probe p.calls)) s).lastCheck := by
      unfold Pass.run relay
      cases p.sends <;> simp [hcommits]
    have htelemetry : (Pass.run s p).telemetry = if p.sends then s.telemetry ++ p.answered else s.telemetry := by
      rw [hanswered, ← telemetry_enqueues (probe p.calls) (probe p.calls) s]
      unfold Pass.run relay
      cases p.sends <;> simp [hcommits]
    refine ⟨?_, ?_, fun hsends => ?_⟩
    · rw [hall, hanswered, hlast]
      exact latest_enqueues _ _ h.lastCheck
    · rw [hall, htelemetry]
      split_ifs
      · exact h.telemetry.append (List.Sublist.refl _)
      · exact h.telemetry.trans (List.sublist_append_left _ _)
    · rw [hall, htelemetry, if_pos (hsends p (by simp)), h.sent fun q hq => hsends q (List.mem_append_left _ hq)]

theorem reports_storesAfter (ps : List Pass) : Reports ps (storesAfter ps) := by
  induction ps using List.reverseRecOn with
  | nil => exact ⟨fun _ => nofun, .slnil, fun _ => rfl⟩
  | append_singleton ps p ih =>
    rw [storesAfter, List.foldl_append]
    exact reports_run ih p

/-! ## The strips of what was probed -/

open UptimeStrips (Tally Answers firstDay uptimeDay pct days tally resultsOf toDate byDay_of_results totals_of_results daysTo_firstDay)

/-- A row of `check_results`, its slot in milliseconds. -/
def resultRow (r : CheckResult) : UptimeStrips.CheckResult := ⟨r.orgId, r.monitorId, ⌊r.scheduledAt * 1000⌋, r.ok⟩

/-- The answers of a monitor on some days, and those that pass. -/
def tallyOf (rs : List CheckResult) (orgId id : String) (p : ℤ → Bool) : Tally :=
  let own := rs.filter fun r => r.orgId = orgId ∧ r.monitorId = id ∧ p (toDate ⌊r.scheduledAt * 1000⌋)
  (own.length, own.countP (·.ok))

theorem tally_resultsOf {store : UptimeStrips.Store} {rs : List CheckResult} (h : store.results = rs.map resultRow) (orgId id : String)
    (p : ℤ → Bool) : tally (resultsOf store orgId id p) = tallyOf rs orgId id p := by
  rw [resultsOf, h, List.filter_map, tally, List.length_map, List.countP_map]
  rfl

/-- The last check and the strip of a monitor, after any passes whose copies were sent: the
latest answer, and for each day every answer of a pass that committed, once. -/
theorem strip_of_passes (ps : List Pass) (hsent : ∀ p ∈ ps, p.sends = true) {store : UptimeStrips.Store}
    (hstore : store.results = (storesAfter ps).telemetry.map resultRow) {orgId : String} {ids : List String} {now : ℤ} {n : ℕ}
    {rows : List (SummedRollups.Row (String × ℤ) Tally)} (hrows : Answers store orgId ids (firstDay now n) rows) {id : String} (hid : id ∈ ids)
    (hn : 1 ≤ n) :
    Latest (ps.flatMap Pass.answered) id ((storesAfter ps).lastCheck id) ∧
      days now n rows id =
        ((List.range n).map fun k : ℕ => uptimeDay (firstDay now n + k) (tallyOf (ps.flatMap Pass.answered) orgId id (· = firstDay now n + k)),
          pct (tallyOf (ps.flatMap Pass.answered) orgId id (firstDay now n ≤ ·))) := by
  have hreports := reports_storesAfter ps
  rw [hreports.sent hsent] at hstore
  refine ⟨hreports.lastCheck id, Prod.ext ?_ ?_⟩
  · rw [days, daysTo_firstDay hn, List.map_map]
    refine List.map_congr_left fun k _ => congrArg (uptimeDay _) ?_
    exact (byDay_of_results hrows hid (by simp)).trans (tally_resultsOf hstore orgId id _)
  · exact congrArg pct ((totals_of_results hrows hid).trans (tally_resultsOf hstore orgId id _))

def oneRow : UptimeStrips.CheckResult := ⟨"o", "m", 60000, true⟩

def oneBlock : UptimeStrips.Store where
  results := [oneRow]
  daily := [⟨⟨"o", "m", 0⟩, (1, 1)⟩]
  table := .insert [oneRow] .empty

theorem strip_of_halfAnswered :
    Latest ([Pass.mk true true halfAnswered].flatMap Pass.answered) "m" ((storesAfter [⟨true, true, halfAnswered⟩]).lastCheck "m") ∧
      (days 86400000 2 [⟨("m", 0), (1, 1)⟩] "m").2 = pct (1, 1) := by
  have hrows : Answers oneBlock "o" ["m"] (firstDay 86400000 2) [⟨("m", 0), (1, 1)⟩] := ⟨[("m", 0)], by decide, by decide⟩
  have hstore : oneBlock.results = (storesAfter [⟨true, true, halfAnswered⟩]).telemetry.map resultRow := by decide +kernel
  obtain ⟨hlast, hdays⟩ := strip_of_passes [⟨true, true, halfAnswered⟩] (by simp) hstore hrows List.mem_cons_self one_le_two
  refine ⟨hlast, (congrArg Prod.snd hdays).trans (congrArg pct ?_)⟩
  decide +kernel

end Upstat.ProbedTicks
