import Mathlib.Data.List.Nodup
import Mathlib.Data.List.Perm.Basic
import Upstat.EvaluatorTickOrder

/-! # The region messages of one tick, in any order and any number of times

A message opens the tick's record, adds to it or completes it, and the one that completes
it applies the tick and deletes the record. The closed marker then turns every further copy
away, so that what is applied depends on the messages alone. -/
namespace Upstat.TickAnswers

open GuardedRuns MonitorMachine CommonDatabase EvaluatorPrograms

/-- The messages of one tick: each from a region the tick expects, one verdict a region,
answers with the time of their check. -/
structure RegionMessages where
  tickId : TickId
  expected : List String
  messages : List ResultMsg
  expected_ne : expected ≠ []
  same_tick : ∀ m ∈ messages, m.tickId = tickId ∧ m.regionsExpected = expected
  from_expected : ∀ m ∈ messages, m.region ∈ expected
  one_verdict : ∀ m ∈ messages, ∀ m' ∈ messages, m.region = m'.region →
    m.missing = m'.missing ∧ (m.missing = false → m.ok = m'.ok ∧ m.checkedAt = m'.checkedAt)
  checked_pos : ∀ m ∈ messages, m.missing = false → 0 < m.checkedAt

/-- A message and what its handling meets. -/
abbrev Delivery := ResultMsg × Outside

def events (ds : List Delivery) : List Event := ds.map fun d => .result d.1 d.2

/-- Every expected region is heard in the messages. -/
def RegionMessages.HeardAll (tick : RegionMessages) (ms : List ResultMsg) : Prop :=
  ∀ region ∈ tick.expected, ∃ m ∈ ms, m.region = region

/-- What applying a tick comes to: the verdicts it had, the state after it, the transition it made. -/
structure Outcome where
  regions : Results
  state : MonitorState
  transition : Option Transition

def outcome (w : Working) (c : Closing) : Outcome where
  regions := c.tick.results
  state := (verdict w c.id c.monitor c.tick c.outside).1
  transition := (verdict w c.id c.monitor c.tick c.outside).2

/-- What every tick the run applied came to, in order. -/
def outcomes (config : Config) : Working → List Event → List Outcome
  | _, [] => []
  | w, e :: es => ((closing config w e).map (outcome w)).toList ++ outcomes config (step config w e) es

/-- The transition without its cause text. -/
def uncaused (t : Transition) : Transition := { t with cause := "" }

/-- The same verdicts, the same state and, its cause apart, the same transition. -/
structure Agree (a b : Outcome) : Prop where
  regions : a.regions.Perm b.regions
  state : a.state = b.state
  transition : a.transition.map uncaused = b.transition.map uncaused

/-! ## The machine does not see the order of the regions -/

theorem tickFailed_perm {rs rs' : Results} (h : rs.Perm rs') (minFailingRegions : ℕ) :
    tickFailed rs minFailingRegions = tickFailed rs' minFailingRegions := by
  have hnil : rs = [] ↔ rs' = [] := ⟨fun hrs => (hrs ▸ h).nil_eq.symm, fun hrs => (hrs ▸ h).eq_nil⟩
  unfold tickFailed
  simp only [hnil, h.countP_eq, h.length_eq]

/-- Ticks with the same verdicts and, when there are any, the same time. -/
theorem applyTick_agree (state : MonitorState) {t t' : Tick} (hperm : t.results.Perm t'.results)
    (hat : t.results ≠ [] → t.at_ = t'.at_) (threshold minFailingRegions : ℕ) :
    (applyTick state t threshold minFailingRegions).1 = (applyTick state t' threshold minFailingRegions).1 ∧
      (applyTick state t threshold minFailingRegions).2.map uncaused =
        (applyTick state t' threshold minFailingRegions).2.map uncaused := by
  unfold applyTick
  rw [← tickFailed_perm hperm minFailingRegions]
  cases hfailed : tickFailed t.results minFailingRegions with
  | none => exact ⟨rfl, rfl⟩
  | some failed =>
    have hne : t.results ≠ [] := by
      intro hnil
      simp [tickFailed, hnil] at hfailed
    rw [← hat hne]
    cases failed with
    | false => exact ⟨rfl, rfl⟩
    | true =>
      -- Only the text of the transition to down names a cause.
      dsimp only
      split
      · exact ⟨rfl, rfl⟩
      · split
        · exact ⟨rfl, rfl⟩
        · split <;> exact ⟨rfl, rfl⟩

/-! ## A dict with one key assigned -/

section Assign
variable (results : Results) (region : String) (ok : Bool)

theorem keys_assign : (assign results region ok).map Prod.fst =
    if region ∈ results.map Prod.fst then results.map Prod.fst else results.map Prod.fst ++ [region] := by
  have hany : (results.any (·.1 = region)) = true ↔ region ∈ results.map Prod.fst := by simp
  unfold assign
  by_cases hmem : region ∈ results.map Prod.fst
  · rw [if_pos (hany.mpr hmem), if_pos hmem, List.map_map]
    apply List.map_congr_left
    intro r _
    by_cases hr : r.1 = region
    · simp [hr]
    · simp [hr]
  · rw [if_neg (fun h => hmem (hany.mp h)), if_neg hmem, List.map_append]
    rfl

theorem nodup_assign (h : (results.map Prod.fst).Nodup) : ((assign results region ok).map Prod.fst).Nodup := by
  rw [keys_assign]
  split
  · exact h
  · next hmem =>
    apply h.append (List.nodup_singleton region)
    intro r hr hr'
    exact hmem (List.mem_singleton.mp hr' ▸ hr)

theorem mem_assign (x : String × Bool) :
    x ∈ assign results region ok ↔ x = (region, ok) ∨ x ∈ results ∧ x.1 ≠ region := by
  unfold assign
  by_cases hany : (results.any (·.1 = region)) = true
  · rw [if_pos hany, List.mem_map]
    constructor
    · intro ⟨r, hr, hx⟩
      by_cases hregion : r.1 = region
      · exact .inl (by rw [← hx, if_pos hregion])
      · rw [if_neg hregion] at hx
        exact .inr ⟨hx ▸ hr, hx ▸ hregion⟩
    · intro hx
      rcases hx with hx | ⟨hx, hne⟩
      · obtain ⟨r, hr, hregion⟩ := List.any_eq_true.mp hany
        exact ⟨r, hr, by rw [if_pos (of_decide_eq_true hregion), hx]⟩
      · exact ⟨x, hx, if_neg hne⟩
  · rw [if_neg hany, List.mem_append, List.mem_singleton, or_comm]
    apply or_congr_right
    constructor
    · intro hx
      refine ⟨hx, fun hregion => hany ?_⟩
      exact List.any_eq_true.mpr ⟨x, hx, decide_eq_true hregion⟩
    · exact And.left

end Assign

/-! ## What the record holds -/

/-- The record is what the heard messages say, in whatever order they came. -/
structure RegionMessages.Collected (tick : RegionMessages) (heard : List ResultMsg) (t : OpenTick) : Prop where
  slot : t.scheduledAt = tick.tickId.2
  expected : t.expected = tick.expected
  answered_iff : ∀ region ok, (region, ok) ∈ t.results ↔
    ∃ m ∈ heard, m.missing = false ∧ m.region = region ∧ m.ok = ok
  regions_nodup : (t.results.map Prod.fst).Nodup
  missing_iff : ∀ region, region ∈ t.missing ↔ ∃ m ∈ heard, m.missing = true ∧ m.region = region
  at_ge : ∀ m ∈ heard, m.missing = false → m.checkedAt ≤ t.at_
  at_from : t.at_ = 0 ∨ ∃ m ∈ heard, m.missing = false ∧ m.checkedAt = t.at_

variable {tick : RegionMessages} {heard heard' : List ResultMsg} {t t' : OpenTick} {m : ResultMsg}

theorem collected_new (hm : m ∈ tick.messages) : tick.Collected [] (newTick m) where
  slot := congrArg Prod.snd (tick.same_tick m hm).1
  expected := (tick.same_tick m hm).2
  answered_iff := by simp [newTick]
  regions_nodup := List.nodup_nil
  missing_iff := by simp [newTick]
  at_ge := by simp
  at_from := .inl rfl

theorem RegionMessages.Collected.after_missing (h : tick.Collected heard t) (hmissing : m.missing = true) :
    tick.Collected (m :: heard) (hear t m) := by
  have hresults : (hear t m).results = t.results := by
    unfold hear
    rw [if_pos hmissing]
    split <;> rfl
  have hat : (hear t m).at_ = t.at_ := by
    unfold hear
    rw [if_pos hmissing]
    split <;> rfl
  have hexpected : (hear t m).expected = t.expected := by
    unfold hear
    rw [if_pos hmissing]
    split <;> rfl
  refine ⟨(hear_same t m).2.trans h.slot, hexpected.trans h.expected, fun region ok => ?_, hresults ▸ h.regions_nodup,
    fun region => ?_, fun m' hm' hanswer => ?_, ?_⟩
  · rw [hresults, h.answered_iff]
    simp [hmissing]
  · have hmem : region ∈ (hear t m).missing ↔ region = m.region ∨ region ∈ t.missing := by
      unfold hear
      rw [if_pos hmissing]
      split
      · next hin => exact ⟨.inr, fun hr => hr.elim (fun heq => heq ▸ hin) id⟩
      · simp [or_comm]
    rw [hmem, h.missing_iff]
    simp [hmissing, @eq_comm _ region]
  · rw [hat]
    rcases List.mem_cons.mp hm' with rfl | hm'
    · rw [hmissing] at hanswer
      cases hanswer
    · exact h.at_ge m' hm' hanswer
  · rw [hat]
    rcases h.at_from with hzero | ⟨m', hm', hat'⟩
    · exact .inl hzero
    · exact .inr ⟨m', List.mem_cons_of_mem m hm', hat'⟩

theorem RegionMessages.Collected.after_answer (h : tick.Collected heard t) (hheard : ∀ m' ∈ heard, m' ∈ tick.messages)
    (hm : m ∈ tick.messages) (hanswer : m.missing = false) : tick.Collected (m :: heard) (hear t m) := by
  have hhear : hear t m = { t with
      results := assign t.results m.region m.ok
      at_ := max t.at_ m.checkedAt
      cause := if !m.ok ∧ t.cause = "" then (if m.cause = "" then "error" else m.cause) else t.cause } := by
    unfold hear
    rw [if_neg (by simp [hanswer])]
  rw [hhear]
  refine ⟨h.slot, h.expected, fun region ok => ?_, nodup_assign _ _ _ h.regions_nodup, fun region => ?_,
    fun m' hm' hanswer' => ?_, ?_⟩
  · dsimp only
    rw [mem_assign, h.answered_iff]
    constructor
    · intro hcase
      rcases hcase with heq | ⟨⟨m', hm', hfacts⟩, -⟩
      · obtain ⟨rfl, rfl⟩ := Prod.mk.inj heq
        exact ⟨m, List.mem_cons_self, hanswer, rfl, rfl⟩
      · exact ⟨m', List.mem_cons_of_mem m hm', hfacts⟩
    · intro ⟨m', hm', hanswer', hregion, hok⟩
      by_cases hsame : m.region = m'.region
      · -- A copy of the region's answer has the same verdict.
        have hm'' : m' ∈ tick.messages := (List.mem_cons.mp hm').elim (fun heq => heq ▸ hm) (hheard m')
        have hverdict := ((tick.one_verdict m hm m' hm'' hsame).2 hanswer).1
        exact .inl (by rw [← hregion, ← hok, hsame, hverdict])
      · have hold : m' ∈ heard := (List.mem_cons.mp hm').resolve_left (fun heq => hsame (heq ▸ rfl))
        exact .inr ⟨⟨m', hold, hanswer', hregion, hok⟩, fun hr => hsame (hregion.trans hr).symm⟩
  · rw [h.missing_iff]
    simp [hanswer]
  · rcases List.mem_cons.mp hm' with rfl | hm'
    · exact le_max_right _ _
    · exact (h.at_ge m' hm' hanswer').trans (le_max_left _ _)
  · dsimp only
    rcases le_total t.at_ m.checkedAt with hle | hle
    · rw [max_eq_right hle]
      exact .inr ⟨m, List.mem_cons_self, hanswer, rfl⟩
    · rw [max_eq_left hle]
      rcases h.at_from with hzero | ⟨m', hm', hat⟩
      · exact .inl hzero
      · exact .inr ⟨m', List.mem_cons_of_mem m hm', hat⟩

theorem RegionMessages.Collected.after (h : tick.Collected heard t) (hheard : ∀ m' ∈ heard, m' ∈ tick.messages)
    (hm : m ∈ tick.messages) : tick.Collected (m :: heard) (hear t m) := by
  cases hmissing : m.missing with
  | true => exact h.after_missing hmissing
  | false => exact h.after_answer hheard hm hmissing

/-- A record is complete when every region is heard. -/
theorem RegionMessages.Collected.answered_iff_heard (h : tick.Collected heard t) : answered t = true ↔ tick.HeardAll heard := by
  unfold answered RegionMessages.HeardAll
  rw [List.all_eq_true, h.expected]
  apply forall₂_congr
  intro region _
  rw [decide_eq_true_eq, h.missing_iff]
  constructor
  · intro hcase
    rcases hcase with hkey | ⟨m, hm, -, hregion⟩
    · obtain ⟨⟨r, ok⟩, hr, rfl⟩ := List.mem_map.mp hkey
      obtain ⟨m, hm, -, hregion, -⟩ := (h.answered_iff r ok).mp hr
      exact ⟨m, hm, hregion⟩
    · exact ⟨m, hm, hregion⟩
  · intro ⟨m, hm, hregion⟩
    cases hmissing : m.missing with
    | true => exact .inr ⟨m, hm, hmissing, hregion⟩
    | false =>
      have hr : (region, m.ok) ∈ t.results := (h.answered_iff region m.ok).mpr ⟨m, hm, hmissing, hregion, rfl⟩
      exact .inl (List.mem_map.mpr ⟨(region, m.ok), hr, rfl⟩)

/-! ## Two complete records of one tick -/

/-- An answer of one record is among the messages of every complete one. -/
theorem heard_also (hheard : ∀ m ∈ heard, m ∈ tick.messages) (hheard' : ∀ m ∈ heard', m ∈ tick.messages)
    (hall' : tick.HeardAll heard') (hm : m ∈ heard) (hanswer : m.missing = false) :
    ∃ m' ∈ heard', m'.missing = false ∧ m'.region = m.region ∧ m'.ok = m.ok ∧ m'.checkedAt = m.checkedAt := by
  obtain ⟨m', hm', hregion⟩ := hall' m.region (tick.from_expected m (hheard m hm))
  obtain ⟨hmissing, hsame⟩ := tick.one_verdict m (hheard m hm) m' (hheard' m' hm') hregion.symm
  obtain ⟨hok, hat⟩ := hsame hanswer
  exact ⟨m', hm', hmissing ▸ hanswer, hregion, hok.symm, hat.symm⟩

theorem RegionMessages.Collected.results_sub (h : tick.Collected heard t) (h' : tick.Collected heard' t')
    (hheard : ∀ m ∈ heard, m ∈ tick.messages) (hheard' : ∀ m ∈ heard', m ∈ tick.messages)
    (hall' : tick.HeardAll heard') : ∀ x ∈ t.results, x ∈ t'.results := by
  intro ⟨region, ok⟩ hx
  obtain ⟨m, hm, hanswer, hregion, hok⟩ := (h.answered_iff region ok).mp hx
  obtain ⟨m', hm', hanswer', hregion', hok', -⟩ := heard_also hheard hheard' hall' hm hanswer
  exact (h'.answered_iff region ok).mpr ⟨m', hm', hanswer', hregion'.trans hregion, hok'.trans hok⟩

theorem RegionMessages.Collected.at_nonneg (h : tick.Collected heard t) (hheard : ∀ m ∈ heard, m ∈ tick.messages) : 0 ≤ t.at_ := by
  rcases h.at_from with hzero | ⟨m, hm, hanswer, hat⟩
  · exact hzero.ge
  · exact hat ▸ (tick.checked_pos m (hheard m hm) hanswer).le

theorem RegionMessages.Collected.at_le (h : tick.Collected heard t) (h' : tick.Collected heard' t')
    (hheard : ∀ m ∈ heard, m ∈ tick.messages) (hheard' : ∀ m ∈ heard', m ∈ tick.messages)
    (hall' : tick.HeardAll heard') : t.at_ ≤ t'.at_ := by
  rcases h.at_from with hzero | ⟨m, hm, hanswer, hat⟩
  · exact hzero ▸ h'.at_nonneg hheard'
  · obtain ⟨m', hm', hanswer', -, -, hat'⟩ := heard_also hheard hheard' hall' hm hanswer
    calc t.at_ = m'.checkedAt := by rw [← hat, hat']
      _ ≤ t'.at_ := h'.at_ge m' hm' hanswer'

/-- Some region answered, so the record carries a time. -/
theorem RegionMessages.Collected.at_ne_zero (h : tick.Collected heard t) (hheard : ∀ m ∈ heard, m ∈ tick.messages)
    (hne : t.results ≠ []) : t.at_ ≠ 0 := by
  obtain ⟨⟨region, ok⟩, hx⟩ := List.exists_mem_of_ne_nil _ hne
  obtain ⟨m, hm, hanswer, -⟩ := (h.answered_iff region ok).mp hx
  exact ((tick.checked_pos m (hheard m hm) hanswer).trans_le (h.at_ge m hm hanswer)).ne'

/-- What complete records of one tick come to, from one state of the monitor. -/
theorem RegionMessages.Collected.agree (h : tick.Collected heard t) (h' : tick.Collected heard' t')
    (hheard : ∀ m ∈ heard, m ∈ tick.messages) (hheard' : ∀ m ∈ heard', m ∈ tick.messages)
    (hall : tick.HeardAll heard) (hall' : tick.HeardAll heard') (w : Working) (id : String) (monitor : MonitorConfig)
    (o o' : Outside) (key : TickId) :
    Agree (outcome w ⟨id, monitor, t, o, key⟩) (outcome w ⟨id, monitor, t', o', key⟩) := by
  have hperm : t.results.Perm t'.results := by
    apply (List.perm_ext_iff_of_nodup h.regions_nodup.of_map h'.regions_nodup.of_map).mpr
    intro x
    exact ⟨h.results_sub h' hheard hheard' hall' x, h'.results_sub h hheard' hheard hall x⟩
  have hat : t.at_ = t'.at_ := le_antisymm (h.at_le h' hheard hheard' hall') (h'.at_le h hheard' hheard hall)
  have htime : (closedTick t o).results ≠ [] → (closedTick t o).at_ = (closedTick t' o').at_ := by
    intro hne
    have hzero : t.at_ ≠ 0 := h.at_ne_zero hheard hne
    simp only [closedTick]
    rw [if_neg hzero, if_neg (hat ▸ hzero), hat]
  have hclosed : (closedTick t o).results.Perm (closedTick t' o').results := hperm
  obtain ⟨hstate, htransition⟩ := applyTick_agree (monitorState w id monitor) hclosed htime
    monitor.failureThreshold monitor.minFailingRegions
  exact ⟨hperm, hstate, htransition⟩

/-! ## A run of the tick's messages -/

/-- The tick is not applied yet: the monitor is as it was, and the record holds what was heard. -/
structure RegionMessages.Waiting (tick : RegionMessages) (w₀ : Working) (heard : List ResultMsg) (w : Working) : Prop where
  mon : w.mon tick.tickId.1 = w₀.mon tick.tickId.1
  closed : w.closed tick.tickId.1 = w₀.closed tick.tickId.1
  record : ∀ m ∈ tick.messages, tick.Collected heard ((w.ticks tick.tickId).getD (newTick m))
  known : ∀ m ∈ heard, m ∈ tick.messages

/-- The monitor takes results, and no tick as late as this one has closed. -/
structure RegionMessages.Taken (tick : RegionMessages) (config : Config) (monitor : MonitorConfig) (w : Working) :
    Prop where
  config : config tick.tickId.1 = some monitor
  active : monitor.active = true
  fresh : ∀ closed ∈ w.closed tick.tickId.1, closed < tick.tickId.2

variable {config : Config} {monitor : MonitorConfig} {w w₀ : Working} {o : Outside}

theorem waiting_start (hopen : w₀.ticks tick.tickId = none) : tick.Waiting w₀ [] w₀ := by
  refine ⟨rfl, rfl, fun m hm => ?_, nofun⟩
  rw [hopen, Option.getD_none]
  exact collected_new hm

theorem late_waiting (htaken : tick.Taken config monitor w₀) (h : tick.Waiting w₀ heard w) (hm : m ∈ tick.messages) :
    late w m = false := by
  have htick : m.tickId = tick.tickId := (tick.same_tick m hm).1
  have hid : m.monitorId = tick.tickId.1 := congrArg Prod.fst htick
  unfold late
  rw [hid, h.closed, Option.any_eq_false]
  intro closed hclosed
  have hlt := htaken.fresh closed hclosed
  rw [← htick] at hlt
  simpa [ResultMsg.tickId] using hlt

/-- The closing a message of the tick causes, if it completes the record. -/
theorem closing_message (htaken : tick.Taken config monitor w₀) (h : tick.Waiting w₀ heard w)
    (hm : m ∈ tick.messages) : closing config w (.result m o) =
      if answered (hear ((w.ticks tick.tickId).getD (newTick m)) m) then
        some ⟨tick.tickId.1, monitor, hear ((w.ticks tick.tickId).getD (newTick m)) m, o, tick.tickId⟩ else none := by
  have htick : m.tickId = tick.tickId := (tick.same_tick m hm).1
  have hid : m.monitorId = tick.tickId.1 := congrArg Prod.fst htick
  simp [closing, hid, htaken.config, htaken.active, late_waiting htaken h hm, htick]

/-- A message that leaves a region open only adds to the record. -/
theorem waiting_step (htaken : tick.Taken config monitor w₀) (h : tick.Waiting w₀ heard w) (hm : m ∈ tick.messages)
    (hopen : ¬tick.HeardAll (m :: heard)) (o : Outside) :
    closing config w (.result m o) = none ∧ tick.Waiting w₀ (m :: heard) (step config w (.result m o)) := by
  have hcollected := (h.record m hm).after h.known hm
  have hans : ¬answered (hear ((w.ticks tick.tickId).getD (newTick m)) m) = true :=
    fun hall => hopen (hcollected.answered_iff_heard.mp hall)
  have htick : m.tickId = tick.tickId := (tick.same_tick m hm).1
  have hid : m.monitorId = tick.tickId.1 := congrArg Prod.fst htick
  have hstep : step config w (.result m o) =
      write w (.putTick tick.tickId (hear ((w.ticks tick.tickId).getD (newTick m)) m)) := by
    simp [step, writes, onResult, hid, htaken.config, htaken.active, late_waiting htaken h hm, htick, hans]
  refine ⟨by rw [closing_message htaken h hm, if_neg hans], ?_⟩
  rw [hstep]
  refine ⟨h.mon, h.closed, fun m' hm' => ?_, fun m' hm' => ?_⟩
  · simp only [write, Function.update_self, Option.getD_some]
    exact hcollected
  · exact (List.mem_cons.mp hm').elim (fun heq => heq ▸ hm) (h.known m')

/-- The tick was applied: its monitor is in the state it came to, and its messages are late. -/
structure RegionMessages.Settled (tick : RegionMessages) (w : Working) (state : MonitorState) : Prop where
  mon : w.mon tick.tickId.1 = some state
  late : ∀ m ∈ tick.messages, late w m = true

/-- The message that completes the record applies the tick. -/
theorem settled_step (htaken : tick.Taken config monitor w₀) (h : tick.Waiting w₀ heard w) (hm : m ∈ tick.messages)
    (hall : tick.HeardAll (m :: heard)) (o : Outside) :
    ∃ t, tick.Collected (m :: heard) t ∧
      (closing config w (.result m o)).map (outcome w) = some (outcome w₀ ⟨tick.tickId.1, monitor, t, o, tick.tickId⟩) ∧
      tick.Settled (step config w (.result m o)) (outcome w₀ ⟨tick.tickId.1, monitor, t, o, tick.tickId⟩).state := by
  have hcollected := (h.record m hm).after h.known hm
  have hclosing := closing_message (o := o) htaken h hm
  rw [if_pos (hcollected.answered_iff_heard.mpr hall)] at hclosing
  generalize hear ((w.ticks tick.tickId).getD (newTick m)) m = t at hcollected hclosing
  have hverdict : verdict w tick.tickId.1 monitor t o = verdict w₀ tick.tickId.1 monitor t o := by
    simp only [verdict, monitorState, h.mon]
  refine ⟨t, hcollected, ?_, ?_, fun m' hm' => ?_⟩
  · rw [hclosing, Option.map_some]
    simp only [outcome, hverdict]
  · rw [step, writes_closing hclosing, mon_closing, Function.update_self]
    simp only [outcome, hverdict]
  · have htick : m'.tickId = tick.tickId := (tick.same_tick m' hm').1
    have hid : m'.monitorId = tick.tickId.1 := congrArg Prod.fst htick
    have hslot : m'.scheduledAt = t.scheduledAt := (congrArg Prod.snd htick).trans hcollected.slot.symm
    rw [EvaluatorPrograms.late, step, writes_closing hclosing, closed_closing, hid, Function.update_self, hslot]
    exact decide_eq_true (le_max_left _ _)

/-- A copy of a message whose tick was applied is ignored. -/
theorem ignored_step {state : MonitorState} (h : tick.Settled w state) (hm : m ∈ tick.messages) (o : Outside) :
    closing config w (.result m o) = none ∧ step config w (.result m o) = w := by
  have hlate := h.late m hm
  cases hconfig : config m.monitorId with
  | none => simp [closing, step, writes, onResult, hconfig]
  | some c =>
    constructor
    · simp [closing, hconfig, hlate]
    · cases hactive : c.active <;> simp [step, writes, onResult, hconfig, hactive, hlate]

theorem ignored_run {state : MonitorState} (h : tick.Settled w state) (ds : List Delivery)
    (hds : ∀ d ∈ ds, d.1 ∈ tick.messages) :
    outcomes config w (events ds) = [] ∧ run (step config) w (events ds) = w := by
  induction ds with
  | nil => exact ⟨rfl, rfl⟩
  | cons d ds ih =>
    obtain ⟨hnone, hstep⟩ : closing config w (.result d.1 d.2) = none ∧ step config w (.result d.1 d.2) = w :=
      ignored_step h (hds d List.mem_cons_self) d.2
    obtain ⟨houtcomes, hrun⟩ := ih fun d' hd' => hds d' (List.mem_cons_of_mem d hd')
    constructor
    · change ((closing config w (.result d.1 d.2)).map (outcome w)).toList ++
        outcomes config (step config w (.result d.1 d.2)) (events ds) = []
      rw [hnone, hstep, houtcomes]
      rfl
    · change run (step config) (step config w (.result d.1 d.2)) (events ds) = w
      rw [hstep, hrun]

/-- From a waiting record on, a run that hears every region applies the tick once. -/
theorem applied_from (htaken : tick.Taken config monitor w₀) (h : tick.Waiting w₀ heard w)
    (hopen : ¬tick.HeardAll heard) (ds : List Delivery) (hds : ∀ d ∈ ds, d.1 ∈ tick.messages)
    (hall : tick.HeardAll (heard ++ ds.map Prod.fst)) :
    ∃ heard' t o, (∀ m ∈ heard', m ∈ tick.messages) ∧ tick.HeardAll heard' ∧ tick.Collected heard' t ∧
      outcomes config w (events ds) = [outcome w₀ ⟨tick.tickId.1, monitor, t, o, tick.tickId⟩] ∧
      tick.Settled (run (step config) w (events ds))
        (outcome w₀ ⟨tick.tickId.1, monitor, t, o, tick.tickId⟩).state := by
  induction ds generalizing w heard with
  | nil => exact absurd (by simpa using hall) hopen
  | cons d ds ih =>
    have hd : d.1 ∈ tick.messages := hds d List.mem_cons_self
    have hrest : ∀ d' ∈ ds, d'.1 ∈ tick.messages := fun d' hd' => hds d' (List.mem_cons_of_mem d hd')
    have houtcomes : outcomes config w (events (d :: ds)) = ((closing config w (.result d.1 d.2)).map (outcome w)).toList ++
        outcomes config (step config w (.result d.1 d.2)) (events ds) := rfl
    have hrun : run (step config) w (events (d :: ds)) =
        run (step config) (step config w (.result d.1 d.2)) (events ds) := rfl
    rw [houtcomes, hrun]
    by_cases hnow : tick.HeardAll (d.1 :: heard)
    · obtain ⟨t, hcollected, hclosing, hsettled⟩ := settled_step htaken h hd hnow d.2
      obtain ⟨hnone, hsame⟩ : outcomes config (step config w (.result d.1 d.2)) (events ds) = [] ∧
          run (step config) (step config w (.result d.1 d.2)) (events ds) = step config w (.result d.1 d.2) :=
        ignored_run hsettled ds hrest
      refine ⟨d.1 :: heard, t, d.2, fun m hm => ?_, hnow, hcollected, ?_, ?_⟩
      · exact (List.mem_cons.mp hm).elim (fun heq => heq ▸ hd) (h.known m)
      · rw [hclosing, hnone]
        rfl
      · rw [hsame]
        exact hsettled
    · obtain ⟨hnone, hwaiting⟩ := waiting_step htaken h hd hnow d.2
      rw [hnone]
      apply ih hwaiting hnow hrest
      intro region hregion
      obtain ⟨m, hm, hmregion⟩ := hall region hregion
      refine ⟨m, ?_, hmregion⟩
      simp only [List.map_cons, List.mem_append, List.mem_cons] at hm ⊢
      tauto

/-- Two runs of a tick's messages that both hear every region, in any order and with any
copies: each applies the tick once, they agree, and further copies change nothing. -/
theorem applied_once (tick : RegionMessages) (config : Config) (monitor : MonitorConfig) (w : Working)
    (htaken : tick.Taken config monitor w) (hopen : w.ticks tick.tickId = none) (ds ds' : List Delivery)
    (hds : ∀ d ∈ ds, d.1 ∈ tick.messages) (hds' : ∀ d ∈ ds', d.1 ∈ tick.messages)
    (hall : tick.HeardAll (ds.map Prod.fst)) (hall' : tick.HeardAll (ds'.map Prod.fst)) :
    ∃ a b, outcomes config w (events ds) = [a] ∧ outcomes config w (events ds') = [b] ∧ Agree a b ∧
      (run (step config) w (events ds)).mon tick.tickId.1 = some a.state ∧
      (run (step config) w (events ds')).mon tick.tickId.1 = some a.state ∧
      ∀ m ∈ tick.messages, ∀ o,
        step config (run (step config) w (events ds)) (.result m o) = run (step config) w (events ds) := by
  have hunheard : ¬tick.HeardAll [] := by
    intro hnone
    obtain ⟨region, hregion⟩ := List.exists_mem_of_ne_nil _ tick.expected_ne
    obtain ⟨m, hm, -⟩ := hnone region hregion
    cases hm
  have hstart := waiting_start hopen
  obtain ⟨heard, t, o, hknown, hheard, hcollected, houtcomes, hsettled⟩ :=
    applied_from htaken hstart hunheard ds hds hall
  obtain ⟨heard', t', o', hknown', hheard', hcollected', houtcomes', hsettled'⟩ :=
    applied_from htaken hstart hunheard ds' hds' hall'
  have hagree := hcollected.agree hcollected' hknown hknown' hheard hheard' w tick.tickId.1 monitor o o' tick.tickId
  refine ⟨_, _, houtcomes, houtcomes', hagree, hsettled.mon, hagree.state ▸ hsettled'.mon, fun m hm o => ?_⟩
  exact (ignored_step hsettled hm o).2

/-! ## Two regions -/

open EvaluatorTickOrder (twoRegions answer outside)

def slot60 : List ResultMsg := [answer 60 "eu" false, answer 60 "us" true]

theorem slot60_fits : (∀ m ∈ slot60, m.tickId = ("m", 60) ∧ m.regionsExpected = ["eu", "us"]) ∧
    (∀ m ∈ slot60, m.region ∈ ["eu", "us"]) ∧
    (∀ m ∈ slot60, ∀ m' ∈ slot60, m.region = m'.region →
      m.missing = m'.missing ∧ (m.missing = false → m.ok = m'.ok ∧ m.checkedAt = m'.checkedAt)) ∧
    ∀ m ∈ slot60, m.missing = false → 0 < m.checkedAt := by
  decide +kernel

/-- One region fails and one passes at the slot 60. -/
def split60 : RegionMessages where
  tickId := ("m", 60)
  expected := ["eu", "us"]
  messages := slot60
  expected_ne := List.cons_ne_nil _ _
  same_tick := slot60_fits.1
  from_expected := slot60_fits.2.1
  one_verdict := slot60_fits.2.2.1
  checked_pos := slot60_fits.2.2.2

def forth : List Delivery := slot60.map fun m => (m, outside)

def back : List Delivery := (slot60.reverse ++ slot60).map fun m => (m, outside)

theorem applied_once_split : ∃ a b, outcomes twoRegions empty (events forth) = [a] ∧
    outcomes twoRegions empty (events back) = [b] ∧ Agree a b ∧
    (run (step twoRegions) empty (events forth)).mon "m" = some a.state ∧
    (run (step twoRegions) empty (events back)).mon "m" = some a.state ∧
    ∀ m ∈ slot60, ∀ o, step twoRegions (run (step twoRegions) empty (events forth)) (.result m o) =
      run (step twoRegions) empty (events forth) := by
  have hforth : ∀ d ∈ forth, d.1 ∈ slot60 := by
    intro d hd
    obtain ⟨m, hm, rfl⟩ := List.mem_map.mp hd
    exact hm
  have hback : ∀ d ∈ back, d.1 ∈ slot60 := by
    intro d hd
    obtain ⟨m, hm, rfl⟩ := List.mem_map.mp hd
    simpa using hm
  exact applied_once split60 twoRegions ⟨"o", true, 3, 2, 60, .pending, 0, 0⟩ empty ⟨rfl, rfl, nofun⟩ rfl forth back
    hforth hback (by unfold RegionMessages.HeardAll; decide +kernel) (by unfold RegionMessages.HeardAll; decide +kernel)

end Upstat.TickAnswers
