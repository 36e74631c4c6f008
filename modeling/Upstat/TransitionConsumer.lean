import Upstat.CommonDatabase

/-! # Transitions and edits of a monitor in the common service (`service/`)

`onTransition` is the handler of `upstat.monitor.transition`. `UpdateMonitor` reads the
monitor before it writes it, so it comes in two steps, `getMonitor` and `updateMonitor`. Both
write under the monitor's row lock, and a transaction that fails leaves the database as it was. -/
namespace Upstat.TransitionConsumer

open MonitorMachine CommonDatabase

/-- The auto-incident a transition into down declares. -/
def downIncident (m : TransitionMsg) (name : String) : NewIncident :=
  let cause := if m.cause = "" then "failing" else m.cause
  { orgId := m.orgId
    title := name ++ " is down"
    sev := 2
    commander := "Upstat"
    source := .monitor
    monitorId := some m.monitorId
    cause := cause
    startedAt := m.at_
    firstEntry := name ++ " went down (" ++ cause ++ ") after " ++ toString m.consecutiveFailures ++
      " consecutive failed checks"
    firstEntryPublic := true }

/-- Stores the transition, materializes the monitor's status, and opens or closes its
auto-incident: opened on any transition into down, closed from down to up. -/
def onTransition (db : Db) (now : ℚ) (m : TransitionMsg) : Except DbError Db :=
  let (db, fresh) := insertTransition db m
  if !fresh then .ok db
  else
    let (db, _) := applyTransition db m
    match monitorName db m.monitorId with
    | none => .ok db
    | some name =>
      if m.to_ = .down then
        match openMonitorIncident db.incidents m.monitorId with
        | some _ => .ok db
        | none => createIncident db (downIncident m name)
      else if m.from_ = .down ∧ m.to_ = .up then closeMonitorIncident db now m.monitorId (name ++ " recovered")
      else .ok db

/-- One delivery: a handler that fails is rolled back. -/
def deliver (db : Db) (d : ℚ × TransitionMsg) : Db := (onTransition db d.1 d.2).toOption.getD db

/-- The fields of an edit that reach the columns modelled; `refused` when the settings do
not pass their check or the name is taken. -/
structure MonitorInput where
  name : Option String
  active : Option Bool
  intervalS : Option ℕ
  failureThreshold : Option ℕ
  minFailingRegions : Option ℕ
  refused : Bool

/-- The update of the row: pausing freezes the status at paused, resuming starts from
pending, and either clears the failure count. -/
def MonitorInput.patch (in_ : MonitorInput) (r : MonitorRow) : MonitorRow :=
  { r with
    name := in_.name.getD r.name
    intervalS := in_.intervalS.getD r.intervalS
    failureThreshold := in_.failureThreshold.getD r.failureThreshold
    minFailingRegions := in_.minFailingRegions.getD r.minFailingRegions
    status :=
      if in_.active = some false then .paused
      else if in_.active = some true ∧ !r.active then .pending
      else r.status
    consecutiveFailures := if in_.active = some (!r.active) then 0 else r.consecutiveFailures
    active := in_.active.getD r.active }

/-- The monitor as an edit first reads it. -/
def getMonitor (db : Db) (id : String) : Except DbError MonitorRow :=
  (db.monitors id).elim (.error .notFound) .ok

/-- The edit's writes, after it has read the monitor as `cur`. -/
def updateMonitor (db : Db) (now : ℚ) (cur : MonitorRow) (id : String) (in_ : MonitorInput) : Except DbError Db :=
  if in_.refused then .error .conflict
  else
    match db.monitors id with
    | none => .error .notFound
    | some r =>
      let db := { db with monitors := Function.update db.monitors id (some (in_.patch r)) }
      if in_.active = some false ∧ cur.active then closeMonitorIncident db now id "Resolved: monitor paused"
      else .ok db

/-! ## What handling a transition does -/

/-- Whether the transition opens an incident or closes one. -/
def direction (m : TransitionMsg) : Option Bool :=
  if m.to_ = .down then some true else if m.from_ = .down ∧ m.to_ = .up then some false else none

/-- The insert stores the transition. -/
def fresh (db : Db) (m : TransitionMsg) : Bool := known db m && !recorded db m

/-- The row after the transition was applied to it. -/
def applied (m : TransitionMsg) (r : MonitorRow) : MonitorRow :=
  { r with status := m.to_, consecutiveFailures := m.consecutiveFailures, lastTransitionSeq := m.seq }

/-- The monitors with the transition applied to its own. -/
def applyTo (db : Db) (m : TransitionMsg) : String → Option MonitorRow :=
  Function.update db.monitors m.monitorId ((db.monitors m.monitorId).map (applied m))

/-- Everything one handled transition changes. -/
structure Handled (db : Db) (m : TransitionMsg) (db' : Db) : Prop where
  monitors : db'.monitors = if fresh db m ∧ applies db m then applyTo db m else db.monitors
  transitions : db'.transitions = db.transitions ++ if fresh db m then [m] else []
  hasOpen : ∀ j, hasOpen db' j =
    if fresh db m ∧ j = m.monitorId then (direction m).getD (hasOpen db j) else hasOpen db j

theorem insertTransition_eq (db : Db) (m : TransitionMsg) :
    insertTransition db m =
      ({ db with transitions := db.transitions ++ if fresh db m then [m] else [] }, fresh db m) := by
  unfold insertTransition fresh
  cases hk : known db m <;> cases hr : recorded db m <;> simp

theorem applyTransition_eq (db : Db) (m : TransitionMsg) :
    applyTransition db m =
      ({ db with monitors := if applies db m then applyTo db m else db.monitors }, applies db m) := by
  unfold applyTransition applyTo
  cases h : db.monitors m.monitorId with
  | none => simp [applies, h]
  | some r => cases ha : applies db m <;> simp [applied]

/-- Applying a transition keeps every monitor's name. -/
theorem monitorName_applied (db : Db) (m : TransitionMsg) (id : String) :
    ((if applies db m then applyTo db m else db.monitors) id).map MonitorRow.name =
      (db.monitors id).map MonitorRow.name := by
  split
  · by_cases hid : id = m.monitorId
    · subst hid
      simp [applyTo, Option.map_map, Function.comp_def, applied]
    · simp [applyTo, Function.update_of_ne hid]
  · rfl

/-- Handling never fails, whatever the order transitions come in. -/
theorem onTransition_spec (db : Db) (now : ℚ) (m : TransitionMsg) :
    ∃ db', onTransition db now m = .ok db' ∧ Handled db m db' := by
  unfold onTransition
  rw [insertTransition_eq]
  cases hf : fresh db m with
  | false => exact ⟨_, rfl, by simp [hf], by simp [hf], by simp [hf, CommonDatabase.hasOpen]⟩
  | true =>
    have happlies : ∀ ts, applies { db with transitions := ts } m = applies db m := fun _ => rfl
    have happlyTo : ∀ ts, applyTo { db with transitions := ts } m = applyTo db m := fun _ => rfl
    simp only [Bool.not_true, Bool.false_eq_true, if_false, if_true, applyTransition_eq, happlies, happlyTo,
      monitorName, monitorName_applied]
    obtain ⟨r, hr⟩ : ∃ r, db.monitors m.monitorId = some r := by
      simp only [fresh, known, Bool.and_eq_true, Option.any_eq_true] at hf
      obtain ⟨⟨r, hr, -⟩, -⟩ := hf
      exact ⟨r, hr⟩
    rw [hr]
    dsimp only [Option.map_some]
    -- The database the incident branches find.
    set db₁ : Db := { db with
      monitors := if applies db m then applyTo db m else db.monitors
      transitions := db.transitions ++ [m] } with hdb₁
    have hopen₁ : ∀ j, hasOpen db₁ j = hasOpen db j := fun _ => rfl
    by_cases hdown : m.to_ = .down
    · have hdir : direction m = some true := by simp [direction, hdown]
      rw [if_pos hdown]
      cases ho : openMonitorIncident db.incidents m.monitorId with
      | some inc =>
        refine ⟨db₁, rfl, by simp [hdb₁, hf], by simp [hdb₁, hf], fun j => ?_⟩
        rw [hopen₁, hdir]
        by_cases hj : j = m.monitorId
        · subst hj; simp [hf, CommonDatabase.hasOpen, ho]
        · simp [hj]
      | none =>
        obtain ⟨db', hcreate, hm, ht, hopen⟩ := createIncident_spec db₁ (downIncident m r.name)
          (m := m.monitorId) rfl rfl (by simp [CommonDatabase.hasOpen, hdb₁, ho])
        refine ⟨db', hcreate, by simp [hm, hdb₁, hf], by simp [ht, hdb₁, hf], fun j => ?_⟩
        rw [hopen, hopen₁, hdir]
        by_cases hj : j = m.monitorId <;> simp [hf, hj]
    · rw [if_neg hdown]
      by_cases hup : m.from_ = .down ∧ m.to_ = .up
      · have hdir : direction m = some false := by simp [direction, hup]
        rw [if_pos hup]
        obtain ⟨db', hclose, hm, ht, hopen⟩ := closeMonitorIncident_spec db₁ now m.monitorId (r.name ++ " recovered")
        refine ⟨db', hclose, by simp [hm, hdb₁, hf], by simp [ht, hdb₁, hf], fun j => ?_⟩
        rw [hopen, hopen₁, hdir]
        by_cases hj : j = m.monitorId <;> simp [hf, hj]
      · have hdir : direction m = none := by simp [direction, hdown, hup]
        rw [if_neg hup]
        exact ⟨db₁, rfl, by simp [hdb₁, hf], by simp [hdb₁, hf], fun j => by rw [hopen₁, hdir]; simp⟩

theorem handled_deliver (db : Db) (d : ℚ × TransitionMsg) : Handled db d.2 (deliver db d) := by
  obtain ⟨db', hok, hspec⟩ := onTransition_spec db d.1 d.2
  rw [deliver, hok]
  exact hspec

/-! ## What an edit does -/

/-- The edit's transaction, rolled back when it fails. -/
def edit (db : Db) (now : ℚ) (cur : MonitorRow) (id : String) (in_ : MonitorInput) : Db :=
  (updateMonitor db now cur id in_).toOption.getD db

/-- The edit gets as far as its writes. -/
def accepted (db : Db) (id : String) (in_ : MonitorInput) : Bool := !in_.refused && (db.monitors id).isSome

/-- The edit pauses a monitor it had read as active, so it closes the incident. -/
def closes (cur : MonitorRow) (in_ : MonitorInput) : Bool := in_.active == some false && cur.active

/-- Everything one edit changes. -/
structure Edited (db : Db) (cur : MonitorRow) (id : String) (in_ : MonitorInput) (db' : Db) : Prop where
  monitors : db'.monitors =
    if accepted db id in_ then Function.update db.monitors id ((db.monitors id).map in_.patch) else db.monitors
  transitions : db'.transitions = db.transitions
  hasOpen : ∀ j, hasOpen db' j =
    if accepted db id in_ ∧ closes cur in_ ∧ j = id then false else hasOpen db j

theorem edited_edit (db : Db) (now : ℚ) (cur : MonitorRow) (id : String) (in_ : MonitorInput) :
    Edited db cur id in_ (edit db now cur id in_) := by
  unfold edit updateMonitor
  cases hrefused : in_.refused with
  | true =>
    have hno : accepted db id in_ = false := by simp [accepted, hrefused]
    exact ⟨by simp [hno, Except.toOption], by simp [Except.toOption], by simp [hno, Except.toOption]⟩
  | false =>
    cases hr : db.monitors id with
    | none =>
      have hno : accepted db id in_ = false := by simp [accepted, hr]
      exact ⟨by simp [hno, Except.toOption], by simp [Except.toOption], by simp [hno, Except.toOption]⟩
    | some r =>
      have hyes : accepted db id in_ = true := by simp [accepted, hrefused, hr]
      simp only [Bool.false_eq_true, if_false]
      cases hcl : closes cur in_ with
      | false =>
        rw [if_neg (by simpa [closes] using hcl)]
        exact ⟨by simp [hyes, hr, Except.toOption], by simp [Except.toOption],
          fun j => by simp [hcl, Except.toOption, CommonDatabase.hasOpen]⟩
      | true =>
        rw [if_pos (by simpa [closes] using hcl)]
        obtain ⟨db', hok, hm, ht, hopen⟩ := closeMonitorIncident_spec
          { db with monitors := Function.update db.monitors id (some (in_.patch r)) } now id "Resolved: monitor paused"
        rw [hok]
        refine ⟨by simp [hyes, hr, hm, Except.toOption], by simp [ht, Except.toOption], fun j => ?_⟩
        have hj : CommonDatabase.hasOpen db' j = (CommonDatabase.hasOpen db j && j != id) := hopen j
        by_cases hid : j = id
        · subst hid
          simp [hyes, hcl, hj, Except.toOption]
        · simp [hid, hj, Except.toOption]

end Upstat.TransitionConsumer
