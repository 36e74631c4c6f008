import Mathlib.Data.List.Nodup
import Mathlib.Data.List.Pairwise
import Mathlib.Logic.Function.Basic
import Upstat.MonitorMachine

/-! # Monitors, transitions and incidents in the common database (`repository/`)

A table is what its constraints let it be: monitors are keyed by id, and a list of incidents
is stored only where the primary key and the two unique indexes allow it. A statement
that breaks a constraint is an error, and so is an update that finds no row. -/
namespace Upstat.CommonDatabase

open MonitorMachine

inductive DbError where
  | notFound | conflict
  deriving DecidableEq, Repr

/-- A monitor's row, less the settings no function here reads. -/
structure MonitorRow where
  id : String
  orgId : String
  name : String
  active : Bool
  status : Status
  intervalS : ℕ
  failureThreshold : ℕ
  minFailingRegions : ℕ
  consecutiveFailures : ℕ
  lastTransitionSeq : ℕ
  deriving DecidableEq

/-- `uuid5` of the monitor's id and the number, which it tells apart. -/
abbrev TransitionId := String × ℕ

/-- A transition as it is published and as it is stored. -/
structure TransitionMsg where
  monitorId : String
  orgId : String
  seq : ℕ
  from_ : Status
  to_ : Status
  cause : String
  at_ : ℚ
  regions : Results
  consecutiveFailures : ℕ
  deriving DecidableEq

def TransitionMsg.id (m : TransitionMsg) : TransitionId := (m.monitorId, m.seq)

inductive IncidentStatus where
  | investigating | identified | monitoring | resolved
  deriving DecidableEq, Repr

inductive Source where
  | monitor | manual
  deriving DecidableEq, Repr

structure Incident where
  id : ℕ
  orgId : String
  number : ℕ
  title : String
  sev : ℕ
  status : IncidentStatus
  commander : String
  source : Source
  monitorId : Option String
  cause : String
  startedAt : ℚ
  resolvedAt : Option ℚ
  deriving DecidableEq

structure TimelineEntry where
  incidentId : ℕ
  ts : ℚ
  author : String
  phase : IncidentStatus
  body : String
  isPublic : Bool
  deriving DecidableEq

/-- The monitor whose open auto-incident this is. -/
def Incident.openMonitor (i : Incident) : Option String :=
  if i.source = .monitor ∧ i.status ≠ .resolved then i.monitorId else none

/-- The incidents table: `id`, `(org_id, number)` and `incidents_open_monitor` are unique. -/
structure Incidents where
  rows : List Incident
  ids_nodup : (rows.map Incident.id).Nodup
  numbers_nodup : (rows.map fun i => (i.orgId, i.number)).Nodup
  open_nodup : (rows.filterMap Incident.openMonitor).Nodup

def noIncidents : Incidents := ⟨[], .nil, .nil, .nil⟩

/-- A statement's new rows, where the constraints allow them. -/
def Incidents.checked (rows : List Incident) : Except DbError Incidents :=
  if h : (rows.map Incident.id).Nodup ∧ (rows.map fun i => (i.orgId, i.number)).Nodup ∧
      (rows.filterMap Incident.openMonitor).Nodup then
    .ok ⟨rows, h.1, h.2.1, h.2.2⟩
  else .error .conflict

structure Db where
  monitors : String → Option MonitorRow
  transitions : List TransitionMsg
  incidents : Incidents
  timeline : List TimelineEntry

/-! ## Incidents -/

/-- The monitor's open auto-incident. -/
def openMonitorIncident (t : Incidents) (monitorId : String) : Option Incident :=
  t.rows.find? fun i => i.openMonitor = some monitorId

/-- The monitor has an open auto-incident. -/
def hasOpen (db : Db) (monitorId : String) : Bool := (openMonitorIncident db.incidents monitorId).isSome

structure NewIncident where
  orgId : String
  title : String
  sev : ℕ
  commander : String
  source : Source
  monitorId : Option String
  cause : String
  startedAt : ℚ
  firstEntry : String
  firstEntryPublic : Bool

/-- The org's next number. -/
def nextNumber (t : Incidents) (orgId : String) : ℕ :=
  ((t.rows.filter (·.orgId = orgId)).map Incident.number).foldr max 0 + 1

/-- An id no row has. -/
def nextId (t : Incidents) : ℕ := (t.rows.map Incident.id).foldr max 0 + 1

def addTimeline (db : Db) (e : TimelineEntry) : Db := { db with timeline := db.timeline ++ [e] }

def newIncident (t : Incidents) (n : NewIncident) : Incident where
  id := nextId t
  orgId := n.orgId
  number := nextNumber t n.orgId
  title := n.title
  sev := n.sev
  status := .investigating
  commander := n.commander
  source := n.source
  monitorId := n.monitorId
  cause := n.cause
  startedAt := n.startedAt
  resolvedAt := none

/-- Declares an incident with the org's next number and its first timeline entry. -/
def createIncident (db : Db) (n : NewIncident) : Except DbError Db := do
  let inc := newIncident db.incidents n
  let t ← Incidents.checked (db.incidents.rows ++ [inc])
  return addTimeline { db with incidents := t }
    ⟨inc.id, n.startedAt, n.commander, .investigating, n.firstEntry, n.firstEntryPublic⟩

/-- What `UpdateIncident` does to a row for a new status. -/
def Incident.withStatus (i : Incident) (status : IncidentStatus) (now : ℚ) : Incident :=
  { i with
    status := status
    resolvedAt := if status = .resolved then some (i.resolvedAt.getD now) else none }

def updateIncidentStatus (db : Db) (id : ℕ) (status : IncidentStatus) (now : ℚ) : Except DbError Db :=
  if db.incidents.rows.all (·.id ≠ id) then .error .notFound
  else do
    let t ← Incidents.checked (db.incidents.rows.map fun i => if i.id = id then i.withStatus status now else i)
    return { db with incidents := t }

/-- Resolves a monitor's open auto-incident with a final timeline entry; none open is fine. -/
def closeMonitorIncident (db : Db) (now : ℚ) (monitorId body : String) : Except DbError Db :=
  match openMonitorIncident db.incidents monitorId with
  | none => .ok db
  | some inc =>
    updateIncidentStatus (addTimeline db ⟨inc.id, now, "Upstat", .resolved, body, true⟩) inc.id .resolved now

/-! ## Transitions -/

/-- Some row stands in the transition's way: one of its id, or of its monitor and number. -/
def recorded (db : Db) (m : TransitionMsg) : Bool :=
  db.transitions.any fun r => r.id = m.id ∨ (r.monitorId = m.monitorId ∧ r.seq = m.seq)

/-- The monitor the transition is about is there, and in the transition's org. -/
def known (db : Db) (m : TransitionMsg) : Bool := (db.monitors m.monitorId).any (·.orgId = m.orgId)

/-- Stores a transition once; `false` for a redelivery, or when the monitor is gone. -/
def insertTransition (db : Db) (m : TransitionMsg) : Db × Bool :=
  if known db m ∧ ¬recorded db m then ({ db with transitions := db.transitions ++ [m] }, true) else (db, false)

/-- The update of the monitor's row finds it: the monitor is active and its last number lower. -/
def applies (db : Db) (m : TransitionMsg) : Bool :=
  (db.monitors m.monitorId).any fun r => r.lastTransitionSeq < m.seq ∧ r.active

/-- Materializes the monitor's status from the transition, unless a newer one has been
applied or the monitor is paused. -/
def applyTransition (db : Db) (m : TransitionMsg) : Db × Bool :=
  match db.monitors m.monitorId with
  | some r =>
    if applies db m then
      let r := { r with
        status := m.to_
        consecutiveFailures := m.consecutiveFailures
        lastTransitionSeq := m.seq }
      ({ db with monitors := Function.update db.monitors m.monitorId (some r) }, true)
    else (db, false)
  | none => (db, false)

def monitorName (db : Db) (id : String) : Option String := (db.monitors id).map MonitorRow.name

/-! ## What the incident functions leave open -/

theorem hasOpen_iff (db : Db) (m : String) :
    hasOpen db m = true ↔ m ∈ db.incidents.rows.filterMap Incident.openMonitor := by
  simp [hasOpen, openMonitorIncident, List.find?_isSome]

theorem openMonitorIncident_spec {t : Incidents} {m : String} {inc : Incident}
    (h : openMonitorIncident t m = some inc) : inc ∈ t.rows ∧ inc.openMonitor = some m :=
  ⟨List.mem_of_find?_eq_some h, by simpa using List.find?_some h⟩

/-- The unique index: two open auto-incidents of a monitor are one. -/
theorem open_unique (t : Incidents) {i j : Incident} (hi : i ∈ t.rows) (hj : j ∈ t.rows) {m : String}
    (him : i.openMonitor = some m) (hjm : j.openMonitor = some m) : i = j := by
  have hpair := List.pairwise_filterMap.mp t.open_nodup
  by_contra hne
  have hsymm : Std.Symm fun a a' : Incident =>
      ∀ b, a.openMonitor = some b → ∀ b', a'.openMonitor = some b' → b ≠ b' :=
    ⟨fun a a' h b hb b' hb' he => h b' hb' b hb he.symm⟩
  exact hpair.forall hi hj hne m him m hjm rfl

theorem checked_ok {rows : List Incident} (hids : (rows.map Incident.id).Nodup)
    (hnumbers : (rows.map fun i => (i.orgId, i.number)).Nodup)
    (hopen : (rows.filterMap Incident.openMonitor).Nodup) :
    Incidents.checked rows = .ok ⟨rows, hids, hnumbers, hopen⟩ :=
  dif_pos ⟨hids, hnumbers, hopen⟩

private theorem le_foldr_max {n : ℕ} {ns : List ℕ} (h : n ∈ ns) : n ≤ ns.foldr max 0 := by
  induction ns with
  | nil => cases h
  | cons a ns ih =>
    rcases List.mem_cons.mp h with rfl | hn
    · exact le_max_left _ _
    · exact (ih hn).trans (le_max_right _ _)

theorem nextId_fresh (t : Incidents) : nextId t ∉ t.rows.map Incident.id := fun h => by
  have := le_foldr_max h
  simp only [nextId] at this
  omega

theorem nextNumber_fresh (t : Incidents) (org : String) :
    (org, nextNumber t org) ∉ t.rows.map fun i => (i.orgId, i.number) := fun h => by
  obtain ⟨i, hi, he⟩ := List.mem_map.mp h
  obtain ⟨rfl, hnum⟩ := Prod.mk.inj he
  have hmem : i.number ∈ (t.rows.filter (·.orgId = i.orgId)).map Incident.number :=
    List.mem_map.mpr ⟨i, by simp [hi], rfl⟩
  have := le_foldr_max hmem
  simp only [nextNumber] at hnum
  omega

private theorem nodup_snoc {α : Type} {l : List α} {a : α} (hl : l.Nodup) (ha : a ∉ l) : (l ++ [a]).Nodup := by
  simpa using List.nodup_append.mpr ⟨hl, by simp, fun x hx y hy => by
    rintro rfl
    exact ha (by simpa using (List.mem_singleton.mp hy) ▸ hx)⟩

/-- Declaring an auto-incident for a monitor without an open one succeeds, and opens it. -/
theorem createIncident_spec (db : Db) (n : NewIncident) {m : String} (hsource : n.source = .monitor)
    (hmonitor : n.monitorId = some m) (hnone : hasOpen db m = false) :
    ∃ db', createIncident db n = .ok db' ∧ db'.monitors = db.monitors ∧ db'.transitions = db.transitions ∧
      ∀ j, hasOpen db' j = (hasOpen db j || j == m) := by
  have hopens : (newIncident db.incidents n).openMonitor = some m := by
    simp [Incident.openMonitor, newIncident, hsource, hmonitor]
  have hfresh : m ∉ db.incidents.rows.filterMap Incident.openMonitor := by
    rw [← hasOpen_iff, hnone]; simp
  have hids : ((db.incidents.rows ++ [newIncident db.incidents n]).map Incident.id).Nodup := by
    simpa [newIncident] using nodup_snoc db.incidents.ids_nodup (nextId_fresh db.incidents)
  have hnumbers : ((db.incidents.rows ++ [newIncident db.incidents n]).map fun i => (i.orgId, i.number)).Nodup := by
    simpa [newIncident] using nodup_snoc db.incidents.numbers_nodup (nextNumber_fresh db.incidents n.orgId)
  have hopen : ((db.incidents.rows ++ [newIncident db.incidents n]).filterMap Incident.openMonitor).Nodup := by
    simpa [List.filterMap_append, hopens] using nodup_snoc db.incidents.open_nodup hfresh
  let t : Incidents := ⟨db.incidents.rows ++ [newIncident db.incidents n], hids, hnumbers, hopen⟩
  have hcreate : createIncident db n = .ok (addTimeline { db with incidents := t }
      ⟨nextId db.incidents, n.startedAt, n.commander, .investigating, n.firstEntry, n.firstEntryPublic⟩) := by
    rw [createIncident, checked_ok hids hnumbers hopen]
    rfl
  refine ⟨_, hcreate, rfl, rfl, fun j => ?_⟩
  rw [Bool.eq_iff_iff, hasOpen_iff, Bool.or_eq_true, hasOpen_iff, beq_iff_eq]
  simp only [addTimeline, t, List.filterMap_append, List.mem_append]
  simp [hopens, eq_comm]

/-- Closing succeeds, and leaves the monitor without an open auto-incident. -/
theorem closeMonitorIncident_spec (db : Db) (now : ℚ) (m body : String) :
    ∃ db', closeMonitorIncident db now m body = .ok db' ∧ db'.monitors = db.monitors ∧
      db'.transitions = db.transitions ∧ ∀ j, hasOpen db' j = (hasOpen db j && j != m) := by
  unfold closeMonitorIncident
  cases h : openMonitorIncident db.incidents m with
  | none =>
    refine ⟨db, rfl, rfl, rfl, fun j => ?_⟩
    have hm : hasOpen db m = false := by simp [hasOpen, h]
    by_cases hj : j = m <;> simp [hj, hm]
  | some inc =>
    obtain ⟨hinc, hopen⟩ := openMonitorIncident_spec h
    let rows' := db.incidents.rows.map fun i => if i.id = inc.id then i.withStatus .resolved now else i
    have hid : rows'.map Incident.id = db.incidents.rows.map Incident.id := by
      simp only [rows', List.map_map]
      exact List.map_congr_left fun i _ => by simp only [Function.comp]; split <;> rfl
    have hnumber : (rows'.map fun i => (i.orgId, i.number)) = db.incidents.rows.map fun i => (i.orgId, i.number) := by
      simp only [rows', List.map_map]
      exact List.map_congr_left fun i _ => by simp only [Function.comp]; split <;> rfl
    -- A resolved row is open for no monitor, so the open ones are the other rows'.
    have hopens : rows'.filterMap Incident.openMonitor =
        (db.incidents.rows.filter (·.id ≠ inc.id)).filterMap Incident.openMonitor := by
      simp only [rows', List.filterMap_map, List.filterMap_filter]
      refine List.filterMap_congr fun i _ => ?_
      by_cases hi : i.id = inc.id <;> simp [hi, Incident.openMonitor, Incident.withStatus]
    have hsub : (rows'.filterMap Incident.openMonitor).Nodup := by
      rw [hopens]
      exact db.incidents.open_nodup.sublist ((List.filter_sublist).filterMap _)
    have hall : db.incidents.rows.all (·.id ≠ inc.id) = false := by
      simpa using ⟨inc, hinc, rfl⟩
    have hids : (rows'.map Incident.id).Nodup := hid ▸ db.incidents.ids_nodup
    have hnumbers : (rows'.map fun i => (i.orgId, i.number)).Nodup := hnumber ▸ db.incidents.numbers_nodup
    let t : Incidents := ⟨rows', hids, hnumbers, hsub⟩
    have hclose : updateIncidentStatus (addTimeline db ⟨inc.id, now, "Upstat", .resolved, body, true⟩) inc.id
        .resolved now = .ok { addTimeline db ⟨inc.id, now, "Upstat", .resolved, body, true⟩ with incidents := t } := by
      dsimp only [updateIncidentStatus, addTimeline]
      rw [hall, if_neg (by simp), checked_ok hids hnumbers hsub]
      rfl
    refine ⟨_, hclose, rfl, rfl, fun j => ?_⟩
    rw [Bool.eq_iff_iff, hasOpen_iff, Bool.and_eq_true, hasOpen_iff, hopens]
    simp only [List.mem_filterMap, List.mem_filter, bne_iff_ne, decide_eq_true_eq]
    constructor
    · rintro ⟨i, ⟨hi, hne⟩, hij⟩
      refine ⟨⟨i, hi, hij⟩, ?_⟩
      rintro rfl
      exact hne (congrArg Incident.id (open_unique db.incidents hi hinc hij hopen))
    · rintro ⟨⟨i, hi, hij⟩, hjm⟩
      refine ⟨i, ⟨hi, fun hid => hjm ?_⟩, hij⟩
      have : i = inc := List.inj_on_of_nodup_map db.incidents.ids_nodup hi hinc hid
      rw [this, hopen] at hij
      exact (Option.some.inj hij).symm

end Upstat.CommonDatabase
