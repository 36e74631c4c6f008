import Upstat.AddressGuards
import Upstat.EvaluationWindows
import Upstat.FilteredCounts
import Upstat.GuardedRuns
import Upstat.MonitorMachine
import Upstat.OrgOwners

/-! # The settings of monitors (`service/monitors.go`, `repository/monitors.go`)

Calls that overlap. A call reads and checks when it starts and writes one row when it commits, which
is what the row then is under its lock; what a constraint refuses fails. Schedules are left out. -/
namespace Upstat.MonitorSettings

open AddressGuards (blockedTarget)
open EvaluationWindows (trimSpace)
open FilteredCounts GuardedRuns
open MonitorMachine (Status)
open OrgOwners (Caller Error invalid notFound)

structure Settings where
  name : String
  target : String
  type : String
  muted : Bool
  intervalSeconds : ℤ
  timeoutSeconds : ℤ
  failureThreshold : ℤ
  regions : List String
  minFailingRegions : ℤ
  deriving DecidableEq

structure Monitor extends Settings where
  orgId : String
  active : Bool
  status : Status
  consecutiveFailures : ℤ
  lastTransitionSeq : ℤ
  deriving DecidableEq

/-- A create or a patch; `MonitorPatch` has the same fields. -/
structure MonitorInput where
  name : Option String := none
  target : Option String := none
  type : Option String := none
  active : Option Bool := none
  muted : Option Bool := none
  intervalSeconds : Option ℤ := none
  timeoutSeconds : Option ℤ := none
  failureThreshold : Option ℤ := none
  regions : Option (List String) := none
  minFailingRegions : Option ℤ := none

/-- What `url.Parse` finds in a target. -/
structure Url where
  scheme : String
  host : String
  hostname : String
  hasUser : Bool

structure Config where
  selfHost : Bool
  /-- The regions that have a probe, sorted. -/
  regions : List String
  monitorCapPerOrg : ℤ
  parse : String → Option Url
  toLower : Char → Char

def monitorTypes : List String := ["website", "server", "api", "blog"]

section
variable (cfg : Config)

/-- The error of a target, if it has one. -/
def validateTarget (raw : String) : Option Error :=
  match cfg.parse (trimSpace raw) with
  | none => some (invalid "invalid_target" "target must be an absolute http(s) URL")
  | some u =>
    if u.scheme ≠ "http" ∧ u.scheme ≠ "https" ∨ u.host = "" then some (invalid "invalid_target" "target must be an absolute http(s) URL")
    else if u.hasUser then some (invalid "invalid_target" "target URLs may not carry credentials")
    else if cfg.selfHost = false ∧ blockedTarget cfg.toLower u.hostname.toList then
      some (invalid "target_not_allowed" "private, loopback and metadata addresses can't be monitored")
    else none

def checkMonitor (m : Settings) : Except Error Settings :=
  let m : Settings := { m with name := trimSpace m.name }
  if m.name = "" ∨ 80 < m.name.utf8ByteSize then .error (invalid "bad_shape" "name must be 1-80 characters")
  else
    match validateTarget cfg m.target with
    | some e => .error e
    | none =>
      if m.type ∉ monitorTypes then .error (invalid "bad_shape" "type must be website, server, api or blog")
      else if m.intervalSeconds < 60 ∨ 86400 < m.intervalSeconds then
        .error (invalid "invalid_interval" "interval must be between 60 seconds and 24 hours")
      else if m.timeoutSeconds < 1 ∨ 60 < m.timeoutSeconds then .error (invalid "invalid_timeout" "timeout must be between 1 and 60 seconds")
      else if m.intervalSeconds ≤ m.timeoutSeconds then .error (invalid "timeout_gte_interval" "timeout must be below the check interval")
      else if m.failureThreshold < 1 ∨ 10 < m.failureThreshold then
        .error (invalid "invalid_threshold" "failure threshold must be between 1 and 10")
      else
        match m.regions.find? (· ∉ cfg.regions) with
        | some r => .error (invalid "invalid_region" ("unknown probe region " ++ r))
        | none =>
          if m.minFailingRegions < 1 then .error (invalid "bad_shape" "min_failing_regions must be at least 1")
          else .ok m

/-- 2 of 2, capped by how many regions the monitor uses. -/
def defaultQuorum (regions : List String) : ℤ :=
  max 1 (min 2 (if regions.length = 0 then cfg.regions.length else regions.length))

end

/-- What is checked of a create. -/
def MonitorInput.create (cfg : Config) (inp : MonitorInput) (name target : String) : Settings where
  name := name
  target := trimSpace target
  type := inp.type.getD "website"
  muted := false
  intervalSeconds := inp.intervalSeconds.getD 60
  timeoutSeconds := inp.timeoutSeconds.getD 10
  failureThreshold := inp.failureThreshold.getD 3
  regions := inp.regions.getD []
  minFailingRegions := inp.minFailingRegions.getD (defaultQuorum cfg (inp.regions.getD []))

/-- What is checked of a patch: the settings that were read, with those that are given. -/
def MonitorInput.next (inp : MonitorInput) (cur : Settings) : Settings where
  name := inp.name.getD cur.name
  target := trimSpace (inp.target.getD cur.target)
  type := inp.type.getD cur.type
  muted := cur.muted
  intervalSeconds := inp.intervalSeconds.getD cur.intervalSeconds
  timeoutSeconds := inp.timeoutSeconds.getD cur.timeoutSeconds
  failureThreshold := inp.failureThreshold.getD cur.failureThreshold
  regions := inp.regions.getD cur.regions
  minFailingRegions := inp.minFailingRegions.getD cur.minFailingRegions

def MonitorInput.patch (inp : MonitorInput) (next : Settings) : MonitorInput :=
  { inp with name := inp.name.map fun _ => next.name, target := inp.target.map fun _ => next.target }

/-- The settings after the statement of `UpdateMonitor`. -/
def Settings.update (m : Settings) (p : MonitorInput) : Settings where
  name := p.name.getD m.name
  target := p.target.getD m.target
  type := p.type.getD m.type
  muted := p.muted.getD m.muted
  intervalSeconds := p.intervalSeconds.getD m.intervalSeconds
  timeoutSeconds := p.timeoutSeconds.getD m.timeoutSeconds
  failureThreshold := p.failureThreshold.getD m.failureThreshold
  regions := p.regions.getD m.regions
  minFailingRegions := p.minFailingRegions.getD m.minFailingRegions

def Monitor.update (m : Monitor) (p : MonitorInput) : Monitor where
  toSettings := m.toSettings.update p
  orgId := m.orgId
  status := if p.active = some false then .paused else if p.active = some true ∧ m.active = false then .pending else m.status
  consecutiveFailures := if p.active.any (· ≠ m.active) then 0 else m.consecutiveFailures
  lastTransitionSeq := m.lastTransitionSeq
  active := p.active.getD m.active

/-- What the evaluator decides; it pauses nothing. -/
structure Transition where
  to_ : Status
  consecutiveFailures : ℤ
  seq : ℤ
  to_ne : to_ ≠ .paused

def Monitor.applyTransition (m : Monitor) (t : Transition) : Monitor :=
  if m.lastTransitionSeq < t.seq ∧ m.active then
    { m with status := t.to_, consecutiveFailures := t.consecutiveFailures, lastTransitionSeq := t.seq }
  else m

/-! ## Calls that overlap -/

inductive Write where
  | create (m : Settings)
  | update (id : ℕ) (p : MonitorInput)
  | delete (id : ℕ)

def Write.isCreate : Write → Bool
  | .create _ => true
  | .update _ _ | .delete _ => false

/-- A transaction in an org. -/
structure Tx where
  org : String
  write : Write

/-- A create of the org. -/
def Tx.creates (x : Tx) (org : String) : Bool := x.org = org ∧ x.write.isCreate

structure State where
  monitors : ℕ → Option Monitor
  /-- The ids that have been drawn. -/
  ids : Finset ℕ
  open_ : ℕ → Option Tx
  /-- The transactions that have begun. -/
  begun : Finset ℕ

def empty : State := ⟨fun _ => none, ∅, fun _ => none, ∅⟩

/-- `CountMonitors`, of an org. -/
def State.count (s : State) (org : String) : ℕ := (s.ids.filter fun k => (s.monitors k).any (·.orgId = org)).card

/-- The creates of an org that are under way. -/
def State.creating (s : State) (org : String) : ℕ := (s.begun.filter fun t => (s.open_ t).any (·.creates org)).card

def State.getMonitor (s : State) (org : String) (id : ℕ) : Option Monitor := (s.monitors id).filter (·.orgId = org)

inductive Call where
  | createMonitor (inp : MonitorInput)
  | updateMonitor (id : ℕ) (inp : MonitorInput)
  | deleteMonitor (id : ℕ)

inductive Event where
  | start (t : ℕ) (caller : Caller) (c : Call)
  /-- A transaction's statement and its commit, with the id that is drawn if it needs one. -/
  | commit (t : ℕ) (id : ℕ)
  | fail (t : ℕ)
  | transition (id : ℕ) (t : Transition)

section
variable (cfg : Config)

/-- What a call makes of its input and of what it reads: the row that it goes on to write. -/
def Call.begin (s : State) (caller : Caller) : Call → Except Error Tx
  | .createMonitor inp => do
    let some name := inp.name | throw (invalid "bad_shape" "name and target are required")
    let some target := inp.target | throw (invalid "bad_shape" "name and target are required")
    let m ← checkMonitor cfg (inp.create cfg name target)
    let org ← caller.can .member
    if cfg.monitorCapPerOrg ≤ s.count org then throw (invalid "monitor_limit" "this org has reached its monitor limit")
    return ⟨org, .create m⟩
  | .updateMonitor id inp => do
    let org ← caller.can .member
    let some cur := s.getMonitor org id | throw (notFound "monitor")
    let next ← checkMonitor cfg (inp.next cur.toSettings)
    return ⟨org, .update id (inp.patch next)⟩
  | .deleteMonitor id => do
    let org ← caller.can .member
    return ⟨org, .delete id⟩

/-- The row of a monitor that is created. -/
def created (org : String) (m : Settings) : Monitor :=
  { m with orgId := org, active := true, status := .pending, consecutiveFailures := 0, lastTransitionSeq := 0 }

def State.close (s : State) (t : ℕ) : State := { s with open_ := Function.update s.open_ t none }

def State.put (s : State) (id : ℕ) (r : Option Monitor) : State := { s with monitors := Function.update s.monitors id r }

def State.commit (s : State) (id : ℕ) (x : Tx) : State :=
  match x.write with
  | .create m => if id ∈ s.ids then s else { s.put id (some (created x.org m)) with ids := insert id s.ids }
  | .update k p =>
    match s.getMonitor x.org k with
    | none => s
    | some m => s.put k (some (m.update p))
  | .delete k => if (s.getMonitor x.org k).isSome then s.put k none else s

def step (s : State) : Event → State
  | .start t caller c =>
    if t ∈ s.begun then s
    else
      match c.begin cfg s caller with
      | .error _ => s
      | .ok x => { s with open_ := Function.update s.open_ t (some x), begun := insert t s.begun }
  | .commit t id => (s.open_ t).elim s fun x => (s.commit id x).close t
  | .fail t => s.close t
  | .transition id tr => (s.monitors id).elim s fun m => s.put id (some (m.applyTransition tr))

end

/-! ## What is checked -/

/-- Settings that each are what a check of a monitor asks of them. -/
structure Checked (cfg : Config) (m : Settings) : Prop where
  name : m.name ≠ "" ∧ m.name.utf8ByteSize ≤ 80
  target : validateTarget cfg m.target = none
  type : m.type ∈ monitorTypes
  interval : 60 ≤ m.intervalSeconds ∧ m.intervalSeconds ≤ 86400
  timeout : 1 ≤ m.timeoutSeconds ∧ m.timeoutSeconds ≤ 60
  threshold : 1 ≤ m.failureThreshold ∧ m.failureThreshold ≤ 10
  regions : ∀ r ∈ m.regions, r ∈ cfg.regions
  quorum : 1 ≤ m.minFailingRegions

section
variable {cfg : Config}

theorem checkMonitor_ok {m m' : Settings} (h : checkMonitor cfg m = .ok m') : m' = { m with name := trimSpace m.name } ∧ Checked cfg m' := by
  unfold checkMonitor at h
  dsimp only at h
  cases htarget : validateTarget cfg m.target with
  | some e =>
    rw [htarget] at h
    dsimp only at h
    split_ifs at h
  | none =>
    cases hregions : m.regions.find? (· ∉ cfg.regions) with
    | some r =>
      rw [htarget, hregions] at h
      dsimp only at h
      split_ifs at h
    | none =>
      rw [htarget, hregions] at h
      dsimp only at h
      split_ifs at h with hname htype hinterval htimeout hbelow hthreshold hquorum
      obtain rfl := Except.ok.inj h
      refine ⟨rfl, ?_, htarget, htype, ?_, ?_, ?_, ?_, ?_⟩
      · simpa using hname
      · simpa using hinterval
      · simpa using htimeout
      · simpa using hthreshold
      · simpa using hregions
      · simpa using hquorum

/-- A field that is given is as checked, and one that is not stays. -/
theorem checked_getD {α : Type*} {P : α → Prop} {given : Option α} {cur old : α} (hgiven : P (given.getD cur)) (hold : P old) :
    P (given.getD old) := by
  cases given with
  | none => exact hold
  | some a => exact hgiven

/-- What was checked with the settings that were read is fit for whatever they are by then. -/
theorem checked_patch {inp : MonitorInput} {cur next old : Settings} (h : checkMonitor cfg (inp.next cur) = .ok next) (hold : Checked cfg old) :
    Checked cfg (old.update (inp.patch next)) := by
  obtain ⟨rfl, hnext⟩ := checkMonitor_ok h
  constructor
  · cases hname : inp.name with
    | none => simpa [Settings.update, MonitorInput.patch, hname] using hold.name
    | some name => simpa [Settings.update, MonitorInput.patch, hname] using hnext.name
  · cases htarget : inp.target with
    | none => simpa [Settings.update, MonitorInput.patch, htarget] using hold.target
    | some target => simpa [Settings.update, MonitorInput.patch, htarget] using hnext.target
  · exact checked_getD hnext.type hold.type
  · exact checked_getD (P := fun i => 60 ≤ i ∧ i ≤ 86400) hnext.interval hold.interval
  · exact checked_getD (P := fun i => 1 ≤ i ∧ i ≤ 60) hnext.timeout hold.timeout
  · exact checked_getD (P := fun i => 1 ≤ i ∧ i ≤ 10) hnext.threshold hold.threshold
  · exact checked_getD (P := fun rs => ∀ r ∈ rs, r ∈ cfg.regions) hnext.regions hold.regions
  · exact checked_getD (P := fun i => 1 ≤ i) hnext.quorum hold.quorum

end

/-- A monitor is paused while it is not active, and counts no failures then. -/
def Monitor.Rests (m : Monitor) : Prop := (m.status = .paused ↔ m.active = false) ∧ (m.active = false → m.consecutiveFailures = 0)

theorem Monitor.rests_update {m : Monitor} (h : m.Rests) (p : MonitorInput) : (m.update p).Rests := by
  obtain ⟨hstatus, hfailures⟩ := h
  unfold Monitor.Rests Monitor.update
  rcases hactive : p.active with - | - | -
  · simpa using ⟨hstatus, hfailures⟩
  · cases hm : m.active with
    | false => simpa using hfailures hm
    | true => simp
  · cases hm : m.active with
    | false => simp
    | true => simpa [hm] using hstatus

theorem Monitor.rests_applyTransition {m : Monitor} (h : m.Rests) (t : Transition) : (m.applyTransition t).Rests := by
  unfold Monitor.applyTransition
  split_ifs with happlies
  · simp [Monitor.Rests, happlies.2, t.to_ne]
  · exact h

theorem toSettings_applyTransition (m : Monitor) (t : Transition) : (m.applyTransition t).toSettings = m.toSettings := by
  unfold Monitor.applyTransition
  split_ifs <;> rfl

theorem active_applyTransition (m : Monitor) (t : Transition) : (m.applyTransition t).active = m.active := by
  unfold Monitor.applyTransition
  split_ifs <;> rfl

theorem orgId_applyTransition (m : Monitor) (t : Transition) : (m.applyTransition t).orgId = m.orgId := by
  unfold Monitor.applyTransition
  split_ifs <;> rfl

/-! ## What holds between the steps -/

/-- A write that leaves checked settings. -/
def Write.Sound (cfg : Config) : Write → Prop
  | .create m => Checked cfg m
  | .update _ p => ∀ m, Checked cfg m → Checked cfg (m.update p)
  | .delete _ => True

structure Inv (cfg : Config) (s : State) : Prop where
  drawn : ∀ k m, s.monitors k = some m → k ∈ s.ids
  checked : ∀ k m, s.monitors k = some m → Checked cfg m.toSettings ∧ m.Rests
  begun : ∀ t x, s.open_ t = some x → t ∈ s.begun
  sound : ∀ t x, s.open_ t = some x → x.write.Sound cfg

section
variable {cfg : Config} {s : State} {t id k : ℕ} {x : Tx} {org : String} {m : Monitor}

theorem getMonitor_some : s.getMonitor org k = some m ↔ s.monitors k = some m ∧ m.orgId = org := by
  rw [State.getMonitor, Option.filter_eq_some_iff, decide_eq_true_iff]

theorem can_ok {caller : Caller} {role : OrgOwners.Role} (h : caller.can role = .ok org) : caller.orgId = some org := by
  unfold Caller.can at h
  cases horg : caller.orgId with
  | none =>
    rw [horg] at h
    cases h
  | some org' =>
    rw [horg] at h
    dsimp only at h
    split_ifs at h
    exact congrArg some (Except.ok.inj h)

/-- What a call that begins has seen to. -/
structure Begun (cfg : Config) (s : State) (caller : Caller) (x : Tx) : Prop where
  sound : x.write.Sound cfg
  own : caller.orgId = some x.org
  room : x.write.isCreate = true → (s.count x.org : ℤ) < cfg.monitorCapPerOrg

theorem begin_ok {caller : Caller} {c : Call} (h : c.begin cfg s caller = .ok x) : Begun cfg s caller x := by
  cases c with
  | createMonitor inp =>
    rcases hname : inp.name with - | name
    · simp [Call.begin, hname, throw, throwThe, MonadExceptOf.throw] at h
    rcases htarget : inp.target with - | target
    · simp [Call.begin, hname, htarget, throw, throwThe, MonadExceptOf.throw] at h
    rcases hcheck : checkMonitor cfg (inp.create cfg name target) with e | m
    · simp [Call.begin, hname, htarget, hcheck, bind, Except.bind] at h
    rcases hcan : caller.can .member with e | org
    · simp [Call.begin, hname, htarget, hcheck, hcan, bind, Except.bind] at h
    by_cases hcap : cfg.monitorCapPerOrg ≤ s.count org
    · simp [Call.begin, hname, htarget, hcheck, hcan, hcap, bind, Except.bind, throw, throwThe, MonadExceptOf.throw] at h
    · obtain rfl : (⟨org, .create m⟩ : Tx) = x := by
        simpa [Call.begin, hname, htarget, hcheck, hcan, hcap, bind, Except.bind, pure, Except.pure] using h
      exact ⟨(checkMonitor_ok hcheck).2, can_ok hcan, fun _ => not_le.mp hcap⟩
  | updateMonitor id inp =>
    rcases hcan : caller.can .member with e | org
    · simp [Call.begin, hcan, bind, Except.bind] at h
    rcases hcur : s.getMonitor org id with - | cur
    · simp [Call.begin, hcan, hcur, bind, Except.bind, throw, throwThe, MonadExceptOf.throw] at h
    rcases hcheck : checkMonitor cfg (inp.next cur.toSettings) with e | next
    · simp [Call.begin, hcan, hcur, hcheck, bind, Except.bind] at h
    obtain rfl : (⟨org, .update id (inp.patch next)⟩ : Tx) = x := by
      simpa [Call.begin, hcan, hcur, hcheck, bind, Except.bind, pure, Except.pure] using h
    exact ⟨fun old hold => checked_patch hcheck hold, can_ok hcan, nofun⟩
  | deleteMonitor id =>
    rcases hcan : caller.can .member with e | org
    · simp [Call.begin, hcan, bind, Except.bind] at h
    obtain rfl : (⟨org, .delete id⟩ : Tx) = x := by
      simpa [Call.begin, hcan, bind, Except.bind, pure, Except.pure] using h
    exact ⟨trivial, can_ok hcan, nofun⟩

/-! ## The steps -/

/-- The rows that a write leaves. -/
theorem monitors_commit (hs : Inv cfg s) (hx : x.write.Sound cfg) (h : (s.commit id x).monitors k = some m) :
    k ∈ (s.commit id x).ids ∧ Checked cfg m.toSettings ∧ m.Rests := by
  unfold State.commit at h ⊢
  cases hwrite : x.write with
  | create new =>
    rw [hwrite] at h hx
    dsimp only at h ⊢
    split_ifs at h ⊢ with hid
    · exact ⟨hs.drawn k m h, hs.checked k m h⟩
    · by_cases hk : k = id
      · subst hk
        obtain rfl : created x.org new = m := by simpa [State.put] using h
        exact ⟨Finset.mem_insert_self _ _, hx, by simp [Monitor.Rests, created]⟩
      · have hrow : s.monitors k = some m := by simpa [State.put, Function.update_of_ne hk] using h
        exact ⟨Finset.mem_insert_of_mem (hs.drawn k m hrow), hs.checked k m hrow⟩
  | update l p =>
    rw [hwrite] at h hx
    dsimp only at h ⊢
    cases hget : s.getMonitor x.org l with
    | none =>
      rw [hget] at h
      exact ⟨hs.drawn k m h, hs.checked k m h⟩
    | some old =>
      rw [hget] at h
      obtain ⟨hold, -⟩ := getMonitor_some.mp hget
      by_cases hk : k = l
      · subst hk
        obtain rfl : old.update p = m := by simpa [State.put] using h
        exact ⟨hs.drawn k old hold, hx _ (hs.checked k old hold).1, Monitor.rests_update (hs.checked k old hold).2 p⟩
      · have hrow : s.monitors k = some m := by simpa [State.put, Function.update_of_ne hk] using h
        exact ⟨hs.drawn k m hrow, hs.checked k m hrow⟩
  | delete l =>
    rw [hwrite] at h
    dsimp only at h ⊢
    split_ifs at h ⊢ with hsome
    · by_cases hk : k = l
      · simp [State.put, hk] at h
      · have hrow : s.monitors k = some m := by simpa [State.put, Function.update_of_ne hk] using h
        exact ⟨hs.drawn k m hrow, hs.checked k m hrow⟩
    · exact ⟨hs.drawn k m h, hs.checked k m h⟩

theorem open_commit (s : State) (id : ℕ) (x : Tx) : (s.commit id x).open_ = s.open_ ∧ (s.commit id x).begun = s.begun := by
  unfold State.commit
  cases x.write with
  | create new => split_ifs <;> exact ⟨rfl, rfl⟩
  | update l p =>
    dsimp only
    cases s.getMonitor x.org l <;> exact ⟨rfl, rfl⟩
  | delete l =>
    dsimp only
    split_ifs <;> exact ⟨rfl, rfl⟩

theorem Inv.close (hs : Inv cfg s) (t : ℕ) : Inv cfg (s.close t) := by
  have hopen : ∀ u x, (s.close t).open_ u = some x → s.open_ u = some x := by
    intro u x hx
    by_cases hu : u = t
    · simp [State.close, hu] at hx
    · simpa [State.close, Function.update_of_ne hu] using hx
  exact ⟨hs.drawn, hs.checked, fun u x hx => hs.begun u x (hopen u x hx), fun u x hx => hs.sound u x (hopen u x hx)⟩

theorem Inv.of_step (hs : Inv cfg s) (e : Event) : Inv cfg (step cfg s e) := by
  cases e with
  | start t caller c =>
    unfold step
    dsimp only
    split_ifs with ht
    · exact hs
    cases hbegin : c.begin cfg s caller with
    | error e => exact hs
    | ok x =>
      refine ⟨hs.drawn, hs.checked, fun u y hy => ?_, fun u y hy => ?_⟩
      · by_cases hu : u = t
        · exact hu ▸ Finset.mem_insert_self _ _
        · exact Finset.mem_insert_of_mem (hs.begun u y (by simpa [Function.update_of_ne hu] using hy))
      · by_cases hu : u = t
        · obtain rfl : x = y := by simpa [hu] using hy
          exact (begin_ok hbegin).sound
        · exact hs.sound u y (by simpa [Function.update_of_ne hu] using hy)
  | commit t id =>
    cases hopen : s.open_ t with
    | none => simpa [step, hopen] using hs
    | some x =>
      have hcommit : Inv cfg (s.commit id x) := by
        obtain ⟨hsame, hbegun⟩ := open_commit s id x
        have hsound := hs.sound t x hopen
        refine ⟨fun k m hm => (monitors_commit hs hsound hm).1, fun k m hm => (monitors_commit hs hsound hm).2, ?_, ?_⟩
        · rw [hsame, hbegun]
          exact hs.begun
        · rw [hsame]
          exact hs.sound
      simpa [step, hopen] using hcommit.close t
  | fail t => exact hs.close t
  | transition id tr =>
    cases hrow : s.monitors id with
    | none => simpa [step, hrow] using hs
    | some m =>
      have hput : ∀ k m', (s.put id (some (m.applyTransition tr))).monitors k = some m' →
          k ∈ s.ids ∧ Checked cfg m'.toSettings ∧ m'.Rests := by
        intro k m' hm'
        by_cases hk : k = id
        · subst hk
          obtain rfl : m.applyTransition tr = m' := by simpa [State.put] using hm'
          obtain ⟨hchecked, hrests⟩ := hs.checked k m hrow
          exact ⟨hs.drawn k m hrow, (toSettings_applyTransition m tr).symm ▸ hchecked, Monitor.rests_applyTransition hrests tr⟩
        · have hold : s.monitors k = some m' := by simpa [State.put, Function.update_of_ne hk] using hm'
          exact ⟨hs.drawn k m' hold, hs.checked k m' hold⟩
      have hinv : Inv cfg (s.put id (some (m.applyTransition tr))) :=
        ⟨fun k m' hm' => (hput k m' hm').1, fun k m' hm' => (hput k m' hm').2, hs.begun, hs.sound⟩
      simpa [step, hrow] using hinv

theorem inv_empty : Inv cfg empty := by
  constructor <;> simp [empty]

/-! ## How many monitors an org has -/

theorem count_put {m' : Monitor} (hk : k ∈ s.ids) (hrow : s.monitors k = some m) (horg : m'.orgId = m.orgId) :
    (s.put k (some m')).count org = s.count org := by
  have hchange := card_filter_change (p := fun l => (s.monitors l).any (·.orgId = org))
    (q := fun l => ((s.put k (some m')).monitors l).any (·.orgId = org)) hk fun l _ hl => by simp [State.put, Function.update_of_ne hl]
  simp only [State.put, Function.update_self, Option.any_some, hrow, horg] at hchange
  exact Nat.add_right_cancel hchange

theorem count_delete (hk : k ∈ s.ids) : (s.put k none).count org ≤ s.count org := by
  have hchange := card_filter_change (p := fun l => (s.monitors l).any (·.orgId = org))
    (q := fun l => ((s.put k none).monitors l).any (·.orgId = org)) hk fun l _ hl => by simp [State.put, Function.update_of_ne hl]
  simp only [State.put, Function.update_self, Option.any_none, Bool.toNat_false, Nat.add_zero] at hchange
  exact Nat.le.intro hchange

/-- A write adds at most the monitor that it creates. -/
theorem count_commit (hs : Inv cfg s) : (s.commit id x).count org ≤ s.count org + (x.creates org).toNat := by
  unfold State.commit
  cases hwrite : x.write with
  | create new =>
    dsimp only
    split_ifs with hid
    · exact Nat.le_add_right _ _
    · have hinsert := card_filter_insert (p := fun l => (s.monitors l).any (·.orgId = org))
        (q := fun l => ((s.put id (some (created x.org new))).monitors l).any (·.orgId = org)) hid fun l hl => by
          have hne : l ≠ id := by
            rintro rfl
            exact hid hl
          simp [State.put, Function.update_of_ne hne]
      refine hinsert.le.trans_eq ?_
      simp [State.count, State.put, created, Tx.creates, hwrite, Write.isCreate]
  | update l p =>
    dsimp only
    cases hget : s.getMonitor x.org l with
    | none => exact Nat.le_add_right _ _
    | some m =>
      obtain ⟨hrow, -⟩ := getMonitor_some.mp hget
      have hput : (s.put l (some (m.update p))).count org = s.count org := count_put (hs.drawn l m hrow) hrow rfl
      exact hput.trans_le (Nat.le_add_right _ _)
  | delete l =>
    dsimp only
    split_ifs with hsome
    · obtain ⟨m, hget⟩ := Option.isSome_iff_exists.mp hsome
      exact (count_delete (hs.drawn l m (getMonitor_some.mp hget).1)).trans (Nat.le_add_right _ _)
    · exact Nat.le_add_right _ _

/-- A transaction that ends is no longer among the creates. -/
theorem creating_close (hopen : s.open_ t = some x) (ht : t ∈ s.begun) : (s.close t).creating org + (x.creates org).toNat = s.creating org := by
  have hchange := card_filter_change (p := fun u => (s.open_ u).any (·.creates org))
    (q := fun u => ((s.close t).open_ u).any (·.creates org)) ht
    fun u _ hu => by simp [State.close, Function.update_of_ne hu]
  simpa [State.creating, State.close, hopen] using hchange

theorem creating_fail (hs : Inv cfg s) (t : ℕ) : (s.close t).creating org ≤ s.creating org := by
  cases hopen : s.open_ t with
  | none =>
    have hsame : s.close t = s := by
      rw [State.close, ← hopen, Function.update_eq_self]
    rw [hsame]
  | some x => exact Nat.le.intro (creating_close hopen (hs.begun t x hopen))

/-- A transaction that begins is one more, if it creates. -/
theorem creating_start (ht : t ∉ s.begun) :
    ({ s with open_ := Function.update s.open_ t (some x), begun := insert t s.begun } : State).creating org =
      s.creating org + (x.creates org).toNat := by
  have hinsert := card_filter_insert (p := fun u => (s.open_ u).any (·.creates org))
    (q := fun u => (Function.update s.open_ t (some x) u).any (·.creates org)) ht fun u hu => by
      have hne : u ≠ t := by
        rintro rfl
        exact ht hu
      rw [Function.update_of_ne hne]
  simpa [State.creating] using hinsert

theorem creating_congr {s' : State} (hopen : s'.open_ = s.open_) (hbegun : s'.begun = s.begun) : s'.creating org = s.creating org := by
  unfold State.creating
  rw [hopen, hbegun]

/-- The monitors and the creates under way together stay within the cap and the creates that there
are at a time, but for the one that has found room. -/
theorem room_step (hs : Inv cfg s) {c : ℕ} (e : Event) (hc : (step cfg s e).creating org ≤ c)
    (h : (s.count org + s.creating org : ℤ) ≤ max 0 (cfg.monitorCapPerOrg + c - 1)) :
    ((step cfg s e).count org + (step cfg s e).creating org : ℤ) ≤ max 0 (cfg.monitorCapPerOrg + c - 1) := by
  cases e with
  | start t caller call =>
    unfold step at hc ⊢
    dsimp only at hc ⊢
    split_ifs at hc ⊢ with ht
    · exact h
    cases hbegin : call.begin cfg s caller with
    | error e => exact h
    | ok x =>
      rw [hbegin] at hc
      dsimp only at hc ⊢
      have hcount : ({ s with open_ := Function.update s.open_ t (some x), begun := insert t s.begun } : State).count org = s.count org := rfl
      rw [creating_start ht] at hc ⊢
      rw [hcount]
      cases hcreates : x.creates org with
      | false => simpa using h
      | true =>
        -- It has found room for one more.
        obtain ⟨horg, hcreate⟩ : x.org = org ∧ x.write.isCreate = true := by simpa [Tx.creates] using hcreates
        have hroom := (begin_ok hbegin).room hcreate
        rw [horg] at hroom
        rw [hcreates] at hc
        rw [Bool.toNat_true] at hc ⊢
        push_cast
        omega
  | commit t id =>
    cases hopen : s.open_ t with
    | none => simpa [step, hopen] using h
    | some x =>
      obtain ⟨hsame, hbegun⟩ := open_commit s id x
      have hclose : ((s.commit id x).close t).creating org + (x.creates org).toNat ≤ (s.commit id x).creating org :=
        (creating_close (by rw [hsame, hopen]) (by rw [hbegun]; exact hs.begun t x hopen)).le
      rw [creating_congr hsame hbegun] at hclose
      have hcount : ((s.commit id x).close t).count org ≤ s.count org + (x.creates org).toNat := count_commit hs
      have hstep : step cfg s (.commit t id) = (s.commit id x).close t := by simp [step, hopen]
      rw [hstep]
      omega
  | fail t =>
    have hcreating : (s.close t).creating org ≤ s.creating org := creating_fail hs t
    have hcount : (s.close t).count org = s.count org := rfl
    change ((s.close t).count org + (s.close t).creating org : ℤ) ≤ _
    rw [hcount]
    omega
  | transition id tr =>
    cases hrow : s.monitors id with
    | none => simpa [step, hrow] using h
    | some m =>
      have hstep : step cfg s (.transition id tr) = s.put id (some (m.applyTransition tr)) := by simp [step, hrow]
      have hcount : (s.put id (some (m.applyTransition tr))).count org = s.count org :=
        count_put (hs.drawn id m hrow) hrow (orgId_applyTransition m tr)
      have hcreating : (s.put id (some (m.applyTransition tr))).creating org = s.creating org := rfl
      rw [hstep, hcount, hcreating]
      exact h

theorem room_run (hs : Inv cfg s) {c : ℕ} {es : List Event} (hc : Throughout (step cfg) (fun s => s.creating org ≤ c) s es)
    (h : (s.count org + s.creating org : ℤ) ≤ max 0 (cfg.monitorCapPerOrg + c - 1)) :
    ((run (step cfg) s es).count org : ℤ) ≤ max 0 (cfg.monitorCapPerOrg + c - 1) := by
  induction es generalizing s with
  | nil =>
    rw [run_nil]
    omega
  | cons e es ih => exact ih (hs.of_step e) hc.2 (room_step hs e hc.2.first h)

/-! ## The orgs apart -/

/-- Not a call of the org. -/
def Event.Foreign (org : String) : Event → Prop
  | .start _ caller _ => caller.orgId ≠ some org
  | .commit _ _ | .fail _ | .transition _ _ => True

/-- A monitor of the org is as it was but for what the evaluator decides. -/
structure Kept (org : String) (k : ℕ) (m : Monitor) (s : State) : Prop where
  idle : ∀ t x, s.open_ t = some x → x.org ≠ org
  row : ∃ m', s.monitors k = some m' ∧ m'.orgId = org ∧ m'.active = m.active ∧ m'.toSettings = m.toSettings

theorem kept_commit (hs : Inv cfg s) (h : Kept org k m s) (hx : x.org ≠ org) : (s.commit id x).monitors k = s.monitors k := by
  obtain ⟨m', hrow, horg, -, -⟩ := h.row
  have hother : ∀ l old, s.getMonitor x.org l = some old → k ≠ l := by
    rintro l old hget rfl
    obtain ⟨hold, horg'⟩ := getMonitor_some.mp hget
    obtain rfl : m' = old := Option.some.inj (hrow.symm.trans hold)
    exact hx (horg'.symm.trans horg)
  unfold State.commit
  cases x.write with
  | create new =>
    dsimp only
    split_ifs with hid
    · rfl
    · have hne : k ≠ id := by
        rintro rfl
        exact hid (hs.drawn k m' hrow)
      exact Function.update_of_ne hne _ _
  | update l p =>
    dsimp only
    cases hget : s.getMonitor x.org l with
    | none => rfl
    | some old => exact Function.update_of_ne (hother l old hget) _ _
  | delete l =>
    dsimp only
    split_ifs with hsome
    · obtain ⟨old, hget⟩ := Option.isSome_iff_exists.mp hsome
      exact Function.update_of_ne (hother l old hget) _ _
    · rfl

theorem idle_close (h : ∀ t x, s.open_ t = some x → x.org ≠ org) : ∀ u x, (s.close t).open_ u = some x → x.org ≠ org := by
  intro u x hu
  by_cases hut : u = t
  · simp [State.close, hut] at hu
  · exact h u x (by simpa [State.close, Function.update_of_ne hut] using hu)

theorem Kept.of_step (hs : Inv cfg s) (h : Kept org k m s) {e : Event} (he : e.Foreign org) : Kept org k m (step cfg s e) := by
  cases e with
  | start t caller c =>
    unfold step
    dsimp only
    split_ifs with ht
    · exact h
    cases hbegin : c.begin cfg s caller with
    | error e => exact h
    | ok x =>
      refine ⟨fun u y hy => ?_, h.row⟩
      by_cases hu : u = t
      · obtain rfl : x = y := by simpa [hu] using hy
        rintro rfl
        exact he (begin_ok hbegin).own
      · exact h.idle u y (by simpa [Function.update_of_ne hu] using hy)
  | commit t id =>
    cases hopen : s.open_ t with
    | none => simpa [step, hopen] using h
    | some x =>
      have hstep : step cfg s (.commit t id) = (s.commit id x).close t := by simp [step, hopen]
      rw [hstep]
      refine ⟨idle_close ?_, ?_⟩
      · rw [(open_commit s id x).1]
        exact h.idle
      · obtain ⟨m', hrow, hsame⟩ := h.row
        exact ⟨m', (kept_commit hs h (h.idle t x hopen)).trans hrow, hsame⟩
  | fail t => exact ⟨idle_close h.idle, h.row⟩
  | transition id tr =>
    cases hrow : s.monitors id with
    | none => simpa [step, hrow] using h
    | some old =>
      have hstep : step cfg s (.transition id tr) = s.put id (some (old.applyTransition tr)) := by simp [step, hrow]
      rw [hstep]
      refine ⟨h.idle, ?_⟩
      obtain ⟨m', hrow', horg, hactive, hsettings⟩ := h.row
      by_cases hk : k = id
      · subst hk
        obtain rfl : m' = old := Option.some.inj (hrow'.symm.trans hrow)
        exact ⟨_, Function.update_self _ _ _, (orgId_applyTransition _ _).trans horg, (active_applyTransition _ _).trans hactive,
          (toSettings_applyTransition _ _).trans hsettings⟩
      · exact ⟨m', (Function.update_of_ne hk _ _).trans hrow', horg, hactive, hsettings⟩

theorem Kept.of_run (hs : Inv cfg s) (h : Kept org k m s) {es : List Event} (hes : ∀ e ∈ es, e.Foreign org) :
    Kept org k m (run (step cfg) s es) := by
  induction es generalizing s with
  | nil => exact h
  | cons e es ih =>
    obtain ⟨he, hes⟩ := List.forall_mem_cons.mp hes
    exact ih (hs.of_step e) (h.of_step hs he) hes

/-! ## What calls leave behind -/

/-- What the probe asks of a check's timeout. -/
def probeTakes (timeout : ℤ) : Bool := 1 ≤ timeout ∧ timeout ≤ 60

end

/-- No target is refused. -/
def anyTarget : Config := ⟨false, ["us"], 1, fun _ => some ⟨"https", "h", "h", false⟩, fun c => c⟩

def memberOf (org : String) : Caller := ⟨some org, .member⟩

/-- Two creates that both find room for one. -/
def twoCreates : List Event :=
  [.start 0 (memberOf "o") (.createMonitor { name := some "a", target := some "t" }),
    .start 1 (memberOf "o") (.createMonitor { name := some "b", target := some "t" }), .commit 0 0, .commit 1 1]

end Upstat.MonitorSettings
