import Mathlib.Data.List.Basic
import Mathlib.Data.Option.Basic
import Upstat.CommonDatabase
import Upstat.EvaluationWindows
import Upstat.GuardedRuns
import Upstat.OrgOwners
import Upstat.RowLocks

/-! # Declaring and resolving incidents (`service/incidents.go`, `repository/incidents.go`)

Transactions that take one statement at a time under READ COMMITTED, over incidents, their timelines
and the advisory locks. A statement that a constraint refuses fails its transaction; the numbering
does not rest on the constraints. -/
namespace Upstat.IncidentNumbers

open CommonDatabase (IncidentStatus Source)
open EvaluationWindows (trimSpace)
open GuardedRuns RowLocks
open OrgOwners (Caller Error invalid notFound)

structure Incident where
  orgId : String
  number : ℕ
  title : String
  sev : ℤ
  status : IncidentStatus
  commander : String
  responders : List String
  startedAt : ℤ
  resolvedAt : Option ℤ
  postmortemKey : Option String
  services : List String
  source : Source
  monitorId : Option String
  cause : String
  deriving DecidableEq

structure TimelineEntry where
  incidentId : ℕ
  author : String
  phase : IncidentStatus
  body : String
  at_ : ℤ
  isPublic : Bool
  deriving DecidableEq

structure NewIncident where
  orgId : String
  title : String
  commander : String
  source : Source
  cause : String := ""
  firstEntry : String
  firstEntryPublic : Bool := false
  sev : ℤ
  monitorId : Option String := none
  startedAt : ℤ
  services : List String := []

structure IncidentPatch where
  title : Option String := none
  status : Option IncidentStatus := none
  postmortemKey : Option String := none
  sev : Option ℤ := none
  /-- The commander and the responders. -/
  roles : Option (String × List String) := none
  services : Option (List String) := none

/-- The row after the statement of `UpdateIncident`. -/
def IncidentPatch.apply (p : IncidentPatch) (now : ℤ) (i : Incident) : Incident :=
  { i with
    title := p.title.getD i.title
    sev := p.sev.getD i.sev
    commander := (p.roles.map Prod.fst).getD i.commander
    responders := (p.roles.map Prod.snd).getD i.responders
    services := p.services.getD i.services
    postmortemKey := p.postmortemKey <|> i.postmortemKey
    resolvedAt := match p.status with
      | none => i.resolvedAt
      | some .resolved => some (i.resolvedAt.getD now)
      | some .investigating | some .identified | some .monitoring => none
    status := p.status.getD i.status }

/-- A statement of a transaction; `CreateIncident` takes the lock of the numbers first. -/
inductive Statement where
  | create (n : NewIncident)
  | addTimeline (e : TimelineEntry)
  | update (id : ℕ) (p : IncidentPatch) (now : ℤ)

/-- A transaction in an org, or one that row-level security does not hold. -/
structure Tx where
  org : Option String
  todo : List Statement

structure State where
  incidents : Table ℕ ℕ Incident
  /-- The ids that have been drawn. -/
  ids : List ℕ
  advisory : ℤ → Option ℕ
  timeline : List TimelineEntry
  /-- The entries of open transactions. -/
  drafts : ℕ → List TimelineEntry
  open_ : ℕ → Option Tx

def visible (db : Table ℕ ℕ Incident) (t k : ℕ) : Option Incident := (db.draft t k).getD (db.row k)

def numberIn (rows : ℕ → Option Incident) (org : String) (k : ℕ) : Option ℕ := ((rows k).filter (·.orgId = org)).map Incident.number

def nextNumber (ids : List ℕ) (rows : ℕ → Option Incident) (org : String) : ℕ := (ids.filterMap (numberIn rows org)).foldr max 0 + 1

def NewIncident.row (n : NewIncident) (number : ℕ) : Incident where
  orgId := n.orgId
  number := number
  title := n.title
  sev := n.sev
  status := .investigating
  commander := n.commander
  responders := []
  startedAt := n.startedAt
  resolvedAt := none
  postmortemKey := none
  services := n.services
  source := n.source
  monitorId := n.monitorId
  cause := n.cause

def NewIncident.entry (n : NewIncident) (id : ℕ) : TimelineEntry :=
  ⟨id, n.commander, .investigating, n.firstEntry, n.startedAt, n.firstEntryPublic⟩

/-! ## The calls -/

structure IncidentInput where
  title : Option String := none
  sev : Option ℤ := none
  commander : Option String := none
  status : Option String := none
  roles : Option (String × List String) := none
  services : Option (List String) := none

structure TimelineInput where
  phase : Option String
  body : String
  author : String
  isPublic : Bool

structure PostmortemInput where
  author : String
  impact : Option String
  rootCause : Option String
  actionItems : Option (List String)

inductive Call where
  | declareIncident (c : Caller) (inp : IncidentInput)
  | updateIncident (c : Caller) (id : ℕ) (inp : IncidentInput)
  | addTimeline (c : Caller) (id : ℕ) (inp : TimelineInput)
  /-- With the place of the store. -/
  | savePostmortem (c : Caller) (id : ℕ) (inp : PostmortemInput) (store : String)
  /-- The part of `OnTransition` that opens an incident. -/
  | wentDown (org monitorId name cause : String) (at_ : ℤ) (failures : ℕ)
  /-- The part of `OnTransition` that closes one. -/
  | recovered (monitorId name : String)
  /-- The part of `UpdateMonitor` that closes one. -/
  | paused (c : Caller) (monitorId : String)

def phase : String → Option IncidentStatus
  | "investigating" => some .investigating
  | "identified" => some .identified
  | "monitoring" => some .monitoring
  | "resolved" => some .resolved
  | _ => none

def badSev (sev : ℤ) : Bool := sev < 1 ∨ 4 < sev

def badStatus : Error := invalid "bad_shape" "status must be investigating, identified, monitoring or resolved"

def badPhase : Error := invalid "bad_shape" "phase must be investigating, identified, monitoring or resolved"

/-- The incident of a committed row that the org sees. -/
def getIncident (db : Table ℕ ℕ Incident) (org : Option String) (id : ℕ) : Except Error Incident :=
  match (db.row id).filter fun i => org.all (i.orgId = ·) with
  | none => .error (notFound "incident")
  | some i => .ok i

/-- The open auto-incident of a monitor. -/
def openMonitorIncident (s : State) (org : Option String) (monitorId : String) : Option ℕ :=
  s.ids.find? fun k => (s.incidents.row k).any fun i =>
    org.all (i.orgId = ·) ∧ i.monitorId = some monitorId ∧ i.source = .monitor ∧ i.status ≠ .resolved

def closeMonitorIncident (s : State) (org : Option String) (monitorId body : String) (now : ℤ) : List Statement :=
  match openMonitorIncident s org monitorId with
  | none => []
  | some id => [.addTimeline ⟨id, "Upstat", .resolved, body, now, true⟩, .update id { status := some .resolved } now]

/-- What a call makes of its input and of what it reads: the statements that it goes on to. -/
def Call.statements (s : State) (now : ℤ) : Call → Except Error Tx
  | .declareIncident c inp => do
    let title := trimSpace (inp.title.getD "")
    let commander := trimSpace (inp.commander.getD "")
    let some sev := inp.sev | throw (invalid "bad_shape" "title, sev and commander are required")
    if title = "" ∨ commander = "" then throw (invalid "bad_shape" "title, sev and commander are required")
    if badSev sev then throw (invalid "bad_shape" "sev must be 1..4")
    let org ← c.can .member
    return ⟨org, [.create
      { orgId := org, title, sev, commander, source := .manual, startedAt := now, services := inp.services.getD [],
        firstEntry := s!"Declared SEV-{sev}: {title}" }]⟩
  | .updateIncident c id inp => do
    if (inp.status.any fun s => (phase s).isNone) then throw badStatus
    if inp.sev.any badSev then throw (invalid "bad_shape" "sev must be 1..4")
    let org ← c.can .member
    return ⟨org, [.update id
      { title := inp.title, sev := inp.sev, status := inp.status.bind phase, roles := inp.roles, services := inp.services } now]⟩
  | .addTimeline c id inp => do
    if trimSpace inp.body = "" ∨ trimSpace inp.author = "" then throw (invalid "bad_shape" "body and author are required")
    if (inp.phase.any fun s => (phase s).isNone) then throw badPhase
    let org ← c.can .member
    let inc ← getIncident s.incidents org id
    let to_ := (inp.phase.bind phase).getD inc.status
    let entry : Statement := .addTimeline ⟨id, inp.author, to_, inp.body, now, inp.isPublic⟩
    return ⟨org, if to_ ≠ inc.status then [entry, .update id { status := some to_ } now] else [entry]⟩
  | .savePostmortem c id inp store => do
    if trimSpace inp.author = "" ∨ inp.impact = none ∨ inp.rootCause = none ∨ inp.actionItems = none then
      throw (invalid "bad_shape" "author, impact, root_cause and action_items[] are required")
    let org ← c.can .member
    let inc ← getIncident s.incidents org id
    if inc.status ≠ .resolved then throw (invalid "incident_not_resolved" "postmortems attach to resolved incidents")
    return ⟨org, [.update id { postmortemKey := some s!"{store}/postmortems/{org}/{id}.json" } now]⟩
  | .wentDown org monitorId name cause at_ failures =>
    match openMonitorIncident s none monitorId with
    | some _ => return ⟨none, []⟩
    | none =>
      let cause := if cause = "" then "failing" else cause
      return ⟨none, [.create
        { orgId := org, title := name ++ " is down", sev := 2, commander := "Upstat", source := .monitor, monitorId := some monitorId,
          cause, startedAt := at_, firstEntry := s!"{name} went down ({cause}) after {failures} consecutive failed checks",
          firstEntryPublic := true }]⟩
  | .recovered monitorId name => return ⟨none, closeMonitorIncident s none monitorId (name ++ " recovered") now⟩
  | .paused c monitorId => do
    let org ← c.can .member
    return ⟨org, closeMonitorIncident s org monitorId "Resolved: monitor paused" now⟩

/-! ## Steps -/

inductive Event where
  | start (t : ℕ) (c : Call) (now : ℤ)
  /-- The next step of a transaction, with the id that is drawn if it needs one. -/
  | go (t : ℕ) (id : ℕ)
  | fail (t : ℕ)

def State.goOn (s : State) (t : ℕ) (x : Tx) : State := { s with open_ := Function.update s.open_ t (some x) }

/-- The locks and drafts of a transaction that has ended. -/
def State.close (s : State) (t : ℕ) : State :=
  { s with
    advisory := fun key => if s.advisory key = some t then none else s.advisory key
    drafts := Function.update s.drafts t []
    open_ := Function.update s.open_ t none }

def State.rollback (s : State) (t : ℕ) : State := { s.close t with incidents := s.incidents.rollback t }

def State.commit (s : State) (t : ℕ) : State :=
  { s.close t with incidents := s.incidents.commit t, timeline := s.timeline ++ s.drafts t }

/-- Inserts the incident that the transaction has locked the numbers for. -/
def State.insert (s : State) (t id : ℕ) (n : NewIncident) : State :=
  { s with
    incidents := s.incidents.write t id (some (n.row (nextNumber s.ids (visible s.incidents t) n.orgId)))
    ids := id :: s.ids }

def lockKey (hashtext : String → ℤ) (org : String) : ℤ := hashtext ("incident:" ++ org)

section
variable (hashtext : String → ℤ)

/-- The next step of a transaction. One that needs a lock which another has waits. -/
def go (s : State) (t id : ℕ) (x : Tx) : State :=
  match x.todo with
  | [] => s.commit t
  | .create n :: todo =>
    let key := lockKey hashtext n.orgId
    if s.advisory key = none then { s with advisory := Function.update s.advisory key (some t) }
    else if s.advisory key ≠ some t ∨ id ∈ s.ids then s
    else (s.insert t id n).goOn t { x with todo := .addTimeline (n.entry id) :: todo }
  | .addTimeline e :: todo => { s with drafts := Function.update s.drafts t (s.drafts t ++ [e]) }.goOn t { x with todo }
  | .update k p now :: todo =>
    match (visible s.incidents t k).filter fun i => x.org.all (i.orgId = ·) with
    | none => s.rollback t
    | some i =>
      if ¬s.incidents.Free t k then s
      else { s with incidents := s.incidents.write t k (some (p.apply now i)) }.goOn t { x with todo }

def step (s : State) : Event → State
  | .start t c now =>
    if s.open_ t = none then
      match c.statements s now with
      | .error _ => s
      | .ok x => s.goOn t x
    else s
  | .go t id => (s.open_ t).elim s fun x => go hashtext s t id x
  | .fail t => s.rollback t

end

def empty : State := ⟨⟨fun _ => none, fun _ => none, fun _ _ => none⟩, [], fun _ => none, [], fun _ => [], fun _ => none⟩

/-! ## Numbers -/

/-- The numbers are those from 1 on, each of one row. -/
structure Numbered (f : ℕ → Option ℕ) (n : ℕ) : Prop where
  range : ∀ k m, f k = some m → 1 ≤ m ∧ m ≤ n
  each : ∀ m, 1 ≤ m → m ≤ n → ∃! k, f k = some m

theorem foldr_max_le {ns : List ℕ} {n : ℕ} (h : ∀ m ∈ ns, m ≤ n) : ns.foldr max 0 ≤ n := by
  induction ns with
  | nil => exact n.zero_le
  | cons m ns ih =>
    obtain ⟨hm, hns⟩ := List.forall_mem_cons.mp h
    exact max_le hm (ih hns)

theorem le_foldr_max {ns : List ℕ} {m : ℕ} (h : m ∈ ns) : m ≤ ns.foldr max 0 := by
  induction ns with
  | nil => cases h
  | cons a ns ih =>
    rcases List.mem_cons.mp h with rfl | hm
    · exact le_max_left _ _
    · exact (ih hm).trans (le_max_right _ _)

theorem Numbered.max {f : ℕ → Option ℕ} {n : ℕ} (h : Numbered f n) {ids : List ℕ} (hids : ∀ k, f k ≠ none → k ∈ ids) :
    (ids.filterMap f).foldr max 0 = n := by
  refine le_antisymm (foldr_max_le fun m hm => ?_) ?_
  · obtain ⟨k, -, hk⟩ := List.mem_filterMap.mp hm
    exact (h.range k m hk).2
  · rcases Nat.eq_zero_or_pos n with rfl | hn
    · exact Nat.zero_le _
    · obtain ⟨k, hk, -⟩ := h.each n hn le_rfl
      exact le_foldr_max (List.mem_filterMap.mpr ⟨k, hids k (by simp [hk]), hk⟩)

/-- One more row takes the next number. -/
theorem Numbered.insert {f g : ℕ → Option ℕ} {n : ℕ} (h : Numbered f n) (id : ℕ) (hfree : f id = none) (hid : g id = some (n + 1))
    (hrest : ∀ k, k ≠ id → g k = f k) : Numbered g (n + 1) where
  range k m hm := by
    by_cases hk : k = id
    · obtain rfl : n + 1 = m := by simpa [hk, hid] using hm
      exact ⟨by omega, le_rfl⟩
    · obtain ⟨hlow, hhigh⟩ := h.range k m (by rwa [hrest k hk] at hm)
      exact ⟨hlow, by omega⟩
  each m hlow hhigh := by
    rcases Nat.lt_or_ge n m with hm | hm
    · obtain rfl : m = n + 1 := by omega
      refine ⟨id, hid, fun k hk => ?_⟩
      by_contra hne
      have hrange := h.range k (n + 1) (by simpa [hrest k hne] using hk)
      omega
    · obtain ⟨k, hk, huniq⟩ := h.each m hlow hm
      have hne : k ≠ id := by
        rintro rfl
        rw [hfree] at hk
        cases hk
      refine ⟨k, by simpa [hrest k hne] using hk, fun l hl => huniq l ?_⟩
      have hl' : l ≠ id := by
        rintro rfl
        have : m = n + 1 := by simpa [hid] using hl.symm
        omega
      simpa [hrest l hl'] using hl

/-! ## What holds between the steps -/

/-- An incident has its time of resolution while it is resolved. -/
def Incident.Settled (i : Incident) : Prop := i.status = .resolved ↔ i.resolvedAt.isSome = true

theorem IncidentPatch.settled_apply {i : Incident} (h : i.Settled) (p : IncidentPatch) (now : ℤ) : (p.apply now i).Settled := by
  simp only [Incident.Settled, IncidentPatch.apply] at h ⊢
  rcases p.status with - | - | - | - | - <;> simp_all

/-- The entry that an incident begins with. -/
def HasFirst (entries : List TimelineEntry) (id : ℕ) : Prop := ∃ e ∈ entries, e.incidentId = id ∧ e.phase = .investigating

theorem HasFirst.mono {entries entries' : List TimelineEntry} {id : ℕ} (h : HasFirst entries id) (hsub : entries ⊆ entries') :
    HasFirst entries' id := by
  obtain ⟨e, he, hfirst⟩ := h
  exact ⟨e, hsub he, hfirst⟩

/-- What a draft may make of a row: another row of the same org and number, or a new one by who has
the lock of the org's numbers. -/
structure Drafted (hashtext : String → ℤ) (s : State) (t k : ℕ) (i : Incident) : Prop where
  drawn : k ∈ s.ids
  settled : i.Settled
  kept : ∀ i₀, s.incidents.row k = some i₀ → i.orgId = i₀.orgId ∧ i.number = i₀.number
  new : s.incidents.row k = none → s.advisory (lockKey hashtext i.orgId) = some t

/-- The entries that a transaction has drafted or is going to. -/
def Tx.entries (x : Tx) : List TimelineEntry :=
  x.todo.filterMap fun
    | .addTimeline e => some e
    | .create _ | .update _ _ _ => none

def toCome (s : State) (t : ℕ) : List TimelineEntry := s.timeline ++ s.drafts t ++ ((s.open_ t).elim [] Tx.entries)

structure Inv (hashtext : String → ℤ) (s : State) : Prop where
  sound : s.incidents.Sound
  locked : ∀ k, s.incidents.lock k ≠ none → k ∈ s.ids
  drawn : ∀ k i, s.incidents.row k = some i → k ∈ s.ids ∧ i.Settled ∧ HasFirst s.timeline k
  drafted : ∀ t k r, s.incidents.draft t k = some r → ∃ i, r = some i ∧ Drafted hashtext s t k i ∧ HasFirst (toCome s t) k
  idle : ∀ t, s.open_ t = none → ∀ k, s.incidents.draft t k = none
  numbered : ∀ org, ∃ n, Numbered (numberIn s.incidents.row org) n
  seen : ∀ t org, s.advisory (lockKey hashtext org) = some t → ∃ n, Numbered (numberIn (visible s.incidents t) org) n

section
variable {hashtext : String → ℤ} {s s' : State} {t u : ℕ} {org : String}

theorem numberIn_some {rows : ℕ → Option Incident} {k : ℕ} {i : Incident} (h : rows k = some i) :
    numberIn rows org k = if i.orgId = org then some i.number else none := by
  rw [numberIn, h, Option.filter_some]
  by_cases horg : i.orgId = org <;> simp [horg]

theorem numberIn_none {rows : ℕ → Option Incident} {k : ℕ} (h : rows k = none) : numberIn rows org k = none := by
  rw [numberIn, h]
  rfl

theorem visible_draft {db : Table ℕ ℕ Incident} {k : ℕ} {r : Option Incident} (h : db.draft t k = some r) : visible db t k = r := by
  simp [visible, h]

theorem visible_row {db : Table ℕ ℕ Incident} {k : ℕ} (h : db.draft t k = none) : visible db t k = db.row k := by simp [visible, h]

/-- Drafts of who has not the lock leave an org's numbers as they are. -/
theorem Inv.numberIn_visible (hs : Inv hashtext s) (h : s.advisory (lockKey hashtext org) ≠ some t) (k : ℕ) :
    numberIn (visible s.incidents t) org k = numberIn s.incidents.row org k := by
  rcases hd : s.incidents.draft t k with - | r
  · rw [numberIn, visible_row hd, numberIn]
  · obtain ⟨i, rfl, hi, -⟩ := hs.drafted t k r hd
    rw [numberIn_some (visible_draft hd)]
    rcases hrow : s.incidents.row k with - | i₀
    · have hne : i.orgId ≠ org := by
        rintro rfl
        exact h (hi.new hrow)
      rw [numberIn_none hrow, if_neg hne]
    · obtain ⟨horg, hnumber⟩ := hi.kept i₀ hrow
      rw [numberIn_some hrow, horg, hnumber]

/-- What a step of `t` may do to the others. -/
structure Others (hashtext : String → ℤ) (s s' : State) (t : ℕ) : Prop where
  undisturbed : ∀ u, u ≠ t → s.incidents.Undisturbed u s'.incidents
  advisory : ∀ u, u ≠ t → ∀ key, s'.advisory key = some u ↔ s.advisory key = some u
  ids : s.ids ⊆ s'.ids
  timeline : s.timeline ⊆ s'.timeline
  drafts : ∀ u, u ≠ t → s'.drafts u = s.drafts u
  open_ : ∀ u, u ≠ t → s'.open_ u = s.open_ u
  numbers : ∀ org, s.advisory (lockKey hashtext org) ≠ some t → ∀ k, numberIn s'.incidents.row org k = numberIn s.incidents.row org k

theorem Others.drafted (ho : Others hashtext s s' t) (hs : Inv hashtext s) (hu : u ≠ t) {k : ℕ} {r : Option Incident}
    (hr : s'.incidents.draft u k = some r) : ∃ i, r = some i ∧ Drafted hashtext s' u k i ∧ HasFirst (toCome s' u) k := by
  rw [(ho.undisturbed u hu).draft] at hr
  obtain ⟨i, rfl, hi, hfirst⟩ := hs.drafted u k r hr
  have hrow := (ho.undisturbed u hu).row k (hs.sound u k _ hr)
  refine ⟨i, rfl, ⟨ho.ids hi.drawn, hi.settled, ?_, fun hnone => ?_⟩, hfirst.mono ?_⟩
  · rw [hrow]
    exact hi.kept
  · exact (ho.advisory u hu _).mpr (hi.new (by rwa [hrow] at hnone))
  · intro e he
    simp only [toCome, ho.drafts u hu, ho.open_ u hu, List.mem_append] at he ⊢
    exact he.imp_left (Or.imp_left (ho.timeline ·))

theorem Others.idle (ho : Others hashtext s s' t) (hs : Inv hashtext s) (hu : u ≠ t) (h : s'.open_ u = none) (k : ℕ) :
    s'.incidents.draft u k = none := by
  rw [(ho.undisturbed u hu).draft]
  exact hs.idle u (by rwa [ho.open_ u hu] at h) k

theorem Others.seen (ho : Others hashtext s s' t) (hs : Inv hashtext s) (hu : u ≠ t) (h : s'.advisory (lockKey hashtext org) = some u) :
    ∃ n, Numbered (numberIn (visible s'.incidents u) org) n := by
  have hheld := (ho.advisory u hu _).mp h
  have hother : s.advisory (lockKey hashtext org) ≠ some t := by
    rw [hheld]
    simpa using hu
  have hsame : numberIn (visible s'.incidents u) org = numberIn (visible s.incidents u) org := by
    funext k
    have hdraft := congrFun (ho.undisturbed u hu).draft k
    rcases hd : s.incidents.draft u k with - | r
    · have hnumber := ho.numbers org hother k
      rwa [numberIn, visible_row (hdraft.trans hd), numberIn, visible_row hd, ← numberIn, ← numberIn]
    · rw [numberIn, visible_draft (hdraft.trans hd), numberIn, visible_draft hd]
  rw [hsame]
  exact hs.seen u org hheld

/-- A step keeps the invariant if it does for the rows and for its own transaction. -/
theorem Others.inv (ho : Others hashtext s s' t) (hs : Inv hashtext s) (hsound : s'.incidents.Sound)
    (hlocked : ∀ k, s'.incidents.lock k ≠ none → k ∈ s'.ids)
    (hdrawn : ∀ k i, s'.incidents.row k = some i → k ∈ s'.ids ∧ i.Settled ∧ HasFirst s'.timeline k)
    (hdrafted : ∀ k r, s'.incidents.draft t k = some r → ∃ i, r = some i ∧ Drafted hashtext s' t k i ∧ HasFirst (toCome s' t) k)
    (hidle : s'.open_ t = none → ∀ k, s'.incidents.draft t k = none)
    (hnumbered : ∀ org, ∃ n, Numbered (numberIn s'.incidents.row org) n)
    (hseen : ∀ org, s'.advisory (lockKey hashtext org) = some t → ∃ n, Numbered (numberIn (visible s'.incidents t) org) n) :
    Inv hashtext s' where
  sound := hsound
  locked := hlocked
  drawn := hdrawn
  drafted u k r hr := by
    by_cases hu : u = t
    · exact hu ▸ hdrafted k r (hu ▸ hr)
    · exact ho.drafted hs hu hr
  idle u h k := by
    by_cases hu : u = t
    · exact hu ▸ hidle (hu ▸ h) k
    · exact ho.idle hs hu h k
  numbered := hnumbered
  seen u org h := by
    by_cases hu : u = t
    · exact hu ▸ hseen org (hu ▸ h)
    · exact ho.seen hs hu h

/-! ## The steps -/

theorem lock_of_rollback {db : Table ℕ ℕ Incident} {k : ℕ} (h : (db.rollback t).lock k ≠ none) : db.lock k ≠ none := by
  simp only [Table.rollback] at h
  split_ifs at h
  · exact absurd rfl h
  · exact h

theorem Inv.rollback (hs : Inv hashtext s) (t : ℕ) : Inv hashtext (s.rollback t) := by
  have ho : Others hashtext s (s.rollback t) t := {
    undisturbed := fun u hu => Table.Undisturbed.rollback hu
    advisory := fun u hu key => by
      simp only [State.rollback, State.close]
      split_ifs with hkey
      · simpa [hkey] using Ne.symm hu
      · rfl
    ids := List.Subset.refl _
    timeline := List.Subset.refl _
    drafts := fun u hu => Function.update_of_ne hu _ _
    open_ := fun u hu => Function.update_of_ne hu _ _
    numbers := fun _ _ _ => rfl }
  refine ho.inv hs hs.sound.rollback (fun k hk => hs.locked k (lock_of_rollback hk)) hs.drawn
    (fun k r hr => ?_) (fun _ k => ?_) hs.numbered fun org h => ?_
  · simp [State.rollback] at hr
  · simp [State.rollback]
  · simp only [State.rollback, State.close] at h
    split_ifs at h with hkey
    exact absurd h hkey

/-- The rows after a commit are those that the transaction has seen. -/
theorem row_commit (k : ℕ) : (s.commit t).incidents.row k = visible s.incidents t k := rfl

theorem Inv.commit (hs : Inv hashtext s) (hdone : (s.open_ t).elim [] Tx.entries = []) : Inv hashtext (s.commit t) := by
  have ho : Others hashtext s (s.commit t) t := {
    undisturbed := fun u hu => Table.Undisturbed.commit hs.sound hu
    advisory := fun u hu key => by
      simp only [State.commit, State.close]
      split_ifs with hkey
      · simpa [hkey] using Ne.symm hu
      · rfl
    ids := List.Subset.refl _
    timeline := List.subset_append_left _ _
    drafts := fun u hu => Function.update_of_ne hu _ _
    open_ := fun u hu => Function.update_of_ne hu _ _
    numbers := fun org h k => hs.numberIn_visible h k }
  refine ho.inv hs hs.sound.commit (fun k hk => hs.locked k (lock_of_rollback hk))
    (fun k i hi => ?_) (fun k r hr => ?_) (fun _ k => ?_) (fun org => ?_) fun org h => ?_
  · rw [row_commit] at hi
    rcases hd : s.incidents.draft t k with - | r
    · rw [visible_row hd] at hi
      obtain ⟨hid, hsettled, hfirst⟩ := hs.drawn k i hi
      exact ⟨hid, hsettled, hfirst.mono (List.subset_append_left _ _)⟩
    · obtain ⟨i', rfl, hdrafted, hfirst⟩ := hs.drafted t k r hd
      obtain rfl := Option.some.inj ((visible_draft hd).symm.trans hi)
      rw [toCome, hdone, List.append_nil] at hfirst
      exact ⟨hdrafted.drawn, hdrafted.settled, hfirst⟩
  · simp [State.commit] at hr
  · simp [State.commit]
  · by_cases hlock : s.advisory (lockKey hashtext org) = some t
    · exact hs.seen t org hlock
    · have hsame : numberIn (s.commit t).incidents.row org = numberIn s.incidents.row org := funext fun k => hs.numberIn_visible hlock k
      rw [hsame]
      exact hs.numbered org
  · simp only [State.commit, State.close] at h
    split_ifs at h with hkey
    exact absurd h hkey

/-- The lock is taken before the transaction has new incidents of the org. -/
theorem Inv.lock (hs : Inv hashtext s) {key : ℤ} (hfree : s.advisory key = none) :
    Inv hashtext { s with advisory := Function.update s.advisory key (some t) } := by
  have ho : Others hashtext s { s with advisory := Function.update s.advisory key (some t) } t := {
    undisturbed := fun u hu => Table.Undisturbed.refl
    advisory := fun u hu key' => by
      by_cases hkey : key' = key
      · simpa [hkey, hfree] using Ne.symm hu
      · simp [hkey]
    ids := List.Subset.refl _
    timeline := List.Subset.refl _
    drafts := fun _ _ => rfl
    open_ := fun _ _ => rfl
    numbers := fun _ _ _ => rfl }
  have hkeeps {key' : ℤ} (h : s.advisory key' = some t) : Function.update s.advisory key (some t) key' = some t := by
    by_cases hkey : key' = key <;> simp [hkey, h]
  refine ho.inv hs hs.sound hs.locked hs.drawn (fun k r hr => ?_) (hs.idle t) hs.numbered fun org h => ?_
  · obtain ⟨i, rfl, hi, hfirst⟩ := hs.drafted t k r hr
    exact ⟨i, rfl, { hi with new := fun hnone => hkeeps (hi.new hnone) }, hfirst⟩
  · by_cases hheld : s.advisory (lockKey hashtext org) = some t
    · exact hs.seen t org hheld
    · have hsame : numberIn (visible s.incidents t) org = numberIn s.incidents.row org := funext fun k => hs.numberIn_visible hheld k
      change ∃ n, Numbered (numberIn (visible s.incidents t) org) n
      rw [hsame]
      exact hs.numbered org

/-- A transaction goes on to statements whose entries are those to come. -/
theorem Inv.goOn (hs : Inv hashtext s) {x : Tx} (hentries : (s.open_ t).elim [] Tx.entries ⊆ x.entries) : Inv hashtext (s.goOn t x) := by
  have ho : Others hashtext s (s.goOn t x) t := {
    undisturbed := fun u hu => Table.Undisturbed.refl
    advisory := fun _ _ _ => Iff.rfl
    ids := List.Subset.refl _
    timeline := List.Subset.refl _
    drafts := fun _ _ => rfl
    open_ := fun u hu => Function.update_of_ne hu _ _
    numbers := fun _ _ _ => rfl }
  refine ho.inv hs hs.sound hs.locked hs.drawn (fun k r hr => ?_) (fun h => ?_) hs.numbered (hs.seen t)
  · obtain ⟨i, rfl, hi, hfirst⟩ := hs.drafted t k r hr
    refine ⟨i, rfl, ⟨hi.drawn, hi.settled, hi.kept, hi.new⟩, hfirst.mono fun e he => ?_⟩
    simp only [toCome, State.goOn, Function.update_self, Option.elim_some, List.mem_append] at he ⊢
    exact he.imp_right (hentries ·)
  · simp [State.goOn] at h

/-- The statement of the first entry is done. -/
theorem Inv.entry (hs : Inv hashtext s) {e : TimelineEntry} {x : Tx} {todo : List Statement} (hx : s.open_ t = some x)
    (htodo : x.todo = .addTimeline e :: todo) :
    Inv hashtext ({ s with drafts := Function.update s.drafts t (s.drafts t ++ [e]) }.goOn t { x with todo }) := by
  have ho : Others hashtext s ({ s with drafts := Function.update s.drafts t (s.drafts t ++ [e]) }.goOn t { x with todo }) t := {
    undisturbed := fun u hu => Table.Undisturbed.refl
    advisory := fun _ _ _ => Iff.rfl
    ids := List.Subset.refl _
    timeline := List.Subset.refl _
    drafts := fun u hu => Function.update_of_ne hu _ _
    open_ := fun u hu => Function.update_of_ne hu _ _
    numbers := fun _ _ _ => rfl }
  refine ho.inv hs hs.sound hs.locked hs.drawn (fun k r hr => ?_) (fun h => ?_) hs.numbered (hs.seen t)
  · obtain ⟨i, rfl, hi, hfirst⟩ := hs.drafted t k r hr
    refine ⟨i, rfl, ⟨hi.drawn, hi.settled, hi.kept, hi.new⟩, hfirst.mono fun e' he => ?_⟩
    have hentries : x.entries = e :: (Tx.mk x.org todo).entries := by simp [Tx.entries, htodo]
    simp only [toCome, State.goOn, hx, Function.update_self, Option.elim_some, hentries, List.mem_append, List.mem_cons,
      List.not_mem_nil, or_false] at he ⊢
    tauto
  · simp [State.goOn] at h

/-- A row that the transaction sees is written, its org and number as they are. -/
theorem Inv.write (hs : Inv hashtext s) {k : ℕ} {i i' : Incident} (hopen : s.open_ t ≠ none) (hfree : s.incidents.Free t k)
    (hi : visible s.incidents t k = some i) (horg : i'.orgId = i.orgId) (hnumber : i'.number = i.number) (hsettled : i.Settled → i'.Settled) :
    Inv hashtext { s with incidents := s.incidents.write t k (some i') } := by
  have ho : Others hashtext s { s with incidents := s.incidents.write t k (some i') } t := {
    undisturbed := fun u hu => Table.Undisturbed.write hfree hu
    advisory := fun _ _ _ => Iff.rfl
    ids := List.Subset.refl _
    timeline := List.Subset.refl _
    drafts := fun _ _ => rfl
    open_ := fun _ _ => rfl
    numbers := fun _ _ _ => rfl }
  -- What is known of the row as the transaction sees it.
  have hrow : Drafted hashtext s t k i ∧ HasFirst (toCome s t) k := by
    rcases hd : s.incidents.draft t k with - | r
    · rw [visible_row hd] at hi
      obtain ⟨hid, hset, hfirst⟩ := hs.drawn k i hi
      refine ⟨⟨hid, hset, fun i₀ h₀ => ?_, fun hnone => ?_⟩, hfirst.mono fun e he => ?_⟩
      · rw [Option.some.inj (h₀.symm.trans hi)]
        exact ⟨rfl, rfl⟩
      · rw [hnone] at hi
        cases hi
      · simp [toCome, he]
    · obtain ⟨i₁, rfl, hdrafted, hfirst⟩ := hs.drafted t k r hd
      obtain rfl := Option.some.inj ((visible_draft hd).symm.trans hi)
      exact ⟨hdrafted, hfirst⟩
  have hsame (org : String) : numberIn (visible (s.incidents.write t k (some i')) t) org = numberIn (visible s.incidents t) org := by
    funext l
    by_cases hl : l = k
    · subst hl
      have hdraft : (s.incidents.write t l (some i')).draft t l = some (some i') := by simp
      rw [numberIn_some (visible_draft hdraft), numberIn_some hi, horg, hnumber]
    · simp [numberIn, visible, Function.update_of_ne hl]
  refine ho.inv hs (hs.sound.write hfree) (fun l hl => ?_) hs.drawn (fun l r hr => ?_) (fun h => absurd h hopen) hs.numbered fun org h => ?_
  · by_cases hlk : l = k
    · exact hlk ▸ hrow.1.drawn
    · exact hs.locked l (by simpa [Table.take, Function.update_of_ne hlk] using hl)
  · by_cases hlk : l = k
    · subst hlk
      obtain rfl : some i' = r := by simpa using hr
      refine ⟨i', rfl, ⟨hrow.1.drawn, hsettled hrow.1.settled, ?_, fun hnone => ?_⟩, hrow.2⟩
      · rw [horg, hnumber]
        exact hrow.1.kept
      · rw [horg]
        exact hrow.1.new hnone
    · obtain ⟨i₁, rfl, hdrafted, hfirst⟩ := hs.drafted t l r (by simpa [Function.update_of_ne hlk] using hr)
      exact ⟨i₁, rfl, ⟨hdrafted.drawn, hdrafted.settled, hdrafted.kept, hdrafted.new⟩, hfirst⟩
  · change ∃ n, Numbered (numberIn (visible (s.incidents.write t k (some i')) t) org) n
    rw [hsame]
    exact hs.seen t org h

/-- A new row takes the number after those that its transaction sees. -/
theorem Inv.insert (hs : Inv hashtext s) {id : ℕ} {n : NewIncident} {x : Tx} {todo : List Statement} (hx : s.open_ t = some x)
    (htodo : x.todo = .create n :: todo) (hlock : s.advisory (lockKey hashtext n.orgId) = some t) (hid : id ∉ s.ids) :
    Inv hashtext ((s.insert t id n).goOn t { x with todo := .addTimeline (n.entry id) :: todo }) := by
  have hfree : s.incidents.lock id = none := by
    by_contra hheld
    exact hid (hs.locked id hheld)
  have hrow : s.incidents.row id = none := by
    rcases hr : s.incidents.row id with - | i
    · rfl
    · exact absurd (hs.drawn id i hr).1 hid
  have hdraft : s.incidents.draft t id = none := by
    rcases hd : s.incidents.draft t id with - | r
    · rfl
    · have hheld := hs.sound t id r hd
      rw [hfree] at hheld
      cases hheld
  set number := nextNumber s.ids (visible s.incidents t) n.orgId with hnumber
  set s' := (s.insert t id n).goOn t { x with todo := .addTimeline (n.entry id) :: todo } with hs'
  have ho : Others hashtext s s' t := {
    undisturbed := fun u hu => Table.Undisturbed.write (.inl hfree) hu
    advisory := fun _ _ _ => Iff.rfl
    ids := List.subset_cons_self _ _
    timeline := List.Subset.refl _
    drafts := fun _ _ => rfl
    open_ := fun u hu => Function.update_of_ne hu _ _
    numbers := fun _ _ _ => rfl }
  have hnew : s'.incidents.draft t id = some (some (n.row number)) := by simp [hs', State.goOn, State.insert, hnumber]
  have hold {k : ℕ} (hk : k ≠ id) : s'.incidents.draft t k = s.incidents.draft t k := by
    simp [hs', State.goOn, State.insert, Function.update_of_ne hk]
  have hsame {k : ℕ} (hk : k ≠ id) : visible s'.incidents t k = visible s.incidents t k := by
    have hrows : s'.incidents.row k = s.incidents.row k := rfl
    simp [visible, hold hk, hrows]
  refine ho.inv hs (hs.sound.write (.inl hfree)) (fun k hk => ?_)
    (fun k i hi => ?_) (fun k r hr => ?_) (fun h => ?_) hs.numbered fun org h => ?_
  · by_cases hne : k = id
    · simp [hs', State.goOn, State.insert, hne]
    · exact List.mem_cons_of_mem _ (hs.locked k (by simpa [hs', State.goOn, State.insert, Table.take, Function.update_of_ne hne] using hk))
  · obtain ⟨hmem, hsettled, hfirst⟩ := hs.drawn k i hi
    exact ⟨List.mem_cons_of_mem _ hmem, hsettled, hfirst⟩
  · by_cases hne : k = id
    · subst hne
      obtain rfl := Option.some.inj (hnew.symm.trans hr)
      refine ⟨n.row number, rfl, ⟨List.mem_cons_self .., by simp [Incident.Settled, NewIncident.row], fun i₀ h₀ => ?_, fun _ => hlock⟩, ?_⟩
      · rw [show s'.incidents.row k = s.incidents.row k from rfl, hrow] at h₀
        cases h₀
      · refine ⟨n.entry k, ?_, rfl, rfl⟩
        simp [toCome, hs', State.goOn, Tx.entries]
    · obtain ⟨i, rfl, hi, hfirst⟩ := hs.drafted t k r (by rwa [hold hne] at hr)
      refine ⟨i, rfl, ⟨List.mem_cons_of_mem _ hi.drawn, hi.settled, hi.kept, hi.new⟩, hfirst.mono fun e he => ?_⟩
      have hentries : x.entries = (Tx.mk x.org todo).entries := by simp [Tx.entries, htodo]
      simp only [toCome, hx, Option.elim_some, hentries, List.mem_append] at he
      simp only [toCome, hs', State.goOn, State.insert, Function.update_self, Option.elim_some, Tx.entries, List.filterMap_cons,
        List.mem_append, List.mem_cons] at he ⊢
      tauto
  · simp [hs', State.goOn] at h
  · by_cases horg : org = n.orgId
    · subst horg
      obtain ⟨m, hm⟩ := hs.seen t _ hlock
      have hdrawn : ∀ k, numberIn (visible s.incidents t) n.orgId k ≠ none → k ∈ s.ids := by
        intro k hk
        rcases hd : s.incidents.draft t k with - | r
        · rcases hr : s.incidents.row k with - | i
          · rw [numberIn_none ((visible_row hd).trans hr)] at hk
            exact absurd rfl hk
          · exact (hs.drawn k i hr).1
        · obtain ⟨i, -, hi, -⟩ := hs.drafted t k r hd
          exact hi.drawn
      have hnext : number = m + 1 := by rw [hnumber, nextNumber, hm.max hdrawn]
      refine ⟨m + 1, hm.insert id ?_ ?_ fun k hk => ?_⟩
      · exact numberIn_none ((visible_row hdraft).trans hrow)
      · rw [numberIn_some (visible_draft hnew), ← hnext]
        simp [NewIncident.row]
      · rw [numberIn, hsame hk, numberIn]
    · have hkeep : numberIn (visible s'.incidents t) org = numberIn (visible s.incidents t) org := by
        funext k
        by_cases hk : k = id
        · subst hk
          rw [numberIn_some (visible_draft hnew), numberIn_none ((visible_row hdraft).trans hrow)]
          simp [NewIncident.row, Ne.symm horg]
        · rw [numberIn, hsame hk, numberIn]
      rw [hkeep]
      exact hs.seen t org h

theorem Inv.go (hs : Inv hashtext s) {x : Tx} (hx : s.open_ t = some x) (id : ℕ) : Inv hashtext (go hashtext s t id x) := by
  rcases htodo : x.todo with - | ⟨n | e | ⟨k, p, now⟩, todo⟩ <;> simp only [IncidentNumbers.go, htodo]
  · exact hs.commit (by simp [hx, Tx.entries, htodo])
  · split_ifs with hfree hwaits
    · exact hs.lock hfree
    · exact hs
    · rw [not_or, not_not] at hwaits
      exact hs.insert hx htodo hwaits.1 hwaits.2
  · exact hs.entry hx htodo
  · split
    · exact hs.rollback t
    · rename_i i hfound
      obtain ⟨hi, -⟩ := Option.filter_eq_some_iff.mp hfound
      split_ifs with hfree
      · have hopen : s.open_ t ≠ none := by simp [hx]
        have horg : (p.apply now i).orgId = i.orgId := rfl
        have hwritten := hs.write hopen hfree hi horg rfl fun h => IncidentPatch.settled_apply h p now
        refine hwritten.goOn ?_
        simp [hx, Tx.entries, htodo]
      · exact hs

theorem Inv.step (hs : Inv hashtext s) (e : Event) : Inv hashtext (step hashtext s e) := by
  cases e with
  | start t c now =>
    simp only [IncidentNumbers.step]
    split_ifs with hidle
    · split
      · exact hs
      · exact hs.goOn (by simp [hidle])
    · exact hs
  | go t id =>
    rcases hx : s.open_ t with - | x
    · simpa [IncidentNumbers.step, hx] using hs
    · simpa [IncidentNumbers.step, hx] using hs.go hx id
  | fail t => exact hs.rollback t

theorem Inv.run (hs : Inv hashtext s) (es : List Event) : Inv hashtext (run (IncidentNumbers.step hashtext) s es) := by
  induction es generalizing s with
  | nil => exact hs
  | cons e es ih => exact ih (hs.step e)

theorem inv_empty : Inv hashtext empty where
  sound _ _ _ h := by cases h
  locked _ h := absurd rfl h
  drawn _ _ h := by cases h
  drafted _ _ _ h := by cases h
  idle _ _ _ := rfl
  numbered _ := ⟨0, fun _ _ h => by simp [numberIn, empty] at h, fun m hlow hhigh => by omega⟩
  seen _ _ h := by cases h

end

end Upstat.IncidentNumbers
