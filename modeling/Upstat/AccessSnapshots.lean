import Mathlib.Logic.Function.Basic
import Mathlib.Order.Nat
import Upstat.GuardedRuns

/-! # Who may read which org (`snapshot.Access`, and `user` of `query/internal/handler`)

The members, orgs and monitors snapshots that api/query keeps, the reads that refresh them and the
requests that are let in on the members, each cut where it waits for storage or a lock. Times are
nanoseconds of one clock. -/
namespace Upstat.AccessSnapshots

open GuardedRuns

def second : ℕ := 1000000000
def refreshFloor : ℕ := 10 * second
def defaultAccessMaxAge : ℕ := 30 * second

structure Org where
  id : String
  name : String
  timezone : String
  deriving DecidableEq

structure Membership where
  orgId : String
  role : String
  deriving DecidableEq

structure UserAccess where
  userId : String
  activeOrgId : String
  memberships : List Membership
  deriving DecidableEq

structure Monitor where
  id : String
  orgId : String
  name : String
  deriving DecidableEq

inductive Kind where
  | members | orgs | monitors
  deriving DecidableEq

def Item : Kind → Type
  | .members => UserAccess
  | .orgs => Org
  | .monitors => Monitor

structure Document (k : Kind) where
  version : ℕ
  items : List (Item k)

/-- A kind as it was installed, with when its read began. -/
structure Copy (k : Kind) where
  doc : Document k
  begun : ℕ

/-- A read under way, with what storage has answered. -/
structure Reading where
  kind : Kind
  begun : ℕ
  found : Option (Document kind)

/-- What a goroutine reads for: the load before the service starts, a `config.changed`, or a
request, which refreshes a second time if it finds no membership. -/
inductive Goal where
  | start
  | event
  | request (userId : String) (asked : ℕ) (again : Bool)
  deriving DecidableEq

inductive Point where
  | next (todo : List Kind)
  | reading (r : Reading) (todo : List Kind)
  /-- About to call `ActiveOrg`. -/
  | looking

/-- A goroutine; `membersBegun` is when the last read of the members of its load began. -/
structure Job where
  goal : Goal
  point : Point
  failed : Bool
  membersBegun : ℕ

/-- A request that was let in, and when the read of the members it was let in on had begun. -/
structure Served where
  userId : String
  asked : ℕ
  org : Membership
  begun : Option ℕ
  deriving DecidableEq

/-- `stamp` says what the time in `refreshed` is: the end of a load, by when its read of the
members began, or the beginning of one. -/
structure State where
  clock : ℕ
  stored : (k : Kind) → Option (Document k)
  copies : (k : Kind) → Option (Copy k)
  refreshed : Option ℕ
  stamp : Option ℕ
  serving : Bool
  jobs : ℕ → Option Job
  served : List Served

inductive Event where
  | request (i : ℕ) (userId : String)
  | configChanged (i : ℕ) (kind : Kind)
  /-- Storage answers the read of a goroutine, or fails. -/
  | answered (i : ℕ)
  | fails (i : ℕ)
  | go (i : ℕ)
  /-- Common writes a snapshot. -/
  | write (k : Kind) (doc : Document k)
  | tick (d : ℕ)

/-- The kinds `Load` reads, in order. -/
def loadKinds : List Kind := [.members, .orgs, .monitors]

def maxAge (accessMaxAge : ℕ) : ℕ := if accessMaxAge = 0 then defaultAccessMaxAge else accessMaxAge

/-- `ActiveOrg`, on the users of a snapshot: a later entry for a user takes the place of an earlier one. -/
def activeOrg (users : List UserAccess) (userId : String) : Option Membership :=
  (users.reverse.find? fun u => u.userId = userId).bind fun u => u.memberships.find? fun m => m.orgId = u.activeOrgId

def State.put (s : State) (i : ℕ) (j : Option Job) : State := { s with jobs := Function.update s.jobs i j }

/-- What `Refresh` does before the load, for a goroutine that goes on if it does not refresh or drops out. -/
def State.refresh (s : State) (i : ℕ) (floor : ℕ) (userId : String) (asked : ℕ) (again : Bool) (skipped : Option Job) : State :=
  if s.refreshed.any fun t => s.clock < t + floor then s.put i skipped
  else { s with refreshed := some s.clock, stamp := none }.put i (some ⟨.request userId asked again, .next loadKinds, false, 0⟩)

/-- The end of `Reload`. -/
def State.install (s : State) (r : Reading) (doc : Document r.kind) : State :=
  if (s.copies r.kind).all fun c => c.doc.version ≤ doc.version then
    { s with copies := Function.update s.copies r.kind (some ⟨doc, r.begun⟩) }
  else s

/-- The end of `Load`, and what a goroutine goes on with. -/
def State.loaded (s : State) (i : ℕ) (j : Job) : State :=
  let s' := { s with refreshed := some s.clock, stamp := some j.membersBegun }
  match j.goal with
  | .event => s.put i none
  | .start => { s' with serving := !j.failed }.put i none
  | .request _ _ again => if again ∧ j.failed then s'.put i none else s'.put i (some { j with point := .looking })

/-- `ActiveOrg` in `user`. -/
def State.look (s : State) (i : ℕ) (j : Job) : State :=
  match j.goal with
  | .start | .event => s.put i none
  | .request userId asked again =>
    match activeOrg ((s.copies .members).elim [] fun c => c.doc.items) userId with
    | some org => { s with served := s.served ++ [Served.mk userId asked org ((s.copies .members).map Copy.begun)] }.put i none
    | none => if again then s.put i none else s.refresh i refreshFloor userId asked true none

def State.go (s : State) (i : ℕ) (j : Job) : State :=
  match j.point with
  | .next [] => s.loaded i j
  | .next (k :: todo) =>
    s.put i (some { j with point := .reading ⟨k, s.clock, none⟩ todo, membersBegun := if k = .members then s.clock else j.membersBegun })
  | .reading r todo =>
    match r.found with
    | none => s
    | some doc => (s.install r doc).put i (some { j with point := .next todo })
  | .looking => s.look i j

def step (accessMaxAge : ℕ) (s : State) : Event → State
  | .request i userId =>
    if s.serving ∧ (s.jobs i).isNone then
      s.refresh i (maxAge accessMaxAge) userId s.clock false (some ⟨.request userId s.clock false, .looking, false, 0⟩)
    else s
  | .configChanged i kind => if (s.jobs i).isNone then s.put i (some ⟨.event, .next [kind], false, 0⟩) else s
  | .answered i =>
    match s.jobs i with
    | none => s
    | some j =>
      match j.point with
      | .reading r todo => s.put i (some { j with point := .reading { r with found := some ((s.stored r.kind).getD ⟨0, []⟩) } todo })
      | .next _ | .looking => s
  | .fails i =>
    match s.jobs i with
    | none => s
    | some j =>
      match j.point with
      | .reading _ todo => s.put i (some { j with point := .next todo, failed := true })
      | .next _ | .looking => s
  | .go i => (s.jobs i).elim s (s.go i)
  | .write k doc => { s with stored := Function.update s.stored k (some doc) }
  | .tick d => { s with clock := s.clock + d }

/-- The service's start: its goroutine `0` loads, and requests are served once it has. -/
def started (now : ℕ) : State where
  clock := now
  stored _ := none
  copies _ := none
  refreshed := none
  stamp := none
  serving := false
  jobs := Function.update (fun _ => none) 0 (some ⟨.start, .next loadKinds, false, 0⟩)
  served := []

/-- Every request that is let in is let in on members whose read began no longer than the maximum age before it. -/
def AllFresh (accessMaxAge : ℕ) (s : State) : Prop :=
  ∀ x ∈ s.served, ∃ b, x.begun = some b ∧ x.asked ≤ b + maxAge accessMaxAge

/-- When the read of the members that a goroutine waits for began, and the version storage has answered with. -/
def Job.membersRead (j : Job) : Option (ℕ × Option ℕ) :=
  match j.point with
  | .reading ⟨.members, begun, found⟩ _ => some (begun, found.map Document.version)
  | .reading _ _ | .next _ | .looking => none

/-- A read of the members is installed, if it is one of a load, and does not take the place of one that began later. -/
def InOrder (s : State) (goal : Goal) (version begun : ℕ) : Prop :=
  ∀ c ∈ s.copies .members, (goal ≠ .event → c.doc.version ≤ version) ∧ (c.doc.version ≤ version → c.begun ≤ begun)

instance (s : State) (goal : Goal) (version begun : ℕ) : Decidable (InOrder s goal version begun) :=
  inferInstanceAs (Decidable (∀ c ∈ s.copies .members, _))

/-- A request that the floor keeps from a load comes when the last load to set the time has ended
and its read of the members began no longer than the maximum age before; no read of the members for
a request fails; and the reads of the members are installed in the order they began. -/
def Timely (accessMaxAge : ℕ) (s : State) : Event → Prop
  | .request _ _ =>
    (s.refreshed.any fun t => s.clock < t + maxAge accessMaxAge) = true → ∃ b ∈ s.stamp, s.clock ≤ b + maxAge accessMaxAge
  | .fails i => ∀ j ∈ s.jobs i, j.membersRead.isSome → j.goal = .start ∨ j.goal = .event
  | .go i => ∀ j ∈ s.jobs i, ∀ r ∈ j.membersRead, ∀ v ∈ r.2, InOrder s j.goal v r.1
  | .configChanged _ _ | .answered _ | .write _ _ | .tick _ => True

instance (accessMaxAge : ℕ) (s : State) : (e : Event) → Decidable (Timely accessMaxAge s e)
  | .request _ _ => inferInstanceAs (Decidable (_ → ∃ b ∈ s.stamp, _))
  | .fails i => inferInstanceAs (Decidable (∀ j ∈ s.jobs i, _))
  | .go i => inferInstanceAs (Decidable (∀ j ∈ s.jobs i, _))
  | .configChanged _ _ | .answered _ | .write _ _ | .tick _ => isTrue trivial

section
variable {accessMaxAge : ℕ} {s : State} {i : ℕ} {j : Job}

/-- The members in use were read since `b`. -/
def State.Since (s : State) (b : ℕ) : Prop := ∃ c, s.copies .members = some c ∧ b ≤ c.begun

def Job.asked (j : Job) : ℕ :=
  match j.goal with
  | .request _ asked _ => asked
  | .start | .event => 0

/-- The members that the goroutine's load has read are in use, or later ones are. Only the load at
the start may have failed to read them. -/
def Loaded (s : State) (j : Job) : Prop :=
  s.Since j.membersBegun ∧ j.asked ≤ j.membersBegun ∨ j.goal = .start ∧ j.failed = true

/-- What is known of a goroutine, by where it has come to. -/
structure Fits (accessMaxAge : ℕ) (s : State) (j : Job) : Prop where
  asked : j.asked ≤ s.clock
  next : j.goal ≠ .event → ∀ todo, j.point = .next todo → todo = loadKinds ∨ .members ∉ todo ∧ Loaded s j
  reading : j.goal ≠ .event → ∀ r todo, j.point = .reading r todo →
    .members ∉ todo ∧ (r.kind = .members ∧ r.begun = j.membersBegun ∧ j.asked ≤ r.begun ∨ Loaded s j)
  looking : j.point = .looking → ∃ b, s.Since b ∧ j.asked ≤ b + maxAge accessMaxAge

structure Inv (accessMaxAge : ℕ) (s : State) : Prop where
  stamp : s.serving = true → ∀ b, s.stamp = some b → s.Since b
  jobs : ∀ i j, s.jobs i = some j → Fits accessMaxAge s j
  served : AllFresh accessMaxAge s

theorem Loaded.mono {s' : State} (hs : ∀ b, s.Since b → s'.Since b) (h : Loaded s j) : Loaded s' j :=
  h.imp_left fun h => ⟨hs _ h.1, h.2⟩

theorem Fits.mono (h : Fits accessMaxAge s j) {s' : State} (hs : ∀ b, s.Since b → s'.Since b) (hc : s.clock ≤ s'.clock) :
    Fits accessMaxAge s' j where
  asked := h.asked.trans hc
  next he todo ht := (h.next he todo ht).imp_right fun h => ⟨h.1, h.2.mono hs⟩
  reading he r todo hr := ⟨(h.reading he r todo hr).1, (h.reading he r todo hr).2.imp_right fun h => h.mono hs⟩
  looking hl := by
    obtain ⟨b, hb, hle⟩ := h.looking hl
    exact ⟨b, hs b hb, hle⟩

theorem fits_later (h : Fits accessMaxAge s j) (d : ℕ) : Fits accessMaxAge { s with clock := s.clock + d } j :=
  h.mono (fun _ hb => hb) (Nat.le_add_right s.clock d)

/-- The frame of a step that changes neither the copies nor the clock. -/
theorem Fits.frame (h : Fits accessMaxAge s j) {s' : State} (hc : s'.copies = s.copies) (ht : s'.clock = s.clock) :
    Fits accessMaxAge s' j := by
  refine h.mono (fun b hb => ?_) ht.ge
  unfold State.Since
  rwa [hc]

theorem Inv.put (hi : Inv accessMaxAge s) (i : ℕ) {j : Option Job} (h : ∀ x, j = some x → Fits accessMaxAge s x) :
    Inv accessMaxAge (s.put i j) := by
  refine ⟨hi.stamp, fun n x hx => ?_, hi.served⟩
  by_cases hn : n = i
  · subst hn
    exact (h x (by simpa [State.put] using hx)).frame rfl rfl
  · exact (hi.jobs n x (by simpa [State.put, hn] using hx)).frame rfl rfl

theorem Inv.stamped (hi : Inv accessMaxAge s) (t : ℕ) {b : Option ℕ} (h : s.serving = true → ∀ x, b = some x → s.Since x) :
    Inv accessMaxAge { s with refreshed := some t, stamp := b } := ⟨h, fun n x hx => (hi.jobs n x hx).frame rfl rfl, hi.served⟩

/-- A goroutine that is about to load. -/
theorem fits_load (userId : String) {t : ℕ} (ht : t ≤ s.clock) (again : Bool) :
    Fits accessMaxAge s ⟨.request userId t again, .next loadKinds, false, 0⟩ where
  asked := ht
  next _ todo h := .inl (Point.next.inj h).symm
  reading _ r todo h := by cases h
  looking h := by cases h

theorem Inv.refresh (hi : Inv accessMaxAge s) (i floor : ℕ) (userId : String) {t : ℕ} (ht : t ≤ s.clock) (again : Bool)
    {skipped : Option Job} (h : (s.refreshed.any fun t => s.clock < t + floor) = true → ∀ x, skipped = some x → Fits accessMaxAge s x) :
    Inv accessMaxAge (s.refresh i floor userId t again skipped) := by
  unfold State.refresh
  split_ifs with hskip
  · exact hi.put i (h hskip)
  · refine (hi.stamped s.clock (b := none) fun _ x hx => by cases hx).put i fun x hx => ?_
    obtain rfl := Option.some.inj hx
    exact (fits_load userId ht again).frame rfl rfl

/-- What is installed is no older than what it takes the place of. -/
theorem since_install {g : Goal} {r : Reading} {doc : Document r.kind}
    (hin : r.kind = .members → InOrder s g doc.version r.begun) {b : ℕ} (h : s.Since b) : (s.install r doc).Since b := by
  unfold State.install
  split_ifs with hnew
  · obtain ⟨c, hc, hb⟩ := h
    obtain ⟨kind, begun, found⟩ := r
    cases kind with
    | members =>
      have hle : c.doc.version ≤ doc.version := by simpa [hc] using hnew
      exact ⟨⟨doc, begun⟩, by simp, hb.trans ((hin rfl c hc).2 hle)⟩
    | orgs => exact ⟨c, by simpa using hc, hb⟩
    | monitors => exact ⟨c, by simpa using hc, hb⟩
  · exact h

/-- A load's read of the members is installed, if it comes in order. -/
theorem since_installed {goal : Goal} {begun : ℕ} {found : Option (Document .members)} {doc : Document .members} (hg : goal ≠ .event)
    (hin : InOrder s goal doc.version begun) : (s.install ⟨.members, begun, found⟩ doc).Since begun := by
  have hnew : ((s.copies .members).all fun c => c.doc.version ≤ doc.version) = true := by
    cases hc : s.copies .members with
    | none => rfl
    | some c => simpa using (hin c hc).1 hg
  refine ⟨⟨doc, begun⟩, ?_, le_rfl⟩
  simp [State.install, hnew]

theorem Inv.install (hi : Inv accessMaxAge s) {r : Reading} {doc : Document r.kind}
    (hs : ∀ b, s.Since b → (s.install r doc).Since b) : Inv accessMaxAge (s.install r doc) := by
  have hrest : (s.install r doc).serving = s.serving ∧ (s.install r doc).stamp = s.stamp ∧ (s.install r doc).jobs = s.jobs ∧
      (s.install r doc).served = s.served ∧ (s.install r doc).clock = s.clock := by
    unfold State.install
    split_ifs
    all_goals exact ⟨rfl, rfl, rfl, rfl, rfl⟩
  obtain ⟨hserving, hstamp, hjobs, hserved, hclock⟩ := hrest
  refine ⟨fun h b hb => hs b (hi.stamp (hserving ▸ h) b (hstamp ▸ hb)), fun n x hx => ?_, fun x hx => hi.served x (hserved ▸ hx)⟩
  exact (hi.jobs n x (hjobs ▸ hx)).mono hs hclock.ge

/-- Once a load is over, the members are those it read, or later ones, but for a load at the start that failed. -/
theorem Fits.loaded (hj : Fits accessMaxAge s j) (he : j.goal ≠ .event) (hp : j.point = .next []) : Loaded s j := by
  obtain h | ⟨-, h⟩ := hj.next he [] hp
  · cases h
  · exact h

theorem Inv.loaded (hi : Inv accessMaxAge s) (i : ℕ) (hj : Fits accessMaxAge s j) (hp : j.point = .next []) :
    Inv accessMaxAge (s.loaded i j) := by
  unfold State.loaded
  cases hg : j.goal with
  | event => exact hi.put i fun x hx => by cases hx
  | start =>
    have hl := hj.loaded (by simp [hg]) hp
    have hstart : Inv accessMaxAge { s with refreshed := some s.clock, stamp := some j.membersBegun, serving := !j.failed } := by
      refine ⟨fun hs b hb => ?_, fun n x hx => (hi.jobs n x hx).frame rfl rfl, hi.served⟩
      obtain rfl := Option.some.inj hb
      obtain ⟨h, -⟩ | ⟨-, hf⟩ := hl
      · exact h
      · simp [hf] at hs
    exact hstart.put i fun x hx => by cases hx
  | request userId asked again =>
    obtain ⟨hsince, hle⟩ : s.Since j.membersBegun ∧ j.asked ≤ j.membersBegun := by
      obtain h | ⟨h, -⟩ := hj.loaded (by simp [hg]) hp
      · exact h
      · simp [hg] at h
    have hstamp := hi.stamped s.clock (b := some j.membersBegun) fun _ x hx => Option.some.inj hx ▸ hsince
    dsimp only
    split_ifs
    · exact hstamp.put i fun x hx => by cases hx
    · refine hstamp.put i fun x hx => ?_
      obtain rfl := Option.some.inj hx
      have hasked : j.asked = asked := by simp [Job.asked, hg]
      constructor
      · exact hasked.symm.trans_le hj.asked
      · intro _ todo h
        cases h
      · intro _ r todo h
        cases h
      · exact fun _ => ⟨j.membersBegun, hsince, (hasked.symm.trans_le hle).trans (Nat.le_add_right _ _)⟩

theorem Inv.look (hi : Inv accessMaxAge s) (i : ℕ) (hj : Fits accessMaxAge s j) (hp : j.point = .looking) :
    Inv accessMaxAge (s.look i j) := by
  have hgone : Inv accessMaxAge (s.put i none) := hi.put i fun x hx => by cases hx
  unfold State.look
  cases hg : j.goal with
  | start => exact hgone
  | event => exact hgone
  | request userId asked again =>
    have hasked : j.asked = asked := by simp [Job.asked, hg]
    dsimp only
    cases activeOrg ((s.copies .members).elim [] fun c => c.doc.items) userId with
    | none =>
      dsimp only
      split_ifs
      · exact hgone
      · exact hi.refresh i refreshFloor userId (hasked ▸ hj.asked) true fun _ x hx => by cases hx
    | some org =>
      obtain ⟨b, ⟨c, hc, hb⟩, hle⟩ := hj.looking hp
      have hserved : Inv accessMaxAge
          { s with served := s.served ++ [Served.mk userId asked org ((s.copies .members).map Copy.begun)] } := by
        refine ⟨hi.stamp, fun n x hx => (hi.jobs n x hx).frame rfl rfl, fun x hx => ?_⟩
        obtain hx | hx := List.mem_append.mp hx
        · exact hi.served x hx
        · obtain rfl := List.mem_singleton.mp hx
          refine ⟨c.begun, by simp [hc], ?_⟩
          dsimp only
          omega
      exact hserved.put i fun x hx => by cases hx

/-- The next read of a load begins. -/
theorem fits_reading (hj : Fits accessMaxAge s j) {k : Kind} {todo : List Kind} (hp : j.point = .next (k :: todo)) :
    Fits accessMaxAge s { j with point := .reading ⟨k, s.clock, none⟩ todo, membersBegun := if k = .members then s.clock else j.membersBegun } := by
  constructor
  · exact hj.asked
  · intro _ t h
    cases h
  · intro he r t h
    obtain ⟨rfl, rfl⟩ := Point.reading.inj h
    obtain hload | ⟨hnot, hl⟩ := hj.next he _ hp
    · obtain ⟨rfl, rfl⟩ := List.cons.inj hload
      exact ⟨by decide, .inl ⟨rfl, rfl, hj.asked⟩⟩
    · obtain ⟨hk, htodo⟩ := not_or.mp (mt List.mem_cons.mpr hnot)
      refine ⟨htodo, .inr ?_⟩
      simpa [Loaded, Ne.symm hk, Job.asked] using hl
  · intro h
    cases h

theorem Inv.go (hi : Inv accessMaxAge s) (hj : s.jobs i = some j) (ht : Timely accessMaxAge s (.go i)) :
    Inv accessMaxAge (s.go i j) := by
  have hfits := hi.jobs i j hj
  unfold State.go
  cases hp : j.point with
  | next todo =>
    cases todo with
    | nil => exact hi.loaded i hfits hp
    | cons k todo =>
      refine hi.put i fun x hx => ?_
      obtain rfl := Option.some.inj hx
      exact fits_reading hfits hp
  | reading r todo =>
    obtain ⟨kind, begun, found⟩ := r
    cases found with
    | none => exact hi
    | some doc =>
      have hin (h : kind = .members) : InOrder s j.goal doc.version begun := by
        subst h
        exact ht j hj (begun, some doc.version) (by simp [Job.membersRead, hp]) doc.version rfl
      have hsince (b : ℕ) (h : s.Since b) : (s.install ⟨kind, begun, some doc⟩ doc).Since b :=
        since_install (g := j.goal) hin h
      have hclock : s.clock ≤ (s.install ⟨kind, begun, some doc⟩ doc).clock := by
        unfold State.install
        split_ifs
        all_goals exact le_rfl
      refine (hi.install hsince).put i fun x hx => ?_
      obtain rfl := Option.some.inj hx
      constructor
      · exact hfits.asked.trans hclock
      · intro he t h
        obtain rfl := Point.next.inj h
        obtain ⟨hnot, hread | hl⟩ := hfits.reading he _ _ hp
        · obtain ⟨rfl, hb, hle⟩ := hread
          refine .inr ⟨hnot, .inl ⟨?_, hb ▸ hle⟩⟩
          exact hb ▸ since_installed he (hin rfl)
        · exact .inr ⟨hnot, hl.mono hsince⟩
      · intro _ r t h
        cases h
      · intro h
        cases h
  | looking => exact hi.look i hfits hp

/-- Storage has answered, and nothing else is different. -/
theorem fits_answered (hj : Fits accessMaxAge s j) {r : Reading} {todo : List Kind} (hp : j.point = .reading r todo)
    (doc : Document r.kind) : Fits accessMaxAge s { j with point := .reading { r with found := some doc } todo } := by
  constructor
  · exact hj.asked
  · intro _ t h
    cases h
  · intro he r' t h
    obtain ⟨rfl, rfl⟩ := Point.reading.inj h
    exact hj.reading he r todo hp
  · intro h
    cases h

/-- A read fails, which is not one of the members for a request. -/
theorem fits_fails (hj : Fits accessMaxAge s j) {r : Reading} {todo : List Kind} (hp : j.point = .reading r todo)
    (hok : r.kind = .members → j.goal = .start ∨ j.goal = .event) :
    Fits accessMaxAge s { j with point := .next todo, failed := true } := by
  constructor
  · exact hj.asked
  · intro he t h
    obtain rfl := Point.next.inj h
    obtain ⟨hnot, ⟨hk, -, -⟩ | hl⟩ := hj.reading he r _ hp
    · exact .inr ⟨hnot, .inr ⟨(hok hk).resolve_right he, rfl⟩⟩
    · exact .inr ⟨hnot, hl.imp_right fun h => ⟨h.1, rfl⟩⟩
  · intro _ r' t h
    cases h
  · intro h
    cases h

theorem isSome_membersRead {r : Reading} {todo : List Kind} (hp : j.point = .reading r todo) (hk : r.kind = .members) :
    j.membersRead.isSome = true := by
  obtain ⟨kind, begun, found⟩ := r
  obtain rfl : kind = .members := hk
  simp [Job.membersRead, hp]

theorem Inv.step (hi : Inv accessMaxAge s) (e : Event) (ht : Timely accessMaxAge s e) : Inv accessMaxAge (step accessMaxAge s e) := by
  cases e with
  | request i userId =>
    simp only [AccessSnapshots.step]
    split_ifs with h
    · refine hi.refresh i _ userId le_rfl false fun hskip x hx => ?_
      obtain rfl := Option.some.inj hx
      obtain ⟨b, hb, hle⟩ := ht hskip
      constructor
      · exact le_rfl
      · intro _ t h
        cases h
      · intro _ r t h
        cases h
      · exact fun _ => ⟨b, hi.stamp h.1 b hb, hle⟩
    · exact hi
  | configChanged i kind =>
    simp only [AccessSnapshots.step]
    split_ifs
    · refine hi.put i fun x hx => ?_
      obtain rfl := Option.some.inj hx
      constructor
      · exact Nat.zero_le _
      · intro he
        exact absurd rfl he
      · intro he
        exact absurd rfl he
      · intro h
        cases h
    · exact hi
  | answered i =>
    simp only [AccessSnapshots.step]
    cases hj : s.jobs i with
    | none => exact hi
    | some j =>
      dsimp only
      cases hp : j.point with
      | next todo => exact hi
      | looking => exact hi
      | reading r todo =>
        refine hi.put i fun x hx => ?_
        obtain rfl := Option.some.inj hx
        exact fits_answered (hi.jobs i j hj) hp _
  | fails i =>
    simp only [AccessSnapshots.step]
    cases hj : s.jobs i with
    | none => exact hi
    | some j =>
      dsimp only
      cases hp : j.point with
      | next todo => exact hi
      | looking => exact hi
      | reading r todo =>
        refine hi.put i fun x hx => ?_
        obtain rfl := Option.some.inj hx
        exact fits_fails (hi.jobs i j hj) hp fun hk => ht j hj (isSome_membersRead hp hk)
  | go i =>
    simp only [AccessSnapshots.step]
    cases hj : s.jobs i with
    | none => exact hi
    | some j => exact hi.go hj ht
  | write k doc => exact ⟨hi.stamp, fun n x hx => (hi.jobs n x hx).frame rfl rfl, hi.served⟩
  | tick d => exact ⟨hi.stamp, fun n x hx => fits_later (hi.jobs n x hx) d, hi.served⟩

end

/-- However requests, `config.changed` events and refreshes interleave, as long as the steps are
timely every request is let in on members read no longer than the maximum age before it. -/
theorem let_in_fresh (accessMaxAge now : ℕ) (es : List Event) (hm : Meets (step accessMaxAge) (Timely accessMaxAge) (started now) es) :
    Throughout (step accessMaxAge) (AllFresh accessMaxAge) (started now) es := by
  have hinit : Inv accessMaxAge (started now) := by
    refine ⟨fun h => (by cases h), fun i j hj => ?_, fun x hx => (by cases hx)⟩
    have hi : i = 0 := by
      by_contra hi
      simp [started, hi] at hj
    subst hi
    obtain rfl := Option.some.inj hj
    constructor
    · exact Nat.zero_le _
    · intro _ todo h
      exact .inl (Point.next.inj h).symm
    · intro _ r todo h
      cases h
    · intro h
      cases h
  exact (hm.throughout (P := Inv accessMaxAge) (fun s e hs he => hs.step e he) hinit).imp fun s hs => hs.served

def ada : UserAccess := ⟨"ada", "org", [⟨"org", "admin"⟩]⟩

/-- The start, to where the service serves requests. -/
def starts : List Event :=
  [.write .members ⟨1, [ada]⟩, .go 0, .answered 0, .go 0, .go 0, .answered 0, .go 0, .go 0, .answered 0, .go 0, .go 0]

/-- A request of Ada's at the start, and one a minute later that rereads the snapshots. -/
def twoRequests : List Event :=
  starts ++ [.request 1 "ada", .go 1, .tick (60 * second), .request 2 "ada", .go 2, .answered 2, .go 2, .go 2, .answered 2, .go 2,
    .go 2, .answered 2, .go 2, .go 2, .go 2]

theorem two_fresh : Throughout (step 0) (AllFresh 0) (started 0) twoRequests :=
  let_in_fresh 0 0 twoRequests (by decide +kernel)

/-- Ada is removed a second after the start. Half a minute later somebody's request begins a
reread, and hers comes before storage has answered it. -/
def duringReread : List Event :=
  starts ++ [.tick second, .write .members ⟨2, []⟩, .tick (30 * second), .request 1 "bob", .go 1, .request 2 "ada", .go 2]

theorem reread_not_awaited : ¬∀ (accessMaxAge now : ℕ) (es : List Event),
    Throughout (step accessMaxAge) (AllFresh accessMaxAge) (started now) es := by
  intro h
  have hlast := (h 0 0 duringReread).last
  obtain ⟨b, hb, hle⟩ := hlast ⟨"ada", 31 * second, ⟨"org", "admin"⟩, some 0⟩ (List.mem_of_getLast? rfl)
  obtain rfl := Option.some.inj hb
  exact absurd hle (by decide)

end Upstat.AccessSnapshots
