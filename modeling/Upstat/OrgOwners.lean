import Mathlib.Data.List.Basic
import Mathlib.Data.Option.Basic
import Upstat.GuardedRuns
import Upstat.RowLocks

/-! # The owners of an org (`service/accounts.go`, `repository/accounts.go`)

`UpdateMember`, `RemoveMember` and `ClaimInvites` as transactions that take one statement at a
time, and `LockOwners` one row at a time. What they do besides to `users` and the outbox is left
out. Row-level security keeps the first two to the members of the caller's org. -/
namespace Upstat.OrgOwners

open GuardedRuns RowLocks

inductive Role where
  | owner | admin | member | viewer
  deriving DecidableEq

inductive Status where
  | active | invited | disabled
  deriving DecidableEq

/-- A row of `members`, less its id. -/
structure Member where
  orgId : String
  userId : Option String
  email : String
  name : String
  role : Role
  status : Status
  deriving DecidableEq

structure Caller where
  orgId : Option String
  role : Role

structure Error where
  status : ℕ
  code : String
  message : String
  deriving DecidableEq

def invalid (code message : String) : Error := ⟨422, code, message⟩

def notFound (resource : String) : Error := ⟨404, "not_found", resource ++ " not found"⟩

def errForbidden : Error := ⟨403, "forbidden", "Your role does not allow this"⟩

def errNoOrg : Error := ⟨404, "not_found", "Create or join an organization first"⟩

def rank : Role → ℕ
  | .viewer => 1
  | .member => 2
  | .admin => 3
  | .owner => 4

/-- The org a caller of the role may work in. -/
def Caller.can (c : Caller) (min : Role) : Except Error String :=
  match c.orgId with
  | none => .error errNoOrg
  | some org => if rank c.role < rank min then .error errForbidden else .ok org

/-- What a call is to do to a member. -/
inductive Change where
  | update (role : Option Role) (status : Option Status)
  | delete
  deriving DecidableEq

/-- The row after the change's statement. -/
def Change.apply : Change → Member → Option Member
  | .update role status, m => some { m with role := role.getD m.role, status := status.getD m.status }
  | .delete, _ => none

/-- What the call refuses before its transaction. A status is active or disabled. -/
def Change.check : Change → Except Error Unit
  | .update _ status =>
    if status = some .invited then .error (invalid "bad_shape" "status must be active or disabled") else .ok ()
  | .delete => .ok ()

/-- What the call makes of the member it has read, with so many owners locked: the statement that
it goes on to. -/
def Change.decide (owners : ℕ) (m : Member) : Change → Except Error Change
  | .update role status =>
    if m.role = .owner ∧ (role.any (· ≠ .owner) ∨ status.any (· ≠ .active)) ∧ owners ≤ 1 then
      .error (invalid "last_owner" "the org must keep an owner")
    else .ok (.update role (if m.status = .invited then none else status))
  | .delete =>
    if m.role = .owner ∧ owners ≤ 1 then .error (invalid "last_owner" "the org owner cannot be removed") else .ok .delete

/-- How far a call that changes a member has come. -/
inductive Point where
  /-- The rows that `LockOwners` has yet to come to, of those its statement saw, and its count. -/
  | locking (seen : List ℕ) (owners : ℕ)
  | reading (owners : ℕ)
  | writing (statement : Change)
  deriving DecidableEq

inductive Tx where
  | change (org : String) (id : ℕ) (change : Change) (at_ : Point)
  /-- `ClaimInvites`, and the invites of its statement that it has yet to come to. -/
  | claim (userId email name : String) (seen : List ℕ)
  | written
  deriving DecidableEq

structure State where
  db : Table ℕ ℕ Member
  open_ : ℕ → Option Tx
  answer : ℕ → Option (Except Error Unit)

def Member.ownerOf (m : Member) (org : String) : Bool := m.orgId = org ∧ m.role = .owner ∧ m.status = .active

/-- The row is an active owner of the org. -/
def ownerAt (db : Table ℕ ℕ Member) (org : String) (k : ℕ) : Bool := (db.row k).any (·.ownerOf org)

def invitedAt (db : Table ℕ ℕ Member) (email : String) (k : ℕ) : Bool :=
  (db.row k).any fun m => m.email = email ∧ m.status = .invited

def State.put (s : State) (t : ℕ) (db : Table ℕ ℕ Member) (x : Tx) : State :=
  { s with db := db, open_ := Function.update s.open_ t (some x) }

def State.finish (s : State) (t : ℕ) (db : Table ℕ ℕ Member) (a : Except Error Unit) : State :=
  { db := db, open_ := Function.update s.open_ t none, answer := Function.update s.answer t (some a) }

/-- Rolls the transaction back, with an error that is none of the service's. -/
def State.abort (s : State) (t : ℕ) : State := { s with db := s.db.rollback t, open_ := Function.update s.open_ t none }

inductive Call where
  | change (c : Caller) (id : ℕ) (change : Change)
  | claimInvites (userId email name : String)

inductive Event where
  | start (t : ℕ) (c : Call)
  | go (t : ℕ)
  /-- The transaction fails and is rolled back. -/
  | fail (t : ℕ)

section
variable (ids : List ℕ)

/-- `UpdateMember`, `RemoveMember` and `ClaimInvites` up to their first statement, whose snapshot of
the rows is in order of their ids. -/
def start (s : State) (t : ℕ) : Call → State
  | .change c id change =>
    match change.check, c.can .owner with
    | .error e, _ => s.finish t s.db (.error e)
    | .ok _, .error e => s.finish t s.db (.error e)
    | .ok _, .ok org => s.put t s.db (.change org id change (.locking (ids.filter fun k => ownerAt s.db org k) 0))
  | .claimInvites userId email name => s.put t s.db (.claim userId email name (ids.filter fun k => invitedAt s.db email k))

/-- The member of the org with this id. -/
def memberAt (db : Table ℕ ℕ Member) (org : String) (k : ℕ) : Option Member := (db.row k).filter fun m => m.orgId = org

/-- The next step of a transaction. One that comes to a row which another has locked waits. -/
def go (s : State) (t : ℕ) : Tx → State
  | .change org id change (.locking (k :: ks) owners) =>
    if ¬s.db.Free t k then s
    -- A row deleted since is passed over, and one that is no owner any more is locked but not counted.
    else if s.db.row k = none then s.put t s.db (.change org id change (.locking ks owners))
    else s.put t (s.db.take t k) (.change org id change (.locking ks (if ownerAt s.db org k then owners + 1 else owners)))
  | .change org id change (.locking [] owners) => s.put t s.db (.change org id change (.reading owners))
  | .change org id change (.reading owners) =>
    match memberAt s.db org id with
    | none => s.finish t (s.db.rollback t) (.error (notFound "member"))
    | some m =>
      match change.decide owners m with
      | .error e => s.finish t (s.db.rollback t) (.error e)
      | .ok statement => s.put t s.db (.change org id change (.writing statement))
  | .change org id _ (.writing statement) =>
    if ¬s.db.Free t id then s
    else
      match memberAt s.db org id with
      | none => s.abort t
      | some m => s.put t (s.db.write t id (statement.apply m)) .written
  | .claim userId email name (k :: ks) =>
    if ¬s.db.Free t k then s
    else if invitedAt s.db email k then
      s.put t (s.db.write t k ((s.db.row k).map fun m =>
        { m with userId := some userId, status := .active, name := if m.name = "" then name else m.name }))
        (.claim userId email name ks)
    else s.put t s.db (.claim userId email name ks)
  | .claim _ _ _ [] => s.put t s.db .written
  | .written => s.finish t (s.db.commit t) (.ok ())

def step (s : State) : Event → State
  | .start t c => if s.open_ t = none then start ids s t c else s
  | .go t => (s.open_ t).elim s fun x => go s t x
  | .fail t => s.abort t

end

/-- Some row is an active owner of the org. -/
def HasOwner (ids : List ℕ) (org : String) (s : State) : Prop := ∃ k ∈ ids, ownerAt s.db org k = true

instance (ids : List ℕ) (org : String) (s : State) : Decidable (HasOwner ids org s) :=
  inferInstanceAs (Decidable (∃ k ∈ ids, _))

/-! ## What an open call has made sure of -/

/-- An active owner of the org that the transaction has locked. -/
def Held (ids : List ℕ) (db : Table ℕ ℕ Member) (t : ℕ) (org : String) (k : ℕ) : Prop :=
  k ∈ ids ∧ db.lock k = some t ∧ ownerAt db org k = true

/-- The statement ends nobody's being an active owner. -/
def Change.Keeps (c : Change) : Prop := ∀ m org, m.ownerOf org = true → (c.apply m).any (·.ownerOf org) = true

/-- Whoever is no active owner any more by the drafts of the transaction leaves one that it has
locked and not touched. -/
def Harmless (ids : List ℕ) (db : Table ℕ ℕ Member) (t : ℕ) : Prop :=
  ∀ org k r, db.draft t k = some r → ownerAt db org k = true → r.any (·.ownerOf org) = false →
    ∃ l, Held ids db t org l ∧ db.draft t l = none

def Untouched (db : Table ℕ ℕ Member) (t : ℕ) : Prop := ∀ k, db.draft t k = none

/-- So many active owners are locked, none of them still to come to. -/
def Counted (ids : List ℕ) (db : Table ℕ ℕ Member) (t : ℕ) (org : String) (seen : List ℕ) (owners : ℕ) : Prop :=
  ∃ held : List ℕ, held.Nodup ∧ held.length = owners ∧ ∀ k ∈ held, k ∉ seen ∧ Held ids db t org k

def Fits (ids : List ℕ) (db : Table ℕ ℕ Member) (t : ℕ) : Tx → Prop
  | .change org _ _ (.locking seen owners) =>
    Untouched db t ∧ seen.Nodup ∧ (∀ k ∈ seen, k ∈ ids) ∧ Counted ids db t org seen owners
  | .change org _ _ (.reading owners) => Untouched db t ∧ Counted ids db t org [] owners
  | .change org id _ (.writing statement) =>
    Untouched db t ∧ ((∃ k l, k ≠ l ∧ Held ids db t org k ∧ Held ids db t org l) ∨ statement.Keeps ∨ ¬Held ids db t org id)
  | .claim _ _ _ _ => Harmless ids db t
  | .written => Harmless ids db t

section
variable {ids : List ℕ} {db db' : Table ℕ ℕ Member} {t u : ℕ} {org : String}

theorem held_congr (h : db.Undisturbed t db') (k : ℕ) : Held ids db' t org k ↔ Held ids db t org k := by
  constructor
  · rintro ⟨hk, hl, ho⟩
    have hl' := (h.lock k).mp hl
    exact ⟨hk, hl', by rwa [ownerAt, h.row k hl'] at ho⟩
  · rintro ⟨hk, hl, ho⟩
    exact ⟨hk, (h.lock k).mpr hl, by rwa [ownerAt, h.row k hl]⟩

theorem Untouched.frame (h : db.Undisturbed t db') (hu : Untouched db t) : Untouched db' t := fun k => by rw [h.draft, hu k]

theorem Counted.frame (h : db.Undisturbed t db') {seen : List ℕ} {owners : ℕ} (hc : Counted ids db t org seen owners) :
    Counted ids db' t org seen owners := by
  obtain ⟨held, hnd, hlen, hheld⟩ := hc
  exact ⟨held, hnd, hlen, fun k hk => ⟨(hheld k hk).1, (held_congr h k).mpr (hheld k hk).2⟩⟩

theorem Harmless.frame (hs : db.Sound) (h : db.Undisturbed t db') (hh : Harmless ids db t) : Harmless ids db' t := by
  intro org k r hr ho hno
  rw [h.draft] at hr
  rw [ownerAt, h.row k (hs t k r hr)] at ho
  obtain ⟨l, hl, hd⟩ := hh org k r hr ho hno
  exact ⟨l, (held_congr h l).mpr hl, by rw [h.draft, hd]⟩

theorem Fits.frame (hs : db.Sound) (h : db.Undisturbed t db') {x : Tx} (hx : Fits ids db t x) : Fits ids db' t x := by
  cases x with
  | change org id change at_ =>
    cases at_ with
    | locking seen owners => exact ⟨hx.1.frame h, hx.2.1, hx.2.2.1, hx.2.2.2.frame h⟩
    | reading owners => exact ⟨hx.1.frame h, hx.2.frame h⟩
    | writing statement => exact ⟨hx.1.frame h, by simpa only [held_congr h] using hx.2⟩
  | claim userId email name seen => exact Harmless.frame hs h hx
  | written => exact Harmless.frame hs h hx

theorem Untouched.harmless (hu : Untouched db t) : Harmless ids db t := fun org k r hr => by simp [hu k] at hr

end

theorem keeps_update {role : Option Role} {status : Option Status} (hrole : ∀ r ∈ role, r = .owner)
    (hstatus : ∀ r ∈ status, r = .active) : (Change.update role status).Keeps := by
  intro m org hm
  simp only [Member.ownerOf, decide_eq_true_eq] at hm
  have hrole' : role.getD m.role = .owner := by
    cases role with
    | none => exact hm.2.1
    | some r => exact hrole r rfl
  have hstatus' : status.getD m.status = .active := by
    cases status with
    | none => exact hm.2.2
    | some r => exact hstatus r rfl
  simp only [Change.apply, Option.any_some, Member.ownerOf, decide_eq_true_eq]
  exact ⟨hm.1, hrole', hstatus'⟩

/-- A call goes on to its statement with two owners locked, or for a member that is no owner, or
with a statement that ends nobody's being one. -/
theorem decide_ok {owners : ℕ} {m : Member} {change statement : Change} (h : change.decide owners m = .ok statement) :
    2 ≤ owners ∨ m.role ≠ .owner ∨ statement.Keeps := by
  by_cases hm : m.role = .owner
  swap
  · exact .inr (.inl hm)
  by_cases ho : owners ≤ 1
  swap
  · exact .inl (by omega)
  cases change with
  | delete => simp [Change.decide, hm, ho] at h
  | update role status =>
    simp only [Change.decide] at h
    split at h
    · cases h
    · rename_i hlosing
      obtain rfl := Except.ok.inj h
      have hnot : ¬(role.any (· ≠ .owner) ∨ status.any (· ≠ .active)) := fun hl => hlosing ⟨hm, hl, ho⟩
      obtain ⟨hrole, hstatus⟩ := not_or.mp hnot
      refine .inr (.inr (keeps_update (fun r hr => ?_) fun r hr => ?_))
      · obtain rfl := hr
        simpa using hrole
      · split at hr
        · cases hr
        · obtain rfl := hr
          simpa using hstatus

/-! ## Runs -/

/-- A statement that is about to end a member's being an active owner finds that its transaction
holds the lock of an active owner. -/
def Backed (ids : List ℕ) (db : Table ℕ ℕ Member) (t : ℕ) : Tx → Prop
  | .change org id _ (.writing statement) =>
    ownerAt db org id = true → ((db.row id).bind statement.apply).any (·.ownerOf org) = false →
      ∃ k ∈ ids, db.lock k = some t ∧ ownerAt db org k = true
  | _ => True

instance (ids : List ℕ) (db : Table ℕ ℕ Member) (t : ℕ) : (x : Tx) → Decidable (Backed ids db t x)
  | .change _ _ _ (.writing _) => inferInstanceAs (Decidable (_ → _ → ∃ k ∈ ids, _))
  | .change _ _ _ (.locking _ _) | .change _ _ _ (.reading _) | .claim _ _ _ _ | .written => isTrue trivial

def AllBacked (ids : List ℕ) (s : State) : Event → Prop
  | .go t => ∀ x ∈ s.open_ t, Backed ids s.db t x
  | .start _ _ | .fail _ => True

instance (ids : List ℕ) (s : State) : (e : Event) → Decidable (AllBacked ids s e)
  | .go t => inferInstanceAs (Decidable (∀ x ∈ s.open_ t, _))
  | .start _ _ | .fail _ => isTrue trivial

structure Inv (ids : List ℕ) (s : State) : Prop where
  sound : s.db.Sound
  idle : ∀ t, s.open_ t = none → Untouched s.db t
  fits : ∀ t x, s.open_ t = some x → Fits ids s.db t x

section
variable {ids : List ℕ} {s : State} {t : ℕ} {db' : Table ℕ ℕ Member}

/-- A step of one transaction that leaves the others undisturbed. -/
theorem Inv.put (hi : Inv ids s) (hs : db'.Sound) (hother : ∀ u, u ≠ t → s.db.Undisturbed u db') {x : Tx}
    (hx : Fits ids db' t x) : Inv ids (s.put t db' x) where
  sound := hs
  idle u hu := by
    by_cases h : u = t
    · simp [State.put, h] at hu
    · exact (hi.idle u (by simpa [State.put, h] using hu)).frame (hother u h)
  fits u y hy := by
    by_cases h : u = t
    · subst h
      have : x = y := by simpa [State.put] using hy
      exact this ▸ hx
    · exact (hi.fits u y (by simpa [State.put, h] using hy)).frame hi.sound (hother u h)

theorem Inv.end_ (hi : Inv ids s) (hs : db'.Sound) (hother : ∀ u, u ≠ t → s.db.Undisturbed u db') (ht : Untouched db' t)
    (answer : ℕ → Option (Except Error Unit)) : Inv ids ⟨db', Function.update s.open_ t none, answer⟩ where
  sound := hs
  idle u hu := by
    by_cases h : u = t
    · exact h ▸ ht
    · exact (hi.idle u (by simpa [h] using hu)).frame (hother u h)
  fits u y hy := by
    by_cases h : u = t
    · simp [h] at hy
    · exact (hi.fits u y (by simpa [h] using hy)).frame hi.sound (hother u h)

theorem Inv.rollback (hi : Inv ids s) (t : ℕ) (answer : ℕ → Option (Except Error Unit)) :
    Inv ids ⟨s.db.rollback t, Function.update s.open_ t none, answer⟩ :=
  hi.end_ hi.sound.rollback (fun _ hu => .rollback hu) (fun _ => Table.draft_rollback_self) answer

theorem Inv.start (hi : Inv ids s) (hids : ids.Pairwise (· < ·)) (hidle : s.open_ t = none) (c : Call) :
    Inv ids (start ids s t c) := by
  have hself (u : ℕ) (_ : u ≠ t) : s.db.Undisturbed u s.db := ⟨rfl, fun _ => Iff.rfl, fun _ _ => rfl⟩
  have hfinish (e : Error) : Inv ids (s.finish t s.db (.error e)) := hi.end_ hi.sound hself (hi.idle t hidle) _
  have hnd : ids.Nodup := hids.imp fun h => Nat.ne_of_lt h
  cases c with
  | change c id change =>
    simp only [OrgOwners.start]
    cases change.check with
    | error e => exact hfinish e
    | ok _ =>
      cases c.can .owner with
      | error e => exact hfinish e
      | ok org =>
        exact hi.put hi.sound hself ⟨hi.idle t hidle, hnd.filter _, fun k hk => (List.mem_filter.mp hk).1,
          [], .nil, rfl, by simp⟩
  | claimInvites userId email name => exact hi.put hi.sound hself (hi.idle t hidle).harmless

theorem Held.take {db : Table ℕ ℕ Member} {org : String} {l : ℕ} (h : Held ids db t org l) (k : ℕ) :
    Held ids (db.take t k) t org l := ⟨h.1, Table.lock_take_of_held h.2.1, h.2.2⟩

theorem Held.write {db : Table ℕ ℕ Member} {org : String} {l : ℕ} (h : Held ids db t org l) (k : ℕ) (r : Option Member) :
    Held ids (db.write t k r) t org l := h.take k

theorem memberAt_some {db : Table ℕ ℕ Member} {org : String} {k : ℕ} {m : Member} (h : memberAt db org k = some m) :
    db.row k = some m ∧ m.orgId = org := by
  obtain ⟨hrow, horg⟩ := Option.filter_eq_some_iff.mp h
  exact ⟨hrow, by simpa using horg⟩

/-- The rows that `LockOwners` comes to: one more is locked, and counted if it still is an owner. -/
theorem Counted.take {db : Table ℕ ℕ Member} {org : String} {k owners : ℕ} {ks : List ℕ} (hk : k ∈ ids) (hks : k ∉ ks)
    (hc : Counted ids db t org (k :: ks) owners) :
    Counted ids (db.take t k) t org ks (if ownerAt db org k then owners + 1 else owners) := by
  obtain ⟨held, hnd, hlen, hheld⟩ := hc
  have hrest (l : ℕ) (hl : l ∈ held) : l ∉ ks ∧ Held ids (db.take t k) t org l :=
    ⟨fun h => (hheld l hl).1 (List.mem_cons_of_mem k h), (hheld l hl).2.take k⟩
  split_ifs with howner
  · refine ⟨k :: held, List.nodup_cons.mpr ⟨fun h => (hheld k h).1 List.mem_cons_self, hnd⟩, by simp [hlen], fun l hl => ?_⟩
    obtain rfl | hl := List.mem_cons.mp hl
    · exact ⟨hks, hk, Table.lock_take_self, howner⟩
    · exact hrest l hl
  · exact ⟨held, hnd, hlen, hrest⟩

/-- What a call that has read its member has made sure of. -/
theorem Counted.writing {db : Table ℕ ℕ Member} {org : String} {id owners : ℕ} {change statement : Change} {m : Member}
    (hc : Counted ids db t org [] owners) (hm : memberAt db org id = some m) (hd : change.decide owners m = .ok statement) :
    (∃ k l, k ≠ l ∧ Held ids db t org k ∧ Held ids db t org l) ∨ statement.Keeps ∨ ¬Held ids db t org id := by
  obtain ⟨hrow, -⟩ := memberAt_some hm
  obtain ⟨held, hnd, hlen, hheld⟩ := hc
  obtain htwo | hrole | hkeeps := decide_ok hd
  · obtain ⟨k, l, rest, rfl⟩ : ∃ k l rest, held = k :: l :: rest := by
      match held, hlen with
      | [], h => simp at h; omega
      | [k], h => simp at h; omega
      | k :: l :: rest, _ => exact ⟨k, l, rest, rfl⟩
    refine .inl ⟨k, l, fun h => ?_, (hheld k (by simp)).2, (hheld l (by simp)).2⟩
    simp [h] at hnd
  · refine .inr (.inr fun hh => hrole ?_)
    have howner := hh.2.2
    simp only [ownerAt, hrow, Option.any_some, Member.ownerOf, decide_eq_true_eq] at howner
    exact howner.2.1
  · exact .inr (.inl hkeeps)

/-- The statement leaves an owner that the transaction has locked. -/
theorem harmless_write {db : Table ℕ ℕ Member} {org : String} {id : ℕ} {change statement : Change} {m : Member}
    (hx : Fits ids db t (.change org id change (.writing statement))) (hb : Backed ids db t (.change org id change (.writing statement)))
    (hm : memberAt db org id = some m) : Harmless ids (db.write t id (statement.apply m)) t := by
  obtain ⟨hrow, horg⟩ := memberAt_some hm
  obtain ⟨hu, hsafe⟩ := hx
  intro org' k r hr ho hno
  rw [Table.draft_write_self] at hr
  have hk : k = id := by
    by_contra hk
    rw [Function.update_of_ne hk, hu k] at hr
    cases hr
  subst hk
  obtain rfl : statement.apply m = r := by simpa using hr
  have hmo : m.ownerOf org' = true := by simpa [ownerAt, hrow] using ho
  obtain rfl : org = org' := by
    simp only [Member.ownerOf, decide_eq_true_eq] at hmo
    exact horg.symm.trans hmo.1
  have hleft {l : ℕ} (hl : Held ids db t org l) (hne : l ≠ k) :
      ∃ l, Held ids (db.write t k (statement.apply m)) t org l ∧ (db.write t k (statement.apply m)).draft t l = none :=
    ⟨l, hl.write k _, by rw [Table.draft_write_self, Function.update_of_ne hne, hu l]⟩
  obtain ⟨a, b, hab, ha, hb'⟩ | hkeeps | hnot := hsafe
  · by_cases hak : a = k
    · exact hleft hb' fun h => hab (hak.trans h.symm)
    · exact hleft ha hak
  · exact absurd (hkeeps m org hmo) (by simp [hno])
  · obtain ⟨l, hl, hlock, howner⟩ := hb ho (by simpa [hrow] using hno)
    have hheld : Held ids db t org l := ⟨hl, hlock, howner⟩
    exact hleft hheld fun h => hnot (h ▸ hheld)

/-- An invite that is claimed was no active owner. -/
theorem Harmless.claim {db : Table ℕ ℕ Member} (hh : Harmless ids db t) {email : String} {k : ℕ} (hk : invitedAt db email k = true)
    (r : Option Member) : Harmless ids (db.write t k r) t := by
  have hinvited (org : String) : ownerAt db org k = false := by
    cases hrow : db.row k with
    | none => simp [ownerAt, hrow]
    | some m =>
      have hm : m.email = email ∧ m.status = .invited := by simpa [invitedAt, hrow] using hk
      simp [ownerAt, hrow, Member.ownerOf, hm.2]
  intro org l r' hr ho hno
  change ownerAt db org l = true at ho
  have hlk : l ≠ k := by
    rintro rfl
    simp [hinvited org] at ho
  rw [Table.draft_write_self, Function.update_of_ne hlk] at hr
  obtain ⟨j, hj, hd⟩ := hh org l r' hr ho hno
  have hjk : j ≠ k := by
    rintro rfl
    simp [Held, hinvited org] at hj
  exact ⟨j, hj.write k r, by rw [Table.draft_write_self, Function.update_of_ne hjk, hd]⟩

theorem Inv.go (hi : Inv ids s) {x : Tx} (ht : s.open_ t = some x) (hb : Backed ids s.db t x) : Inv ids (go s t x) := by
  have hx := hi.fits t x ht
  have hself (u : ℕ) (_ : u ≠ t) : s.db.Undisturbed u s.db := ⟨rfl, fun _ => Iff.rfl, fun _ _ => rfl⟩
  cases x with
  | change org id change at_ =>
    cases at_ with
    | locking seen owners =>
      obtain ⟨hu, hnd, hids, hc⟩ := hx
      cases seen with
      | nil => exact hi.put hi.sound hself ⟨hu, hc⟩
      | cons k ks =>
        rw [OrgOwners.go]
        obtain ⟨hk, hks⟩ := List.nodup_cons.mp hnd
        by_cases hf : s.db.Free t k
        swap
        · rw [if_pos hf]
          exact hi
        rw [if_neg (not_not.mpr hf)]
        by_cases hrow : s.db.row k = none
        · rw [if_pos hrow]
          obtain ⟨held, hheld, hlen, hall⟩ := hc
          exact hi.put hi.sound hself ⟨hu, hks, fun l hl => hids l (List.mem_cons_of_mem k hl), held, hheld, hlen,
            fun l hl => ⟨fun h => (hall l hl).1 (List.mem_cons_of_mem k h), (hall l hl).2⟩⟩
        · rw [if_neg hrow]
          exact hi.put (hi.sound.take hf) (fun u h => .take hf h)
            ⟨hu, hks, fun l hl => hids l (List.mem_cons_of_mem k hl), hc.take (hids k List.mem_cons_self) hk⟩
    | reading owners =>
      rw [OrgOwners.go]
      obtain ⟨hu, hc⟩ := hx
      cases hm : memberAt s.db org id with
      | none => exact hi.rollback t _
      | some m =>
        cases hd : change.decide owners m with
        | error e =>
          simp only [hd]
          exact hi.rollback t _
        | ok statement =>
          simp only [hd]
          exact hi.put hi.sound hself ⟨hu, hc.writing hm hd⟩
    | writing statement =>
      rw [OrgOwners.go]
      split_ifs with hf
      · cases hm : memberAt s.db org id with
        | none => exact hi.rollback t _
        | some m => exact hi.put (hi.sound.write hf) (fun u h => .write hf h) (harmless_write hx hb hm)
      · exact hi
  | claim userId email name seen =>
    cases seen with
    | nil => exact hi.put hi.sound hself hx
    | cons k ks =>
      rw [OrgOwners.go]
      split_ifs with hf hinvited
      · exact hi.put (hi.sound.write hf) (fun u h => .write hf h) (Harmless.claim hx hinvited _)
      · exact hi.put hi.sound hself hx
      · exact hi
  | written => exact hi.end_ hi.sound.commit (fun u h => .commit hi.sound h) (fun _ => Table.draft_commit_self) _

theorem Inv.step (hids : ids.Pairwise (· < ·)) (hi : Inv ids s) {e : Event} (he : AllBacked ids s e) : Inv ids (step ids s e) := by
  cases e with
  | start t c =>
    rw [OrgOwners.step]
    split_ifs with hidle
    · exact hi.start hids hidle c
    · exact hi
  | go t =>
    rw [OrgOwners.step]
    cases ht : s.open_ t with
    | none => exact hi
    | some x => exact hi.go ht (he x ht)
  | fail t => exact hi.rollback t _

/-- Only a commit changes rows, and it leaves an owner. -/
theorem HasOwner.step (hi : Inv ids s) {org : String} (ho : HasOwner ids org s) (e : Event) : HasOwner ids org (step ids s e) := by
  have hrow {s' : State} (h : s'.db.row = s.db.row) : HasOwner ids org s' := by
    obtain ⟨k, hk, howner⟩ := ho
    exact ⟨k, hk, by rwa [ownerAt, h]⟩
  cases e with
  | start t c =>
    rw [OrgOwners.step]
    split_ifs
    · cases c with
      | change c id change =>
        simp only [OrgOwners.start]
        cases change.check with
        | error e => exact hrow rfl
        | ok _ =>
          cases c.can .owner with
          | error e => exact hrow rfl
          | ok org => exact hrow rfl
      | claimInvites userId email name => exact hrow rfl
    · exact ho
  | go t =>
    rw [OrgOwners.step]
    cases ht : s.open_ t with
    | none => exact ho
    | some x =>
      rw [Option.elim_some]
      cases x with
      | change org' id change at_ =>
        cases at_ with
        | locking seen owners =>
          cases seen with
          | nil => exact hrow rfl
          | cons k ks =>
            rw [OrgOwners.go]
            split_ifs <;> exact hrow rfl
        | reading owners =>
          rw [OrgOwners.go]
          cases memberAt s.db org' id with
          | none => exact hrow rfl
          | some m =>
            cases hd : change.decide owners m <;> simp only [hd] <;> exact hrow rfl
        | writing statement =>
          rw [OrgOwners.go]
          split_ifs
          · cases memberAt s.db org' id <;> exact hrow rfl
          · exact ho
      | claim userId email name seen =>
        cases seen with
        | nil => exact hrow rfl
        | cons k ks =>
          rw [OrgOwners.go]
          split_ifs <;> exact hrow rfl
      | written =>
        have hharmless : Harmless ids s.db t := hi.fits t .written ht
        have hcommit (l : ℕ) : (s.db.commit t).row l = (s.db.draft t l).getD (s.db.row l) := rfl
        obtain ⟨k, hk, howner⟩ := ho
        cases hd : s.db.draft t k with
        | none => exact ⟨k, hk, by rw [OrgOwners.go, State.finish, ownerAt, hcommit, hd]; exact howner⟩
        | some r =>
          cases hr : r.any (·.ownerOf org) with
          | true => exact ⟨k, hk, by rw [OrgOwners.go, State.finish, ownerAt, hcommit, hd]; exact hr⟩
          | false =>
            obtain ⟨l, hl, hdl⟩ := hharmless org k r hd howner hr
            exact ⟨l, hl.1, by rw [OrgOwners.go, State.finish, ownerAt, hcommit, hdl]; exact hl.2.2⟩
  | fail t => exact hrow rfl

end

/-- The members before any call is made. -/
def initial (rows : ℕ → Option Member) : State where
  db := { row := rows, lock := fun _ => none, draft := fun _ _ => none }
  open_ := fun _ => none
  answer := fun _ => none

theorem inv_initial (ids : List ℕ) (rows : ℕ → Option Member) : Inv ids (initial rows) where
  sound := by simp [Table.Sound, initial]
  idle := by simp [Untouched, initial]
  fits := by simp [initial]

/-- Whatever calls are made and however they interleave, the org keeps an active owner, if no
statement ends a member's being one while its transaction holds the lock of no active owner. -/
theorem owner_kept {ids : List ℕ} (hids : ids.Pairwise (· < ·)) (rows : ℕ → Option Member) (org : String)
    (ho : HasOwner ids org (initial rows)) (es : List Event) (hm : Meets (step ids) (AllBacked ids) (initial rows) es) :
    Throughout (step ids) (HasOwner ids org) (initial rows) es :=
  (hm.throughout (P := fun s => Inv ids s ∧ HasOwner ids org s) (fun _ e hs he => ⟨hs.1.step hids he, hs.2.step hs.1 e⟩)
    ⟨inv_initial ids rows, ho⟩).imp fun _ hs => hs.2

/-! ## Runs on an org of four -/

def acme (role : Role) (email : String) : Member := ⟨"acme", some email, email, email, role, .active⟩

/-- Ada is the owner, Bob an admin and Cyd a member, and Dan is invited. -/
def acmeRows : ℕ → Option Member
  | 0 => some (acme .owner "ada")
  | 1 => some (acme .admin "bob")
  | 2 => some (acme .member "cyd")
  | 3 => some { acme .viewer "dan" with userId := none, status := .invited }
  | _ => none

def anOwner : Caller := ⟨some "acme", .owner⟩

def update (t id : ℕ) (role : Role) : Event := .start t (.change anOwner id (.update (some role) none))

def remove (t id : ℕ) : Event := .start t (.change anOwner id .delete)

/-- A transaction that takes so many steps. -/
def goes (t n : ℕ) : List Event := List.replicate n (.go t)

/-- Ada and Bob, owners both, remove each other at once, and Dan's invite is claimed. -/
def bothRemove : List Event :=
  update 0 1 .owner :: goes 0 5 ++ [remove 1 1, remove 2 0, .start 3 (.claimInvites "d" "dan" "Dan")] ++
    goes 1 2 ++ goes 2 2 ++ goes 1 4 ++ goes 2 4 ++ goes 3 3

theorem both_remove_kept : Throughout (step [0, 1, 2, 3]) (HasOwner [0, 1, 2, 3] "acme") (initial acmeRows) bothRemove :=
  owner_kept (by decide) acmeRows "acme" (by decide +kernel) bothRemove (by decide +kernel)

/-- Ada's call to make Cyd a viewer has seen Ada as the only owner. Before it comes to lock her,
Bob is made an owner and removes her, and while it has read Cyd as a member, Cyd is made the
owner and removes Bob. -/
def allReplaced : List Event :=
  update 0 2 .viewer :: update 1 1 .owner :: goes 1 5 ++ remove 2 0 :: goes 2 6 ++ goes 0 3 ++
    update 3 2 .owner :: goes 3 5 ++ remove 4 1 :: goes 4 6 ++ goes 0 2

theorem all_replaced_without_owner :
    HasOwner [0, 1, 2, 3] "acme" (initial acmeRows) ∧ ¬HasOwner [0, 1, 2, 3] "acme" (run (step [0, 1, 2, 3]) (initial acmeRows) allReplaced) := by
  decide +kernel

end Upstat.OrgOwners
