import Mathlib.Data.List.Sort
import Mathlib.Order.Nat
import Upstat.GuardedRuns
import Upstat.RowLocks

/-! # The outbox and its publishers (`internal/outbox`, `repository/outbox.go`, `pkg/snapshot`)

Transactions that change config and queue events, `PublishBatch` and `WriteAll`, each statement and
each call to the store or to Kafka by itself, in any number at once. What is stored of a config
kind is of any type. -/
namespace Upstat.OutboxPublisher

open RowLocks

def batchSize : ℕ := 100
def maxAttempts : ℕ := 3
def configChanged : String := "upstat.config.changed"

def allKinds : List String := ["orgs", "members", "ingest_keys", "monitors", "rules", "channels", "registry", "slos"]

/-- A row of the outbox, and when it was committed, in steps. -/
structure Row where
  event : String
  key : String
  requestId : String
  payload : String
  published : Bool
  failed : Bool
  failure : String
  attempts : ℕ
  committed : ℕ
  deriving DecidableEq

def Row.isConfig (r : Row) : Bool := r.event = configChanged

def Row.pending (r : Row) : Bool := !r.published && !r.failed

/-- The row as `MarkPublished` and `MarkFailedOutbox` leave it. -/
def Row.publish (r : Row) : Row := { r with published := true }

def Row.fail (r : Row) (cause : String) : Row := { r with failed := true, failure := cause, attempts := r.attempts + 1 }

def newRow (event key requestId payload : String) (committed : ℕ) : Row :=
  ⟨event, key, requestId, payload, false, false, "", 0, committed⟩

/-- A stored snapshot, and when it was written. -/
structure Document (I : Type) where
  version : ℕ
  items : I
  written : ℕ

inductive Payload where
  | text (payload : String)
  | snapshot (kind : String) (version : ℕ)
  deriving DecidableEq

/-- A message with the row it is made of and, for a `config.changed`, when its snapshot was written. -/
structure Message where
  rowId : ℕ
  event : String
  key : String
  requestId : String
  payload : Payload
  written : Option ℕ
  deriving DecidableEq

/-- What a transaction has yet to do: a row to publish, or a kind that `WriteAll` is to rewrite. -/
inductive Work where
  | row (id : ℕ) (r : Row)
  | kind (k : String)

/-- The kind whose snapshot lock the work needs. -/
def Work.kind? : Work → Option String
  | .row _ r => if r.isConfig then some r.key else none
  | .kind k => some k

/-- Where a publisher has come to: the kinds it has yet to lock, the loop's head, the read and the
write of the stored snapshot in a rewrite, `Message` for the row at hand, Kafka's `Write`, and
`MarkPublished` with the commit. -/
inductive Point (I : Type) where
  | locking (kinds : List String)
  | next
  | getting (k : String) (items : I)
  | putting (k : String) (items : I) (version : ℕ)
  | messaging (payload : Payload) (written : Option ℕ)
  | writing
  | marking

structure Batch (I : Type) where
  point : Point I
  todo : List Work
  rewritten : List String
  msgs : List Message
  ids : List ℕ

/-- `queued` has the content of each kind at the last committed change that was queued, `known` the
ids of all rows that were committed, and `puts` the versions that were stored of a kind, in order. -/
structure State (I : Type) where
  time : ℕ
  db : String → I
  queued : String → Option I
  outbox : Table ℕ ℕ Row
  known : List ℕ
  locks : String → Option ℕ
  stored : String → Option (Document I)
  puts : String → List ℕ
  batches : ℕ → Option (Batch I)
  acked : List Message

/-- A transaction's change to a kind, with the `config.changed` it queues, or another event it queues. -/
inductive Write (I : Type) where
  | config (id : ℕ) (kind requestId : String) (items : I)
  | event (id : ℕ) (event key requestId payload : String)

/-- What a step meets with: a call or a statement fails, before or after it has had its effect; the
time; and why the contract refuses the message. -/
structure Input where
  failed : Bool := false
  lost : Bool := false
  now : ℕ := 0
  refused : Option String := none

inductive Event (I : Type) where
  | commit (writes : List (Write I))
  /-- `PublishBatch`, whose claim comes upon these rows. -/
  | publish (p : ℕ) (seen : List ℕ)
  | writeAll (p : ℕ)
  | go (p : ℕ) (inp : Input)
  /-- The publisher dies, and its transaction is rolled back. -/
  | die (p : ℕ)
  | requeue (id : ℕ)

section
variable {I : Type} (s : State I)

def State.put (p : ℕ) (x : Option (Batch I)) : State I := { s with batches := Function.update s.batches p x }

/-- The end of a transaction, as far as its snapshot locks go. -/
def State.release (p : ℕ) : State I :=
  { s with locks := fun k => if s.locks k = some p then none else s.locks k, batches := Function.update s.batches p none }

def State.rollback (p : ℕ) : State I := { s.release p with outbox := s.outbox.rollback p }

def State.commit (p : ℕ) : State I := { s.release p with outbox := s.outbox.commit p }

/-! ## Transactions that queue events -/

def State.insert (id : ℕ) (r : Row) : State I :=
  { s with outbox := { s.outbox with row := Function.update s.outbox.row id (some r) }, known := s.known ++ [id] }

def State.vacant (id : ℕ) : Bool := (s.outbox.row id).isNone && (s.outbox.lock id).isNone

def State.write : Write I → State I
  | .config id kind requestId items =>
    if s.vacant id then
      { s with db := Function.update s.db kind items, queued := Function.update s.queued kind (some items) }.insert id
        (newRow configChanged kind requestId kind s.time)
    else s
  | .event id event key requestId payload =>
    if s.vacant id ∧ event ≠ configChanged then s.insert id (newRow event key requestId payload s.time) else s

/-- `RequeueFailedOutbox`, for a row. -/
def State.requeue (id : ℕ) : State I :=
  match s.outbox.row id with
  | none => s
  | some r =>
    if r.failed ∧ !r.published ∧ r.attempts < maxAttempts ∧ (s.outbox.lock id).isNone then
      { s with outbox := { s.outbox with row := Function.update s.outbox.row id (some { r with failed := false }) } }
    else s

/-! ## Publishers -/

def State.claimable (id : ℕ) : Bool := (s.outbox.row id).any Row.pending && (s.outbox.lock id).isNone

/-- `ClaimOutbox`, of the rows that it comes upon. -/
def State.claims (seen : List ℕ) : List ℕ := ((seen.eraseDups.filter s.claimable).insertionSort (· ≤ ·)).take batchSize

/-- The rows of a claim, as work to do. -/
def State.workOf (claimed : List ℕ) : List Work := claimed.filterMap fun id => (s.outbox.row id).map (Work.row id)

/-- A publisher that has claimed these rows. -/
def State.batchOf (claimed : List ℕ) : Batch I :=
  ⟨.locking (((s.workOf claimed).filterMap Work.kind?).insertionSort (· ≤ ·)), s.workOf claimed, [], [], []⟩

/-- `PublishBatch` up to its claim. -/
def State.publish (p : ℕ) (seen : List ℕ) : State I :=
  let claimed := s.claims seen
  if claimed.isEmpty then s
  else { s with outbox := s.outbox.takeAll p claimed }.put p (some (s.batchOf claimed))

def State.writeAll (p : ℕ) : State I :=
  s.put p (some ⟨.locking (allKinds.insertionSort (· ≤ ·)), allKinds.map .kind, [], [], []⟩)

/-- `SnapshotItems` -/
def State.read (p : ℕ) (x : Batch I) (k : String) (inp : Input) : State I :=
  if inp.failed then s.rollback p else s.put p (some { x with point := .getting k (s.db k) })

/-- The head of the loop over the rows, or over the kinds. -/
def State.next (p : ℕ) (x : Batch I) (inp : Input) : State I :=
  match x.todo with
  | [] => s.put p (some { x with point := if x.msgs.isEmpty then .marking else .writing })
  | .kind k :: _ => s.read p x k inp
  | .row id r :: todo =>
    if r.isConfig then
      if r.key ∈ x.rewritten then s.put p (some { x with todo := todo, ids := x.ids ++ [id] })
      else s.read p x r.key inp
    else s.put p (some { x with point := .messaging (.text r.payload) none })

/-- The version of a snapshot that is written now, which is above the stored one. -/
def versionOf (stored : Option (Document I)) (now : ℕ) : ℕ :=
  match stored with
  | none => now
  | some old => if now ≤ old.version then old.version + 1 else now

/-- What a publisher goes on with when it has written a snapshot. -/
def Batch.wrote (x : Batch I) (k : String) (version written : ℕ) : Batch I :=
  let x := { x with rewritten := k :: x.rewritten }
  match x.todo with
  | .row _ _ :: _ => { x with point := .messaging (.snapshot k version) (some written) }
  | .kind _ :: todo => { x with point := .next, todo := todo }
  | [] => { x with point := .next }

def State.store (k : String) (doc : Document I) : State I :=
  { s with stored := Function.update s.stored k (some doc), puts := Function.update s.puts k (s.puts k ++ [doc.version]) }

/-- `Message`, and what comes of its row. -/
def State.message (p : ℕ) (x : Batch I) (payload : Payload) (written : Option ℕ) (inp : Input) : State I :=
  match x.todo with
  | .row id r :: todo =>
    if inp.failed then s.rollback p
    else
      match inp.refused with
      | some cause => { s with outbox := s.outbox.write p id (some (r.fail cause)) }.put p (some { x with point := .next, todo := todo })
      | none =>
        s.put p (some { x with
          point := .next
          todo := todo
          msgs := x.msgs ++ [⟨id, r.event, r.key, r.requestId, payload, written⟩]
          ids := x.ids ++ [id] })
  | .kind _ :: _ | [] => s

def markPublished (db : Table ℕ ℕ Row) (p : ℕ) (ids : List ℕ) : Table ℕ ℕ Row :=
  ids.foldl (fun db id => db.write p id ((db.row id).map Row.publish)) db

def State.go (p : ℕ) (x : Batch I) (inp : Input) : State I :=
  match x.point with
  | .locking [] => s.put p (some { x with point := .next })
  | .locking (k :: kinds) =>
    if inp.failed then s.rollback p
    else if (s.locks k).all (· = p) then
      { s with locks := Function.update s.locks k (some p) }.put p (some { x with point := .locking kinds })
    else s
  | .next => s.next p x inp
  | .getting k items =>
    if inp.failed then s.rollback p else s.put p (some { x with point := .putting k items (versionOf (s.stored k) inp.now) })
  | .putting k items version =>
    if inp.failed then s.rollback p
    else if inp.lost then (s.store k ⟨version, items, s.time⟩).rollback p
    else (s.store k ⟨version, items, s.time⟩).put p (some (x.wrote k version s.time))
  | .messaging payload written => s.message p x payload written inp
  | .writing =>
    if inp.failed ∨ inp.lost then s.rollback p
    else { s with acked := s.acked ++ x.msgs }.put p (some { x with point := .marking })
  | .marking => if inp.failed then s.rollback p else { s with outbox := markPublished s.outbox p x.ids }.commit p

def State.act : Event I → State I
  | .commit writes => writes.foldl State.write s
  | .publish p seen => if (s.batches p).isSome then s else s.publish p seen
  | .writeAll p => if (s.batches p).isSome then s else s.writeAll p
  | .go p inp => (s.batches p).elim s fun x => s.go p x inp
  | .die p => s.rollback p
  | .requeue id => s.requeue id

def step (e : Event I) : State I := { s.act e with time := s.time + 1 }

end

/-- Nothing is queued or stored yet. -/
def initial {I : Type} (db : String → I) : State I where
  time := 0
  db := db
  queued _ := none
  outbox := ⟨fun _ => none, fun _ => none, fun _ _ => none⟩
  known := []
  locks _ := none
  stored _ := none
  puts _ := []
  batches _ := none
  acked := []

/-! ## What a publisher holds -/

section
variable {I : Type} {s : State I} {db db' : Table ℕ ℕ Row} {locks locks' : String → Option ℕ} {x : Batch I} {p u : ℕ}

/-- The kind whose snapshot is being rewritten, and the items that were read for it. -/
def Point.atHand : Point I → Option (String × I)
  | .getting k items | .putting k items _ => some (k, items)
  | .locking _ | .next | .messaging _ _ | .writing | .marking => none

/-- The rows to do are pending and locked, as are the snapshots they need; a row that is locked is
still to do or its kind has been rewritten. -/
structure Batch.Fits (db : Table ℕ ℕ Row) (locks : String → Option ℕ) (p : ℕ) (x : Batch I) : Prop where
  claimed : ∀ id r, .row id r ∈ x.todo → db.lock id = some p ∧ db.row id = some r ∧ r.pending = true
  locked : ∀ w ∈ x.todo, ∀ k, w.kind? = some k → locks k = some p ∨ ∃ kinds, x.point = .locking kinds ∧ k ∈ kinds
  atHand : ∀ k items, x.point.atHand = some (k, items) → ∃ w todo, x.todo = w :: todo ∧ w.kind? = some k
  message : ∀ payload written, x.point = .messaging payload written →
    ∃ id r todo, x.todo = .row id r :: todo ∧ (r.isConfig = true → r.key ∈ x.rewritten)
  rows : ∀ id r, db.lock id = some p → db.row id = some r → r.isConfig = true → .row id r ∈ x.todo ∨ r.key ∈ x.rewritten
  ids : ∀ id ∈ x.ids, db.lock id = some p
  ended : x.point = .writing ∨ x.point = .marking → x.todo = []

structure Inv (s : State I) : Prop where
  sound : s.outbox.Sound
  held : ∀ id p, s.outbox.lock id = some p → ∃ x, s.batches p = some x
  batches : ∀ p x, s.batches p = some x → x.Fits s.outbox s.locks p
  known : ∀ id, id ∉ s.known → s.outbox.row id = none ∧ s.outbox.lock id = none

/-- The others' steps leave a publisher what it holds. -/
theorem Batch.Fits.frame (h : x.Fits db locks u) (hdb : Table.Undisturbed u db db') (hl : ∀ k, locks k = some u → locks' k = some u) :
    x.Fits db' locks' u where
  claimed id r hr := by
    obtain ⟨hlock, hrow, hp⟩ := h.claimed id r hr
    exact ⟨(hdb.lock id).mpr hlock, (hdb.row id hlock).trans hrow, hp⟩
  locked w hw k hk := (h.locked w hw k hk).imp_left (hl k)
  atHand := h.atHand
  message := h.message
  rows id r hlock hrow := by
    have hlock' := (hdb.lock id).mp hlock
    exact h.rows id r hlock' ((hdb.row id hlock').symm.trans hrow)
  ids id hid := (hdb.lock id).mpr (h.ids id hid)
  ended := h.ended

theorem Batch.Fits.same (h : x.Fits db locks u) (hlock : db'.lock = db.lock) (hrow : db'.row = db.row) : x.Fits db' locks u := by
  obtain ⟨row, lock, draft⟩ := db
  obtain ⟨row', lock', draft'⟩ := db'
  obtain rfl : lock' = lock := hlock
  obtain rfl : row' = row := hrow
  exact ⟨h.claimed, h.locked, h.atHand, h.message, h.rows, h.ids, h.ended⟩

/-- A publisher goes on, with what it makes of the outbox and the locks. -/
theorem Inv.goesOn (hi : Inv s) {db' : Table ℕ ℕ Row} {locks' : String → Option ℕ} (hs : db'.Sound)
    (hu : ∀ u, u ≠ p → Table.Undisturbed u s.outbox db') (hl : ∀ u, u ≠ p → ∀ k, s.locks k = some u → locks' k = some u)
    (hn : ∀ id, id ∉ s.known → db'.row id = none ∧ db'.lock id = none) (h : x.Fits db' locks' p) :
    Inv ({ s with outbox := db', locks := locks' }.put p (some x)) := by
  refine ⟨hs, fun id q hq => ?_, fun q y hy => ?_, hn⟩
  · by_cases hqp : q = p
    · exact ⟨x, by simp [State.put, hqp]⟩
    · obtain ⟨y, hy⟩ := hi.held id q (((hu q hqp).lock id).mp hq)
      exact ⟨y, by simpa [State.put, hqp] using hy⟩
  · by_cases hqp : q = p
    · subst hqp
      obtain rfl : x = y := by simpa [State.put] using hy
      exact h
    · exact (hi.batches q y (by simpa [State.put, hqp] using hy)).frame (hu q hqp) (hl q hqp)

theorem Inv.put (hi : Inv s) (h : x.Fits s.outbox s.locks p) : Inv (s.put p (some x)) :=
  hi.goesOn hi.sound (fun _ _ => .refl) (fun _ _ _ hk => hk) hi.known h

/-- A transaction ends, with what becomes of the outbox. -/
theorem Inv.ends (hi : Inv s) (p : ℕ) {db' : Table ℕ ℕ Row} (hs : db'.Sound) (hp : ∀ id, db'.lock id ≠ some p)
    (hu : ∀ u, u ≠ p → Table.Undisturbed u s.outbox db')
    (hn : ∀ id, id ∉ s.known → db'.row id = none ∧ db'.lock id = none) : Inv { s.release p with outbox := db' } := by
  refine ⟨hs, fun id q hq => ?_, fun q y hy => ?_, hn⟩
  · have hqp : q ≠ p := fun h => hp id (h ▸ hq)
    obtain ⟨y, hy⟩ := hi.held id q (((hu q hqp).lock id).mp hq)
    exact ⟨y, by simpa [State.release, hqp] using hy⟩
  · have hqp : q ≠ p := by
      rintro rfl
      simp [State.release] at hy
    refine (hi.batches q y (by simpa [State.release, hqp] using hy)).frame (hu q hqp) fun k hk => ?_
    simp [State.release, hk, hqp]

theorem batches_release {q : ℕ} {y : Batch I} (hy : (s.release p).batches q = some y) : q ≠ p ∧ s.batches q = some y := by
  have hqp : q ≠ p := by
    rintro rfl
    simp [State.release] at hy
  exact ⟨hqp, by simpa [State.release, hqp] using hy⟩

theorem lock_rollback_self (db : Table ℕ ℕ Row) (p id : ℕ) : (db.rollback p).lock id ≠ some p := by
  simp only [Table.rollback]
  split_ifs with h
  · simp
  · exact h

theorem Inv.rollback (hi : Inv s) (p : ℕ) : Inv (s.rollback p) := by
  refine hi.ends p hi.sound.rollback (lock_rollback_self s.outbox p) (fun _ hu => Table.Undisturbed.rollback hu) fun id hid => ?_
  obtain ⟨hrow, hlock⟩ := hi.known id hid
  exact ⟨hrow, by simp [Table.rollback, hlock]⟩

theorem Inv.commit (hi : Inv s) (p : ℕ) : Inv (s.commit p) := by
  refine hi.ends p hi.sound.commit (lock_rollback_self s.outbox p) (fun _ hu => Table.Undisturbed.commit hi.sound hu) fun id hid => ?_
  obtain ⟨hrow, hlock⟩ := hi.known id hid
  exact ⟨(hi.sound.row_commit (by simp [hlock])).trans hrow, by simp [Table.commit, Table.rollback, hlock]⟩

/-- Drafts are nobody else's business. -/
theorem Inv.setDrafts (hi : Inv s) {db' : Table ℕ ℕ Row} (hs : db'.Sound) (hlock : db'.lock = s.outbox.lock)
    (hrow : db'.row = s.outbox.row) : Inv { s with outbox := db' } :=
  ⟨hs, fun id q hq => hi.held id q (hlock ▸ hq), fun q y hy => (hi.batches q y hy).same hlock hrow,
    fun id hid => ⟨hrow ▸ (hi.known id hid).1, hlock ▸ (hi.known id hid).2⟩⟩

/-- A row that nobody has locked is written by a transaction of its own. -/
theorem Inv.setRow (hi : Inv s) {id : ℕ} (hfree : s.outbox.lock id = none) (r : Row) {known' : List ℕ} (hsub : s.known ⊆ known')
    (hid : id ∈ known') :
    Inv { s with outbox := { s.outbox with row := Function.update s.outbox.row id (some r) }, known := known' } := by
  refine ⟨hi.sound, hi.held, fun q y hy => (hi.batches q y hy).frame ⟨rfl, fun _ => Iff.rfl, fun l hl => ?_⟩ fun _ hk => hk,
    fun l hl => ?_⟩
  · refine Function.update_of_ne ?_ _ _
    rintro rfl
    simp [hfree] at hl
  · have hne : l ≠ id := fun h => hl (h ▸ hid)
    have hnone := hi.known l fun h => hl (hsub h)
    exact ⟨by simpa [hne] using hnone.1, hnone.2⟩

theorem Inv.write (hi : Inv s) (w : Write I) : Inv (s.write w) := by
  have hinsert {id : ℕ} (hv : s.vacant id = true) (r : Row) : Inv (s.insert id r) := by
    simp only [State.vacant, Bool.and_eq_true, Option.isNone_iff_eq_none] at hv
    exact hi.setRow hv.2 r (List.subset_append_left _ _) (by simp)
  cases w with
  | config id kind requestId items =>
    simp only [State.write]
    split_ifs with hv
    · have h := hinsert hv (newRow configChanged kind requestId kind s.time)
      exact ⟨h.sound, h.held, h.batches, h.known⟩
    · exact hi
  | event id event key requestId payload =>
    simp only [State.write]
    split_ifs with hv
    · exact hinsert hv.1 _
    · exact hi

theorem Inv.requeue (hi : Inv s) (id : ℕ) : Inv (s.requeue id) := by
  unfold State.requeue
  cases hr : s.outbox.row id with
  | none => exact hi
  | some r =>
    dsimp only
    split_ifs with h
    · refine hi.setRow (Option.isNone_iff_eq_none.mp h.2.2.2) _ (fun _ h => h) ?_
      by_contra hid
      simp [(hi.known id hid).1] at hr
    · exact hi

/-! ## A publisher's steps -/

theorem mem_claims {seen : List ℕ} {id : ℕ} (h : id ∈ s.claims seen) :
    (∃ r, s.outbox.row id = some r ∧ r.pending = true) ∧ s.outbox.lock id = none := by
  have hid := (List.mem_insertionSort _).mp (List.mem_of_mem_take h)
  have hc := (List.mem_filter.mp hid).2
  simp only [State.claimable, Bool.and_eq_true, Option.isNone_iff_eq_none] at hc
  exact ⟨(Option.any_eq_true _ _).mp hc.1, hc.2⟩

theorem mem_workOf {claimed : List ℕ} {w : Work} (h : w ∈ s.workOf claimed) :
    ∃ id ∈ claimed, ∃ r, s.outbox.row id = some r ∧ w = .row id r := by
  obtain ⟨id, hid, hw⟩ := List.mem_filterMap.mp h
  obtain ⟨r, hr, rfl⟩ := Option.map_eq_some_iff.mp hw
  exact ⟨id, hid, r, hr, rfl⟩

theorem fits_claimed (hnone : ∀ id, s.outbox.lock id ≠ some p) (seen : List ℕ) :
    (s.batchOf (s.claims seen)).Fits (s.outbox.takeAll p (s.claims seen)) s.locks p where
  claimed id r hr := by
    obtain ⟨id', hid, r', hrow, heq⟩ := mem_workOf hr
    cases heq
    obtain ⟨⟨r', hr', hp'⟩, -⟩ := mem_claims hid
    obtain rfl := Option.some.inj (hrow.symm.trans hr')
    exact ⟨by rw [Table.lock_takeAll, if_pos hid], by rw [Table.row_takeAll, hrow], hp'⟩
  locked w hw k hk := .inr ⟨_, rfl, (List.mem_insertionSort _).mpr (List.mem_filterMap.mpr ⟨w, hw, hk⟩)⟩
  atHand k items h := by cases h
  message _ _ h := by cases h
  rows id r hl hr _ := by
    rw [Table.lock_takeAll] at hl
    rw [Table.row_takeAll] at hr
    split_ifs at hl with hid
    · exact .inl (List.mem_filterMap.mpr ⟨id, hid, by simp [hr]⟩)
    · exact absurd hl (hnone id)
  ids id hid := by cases hid
  ended h := by cases h <;> contradiction

theorem Inv.none_locked (hi : Inv s) (hp : s.batches p = none) (id : ℕ) : s.outbox.lock id ≠ some p := by
  intro h
  obtain ⟨x, hx⟩ := hi.held id p h
  simp [hp] at hx

theorem Inv.publish (hi : Inv s) (hp : s.batches p = none) (seen : List ℕ) : Inv (s.publish p seen) := by
  unfold State.publish
  dsimp only
  split_ifs
  · exact hi
  · have hfree (id : ℕ) (h : id ∈ s.claims seen) : s.outbox.lock id = none := (mem_claims h).2
    refine hi.goesOn (hi.sound.takeAll hfree) (fun u hu => .takeAll hfree hu) (fun _ _ _ hk => hk) (fun id hid => ?_)
      (fits_claimed (hi.none_locked hp) seen)
    obtain ⟨hrow, hlock⟩ := hi.known id hid
    have hclaims : id ∉ s.claims seen := by
      intro h
      obtain ⟨⟨r, hr, -⟩, -⟩ := mem_claims h
      simp [hrow] at hr
    exact ⟨by rw [Table.row_takeAll, hrow], by rw [Table.lock_takeAll, if_neg hclaims, hlock]⟩

theorem Inv.writeAll (hi : Inv s) (hp : s.batches p = none) : Inv (s.writeAll p) := by
  refine hi.put ⟨fun id r hr => ?_, fun w hw k hk => .inr ⟨_, rfl, ?_⟩, fun k items h => ?_, fun _ _ h => ?_,
    fun id r hl _ _ => absurd hl (hi.none_locked hp id), fun id hid => ?_, fun h => ?_⟩
  · obtain ⟨k, -, hk⟩ := List.mem_map.mp hr
    cases hk
  · obtain ⟨k', hk', rfl⟩ := List.mem_map.mp hw
    obtain rfl := Option.some.inj hk
    exact (List.mem_insertionSort _).mpr hk'
  · cases h
  · cases h
  · cases hid
  · cases h <;> contradiction

/-- Where the loop is under way, its snapshots are locked. -/
theorem Batch.Fits.locked_of (h : x.Fits db locks p) (hp : ∀ kinds, x.point ≠ .locking kinds) {w : Work} (hw : w ∈ x.todo) {k : String}
    (hk : w.kind? = some k) : locks k = some p := by
  obtain hl | ⟨kinds, hkinds, -⟩ := h.locked w hw k hk
  · exact hl
  · exact absurd hkinds (hp kinds)

/-- The publisher goes on to another point, with the same work to do. -/
theorem Batch.Fits.moves (h : x.Fits db locks p) (hp : ∀ kinds, x.point ≠ .locking kinds) {point : Point I}
    (hat : ∀ k items, point.atHand = some (k, items) → ∃ w todo, x.todo = w :: todo ∧ w.kind? = some k)
    (hmsg : ∀ payload written, point = .messaging payload written →
      ∃ id r todo, x.todo = .row id r :: todo ∧ (r.isConfig = true → r.key ∈ x.rewritten))
    (hend : point = .writing ∨ point = .marking → x.todo = []) : Batch.Fits db locks p { x with point := point } where
  claimed := h.claimed
  locked _ hw _ hk := .inl (h.locked_of hp hw hk)
  atHand := hat
  message := hmsg
  rows := h.rows
  ids := h.ids
  ended := hend

/-- The publisher is done with the work at hand, and comes to the head of the loop again. -/
theorem Batch.Fits.done (h : x.Fits db locks p) (hp : ∀ kinds, x.point ≠ .locking kinds) {w : Work} {y : Batch I}
    (htodo : x.todo = w :: y.todo) (hy : y.point = .next) (hrewritten : x.rewritten ⊆ y.rewritten)
    (hw : ∀ id r, w = .row id r → r.isConfig = true → r.key ∈ y.rewritten) (hids : ∀ id ∈ y.ids, db.lock id = some p) :
    y.Fits db locks p where
  claimed id r hr := h.claimed id r (by simp [htodo, hr])
  locked w' hw' k hk := .inl (h.locked_of hp (by simp [htodo, hw']) hk)
  atHand k items hat := by simp [hy, Point.atHand] at hat
  message _ _ hm := by simp [hy] at hm
  rows id r hl hr hc := by
    obtain hmem | hmem := h.rows id r hl hr hc
    · rw [htodo] at hmem
      obtain heq | hmem := List.mem_cons.mp hmem
      · exact .inr (hw id r heq.symm hc)
      · exact .inl hmem
    · exact .inr (hrewritten hmem)
  ids := hids
  ended hend := by simp [hy] at hend

theorem Inv.read (hi : Inv s) (hx : x.Fits s.outbox s.locks p) (hp : x.point = .next) {k : String} {w : Work} {todo : List Work}
    (htodo : x.todo = w :: todo) (hk : w.kind? = some k) (inp : Input) : Inv (s.read p x k inp) := by
  unfold State.read
  split_ifs
  · exact hi.rollback p
  · refine hi.put (hx.moves (by simp [hp]) (fun k' items h => ?_) (fun _ _ h => ?_) fun h => ?_)
    · obtain ⟨rfl, -⟩ := Prod.mk.inj (Option.some.inj h)
      exact ⟨w, todo, htodo, hk⟩
    · cases h
    · cases h <;> contradiction

theorem Inv.next (hi : Inv s) (hx : x.Fits s.outbox s.locks p) (hp : x.point = .next) (inp : Input) : Inv (s.next p x inp) := by
  unfold State.next
  cases htodo : x.todo with
  | nil =>
    refine hi.put ?_
    rw [← htodo]
    refine hx.moves (by simp [hp]) (fun k items h => ?_) (fun _ _ h => ?_) fun _ => htodo
    · split_ifs at h <;> cases h
    · split_ifs at h
  | cons w todo =>
    cases w with
    | kind k => exact hi.read hx hp htodo rfl inp
    | row id r =>
      dsimp only
      split_ifs with hc hr
      · refine hi.put (hx.done (by simp [hp]) htodo hp (fun _ h => h) (fun id' r' h _ => ?_) fun id' hid => ?_)
        · cases h
          exact hr
        · obtain hid | hid := List.mem_append.mp hid
          · exact hx.ids id' hid
          · obtain rfl := List.mem_singleton.mp hid
            exact (hx.claimed id' r (by simp [htodo])).1
      · exact hi.read hx hp htodo (by simp [Work.kind?, hc]) inp
      · refine hi.put ?_
        rw [← htodo]
        refine hx.moves (by simp [hp]) (fun k items h => ?_) (fun _ _ _ => ⟨id, r, todo, htodo, fun h => absurd h hc⟩) fun h => ?_
        · cases h
        · cases h <;> contradiction

theorem Inv.message (hi : Inv s) (hx : x.Fits s.outbox s.locks p) {payload : Payload} {written : Option ℕ}
    (hp : x.point = .messaging payload written) (inp : Input) : Inv (s.message p x payload written inp) := by
  obtain ⟨id, r, todo, htodo, hkey⟩ := hx.message payload written hp
  have hlock := (hx.claimed id r (by simp [htodo])).1
  unfold State.message
  rw [htodo]
  dsimp only
  split_ifs
  · exact hi.rollback p
  · cases inp.refused with
    | some cause =>
      have hfree : s.outbox.Free p id := .inr hlock
      have hsame : (s.outbox.write p id (some (r.fail cause))).lock = s.outbox.lock := by
        rw [Table.lock_write, Table.take, ← hlock, Function.update_eq_self]
      refine hi.goesOn (hi.sound.write hfree) (fun u hu => .write hfree hu) (fun _ _ _ hk => hk)
        (fun l hl => ⟨(hi.known l hl).1, hsame ▸ (hi.known l hl).2⟩) ?_
      refine Batch.Fits.same ?_ hsame Table.row_write
      exact hx.done (by simp [hp]) htodo rfl (fun _ h => h) (fun id' r' h hc => by cases h; exact hkey hc) hx.ids
    | none =>
      refine hi.put (hx.done (by simp [hp]) htodo rfl (fun _ h => h) (fun id' r' h hc => by cases h; exact hkey hc) fun id' hid => ?_)
      obtain hid | hid := List.mem_append.mp hid
      · exact hx.ids id' hid
      · obtain rfl := List.mem_singleton.mp hid
        exact hlock

theorem fits_wrote (hx : x.Fits db locks p) {k : String} {items : I} {version : ℕ} (hp : x.point = .putting k items version) (written : ℕ) :
    (x.wrote k version written).Fits db locks p := by
  obtain ⟨w, todo, htodo, hk⟩ := hx.atHand k items (by rw [hp]; rfl)
  have hlocking (kinds : List String) : x.point ≠ .locking kinds := by simp [hp]
  unfold Batch.wrote
  dsimp only
  rw [htodo]
  cases w with
  | kind k' =>
    exact hx.done hlocking htodo rfl (List.subset_cons_self _ _) (fun id r h _ => by cases h) hx.ids
  | row id r =>
    have hkey : r.isConfig = true → r.key = k := fun hc => by simpa [Work.kind?, hc] using hk
    have hgrown : Batch.Fits db locks p { x with rewritten := k :: x.rewritten } := by
      refine ⟨hx.claimed, hx.locked, hx.atHand, fun _ _ h => ?_, fun id r hl hr hc => ?_, hx.ids, hx.ended⟩
      · simp [hp] at h
      · exact (hx.rows id r hl hr hc).imp_right fun h => List.mem_cons_of_mem k h
    dsimp only
    rw [← htodo]
    refine hgrown.moves hlocking (fun k' items h => ?_) (fun _ _ _ => ⟨id, r, todo, htodo, fun hc => ?_⟩) fun h => ?_
    · cases h
    · exact List.mem_cons.mpr (.inl (hkey hc))
    · cases h <;> contradiction

/-- What `MarkPublished` leaves of the outbox: drafts of the rows, which were locked before. -/
structure Marked (db : Table ℕ ℕ Row) (p : ℕ) (ids : List ℕ) (db' : Table ℕ ℕ Row) : Prop where
  sound : db'.Sound
  lock : db'.lock = db.lock
  row : db'.row = db.row
  others : ∀ u, u ≠ p → db'.draft u = db.draft u
  draft : ∀ id, db'.draft p id = if id ∈ ids then some ((db.row id).map Row.publish) else db.draft p id

theorem marked (hs : db.Sound) {ids : List ℕ} (h : ∀ id ∈ ids, db.lock id = some p) : Marked db p ids (markPublished db p ids) := by
  induction ids generalizing db with
  | nil => exact ⟨hs, rfl, rfl, fun _ _ => rfl, fun _ => by simp [markPublished]⟩
  | cons id ids ih =>
    have hlock := h id List.mem_cons_self
    have hsame : (db.write p id ((db.row id).map Row.publish)).lock = db.lock := by
      rw [Table.lock_write, Table.take, ← hlock, Function.update_eq_self]
    have hrest := ih (hs.write (k := id) (r := (db.row id).map Row.publish) (.inr hlock)) fun l hl => by
      rw [hsame]
      exact h l (List.mem_cons_of_mem id hl)
    refine ⟨hrest.sound, hrest.lock.trans hsame, hrest.row, fun u hu => (hrest.others u hu).trans (Table.draft_write hu), fun l => ?_⟩
    refine (hrest.draft l).trans ?_
    by_cases hl : l = id
    · subst hl
      simp
    · simp [hl]

theorem Inv.marking (hi : Inv s) (hx : x.Fits s.outbox s.locks p) : Inv { s with outbox := markPublished s.outbox p x.ids } := by
  have h := marked hi.sound hx.ids
  exact hi.setDrafts h.sound h.lock h.row

theorem Inv.go (hi : Inv s) (hx : s.batches p = some x) (inp : Input) : Inv (s.go p x inp) := by
  have hfits := hi.batches p x hx
  unfold State.go
  cases hp : x.point with
  | locking kinds =>
    cases kinds with
    | nil =>
      refine hi.put ⟨hfits.claimed, fun w hw k hk => .inl ?_, fun k items h => (by cases h), fun _ _ h => (by cases h), hfits.rows,
        hfits.ids, fun h => (by cases h <;> contradiction)⟩
      obtain hl | ⟨kinds, hkinds, hmem⟩ := hfits.locked w hw k hk
      · exact hl
      · rw [hp] at hkinds
        cases hkinds
        cases hmem
    | cons k kinds =>
      dsimp only
      split_ifs with hfailed hfree
      · exact hi.rollback p
      · refine hi.goesOn hi.sound (fun _ _ => .refl) (fun u hu k' hk' => ?_) hi.known ⟨hfits.claimed, fun w hw k' hk' => ?_,
          fun k items h => (by cases h), fun _ _ h => (by cases h), hfits.rows, hfits.ids, fun h => (by cases h <;> contradiction)⟩
        · have hne : k' ≠ k := by
            rintro rfl
            simp [hk', hu] at hfree
          simpa [hne] using hk'
        · by_cases hkk : k' = k
          · exact .inl (by simp [hkk])
          · obtain hl | ⟨kinds', hkinds, hmem⟩ := hfits.locked w hw k' hk'
            · exact .inl (by simpa [hkk] using hl)
            · rw [hp] at hkinds
              cases hkinds
              exact .inr ⟨kinds, rfl, (List.mem_cons.mp hmem).resolve_left hkk⟩
      · exact hi
  | next => exact hi.next hfits hp inp
  | getting k items =>
    dsimp only
    split_ifs
    · exact hi.rollback p
    · refine hi.put (hfits.moves (by simp [hp]) (fun k' items' h => ?_) (fun _ _ h => (by cases h)) fun h => (by cases h <;> contradiction))
      cases h
      exact hfits.atHand k items (by rw [hp]; rfl)
  | putting k items version =>
    have hstored (doc : Document I) : Inv (s.store k doc) := ⟨hi.sound, hi.held, hi.batches, hi.known⟩
    dsimp only
    split_ifs
    · exact hi.rollback p
    · exact (hstored _).rollback p
    · exact (hstored _).put (fits_wrote hfits hp s.time)
  | messaging payload written => exact hi.message hfits hp inp
  | writing =>
    dsimp only
    split_ifs
    · exact hi.rollback p
    · have hacked : Inv { s with acked := s.acked ++ x.msgs } := ⟨hi.sound, hi.held, hi.batches, hi.known⟩
      refine hacked.put (hfits.moves (by simp [hp]) (fun k' items' h => (by cases h)) (fun _ _ h => (by cases h)) fun _ => ?_)
      exact hfits.ended (.inl hp)
  | marking =>
    dsimp only
    split_ifs
    · exact hi.rollback p
    · exact (hi.marking hfits).commit p

theorem Inv.act (hi : Inv s) (e : Event I) : Inv (s.act e) := by
  cases e with
  | commit writes =>
    change Inv (writes.foldl State.write s)
    induction writes generalizing s with
    | nil => exact hi
    | cons w writes ih => exact ih (hi.write w)
  | publish p seen =>
    simp only [State.act]
    split_ifs with h
    · exact hi
    · exact hi.publish (by simpa using h) seen
  | writeAll p =>
    simp only [State.act]
    split_ifs with h
    · exact hi
    · exact hi.writeAll (by simpa using h)
  | go p inp =>
    simp only [State.act]
    cases hx : s.batches p with
    | none => exact hi
    | some x => exact hi.go hx inp
  | die p => exact hi.rollback p
  | requeue id => exact hi.requeue id

theorem inv_initial (db : String → I) : Inv (initial db) :=
  ⟨fun _ _ _ h => (by cases h), fun _ _ h => (by cases h), fun _ _ h => (by cases h), fun _ _ => ⟨rfl, rfl⟩⟩

end

end Upstat.OutboxPublisher
