import Mathlib.Algebra.Order.Ring.Int
import Mathlib.Order.WithBot
import Mathlib.Logic.Function.Basic
import Upstat.GuardedRuns

/-! # The gateway's copies of the config snapshots (`config-cache/config-cache.service.ts`)

The reads that reload the copies, and the calls that ask for a key or only for a fresh copy, each
cut where it waits. Times are milliseconds of one clock. -/
namespace Upstat.ConfigCopies

open GuardedRuns

def missFloor : ℕ := 30000
def missGlobalFloor : ℕ := 1000
def failureRetry : ℕ := 5000
def missMemory : ℕ := 10000

inductive KeyKind where
  | ingestionToken | propertyKey
  deriving DecidableEq

inductive Scope where
  | otlp | rum | statsd | all
  deriving DecidableEq

structure IngestKey where
  orgId : String
  kind : KeyKind
  scope : Scope
  hash : String
  previousHash : Option String
  previousExpiresAt : Option String
  status : String
  deriving DecidableEq

structure RegistryEvent where
  orgId : String
  name : String
  dims : List String
  uniqueIneligible : Bool
  deriving DecidableEq

/-- The kinds of snapshot the gateway uses. -/
inductive Kind where
  | ingestKeys | registry
  deriving DecidableEq

def kindOf (name : String) : Option Kind :=
  if name = "ingest_keys" then some .ingestKeys else if name = "registry" then some .registry else none

def Item : Kind → Type
  | .ingestKeys => IngestKey
  | .registry => RegistryEvent

structure Doc (k : Kind) where
  version : ℕ
  items : List (Item k)

/-- A copy, with when its read began. -/
structure Copy (k : Kind) where
  doc : Doc k
  begun : ℕ

/-- A read under way: what storage has answered, and whether it is a shared one of `refresh`. -/
structure Read (k : Kind) where
  begun : ℕ
  found : Option (Doc k)
  shared : Bool

/-- When a read began, and the version it found. -/
structure Stamp where
  begun : ℕ
  version : ℕ
  deriving DecidableEq

/-- What there is of one kind: the snapshot in storage, and the fields of the cache. `ended` has
the reads that have ended. -/
structure Cell (k : Kind) where
  stored : Option (Doc k)
  copy : Option (Copy k)
  nextCheckAt : Option ℕ
  inflight : Option ℕ
  reads : ℕ → Option (Read k)
  ended : List Stamp

section
variable {k : Kind} (c : Cell k)

def Cell.stamp : Option Stamp := c.copy.map fun copy => ⟨copy.begun, copy.doc.version⟩

def Cell.items : List (Item k) := c.copy.elim [] fun copy => copy.doc.items

def Cell.version : WithBot ℕ := c.copy.elim ⊥ fun copy => .some copy.doc.version

def Cell.stale (now : ℕ) : Bool := c.nextCheckAt.getD 0 ≤ now

/-- `reload`, to where it waits for storage. -/
def Cell.begin_ (now r : ℕ) (shared : Bool) : Cell k := { c with reads := Function.update c.reads r (some ⟨now, none, shared⟩) }

/-- Storage answers. Where there is no snapshot yet, the read makes do with an empty one. -/
def Cell.answered (r : ℕ) : Cell k :=
  match c.reads r with
  | none => c
  | some read => { c with reads := Function.update c.reads r (some { read with found := some (c.stored.getD ⟨0, []⟩) }) }

/-- The rest of `reload`, and `finally` of `refresh`. -/
def Cell.ends (maxAge r : ℕ) : Cell k :=
  match c.reads r with
  | none => c
  | some read =>
    match read.found with
    | none => c
    | some doc =>
      { c with
        copy := if c.copy.all fun copy => copy.doc.version ≤ doc.version then some ⟨doc, read.begun⟩ else c.copy
        nextCheckAt := some (read.begun + maxAge)
        inflight := if read.shared then none else c.inflight
        reads := Function.update c.reads r none
        ended := c.ended ++ [⟨read.begun, doc.version⟩] }

/-- A read that throws: `catch` and `finally` of `refresh`, where it is a shared one. -/
def Cell.fails (maxAge r : ℕ) : Cell k :=
  match c.reads r with
  | none => c
  | some read =>
    { c with
      nextCheckAt := if read.shared then some (read.begun + min failureRetry maxAge) else c.nextCheckAt
      inflight := if read.shared then none else c.inflight
      reads := Function.update c.reads r none }

/-- `refresh`: the read to wait for, which is begun under the given name if there is none in flight. -/
def Cell.refresh (now r : ℕ) : Cell k × ℕ :=
  match c.inflight with
  | some run => (c, run)
  | none => ({ c.begin_ now r true with inflight := some r }, r)

end

/-! ## Looking keys and events up -/

/-- The hash of a key, and the time a text stands for, if it is one. -/
structure Texts where
  sha256 : String → String
  dateParse : String → Option ℤ

inductive Found where
  | key (key : IngestKey)
  | scope
  | null
  deriving DecidableEq

/-- The arguments of `lookup`. -/
structure Question where
  plain : String
  kind : KeyKind
  scopes : List Scope

/-- What the map that `apply` makes has for a hash: a later key takes the place of an earlier one. -/
def keyOf (items : List IngestKey) (hash : String) : Option IngestKey :=
  items.reverse.find? fun key => key.hash = hash ∨ key.previousHash.filter (· ≠ "") = some hash

def graceOver (x : Texts) (key : IngestKey) (now : ℕ) : Bool :=
  match key.previousExpiresAt with
  | none => true
  | some text => text = "" ∨ (x.dateParse text).any (· < (now : ℤ))

def lookup (x : Texts) (items : List IngestKey) (q : Question) (now : ℕ) : Found :=
  match keyOf items (x.sha256 q.plain) with
  | none => .null
  | some key =>
    if key.kind ≠ q.kind ∨ key.status = "revoked" then .null
    else if key.previousHash = some (x.sha256 q.plain) ∧ graceOver x key now then .null
    else if key.scope ≠ .all ∧ key.scope ∉ q.scopes then .scope
    else .key key

def event (items : List RegistryEvent) (orgId name : String) : Option RegistryEvent :=
  items.reverse.find? fun event => event.orgId = orgId ∧ event.name = name

/-! ## The service -/

/-- A call of `lookupFresh`, or one of `ensureFresh` (which asks nothing), and the read it waits for. -/
structure Ask where
  kind : Kind
  asked : ℕ
  question : Option Question
  waits : Option ℕ

/-- What a call has come to, and the copy that was in use then. -/
structure Answer where
  kind : Kind
  asked : ℕ
  copy : Option Stamp
  found : Option Found

structure State where
  clock : ℕ
  cells : (k : Kind) → Cell k
  missedAt : List (String × ℕ)
  lastMissRefreshAt : ℕ
  asks : ℕ → Option Ask
  answers : List Answer

/-- The names `i` of calls and `r` of reads are given from outside; one that is in use already names nothing new. -/
inductive Event where
  | lookupFresh (i r : ℕ) (q : Question)
  | ensureFresh (i r : ℕ) (k : Kind)
  /-- A reload on its own, as for a `config.changed`. -/
  | reload (kind : String) (r : ℕ)
  | answered (k : Kind) (r : ℕ)
  | ends (k : Kind) (r : ℕ)
  | fails (k : Kind) (r : ℕ)
  | resume (i : ℕ)
  /-- Common writes a snapshot. -/
  | write (k : Kind) (doc : Doc k)
  | tick (d : ℕ)

def State.putCell (s : State) {k : Kind} (c : Cell k) : State := { s with cells := Function.update s.cells k c }

def State.wait (s : State) (i : ℕ) (a : Ask) : State := { s with asks := Function.update s.asks i (some a) }

def State.answer (x : Texts) (s : State) (a : Ask) : State :=
  { s with
    answers := s.answers ++ [{
      kind := a.kind
      asked := a.asked
      copy := (s.cells a.kind).stamp
      found := a.question.map fun q => lookup x (s.cells .ingestKeys).items q a.asked }] }

/-- Waits for a refresh of the copy. -/
def State.refresh (s : State) (i r : ℕ) (k : Kind) (q : Option Question) : State :=
  let started := (s.cells k).refresh s.clock r
  (s.putCell started.1).wait i ⟨k, s.clock, q, some started.2⟩

/-- `lookupFresh` where the copy is not stale and has no such key. -/
def State.missed (x : Texts) (s : State) (i r : ℕ) (q : Question) : State :=
  let hash := x.sha256 q.plain
  let s' := { s with missedAt := (hash, s.clock) :: (if missMemory ≤ s.missedAt.length then [] else s.missedAt.eraseP (·.1 = hash)) }
  if s.lastMissRefreshAt + missGlobalFloor ≤ s.clock then
    { s' with lastMissRefreshAt := s.clock }.refresh i r .ingestKeys (some q)
  else s'.wait i ⟨.ingestKeys, s.clock, some q, (s.cells .ingestKeys).inflight⟩

def State.lookupFresh (x : Texts) (s : State) (i r : ℕ) (q : Question) : State :=
  if (s.cells .ingestKeys).stale s.clock then s.refresh i r .ingestKeys (some q)
  else if lookup x (s.cells .ingestKeys).items q s.clock = .null ∧
      (s.missedAt.lookup (x.sha256 q.plain)).all (fun t => t + missFloor ≤ s.clock) then s.missed x i r q
  else s.answer x ⟨.ingestKeys, s.clock, some q, none⟩

def State.ensureFresh (x : Texts) (s : State) (i r : ℕ) (k : Kind) : State :=
  if (s.cells k).stale s.clock then s.refresh i r k none else s.answer x ⟨k, s.clock, none, none⟩

def State.unused (s : State) (i r : ℕ) (k : Kind) : Bool := (s.asks i).isNone ∧ ((s.cells k).reads r).isNone

def step (x : Texts) (maxAge : ℕ) (s : State) : Event → State
  | .lookupFresh i r q => if s.unused i r .ingestKeys then s.lookupFresh x i r q else s
  | .ensureFresh i r k => if s.unused i r k then s.ensureFresh x i r k else s
  | .reload kind r =>
    match kindOf kind with
    | none => s
    | some k => if ((s.cells k).reads r).isNone then s.putCell ((s.cells k).begin_ s.clock r false) else s
  | .answered k r => s.putCell ((s.cells k).answered r)
  | .ends k r => s.putCell ((s.cells k).ends maxAge r)
  | .fails k r => s.putCell ((s.cells k).fails maxAge r)
  | .resume i =>
    match s.asks i with
    | none => s
    | some a =>
      if a.waits.all fun r => ((s.cells a.kind).reads r).isNone then { s with asks := Function.update s.asks i none }.answer x a
      else s
  | .write k doc => s.putCell { s.cells k with stored := some doc }
  | .tick d => { s with clock := s.clock + d }

/-- The service starts, and nothing has been stored. -/
def started (now : ℕ) : State where
  clock := now
  cells _ := ⟨none, none, none, none, fun _ => none, []⟩
  missedAt := []
  lastMissRefreshAt := 0
  asks _ := none
  answers := []

/-- No read fails, and each ends within the maximum age. -/
def InTime (maxAge : ℕ) (s : State) : Event → Prop
  | .fails k r => (s.cells k).reads r = none
  | .tick d => ∀ k r read, (s.cells k).reads r = some read → s.clock + d ≤ read.begun + maxAge
  | _ => True

/-! ## One kind -/

section
variable {k : Kind} {c : Cell k} {maxAge now r : ℕ}

/-- The reads are in time, one in flight is under way, and the next check is due where the last
read to end says, whose version is no newer than the copy's. -/
structure Cell.Sound (c : Cell k) (maxAge now : ℕ) : Prop where
  inTime : ∀ r read, c.reads r = some read → now ≤ read.begun + maxAge
  joined : ∀ r, c.inflight = some r → ∃ read, c.reads r = some read ∧ read.shared
  checked : ∀ n, c.nextCheckAt = some n →
    ∃ st, c.stamp = some st ∧ ∃ e ∈ c.ended, n = e.begun + maxAge ∧ (e = st ∨ e.version < st.version)

/-- The copy was read no longer than the maximum age before `asked`, or a read begun no longer
before it has ended and found an older version. -/
def Covers (maxAge : ℕ) (ended : List Stamp) (asked : ℕ) (st : Stamp) : Prop :=
  asked ≤ st.begun + maxAge ∨ ∃ e ∈ ended, asked ≤ e.begun + maxAge ∧ e.version < st.version

def Cell.Fresh (c : Cell k) (maxAge asked : ℕ) : Prop := ∃ st, c.stamp = some st ∧ Covers maxAge c.ended asked st

/-- A call has a fresh copy to go on with, or waits for a read that will leave one. -/
def Cell.Serves (c : Cell k) (maxAge asked : ℕ) (waits : Option ℕ) : Prop :=
  c.Fresh maxAge asked ∨ ∃ r read, waits = some r ∧ c.reads r = some read ∧ asked ≤ read.begun + maxAge

/-- What becomes of a kind in a step: it stays sound, keeps what calls made by now rely on, forgets
no read that has ended and never goes back to an older version. -/
structure Cell.Goes (c c' : Cell k) (maxAge now : ℕ) : Prop where
  sound : c'.Sound maxAge now
  serves : ∀ asked ≤ now, ∀ waits, c.Serves maxAge asked waits → c'.Serves maxAge asked waits
  ended : c.ended ⊆ c'.ended

theorem Covers.mono {ended ended' : List Stamp} {asked : ℕ} {st : Stamp} (hsub : ended ⊆ ended')
    (h : Covers maxAge ended asked st) : Covers maxAge ended' asked st := by
  obtain h | ⟨e, he, h⟩ := h
  · exact .inl h
  · exact .inr ⟨e, hsub he, h⟩

theorem Cell.Goes.refl (hs : c.Sound maxAge now) : c.Goes c maxAge now := ⟨hs, fun _ _ _ h => h, fun _ h => h⟩

/-- A copy that is not stale is fresh. -/
theorem Cell.Sound.fresh (hs : c.Sound maxAge now) (h : ¬c.stale now) : c.Fresh maxAge now := by
  unfold Cell.stale at h
  cases hn : c.nextCheckAt with
  | none => simp [hn] at h
  | some n =>
    simp only [hn, Option.getD_some, decide_eq_true_eq, not_le] at h
    obtain ⟨st, hst, e, he, rfl, heq⟩ := hs.checked n hn
    refine ⟨st, hst, ?_⟩
    obtain rfl | hlt := heq
    · exact .inl h.le
    · exact .inr ⟨e, he, h.le, hlt⟩

theorem Cell.Sound.begin_ (hs : c.Sound maxAge now) (hr : c.reads r = none) (shared : Bool) :
    c.Goes (c.begin_ now r shared) maxAge now := by
  have hne {j : ℕ} {read : Read k} (hj : c.reads j = some read) : (c.begin_ now r shared).reads j = some read := by
    have : j ≠ r := by
      rintro rfl
      simp [hr] at hj
    simp [Cell.begin_, this, hj]
  refine ⟨⟨fun j read hj => ?_, fun j hj => ?_, hs.checked⟩, fun asked _ waits h => ?_, fun _ h => h⟩
  · by_cases hjr : j = r
    · subst hjr
      obtain rfl : ⟨now, none, shared⟩ = read := by simpa [Cell.begin_] using hj
      exact Nat.le_add_right now maxAge
    · exact hs.inTime j read (by simpa [Cell.begin_, hjr] using hj)
  · obtain ⟨read, hread, hshared⟩ := hs.joined j hj
    exact ⟨read, hne hread, hshared⟩
  · obtain h | ⟨j, read, hw, hj, ht⟩ := h
    · exact .inl h
    · exact .inr ⟨j, read, hw, hne hj, ht⟩

theorem Cell.Sound.answered (hs : c.Sound maxAge now) : c.Goes (c.answered r) maxAge now := by
  unfold Cell.answered
  cases hr : c.reads r with
  | none => exact .refl hs
  | some read =>
    dsimp only
    have hreads (j : ℕ) (old : Read k) (hj : c.reads j = some old) :
        ∃ new, Function.update c.reads r (some { read with found := some (c.stored.getD ⟨0, []⟩) }) j = some new ∧
          new.begun = old.begun ∧ new.shared = old.shared := by
      by_cases hjr : j = r
      · subst hjr
        obtain rfl := Option.some.inj (hr.symm.trans hj)
        exact ⟨_, Function.update_self .., rfl, rfl⟩
      · exact ⟨old, by rw [Function.update_of_ne hjr, hj], rfl, rfl⟩
    refine ⟨⟨fun j new hj => ?_, fun j hj => ?_, hs.checked⟩, fun asked _ waits h => ?_, fun _ h => h⟩
    · by_cases hjr : j = r
      · subst hjr
        obtain rfl : { read with found := some (c.stored.getD ⟨0, []⟩) } = new := by simpa using hj
        exact hs.inTime j read hr
      · exact hs.inTime j new (by simpa [hjr] using hj)
    · obtain ⟨old, hold, hshared⟩ := hs.joined j hj
      obtain ⟨new, hnew, -, heq⟩ := hreads j old hold
      exact ⟨new, hnew, heq ▸ hshared⟩
    · obtain h | ⟨j, old, hw, hj, ht⟩ := h
      · exact .inl h
      · obtain ⟨new, hnew, hb, -⟩ := hreads j old hj
        exact .inr ⟨j, new, hw, hnew, by omega⟩

/-- What a read that ends leaves: its own copy, or one of a newer version. -/
theorem Cell.ends_stamp (maxAge : ℕ) {read : Read k} {doc : Doc k} (hr : c.reads r = some read) (hf : read.found = some doc) :
    ∃ st, (c.ends maxAge r).stamp = some st ∧
      (st = ⟨read.begun, doc.version⟩ ∨ c.stamp = some st ∧ doc.version < st.version) := by
  simp only [Cell.ends, hr, hf, Cell.stamp]
  split_ifs with h
  · exact ⟨_, rfl, .inl rfl⟩
  · cases hc : c.copy with
    | none => simp [hc] at h
    | some copy =>
      simp only [hc, Option.all_some, decide_eq_true_eq, not_le] at h
      exact ⟨_, rfl, .inr ⟨rfl, h⟩⟩

theorem Cell.version_answered (r : ℕ) : (c.answered r).version = c.version := by
  unfold Cell.answered
  cases c.reads r <;> rfl

theorem Cell.version_fails (maxAge r : ℕ) : (c.fails maxAge r).version = c.version := by
  unfold Cell.fails
  cases c.reads r <;> rfl

theorem Cell.version_ends : c.version ≤ (c.ends maxAge r).version := by
  cases hr : c.reads r with
  | none => simp [Cell.ends, hr]
  | some read =>
    cases hf : read.found with
    | none => simp [Cell.ends, hr, hf]
    | some doc =>
      simp only [Cell.ends, hr, hf, Cell.version]
      cases hc : c.copy with
      | none => exact bot_le
      | some copy =>
        simp only [Option.all_some, decide_eq_true_eq]
        split_ifs with h
        · exact WithBot.coe_le_coe.mpr h
        · exact le_rfl

theorem Cell.Sound.ends (hs : c.Sound maxAge now) : c.Goes (c.ends maxAge r) maxAge now := by
  cases hr : c.reads r with
  | none =>
    have : c.ends maxAge r = c := by simp [Cell.ends, hr]
    rw [this]
    exact .refl hs
  | some read =>
    cases hf : read.found with
    | none =>
      have : c.ends maxAge r = c := by simp [Cell.ends, hr, hf]
      rw [this]
      exact .refl hs
    | some doc =>
      have hended : (c.ends maxAge r).ended = c.ended ++ [⟨read.begun, doc.version⟩] := by simp [Cell.ends, hr, hf]
      have hreads : (c.ends maxAge r).reads = Function.update c.reads r none := by simp [Cell.ends, hr, hf]
      have hlast : (⟨read.begun, doc.version⟩ : Stamp) ∈ (c.ends maxAge r).ended := by simp [hended]
      have hsub : c.ended ⊆ (c.ends maxAge r).ended := by simp [hended]
      have htime := hs.inTime r read hr
      have hinflight : (c.ends maxAge r).inflight = if read.shared then none else c.inflight := by simp [Cell.ends, hr, hf]
      obtain ⟨st, hst, hcopy⟩ := c.ends_stamp maxAge hr hf
      -- a call made by now has a fresh copy once the read has ended, for the read is in time
      have hfresh {asked : ℕ} (hasked : asked ≤ read.begun + maxAge) : (c.ends maxAge r).Fresh maxAge asked := by
        refine ⟨st, hst, ?_⟩
        obtain rfl | ⟨-, hlt⟩ := hcopy
        · exact .inl hasked
        · exact .inr ⟨_, hlast, hasked, hlt⟩
      refine ⟨⟨fun j old hj => ?_, fun j hj => ?_, fun n hn => ?_⟩, fun asked hasked waits h => ?_, hsub⟩
      · have hjr : j ≠ r := by
          rintro rfl
          simp [hreads] at hj
        exact hs.inTime j old (by simpa [hreads, hjr] using hj)
      · rw [hinflight] at hj
        split_ifs at hj with hshared
        obtain ⟨old, hold, hold'⟩ := hs.joined j hj
        have hjr : j ≠ r := by
          rintro rfl
          obtain rfl := Option.some.inj (hr.symm.trans hold)
          exact hshared hold'
        exact ⟨old, by simp [hreads, hjr, hold], hold'⟩
      · obtain rfl : read.begun + maxAge = n := by simpa [Cell.ends, hr, hf] using hn
        refine ⟨st, hst, ⟨read.begun, doc.version⟩, hlast, rfl, ?_⟩
        obtain rfl | ⟨-, hlt⟩ := hcopy
        · exact .inl rfl
        · exact .inr hlt
      · exact .inl (hfresh (hasked.trans htime))

theorem Cell.Sound.refresh (hs : c.Sound maxAge now) (hr : c.reads r = none) :
    c.Goes (c.refresh now r).1 maxAge now ∧ (c.refresh now r).1.Serves maxAge now (some (c.refresh now r).2) := by
  unfold Cell.refresh
  cases hin : c.inflight with
  | some run =>
    obtain ⟨read, hread, -⟩ := hs.joined run hin
    exact ⟨.refl hs, .inr ⟨run, read, rfl, hread, hs.inTime run read hread⟩⟩
  | none =>
    have hgoes := hs.begin_ hr true
    have hread : (c.begin_ now r true).reads r = some ⟨now, none, true⟩ := by simp [Cell.begin_]
    refine ⟨⟨⟨hgoes.sound.inTime, fun j hj => ?_, hgoes.sound.checked⟩, hgoes.serves, hgoes.ended⟩, ?_⟩
    · obtain rfl : r = j := by simpa using hj
      exact ⟨_, hread, rfl⟩
    · exact .inr ⟨r, _, rfl, hread, Nat.le_add_right now maxAge⟩

end

/-! ## The service -/

section
variable {x : Texts} {maxAge : ℕ} {s : State}

@[simp] theorem putCell_self {k : Kind} (c : Cell k) : (s.putCell c).cells k = c := by simp [State.putCell]

@[simp] theorem putCell_of_ne {k j : Kind} (c : Cell k) (h : j ≠ k) : (s.putCell c).cells j = s.cells j := by
  simp [State.putCell, h]

structure Inv (maxAge : ℕ) (s : State) : Prop where
  cells : ∀ k, (s.cells k).Sound maxAge s.clock
  asks : ∀ i a, s.asks i = some a → a.asked ≤ s.clock ∧ (s.cells a.kind).Serves maxAge a.asked a.waits
  answers : ∀ a ∈ s.answers, ∃ st, a.copy = some st ∧ Covers maxAge (s.cells a.kind).ended a.asked st

theorem Inv.putCell (hi : Inv maxAge s) {k : Kind} {c : Cell k} (h : (s.cells k).Goes c maxAge s.clock) :
    Inv maxAge (s.putCell c) := by
  refine ⟨fun j => ?_, fun i a ha => ?_, fun a ha => ?_⟩
  · by_cases hj : j = k
    · subst hj
      rw [putCell_self]
      exact h.sound
    · rw [putCell_of_ne c hj]
      exact hi.cells j
  · obtain ⟨hasked, hserves⟩ := hi.asks i a ha
    refine ⟨hasked, ?_⟩
    by_cases hj : a.kind = k
    · subst hj
      rw [putCell_self]
      exact h.serves a.asked hasked a.waits hserves
    · rwa [putCell_of_ne c hj]
  · obtain ⟨st, hst, hcov⟩ := hi.answers a ha
    refine ⟨st, hst, ?_⟩
    by_cases hj : a.kind = k
    · subst hj
      rw [putCell_self]
      exact hcov.mono h.ended
    · rwa [putCell_of_ne c hj]

theorem Inv.wait (hi : Inv maxAge s) (i : ℕ) {a : Ask} (ha : a.asked ≤ s.clock)
    (hserves : (s.cells a.kind).Serves maxAge a.asked a.waits) : Inv maxAge (s.wait i a) := by
  refine ⟨hi.cells, fun j b hb => ?_, hi.answers⟩
  by_cases hj : j = i
  · subst hj
    obtain rfl : a = b := by simpa [State.wait] using hb
    exact ⟨ha, hserves⟩
  · exact hi.asks j b (by simpa [State.wait, hj] using hb)

theorem Inv.answer (hi : Inv maxAge s) {a : Ask} (hfresh : (s.cells a.kind).Fresh maxAge a.asked) :
    Inv maxAge (s.answer x a) := by
  refine ⟨hi.cells, hi.asks, fun b hb => ?_⟩
  obtain hb | hb := List.mem_append.mp hb
  · exact hi.answers b hb
  · obtain rfl := List.mem_singleton.mp hb
    exact hfresh

theorem Inv.missNoted (hi : Inv maxAge s) (missedAt : List (String × ℕ)) (t : ℕ) :
    Inv maxAge { s with missedAt := missedAt, lastMissRefreshAt := t } := ⟨hi.cells, hi.asks, hi.answers⟩

theorem Inv.refresh (hi : Inv maxAge s) (i : ℕ) {r : ℕ} {k : Kind} (hr : (s.cells k).reads r = none) (q : Option Question) :
    Inv maxAge (s.refresh i r k q) := by
  obtain ⟨hgoes, hserves⟩ := (hi.cells k).refresh hr
  refine (hi.putCell hgoes).wait i le_rfl ?_
  dsimp only
  rwa [putCell_self]

theorem Inv.lookupFresh (hi : Inv maxAge s) (i : ℕ) {r : ℕ} (hr : (s.cells .ingestKeys).reads r = none) (q : Question) :
    Inv maxAge (s.lookupFresh x i r q) := by
  unfold State.lookupFresh
  split_ifs with hstale hmiss
  · exact hi.refresh i hr _
  · have hfresh := (hi.cells .ingestKeys).fresh hstale
    unfold State.missed
    dsimp only
    generalize (x.sha256 q.plain, s.clock) :: (if missMemory ≤ s.missedAt.length then [] else _) = missedAt
    split_ifs
    · exact (hi.missNoted missedAt s.clock).refresh i hr _
    · exact (hi.missNoted missedAt s.lastMissRefreshAt).wait i (a := ⟨.ingestKeys, s.clock, some q, _⟩) le_rfl (.inl hfresh)
  · exact hi.answer ((hi.cells .ingestKeys).fresh hstale)

theorem Inv.ensureFresh (hi : Inv maxAge s) (i : ℕ) {r : ℕ} {k : Kind} (hr : (s.cells k).reads r = none) :
    Inv maxAge (s.ensureFresh x i r k) := by
  unfold State.ensureFresh
  split_ifs with hstale
  · exact hi.refresh i hr none
  · exact hi.answer ((hi.cells k).fresh hstale)

/-- What a call waited for has ended, so it has a fresh copy. -/
theorem Inv.resume (hi : Inv maxAge s) (i : ℕ) : Inv maxAge (step x maxAge s (.resume i)) := by
  simp only [step]
  cases ha : s.asks i with
  | none => exact hi
  | some a =>
    dsimp only
    split_ifs with hover
    · have hserves := (hi.asks i a ha).2
      have hrest : Inv maxAge { s with asks := Function.update s.asks i none } := by
        refine ⟨hi.cells, fun j b hb => ?_, hi.answers⟩
        have hj : j ≠ i := by
          rintro rfl
          simp at hb
        exact hi.asks j b (by simpa [hj] using hb)
      refine hrest.answer (a := a) ?_
      obtain h | ⟨r, read, hw, hread, -⟩ := hserves
      · exact h
      · simp [hw, hread] at hover
    · exact hi

theorem Inv.tick (hi : Inv maxAge s) {d : ℕ} (h : InTime maxAge s (.tick d)) : Inv maxAge (step x maxAge s (.tick d)) := by
  refine ⟨fun k => ⟨h k, (hi.cells k).joined, (hi.cells k).checked⟩, fun i a ha => ?_, hi.answers⟩
  obtain ⟨hasked, hserves⟩ := hi.asks i a ha
  exact ⟨hasked.trans (Nat.le_add_right s.clock d), hserves⟩

theorem Inv.step (hi : Inv maxAge s) (e : Event) (he : InTime maxAge s e) : Inv maxAge (step x maxAge s e) := by
  cases e with
  | lookupFresh i r q =>
    simp only [ConfigCopies.step]
    split_ifs with hu
    · simp only [State.unused, Option.isNone_iff_eq_none, decide_eq_true_eq] at hu
      exact hi.lookupFresh i hu.2 q
    · exact hi
  | ensureFresh i r k =>
    simp only [ConfigCopies.step]
    split_ifs with hu
    · simp only [State.unused, Option.isNone_iff_eq_none, decide_eq_true_eq] at hu
      exact hi.ensureFresh i hu.2
    · exact hi
  | reload kind r =>
    simp only [ConfigCopies.step]
    cases kindOf kind with
    | none => exact hi
    | some k =>
      dsimp only
      split_ifs with hr
      · exact hi.putCell ((hi.cells k).begin_ (Option.isNone_iff_eq_none.mp hr) false)
      · exact hi
  | answered k r => exact hi.putCell (hi.cells k).answered
  | ends k r => exact hi.putCell (hi.cells k).ends
  | fails k r =>
    have hr : (s.cells k).reads r = none := he
    have hfails : (s.cells k).fails maxAge r = s.cells k := by simp [Cell.fails, hr]
    simp only [ConfigCopies.step, hfails]
    exact hi.putCell (.refl (hi.cells k))
  | resume i => exact hi.resume i
  | write k doc =>
    refine hi.putCell ⟨⟨(hi.cells k).inTime, (hi.cells k).joined, (hi.cells k).checked⟩, fun asked _ waits h => h, fun _ h => h⟩
  | tick d => exact hi.tick he

theorem version_putCell {j : Kind} {c : Cell j} (h : (s.cells j).version ≤ c.version) (k : Kind) :
    (s.cells k).version ≤ ((s.putCell c).cells k).version := by
  by_cases hk : k = j
  · subst hk
    rwa [putCell_self]
  · rw [putCell_of_ne c hk]

theorem version_refresh (i r : ℕ) (j : Kind) (q : Option Question) (k : Kind) :
    (s.cells k).version ≤ ((s.refresh i r j q).cells k).version := by
  have h : ((s.cells j).refresh s.clock r).1.version = (s.cells j).version := by
    unfold Cell.refresh
    cases (s.cells j).inflight <;> rfl
  exact version_putCell h.ge k

/-- No step goes back to an older version, whether reads fail or not. -/
theorem version_step (e : Event) (k : Kind) : (s.cells k).version ≤ ((step x maxAge s e).cells k).version := by
  cases e with
  | lookupFresh i r q =>
    simp only [step]
    split_ifs
    · unfold State.lookupFresh
      split_ifs
      · exact version_refresh i r .ingestKeys _ k
      · unfold State.missed
        dsimp only
        generalize (x.sha256 q.plain, s.clock) :: (if missMemory ≤ s.missedAt.length then [] else _) = missedAt
        split_ifs
        · exact version_refresh (s := { s with missedAt := missedAt, lastMissRefreshAt := s.clock }) i r .ingestKeys _ k
        · exact le_rfl
      · exact le_rfl
    · exact le_rfl
  | ensureFresh i r j =>
    simp only [step]
    split_ifs
    · unfold State.ensureFresh
      split_ifs
      · exact version_refresh i r j none k
      · exact le_rfl
    · exact le_rfl
  | reload kind r =>
    simp only [step]
    cases kindOf kind with
    | none => exact le_rfl
    | some j =>
      dsimp only
      split_ifs
      · exact version_putCell (c := (s.cells j).begin_ s.clock r false) le_rfl k
      · exact le_rfl
  | answered j r => exact version_putCell (Cell.version_answered r).ge k
  | ends j r => exact version_putCell Cell.version_ends k
  | fails j r => exact version_putCell (Cell.version_fails maxAge r).ge k
  | resume i =>
    simp only [step]
    cases s.asks i with
    | none => exact le_rfl
    | some a =>
      dsimp only
      split_ifs
      all_goals exact le_rfl
  | write j doc => exact version_putCell (c := { s.cells j with stored := some doc }) le_rfl k
  | tick d => exact le_rfl

end

/-- Whether the call was made no later than the maximum age after the read of the copy it was
answered from began, or else a read has ended that began no earlier than that and found an older version. -/
def Answer.Fresh (maxAge : ℕ) (s : State) (a : Answer) : Prop :=
  ∀ st, a.copy = some st → Covers maxAge (s.cells a.kind).ended a.asked st

def plainTexts : Texts := ⟨id, fun _ => none⟩

def token : IngestKey := ⟨"org", .ingestionToken, .otlp, "token", none, none, "active"⟩

def question : Question := ⟨"token", .ingestionToken, [.otlp]⟩

/-- A lookup's read and a reload's, which is begun later but is answered before a new snapshot is written. -/
def overtakenReload : List Event :=
  [.write .ingestKeys ⟨1, []⟩, .lookupFresh 0 0 question, .tick 5, .reload "ingest_keys" 1, .answered .ingestKeys 1,
    .write .ingestKeys ⟨2, [token]⟩, .answered .ingestKeys 0, .ends .ingestKeys 0, .resume 0, .ends .ingestKeys 1,
    .tick 29997, .lookupFresh 1 2 question]

theorem overtaken_inTime : Meets (step plainTexts 30000) (InTime 30000) (started 100000) overtakenReload := by
  refine ⟨trivial, trivial, fun k r read h => ?_, trivial, trivial, trivial, trivial, trivial, trivial, trivial, fun k r read h => ?_,
    trivial, trivial⟩
  · cases k with
    | registry => cases h
    | ingestKeys =>
      have hr : r = 0 := by
        by_contra hr
        simp [step, started, State.unused, State.lookupFresh, State.refresh, State.wait, State.putCell, Cell.refresh, Cell.begin_,
          Cell.stale, hr] at h
      subst hr
      obtain rfl : (⟨100000, none, true⟩ : Read .ingestKeys) = read := Option.some.inj h
      decide
  · cases k with
    | registry => cases h
    | ingestKeys =>
      have hr : r = 0 ∨ r = 1 := by
        by_contra hr
        obtain ⟨h0, h1⟩ := not_or.mp hr
        simp [step, started, State.unused, State.lookupFresh, State.refresh, State.wait, State.putCell, Cell.refresh, Cell.begin_,
          Cell.stale, Cell.answered, Cell.ends, kindOf, State.answer, h0, h1] at h
      obtain rfl | rfl := hr
      · cases h
      · cases h

end Upstat.ConfigCopies
