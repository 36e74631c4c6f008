import Mathlib.Algebra.Order.Ring.Int
import Mathlib.Logic.Function.Basic
import Upstat.GuardedRuns
import Upstat.SlidingWindows

/-! # The limiter of sign-in starts (`cache/sso_limiter.go`, `cache/redis.go`)

The limiter in memory and the one on Valkey, over the same calls. Calls are made at whole
milliseconds; durations, and times in memory, are nanoseconds. -/
namespace Upstat.SSOLimiters

open GuardedRuns SlidingWindows

def millisecond : ℤ := 1000000

structure SSOStartLimits where
  rateWindow : ℤ
  stateTTL : ℤ
  sourceRate : ℤ
  globalRate : ℤ
  sourcePending : ℤ
  globalPending : ℤ
  deriving DecidableEq

def SSOStartLimits.validate (l : SSOStartLimits) : Option String :=
  if l.rateWindow ≤ 0 ∨ l.stateTTL ≤ 0 ∨ l.sourceRate ≤ 0 ∨ l.globalRate ≤ 0 ∨ l.sourcePending ≤ 0 ∨ l.globalPending ≤ 0 then
    some "cache: invalid SSO start limits"
  else none

def unattributedSourceHash : String := "unattributed"

def sourceBucket (sourceHash : String) : String := if sourceHash = "" then unattributedSourceHash else sourceHash

/-! ## In memory -/

structure SSOReservation where
  id : String
  expiresAt : ℤ
  deriving DecidableEq

structure SourceSSOReservations where
  rateExpires : List ℤ
  pending : List SSOReservation
  deriving DecidableEq

structure MemorySSOLimiter where
  sources : String → Option SourceSSOReservations
  globalRate : List SSOReservation
  globalPending : List SSOReservation

def pruneSSOReservations (reservations : List SSOReservation) (now : ℤ) : List SSOReservation :=
  reservations.dropWhile fun r => !decide (now < r.expiresAt)

def removeSSOReservation (reservations : List SSOReservation) (id : String) : List SSOReservation :=
  reservations.eraseP fun r => decide (r.id = id)

def pruneTimes (times : List ℤ) (now : ℤ) : List ℤ := times.dropWhile fun t => !decide (now < t)

/-- A source with nothing left is deleted. -/
def SourceSSOReservations.kept (r : SourceSSOReservations) : Option SourceSSOReservations :=
  if r.rateExpires.isEmpty && r.pending.isEmpty then none else some r

namespace MemorySSOLimiter

variable (l : MemorySSOLimiter) (source reservationID : String) (now : ℤ) (limits : SSOStartLimits)

def ofSource : SourceSSOReservations := (l.sources source).getD ⟨[], []⟩

def prune : MemorySSOLimiter where
  sources s := (l.sources s).bind fun r => SourceSSOReservations.kept ⟨pruneTimes r.rateExpires now, pruneSSOReservations r.pending now⟩
  globalRate := pruneSSOReservations l.globalRate now
  globalPending := pruneSSOReservations l.globalPending now

/-- A limit is reached. -/
def limited : Bool :=
  (decide (limits.sourceRate ≤ (l.ofSource source).rateExpires.length) || decide (limits.sourcePending ≤ (l.ofSource source).pending.length)) ||
    decide (limits.globalRate ≤ l.globalRate.length) || decide (limits.globalPending ≤ l.globalPending.length)

def reserve : MemorySSOLimiter where
  sources := Function.update l.sources source (some
    ⟨(l.ofSource source).rateExpires ++ [now + limits.rateWindow], (l.ofSource source).pending ++ [⟨reservationID, now + limits.stateTTL⟩]⟩)
  globalRate := l.globalRate ++ [⟨"", now + limits.rateWindow⟩]
  globalPending := l.globalPending ++ [⟨reservationID, now + limits.stateTTL⟩]

def allow : Bool × MemorySSOLimiter :=
  if (l.prune now).limited source limits then
    (false, { l.prune now with sources := Function.update (l.prune now).sources source ((l.prune now).ofSource source).kept })
  else (true, (l.prune now).reserve source reservationID now limits)

def release : MemorySSOLimiter where
  sources := match l.sources source with
    | some r => Function.update l.sources source (SourceSSOReservations.kept ⟨r.rateExpires, removeSSOReservation r.pending reservationID⟩)
    | none => l.sources
  globalRate := l.globalRate
  globalPending := removeSSOReservation l.globalPending reservationID

def empty : MemorySSOLimiter := ⟨fun _ => none, [], []⟩

end MemorySSOLimiter

/-- What there is of `MemoryStore` for the limiter. -/
structure MemoryStore where
  ssoLimiter : MemorySSOLimiter

namespace MemoryStore

variable (m : MemoryStore) (sourceHash reservationID : String) (now : ℤ) (limits : SSOStartLimits)

def allowSSOStart : Except String Bool × MemoryStore :=
  match limits.validate with
  | some err => (.error err, m)
  | none =>
    let out := m.ssoLimiter.allow (sourceBucket sourceHash) reservationID (now * millisecond) limits
    (.ok out.1, ⟨out.2⟩)

def releaseSSOStart : MemoryStore := ⟨m.ssoLimiter.release (sourceBucket sourceHash) reservationID⟩

end MemoryStore

/-! ## On Valkey -/

/-- A sorted set, members with their scores, and when its key expires. -/
structure SortedSet where
  entries : List (String × ℤ)
  expireAt : Option ℤ
  deriving DecidableEq

namespace SortedSet

variable (now : ℤ) (z : Option SortedSet)

/-- What a command finds at a key. -/
def found : Option SortedSet := z.filter fun z => z.expireAt.all fun t => decide (now ≤ t)

/-- A key whose set has become empty is deleted. -/
def kept : Option SortedSet := z.filter fun z => !z.entries.isEmpty

def zremRangeByScore (max : ℤ) : Option SortedSet :=
  kept ((found now z).map fun z => { z with entries := z.entries.filter fun e => decide (max < e.2) })

def zcard : ℤ := ((found now z).map fun z => (z.entries.length : ℤ)).getD 0

def zadd (score : ℤ) (id : String) : Option SortedSet :=
  match found now z with
  | some z => some { z with entries := (z.entries.filter fun e => !decide (e.1 = id)) ++ [(id, score)] }
  | none => some ⟨[(id, score)], none⟩

def zrem (id : String) : Option SortedSet :=
  kept ((found now z).map fun z => { z with entries := z.entries.filter fun e => !decide (e.1 = id) })

def pexpire (ttl : ℤ) : Option SortedSet :=
  if ttl ≤ 0 then none else (found now z).map fun z => { z with expireAt := some (now + ttl) }

end SortedSet

/-- Valkey's keys with their sorted sets. -/
abbrev Keys := String → Option SortedSet

/-- A command on what is at a key. -/
def Keys.change (db : Keys) (key : String) (f : Option SortedSet → Option SortedSet) : Keys := Function.update db key (f (db key))

/-- The keys of one reservation. -/
structure LimiterKeys where
  sourceRate : String
  sourcePending : String
  globalRate : String
  globalPending : String

def LimiterKeys.all (keys : LimiterKeys) : List String := [keys.sourceRate, keys.sourcePending, keys.globalRate, keys.globalPending]

open SortedSet in
def allowScript (db : Keys) (keys : LimiterKeys) (now rateTTL pendingTTL sourceRate globalRate sourcePending globalPending : ℤ) (id : String) :
    Bool × Keys :=
  let db := keys.all.foldl (fun db key => db.change key fun z => zremRangeByScore now z now) db
  if sourceRate ≤ zcard now (db keys.sourceRate) ∨ globalRate ≤ zcard now (db keys.globalRate) ∨
      sourcePending ≤ zcard now (db keys.sourcePending) ∨ globalPending ≤ zcard now (db keys.globalPending) then (false, db)
  else
    let db := db.change keys.sourceRate fun z => zadd now z (now + rateTTL) id
    let db := db.change keys.globalRate fun z => zadd now z (now + rateTTL) id
    let db := db.change keys.sourcePending fun z => zadd now z (now + pendingTTL) id
    let db := db.change keys.globalPending fun z => zadd now z (now + pendingTTL) id
    (true, keys.all.foldl (fun db key => db.change key fun z => pexpire now z (max rateTTL pendingTTL)) db)

/-- `Duration.Milliseconds` -/
def milliseconds (d : ℤ) : ℤ := d.tdiv millisecond

/-- The store on Valkey, with the prefix of its keys. -/
structure RedisStore where
  keyPrefix : String
  db : Keys

namespace RedisStore

def limiterKeys (keyPrefix source : String) : LimiterKeys :=
  let base := keyPrefix ++ "auth:sso:{sso}:"
  ⟨base ++ "rate:src:" ++ source, base ++ "pending:src:" ++ source, base ++ "rate:global", base ++ "pending:global"⟩

variable (r : RedisStore) (sourceHash reservationID : String) (now : ℤ) (limits : SSOStartLimits)

def allowSSOStart : Except String Bool × RedisStore :=
  match limits.validate with
  | some err => (.error err, r)
  | none =>
    let out := allowScript r.db (limiterKeys r.keyPrefix (sourceBucket sourceHash)) now (milliseconds limits.rateWindow)
      (milliseconds limits.stateTTL) limits.sourceRate limits.globalRate limits.sourcePending limits.globalPending reservationID
    (.ok out.1, { r with db := out.2 })

def releaseSSOStart : RedisStore :=
  let keys := limiterKeys r.keyPrefix (sourceBucket sourceHash)
  let db := r.db.change keys.sourcePending fun z => SortedSet.zrem now z reservationID
  { r with db := db.change keys.globalPending fun z => SortedSet.zrem now z reservationID }

def empty (keyPrefix : String) : RedisStore := ⟨keyPrefix, fun _ => none⟩

end RedisStore

/-! ## Calls and what they are answered -/

inductive Call where
  | allow (sourceHash reservationID : String) (now : ℤ)
  | release (sourceHash reservationID : String) (now : ℤ)
  deriving DecidableEq

def Call.now : Call → ℤ
  | .allow _ _ now | .release _ _ now => now

def Call.reserves : Call → Option String
  | .allow _ id _ => some id
  | .release _ _ _ => none

/-- A start that was allowed, and whether it has been released at its source, and in all. -/
structure Start where
  source : String
  id : String
  time : ℤ
  freed : Bool
  freedInAll : Bool
  deriving DecidableEq

def Start.release (source id : String) (x : Start) : Start :=
  { x with freed := x.freed || (x.source = source && x.id = id), freedInAll := x.freedInAll || x.id = id }

/-- A start is added if it is allowed. -/
def withStart (x : Start) : Except String Bool → List Start → List Start
  | .ok true, starts => x :: starts
  | .ok false, starts | .error _, starts => starts

/-- A store with the starts it has allowed, the newest first, and all its verdicts. -/
structure Recorded (σ : Type) where
  store : σ
  starts : List Start
  verdicts : List (Except String Bool)

section
variable {σ : Type} (allowSSOStart : σ → String → String → ℤ → Except String Bool × σ) (releaseSSOStart : σ → String → String → ℤ → σ)

def record (r : Recorded σ) : Call → Recorded σ
  | .allow sourceHash id now =>
    let out := allowSSOStart r.store sourceHash id now
    ⟨out.2, withStart ⟨sourceBucket sourceHash, id, now, false, false⟩ out.1 r.starts, r.verdicts ++ [out.1]⟩
  | .release sourceHash id now => ⟨releaseSSOStart r.store sourceHash id now, r.starts.map (Start.release (sourceBucket sourceHash) id), r.verdicts⟩

end

def memoryStep (limits : SSOStartLimits) : Recorded MemoryStore → Call → Recorded MemoryStore :=
  record (fun m sourceHash id now => m.allowSSOStart sourceHash id now limits) fun m sourceHash id _ => m.releaseSSOStart sourceHash id

def redisStep (limits : SSOStartLimits) : Recorded RedisStore → Call → Recorded RedisStore :=
  record (fun r sourceHash id now => r.allowSSOStart sourceHash id now limits) fun r sourceHash id now => r.releaseSSOStart sourceHash id now

def memoryRun (limits : SSOStartLimits) (calls : List Call) : Recorded MemoryStore := run (memoryStep limits) ⟨⟨.empty⟩, [], []⟩ calls

def redisRun (keyPrefix : String) (limits : SSOStartLimits) (calls : List Call) : Recorded RedisStore :=
  run (redisStep limits) ⟨.empty keyPrefix, [], []⟩ calls

/-- Calls one after another, with a reservation's id for each start. -/
structure Proper (calls : List Call) : Prop where
  times : calls.Pairwise fun c c' => c.now ≤ c'.now
  ids : (calls.filterMap Call.reserves).Nodup

/-- The start is in the rate window that begins at an instant. -/
def Start.inWindow (limits : SSOStartLimits) (u : ℤ) (x : Start) : Bool :=
  decide (u ≤ x.time * millisecond) && decide (x.time * millisecond < u + limits.rateWindow)

/-- The start's state is there at an instant. -/
def Start.pendingAt (limits : SSOStartLimits) (t : ℤ) (x : Start) : Bool :=
  decide (x.time * millisecond ≤ t) && decide (t < x.time * millisecond + limits.stateTTL)

/-- No limit is exceeded by the starts allowed, in any rate window and at any instant. -/
structure Bounded (limits : SSOStartLimits) (starts : List Start) : Prop where
  sourceRate : ∀ source u, ((starts.countP fun x => decide (x.source = source) && x.inWindow limits u : ℕ) : ℤ) ≤ limits.sourceRate
  globalRate : ∀ u, ((starts.countP fun x => x.inWindow limits u : ℕ) : ℤ) ≤ limits.globalRate
  sourcePending : ∀ source t,
    ((starts.countP fun x => (decide (x.source = source) && !x.freed) && x.pendingAt limits t : ℕ) : ℤ) ≤ limits.sourcePending
  globalPending : ∀ t, ((starts.countP fun x => !x.freedInAll && x.pendingAt limits t : ℕ) : ℤ) ≤ limits.globalPending

/-- No start is asked for in a millisecond within which the window or the state of a start ends. -/
def Apart (limits : SSOStartLimits) (r : Recorded MemoryStore) : Call → Prop
  | .allow _ _ now => ∀ x ∈ r.starts,
      (¬millisecond ∣ limits.rateWindow → now ≠ x.time + limits.rateWindow / millisecond) ∧
        (¬millisecond ∣ limits.stateTTL → now ≠ x.time + limits.stateTTL / millisecond)
  | .release _ _ _ => True

end Upstat.SSOLimiters
