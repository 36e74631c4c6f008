import Mathlib
import Upstat.ExpiringMaps

/-! # The stores of pending sign-ins (`cache/memory.go`, `cache/redis.go`)

The store in memory deletes lapsed entries when it comes across them, and scans for them once a
minute. Valkey drops a key by itself. Times are nanoseconds of one clock, `now` is read under the
mutex, and `made` before it. -/
namespace Upstat.StateStores

open ExpiringMaps

abbrev Bytes : Type := ByteArray

def memorySweepInterval : ℤ := 60 * 1000000000

/-- `encoding/json`, for the values of one type. -/
structure Json (α : Type) where
  marshal : α → Except String Bytes
  unmarshal : Bytes → Except String α

inductive Err where
  | marshal (cause : String)
  /-- `ErrCacheMiss` -/
  | miss
  | unmarshal (cause : String)
  /-- An error of the connection. -/
  | client
  deriving DecidableEq

inductive Call (α : Type) where
  | set (made : ℤ) (key : String) (v : α) (ttl : ℤ)
  | get (key : String)
  | take (key : String)
  | del (keys : List String)

section
variable {α : Type} (j : Json α)

def decode : Option Bytes → Except Err (Option α)
  | none => .error .miss
  | some b => match j.unmarshal b with
    | .ok v => .ok (some v)
    | .error cause => .error (.unmarshal cause)

def entryOf (b : Bytes) (made ttl : ℤ) : Entry Bytes ℤ := ⟨b, if 0 < ttl then some (made + ttl) else none⟩

/-! ## In memory -/

structure MemoryStore where
  entries : Entries String Bytes ℤ
  /-- Nothing for the zero time. -/
  lastSweep : Option ℤ

namespace MemoryStore

variable (m : MemoryStore)

def new : MemoryStore := ⟨fun _ => none, none⟩

def maybeSweep (now : ℤ) : MemoryStore :=
  if m.lastSweep.any fun last => now - last < memorySweepInterval then m
  else ⟨fun key => (m.entries key).filter (·.live now), some now⟩

def getLive (key : String) (now : ℤ) : Option Bytes × MemoryStore :=
  match m.entries key with
  | none => (none, m)
  | some e => if e.live now then (some e.value, m) else (none, { m with entries := m.entries.erase key })

def call (now : ℤ) : Call α → Except Err (Option α) × MemoryStore
  | .set made key v ttl =>
    match j.marshal v with
    | .error cause => (.error (.marshal cause), m)
    | .ok b =>
      let swept := m.maybeSweep now
      (.ok none, { swept with entries := swept.entries.put key (entryOf b made ttl) })
  | .get key =>
    let (found, m) := (m.maybeSweep now).getLive key now
    (decode j found, m)
  | .take key =>
    let (found, m) := (m.maybeSweep now).getLive key now
    (decode j found, if found.isSome then { m with entries := m.entries.erase key } else m)
  | .del keys => (.ok none, { m with entries := m.entries.eraseAll keys })

end MemoryStore

/-! ## As a map whose entries lapse -/

/-- The same calls on entries that lapse by themselves, as in a store that is asked to drop them. -/
def call (m : Entries String Bytes ℤ) (now : ℤ) : Call α → Except Err (Option α) × Entries String Bytes ℤ
  | .set made key v ttl =>
    match j.marshal v with
    | .error cause => (.error (.marshal cause), m)
    | .ok b => (.ok none, (m.apply now (.put key (entryOf b made ttl))).2)
  | .get key => (decode j (m.apply now (.read key)).1, (m.apply now (.read key)).2)
  | .take key => (decode j (m.apply now (.take key)).1, (m.apply now (.take key)).2)
  | .del keys => (.ok none, (m.apply now (.erase keys)).2)

/-- A call whose answer is lost, before or after it has reached the store. -/
def withFault {S : Type} (step : S → ℤ → Call α → Except Err (Option α) × S) (fault : Option Bool) (s : S) (now : ℤ) (c : Call α) :
    Except Err (Option α) × S :=
  match fault with
  | none => step s now c
  | some reached => (.error .client, if reached then (step s now c).2 else s)

/-- What calls are answered, each at its time. -/
def answers {S : Type} (step : S → ℤ → Call α → Except Err (Option α) × S) : S → List (ℤ × Call α) → List (Except Err (Option α))
  | _, [] => []
  | s, (now, c) :: calls => (step s now c).1 :: answers step (step s now c).2 calls

variable {j} {m : MemoryStore} {now : ℤ}

theorem swept_maybeSweep : Swept now m.entries (m.maybeSweep now).entries := by
  intro key
  simp only [MemoryStore.maybeSweep]
  split_ifs
  · exact .inl rfl
  · rcases hkey : m.entries key with - | e
    · exact .inl (by simp [hkey])
    · by_cases hlive : e.live now
      · exact .inl (by simp [hkey, Option.filter, hlive])
      · exact .inr ⟨by simp [hkey, Option.filter, hlive], by simpa using hlive⟩

/-- The lapsed entry that is asked for is deleted. -/
theorem getLive_eq (m : MemoryStore) (now : ℤ) (key : String) :
    (m.getLive key now).1 = m.entries.lookup now key ∧ Swept now m.entries (m.getLive key now).2.entries := by
  simp only [MemoryStore.getLive, Entries.lookup]
  rcases hkey : m.entries key with - | e
  · exact ⟨by simp, fun other => .inl rfl⟩
  · by_cases hlive : e.live now
    · simp only [hlive, if_true, Option.filter]
      exact ⟨rfl, fun other => .inl rfl⟩
    · refine ⟨by simp [Option.filter, hlive], fun other => ?_⟩
      simp only [hlive, Bool.false_eq_true, if_false, Entries.erase_apply]
      by_cases hother : other = key
      · exact .inr ⟨by simp [hother], by simpa [hother, hkey] using hlive⟩
      · simp [hother]

/-- What a look under the mutex finds, and leaves. -/
theorem look_eq {p : Entries String Bytes ℤ} (h : Same now m.entries p) (key : String) :
    ((m.maybeSweep now).getLive key now).1 = p.lookup now key ∧ Same now ((m.maybeSweep now).getLive key now).2.entries p := by
  have hswept : Same now (m.maybeSweep now).entries p := fun later hle k =>
    (swept_maybeSweep.same later hle k).symm.trans (h later hle k)
  obtain ⟨hfound, hleft⟩ := getLive_eq (m.maybeSweep now) now key
  refine ⟨hfound.trans (hswept now le_rfl key), fun later hle k => ?_⟩
  exact (hleft.same later hle k).symm.trans (hswept later hle k)

/-- A call is answered alike, and leaves entries that show the same. -/
theorem call_same {p : Entries String Bytes ℤ} (h : Same now m.entries p) (c : Call α) :
    (m.call j now c).1 = (call j p now c).1 ∧ Same now (m.call j now c).2.entries (call j p now c).2 := by
  cases c with
  | set made key v ttl =>
    simp only [MemoryStore.call, call]
    split
    · exact ⟨rfl, h⟩
    · refine ⟨rfl, Same.put (fun later hle k => ?_) key _⟩
      exact (swept_maybeSweep.same later hle k).symm.trans (h later hle k)
  | get key =>
    obtain ⟨hfound, hleft⟩ := look_eq h key
    exact ⟨congrArg (decode j) hfound, hleft⟩
  | take key =>
    obtain ⟨hfound, hleft⟩ := look_eq h key
    refine ⟨congrArg (decode j) hfound, ?_⟩
    simp only [MemoryStore.call]
    split_ifs with hsome
    · exact hleft.erase key
    · have hidden : p.lookup now key = none := by
        rw [← hfound]
        simpa using hsome
      exact hleft.erase_hidden hidden
  | del keys => exact ⟨rfl, h.eraseAll keys⟩

/-- The calls come in the order of their times. -/
def InOrder (calls : List (ℤ × Call α)) : Prop := (calls.map Prod.fst).Pairwise (· ≤ ·)

theorem answers_same {p : Entries String Bytes ℤ} {since : ℤ} (h : Same since m.entries p) {calls : List (ℤ × Call α)}
    (horder : InOrder calls) (hsince : ∀ c ∈ calls, since ≤ c.1) :
    answers (fun m => MemoryStore.call j m) m calls = answers (call j) p calls := by
  induction calls generalizing m p since with
  | nil => rfl
  | cons c calls ih =>
    obtain ⟨now, c⟩ := c
    obtain ⟨hfirst, hrest⟩ := List.pairwise_cons.mp horder
    have hsame := h.later (hsince _ (List.mem_cons_self ..))
    obtain ⟨hanswer, hleft⟩ := call_same (j := j) hsame c
    have hlater : ∀ c ∈ calls, now ≤ c.1 := fun c hc => hfirst c.1 (List.mem_map_of_mem hc)
    rw [answers, answers, hanswer, ih hleft hrest hlater]

/-- The texts of the two truth values. -/
def boolJson : Json Bool where
  marshal b := .ok (toString b).toUTF8
  unmarshal t := if t = "true".toUTF8 then .ok true else if t = "false".toUTF8 then .ok false else .error "invalid character"

/-- A value is taken once, another lapses and is swept away by the look for a third. -/
def threeKeys : List (ℤ × Call Bool) :=
  [(0, .set 0 "a" true 600000000000), (5, .set 0 "b" false 1), (9, .take "a"), (9, .take "a"), (70000000000, .get "c"), (70000000001, .get "b")]

end

end Upstat.StateStores
