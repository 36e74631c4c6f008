import Mathlib.Data.List.AList
import Mathlib.Data.List.Sort
import Mathlib.Tactic.Linarith
import Upstat.GuardedRuns

/-! # The Python dispatcher of the shared lanes (`bus/kafka.py`)

`handle` and `redrive` run as tasks which give way to each other at every await: a task is
its place in the code, and one turn does the awaited operation and the code up to the next
await. The state store is a dictionary for each of the keys `seen:`, `dead:` and `failed:`. -/
namespace Upstat.RedriveDispatcher

open GuardedRuns

def attempts : ℕ := 3

/-- The waits before each later handling of a parked message. -/
def redriveSeconds : List ℚ := [60, 300, 1500, 3600]

/-- What the dispatcher reads off a record's value before any validation, and the events it
has a handler for. -/
structure Dispatcher (Value : Type) where
  eventOf : Value → Option String
  idOf : Value → String
  requestId : Value → Option String
  handlers : List String

/-- A parked message. -/
structure Job (Value : Type) where
  topic : String
  event : String
  requestId : Option String
  value : Value
  attempts : ℕ
  redrives : ℕ
  nextAt : ℚ

/-- The record that a message was given up on, kept without its payload. -/
structure Failed where
  topic : String
  event : String
  requestId : Option String
  reason : String
  at_ : ℚ

/-- How one handling ends. -/
inductive Outcome where
  | ok
  | invalid
  | error (name : String)

/-- What a task meets when it goes on: the end of the handling it awaits, if it does, the
clock, and whether the deadline of the pass is over. -/
structure Reading where
  outcome : Outcome
  clock : ℚ
  late : Bool

/-- Where `handle` awaits: one of the two lookups, handling number `n`, the sleep after it,
or a write to the store. -/
inductive HandlePhase (Value : Type) where
  | readSeen
  | readDead
  | once (n : ℕ)
  | asleep (n : ℕ)
  | parking (job : Job Value)
  | finishing (at_ : ℚ)
  | failing (reason : String)
  | recording (record : Failed)

/-- Where `redrive` awaits within the loop's body. -/
inductive RedrivePhase (Value : Type) where
  | readJob
  | retry (job : Job Value)
  | reparking (job : Job Value)
  | clearing
  | finishing (at_ : ℚ)
  | failing (job : Job Value) (reason : String)
  | recording (record : Failed)

inductive Task (Value : Type) where
  | handle (topic : String) (value : Value) (event : String) (phase : HandlePhase Value)
  | listing
  | redrive (key : String) (rest : List String) (phase : RedrivePhase Value)

/-- A write under the id the task is about. -/
inductive Write (Value : Type) where
  | seen (at_ : ℚ)
  | dead (job : Job Value)
  | clear
  | failed (record : Failed)

inductive Note where
  | started
  | succeeded

/-- The write a turn makes, what is to be counted, and where the task awaits next. -/
structure Turn (Value Phase : Type) where
  write : Option (Write Value) := none
  note : Option Note := none
  next : Option Phase := none

/-- What is counted under one id: the handlings, those that succeeded, those that began after
the message was recorded as failed, and whether a task about it was cut off. -/
structure Tally where
  starts : ℕ
  successes : ℕ
  afterFailed : ℕ
  interrupted : Bool

/-- All there is under one id. -/
structure Life (Value : Type) where
  seen : Option ℚ
  dead : Option (Job Value)
  failed : Option Failed
  tally : Tally

variable {Value : Type}

/-! ## One turn of a task -/

/-- The turn of `handle`; without a next place the task ends. -/
def handleTurn (d : Dispatcher Value) (l : Life Value) (topic : String) (value : Value) (event : String)
    (r : Reading) : HandlePhase Value → Turn Value (HandlePhase Value)
  | .readSeen => if l.seen.isSome then {} else { next := some .readDead }
  | .readDead => if l.dead.isSome then {} else { note := some .started, next := some (.once 1) }
  | .once n =>
    match r.outcome with
    | .ok => { note := some .succeeded, next := some (.finishing r.clock) }
    | .invalid => { next := some (.failing "invalid") }
    | .error _ =>
      if n < attempts then { next := some (.asleep n) }
      else { next := some (.parking
        ⟨topic, event, d.requestId value, value, attempts, 0, r.clock + redriveSeconds.getD 0 0⟩) }
  | .asleep n => { note := some .started, next := some (.once (n + 1)) }
  | .parking job => { write := some (.dead job) }
  | .finishing at_ => { write := some (.seen at_) }
  | .failing reason =>
    { write := some .clear, next := some (.recording ⟨topic, event, d.requestId value, reason, r.clock⟩) }
  | .recording record => { write := some (.failed record) }

/-- What follows a handling of a parked message that failed in a way worth another try. -/
def redriven (job : Job Value) (name : String) (clock : ℚ) : RedrivePhase Value :=
  let job := { job with redrives := job.redrives + 1 }
  if redriveSeconds.length ≤ job.redrives then .failing job name
  else .reparking { job with nextAt := clock + redriveSeconds.getD job.redrives 0 }

/-- The turn of `redrive` within the loop's body; without a next place the loop goes on. -/
def redriveTurn (l : Life Value) (r : Reading) : RedrivePhase Value → Turn Value (RedrivePhase Value)
  | .readJob =>
    match l.dead with
    | none => {}
    | some job => if r.clock < job.nextAt then {} else { note := some .started, next := some (.retry job) }
  | .retry job =>
    match r.outcome with
    | .ok => { note := some .succeeded, next := some .clearing }
    | .invalid => { next := some (.failing job "invalid") }
    | .error name => { next := some (redriven job name r.clock) }
  | .reparking job => { write := some (.dead job) }
  | .clearing => { write := some .clear, next := some (.finishing r.clock) }
  | .finishing at_ => { write := some (.seen at_) }
  | .failing job reason =>
    { write := some .clear, next := some (.recording ⟨job.topic, job.event, job.requestId, reason, r.clock⟩) }
  | .recording record => { write := some (.failed record) }

/-! ## The dispatcher with all of its tasks -/

/-- The state store, the tasks under their numbers, and what is counted for each id. -/
structure State (Value : Type) where
  seen : AList fun _ : String => ℚ
  dead : AList fun _ : String => Job Value
  failed : AList fun _ : String => Failed
  tasks : AList fun _ : ℕ => Task Value
  tally : String → Tally

def init : State Value := ⟨∅, ∅, ∅, ∅, fun _ => ⟨0, 0, 0, false⟩⟩

def life (s : State Value) (id : String) : Life Value :=
  ⟨s.seen.lookup id, s.dead.lookup id, s.failed.lookup id, s.tally id⟩

/-- The ids of the parked messages, in order. -/
def keys (s : State Value) : List String := s.dead.keys.insertionSort (· ≤ ·)

def State.put (s : State Value) (id : String) : Write Value → State Value
  | .seen at_ => { s with seen := s.seen.insert id at_ }
  | .dead job => { s with dead := s.dead.insert id job }
  | .clear => { s with dead := s.dead.erase id }
  | .failed record => { s with failed := s.failed.insert id record }

def Life.put (l : Life Value) : Write Value → Life Value
  | .seen at_ => { l with seen := some at_ }
  | .dead job => { l with dead := some job }
  | .clear => { l with dead := none }
  | .failed record => { l with failed := some record }

def Life.count (l : Life Value) : Note → Tally
  | .started => { l.tally with
      starts := l.tally.starts + 1
      afterFailed := if l.failed.isSome then l.tally.afterFailed + 1 else l.tally.afterFailed }
  | .succeeded => { l.tally with successes := l.tally.successes + 1 }

def Life.after {Phase : Type} (l : Life Value) (o : Turn Value Phase) : Life Value :=
  let l := o.note.elim l fun n => { l with tally := l.count n }
  o.write.elim l l.put

def State.after {Phase : Type} (s : State Value) (id : String) (o : Turn Value Phase) : State Value :=
  let s := o.note.elim s fun n => { s with tally := Function.update s.tally id ((life s id).count n) }
  o.write.elim s (s.put id)

/-- The task awaits somewhere else, or has ended. -/
def State.setTask (s : State Value) (task : ℕ) : Option (Task Value) → State Value
  | some t => { s with tasks := s.tasks.insert task t }
  | none => { s with tasks := s.tasks.erase task }

/-- The head of the loop over the parked messages. -/
def nextKey (late : Bool) : List String → Option (Task Value)
  | [] => none
  | key :: rest => if late then none else some (.redrive key rest .readJob)

def go (d : Dispatcher Value) (s : State Value) (task : ℕ) (r : Reading) : Task Value → State Value
  | .handle topic value event phase =>
    let o := handleTurn d (life s (d.idOf value)) topic value event r phase
    (s.after (d.idOf value) o).setTask task (o.next.map (.handle topic value event))
  | .listing => s.setTask task (nextKey r.late (keys s))
  | .redrive key rest phase =>
    let o := redriveTurn (life s key) r phase
    (s.after key o).setTask task
      (o.next.elim (nextKey r.late rest) fun phase => some (.redrive key rest phase))

/-- The task has taken its message up and is not done with it. -/
def underWay (d : Dispatcher Value) (id : String) : Task Value → Bool
  | .handle _ value _ phase =>
    match phase with
    | .readSeen | .readDead => false
    | _ => d.idOf value = id
  | .listing => false
  | .redrive key _ phase =>
    match phase with
    | .readJob => false
    | _ => key = id

/-- A record comes in, first or again; a pass over the parked messages begins; a task has
what it awaits; a task dies where it awaits, by a crash of the service, which is this for
each of its tasks, or by the cancellation of a pass at its deadline. -/
inductive Event (Value : Type) where
  | deliver (task : ℕ) (topic : String) (value : Value)
  | pass (task : ℕ)
  | go (task : ℕ) (r : Reading)
  | crash (task : ℕ)

def step (d : Dispatcher Value) (s : State Value) : Event Value → State Value
  | .deliver task topic value =>
    match d.eventOf value with
    | none => s
    | some event =>
      if event ∈ d.handlers ∧ task ∉ s.tasks then s.setTask task (some (.handle topic value event .readSeen)) else s
  | .pass task => if task ∉ s.tasks then s.setTask task (some .listing) else s
  | .go task r =>
    match s.tasks.lookup task with
    | none => s
    | some t => go d s task r t
  | .crash task =>
    match s.tasks.lookup task with
    | none => s
    | some t =>
      { s with
        tally := fun id =>
          { s.tally id with interrupted := (s.tally id).interrupted || underWay d id t } }.setTask task none

/-! ## What is claimed of every id, and the condition -/

/-- Handled successfully at most once, at most one of the keys set, handled at most
`ATTEMPTS + len(REDRIVE_SECONDS)` times, and never again after it was recorded as failed. -/
structure Good (l : Life Value) : Prop where
  successes_le : l.tally.successes ≤ 1
  keys_le : l.seen.isSome.toNat + l.dead.isSome.toNat + l.failed.isSome.toNat ≤ 1
  starts_le : l.tally.starts ≤ attempts + redriveSeconds.length
  afterFailed_eq : l.tally.afterFailed = 0

/-- No task is under way with the id. -/
def Free (d : Dispatcher Value) (id : String) (s : State Value) : Prop :=
  ∀ p ∈ s.tasks.entries, underWay d id p.2 = false

/-- Going on, the task begins with the handlings of the id: `handle` finds it not parked,
`redrive` finds its wait over. -/
def takesUp (d : Dispatcher Value) (id : String) (s : State Value) (r : Reading) : Task Value → Bool
  | .handle _ value _ .readDead => d.idOf value = id ∧ (life s id).dead.isNone
  | .redrive key _ .readJob => key = id ∧ (life s id).dead.any fun job => job.nextAt ≤ r.clock
  | _ => false

/-- Nothing was cut off, nothing is under way, and the id is neither seen nor failed. -/
def Unclaimed (d : Dispatcher Value) (id : String) (s : State Value) : Prop :=
  Free d id s ∧ (life s id).tally.interrupted = false ∧ (life s id).seen.isNone ∧ (life s id).failed.isNone

/-- A task only takes the id up when it is unclaimed. -/
def Fits (d : Dispatcher Value) (id : String) (s : State Value) : Event Value → Prop
  | .go task r => ∀ t ∈ s.tasks.lookup task, takesUp d id s r t → Unclaimed d id s
  | _ => True

instance (l : Life Value) : Decidable (Good l) :=
  decidable_of_iff
    (l.tally.successes ≤ 1 ∧ l.seen.isSome.toNat + l.dead.isSome.toNat + l.failed.isSome.toNat ≤ 1 ∧
      l.tally.starts ≤ attempts + redriveSeconds.length ∧ l.tally.afterFailed = 0)
    ⟨fun ⟨hs, hk, hn, hf⟩ => ⟨hs, hk, hn, hf⟩, fun ⟨hs, hk, hn, hf⟩ => ⟨hs, hk, hn, hf⟩⟩

instance (d : Dispatcher Value) (id : String) (s : State Value) : Decidable (Unclaimed d id s) :=
  inferInstanceAs (Decidable ((∀ p ∈ s.tasks.entries, underWay d id p.2 = false) ∧ _ ∧ _ ∧ _))

instance (d : Dispatcher Value) (id : String) (s : State Value) : (e : Event Value) → Decidable (Fits d id s e)
  | .go task r =>
    inferInstanceAs (Decidable (∀ t ∈ s.tasks.lookup task, takesUp d id s r t → Unclaimed d id s))
  | .deliver _ _ _ => isTrue trivial
  | .pass _ => isTrue trivial
  | .crash _ => isTrue trivial

/-! ## Reading a state after a step -/

section Reads
variable (s : State Value) (id : String) (task : ℕ) {Phase : Type} (o : Turn Value Phase)

@[simp] theorem life_setTask (t : Option (Task Value)) : life (s.setTask task t) id = life s id := by
  cases t <;> rfl

@[simp] theorem lookup_setTask (t : Option (Task Value)) : (s.setTask task t).tasks.lookup task = t := by
  cases t <;> simp [State.setTask]

theorem lookup_setTask_of_ne {task' : ℕ} (h : task' ≠ task) (t : Option (Task Value)) :
    (s.setTask task t).tasks.lookup task' = s.tasks.lookup task' := by
  cases t with
  | none => exact AList.lookup_erase_ne h
  | some t => exact AList.lookup_insert_ne h

@[simp] theorem tasks_put (w : Write Value) : (s.put id w).tasks = s.tasks := by
  cases w <;> rfl

@[simp] theorem tasks_after : (s.after id o).tasks = s.tasks := by
  unfold State.after
  cases o.note <;> cases o.write <;> simp

theorem life_put (w : Write Value) : life (s.put id w) id = (life s id).put w := by
  cases w <;> simp [State.put, Life.put, life]

theorem life_put_of_ne {id' : String} (h : id' ≠ id) (w : Write Value) : life (s.put id w) id' = life s id' := by
  cases w <;> simp [State.put, life, AList.lookup_insert_ne h, AList.lookup_erase_ne h]

theorem life_after : life (s.after id o) id = (life s id).after o := by
  unfold State.after Life.after
  cases o.note <;> cases o.write <;> simp [life_put] <;> simp [life]

theorem life_after_of_ne {id' : String} (h : id' ≠ id) : life (s.after id o) id' = life s id' := by
  unfold State.after
  cases o.note <;> cases o.write <;> simp [life_put_of_ne _ _ h] <;> simp [life, h]

end Reads

variable {d : Dispatcher Value} {id : String} {s : State Value}

theorem free_iff : Free d id s ↔ ∀ task, ∀ t ∈ s.tasks.lookup task, underWay d id t = false := by
  constructor
  · intro h task t ht
    exact h ⟨task, t⟩ (AList.mem_lookup_iff.mp ht)
  · rintro h ⟨task, t⟩ hp
    exact h task t (AList.mem_lookup_iff.mpr hp)

theorem nextKey_idle (late : Bool) (rest : List String) : ∀ t ∈ nextKey late rest, underWay d id t = false := by
  intro t ht
  cases rest with
  | nil => simp [nextKey] at ht
  | cons key rest =>
    cases late with
    | true => simp [nextKey] at ht
    | false =>
      obtain rfl : Task.redrive key rest .readJob = t := by simpa [nextKey] using ht
      rfl

/-! ## Where an id stands -/

def Life.Unmarked (l : Life Value) : Prop := l.seen = none ∧ l.dead = none ∧ l.failed = none

/-- Parked, with `k` later handlings behind it. -/
def Life.Parked (l : Life Value) (k : ℕ) : Prop :=
  l.seen = none ∧ (∃ job, l.dead = some job ∧ job.redrives = k) ∧ l.failed = none ∧ k < redriveSeconds.length

/-- Between the tasks about it. -/
inductive Rest (l : Life Value) : Prop where
  | untouched (unmarked : l.Unmarked) (starts : l.tally.starts = 0) (successes : l.tally.successes = 0)
  | done (seen : l.seen.isSome) (dead : l.dead = none) (failed : l.failed = none)
      (starts : l.tally.starts ≤ attempts + redriveSeconds.length) (successes : l.tally.successes = 1)
  | parked (k : ℕ) (parked : l.Parked k) (starts : l.tally.starts = attempts + k) (successes : l.tally.successes = 0)
  | failed (failed : l.failed.isSome) (seen : l.seen = none) (dead : l.dead = none)
      (starts : l.tally.starts ≤ attempts + redriveSeconds.length) (successes : l.tally.successes = 0)

/-- What a phase of `handle` knows of its id. -/
def HandlePhase.Matches (l : Life Value) : HandlePhase Value → Prop
  | .readSeen | .readDead => False
  | .once n => l.Unmarked ∧ l.tally.starts = n ∧ n ≤ attempts ∧ l.tally.successes = 0
  | .asleep n => l.Unmarked ∧ l.tally.starts = n ∧ n < attempts ∧ l.tally.successes = 0
  | .parking job => l.Unmarked ∧ l.tally.starts = attempts ∧ job.redrives = 0 ∧ l.tally.successes = 0
  | .finishing _ => l.Unmarked ∧ l.tally.starts ≤ attempts ∧ l.tally.successes = 1
  | .failing _ | .recording _ => l.Unmarked ∧ l.tally.starts ≤ attempts ∧ l.tally.successes = 0

/-- What a phase of `redrive` knows of its id. -/
def RedrivePhase.Matches (l : Life Value) : RedrivePhase Value → Prop
  | .readJob => False
  | .retry job => l.Parked job.redrives ∧ l.tally.starts = attempts + job.redrives + 1 ∧ l.tally.successes = 0
  | .reparking job =>
    (∃ k, l.Parked k) ∧ l.tally.starts = attempts + job.redrives ∧ job.redrives < redriveSeconds.length ∧
      l.tally.successes = 0
  | .clearing =>
    (∃ k, l.Parked k) ∧ l.tally.starts ≤ attempts + redriveSeconds.length ∧ l.tally.successes = 1
  | .finishing _ => l.Unmarked ∧ l.tally.starts ≤ attempts + redriveSeconds.length ∧ l.tally.successes = 1
  | .failing _ _ =>
    (∃ k, l.Parked k) ∧ l.tally.starts ≤ attempts + redriveSeconds.length ∧ l.tally.successes = 0
  | .recording _ => l.Unmarked ∧ l.tally.starts ≤ attempts + redriveSeconds.length ∧ l.tally.successes = 0

def Task.Matches (d : Dispatcher Value) (id : String) (l : Life Value) : Task Value → Prop
  | .handle _ value _ phase => d.idOf value = id ∧ phase.Matches l
  | .listing => False
  | .redrive key _ phase => key = id ∧ phase.Matches l

theorem Task.Matches.underWay {l : Life Value} {t : Task Value} (h : t.Matches d id l) : underWay d id t = true := by
  cases t with
  | handle topic value event phase =>
    obtain ⟨hid, hphase⟩ := h
    cases phase <;> simp_all [RedriveDispatcher.underWay, HandlePhase.Matches]
  | listing => exact h.elim
  | redrive key rest phase =>
    obtain ⟨hid, hphase⟩ := h
    cases phase <;> simp_all [RedriveDispatcher.underWay, RedrivePhase.Matches]

theorem Rest.good {l : Life Value} (h : Rest l) (hl : l.tally.afterFailed = 0) : Good l := by
  cases h with
  | untouched unmarked starts successes =>
    obtain ⟨hs, hd, hf⟩ := unmarked
    exact ⟨by omega, by simp [hs, hd, hf], by omega, hl⟩
  | done seen dead failed starts successes => exact ⟨by omega, by simp [seen, dead, failed], starts, hl⟩
  | parked k parked starts successes =>
    obtain ⟨hs, ⟨job, hd, -⟩, hf, hk⟩ := parked
    exact ⟨by omega, by simp [hs, hd, hf], by omega, hl⟩
  | failed failed seen dead starts successes => exact ⟨by omega, by simp [seen, dead, failed], starts, hl⟩

theorem Rest.untouched_of {l : Life Value} (h : Rest l) (hs : l.seen = none) (hd : l.dead = none)
    (hf : l.failed = none) : l.tally.starts = 0 ∧ l.tally.successes = 0 := by
  cases h with
  | untouched unmarked starts successes => exact ⟨starts, successes⟩
  | done seen => simp [hs] at seen
  | parked k parked =>
    obtain ⟨-, ⟨job, hjob, -⟩, -⟩ := parked
    simp [hd] at hjob
  | failed failed => simp [hf] at failed

theorem Rest.parked_of {l : Life Value} (h : Rest l) {job : Job Value} (hd : l.dead = some job) :
    l.Parked job.redrives ∧ l.tally.starts = attempts + job.redrives ∧ l.tally.successes = 0 := by
  cases h with
  | untouched unmarked => simp [unmarked.2.1] at hd
  | done seen dead => simp [dead] at hd
  | parked k parked starts successes =>
    obtain ⟨job', hjob, rfl⟩ := parked.2.1
    obtain rfl : job' = job := Option.some.inj (hjob.symm.trans hd)
    exact ⟨parked, starts, successes⟩
  | failed failed seen dead => simp [dead] at hd

theorem Life.Unmarked.keys_le {l : Life Value} (h : l.Unmarked) :
    l.seen.isSome.toNat + l.dead.isSome.toNat + l.failed.isSome.toNat ≤ 1 := by
  obtain ⟨hs, hd, hf⟩ := h
  simp [hs, hd, hf]

theorem Life.Parked.keys_le {l : Life Value} {k : ℕ} (h : l.Parked k) :
    l.seen.isSome.toNat + l.dead.isSome.toNat + l.failed.isSome.toNat ≤ 1 := by
  obtain ⟨hs, ⟨job, hd, -⟩, hf, -⟩ := h
  simp [hs, hd, hf]

theorem HandlePhase.Matches.good {l : Life Value} {phase : HandlePhase Value} (h : phase.Matches l)
    (hl : l.tally.afterFailed = 0) : Good l := by
  have bounds : l.Unmarked ∧ l.tally.starts ≤ attempts ∧ l.tally.successes ≤ 1 := by
    cases phase with
    | readSeen => exact h.elim
    | readDead => exact h.elim
    | once n =>
      obtain ⟨unmarked, starts, hn, successes⟩ := h
      exact ⟨unmarked, by omega, by omega⟩
    | asleep n =>
      obtain ⟨unmarked, starts, hn, successes⟩ := h
      exact ⟨unmarked, by omega, by omega⟩
    | parking job =>
      obtain ⟨unmarked, starts, -, successes⟩ := h
      exact ⟨unmarked, by omega, by omega⟩
    | finishing at_ => exact ⟨h.1, h.2.1, h.2.2.le⟩
    | failing reason => exact ⟨h.1, h.2.1, h.2.2.le.trans zero_le_one⟩
    | recording record => exact ⟨h.1, h.2.1, h.2.2.le.trans zero_le_one⟩
  obtain ⟨unmarked, starts, successes⟩ := bounds
  exact ⟨successes, unmarked.keys_le, by omega, hl⟩

theorem RedrivePhase.Matches.good {l : Life Value} {phase : RedrivePhase Value} (h : phase.Matches l)
    (hl : l.tally.afterFailed = 0) : Good l := by
  cases phase with
  | readJob => exact h.elim
  | retry job =>
    obtain ⟨parked, starts, successes⟩ := h
    have hk := parked.2.2.2
    exact ⟨by omega, parked.keys_le, by omega, hl⟩
  | reparking job =>
    obtain ⟨⟨k, parked⟩, starts, hk, successes⟩ := h
    exact ⟨by omega, parked.keys_le, by omega, hl⟩
  | clearing =>
    obtain ⟨⟨k, parked⟩, starts, successes⟩ := h
    exact ⟨by omega, parked.keys_le, starts, hl⟩
  | finishing at_ => exact ⟨h.2.2.le, h.1.keys_le, h.2.1, hl⟩
  | failing job reason =>
    obtain ⟨⟨k, parked⟩, starts, successes⟩ := h
    exact ⟨by omega, parked.keys_le, starts, hl⟩
  | recording record => exact ⟨h.2.2.le.trans zero_le_one, h.1.keys_le, h.2.1, hl⟩

theorem Task.Matches.good {l : Life Value} {t : Task Value} (h : t.Matches d id l) (hl : l.tally.afterFailed = 0) :
    Good l := by
  cases t with
  | handle topic value event phase => exact h.2.good hl
  | listing => exact h.elim
  | redrive key rest phase => exact h.2.good hl

/-! ## The turns of a task at work -/

section Turns
variable {l : Life Value} {r : Reading}

/-- A turn of `handle` leads to what the next place knows, or leaves the id at rest. -/
theorem handleTurn_matches {topic : String} {value : Value} {event : String} {phase : HandlePhase Value}
    (h : phase.Matches l) (o : Turn Value (HandlePhase Value)) (ho : o = handleTurn d l topic value event r phase) :
    o.next.elim (Rest (l.after o)) fun next => next.Matches (l.after o) := by
  subst ho
  cases phase with
  | readSeen => exact h.elim
  | readDead => exact h.elim
  | once n =>
    obtain ⟨unmarked, starts, hn, successes⟩ := h
    cases hr : r.outcome with
    | ok =>
      simp only [handleTurn, hr]
      exact ⟨unmarked, by simpa [Life.after, Life.count, starts] using hn, by simp [Life.after, Life.count, successes]⟩
    | invalid =>
      simp only [handleTurn, hr]
      exact ⟨unmarked, by simpa [Life.after, starts] using hn, successes⟩
    | error name =>
      simp only [handleTurn, hr]
      split
      · next hlt => exact ⟨unmarked, starts, hlt, successes⟩
      · next hlt => exact ⟨unmarked, show l.tally.starts = attempts by omega, rfl, successes⟩
  | asleep n =>
    obtain ⟨unmarked, starts, hn, successes⟩ := h
    exact ⟨unmarked, by simp [handleTurn, Life.after, Life.count, starts], hn, successes⟩
  | parking job =>
    obtain ⟨⟨seen, -, failed⟩, starts, redrives, successes⟩ := h
    exact .parked 0 ⟨seen, ⟨job, rfl, redrives⟩, failed, by decide⟩ starts successes
  | finishing at_ =>
    obtain ⟨⟨-, dead, failed⟩, starts, successes⟩ := h
    exact .done rfl dead failed (Nat.le_add_right_of_le starts) successes
  | failing reason =>
    obtain ⟨⟨seen, -, failed⟩, starts, successes⟩ := h
    exact ⟨⟨seen, rfl, failed⟩, starts, successes⟩
  | recording record =>
    obtain ⟨⟨seen, dead, -⟩, starts, successes⟩ := h
    exact .failed rfl seen dead (Nat.le_add_right_of_le starts) successes

theorem redriven_matches {job : Job Value} {name : String} {clock : ℚ} (parked : l.Parked job.redrives)
    (starts : l.tally.starts = attempts + job.redrives + 1) (successes : l.tally.successes = 0) :
    (redriven job name clock).Matches l := by
  have hk := parked.2.2.2
  simp only [redriven]
  split
  · exact ⟨⟨_, parked⟩, by omega, successes⟩
  · next hlt => exact ⟨⟨_, parked⟩, by simp only [starts]; omega, by simpa using hlt, successes⟩

theorem redriveTurn_matches {phase : RedrivePhase Value} (h : phase.Matches l)
    (o : Turn Value (RedrivePhase Value)) (ho : o = redriveTurn l r phase) :
    o.next.elim (Rest (l.after o)) fun next => next.Matches (l.after o) := by
  subst ho
  cases phase with
  | readJob => exact h.elim
  | retry job =>
    obtain ⟨parked, starts, successes⟩ := h
    have hk := parked.2.2.2
    cases hr : r.outcome with
    | ok =>
      simp only [redriveTurn, hr]
      exact ⟨⟨_, parked⟩, by simp only [Life.after, Life.count, Option.elim]; omega,
        by simp [Life.after, Life.count, successes]⟩
    | invalid =>
      simp only [redriveTurn, hr]
      exact ⟨⟨_, parked⟩, by simp only [Life.after, Option.elim]; omega, successes⟩
    | error name =>
      simp only [redriveTurn, hr]
      exact redriven_matches parked starts successes
  | reparking job =>
    obtain ⟨⟨k, seen, -, failed, -⟩, starts, hk, successes⟩ := h
    exact .parked job.redrives ⟨seen, ⟨job, rfl, rfl⟩, failed, hk⟩ starts successes
  | clearing =>
    obtain ⟨⟨k, seen, -, failed, -⟩, starts, successes⟩ := h
    exact ⟨⟨seen, rfl, failed⟩, starts, successes⟩
  | finishing at_ =>
    obtain ⟨⟨-, dead, failed⟩, starts, successes⟩ := h
    exact .done rfl dead failed starts successes
  | failing job reason =>
    obtain ⟨⟨k, seen, -, failed, -⟩, starts, successes⟩ := h
    exact ⟨⟨seen, rfl, failed⟩, starts, successes⟩
  | recording record =>
    obtain ⟨⟨seen, dead, -⟩, starts, successes⟩ := h
    exact .failed rfl seen dead starts successes

end Turns

theorem count_afterFailed {l : Life Value} (h : l.failed = none) (n : Note) :
    (l.count n).afterFailed = l.tally.afterFailed := by
  cases n <;> simp [Life.count, h]

theorem after_afterFailed {Phase : Type} {l : Life Value} (h : l.failed = none) (o : Turn Value Phase) :
    (l.after o).tally.afterFailed = l.tally.afterFailed := by
  have hn : (o.note.elim l fun n => { l with tally := l.count n }).tally.afterFailed = l.tally.afterFailed := by
    cases o.note with
    | none => rfl
    | some n => exact count_afterFailed h n
  unfold Life.after
  cases o.write with
  | none => exact hn
  | some w => cases w <;> exact hn

theorem after_interrupted {Phase : Type} (l : Life Value) (o : Turn Value Phase) :
    (l.after o).tally.interrupted = l.tally.interrupted := by
  have hn : (o.note.elim l fun n => { l with tally := l.count n }).tally.interrupted = l.tally.interrupted := by
    cases o.note with
    | none => rfl
    | some n => cases n <;> rfl
  unfold Life.after
  cases o.write with
  | none => exact hn
  | some w => cases w <;> exact hn

/-- A task at work finds no record of a failure. -/
theorem Task.Matches.failed {l : Life Value} {t : Task Value} (h : t.Matches d id l) : l.failed = none := by
  cases t with
  | handle topic value event phase =>
    obtain ⟨-, h⟩ := h
    cases phase with
    | readSeen => exact h.elim
    | readDead => exact h.elim
    | _ => exact h.1.2.2
  | listing => exact h.elim
  | redrive key rest phase =>
    obtain ⟨-, h⟩ := h
    cases phase with
    | readJob => exact h.elim
    | retry job => exact h.1.2.2.1
    | finishing at_ => exact h.1.2.2
    | recording record => exact h.1.2.2
    | _ =>
      obtain ⟨⟨k, parked⟩, -⟩ := h
      exact parked.2.2.1

/-! ## The invariant of one id -/

/-- Whether the task of that number is under way with the id. -/
def busy (d : Dispatcher Value) (id : String) (s : State Value) (task : ℕ) : Bool :=
  (s.tasks.lookup task).any (underWay d id)

/-- No task is under way and the id is at rest, or exactly one is and knows the id, or one
was cut off and none is under way since. -/
inductive Fine (d : Dispatcher Value) (id : String) (s : State Value) : Prop where
  | idle (free : ∀ task, busy d id s task = false) (rest : Rest (life s id))
      (clean : (life s id).tally.afterFailed = 0) (whole : (life s id).tally.interrupted = false)
  | working (task : ℕ) (t : Task Value) (here : s.tasks.lookup task = some t) (knows : t.Matches d id (life s id))
      (alone : ∀ task' ≠ task, busy d id s task' = false) (clean : (life s id).tally.afterFailed = 0)
      (whole : (life s id).tally.interrupted = false)
  | cut (free : ∀ task, busy d id s task = false) (good : Good (life s id))
      (interrupted : (life s id).tally.interrupted = true)

theorem Fine.good (h : Fine d id s) : Good (life s id) := by
  cases h with
  | idle free rest clean whole => exact rest.good clean
  | working task t here knows alone clean whole => exact knows.good clean
  | cut free good interrupted => exact good

theorem fine_init (d : Dispatcher Value) (id : String) : Fine d id init :=
  .idle (fun _ => rfl) (.untouched ⟨rfl, rfl, rfl⟩ rfl rfl) rfl rfl

theorem Free.busy (h : Free d id s) (task : ℕ) : busy d id s task = false := by
  have ht := free_iff.mp h task
  unfold RedriveDispatcher.busy
  cases hlook : s.tasks.lookup task with
  | none => rfl
  | some t => exact ht t hlook

/-- What a step leaves alone about an id: what is stored and counted, and which tasks are
under way with it. -/
structure Untouched (d : Dispatcher Value) (id : String) (s s' : State Value) : Prop where
  life_eq : life s' id = life s id
  lookup_eq : ∀ task, busy d id s task = true → s'.tasks.lookup task = s.tasks.lookup task
  busy_eq : ∀ task, busy d id s' task = busy d id s task

theorem Fine.untouched {s' : State Value} (h : Fine d id s) (hs : Untouched d id s s') : Fine d id s' := by
  cases h with
  | idle free rest clean whole =>
    refine .idle (fun task => ?_) ?_ ?_ ?_
    · rw [hs.busy_eq, free]
    all_goals rw [hs.life_eq]; assumption
  | working task t here knows alone clean whole =>
    have hbusy : busy d id s task = true := by simp [busy, here, knows.underWay]
    refine .working task t ?_ ?_ (fun task' hne => ?_) ?_ ?_
    · rw [hs.lookup_eq task hbusy, here]
    · rw [hs.life_eq]; exact knows
    · rw [hs.busy_eq, alone task' hne]
    all_goals rw [hs.life_eq]; assumption
  | cut free good interrupted =>
    refine .cut (fun task => ?_) ?_ ?_
    · rw [hs.busy_eq, free]
    all_goals rw [hs.life_eq]; assumption

/-- A task that was not under way with the id and is not afterwards, where nothing under the
id was written. -/
theorem untouched_setTask {s' : State Value} {task : ℕ} {t' : Option (Task Value)} (htasks : s'.tasks = s.tasks)
    (hlife : life s' id = life s id) (hb : busy d id s task = false) (ht' : ∀ t ∈ t', underWay d id t = false) :
    Untouched d id s (s'.setTask task t') := by
  refine ⟨by rw [life_setTask, hlife], fun task' h => ?_, fun task' => ?_⟩
  · have hne : task' ≠ task := by
      rintro rfl
      rw [hb] at h
      exact Bool.false_ne_true h
    rw [lookup_setTask_of_ne _ _ hne, htasks]
  · by_cases hne : task' = task
    · subst hne
      rw [hb, busy, lookup_setTask]
      cases t' with
      | none => rfl
      | some t => exact ht' t rfl
    · rw [busy, lookup_setTask_of_ne _ _ hne, htasks, busy]

theorem go_handle {task : ℕ} {r : Reading} {topic : String} {value : Value} {event : String}
    {phase : HandlePhase Value} {o : Turn Value (HandlePhase Value)}
    (ho : handleTurn d (life s (d.idOf value)) topic value event r phase = o) :
    go d s task r (.handle topic value event phase) =
      (s.after (d.idOf value) o).setTask task (o.next.map (.handle topic value event)) := by
  subst ho
  rfl

theorem go_redrive {task : ℕ} {r : Reading} {key : String} {rest : List String} {phase : RedrivePhase Value}
    {o : Turn Value (RedrivePhase Value)} (ho : redriveTurn (life s key) r phase = o) :
    go d s task r (.redrive key rest phase) =
      (s.after key o).setTask task
        (o.next.elim (nextKey r.late rest) fun phase => some (.redrive key rest phase)) := by
  subst ho
  rfl

theorem Fine.go_elsewhere {task : ℕ} {t : Task Value} {r : Reading} (h : Fine d id s)
    (here : s.tasks.lookup task = some t) (ht : underWay d id t = false) (hr : takesUp d id s r t = false) :
    Fine d id (go d s task r t) := by
  have hb : busy d id s task = false := by simp [busy, here, ht]
  apply h.untouched
  cases t with
  | listing => exact untouched_setTask rfl rfl hb (nextKey_idle _ _)
  | handle topic value event phase =>
    by_cases hid : d.idOf value = id
    · subst hid
      have hnext : ∀ t ∈ ((some HandlePhase.readDead).map (Task.handle topic value event)),
          underWay d (d.idOf value) t = false := by
        rintro t ht'
        obtain rfl : Task.handle topic value event .readDead = t := by simpa using ht'
        rfl
      cases phase with
      | readSeen =>
        cases hseen : (life s (d.idOf value)).seen with
        | none =>
          rw [go_handle (o := ⟨none, none, some .readDead⟩) (by simp [handleTurn, hseen])]
          exact untouched_setTask rfl rfl hb hnext
        | some at_ =>
          rw [go_handle (o := ⟨none, none, none⟩) (by simp [handleTurn, hseen])]
          exact untouched_setTask rfl rfl hb (by simp)
      | readDead =>
        cases hdead : (life s (d.idOf value)).dead with
        | none => simp [takesUp, hdead] at hr
        | some job =>
          rw [go_handle (o := ⟨none, none, none⟩) (by simp [handleTurn, hdead])]
          exact untouched_setTask rfl rfl hb (by simp)
      | _ => simp [underWay] at ht
    · refine untouched_setTask (tasks_after _ _ _) (life_after_of_ne _ _ _ (Ne.symm hid)) hb ?_
      intro t ht'
      obtain ⟨phase', -, rfl⟩ := Option.map_eq_some_iff.mp ht'
      cases phase' <;> simp [underWay, hid]
  | redrive key rest phase =>
    by_cases hid : key = id
    · subst hid
      cases phase with
      | readJob =>
        cases hdead : (life s key).dead with
        | none =>
          rw [go_redrive (o := ⟨none, none, none⟩) (by simp [redriveTurn, hdead])]
          exact untouched_setTask rfl rfl hb (nextKey_idle _ _)
        | some job =>
          have hwait : r.clock < job.nextAt := by
            simpa [takesUp, hdead] using hr
          rw [go_redrive (o := ⟨none, none, none⟩) (by simp [redriveTurn, hdead, hwait])]
          exact untouched_setTask rfl rfl hb (nextKey_idle _ _)
      | _ => simp [underWay] at ht
    · refine untouched_setTask (tasks_after _ _ _) (life_after_of_ne _ _ _ (Ne.symm hid)) hb ?_
      intro t ht'
      cases hnext : (redriveTurn (life s key) r phase).next with
      | none => exact nextKey_idle _ _ t (by simpa [hnext] using ht')
      | some phase' =>
        obtain rfl : Task.redrive key rest phase' = t := by simpa [hnext] using ht'
        cases phase' <;> simp [underWay, hid]

/-- One task has the id to itself and, after its turn, knows it or is done with it. -/
theorem fine_after {Phase : Type} {task : ℕ} {o : Turn Value Phase} {t' : Option (Task Value)}
    (alone : ∀ task' ≠ task, busy d id s task' = false) (failed : (life s id).failed = none)
    (clean : (life s id).tally.afterFailed = 0) (whole : (life s id).tally.interrupted = false)
    (knows : (∃ t ∈ t', t.Matches d id ((life s id).after o)) ∨
      (∀ t ∈ t', underWay d id t = false) ∧ Rest ((life s id).after o)) :
    Fine d id ((s.after id o).setTask task t') := by
  have hlife : life ((s.after id o).setTask task t') id = (life s id).after o := by rw [life_setTask, life_after]
  have hclean : (life ((s.after id o).setTask task t') id).tally.afterFailed = 0 := by
    rw [hlife, after_afterFailed failed, clean]
  have hwhole : (life ((s.after id o).setTask task t') id).tally.interrupted = false := by
    rw [hlife, after_interrupted, whole]
  have hothers : ∀ task' ≠ task, busy d id ((s.after id o).setTask task t') task' = false := by
    intro task' hne
    rw [busy, lookup_setTask_of_ne _ _ hne, tasks_after]
    exact alone task' hne
  obtain ⟨t, ht, hmatches⟩ | ⟨hidle, hrest⟩ := knows
  · exact .working task t (by rw [lookup_setTask]; exact ht) (by rwa [hlife]) hothers hclean hwhole
  · refine .idle (fun task' => ?_) (by rwa [hlife]) hclean hwhole
    by_cases hne : task' = task
    · subst hne
      rw [busy, lookup_setTask]
      cases t' with
      | none => rfl
      | some t => exact hidle t rfl
    · exact hothers task' hne

theorem fine_go_working {task : ℕ} {t : Task Value} (r : Reading) (knows : t.Matches d id (life s id))
    (alone : ∀ task' ≠ task, busy d id s task' = false) (clean : (life s id).tally.afterFailed = 0)
    (whole : (life s id).tally.interrupted = false) : Fine d id (go d s task r t) := by
  have hfailed := knows.failed
  cases t with
  | listing => exact knows.elim
  | handle topic value event phase =>
    obtain ⟨rfl, hphase⟩ := knows
    obtain ⟨o, ho⟩ : ∃ o, handleTurn d (life s (d.idOf value)) topic value event r phase = o := ⟨_, rfl⟩
    have hmatches := handleTurn_matches hphase o ho.symm
    rw [go_handle ho]
    refine fine_after alone hfailed clean whole ?_
    cases hnext : o.next with
    | none =>
      rw [hnext] at hmatches
      exact .inr ⟨by simp, hmatches⟩
    | some phase' => exact .inl ⟨_, rfl, rfl, by simpa [hnext] using hmatches⟩
  | redrive key rest phase =>
    obtain ⟨rfl, hphase⟩ := knows
    obtain ⟨o, ho⟩ : ∃ o, redriveTurn (life s key) r phase = o := ⟨_, rfl⟩
    have hmatches := redriveTurn_matches hphase o ho.symm
    rw [go_redrive ho]
    refine fine_after alone hfailed clean whole ?_
    cases hnext : o.next with
    | none =>
      rw [hnext] at hmatches
      exact .inr ⟨nextKey_idle _ _, hmatches⟩
    | some phase' => exact .inl ⟨_, rfl, rfl, by simpa [hnext] using hmatches⟩

/-- An unclaimed id is at rest. -/
theorem Fine.rest (h : Fine d id s) (hun : Unclaimed d id s) :
    Rest (life s id) ∧ (life s id).tally.afterFailed = 0 := by
  obtain ⟨hfree, hwhole, -, -⟩ := hun
  cases h with
  | idle free rest clean whole => exact ⟨rest, clean⟩
  | working task t here knows alone clean whole =>
    have hbusy := hfree.busy task
    simp [busy, here, knows.underWay] at hbusy
  | cut free good interrupted =>
    rw [hwhole] at interrupted
    exact absurd interrupted Bool.false_ne_true

/-- A task that takes up an unclaimed id begins its first handling, or the next one of the
parked message. -/
theorem fine_go_takesUp {task : ℕ} {t : Task Value} {r : Reading} (h : Fine d id s) (hr : takesUp d id s r t)
    (hun : Unclaimed d id s) : Fine d id (go d s task r t) := by
  obtain ⟨rest, clean⟩ := h.rest hun
  obtain ⟨hfree, hwhole, hseen, hfailed⟩ := hun
  have hseen : (life s id).seen = none := Option.isNone_iff_eq_none.mp hseen
  have hfailed : (life s id).failed = none := Option.isNone_iff_eq_none.mp hfailed
  have alone : ∀ task' ≠ task, busy d id s task' = false := fun task' _ => hfree.busy task'
  cases t with
  | listing => exact absurd hr Bool.false_ne_true
  | handle topic value event phase =>
    cases phase with
    | readDead =>
      obtain ⟨rfl, hdead⟩ : d.idOf value = id ∧ (life s id).dead = none := by simpa [takesUp] using hr
      obtain ⟨starts, successes⟩ := rest.untouched_of hseen hdead hfailed
      rw [go_handle (o := ⟨none, some .started, some (.once 1)⟩) (by simp [handleTurn, hdead])]
      refine fine_after alone hfailed clean hwhole (.inl ⟨_, rfl, rfl, ⟨hseen, hdead, hfailed⟩, ?_, by decide, successes⟩)
      simp [Life.after, Life.count, starts]
    | _ => exact absurd hr Bool.false_ne_true
  | redrive key keys phase =>
    cases phase with
    | readJob =>
      obtain ⟨rfl, hdue⟩ : key = id ∧ (life s id).dead.any fun job => job.nextAt ≤ r.clock := by
        simpa only [takesUp, decide_eq_true_eq] using hr
      obtain ⟨job, hdead, hdue⟩ : ∃ job, (life s key).dead = some job ∧ job.nextAt ≤ r.clock := by
        cases hdead : (life s key).dead with
        | none => simp [hdead] at hdue
        | some job => exact ⟨job, rfl, by simpa [hdead] using hdue⟩
      obtain ⟨parked, starts, successes⟩ := rest.parked_of hdead
      rw [go_redrive (o := ⟨none, some .started, some (.retry job)⟩) (by simp [redriveTurn, hdead, hdue])]
      refine fine_after alone hfailed clean hwhole (.inl ⟨_, rfl, rfl, parked, ?_, successes⟩)
      simp [Life.after, Life.count, starts]
    | _ => exact absurd hr Bool.false_ne_true

/-- Where a task is under way with the id, it is the only one and knows the id. -/
theorem Fine.working_of {task : ℕ} {t : Task Value} (h : Fine d id s) (here : s.tasks.lookup task = some t)
    (hunder : underWay d id t = true) :
    t.Matches d id (life s id) ∧ (∀ task' ≠ task, busy d id s task' = false) ∧
      (life s id).tally.afterFailed = 0 ∧ (life s id).tally.interrupted = false := by
  have hb : busy d id s task = true := by simp [busy, here, hunder]
  cases h with
  | idle free => exact absurd (free task) (by simp [hb])
  | cut free => exact absurd (free task) (by simp [hb])
  | working task' t' here' knows alone clean whole =>
    have hsame : task = task' := by
      by_contra hne
      exact absurd (alone task hne) (by simp [hb])
    subst hsame
    obtain rfl : t = t' := Option.some.inj (here.symm.trans here')
    exact ⟨knows, alone, clean, whole⟩

theorem untouched_start {task : ℕ} {t : Task Value} (hfresh : task ∉ s.tasks) (ht : underWay d id t = false) :
    Untouched d id s (s.setTask task (some t)) := by
  have hb : busy d id s task = false := by simp [busy, AList.lookup_eq_none.mpr hfresh]
  refine untouched_setTask rfl rfl hb fun t' ht' => ?_
  obtain rfl : t = t' := by simpa using ht'
  exact ht

theorem fine_crash {task : ℕ} {t : Task Value} (h : Fine d id s) (here : s.tasks.lookup task = some t) :
    Fine d id (step d s (.crash task)) := by
  simp only [step, here]
  cases hunder : underWay d id t with
  | false =>
    have hb : busy d id s task = false := by simp [busy, here, hunder]
    exact h.untouched (untouched_setTask rfl (by simp [life, hunder]) hb (by simp))
  | true =>
    have good : Good (life s id) := h.good
    obtain ⟨-, alone, -, -⟩ := h.working_of here hunder
    refine .cut (fun other => ?_) ?_ ?_
    · by_cases hne : other = task
      · subst hne
        rw [busy, lookup_setTask]
        rfl
      · rw [busy, lookup_setTask_of_ne _ _ hne]
        exact alone other hne
    · rw [life_setTask]
      exact ⟨good.successes_le, good.keys_le, good.starts_le, good.afterFailed_eq⟩
    · rw [life_setTask]
      simp [life, hunder]

theorem fine_step (e : Event Value) (h : Fine d id s) (he : Fits d id s e) : Fine d id (step d s e) := by
  cases e with
  | deliver task topic value =>
    simp only [step]
    split
    · exact h
    · split
      · next hstart => exact h.untouched (untouched_start hstart.2 rfl)
      · exact h
  | pass task =>
    simp only [step]
    split
    · next hfresh => exact h.untouched (untouched_start hfresh rfl)
    · exact h
  | crash task =>
    cases here : s.tasks.lookup task with
    | none => simpa only [step, here] using h
    | some t => exact fine_crash h here
  | go task r =>
    cases here : s.tasks.lookup task with
    | none => simpa only [step, here] using h
    | some t =>
      simp only [step, here]
      cases hr : takesUp d id s r t with
      | true => exact fine_go_takesUp h hr (he t here hr)
      | false =>
        cases hunder : underWay d id t with
        | false => exact h.go_elsewhere here hunder hr
        | true =>
          obtain ⟨knows, alone, clean, whole⟩ := h.working_of here hunder
          exact fine_go_working r knows alone clean whole

/-- In every run in which tasks only take an id up when it is unclaimed, its life is good. -/
theorem handled_once (d : Dispatcher Value) (id : String) (es : List (Event Value))
    (h : Meets (step d) (Fits d id) init es) : Throughout (step d) (fun s => Good (life s id)) init es := by
  have hfine : Throughout (step d) (Fine d id) init es :=
    h.throughout (fun s e hs he => fine_step e hs he) (fine_init d id)
  exact hfine.imp fun s hs => hs.good

/-- A record with its type and its id. -/
def records : Dispatcher (String × String) where
  eventOf value := some value.1
  idOf value := value.2
  requestId _ := none
  handlers := ["upstat.monitor.transition"]

def record : String × String := ("upstat.monitor.transition", "7c")

/-- The first attempts fail and the record is parked; a redelivery is left alone, a pass
handles it, and another redelivery finds it seen. -/
def parkedThenHandled : List (Event (String × String)) :=
  let next (task : ℕ) (outcome : Outcome) (clock : ℚ) : Event (String × String) := .go task ⟨outcome, clock, false⟩
  [.deliver 0 "results" record, next 0 .ok 0, next 0 .ok 0, next 0 (.error "TimeoutError") 1, next 0 .ok 2,
    next 0 (.error "TimeoutError") 3, next 0 .ok 5, next 0 (.error "TimeoutError") 6, next 0 .ok 6,
    .deliver 1 "results" record, next 1 .ok 7, next 1 .ok 7,
    .pass 2, next 2 .ok 70, next 2 .ok 70, next 2 .ok 71, next 2 .ok 71, next 2 .ok 71,
    .deliver 3 "results" record, next 3 .ok 80]

theorem parkedThenHandled_good :
    Meets (step records) (Fits records "7c") init parkedThenHandled ∧
      Throughout (step records) (fun s => Good (life s "7c")) init parkedThenHandled := by
  have fits : Meets (step records) (Fits records "7c") init parkedThenHandled := by decide +kernel
  exact ⟨fits, handled_once records "7c" parkedThenHandled fits⟩

/-- The message can never succeed and is recorded as failed, and its record comes in again. -/
def failedThenRedelivered : List (Event (String × String)) :=
  let next (task : ℕ) (outcome : Outcome) : Event (String × String) := .go task ⟨outcome, 0, false⟩
  [.deliver 0 "results" record, next 0 .ok, next 0 .ok, next 0 .invalid, next 0 .ok, next 0 .ok,
    .deliver 1 "results" record, next 1 .ok, next 1 .ok]

theorem failed_handled_again :
    ¬Throughout (step records) (fun s => Good (life s "7c")) init failedThenRedelivered := by
  decide +kernel

end Upstat.RedriveDispatcher
