import Mathlib.Algebra.Order.Ring.Int
import Mathlib.Data.List.Basic
import Mathlib.Logic.Function.Basic
import Upstat.GuardedRuns

/-! # The queue of insights (`service/insight_generator.py`)

`InsightGenerator.on_transition` and `run`, cut at their awaits: a call on the state is made in one
event, and a generation takes from the event that begins it to the one that ends it. Times are
milliseconds. -/
namespace Upstat.InsightQueue

open GuardedRuns

def second : ℤ := 1000

def keptDowns : ℕ := 50

/-- The time after which the state lets a queued job lapse. -/
def jobTTL : ℤ := 24 * 3600 * second

/-- The least time that a generation is given. -/
def leastWait : ℤ := 100

/-- A transition's message; `target` is its `to`. -/
structure Message where
  monitor_id : String
  org_id : String
  target : String
  deriving DecidableEq

structure Job where
  org_id : String
  active : Bool
  deriving DecidableEq

/-- Where `on_transition` is. -/
inductive Handling where
  | incidents (msg : Message)
  | downs (msg : Message) (downs : List ℤ)
  | queueing (msg : Message)
  deriving DecidableEq

/-- How a pass has come to delete a key. -/
inductive Outcome where
  | nothing
  | ended
  | cut
  deriving DecidableEq

/-- Where `run` is: in the loop with the keys that are left, or in the hourly pass. -/
inductive Stage where
  | listing
  | head (keys : List String)
  | asking (m : String) (keys : List String)
  | answered (m : String) (job : Option Job) (keys : List String)
  | generating (m : String) (g : ℕ) (timeout : ℤ) (keys : List String)
  | deleting (m : String) (why : Outcome) (keys : List String)
  | hourly
  | sweeping (m : String) (g : ℕ) (timeout : ℤ)
  deriving DecidableEq

structure Pass where
  deadline : ℤ
  done : ℕ
  stage : Stage
  deriving DecidableEq

/-- What happens to a monitor's job, and to the generations for the monitor. -/
inductive Entry where
  | queued (m : String)
  | began (m : String) (g : ℕ)
  | ended (m : String) (g : ℕ)
  | removed (m : String)
  deriving DecidableEq

structure State where
  clock : ℤ
  incidents : String → List ℤ
  queue : String → Option (Job × ℤ)
  arrived : ℕ
  handlings : ℕ → Option Handling
  started : ℕ
  passes : ℕ → Option Pass
  generations : ℕ
  log : List Entry

inductive Event where
  | arrive (msg : Message)
  | readDowns (t : ℕ) (now : ℤ) (failed : Bool)
  | writeDowns (t : ℕ) (failed : Bool)
  | put (t : ℕ) (failed : Bool)
  | lapse (m : String)
  | start (deadline : ℤ)
  /-- The state lists its keys, of which a scan may miss some and give some twice. -/
  | list (p : ℕ) (keys : List String)
  | check (p : ℕ)
  | get (p : ℕ) (failed : Bool)
  | begin (p : ℕ)
  /-- A generation returns or raises. -/
  | finish (p : ℕ)
  /-- A generation is cut off at its timeout. -/
  | cut (p : ℕ)
  | delete (p : ℕ) (failed : Bool)
  | sweep (p : ℕ) (m : String)
  /-- A pass returns, or is cancelled at an await. -/
  | stop (p : ℕ)
  | tick (d : ℕ)

/-! ## Transitions -/

/-- What is left to do when the incidents are written. -/
def queueing (msg : Message) : Option Handling :=
  if msg.target ∈ ["down", "up", "nodata"] then some (.queueing msg) else none

def handling (msg : Message) : Option Handling :=
  if msg.target = "down" then some (.incidents msg) else queueing msg

/-- The last of the downs, with one more. -/
def withDown (downs : List ℤ) (now : ℤ) : List ℤ :=
  (downs ++ [now]).drop ((downs ++ [now]).length - keptDowns)

section
variable (s : State)

def State.setHandling (t : ℕ) (x : Option Handling) : State := { s with handlings := Function.update s.handlings t x }

def State.arrive (msg : Message) : State :=
  { s with arrived := s.arrived + 1, handlings := Function.update s.handlings s.arrived (handling msg) }

def State.put (t : ℕ) (msg : Message) : State :=
  { s with
    handlings := Function.update s.handlings t none
    queue := Function.update s.queue msg.monitor_id (some (⟨msg.org_id, msg.target = "down"⟩, s.clock + jobTTL))
    log := s.log ++ [.queued msg.monitor_id] }

/-! ## Passes -/

def State.move (p : ℕ) (x : Option Pass) (es : List Entry) : State :=
  { s with passes := Function.update s.passes p x, log := s.log ++ es }

/-- The instant at which `wait_for` cuts off a generation that begins now. -/
def State.timeout (deadline : ℤ) : ℤ := s.clock + max (deadline - s.clock) leastWait

/-- The loop's head: the next key, or on to the hourly pass. -/
def State.check (x : Pass) : List String → Stage
  | [] => .hourly
  | m :: keys => if x.deadline ≤ s.clock then .hourly else .asking m keys

def State.begin (p : ℕ) (x : Pass) (m : String) (stage : Stage) : State :=
  { s.move p (some { x with stage := stage }) [.began m s.generations] with generations := s.generations + 1 }

def State.delete (p : ℕ) (x : Pass) (m : String) (keys : List String) : State :=
  { s.move p (some { x with stage := .head keys }) (if (s.queue m).isSome then [.removed m] else []) with
    queue := Function.update s.queue m none }

end

def step (s : State) : Event → State
  | .arrive msg => s.arrive msg
  | .readDowns t now failed =>
    match s.handlings t with
    | some (.incidents msg) =>
      s.setHandling t (some (.downs msg (withDown (if failed then [] else s.incidents msg.monitor_id) now)))
    | _ => s
  | .writeDowns t failed =>
    match s.handlings t with
    | some (.downs msg downs) =>
      { s.setHandling t (queueing msg) with
        incidents := if failed then s.incidents else Function.update s.incidents msg.monitor_id downs }
    | _ => s
  | .put t failed =>
    match s.handlings t with
    | some (.queueing msg) => if failed then s.setHandling t none else s.put t msg
    | _ => s
  | .lapse m =>
    match s.queue m with
    | some (_, lapses) => if lapses ≤ s.clock then { s with queue := Function.update s.queue m none } else s
    | none => s
  | .start deadline =>
    { s with started := s.started + 1, passes := Function.update s.passes s.started (some ⟨deadline, 0, .listing⟩) }
  | .list p keys =>
    match s.passes p with
    | some ⟨deadline, done, .listing⟩ => s.move p (some ⟨deadline, done, .head keys⟩) []
    | _ => s
  | .check p =>
    match s.passes p with
    | some ⟨deadline, done, .head keys⟩ => s.move p (some ⟨deadline, done, s.check ⟨deadline, done, .head keys⟩ keys⟩) []
    | _ => s
  | .get p failed =>
    match s.passes p with
    | some ⟨deadline, done, .asking m keys⟩ =>
      s.move p (some ⟨deadline, done, .answered m (if failed then none else (s.queue m).map Prod.fst) keys⟩) []
    | _ => s
  | .begin p =>
    match s.passes p with
    | some ⟨deadline, done, .answered m none keys⟩ => s.move p (some ⟨deadline, done, .deleting m .nothing keys⟩) []
    | some ⟨deadline, done, .answered m (some job) keys⟩ =>
      s.begin p ⟨deadline, done, .answered m (some job) keys⟩ m (.generating m s.generations (s.timeout deadline) keys)
    | _ => s
  | .finish p =>
    match s.passes p with
    | some ⟨deadline, done, .generating m g _ keys⟩ =>
      s.move p (some ⟨deadline, done + 1, .deleting m .ended keys⟩) [.ended m g]
    | some ⟨deadline, done, .sweeping m g _⟩ => s.move p (some ⟨deadline, done + 1, .hourly⟩) [.ended m g]
    | _ => s
  | .cut p =>
    match s.passes p with
    | some ⟨deadline, done, .generating m _ timeout keys⟩ =>
      if timeout ≤ s.clock then s.move p (some ⟨deadline, done + 1, .deleting m .cut keys⟩) [] else s
    | some ⟨deadline, done, .sweeping _ _ timeout⟩ =>
      if timeout ≤ s.clock then s.move p (some ⟨deadline, done + 1, .hourly⟩) [] else s
    | _ => s
  | .delete p failed =>
    match s.passes p with
    | some ⟨deadline, done, .deleting m why keys⟩ =>
      if failed then s.move p (some ⟨deadline, done, .head keys⟩) [] else s.delete p ⟨deadline, done, .deleting m why keys⟩ m keys
    | _ => s
  | .sweep p m =>
    match s.passes p with
    | some ⟨deadline, done, .hourly⟩ =>
      if deadline ≤ s.clock then s
      else s.begin p ⟨deadline, done, .hourly⟩ m (.sweeping m s.generations (s.timeout deadline))
    | _ => s
  | .stop p => s.move p none []
  | .tick d => { s with clock := s.clock + d }

def initial (clock : ℤ) : State := ⟨clock, fun _ => [], fun _ => none, 0, fun _ => none, 0, fun _ => none, 0, []⟩

/-! ## What is to hold of the log -/

/-- A generation for the monitor began after the job was last queued. -/
def Fresh (m : String) (g : ℕ) (log : List Entry) : Prop :=
  ∃ l l', log = l ++ .began m g :: l' ∧ .queued m ∉ l'

/-- Such a generation ran to its own end. -/
def Served (m : String) (log : List Entry) : Prop :=
  ∃ g l l', log = l ++ .began m g :: l' ∧ .queued m ∉ l' ∧ .ended m g ∈ l'

/-- A job is removed only when it has been served. -/
def Kept (log : List Entry) : Prop := ∀ l m l', log = l ++ .removed m :: l' → Served m l

section
variable {log : List Entry} {m : String} {g : ℕ} {e : Entry}

theorem fresh_began : Fresh m g (log ++ [.began m g]) := ⟨log, [], rfl, List.not_mem_nil⟩

theorem Fresh.append (h : Fresh m g log) (he : e ≠ .queued m) : Fresh m g (log ++ [e]) := by
  obtain ⟨l, l', rfl, hq⟩ := h
  refine ⟨l, l' ++ [e], by simp, ?_⟩
  simpa [hq] using he.symm

theorem Served.append (h : Served m log) (he : e ≠ .queued m) : Served m (log ++ [e]) := by
  obtain ⟨g, l, l', rfl, hq, hend⟩ := h
  refine ⟨g, l, l' ++ [e], by simp, ?_, List.mem_append_left _ hend⟩
  simpa [hq] using he.symm

theorem Fresh.served (h : Fresh m g log) : Served m (log ++ [.ended m g]) := by
  obtain ⟨l, l', rfl, hq⟩ := h
  refine ⟨g, l, l' ++ [.ended m g], by simp, ?_, by simp⟩
  simpa using hq

theorem Kept.append (h : Kept log) (he : ∀ m, e = .removed m → Served m log) : Kept (log ++ [e]) := by
  intro l m l' heq
  rcases List.eq_nil_or_concat l' with rfl | ⟨l'', e', rfl⟩
  · obtain ⟨rfl, hlast⟩ := List.append_inj' heq rfl
    exact he m (List.singleton_inj.mp hlast)
  · rw [List.concat_eq_append, ← List.cons_append, ← List.append_assoc] at heq
    exact h l m l'' (List.append_inj' heq rfl).1

end

/-! ## When passes keep what is queued -/

/-- A pass has begun the monitor's generation, or found nothing queued for it, and has yet to delete its key. -/
def Stage.inHand (m : String) : Stage → Bool
  | .answered m' none _ | .generating m' _ _ _ | .deleting m' _ _ => m' = m
  | .listing | .head _ | .asking _ _ | .answered _ (some _) _ | .hourly | .sweeping _ _ _ => false

/-- The monitor whose key is about to be read. -/
def Stage.asks : Stage → Option String
  | .asking m _ => some m
  | _ => none

/-- The monitor whose key is about to be deleted after its generation was cut off. -/
def Stage.cutOff : Stage → Option String
  | .deleting m .cut _ => some m
  | _ => none

def Handling.queues : Handling → Option String
  | .queueing msg => some msg.monitor_id
  | _ => none

/-- No job is queued while a pass has its monitor in hand, no read of a queued job fails, and a pass
whose generation was cut off gets to no delete of a queued job. -/
def Timely (s : State) : Event → Prop
  | .put t failed => failed = false → ∀ x ∈ s.handlings t, ∀ m ∈ x.queues, ∀ p < s.started, ∀ y ∈ s.passes p, y.stage.inHand m = false
  | .get p failed => failed = true → ∀ x ∈ s.passes p, ∀ m ∈ x.stage.asks, s.queue m = none
  | .delete p _ => ∀ x ∈ s.passes p, ∀ m ∈ x.stage.cutOff, s.queue m = none
  | .arrive _ | .readDowns _ _ _ | .writeDowns _ _ | .lapse _ | .start _ | .list _ _ | .check _ | .begin _ | .finish _ | .cut _
  | .sweep _ _ | .stop _ | .tick _ => True

instance (s : State) (e : Event) : Decidable (Timely s e) :=
  match e with
  | .put t failed => inferInstanceAs (Decidable (failed = false → ∀ x ∈ s.handlings t, ∀ m ∈ x.queues, ∀ p < s.started,
      ∀ y ∈ s.passes p, y.stage.inHand m = false))
  | .get p failed => inferInstanceAs (Decidable (failed = true → ∀ x ∈ s.passes p, ∀ m ∈ x.stage.asks, s.queue m = none))
  | .delete p _ => inferInstanceAs (Decidable (∀ x ∈ s.passes p, ∀ m ∈ x.stage.cutOff, s.queue m = none))
  | .arrive _ | .readDowns _ _ _ | .writeDowns _ _ | .lapse _ | .start _ | .list _ _ | .check _ | .begin _ | .finish _ | .cut _
  | .sweep _ _ | .stop _ | .tick _ => .isTrue trivial

/-- What a pass has behind it where it has a monitor in hand. -/
def Backed (s : State) : Stage → Prop
  | .answered m none _ | .deleting m .nothing _ => s.queue m = none
  | .generating m g _ _ => Fresh m g s.log
  | .deleting m .ended _ => Served m s.log
  | .listing | .head _ | .asking _ _ | .answered _ (some _) _ | .deleting _ .cut _ | .hourly | .sweeping _ _ _ => True

structure Inv (s : State) : Prop where
  numbered : ∀ p x, s.passes p = some x → p < s.started
  backed : ∀ p x, s.passes p = some x → Backed s x.stage
  kept : Kept s.log

section
variable {s s' : State} {stage : Stage} {p : ℕ} {x : Pass} {m : String} {keys : List String}

/-- What one more entry, and what happens to the queue, leave of what a pass has behind it. -/
theorem Backed.mono (h : Backed s stage) (hqueue : ∀ m, stage.inHand m = true → s.queue m = none → s'.queue m = none)
    (hlog : s'.log = s.log ∨ ∃ e, s'.log = s.log ++ [e] ∧ ∀ m, stage.inHand m = true → e ≠ .queued m) : Backed s' stage := by
  cases stage with
  | answered m job keys =>
    cases job with
    | none => exact hqueue m (by simp [Stage.inHand]) h
    | some job => trivial
  | generating m g timeout keys =>
    rcases hlog with hlog | ⟨e, hlog, he⟩
    · simpa only [Backed, hlog] using h
    · simpa only [Backed, hlog] using Fresh.append h (he m (by simp [Stage.inHand]))
  | deleting m why keys =>
    cases why with
    | nothing => exact hqueue m (by simp [Stage.inHand]) h
    | ended =>
      rcases hlog with hlog | ⟨e, hlog, he⟩
      · simpa only [Backed, hlog] using h
      · simpa only [Backed, hlog] using Served.append h (he m (by simp [Stage.inHand]))
    | cut => trivial
  | listing | head | asking | hourly | sweeping => trivial

/-- A pass moves on, and no job is queued. -/
theorem Inv.advance (hi : Inv s) (hx : s.passes p = some x) {x' : Option Pass} (hstarted : s'.started = s.started)
    (hpasses : s'.passes = Function.update s.passes p x') (hqueue : ∀ m, s.queue m = none → s'.queue m = none)
    (hlog : s'.log = s.log ∨ ∃ e, s'.log = s.log ++ [e] ∧ (∀ m, e ≠ .queued m) ∧ ∀ m, e = .removed m → Served m s.log)
    (hbacked : ∀ y, x' = some y → Backed s' y.stage) : Inv s' := by
  refine ⟨fun q y hy => ?_, fun q y hy => ?_, ?_⟩
  · rw [hstarted]
    by_cases hq : q = p
    · exact hq ▸ hi.numbered p x hx
    · rw [hpasses, Function.update_of_ne hq] at hy
      exact hi.numbered q y hy
  · by_cases hq : q = p
    · subst hq
      rw [hpasses, Function.update_self] at hy
      exact hbacked y hy
    · rw [hpasses, Function.update_of_ne hq] at hy
      refine (hi.backed q y hy).mono (fun m _ => hqueue m) ?_
      rcases hlog with hlog | ⟨e, hlog, he, -⟩
      · exact .inl hlog
      · exact .inr ⟨e, hlog, fun m _ => he m⟩
  · rcases hlog with hlog | ⟨e, hlog, -, he⟩
    · exact hlog ▸ hi.kept
    · exact hlog ▸ hi.kept.append he

theorem Inv.move (hi : Inv s) (hx : s.passes p = some x) {x' : Option Pass} (hbacked : ∀ y, x' = some y → Backed s y.stage) : Inv (s.move p x' []) := by
  have hlog : (s.move p x' []).log = s.log := List.append_nil _
  refine hi.advance hx rfl rfl (fun _ h => h) (.inl hlog) fun y hy => ?_
  exact (hbacked y hy).mono (fun _ _ h => h) (.inl hlog)

theorem Inv.moved (hi : Inv s) (hx : s.passes p = some x) {x' : Pass} (hbacked : Backed s x'.stage) : Inv (s.move p (some x') []) := by
  refine hi.move hx fun y hy => ?_
  obtain rfl := Option.some.inj hy
  exact hbacked

theorem Inv.begin (hi : Inv s) (hx : s.passes p = some x) (hbacked : Backed (s.begin p x m stage) stage) : Inv (s.begin p x m stage) := by
  refine hi.advance hx rfl rfl (fun _ h => h) (.inr ⟨_, rfl, by simp, by simp⟩) fun y hy => ?_
  obtain rfl := Option.some.inj hy
  exact hbacked

theorem Inv.finish (hi : Inv s) (hx : s.passes p = some x) {x' : Pass} {g : ℕ}
    (hbacked : Backed (s.move p (some x') [.ended m g]) x'.stage) : Inv (s.move p (some x') [.ended m g]) := by
  refine hi.advance hx rfl rfl (fun _ h => h) (.inr ⟨_, rfl, by simp, by simp⟩) fun y hy => ?_
  obtain rfl := Option.some.inj hy
  exact hbacked

/-- A key is deleted when nothing is queued, or when what was is served. -/
theorem Inv.delete (hi : Inv s) (hx : s.passes p = some x) (hserved : s.queue m = none ∨ Served m s.log) : Inv (s.delete p x m keys) := by
  have hqueue (m' : String) (h : s.queue m' = none) : (s.delete p x m keys).queue m' = none := by
    simp only [State.delete, Function.update_apply]
    split_ifs
    · rfl
    · exact h
  refine hi.advance hx rfl rfl hqueue ?_ fun y hy => ?_
  · cases hm : s.queue m with
    | none => exact .inl (by simp [State.delete, State.move, hm])
    | some job =>
      refine .inr ⟨.removed m, by simp [State.delete, State.move, hm], by simp, ?_⟩
      rintro m' heq
      obtain rfl := Entry.removed.inj heq
      exact hserved.resolve_left (by simp [hm])
  · obtain rfl := Option.some.inj hy
    trivial

theorem Inv.put (hi : Inv s) {t : ℕ} {msg : Message} (hfree : ∀ p x, s.passes p = some x → x.stage.inHand msg.monitor_id = false) :
    Inv (s.put t msg) := by
  refine ⟨hi.numbered, fun q y hy => ?_, hi.kept.append (by simp)⟩
  have hne (m : String) (hm : y.stage.inHand m = true) : m ≠ msg.monitor_id := by
    rintro rfl
    rw [hfree q y hy] at hm
    cases hm
  refine (hi.backed q y hy).mono (fun m hm hnone => ?_) (.inr ⟨_, rfl, fun m hm heq => ?_⟩)
  · simpa [State.put, hne m hm] using hnone
  · exact hne m hm (Entry.queued.inj heq).symm

theorem Inv.lapse (hi : Inv s) : Inv { s with queue := Function.update s.queue m none } := by
  refine ⟨hi.numbered, fun q y hy => ?_, hi.kept⟩
  refine (hi.backed q y hy).mono (fun m' _ hnone => ?_) (.inl rfl)
  simp only [Function.update_apply]
  split_ifs
  · rfl
  · exact hnone

theorem Inv.start (hi : Inv s) (deadline : ℤ) :
    Inv { s with started := s.started + 1, passes := Function.update s.passes s.started (some ⟨deadline, 0, .listing⟩) } := by
  refine ⟨fun q y hy => ?_, fun q y hy => ?_, hi.kept⟩
  · by_cases hq : q = s.started
    · exact hq ▸ Nat.lt_succ_self _
    · exact Nat.lt_succ_of_lt (hi.numbered q y (by simpa [hq] using hy))
  · by_cases hq : q = s.started
    · subst hq
      obtain rfl : _ = y := by simpa using hy
      trivial
    · exact hi.backed q y (by simpa [hq] using hy)

/-- Nothing that a transition does before it queues matters. -/
theorem Inv.congr (hi : Inv s) (hstarted : s'.started = s.started) (hpasses : s'.passes = s.passes) (hqueue : s'.queue = s.queue)
    (hlog : s'.log = s.log) : Inv s' := by
  refine ⟨fun q y hy => ?_, fun q y hy => ?_, hlog ▸ hi.kept⟩
  · exact hstarted ▸ hi.numbered q y (hpasses ▸ hy)
  · exact (hi.backed q y (hpasses ▸ hy)).mono (fun m _ h => hqueue ▸ h) (.inl hlog)

end

theorem Inv.step {s : State} {e : Event} (hi : Inv s) (he : Timely s e) : Inv (step s e) := by
  cases e with
  | arrive msg => exact hi.congr rfl rfl rfl rfl
  | readDowns t now failed =>
    simp only [InsightQueue.step]
    split
    · exact hi.congr rfl rfl rfl rfl
    · exact hi
  | writeDowns t failed =>
    simp only [InsightQueue.step]
    split
    · exact hi.congr rfl rfl rfl rfl
    · exact hi
  | put t failed =>
    simp only [InsightQueue.step]
    split
    · next msg ht =>
      split_ifs with hfailed
      · exact hi.congr rfl rfl rfl rfl
      · exact hi.put fun p x hx => he (eq_false_of_ne_true hfailed) _ ht _ rfl p (hi.numbered p x hx) x hx
    · exact hi
  | lapse m =>
    simp only [InsightQueue.step]
    split
    · split_ifs
      · exact hi.lapse
      · exact hi
    · exact hi
  | start deadline => exact hi.start deadline
  | list p keys =>
    simp only [InsightQueue.step]
    split
    · next hx => exact hi.moved hx trivial
    · exact hi
  | check p =>
    simp only [InsightQueue.step]
    split
    · next keys hx =>
      refine hi.moved hx ?_
      cases keys with
      | nil => trivial
      | cons m keys =>
        simp only [State.check]
        split_ifs <;> trivial
    · exact hi
  | get p failed =>
    simp only [InsightQueue.step]
    split
    · next m keys hx =>
      refine hi.moved hx ?_
      cases hm : s.queue m with
      | none => simpa [Backed] using hm
      | some job =>
        cases failed with
        | true => exact absurd (he rfl _ hx m rfl) (by simp [hm])
        | false => trivial
    · exact hi
  | begin p =>
    simp only [InsightQueue.step]
    split
    · next m keys hx =>
      have hnone : s.queue m = none := hi.backed p _ hx
      exact hi.moved hx hnone
    · next hx => exact hi.begin hx fresh_began
    · exact hi
  | finish p =>
    simp only [InsightQueue.step]
    split
    · next hx => exact hi.finish hx (hi.backed p _ hx).served
    · next hx => exact hi.finish hx trivial
    · exact hi
  | cut p =>
    simp only [InsightQueue.step]
    split
    · next hx =>
      split_ifs
      · exact hi.moved hx trivial
      · exact hi
    · next hx =>
      split_ifs
      · exact hi.moved hx trivial
      · exact hi
    · exact hi
  | delete p failed =>
    simp only [InsightQueue.step]
    split
    · next m why keys hx =>
      split_ifs
      · exact hi.moved hx trivial
      · refine hi.delete hx ?_
        cases why with
        | nothing => exact .inl (hi.backed p _ hx)
        | ended => exact .inr (hi.backed p _ hx)
        | cut => exact .inl (he _ hx m rfl)
    · exact hi
  | sweep p m =>
    simp only [InsightQueue.step]
    split
    · next hx =>
      split_ifs
      · exact hi
      · exact hi.begin hx trivial
    · exact hi
  | stop p =>
    cases hx : s.passes p with
    | none =>
      refine hi.congr rfl ?_ rfl (List.append_nil _)
      exact (Function.update_eq_self_iff).mpr hx.symm
    | some x => exact hi.move hx (by simp)
  | tick d => exact hi.congr rfl rfl rfl rfl

theorem inv_initial (clock : ℤ) : Inv (initial clock) where
  numbered p x hx := by cases hx
  backed p x hx := by cases hx
  kept l m l' h := by simp [initial] at h

/-- In every run whose steps are timely, a queued job is removed only when it is served. -/
theorem jobs_kept {clock : ℤ} {es : List Event} (h : Meets step Timely (initial clock) es) :
    Throughout step (fun s => Kept s.log) (initial clock) es :=
  (h.throughout (fun _ _ hi he => hi.step he) (inv_initial clock)).imp fun _ hi => hi.kept

def down : Message := ⟨"api", "org", "down"⟩

def up : Message := ⟨"api", "org", "up"⟩

/-- The monitor goes down and is queued; a pass then begins its generation. -/
def generating : List Event :=
  [.arrive down, .readDowns 0 0 false, .writeDowns 0 false, .put 0 false, .start 5000, .list 0 ["api"], .check 0, .get 0 false, .begin 0]

theorem generating_kept : Throughout step (fun s => Kept s.log) (initial 0) (generating ++ [.finish 0, .delete 0 false]) :=
  jobs_kept (by decide)

/-- It comes up again before the generation ends, or the generation does not end in time. -/
theorem generating_lost :
    ¬Kept (run step (initial 0) (generating ++ [.arrive up, .put 1 false, .finish 0, .delete 0 false])).log ∧
      ¬Kept (run step (initial 0) (generating ++ [.tick 5000, .cut 0, .delete 0 false])).log := by
  constructor
  · intro h
    obtain ⟨g, l, l', heq, hq, hend⟩ := h [.queued "api", .began "api" 0, .queued "api", .ended "api" 0] "api" [] (by decide)
    have hbefore : Entry.queued "api" ∈ l' := by
      rcases l with _ | ⟨_, _ | ⟨_, _ | ⟨_, _ | ⟨_, l⟩⟩⟩⟩ <;> simp at heq
      simp [← heq.2]
    exact hq hbefore
  · intro h
    obtain ⟨g, l, l', heq, -, hend⟩ := h [.queued "api", .began "api" 0] "api" [] (by decide)
    have hmem : Entry.ended "api" g ∈ [Entry.queued "api", .began "api" 0] := heq ▸ by simp [hend]
    simp at hmem

end Upstat.InsightQueue
