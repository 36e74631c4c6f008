import Mathlib.Algebra.Order.Ring.Int
import Mathlib.Data.List.Dedup
import Mathlib.Data.List.Count
import Mathlib.Logic.Function.Basic
import Upstat.GuardedRuns

/-! # The retries of failed messages (`service/failures.go`, `repository/failures.go`)

`RecordFailure` and the transactions of `RetryFailures` passes, each at its commit, with the handler
of a message begun and ended between them. Times are microseconds, and a transaction's `now` is its
start. -/
namespace Upstat.FailureRetries

open GuardedRuns

def maxFailureAttempts : ℕ := 5

def second : ℤ := 1000000

def failureBackoff : ℤ := 60 * second

def failureBatch : ℕ := 50

def failureLease : ℤ := 300 * second

/-- A row of `consumer_failures`. -/
structure Failure where
  message : String
  cause : String
  attempts : ℕ
  nextAttemptAt : ℤ
  resolvedAt : Option ℤ
  abandonedAt : Option ℤ
  deriving DecidableEq

structure ConsumerFailure where
  id : ℕ
  message : String
  attempts : ℕ
  deriving DecidableEq

/-- Where a pass is with the first failure that it has left. -/
inductive Stage where
  | waiting
  | handling
  | handled (err : Option String)
  deriving DecidableEq

/-- A pass under way, with the failures that it has claimed and not yet closed. -/
structure Pass where
  due : List ConsumerFailure
  stage : Stage
  deriving DecidableEq

/-- What became of a failure. -/
inductive Entry where
  | retried (id : ℕ)
  | resolved (id : ℕ)
  | abandoned (id : ℕ)
  deriving DecidableEq

/-- `next` is the next failure's id, `passes` are numbered up to `started`, and `log` is what became
of failures, in order. -/
structure State where
  clock : ℤ
  next : ℕ
  failures : ℕ → Option Failure
  started : ℕ
  passes : ℕ → Option Pass
  log : List Entry

inductive Event where
  | record (message cause : String) (permanent : Bool) (now : ℤ)
  /-- A pass claims what is due of these failures. -/
  | claim (now : ℤ) (seen : List ℕ)
  | handle (p : ℕ)
  | answer (p : ℕ) (err : Option String)
  /-- The transaction after an answer, whose commit the pass may take to have failed. -/
  | close (p : ℕ) (now : ℤ) (lost : Bool)
  /-- A pass ends without another write: its context is done, a transaction failed, or it is killed. -/
  | stop (p : ℕ)
  | prune (now olderThan : ℤ)
  | tick (d : ℕ)

def Failure.ended (f : Failure) : Bool := f.resolvedAt.isSome || f.abandonedAt.isSome

def Failure.isDue (f : Failure) (now : ℤ) : Bool := !f.ended && decide (f.nextAttemptAt ≤ now)

/-- `InsertConsumerFailure`, where `attempts` is one by default. -/
def inserted (message cause : String) (permanent : Bool) (now : ℤ) : Failure :=
  ⟨message, cause, 1, now + failureBackoff, none, if permanent then some now else none⟩

def Failure.resolve (f : Failure) (now : ℤ) : Failure := { f with resolvedAt := some now }

/-- `RetryConsumerFailure` -/
def Failure.retry (f : Failure) (cause : String) (backoff now : ℤ) : Failure :=
  { f with
    attempts := f.attempts + 1
    cause := cause
    nextAttemptAt := now + backoff
    abandonedAt := if maxFailureAttempts ≤ f.attempts + 1 then some now else none }

/-- `PruneConsumerFailures` deletes it. -/
def Failure.pruned (f : Failure) (now olderThan : ℤ) : Bool :=
  (f.resolvedAt.or f.abandonedAt).any fun t => t < now - olderThan

section
variable (s : State)

/-- The due failures of these that the claim gets to. -/
def State.dueOf (now : ℤ) (seen : List ℕ) : List ℕ :=
  (seen.dedup.filter fun id => (s.failures id).any (·.isDue now)).take failureBatch

def State.claimed (ids : List ℕ) : List ConsumerFailure :=
  ids.filterMap fun id => (s.failures id).map fun f => ⟨id, f.message, f.attempts⟩

def State.setPass (p : ℕ) (x : Option Pass) : State := { s with passes := Function.update s.passes p x }

def State.claim (now : ℤ) (seen : List ℕ) : State :=
  let ids := s.dueOf now seen
  { s with
    failures := fun id =>
      if id ∈ ids then (s.failures id).map fun f => { f with nextAttemptAt := now + failureLease } else s.failures id
    started := s.started + 1
    passes := Function.update s.passes s.started (some ⟨s.claimed ids, .waiting⟩) }

/-- The row as a closing transaction leaves it. -/
def closed (d : ConsumerFailure) (err : Option String) (now : ℤ) (f : Failure) : Failure :=
  match err with
  | none => f.resolve now
  | some cause => f.retry cause (failureBackoff * 2 ^ d.attempts) now

/-- What the closing transaction's update makes of a failure. -/
def ends (d : ConsumerFailure) (err : Option String) (f : Failure) : List Entry :=
  match err with
  | none => [.resolved d.id]
  | some _ => if maxFailureAttempts ≤ f.attempts + 1 then [.abandoned d.id] else []

def State.close (p : ℕ) (d : ConsumerFailure) (rest : List ConsumerFailure) (err : Option String) (now : ℤ) (lost : Bool) : State :=
  { s with
    failures := Function.update s.failures d.id ((s.failures d.id).map (closed d err now))
    passes := Function.update s.passes p (if lost then none else some ⟨rest, .waiting⟩)
    log := s.log ++ ((s.failures d.id).map (ends d err)).getD [] }

def State.handle (p : ℕ) (d : ConsumerFailure) (rest : List ConsumerFailure) : State :=
  { s with
    passes := Function.update s.passes p (some ⟨d :: rest, .handling⟩)
    log := s.log ++ [.retried d.id] }

def State.record (f : Failure) : State :=
  { s with
    next := s.next + 1
    failures := Function.update s.failures s.next (some f)
    log := s.log ++ if f.ended then [.abandoned s.next] else [] }

end

def step (s : State) : Event → State
  | .record message cause permanent now => s.record (inserted message cause permanent now)
  | .claim now seen => if now ≤ s.clock then s.claim now seen else s
  | .handle p =>
    match s.passes p with
    | some ⟨d :: rest, .waiting⟩ => s.handle p d rest
    | _ => s
  | .answer p err =>
    match s.passes p with
    | some ⟨due, .handling⟩ => s.setPass p (some ⟨due, .handled err⟩)
    | _ => s
  | .close p now lost =>
    match s.passes p with
    | some ⟨d :: rest, .handled err⟩ => if now ≤ s.clock then s.close p d rest err now lost else s
    | _ => s
  | .stop p => s.setPass p none
  | .prune now olderThan =>
    { s with failures := fun id => (s.failures id).filter fun f => !f.pruned now olderThan }
  | .tick d => { s with clock := s.clock + d }

def initial (clock : ℤ) : State := ⟨clock, 0, fun _ => none, 0, fun _ => none, []⟩

/-! ## What is to hold of the log -/

def Entry.id : Entry → ℕ
  | .retried id | .resolved id | .abandoned id => id

def Entry.isEnd : Entry → Bool
  | .retried _ => false
  | .resolved _ | .abandoned _ => true

/-- Each failure ends in one way at most, is retried no more than so often, and never after its end. -/
structure Sound (log : List Entry) : Prop where
  exclusive : ∀ id, ¬(.resolved id ∈ log ∧ .abandoned id ∈ log)
  bounded : ∀ id, log.count (.retried id) ≤ maxFailureAttempts
  final : log.Pairwise fun e e' => e.isEnd = true → e' ≠ .retried e.id

/-- A pass has begun to handle the failure, and has not written what came of it. -/
def Pass.busyWith (x : Pass) (id : ℕ) : Prop := x.stage ≠ .waiting ∧ x.due.head?.map ConsumerFailure.id = some id

instance (x : Pass) (id : ℕ) : Decidable (x.busyWith id) := inferInstanceAs (Decidable (_ ∧ _))

/-- No failure is claimed while a pass that has claimed it is under way, and of each failure no more
than one retry ends without its outcome written. -/
def Timely (s : State) : Event → Prop
  | .claim now seen => ∀ p < s.started, ∀ x ∈ s.passes p, ∀ d ∈ x.due, d.id ∉ s.dueOf now seen
  | .stop p => ∀ x ∈ s.passes p, ∀ d ∈ x.due.head?, x.stage ≠ .waiting → ∀ f ∈ s.failures d.id,
      s.log.count (.retried d.id) ≤ f.attempts
  | .record _ _ _ _ | .handle _ | .answer _ _ | .close _ _ _ | .prune _ _ | .tick _ => True

instance (s : State) (e : Event) : Decidable (Timely s e) :=
  match e with
  | .claim now seen => inferInstanceAs (Decidable (∀ p < s.started, ∀ x ∈ s.passes p, ∀ d ∈ x.due, d.id ∉ s.dueOf now seen))
  | .stop p => inferInstanceAs (Decidable (∀ x ∈ s.passes p, ∀ d ∈ x.due.head?, x.stage ≠ .waiting → ∀ f ∈ s.failures d.id,
      s.log.count (.retried d.id) ≤ f.attempts))
  | .record _ _ _ _ | .handle _ | .answer _ _ | .close _ _ _ | .prune _ _ | .tick _ => .isTrue trivial

/-! ## What passes hold -/

def Busy (s : State) (id : ℕ) : Prop := ∃ p x, s.passes p = some x ∧ x.busyWith id

/-- A failure that has not ended has tries left, and at most one that is under way or was not counted. -/
structure Open (s : State) (id : ℕ) (f : Failure) : Prop where
  attempts : f.attempts < maxFailureAttempts
  log : ∀ e ∈ s.log, e.id = id → e.isEnd = false
  tries : s.log.count (.retried id) ≤ f.attempts ∨ s.log.count (.retried id) ≤ f.attempts + 1 ∧ Busy s id

structure Inv (s : State) : Prop where
  numbered : ∀ p x, s.passes p = some x → p < s.started
  known : ∀ e ∈ s.log, e.id < s.next
  rows : ∀ id f, s.failures id = some f → id < s.next
  held : ∀ p x, s.passes p = some x → ∀ d ∈ x.due, ∃ f, s.failures d.id = some f ∧ f.ended = false
  alone : ∀ p x q y, s.passes p = some x → s.passes q = some y → p ≠ q → ∀ d ∈ x.due, ∀ e ∈ y.due, d.id ≠ e.id
  distinct : ∀ p x, s.passes p = some x → (x.due.map ConsumerFailure.id).Nodup
  opened : ∀ id f, s.failures id = some f → f.ended = false → Open s id f
  sound : Sound s.log

section
variable {s : State} {p : ℕ} {d : ConsumerFailure} {rest : List ConsumerFailure} {err : Option String} {now : ℤ} {seen : List ℕ}

/-- Entries of failures that have not ended, and no retry of one that has. -/
theorem Sound.append_end (h : Sound s.log) {e : Entry} (he : e.isEnd = true) (hopen : ∀ e' ∈ s.log, e'.id = e.id → e'.isEnd = false) :
    Sound (s.log ++ [e]) := by
  have hnew (id : ℕ) : ¬(Entry.retried id = e) := by
    rintro rfl
    cases he
  refine ⟨fun id => ?_, fun id => ?_, ?_⟩
  · rintro ⟨hres, habn⟩
    rw [List.mem_append, List.mem_singleton] at hres habn
    rcases hres with hres | rfl
    · rcases habn with habn | rfl
      · exact h.exclusive id ⟨hres, habn⟩
      · exact absurd (hopen _ hres rfl) (by simp [Entry.isEnd])
    · rcases habn with habn | habn
      · exact absurd (hopen _ habn rfl) (by simp [Entry.isEnd])
      · cases habn
  · rw [List.count_append, List.count_singleton]
    simpa [Ne.symm (hnew id)] using h.bounded id
  · refine List.pairwise_append.mpr ⟨h.final, List.pairwise_singleton _ _, ?_⟩
    intro e' _ e'' he'' _ heq
    rw [List.mem_singleton.mp he''] at heq
    exact hnew e'.id heq.symm

theorem Sound.append_retry (h : Sound s.log) {id : ℕ} (hopen : ∀ e ∈ s.log, e.id = id → e.isEnd = false)
    (hcount : s.log.count (.retried id) < maxFailureAttempts) : Sound (s.log ++ [.retried id]) := by
  refine ⟨fun i => ?_, fun i => ?_, ?_⟩
  · simpa using h.exclusive i
  · rw [List.count_append, List.count_singleton]
    by_cases hi : i = id
    · subst hi
      simpa using Nat.succ_le_of_lt hcount
    · have hne : (Entry.retried id == Entry.retried i) = false := by simp [Ne.symm hi]
      simpa [hne] using h.bounded i
  · refine List.pairwise_append.mpr ⟨h.final, List.pairwise_singleton _ _, ?_⟩
    intro e he e' he' hend heq
    rw [List.mem_singleton.mp he'] at heq
    have hid : id = e.id := Entry.retried.inj heq
    rw [hopen e he hid.symm] at hend
    cases hend

theorem Inv.record (hi : Inv s) {f : Failure} (hattempts : f.attempts = 1) : Inv (s.record f) := by
  have hnew : ∀ e ∈ s.log, e.id ≠ s.next := fun e he => (hi.known e he).ne
  have hheld (p : ℕ) (x : Pass) (hx : s.passes p = some x) (d : ConsumerFailure) (hd : d ∈ x.due) : d.id ≠ s.next := by
    obtain ⟨g, hg, -⟩ := hi.held p x hx d hd
    exact (hi.rows d.id g hg).ne
  have hlog : ∀ e ∈ s.log ++ (if f.ended then [Entry.abandoned s.next] else []), e ∈ s.log ∨ f.ended = true ∧ e = .abandoned s.next := by
    intro e he
    rcases List.mem_append.mp he with he | he
    · exact .inl he
    · split_ifs at he with hended
      · exact .inr ⟨hended, List.mem_singleton.mp he⟩
      · cases he
  have hcount (id : ℕ) : (s.log ++ (if f.ended then [Entry.abandoned s.next] else [])).count (.retried id) = s.log.count (.retried id) := by
    split_ifs <;> simp [List.count_append]
  refine ⟨hi.numbered, fun e he => ?_, fun id g hg => ?_, fun p x hx d hd => ?_, hi.alone, hi.distinct, fun id g hg hopen => ?_, ?_⟩
  · rcases hlog e he with he | ⟨-, rfl⟩
    · exact Nat.lt_succ_of_lt (hi.known e he)
    · exact Nat.lt_succ_self _
  · by_cases hid : id = s.next
    · exact hid ▸ Nat.lt_succ_self _
    · exact Nat.lt_succ_of_lt (hi.rows id g (by simpa [State.record, hid] using hg))
  · obtain ⟨g, hg, hopen⟩ := hi.held p x hx d hd
    exact ⟨g, by simpa [State.record, hheld p x hx d hd] using hg, hopen⟩
  · by_cases hid : id = s.next
    · subst hid
      obtain rfl : f = g := by simpa [State.record] using hg
      refine ⟨by rw [hattempts]; decide, fun e he heq => ?_, .inl ?_⟩
      · rcases hlog e he with he | ⟨hended, -⟩
        · exact absurd heq (hnew e he)
        · rw [hopen] at hended
          cases hended
      · have hzero : s.log.count (.retried s.next) = 0 := List.count_eq_zero.mpr fun hmem => hnew _ hmem rfl
        change (s.log ++ _).count _ ≤ _
        rw [hcount, hzero]
        exact Nat.zero_le _
    · have hopened := hi.opened id g (by simpa [State.record, hid] using hg) hopen
      refine ⟨hopened.attempts, fun e he heq => ?_, ?_⟩
      · rcases hlog e he with he | ⟨-, rfl⟩
        · exact hopened.log e he heq
        · exact absurd heq.symm hid
      · change (s.log ++ _).count _ ≤ _ ∨ (s.log ++ _).count _ ≤ _ ∧ _
        rw [hcount]
        exact hopened.tries
  · change Sound (s.log ++ _)
    split_ifs
    · exact hi.sound.append_end rfl fun e he heq => absurd heq (hnew e he)
    · rw [List.append_nil]
      exact hi.sound

/-! ## Claims -/

theorem mem_dueOf {id : ℕ} (h : id ∈ s.dueOf now seen) : ∃ f, s.failures id = some f ∧ f.ended = false := by
  have hid := (List.mem_filter.mp (List.mem_of_mem_take h)).2
  obtain ⟨f, hf, hdue⟩ := (Option.any_eq_true _ _).mp hid
  simp only [Failure.isDue, Bool.and_eq_true, Bool.not_eq_true'] at hdue
  exact ⟨f, hf, hdue.1⟩

theorem nodup_dueOf : (s.dueOf now seen).Nodup := ((List.nodup_dedup seen).filter _).sublist (List.take_sublist _ _)

theorem claimed_ids {ids : List ℕ} (h : ∀ id ∈ ids, ∃ f, s.failures id = some f ∧ f.ended = false) :
    (s.claimed ids).map ConsumerFailure.id = ids := by
  induction ids with
  | nil => rfl
  | cons id ids ih =>
    obtain ⟨f, hf, -⟩ := h id List.mem_cons_self
    have hrest := ih fun i hmem => h i (List.mem_cons_of_mem _ hmem)
    simp only [State.claimed] at hrest ⊢
    simp [hf, hrest]

theorem Inv.claim (hi : Inv s) (he : ∀ p < s.started, ∀ x ∈ s.passes p, ∀ d ∈ x.due, d.id ∉ s.dueOf now seen) :
    Inv (s.claim now seen) := by
  have hdue : ∀ id ∈ s.dueOf now seen, ∃ f, s.failures id = some f ∧ f.ended = false := fun id => mem_dueOf
  have hids := claimed_ids hdue
  -- A claim moves the next attempt, and nothing else of a row.
  have hrow (id : ℕ) (g : Failure) (hg : (s.claim now seen).failures id = some g) :
      ∃ f, s.failures id = some f ∧ g.attempts = f.attempts ∧ g.ended = f.ended := by
    simp only [State.claim] at hg
    split_ifs at hg
    · obtain ⟨f, hf, rfl⟩ := Option.map_eq_some_iff.mp hg
      exact ⟨f, hf, rfl, rfl⟩
    · exact ⟨g, hg, rfl, rfl⟩
  have hkept (id : ℕ) (f : Failure) (hf : s.failures id = some f) :
      ∃ g, (s.claim now seen).failures id = some g ∧ g.ended = f.ended := by
    simp only [State.claim]
    split_ifs
    · exact ⟨{ f with nextAttemptAt := now + failureLease }, by rw [hf]; rfl, rfl⟩
    · exact ⟨f, hf, rfl⟩
  have hpass (q : ℕ) (y : Pass) (hy : (s.claim now seen).passes q = some y) :
      q = s.started ∧ y = ⟨s.claimed (s.dueOf now seen), .waiting⟩ ∨ q < s.started ∧ s.passes q = some y := by
    by_cases hq : q = s.started
    · subst hq
      exact .inl ⟨rfl, by simpa [State.claim] using hy.symm⟩
    · have hold : s.passes q = some y := by simpa [State.claim, hq] using hy
      exact .inr ⟨hi.numbered q y hold, hold⟩
  have hmem : ∀ d ∈ s.claimed (s.dueOf now seen), d.id ∈ s.dueOf now seen := by
    intro d hd
    rw [← hids]
    exact List.mem_map_of_mem hd
  refine ⟨fun q y hy => ?_, hi.known, fun id g hg => ?_, fun q y hy d hd => ?_, fun q y q' y' hy hy' hne d hd e he' => ?_, fun q y hy => ?_,
    fun id g hg hopen => ?_, hi.sound⟩
  · rcases hpass q y hy with ⟨rfl, -⟩ | ⟨hlt, -⟩
    · exact Nat.lt_succ_self _
    · exact Nat.lt_succ_of_lt hlt
  · obtain ⟨f, hf, -⟩ := hrow id g hg
    exact hi.rows id f hf
  · rcases hpass q y hy with ⟨-, rfl⟩ | ⟨-, hold⟩
    · obtain ⟨f, hf, hopen⟩ := hdue d.id (hmem d hd)
      obtain ⟨g, hg, heq⟩ := hkept d.id f hf
      exact ⟨g, hg, heq.trans hopen⟩
    · obtain ⟨f, hf, hopen⟩ := hi.held q y hold d hd
      obtain ⟨g, hg, heq⟩ := hkept d.id f hf
      exact ⟨g, hg, heq.trans hopen⟩
  · rcases hpass q y hy with ⟨rfl, rfl⟩ | ⟨hlt, hold⟩
    · rcases hpass q' y' hy' with ⟨rfl, -⟩ | ⟨hlt', hold'⟩
      · exact absurd rfl hne
      · intro heq
        exact he q' hlt' y' hold' e he' (heq ▸ hmem d hd)
    · rcases hpass q' y' hy' with ⟨rfl, rfl⟩ | ⟨-, hold'⟩
      · intro heq
        exact he q hlt y hold d hd (heq ▸ hmem e he')
      · exact hi.alone q y q' y' hold hold' hne d hd e he'
  · rcases hpass q y hy with ⟨-, rfl⟩ | ⟨-, hold⟩
    · rw [hids]
      exact nodup_dueOf
    · exact hi.distinct q y hold
  · obtain ⟨f, hf, hattempts, hended⟩ := hrow id g hg
    have hopened := hi.opened id f hf (hended ▸ hopen)
    refine ⟨hattempts ▸ hopened.attempts, hopened.log, ?_⟩
    rw [hattempts]
    rcases hopened.tries with hle | ⟨hle, q, y, hy, hbusy⟩
    · exact .inl hle
    · refine .inr ⟨hle, q, y, ?_, hbusy⟩
      have hq := (hi.numbered q y hy).ne
      simpa [State.claim, hq] using hy

/-! ## Handling -/

/-- No other pass is busy with a failure that a pass has claimed. -/
theorem Inv.busy (hi : Inv s) {x : Pass} (hx : s.passes p = some x) {e : ConsumerFailure} (he : e ∈ x.due) {q : ℕ} {y : Pass}
    (hy : s.passes q = some y) (hbusy : y.busyWith e.id) : q = p := by
  by_contra hne
  obtain ⟨-, hhead⟩ := hbusy
  obtain ⟨c, hc, heq⟩ := Option.map_eq_some_iff.mp hhead
  exact hi.alone q y p x hy hx hne c (List.mem_of_head? hc) e he heq

theorem Inv.handle (hi : Inv s) (hx : s.passes p = some ⟨d :: rest, .waiting⟩) : Inv (s.handle p d rest) := by
  have hd : d ∈ (⟨d :: rest, .waiting⟩ : Pass).due := List.mem_cons_self
  obtain ⟨f, hf, hopen⟩ := hi.held p _ hx d hd
  have hopened := hi.opened d.id f hf hopen
  have hcount : s.log.count (.retried d.id) ≤ f.attempts := by
    rcases hopened.tries with hle | ⟨-, q, y, hy, hbusy⟩
    · exact hle
    · obtain rfl := hi.busy hx hd hy hbusy
      obtain rfl := Option.some.inj (hx.symm.trans hy)
      exact absurd rfl hbusy.1
  have hpass (q : ℕ) (y : Pass) (hy : (s.handle p d rest).passes q = some y) :
      ∃ z, s.passes q = some z ∧ z.due = y.due := by
    by_cases hq : q = p
    · subst hq
      obtain rfl : (⟨d :: rest, .handling⟩ : Pass) = y := by simpa [State.handle] using hy
      exact ⟨_, hx, rfl⟩
    · exact ⟨y, by simpa [State.handle, hq] using hy, rfl⟩
  refine ⟨fun q y hy => ?_, fun e he => ?_, hi.rows, fun q y hy e he => ?_, fun q y q' y' hy hy' hne e he e' he' => ?_, fun q y hy => ?_,
    fun id g hg hopen' => ?_, hi.sound.append_retry hopened.log (hcount.trans_lt hopened.attempts)⟩
  · obtain ⟨z, hz, -⟩ := hpass q y hy
    exact hi.numbered q z hz
  · rcases List.mem_append.mp he with he | he
    · exact hi.known e he
    · rw [List.mem_singleton.mp he]
      exact hi.rows d.id f hf
  · obtain ⟨z, hz, hdue⟩ := hpass q y hy
    exact hi.held q z hz e (hdue ▸ he)
  · obtain ⟨z, hz, hdue⟩ := hpass q y hy
    obtain ⟨z', hz', hdue'⟩ := hpass q' y' hy'
    exact hi.alone q z q' z' hz hz' hne e (hdue ▸ he) e' (hdue' ▸ he')
  · obtain ⟨z, hz, hdue⟩ := hpass q y hy
    exact hdue ▸ hi.distinct q z hz
  · have hopened' := hi.opened id g hg hopen'
    refine ⟨hopened'.attempts, fun e he heq => ?_, ?_⟩
    · rcases List.mem_append.mp he with he | he
      · exact hopened'.log e he heq
      · rw [List.mem_singleton.mp he]
        rfl
    · change (s.log ++ [_]).count _ ≤ _ ∨ (s.log ++ [_]).count _ ≤ _ ∧ _
      rw [List.count_append, List.count_singleton]
      by_cases hid : id = d.id
      · subst hid
        obtain rfl := Option.some.inj (hf.symm.trans hg)
        refine .inr ⟨by simpa using hcount, p, ⟨d :: rest, .handling⟩, by simp [State.handle], ?_⟩
        exact ⟨by simp, rfl⟩
      · have hne : (Entry.retried d.id == Entry.retried id) = false := by simp [Ne.symm hid]
        simp only [hne, Bool.false_eq_true, if_false, Nat.add_zero]
        rcases hopened'.tries with hle | ⟨hle, q, y, hy, hbusy⟩
        · exact .inl hle
        · refine .inr ⟨hle, q, y, ?_, hbusy⟩
          have hq : q ≠ p := by
            rintro rfl
            obtain rfl := Option.some.inj (hx.symm.trans hy)
            exact hbusy.1 rfl
          simpa [State.handle, hq] using hy

/-- A pass that goes on with the same failures, or ends. -/
theorem Inv.setPass (hi : Inv s) {x : Pass} (hx : s.passes p = some x) {x' : Option Pass} (hdue : ∀ y ∈ x', y.due = x.due)
    (hbusy : ∀ id f, s.failures id = some f → x.busyWith id → (∃ y ∈ x', y.busyWith id) ∨ s.log.count (.retried id) ≤ f.attempts) :
    Inv (s.setPass p x') := by
  have hpass (q : ℕ) (y : Pass) (hy : (s.setPass p x').passes q = some y) : ∃ z, s.passes q = some z ∧ z.due = y.due := by
    by_cases hq : q = p
    · subst hq
      have hy' : x' = some y := by simpa [State.setPass] using hy
      exact ⟨x, hx, (hdue y hy').symm⟩
    · exact ⟨y, by simpa [State.setPass, hq] using hy, rfl⟩
  refine ⟨fun q y hy => ?_, hi.known, hi.rows, fun q y hy e he => ?_, fun q y q' y' hy hy' hne e he e' he' => ?_, fun q y hy => ?_,
    fun id f hf hopen => ?_, hi.sound⟩
  · obtain ⟨z, hz, -⟩ := hpass q y hy
    exact hi.numbered q z hz
  · obtain ⟨z, hz, heq⟩ := hpass q y hy
    exact hi.held q z hz e (heq ▸ he)
  · obtain ⟨z, hz, heq⟩ := hpass q y hy
    obtain ⟨z', hz', heq'⟩ := hpass q' y' hy'
    exact hi.alone q z q' z' hz hz' hne e (heq ▸ he) e' (heq' ▸ he')
  · obtain ⟨z, hz, heq⟩ := hpass q y hy
    exact heq ▸ hi.distinct q z hz
  · have hopened := hi.opened id f hf hopen
    refine ⟨hopened.attempts, hopened.log, ?_⟩
    rcases hopened.tries with hle | ⟨hle, q, y, hy, hb⟩
    · exact .inl hle
    · by_cases hq : q = p
      · subst hq
        obtain rfl := Option.some.inj (hx.symm.trans hy)
        rcases hbusy id f hf hb with ⟨y, hy', hb'⟩ | hle'
        · refine .inr ⟨hle, q, y, ?_, hb'⟩
          simpa [State.setPass] using hy'
        · exact .inl hle'
      · refine .inr ⟨hle, q, y, ?_, hb⟩
        simpa [State.setPass, hq] using hy

/-! ## Closing -/

theorem ends_cases (d : ConsumerFailure) (err : Option String) (now : ℤ) {f : Failure} (hopen : f.ended = false) :
    ((closed d err now f).ended = true ∧ ∃ e : Entry, e.isEnd = true ∧ e.id = d.id ∧ ends d err f = [e]) ∨
      ((closed d err now f).ended = false ∧ (closed d err now f).attempts = f.attempts + 1 ∧ f.attempts + 1 < maxFailureAttempts ∧
        ends d err f = []) := by
  cases err with
  | none => exact .inl ⟨rfl, .resolved d.id, rfl, rfl, rfl⟩
  | some cause =>
    simp only [closed, ends, Failure.retry, Failure.ended]
    simp only [Failure.ended, Bool.or_eq_false_iff] at hopen
    by_cases hmax : maxFailureAttempts ≤ f.attempts + 1
    · simp only [if_pos hmax]
      exact .inl ⟨by simp, .abandoned d.id, rfl, rfl, rfl⟩
    · simp only [if_neg hmax, hopen.1]
      exact .inr ⟨rfl, trivial, not_le.mp hmax, trivial⟩

theorem Inv.close (hi : Inv s) (hx : s.passes p = some ⟨d :: rest, .handled err⟩) (lost : Bool) :
    Inv (s.close p d rest err now lost) := by
  have hd : d ∈ (⟨d :: rest, .handled err⟩ : Pass).due := List.mem_cons_self
  obtain ⟨f, hf, hopen⟩ := hi.held p _ hx d hd
  have hopened := hi.opened d.id f hf hopen
  have hdistinct : ∀ e ∈ rest, e.id ≠ d.id := by
    have hnodup := hi.distinct p _ hx
    rw [List.map_cons, List.nodup_cons] at hnodup
    intro e he heq
    exact hnodup.1 (heq ▸ List.mem_map_of_mem he)
  have hlog : (s.close p d rest err now lost).log = s.log ++ ends d err f := by simp [State.close, hf]
  have hpass (q : ℕ) (y : Pass) (hy : (s.close p d rest err now lost).passes q = some y) :
      q = p ∧ y = ⟨rest, .waiting⟩ ∨ q ≠ p ∧ s.passes q = some y := by
    by_cases hq : q = p
    · subst hq
      simp only [State.close, Function.update_self] at hy
      split_ifs at hy
      exact .inl ⟨rfl, (Option.some.inj hy).symm⟩
    · exact .inr ⟨hq, by simpa [State.close, hq] using hy⟩
  -- What a pass still has is none of the closed failure.
  have hother (q : ℕ) (y : Pass) (hy : (s.close p d rest err now lost).passes q = some y) :
      ∃ z, s.passes q = some z ∧ (∀ e ∈ y.due, e ∈ z.due ∧ e.id ≠ d.id) ∧ y.due.Sublist z.due := by
    rcases hpass q y hy with ⟨rfl, rfl⟩ | ⟨hq, hold⟩
    · exact ⟨_, hx, fun e he => ⟨List.mem_cons_of_mem _ he, hdistinct e he⟩, List.sublist_cons_self _ _⟩
    · exact ⟨y, hold, fun e he => ⟨he, hi.alone q y p _ hold hx hq e he d hd⟩, List.Sublist.refl _⟩
  have hfailures (id : ℕ) (hid : id ≠ d.id) : (s.close p d rest err now lost).failures id = s.failures id := by
    simp [State.close, hid]
  have hself : (s.close p d rest err now lost).failures d.id = some (closed d err now f) := by simp [State.close, hf]
  have hends : ∀ e ∈ ends d err f, e.id = d.id ∧ e.isEnd = true := by
    intro e he
    rcases ends_cases d err now hopen with ⟨-, e', hend, hid, heq⟩ | ⟨-, -, -, heq⟩
    · rw [heq, List.mem_singleton] at he
      exact he ▸ ⟨hid, hend⟩
    · rw [heq] at he
      cases he
  have hcount (id : ℕ) : (s.log ++ ends d err f).count (.retried id) = s.log.count (.retried id) := by
    have hzero : (ends d err f).count (.retried id) = 0 := by
      rw [List.count_eq_zero]
      intro hmem
      have hend := (hends _ hmem).2
      cases hend
    rw [List.count_append, hzero, Nat.add_zero]
  refine ⟨fun q y hy => ?_, fun e he => ?_, fun id g hg => ?_, fun q y hy e he => ?_, fun q y q' y' hy hy' hne e he e' he' => ?_,
    fun q y hy => ?_, fun id g hg hopen' => ?_, ?_⟩
  · obtain ⟨z, hz, -⟩ := hother q y hy
    exact hi.numbered q z hz
  · rw [hlog] at he
    rcases List.mem_append.mp he with he | he
    · exact hi.known e he
    · rw [(hends e he).1]
      exact hi.rows d.id f hf
  · by_cases hid : id = d.id
    · exact hid ▸ hi.rows d.id f hf
    · exact hi.rows id g (hfailures id hid ▸ hg)
  · obtain ⟨z, hz, hsub, -⟩ := hother q y hy
    rw [hfailures e.id (hsub e he).2]
    exact hi.held q z hz e (hsub e he).1
  · obtain ⟨z, hz, hsub, -⟩ := hother q y hy
    obtain ⟨z', hz', hsub', -⟩ := hother q' y' hy'
    exact hi.alone q z q' z' hz hz' hne e (hsub e he).1 e' (hsub' e' he').1
  · obtain ⟨z, hz, -, hsub⟩ := hother q y hy
    exact (hi.distinct q z hz).sublist (hsub.map _)
  · by_cases hid : id = d.id
    · subst hid
      obtain rfl := Option.some.inj (hself.symm.trans hg)
      rcases ends_cases d err now hopen with ⟨hended, -⟩ | ⟨-, hattempts, hmax, hnil⟩
      · rw [hended] at hopen'
        cases hopen'
      · refine ⟨by rw [hattempts]; exact hmax, ?_, .inl ?_⟩
        · rw [hlog, hnil, List.append_nil]
          exact hopened.log
        · rw [hlog, hcount, hattempts]
          rcases hopened.tries with hle | ⟨hle, -⟩
          · exact Nat.le_succ_of_le hle
          · exact hle
    · have hopened' := hi.opened id g (hfailures id hid ▸ hg) hopen'
      refine ⟨hopened'.attempts, fun e he heq => ?_, ?_⟩
      · rw [hlog] at he
        rcases List.mem_append.mp he with he | he
        · exact hopened'.log e he heq
        · exact absurd (heq.symm.trans (hends e he).1) hid
      · rw [hlog, hcount]
        rcases hopened'.tries with hle | ⟨hle, q, y, hy, hbusy⟩
        · exact .inl hle
        · refine .inr ⟨hle, q, y, ?_, hbusy⟩
          have hq : q ≠ p := by
            rintro rfl
            obtain rfl := Option.some.inj (hx.symm.trans hy)
            exact hid (Option.some.inj hbusy.2).symm
          simpa [State.close, hq] using hy
  · rw [hlog]
    rcases ends_cases d err now hopen with ⟨-, e, hend, hid, heq⟩ | ⟨-, -, -, heq⟩
    · rw [heq]
      exact hi.sound.append_end hend (hid ▸ hopened.log)
    · rw [heq, List.append_nil]
      exact hi.sound

theorem Inv.prune (hi : Inv s) (olderThan : ℤ) :
    Inv { s with failures := fun id => (s.failures id).filter fun f => !f.pruned now olderThan } := by
  have hpruned {f : Failure} (h : f.ended = false) : f.pruned now olderThan = false := by
    simp only [Failure.ended, Bool.or_eq_false_iff, Option.isSome_eq_false_iff, Option.isNone_iff_eq_none] at h
    simp [Failure.pruned, h.1, h.2]
  have hrow (id : ℕ) (f : Failure) (hf : ((s.failures id).filter fun f => !f.pruned now olderThan) = some f) : s.failures id = some f :=
    (Option.filter_eq_some_iff.mp hf).1
  refine ⟨hi.numbered, hi.known, fun id f hf => hi.rows id f (hrow id f hf), fun p x hx d hd => ?_, hi.alone, hi.distinct,
    fun id f hf hopen => ?_, hi.sound⟩
  · obtain ⟨f, hf, hopen⟩ := hi.held p x hx d hd
    exact ⟨f, Option.filter_eq_some_iff.mpr ⟨hf, by simp [hpruned hopen]⟩, hopen⟩
  · have hopened := hi.opened id f (hrow id f hf) hopen
    exact ⟨hopened.attempts, hopened.log, hopened.tries⟩

end

theorem Inv.step {s : State} {e : Event} (hi : Inv s) (he : Timely s e) : Inv (step s e) := by
  cases e with
  | record message cause permanent now => exact hi.record rfl
  | claim now seen =>
    simp only [FailureRetries.step]
    split_ifs
    · exact hi.claim he
    · exact hi
  | handle p =>
    simp only [FailureRetries.step]
    split
    · next hx => exact hi.handle hx
    · exact hi
  | answer p err =>
    simp only [FailureRetries.step]
    split
    · next due hx =>
      refine hi.setPass hx ?_ ?_
      · rintro y hy
        rw [← Option.some.inj hy]
      · intro id f _ hbusy
        exact .inl ⟨_, rfl, by simp, hbusy.2⟩
    · exact hi
  | close p now lost =>
    simp only [FailureRetries.step]
    split
    · next hx =>
      split_ifs
      · exact hi.close hx lost
      · exact hi
    · exact hi
  | stop p =>
    simp only [FailureRetries.step]
    cases hx : s.passes p with
    | none =>
      have hsame : s.setPass p none = s := by
        simp only [State.setPass]
        rw [← hx, Function.update_eq_self]
      rw [hsame]
      exact hi
    | some x =>
      refine hi.setPass hx (by simp) fun id f hf hbusy => .inr ?_
      obtain ⟨d, hd, hid⟩ := Option.map_eq_some_iff.mp hbusy.2
      subst hid
      exact he x hx d hd hbusy.1 f hf
  | prune now olderThan => exact hi.prune olderThan
  | tick d =>
    exact ⟨hi.numbered, hi.known, hi.rows, hi.held, hi.alone, hi.distinct,
      fun id f hf hopen => ⟨(hi.opened id f hf hopen).attempts, (hi.opened id f hf hopen).log, (hi.opened id f hf hopen).tries⟩, hi.sound⟩

theorem inv_initial (clock : ℤ) : Inv (initial clock) where
  numbered p x hx := by cases hx
  known e he := by cases he
  rows id f hf := by cases hf
  held p x hx := by cases hx
  alone p x q y hx := by cases hx
  distinct p x hx := by cases hx
  opened id f hf := by cases hf
  sound := ⟨fun _ h => absurd h.1 List.not_mem_nil, fun _ => Nat.zero_le _, List.Pairwise.nil⟩

/-- However passes come in, as long as no failure is claimed while a pass that has claimed it is under
way and of each no more than one retry ends without its outcome written, each failure ends in one way
at most, is retried no more than so often, and never after its end. -/
theorem retries_sound (clock : ℤ) (es : List Event) (hm : Meets step Timely (initial clock) es) :
    Throughout step (fun s => Sound s.log) (initial clock) es :=
  (hm.throughout (P := Inv) (fun _ _ hi he => hi.step he) (inv_initial clock)).imp fun _ hi => hi.sound

/-- A failure that a second pass handles, after the first has ended without an outcome. -/
def secondPass : List Event :=
  [.record "m" "timeout" false 0, .tick 60000000, .claim 60000000 [0], .handle 0, .stop 0, .tick 300000000,
    .claim 360000000 [0], .handle 1, .answer 1 none, .close 1 360000000 false]

theorem secondPass_sound : Throughout step (fun s => Sound s.log) (initial 0) secondPass :=
  retries_sound 0 secondPass (by decide +kernel)

/-- Two failures in one batch: the first takes a pass longer than the lease, and another pass resolves
the second meanwhile. -/
def outlived : List Event :=
  [.record "m" "timeout" false 0, .record "n" "timeout" false 0, .tick 60000000, .claim 60000000 [0, 1], .handle 0,
    .tick 300000000, .claim 360000000 [1], .handle 1, .answer 1 none, .close 1 360000000 false, .answer 0 none,
    .close 0 360000000 false, .handle 0]

theorem outlived_retried : ¬∀ (clock : ℤ) (es : List Event), Throughout step (fun s => Sound s.log) (initial clock) es := by
  intro h
  have hfinal := (h 0 outlived).last.final
  have hlog : (run step (initial 0) outlived).log =
      [.retried 0, .retried 1, .resolved 1, .resolved 0, .retried 1] := by decide +kernel
  rw [hlog] at hfinal
  revert hfinal
  decide

end Upstat.FailureRetries
