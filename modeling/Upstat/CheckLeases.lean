import Mathlib.Algebra.Order.Ring.Int
import Mathlib.Data.List.Dedup
import Mathlib.Data.PNat.Defs
import Mathlib.Logic.Function.Basic
import Upstat.GuardedRuns

/-! # The leases of due monitors (`service/scheduler.go`, `repository/monitors.go`)

`ClaimDueMonitors`, the relay's transaction with `CompleteMonitors`, `ReleaseMonitors` and the edits
of monitors, each at its commit: what a transaction decides on a row it decides under the row's
lock, which it then keeps. Times are microseconds, and a transaction's `now` is its start. -/
namespace Upstat.CheckLeases

open GuardedRuns

def claimBatch : ℕ := 500

def second : ℤ := 1000000

def claimLease : ℤ := 180 * second

/-- `leased_until`, and the pass that has set it. -/
structure Lease where
  leasedUntil : ℤ
  holder : ℕ
  deriving DecidableEq

structure Monitor where
  active : Bool
  intervalS : ℕ+
  nextRunAt : ℤ
  lease : Option Lease
  deriving DecidableEq

structure DueMonitor where
  id : ℕ
  scheduledAt : ℤ
  claimed : ℤ
  deriving DecidableEq

/-- A claimed batch under way. It is `recorded` where its ticks are, but the pass takes the commit
to have failed. -/
structure Pass where
  due : List DueMonitor
  leasedUntil : ℤ
  recorded : Bool

structure MonitorPatch where
  active : Option Bool := none
  intervalSeconds : Option ℕ+ := none

/-- `next` is the pass that claims next, `claimed` has the monitors and slots that were claimed, and
`dispatched` those whose ticks were recorded. -/
structure State where
  clock : ℤ
  monitors : ℕ → Option Monitor
  next : ℕ
  passes : ℕ → Option Pass
  claimed : List (ℕ × ℤ)
  dispatched : List (ℕ × ℤ)

inductive Event where
  | create (id : ℕ) (intervalS : ℕ+) (nextRunAt : ℤ)
  | edit (id : ℕ) (now : ℤ) (p : MonitorPatch)
  | delete (id : ℕ)
  /-- A pass claims what is due of these monitors. -/
  | claim (now : ℤ) (seen : List ℕ)
  /-- The relay's commit, which the pass may take to have failed. -/
  | complete (p : ℕ) (lost : Bool)
  | release (p : ℕ)
  | crash (p : ℕ)
  | tick (d : ℕ)

def Monitor.period (m : Monitor) : ℤ := m.intervalS * second

/-- The latest slot at or before now. -/
def Monitor.slot (m : Monitor) (now : ℤ) : ℤ := m.nextRunAt + m.period * ((now - m.nextRunAt) / m.period)

def Monitor.isDue (m : Monitor) (now : ℤ) : Bool :=
  m.active && decide (m.nextRunAt ≤ now) && m.lease.all fun l => l.leasedUntil ≤ now

def Monitor.release (m : Monitor) : Monitor := { m with lease := none }

/-- `CompleteMonitors`, for a monitor. -/
def Monitor.complete (m : Monitor) (d : DueMonitor) : Monitor :=
  { m with
    lease := none
    nextRunAt := if m.nextRunAt = d.claimed then d.scheduledAt + m.period else m.nextRunAt }

/-- `UpdateMonitor`. A monitor that is resumed is due at once. -/
def Monitor.update (m : Monitor) (p : MonitorPatch) (now : ℤ) : Monitor :=
  { m with
    intervalS := p.intervalSeconds.getD m.intervalS
    nextRunAt := if p.active = some true ∧ m.active = false then now else m.nextRunAt
    active := p.active.getD m.active }

section
variable (s : State)

/-- The due monitors of these that the claim gets to. -/
def State.dueOf (now : ℤ) (seen : List ℕ) : List ℕ :=
  (seen.dedup.filter fun id => (s.monitors id).any (·.isDue now)).take claimBatch

def dueMonitor (id : ℕ) (m : Monitor) (now : ℤ) : DueMonitor := ⟨id, m.slot now, m.nextRunAt⟩

def State.dueMonitors (now : ℤ) (ids : List ℕ) : List DueMonitor :=
  ids.filterMap fun id => (s.monitors id).map fun m => dueMonitor id m now

def DueMonitor.tick (d : DueMonitor) : ℕ × ℤ := (d.id, d.scheduledAt)

def State.claimDue (now : ℤ) (seen : List ℕ) : State :=
  let ids := s.dueOf now seen
  let due := s.dueMonitors now ids
  if due.isEmpty then s
  else
    { s with
      monitors := fun id => if id ∈ ids then (s.monitors id).map fun m => { m with lease := some ⟨now + claimLease, s.next⟩ } else s.monitors id
      next := s.next + 1
      passes := Function.update s.passes s.next (some ⟨due, now + claimLease, false⟩)
      claimed := s.claimed ++ due.map DueMonitor.tick }

/-- The monitors as `CompleteMonitors` leaves them. -/
def completeMonitors (monitors : ℕ → Option Monitor) (done : List DueMonitor) (id : ℕ) : Option Monitor :=
  match done.find? (·.id = id) with
  | none => monitors id
  | some d => (monitors id).map (·.complete d)

def State.complete (p : ℕ) (x : Pass) (lost : Bool) : State :=
  if x.recorded then s
  else
    { s with
      monitors := completeMonitors s.monitors x.due
      passes := Function.update s.passes p (if lost then some { x with recorded := true } else none)
      dispatched := s.dispatched ++ x.due.map DueMonitor.tick }

def State.release (p : ℕ) (x : Pass) : State :=
  { s with
    monitors := fun id => if id ∈ x.due.map DueMonitor.id then (s.monitors id).map Monitor.release else s.monitors id
    passes := Function.update s.passes p none }

def State.edit (id : ℕ) (f : Monitor → Option Monitor) : State :=
  { s with monitors := Function.update s.monitors id ((s.monitors id).bind f) }

/-- Nothing was ever known of the monitor. -/
def State.isNew (id : ℕ) : Bool := (s.monitors id).isNone && s.claimed.all fun c => c.1 ≠ id

end

def step (s : State) : Event → State
  | .create id intervalS nextRunAt =>
    if s.isNew id then { s with monitors := Function.update s.monitors id (some ⟨true, intervalS, nextRunAt, none⟩) } else s
  | .edit id now p => if now ≤ s.clock then s.edit id fun m => some (m.update p now) else s
  | .delete id => s.edit id fun _ => none
  | .claim now seen => if now ≤ s.clock then s.claimDue now seen else s
  | .complete p lost => (s.passes p).elim s fun x => s.complete p x lost
  | .release p => (s.passes p).elim s fun x => s.release p x
  | .crash p => { s with passes := Function.update s.passes p none }
  | .tick d => { s with clock := s.clock + d }

def initial (clock : ℤ) : State := ⟨clock, fun _ => none, 0, fun _ => none, [], []⟩

/-- No monitor is claimed while a pass that has claimed it is under way, and a monitor is resumed
later than the slots that were claimed of it. -/
def Timely (s : State) : Event → Prop
  | .claim now seen => ∀ p < s.next, ∀ x ∈ s.passes p, ∀ d ∈ x.due, d.id ∉ s.dueOf now seen
  | .edit id now p => ∀ m ∈ s.monitors id, p.active = some true → m.active = false → ∀ c ∈ s.claimed, c.1 = id → c.2 < now
  | .create _ _ _ | .delete _ | .complete _ _ | .release _ | .crash _ | .tick _ => True

instance (s : State) (e : Event) : Decidable (Timely s e) :=
  match e with
  | .claim now seen => inferInstanceAs (Decidable (∀ p < s.next, ∀ x ∈ s.passes p, ∀ d ∈ x.due, d.id ∉ s.dueOf now seen))
  | .edit id now p => inferInstanceAs
      (Decidable (∀ m ∈ s.monitors id, p.active = some true → m.active = false → ∀ c ∈ s.claimed, c.1 = id → c.2 < now))
  | .create _ _ _ | .delete _ | .complete _ _ | .release _ | .crash _ | .tick _ => .isTrue trivial

/-- No slot of a monitor was dispatched twice. -/
def Once (s : State) : Prop := s.dispatched.Nodup

instance (s : State) : Decidable (Once s) := inferInstanceAs (Decidable (List.Nodup _))

/-- No monitor's next run is moved back. -/
def Forward (s s' : State) : Prop := ∀ id m m', s.monitors id = some m → s'.monitors id = some m' → m.nextRunAt ≤ m'.nextRunAt

/-- The leases that end are the pass's own. -/
def EndsOwn (s s' : State) (p : ℕ) : Prop :=
  ∀ id m m' l, s.monitors id = some m → m.lease = some l → s'.monitors id = some m' → m'.lease = none → l.holder = p

/-- Only edits move a monitor back, and a pass ends only leases of its own. -/
def InOrder (s : State) : Event → Prop
  | .edit _ _ _ => True
  | .complete p lost => Forward s (step s (.complete p lost)) ∧ EndsOwn s (step s (.complete p lost)) p
  | .release p => Forward s (step s (.release p)) ∧ EndsOwn s (step s (.release p)) p
  | .create id intervalS nextRunAt => Forward s (step s (.create id intervalS nextRunAt))
  | .delete id => Forward s (step s (.delete id))
  | .claim now seen => Forward s (step s (.claim now seen))
  | .crash p => Forward s (step s (.crash p))
  | .tick d => Forward s (step s (.tick d))

/-! ## Slots -/

section
variable {s : State} {p : ℕ} {x : Pass} {m m' : Monitor} {d : DueMonitor} {now : ℤ} {ids : List ℕ} {seen : List ℕ}

theorem period_pos (m : Monitor) : 0 < m.period := by
  have hinterval : (0 : ℤ) < m.intervalS := by exact_mod_cast m.intervalS.pos
  exact mul_pos hinterval (by decide)

theorem le_slot (h : m.nextRunAt ≤ now) : m.nextRunAt ≤ m.slot now := by
  have hpasses : 0 ≤ (now - m.nextRunAt) / m.period := Int.ediv_nonneg (by omega) (period_pos m).le
  have hadvance : 0 ≤ m.period * ((now - m.nextRunAt) / m.period) := mul_nonneg (period_pos m).le hpasses
  unfold Monitor.slot
  omega

/-- A completed monitor goes on from its slot, or from where an edit has set it. -/
theorem nextRunAt_complete (m : Monitor) (d : DueMonitor) :
    (m.nextRunAt = d.claimed ∧ d.scheduledAt < (m.complete d).nextRunAt) ∨ (m.complete d).nextRunAt = m.nextRunAt := by
  unfold Monitor.complete
  dsimp only
  split_ifs with h
  · have hpos := period_pos m
    exact .inl ⟨h, by omega⟩
  · exact .inr rfl

theorem mem_dueOf {id : ℕ} (h : id ∈ s.dueOf now seen) : ∃ m, s.monitors id = some m ∧ m.isDue now = true := by
  have hid := (List.mem_filter.mp (List.mem_of_mem_take h)).2
  exact (Option.any_eq_true _ _).mp hid

theorem nodup_dueOf : (s.dueOf now seen).Nodup := ((List.nodup_dedup seen).filter _).sublist (List.take_sublist _ _)

theorem mem_dueMonitors (h : d ∈ s.dueMonitors now ids) : ∃ id ∈ ids, ∃ m, s.monitors id = some m ∧ d = dueMonitor id m now := by
  obtain ⟨id, hid, hd⟩ := List.mem_filterMap.mp h
  obtain ⟨m, hm, rfl⟩ := Option.map_eq_some_iff.mp hd
  exact ⟨id, hid, m, hm, rfl⟩

theorem nodup_dueMonitors (h : ids.Nodup) : ((s.dueMonitors now ids).map DueMonitor.id).Nodup := by
  induction ids with
  | nil => exact List.nodup_nil
  | cons id ids ih =>
    obtain ⟨hid, hrest⟩ := List.nodup_cons.mp h
    unfold State.dueMonitors
    cases hm : s.monitors id with
    | none => simpa [hm, State.dueMonitors] using ih hrest
    | some m =>
      simp only [List.filterMap_cons, hm, Option.map_some, List.map_cons, List.nodup_cons]
      refine ⟨fun hmem => ?_, ih hrest⟩
      obtain ⟨d, hd, heq⟩ := List.mem_map.mp hmem
      obtain ⟨id', hid', m', -, rfl⟩ := mem_dueMonitors (s := s) hd
      obtain rfl : id' = id := heq
      exact hid hid'

theorem completeMonitors_cases (monitors : ℕ → Option Monitor) (due : List DueMonitor) (id : ℕ) :
    (id ∉ due.map DueMonitor.id ∧ completeMonitors monitors due id = monitors id) ∨
      ∃ d ∈ due, d.id = id ∧ completeMonitors monitors due id = (monitors id).map (·.complete d) := by
  unfold completeMonitors
  cases hfind : due.find? (·.id = id) with
  | none =>
    refine .inl ⟨fun hmem => ?_, rfl⟩
    obtain ⟨d, hd, hid⟩ := List.mem_map.mp hmem
    exact absurd (List.find?_eq_none.mp hfind d hd) (by simp [hid])
  | some d => exact .inr ⟨d, List.mem_of_find?_eq_some hfind, by simpa using List.find?_some hfind, rfl⟩

/-! ## What passes hold -/

/-- A pass under way has the lease of its monitor, which runs next where the pass has claimed it, or
later than its slot. -/
structure Holds (p : ℕ) (x : Pass) (d : DueMonitor) (m : Monitor) : Prop where
  lease : m.lease = if x.recorded then none else some ⟨x.leasedUntil, p⟩
  run : x.recorded = false → m.nextRunAt = d.claimed ∨ d.scheduledAt < m.nextRunAt

structure Inv (s : State) : Prop where
  numbered : ∀ p x, s.passes p = some x → p < s.next
  held : ∀ p x, s.passes p = some x → ∀ d ∈ x.due, ∀ m, s.monitors d.id = some m → Holds p x d m
  alone : ∀ p x q y, s.passes p = some x → s.passes q = some y → p ≠ q → ∀ d ∈ x.due, ∀ e ∈ y.due, d.id ≠ e.id
  distinct : ∀ p x, s.passes p = some x → (x.due.map DueMonitor.id).Nodup
  claimed : ∀ p x, s.passes p = some x → ∀ d ∈ x.due, d.claimed ≤ d.scheduledAt ∧ d.tick ∈ s.claimed
  undone : ∀ p x, s.passes p = some x → x.recorded = false → ∀ d ∈ x.due, d.tick ∉ s.dispatched
  behind : ∀ c ∈ s.dispatched, c ∈ s.claimed ∧ ∀ m, s.monitors c.1 = some m → c.2 < m.nextRunAt
  once : s.dispatched.Nodup

/-- A monitor that was claimed before keeps its lease, and runs next when it did or later than all that was claimed of it. -/
theorem Inv.setMonitor (hi : Inv s) (id : ℕ) {m' : Option Monitor}
    (hm : ∀ n, m' = some n → ∀ c ∈ s.claimed, c.1 = id →
      ∃ m, s.monitors id = some m ∧ n.lease = m.lease ∧ (n.nextRunAt = m.nextRunAt ∨ c.2 < n.nextRunAt)) :
    Inv { s with monitors := Function.update s.monitors id m' } := by
  refine ⟨hi.numbered, fun p x hx d hd n hn => ?_, hi.alone, hi.distinct, hi.claimed, hi.undone, fun c hc => ?_, hi.once⟩
  · by_cases hid : d.id = id
    · obtain rfl : m' = some n := by simpa [hid] using hn
      obtain ⟨m, hmid, hlease, hrun⟩ := hm n rfl d.tick (hi.claimed p x hx d hd).2 hid
      have hholds := hi.held p x hx d hd m (hid ▸ hmid)
      refine ⟨hlease.trans hholds.lease, fun hr => ?_⟩
      obtain hsame | hlater := hrun
      · rw [hsame]
        exact hholds.run hr
      · exact .inr hlater
    · exact hi.held p x hx d hd n (by simpa [hid] using hn)
  · obtain ⟨hclaimed, hbehind⟩ := hi.behind c hc
    refine ⟨hclaimed, fun n hn => ?_⟩
    by_cases hid : c.1 = id
    · obtain rfl : m' = some n := by simpa [hid] using hn
      obtain ⟨m, hmid, -, hsame | hlater⟩ := hm n rfl c hclaimed hid
      · rw [hsame]
        exact hbehind m (hid ▸ hmid)
      · exact hlater
    · exact hbehind n (by simpa [hid] using hn)

theorem Inv.create (hi : Inv s) {id : ℕ} (hnew : s.isNew id = true) (m : Monitor) :
    Inv { s with monitors := Function.update s.monitors id (some m) } := by
  refine hi.setMonitor id fun n _ c hc hid => ?_
  simp only [State.isNew, Bool.and_eq_true, List.all_eq_true] at hnew
  have hne := hnew.2 c hc
  simp [hid] at hne

theorem Inv.edit (hi : Inv s) {id : ℕ} {e : MonitorPatch}
    (he : ∀ m ∈ s.monitors id, e.active = some true → m.active = false → ∀ c ∈ s.claimed, c.1 = id → c.2 < now) :
    Inv (s.edit id fun m => some (m.update e now)) := by
  refine hi.setMonitor id fun n hn c hc hid => ?_
  obtain ⟨m, hm, hn⟩ := Option.bind_eq_some_iff.mp hn
  obtain rfl := Option.some.inj hn
  refine ⟨m, hm, rfl, ?_⟩
  unfold Monitor.update
  dsimp only
  split_ifs with h
  · exact .inr (he m hm h.1 h.2 c hc hid)
  · exact .inl rfl

/-! ## Claims -/

theorem isDue_le (h : m.isDue now = true) : m.nextRunAt ≤ now := by
  simp only [Monitor.isDue, Bool.and_eq_true, decide_eq_true_eq] at h
  exact h.1.2

theorem Inv.claimDue (hi : Inv s) (he : ∀ p < s.next, ∀ x ∈ s.passes p, ∀ d ∈ x.due, d.id ∉ s.dueOf now seen) : Inv (s.claimDue now seen) := by
  unfold State.claimDue
  dsimp only
  split_ifs
  · exact hi
  have hdue (d : DueMonitor) (hd : d ∈ s.dueMonitors now (s.dueOf now seen)) :
      d.id ∈ s.dueOf now seen ∧ ∃ m, s.monitors d.id = some m ∧ d = dueMonitor d.id m now ∧ m.nextRunAt ≤ now := by
    obtain ⟨id, hid, m, hm, rfl⟩ := mem_dueMonitors hd
    obtain ⟨m', hm', hisDue⟩ := mem_dueOf hid
    obtain rfl := Option.some.inj (hm.symm.trans hm')
    exact ⟨hid, m, hm, rfl, isDue_le hisDue⟩
  have hfree (p : ℕ) (x : Pass) (hx : s.passes p = some x) : ∀ d ∈ x.due, d.id ∉ s.dueOf now seen :=
    he p (hi.numbered p x hx) x hx
  -- a pass is the new one, or was there before
  have hcases {p : ℕ} {x : Pass}
      (hx : Function.update s.passes s.next (some ⟨s.dueMonitors now (s.dueOf now seen), now + claimLease, false⟩) p = some x) :
      (p = s.next ∧ x = ⟨s.dueMonitors now (s.dueOf now seen), now + claimLease, false⟩) ∨ s.passes p = some x := by
    by_cases hp : p = s.next
    · subst hp
      exact .inl ⟨rfl, by simpa [eq_comm] using hx⟩
    · exact .inr (by simpa [hp] using hx)
  refine ⟨fun p x hx => ?_, fun p x hx d hd m hm => ?_, fun p x q y hx hy hpq d hd e he => ?_, fun p x hx => ?_, fun p x hx d hd => ?_,
    fun p x hx hr d hd => ?_, fun c hc => ?_, hi.once⟩
  · obtain ⟨rfl, -⟩ | hx := hcases hx
    · exact Nat.lt_succ_self _
    · exact (hi.numbered p x hx).trans (Nat.lt_succ_self _)
  · obtain ⟨rfl, rfl⟩ | hx := hcases hx
    · obtain ⟨hid, m', hm', heq, -⟩ := hdue d hd
      obtain rfl : _ = m := by simpa [hid, hm'] using hm
      refine ⟨rfl, fun _ => .inl ?_⟩
      rw [heq]
      rfl
    · exact hi.held p x hx d hd m (by simpa [hfree p x hx d hd] using hm)
  · obtain ⟨rfl, rfl⟩ | hx := hcases hx
    · obtain ⟨rfl, -⟩ | hy := hcases hy
      · exact absurd rfl hpq
      · exact fun h => hfree q y hy e he (h ▸ (hdue d hd).1)
    · obtain ⟨rfl, rfl⟩ | hy := hcases hy
      · exact fun h => hfree p x hx d hd (h ▸ (hdue e he).1)
      · exact hi.alone p x q y hx hy hpq d hd e he
  · obtain ⟨rfl, rfl⟩ | hx := hcases hx
    · exact nodup_dueMonitors nodup_dueOf
    · exact hi.distinct p x hx
  · obtain ⟨rfl, rfl⟩ | hx := hcases hx
    · obtain ⟨-, m, -, heq, hle⟩ := hdue d hd
      refine ⟨?_, List.mem_append_right _ (List.mem_map_of_mem hd)⟩
      rw [heq]
      exact le_slot hle
    · obtain ⟨hle, htick⟩ := hi.claimed p x hx d hd
      exact ⟨hle, List.mem_append_left _ htick⟩
  · obtain ⟨rfl, rfl⟩ | hx := hcases hx
    · obtain ⟨-, m, hm, heq, hle⟩ := hdue d hd
      intro htick
      have hbehind : d.scheduledAt < m.nextRunAt := (hi.behind d.tick htick).2 m hm
      have hslot : d.scheduledAt = m.slot now := by rw [heq]; rfl
      have hreached := le_slot hle
      omega
    · exact hi.undone p x hx hr d hd
  · obtain ⟨hclaimed, hbehind⟩ := hi.behind c hc
    refine ⟨List.mem_append_left _ hclaimed, fun m hm => ?_⟩
    dsimp only at hm
    split_ifs at hm
    · obtain ⟨m', hm', rfl⟩ := Option.map_eq_some_iff.mp hm
      exact hbehind m' hm'
    · exact hbehind m hm

/-! ## The end of a batch -/

/-- Passes that end are under way no more. -/
theorem Inv.endPass (hi : Inv s) (p : ℕ) : Inv { s with passes := Function.update s.passes p none } := by
  have hcases {q : ℕ} {y : Pass} (hy : Function.update s.passes p none q = some y) : s.passes q = some y := by
    by_cases hq : q = p
    · simp [hq] at hy
    · simpa [hq] using hy
  exact ⟨fun q y hy => hi.numbered q y (hcases hy), fun q y hy => hi.held q y (hcases hy),
    fun q y q' y' hy hy' => hi.alone q y q' y' (hcases hy) (hcases hy'), fun q y hy => hi.distinct q y (hcases hy),
    fun q y hy => hi.claimed q y (hcases hy), fun q y hy => hi.undone q y (hcases hy), hi.behind, hi.once⟩

theorem Inv.release (hi : Inv s) (hx : s.passes p = some x) : Inv (s.release p x) := by
  have hcases {q : ℕ} {y : Pass} (hy : Function.update s.passes p none q = some y) : q ≠ p ∧ s.passes q = some y := by
    by_cases hq : q = p
    · simp [hq] at hy
    · exact ⟨hq, by simpa [hq] using hy⟩
  refine ⟨fun q y hy => hi.numbered q y (hcases hy).2, fun q y hy d hd m hm => ?_,
    fun q y q' y' hy hy' => hi.alone q y q' y' (hcases hy).2 (hcases hy').2, fun q y hy => hi.distinct q y (hcases hy).2,
    fun q y hy => hi.claimed q y (hcases hy).2, fun q y hy => hi.undone q y (hcases hy).2, fun c hc => ?_, hi.once⟩
  · obtain ⟨hqp, hy⟩ := hcases hy
    have hother : d.id ∉ x.due.map DueMonitor.id := by
      intro hmem
      obtain ⟨e, he, hid⟩ := List.mem_map.mp hmem
      exact hi.alone q y p x hy hx hqp d hd e he hid.symm
    refine hi.held q y hy d hd m ?_
    simpa only [State.release, if_neg hother] using hm
  · obtain ⟨hclaimed, hbehind⟩ := hi.behind c hc
    refine ⟨hclaimed, fun m hm => ?_⟩
    simp only [State.release] at hm
    split_ifs at hm
    · obtain ⟨m', hm', rfl⟩ := Option.map_eq_some_iff.mp hm
      exact hbehind m' hm'
    · exact hbehind m hm

theorem nodup_ticks {due : List DueMonitor} (h : (due.map DueMonitor.id).Nodup) : (due.map DueMonitor.tick).Nodup := by
  refine List.Nodup.of_map Prod.fst ?_
  rwa [List.map_map]

/-- The ticks of a batch are recorded, and each of its monitors moves past its slot. -/
theorem Inv.complete (hi : Inv s) (hx : s.passes p = some x) (lost : Bool) : Inv (s.complete p x lost) := by
  unfold State.complete
  by_cases hrecorded : x.recorded = true
  · rwa [if_pos hrecorded]
  rw [if_neg hrecorded]
  have hr : x.recorded = false := by simpa using hrecorded
  -- a pass was there before with the same batch, which is recorded now where it is this one
  have hcases {q : ℕ} {y : Pass} (hy : Function.update s.passes p (if lost = true then some { x with recorded := true } else none) q = some y) :
      (q = p ∧ y = { x with recorded := true }) ∨ (q ≠ p ∧ s.passes q = some y) := by
    by_cases hq : q = p
    · subst hq
      refine .inl ⟨rfl, ?_⟩
      rw [Function.update_self] at hy
      split_ifs at hy
      exact (Option.some.inj hy).symm
    · exact .inr ⟨hq, by simpa [hq] using hy⟩
  have hbefore {q : ℕ} {y : Pass} (hy : Function.update s.passes p (if lost = true then some { x with recorded := true } else none) q = some y) :
      ∃ y', s.passes q = some y' ∧ y'.due = y.due := by
    obtain ⟨rfl, rfl⟩ | ⟨-, hy⟩ := hcases hy
    · exact ⟨x, hx, rfl⟩
    · exact ⟨y, hy, rfl⟩
  have hother {q : ℕ} {y : Pass} (hqp : q ≠ p) (hy : s.passes q = some y) (d : DueMonitor) (hd : d ∈ y.due) : ∀ e ∈ x.due, e.id ≠ d.id :=
    fun e he h => hi.alone q y p x hy hx hqp d hd e he h.symm
  refine ⟨fun q y hy => ?_, fun q y hy d hd m hm => ?_, fun q y q' y' hy hy' hqq => ?_, fun q y hy => ?_, fun q y hy d hd => ?_,
    fun q y hy hrec d hd => ?_, fun c hc => ?_, ?_⟩
  · obtain ⟨y', hy', -⟩ := hbefore hy
    exact hi.numbered q y' hy'
  · change completeMonitors s.monitors x.due d.id = some m at hm
    obtain ⟨rfl, rfl⟩ | ⟨hqp, hy⟩ := hcases hy
    · obtain ⟨hnot, -⟩ | ⟨e, he, hid, heq⟩ := completeMonitors_cases s.monitors x.due d.id
      · exact absurd (List.mem_map_of_mem hd) hnot
      · rw [heq] at hm
        obtain ⟨m', -, rfl⟩ := Option.map_eq_some_iff.mp hm
        exact ⟨rfl, fun h => (by cases h)⟩
    · obtain ⟨-, heq⟩ | ⟨e, he, hid, -⟩ := completeMonitors_cases s.monitors x.due d.id
      · exact hi.held q y hy d hd m (heq ▸ hm)
      · exact absurd hid (hother hqp hy d hd e he)
  · obtain ⟨z, hz, hdue⟩ := hbefore hy
    obtain ⟨z', hz', hdue'⟩ := hbefore hy'
    rw [← hdue, ← hdue']
    exact hi.alone q z q' z' hz hz' hqq
  · obtain ⟨z, hz, hdue⟩ := hbefore hy
    exact hdue ▸ hi.distinct q z hz
  · obtain ⟨z, hz, hdue⟩ := hbefore hy
    exact hi.claimed q z hz d (hdue ▸ hd)
  · obtain ⟨rfl, rfl⟩ | ⟨hqp, hy⟩ := hcases hy
    · cases hrec
    · intro hmem
      obtain hmem | hmem := List.mem_append.mp hmem
      · exact hi.undone q y hy hrec d hd hmem
      · obtain ⟨e, he, htick⟩ := List.mem_map.mp hmem
        exact hother hqp hy d hd e he (congrArg Prod.fst htick)
  · obtain hc | hc := List.mem_append.mp hc
    · obtain ⟨hclaimed, hbehind⟩ := hi.behind c hc
      refine ⟨hclaimed, fun m hm => ?_⟩
      obtain ⟨-, heq⟩ | ⟨e, he, hid, heq⟩ := completeMonitors_cases s.monitors x.due c.1
      · exact hbehind m (heq ▸ hm)
      · obtain ⟨m', hm', rfl⟩ := Option.map_eq_some_iff.mp (heq.symm.trans hm)
        have hold : c.2 < m'.nextRunAt := hbehind m' hm'
        have hslot := (hi.claimed p x hx e he).1
        obtain ⟨hsame, hpast⟩ | hsame := nextRunAt_complete m' e
        · omega
        · omega
    · obtain ⟨d, hd, rfl⟩ := List.mem_map.mp hc
      refine ⟨(hi.claimed p x hx d hd).2, fun m hm => ?_⟩
      obtain ⟨hnot, -⟩ | ⟨e, he, hid, heq⟩ := completeMonitors_cases s.monitors x.due d.id
      · exact absurd (List.mem_map_of_mem hd) hnot
      · obtain rfl : e = d := List.inj_on_of_nodup_map (hi.distinct p x hx) he hd hid
        obtain ⟨m', hm', rfl⟩ := Option.map_eq_some_iff.mp (heq.symm.trans hm)
        change e.scheduledAt < (m'.complete e).nextRunAt
        obtain ⟨-, hpast⟩ | hsame := nextRunAt_complete m' e
        · exact hpast
        · obtain hrun | hrun := (hi.held p x hx e he m' hm').run hr
          · simp [Monitor.complete, hrun] at hsame
            have hpos := period_pos m'
            have hslot := (hi.claimed p x hx e he).1
            omega
          · omega
  · refine hi.once.append (nodup_ticks (hi.distinct p x hx)) fun c hc hmem => ?_
    obtain ⟨d, hd, rfl⟩ := List.mem_map.mp hmem
    exact hi.undone p x hx hr d hd hc

theorem Inv.step (hi : Inv s) {e : Event} (he : Timely s e) : Inv (step s e) := by
  cases e with
  | create id intervalS nextRunAt =>
    simp only [CheckLeases.step]
    split_ifs with hnew
    · exact hi.create hnew _
    · exact hi
  | edit id now e =>
    simp only [CheckLeases.step]
    split_ifs
    · exact hi.edit he
    · exact hi
  | delete id => exact hi.setMonitor id fun n hn => (by simp at hn)
  | claim now seen =>
    simp only [CheckLeases.step]
    split_ifs
    · exact hi.claimDue he
    · exact hi
  | complete p lost =>
    simp only [CheckLeases.step]
    cases hx : s.passes p with
    | none => exact hi
    | some x => exact hi.complete hx lost
  | release p =>
    simp only [CheckLeases.step]
    cases hx : s.passes p with
    | none => exact hi
    | some x => exact hi.release hx
  | crash p => exact hi.endPass p
  | tick d => exact ⟨hi.numbered, hi.held, hi.alone, hi.distinct, hi.claimed, hi.undone, hi.behind, hi.once⟩

/-! ## What a step does to monitors -/

theorem Forward.refl (s : State) : Forward s s := by
  intro id m m' hm hm'
  obtain rfl := Option.some.inj (hm.symm.trans hm')
  exact le_rfl

/-- A step that changes the leases of some monitors moves none of them. -/
theorem forward_of_leases {s' : State} (ids : List ℕ) (f : Monitor → Monitor) (hf : ∀ m, (f m).nextRunAt = m.nextRunAt)
    (hs : ∀ id, s'.monitors id = if id ∈ ids then (s.monitors id).map f else s.monitors id) : Forward s s' := by
  intro id m m' hm hm'
  rw [hs, hm] at hm'
  split_ifs at hm'
  · obtain rfl : f m = m' := by simpa using hm'
    exact (hf m).ge
  · obtain rfl := Option.some.inj hm'
    exact le_rfl

theorem Inv.forward_complete (hi : Inv s) (hx : s.passes p = some x) (lost : Bool) : Forward s (s.complete p x lost) := by
  unfold State.complete
  by_cases hrecorded : x.recorded = true
  · rw [if_pos hrecorded]
    exact .refl s
  rw [if_neg hrecorded]
  intro id m m' hm hm'
  obtain ⟨-, heq⟩ | ⟨d, hd, -, heq⟩ := completeMonitors_cases s.monitors x.due id
  · obtain rfl := Option.some.inj (hm.symm.trans (heq.symm.trans hm'))
    exact le_rfl
  · obtain ⟨n, hn, rfl⟩ := Option.map_eq_some_iff.mp (heq.symm.trans hm')
    obtain rfl := Option.some.inj (hm.symm.trans hn)
    have hslot := (hi.claimed p x hx d hd).1
    obtain ⟨hsame, hpast⟩ | hsame := nextRunAt_complete m d
    · omega
    · exact hsame.ge

/-- A lease that a pass ends was of a monitor of its batch, and so its own. -/
theorem Inv.holder (hi : Inv s) (hx : s.passes p = some x) {id : ℕ} (hid : id ∈ x.due.map DueMonitor.id) (hm : s.monitors id = some m)
    {l : Lease} (hl : m.lease = some l) : l.holder = p := by
  obtain ⟨d, hd, rfl⟩ := List.mem_map.mp hid
  have hlease := (hi.held p x hx d hd m hm).lease
  rw [hl] at hlease
  split_ifs at hlease
  obtain rfl := Option.some.inj hlease
  rfl

theorem Inv.endsOwn_complete (hi : Inv s) (hx : s.passes p = some x) (lost : Bool) : EndsOwn s (s.complete p x lost) p := by
  intro id m m' l hm hl hm' hnone
  unfold State.complete at hm'
  by_cases hrecorded : x.recorded = true
  · rw [if_pos hrecorded] at hm'
    obtain rfl := Option.some.inj (hm.symm.trans hm')
    simp [hl] at hnone
  · rw [if_neg hrecorded] at hm'
    obtain ⟨-, heq⟩ | ⟨d, hd, rfl, -⟩ := completeMonitors_cases s.monitors x.due id
    · obtain rfl := Option.some.inj (hm.symm.trans (heq.symm.trans hm'))
      simp [hl] at hnone
    · exact hi.holder hx (List.mem_map_of_mem hd) hm hl

theorem Inv.endsOwn_release (hi : Inv s) (hx : s.passes p = some x) : EndsOwn s (s.release p x) p := by
  intro id m m' l hm hl hm' hnone
  by_cases hid : id ∈ x.due.map DueMonitor.id
  · exact hi.holder hx hid hm hl
  · simp only [State.release, if_neg hid] at hm'
    obtain rfl := Option.some.inj (hm.symm.trans hm')
    simp [hl] at hnone

theorem endsOwn_refl (s : State) (p : ℕ) : EndsOwn s s p := by
  intro id m m' l hm hl hm' hnone
  obtain rfl := Option.some.inj (hm.symm.trans hm')
  simp [hl] at hnone

theorem Inv.inOrder (hi : Inv s) (e : Event) : InOrder s e := by
  cases e with
  | create id intervalS nextRunAt =>
    simp only [InOrder, CheckLeases.step]
    split_ifs with hnew
    · intro l m m' hm hm'
      have hne : l ≠ id := by
        rintro rfl
        simp [State.isNew, hm] at hnew
      obtain rfl : m = m' := by simpa [hne, hm] using hm'
      exact le_rfl
    · exact .refl s
  | edit id now e => trivial
  | delete id =>
    intro l m m' hm hm'
    by_cases hid : l = id
    · simp [CheckLeases.step, State.edit, hid] at hm'
    · obtain rfl : m = m' := by simpa [CheckLeases.step, State.edit, hid, hm] using hm'
      exact le_rfl
  | claim now seen =>
    simp only [InOrder, CheckLeases.step, State.claimDue]
    split_ifs
    · exact .refl s
    · exact forward_of_leases (s.dueOf now seen) (fun m => { m with lease := some ⟨now + claimLease, s.next⟩ }) (fun _ => rfl) fun _ => rfl
    · exact .refl s
  | complete p lost =>
    simp only [InOrder, CheckLeases.step]
    cases hx : s.passes p with
    | none => exact ⟨.refl s, endsOwn_refl s p⟩
    | some x => exact ⟨hi.forward_complete hx lost, hi.endsOwn_complete hx lost⟩
  | release p =>
    simp only [InOrder, CheckLeases.step]
    cases hx : s.passes p with
    | none => exact ⟨.refl s, endsOwn_refl s p⟩
    | some x =>
      exact ⟨forward_of_leases (x.due.map DueMonitor.id) Monitor.release (fun _ => rfl) fun _ => rfl, hi.endsOwn_release hx⟩
  | crash p => exact .refl s
  | tick d => exact .refl s

theorem inv_initial (clock : ℤ) : Inv (initial clock) where
  numbered p x hx := by cases hx
  held p x hx := by cases hx
  alone p x q y hx := by cases hx
  distinct p x hx := by cases hx
  claimed p x hx := by cases hx
  undone p x hx := by cases hx
  behind c hc := by cases hc
  once := List.nodup_nil

end

/-- However passes, crashes and edits come in, as long as no monitor is claimed while a pass that has
claimed it is under way and none is resumed at a slot of the past, each slot is dispatched once at
most, only edits move a monitor back, and a pass ends only leases of its own. -/
theorem dispatched_once (clock : ℤ) (es : List Event) (hm : Meets step Timely (initial clock) es) :
    Throughout step Once (initial clock) es ∧ Meets step InOrder (initial clock) es := by
  constructor
  · exact (hm.throughout (P := Inv) (fun _ _ hi he => hi.step he) (inv_initial clock)).imp fun _ hi => hi.once
  · exact hm.imp_of (P := Inv) (fun _ e hi _ => hi.inOrder e) (fun _ _ hi he => hi.step he) (inv_initial clock)

/-- Two passes over a monitor that is checked every five minutes, of which the first dies and the second is in time. -/
def retried : List Event :=
  [.create 0 300 0, .claim 0 [0], .crash 0, .tick 181000000, .claim 181000000 [0], .tick 5000000, .complete 1 false]

theorem retried_once : Throughout step Once (initial 0) retried ∧ Meets step InOrder (initial 0) retried :=
  dispatched_once 0 retried (by decide +kernel)

/-- As above, but the first pass is only slow. -/
def overtaken : List Event :=
  [.create 0 300 0, .claim 0 [0], .tick 181000000, .claim 181000000 [0], .complete 0 false, .complete 1 false]

theorem overtaken_twice : ¬∀ (clock : ℤ) (es : List Event),
    Throughout step Once (initial clock) es ∧ Meets step InOrder (initial clock) es := by
  intro h
  have hlast := (h 0 overtaken).1.last
  exact absurd hlast (by decide +kernel)

end Upstat.CheckLeases
