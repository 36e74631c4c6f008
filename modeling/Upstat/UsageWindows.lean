import Mathlib.Algebra.Ring.Nat
import Mathlib.Data.List.Sort
import Mathlib.Logic.Function.Basic
import Mathlib.Order.Nat
import Upstat.GuardedRuns

/-! # Usage counts in one-minute windows (`usage/usage.service.ts`)

Gateways add usage to counters, on Valkey or in their own memory, and flush those of closed windows
to the collector, each flush cut where it waits. Times are milliseconds; `now` is a caller's time,
and the state has Valkey's clock, by which hashes and locks expire. -/
namespace Upstat.UsageWindows

open GuardedRuns

def windowMs : ℕ := 60000
def checkEveryMs : ℕ := 15000
def lockSeconds : ℕ := 60
def keepSeconds : ℕ := 3600

inductive Pillar where
  | traces | metrics | logs | rum
  deriving DecidableEq

structure Row where
  orgId : String
  keyId : String
  pillar : Pillar
  deriving DecidableEq

/-- An amount that is added, the `id`th one. -/
structure Added where
  id : ℕ
  window : ℕ
  row : Row
  bytes : ℕ
  items : ℕ
  deriving DecidableEq

/-- The counts of a row in a window, with what has been added up in them. -/
structure Tally where
  window : ℕ
  row : Row
  bytes : ℕ
  items : ℕ
  adds : List Added
  bytes_eq : bytes = (adds.map Added.bytes).sum
  items_eq : items = (adds.map Added.items).sum
  mine : ∀ a ∈ adds, a.window = window ∧ a.row = row

def Tally.zero (window : ℕ) (row : Row) : Tally := ⟨window, row, 0, 0, [], rfl, rfl, by simp⟩

def Tally.Counts (t : Tally) (a : Added) : Prop := a.window = t.window ∧ a.row = t.row

instance (t : Tally) (a : Added) : Decidable (t.Counts a) := inferInstanceAs (Decidable (_ ∧ _))

/-- There is a tally of the same row and window among these. -/
def Tally.amongst (t : Tally) (ts : List Tally) : Bool := ts.any fun u => u.window = t.window ∧ u.row = t.row

/-- Adds what belongs to the row and the window. -/
def Tally.add (t : Tally) (a : Added) : Tally :=
  if h : t.Counts a then
    { t with
      bytes := t.bytes + a.bytes
      items := t.items + a.items
      adds := t.adds ++ [a]
      bytes_eq := by simp [t.bytes_eq]
      items_eq := by simp [t.items_eq]
      mine := by
        intro b hb
        obtain hb | hb := List.mem_append.mp hb
        · exact t.mine b hb
        · obtain rfl := List.mem_singleton.mp hb
          exact h }
  else t

theorem Tally.adds_add (t : Tally) (a : Added) : t.adds ⊆ (t.add a).adds := by
  unfold Tally.add
  split_ifs
  · exact List.subset_append_left _ _
  · exact fun _ h => h

theorem Tally.mem_add {t : Tally} {a : Added} (h : t.Counts a) : a ∈ (t.add a).adds := by simp [Tally.add, h]

/-- The rows of each org, in the order in which the orgs come. -/
def byOrg {α : Type} (org : α → String) (rows : List α) : List (List α) :=
  (rows.map org).eraseDups.map fun o => rows.filter fun x => org x = o

/-! ## Valkey -/

structure Hash where
  tallies : List Tally
  expireAt : ℕ

structure Valkey where
  hashes : ℕ → Option Hash
  windows : List ℕ
  locks : ℕ → Option ℕ

/-- `HINCRBY` of both counts of a row. -/
def increased (a : Added) : List Tally → List Tally
  | [] => [(Tally.zero a.window a.row).add a]
  | t :: ts => if t.Counts a then t.add a :: ts else t :: increased a ts

/-- `ADD_SCRIPT` -/
def addScript (v : Valkey) (clock : ℕ) (a : Added) : Valkey :=
  { v with
    hashes := Function.update v.hashes a.window
      (some ⟨increased a ((v.hashes a.window).elim [] Hash.tallies), clock + keepSeconds * 1000⟩)
    windows := if a.window ∈ v.windows then v.windows else v.windows ++ [a.window] }

/-- `CLAIM_SCRIPT` -/
def claimScript (v : Valkey) (clock window : ℕ) : Valkey × Option (List Tally) :=
  if (v.locks window).isSome then (v, none)
  else
    ({ v with locks := Function.update v.locks window (some (clock + lockSeconds * 1000)) },
      some ((v.hashes window).elim [] Hash.tallies))

/-- `ACK_SCRIPT`. A hash with no fields is no longer there. -/
def ackScript (v : Valkey) (window : ℕ) (sent : List Row) : Valkey :=
  let rest := ((v.hashes window).elim [] Hash.tallies).filter fun t => t.row ∉ sent
  { hashes := Function.update v.hashes window (if rest.isEmpty then none else (v.hashes window).map fun h => { h with tallies := rest })
    windows := if rest.isEmpty then v.windows.filter (· ≠ window) else v.windows
    locks := Function.update v.locks window none }

/-- What there is when the clock has moved on: what has expired by then is gone. -/
def Valkey.expired (v : Valkey) (clock : ℕ) : Valkey :=
  { v with
    hashes := fun w => (v.hashes w).filter fun h => clock < h.expireAt
    locks := fun w => (v.locks w).filter fun t => clock < t }

/-! ## The gateways -/

/-- A gateway's `nextCheckAt` and its map in memory, by the objects in it. -/
structure Instance where
  nextCheckAt : ℕ
  loc : List ℕ

/-- Where a flush has come to. The groups of rows by org are still to be sent; `sent` has the
tallies that were, and `taken` those that are being sent from memory. -/
inductive Point where
  | windows (current : ℕ)
  | claiming (due : List ℕ)
  | sending (window : ℕ) (todo : List (List Tally)) (sent : List Tally) (due : List ℕ)
  /-- `due` is what comes after, if nothing was thrown. -/
  | acking (window : ℕ) (sent : List Tally) (due : Option (List ℕ))
  | sendingLocal (taken : List Tally) (todo : List (List ℕ))

structure Flush where
  gateway : ℕ
  point : Point

/-- `heap` has the objects that the maps in memory refer to; `sent` the tallies the collector got,
and `accepted` the additions that succeeded. -/
structure State where
  clock : ℕ
  valkey : Valkey
  heap : List Tally
  instances : ℕ → Instance
  flushes : ℕ → Option Flush
  sent : List Tally
  accepted : List Added
  count : ℕ

/-- A call to Valkey or the collector succeeds, fails without effect, or has its effect and fails. -/
inductive Outcome where
  | ok | failed | lost
  deriving DecidableEq

inductive Event where
  | add (i : ℕ) (row : Row) (bytes items now : ℕ) (outcome : Outcome)
  | flushDue (i f now : ℕ)
  | go (f : ℕ) (outcome : Outcome)
  /-- The process of a gateway is killed and started again. -/
  | crash (i : ℕ)
  | tick (d : ℕ)

def objectFor (heap : List Tally) (a : Added) (o : ℕ) : Bool := heap[o]?.any fun t => t.Counts a

/-- `add` to the map in memory. -/
def addLocal (heap : List Tally) (loc : List ℕ) (a : Added) : List Tally × List ℕ :=
  match loc.find? (objectFor heap a) with
  | some o => (heap.modify o fun t => t.add a, loc)
  | none => (heap ++ [(Tally.zero a.window a.row).add a], loc ++ [heap.length])

def State.put (s : State) (f : ℕ) (x : Option Flush) : State := { s with flushes := Function.update s.flushes f x }

def State.setLocal (s : State) (i : ℕ) (loc : List ℕ) : State :=
  { s with instances := Function.update s.instances i { s.instances i with loc := loc } }

def State.add (s : State) (enabled : ℕ → Bool) (i : ℕ) (a : Added) (outcome : Outcome) : State :=
  let s' := { s with count := s.count + 1 }
  if enabled i then
    { s' with
      valkey := if outcome = .failed then s.valkey else addScript s.valkey s.clock a
      accepted := if outcome = .ok then s.accepted ++ [a] else s.accepted }
  else
    let added := addLocal s.heap (s.instances i).loc a
    { s'.setLocal i added.2 with heap := added.1, accepted := s.accepted ++ [a] }

/-- Sends the next org's rows from memory, with the counts they have now, or ends the flush. -/
def State.sendLocal (s : State) (f i : ℕ) : List (List ℕ) → State
  | [] => s.put f none
  | rows :: todo => s.put f (some ⟨i, .sendingLocal (rows.filterMap fun o => s.heap[o]?) todo⟩)

/-- `flushLocal`, to where it waits for the collector. -/
def State.flushLocal (s : State) (f i current : ℕ) : State :=
  s.sendLocal f i (byOrg (fun o => s.heap[o]?.elim "" fun t => t.row.orgId)
    ((s.instances i).loc.filter fun o => s.heap[o]?.any fun t => t.window < current))

def State.flushDue (s : State) (enabled : ℕ → Bool) (i f now : ℕ) : State :=
  if now < (s.instances i).nextCheckAt then s
  else
    let s' := { s with instances := Function.update s.instances i { s.instances i with nextCheckAt := now + checkEveryMs } }
    if enabled i then s'.put f (some ⟨i, .windows (now / windowMs)⟩) else s'.flushLocal f i (now / windowMs)

/-- The loop over the orgs, and `finally`. -/
def sendingNext (window : ℕ) (todo : List (List Tally)) (sent : List Tally) (due : List ℕ) : Point :=
  if todo.isEmpty then .acking window sent (some due) else .sending window todo sent due

/-- What an answer, or its failure, leads a flush on to. -/
def State.go (s : State) (f : ℕ) (x : Flush) (outcome : Outcome) : State :=
  match x.point with
  | .windows current =>
    if outcome = .ok then
      s.put f (some { x with point := .claiming ((s.valkey.windows.filter (· < current)).insertionSort (· ≤ ·)) })
    else s.put f none
  | .claiming [] => s.put f none
  | .claiming (w :: due) =>
    let claimed := claimScript s.valkey s.clock w
    match outcome with
    | .failed => s.put f none
    | .lost => { s with valkey := claimed.1 }.put f none
    | .ok =>
      let point := claimed.2.elim (.claiming due) fun reply => sendingNext w (byOrg (fun t => t.row.orgId) reply) [] due
      { s with valkey := claimed.1 }.put f (some { x with point := point })
  | .sending w [] sent due => s.put f (some { x with point := .acking w sent (some due) })
  | .sending w (rows :: todo) sent due =>
    match outcome with
    | .failed => s.put f (some { x with point := .acking w sent none })
    | .lost => { s with sent := s.sent ++ rows }.put f (some { x with point := .acking w sent none })
    | .ok => { s with sent := s.sent ++ rows }.put f (some { x with point := sendingNext w todo (sent ++ rows) due })
  | .acking w sent due =>
    { s with valkey := if outcome = Outcome.failed then s.valkey else ackScript s.valkey w (sent.map Tally.row) }.put f
      (due.map fun due => { x with point := .claiming due })
  | .sendingLocal taken todo =>
    match outcome with
    | .failed => s.put f none
    | .lost => { s with sent := s.sent ++ taken }.put f none
    | .ok =>
      let loc := (s.instances x.gateway).loc.filter fun o => ¬s.heap[o]?.any fun t => t.amongst taken
      ({ s with sent := s.sent ++ taken }.setLocal x.gateway loc).sendLocal f x.gateway todo

def step (enabled : ℕ → Bool) (s : State) : Event → State
  | .add i row bytes items now outcome => s.add enabled i ⟨s.count, now / windowMs, row, bytes, items⟩ outcome
  | .flushDue i f now => if (s.flushes f).isSome then s else s.flushDue enabled i f now
  | .go f outcome => (s.flushes f).elim s fun x => s.go f x outcome
  | .crash i =>
    { s with
      instances := Function.update s.instances i ⟨0, []⟩
      flushes := fun f => (s.flushes f).filter fun x => x.gateway ≠ i }
  | .tick d => { s with clock := s.clock + d, valkey := s.valkey.expired (s.clock + d) }

/-- Nothing has been counted yet. -/
def initial (clock : ℕ) : State where
  clock := clock
  valkey := ⟨fun _ => none, [], fun _ => none⟩
  heap := []
  instances _ := ⟨0, []⟩
  flushes _ := none
  sent := []
  accepted := []
  count := 0

/-! ## What is counted -/

def IsSent (s : State) (a : Added) : Prop := ∃ t ∈ s.sent, a ∈ t.adds

/-- The addition is in a hash whose window is listed. -/
def Valkey.Has (v : Valkey) (a : Added) : Prop := ∃ w ∈ v.windows, ∃ h ∈ v.hashes w, ∃ t ∈ h.tallies, a ∈ t.adds

def HasLocal (heap : List Tally) (loc : List ℕ) (a : Added) : Prop := ∃ o ∈ loc, ∃ t ∈ heap[o]?, a ∈ t.adds

/-- The addition is in a tally that was sent, or stored for a later flush. -/
def Safe (s : State) (a : Added) : Prop := IsSent s a ∨ s.valkey.Has a ∨ ∃ i, HasLocal s.heap (s.instances i).loc a

def NoneLost (s : State) : Prop := ∀ a ∈ s.accepted, Safe s a

/-- A deletion deletes nothing that was added after the flush had claimed the counters. -/
def Flush.Clean (s : State) (x : Flush) (outcome : Outcome) : Prop :=
  match x.point with
  | .acking w sent _ =>
    outcome ≠ .failed → ∀ h ∈ s.valkey.hashes w, ∀ t ∈ h.tallies, t.row ∈ sent.map Tally.row → ∀ a ∈ t.adds, ∃ u ∈ sent, a ∈ u.adds
  | .sendingLocal taken _ =>
    outcome = .ok → ∀ o ∈ (s.instances x.gateway).loc, ∀ t ∈ s.heap[o]?, t.amongst taken → ∀ a ∈ t.adds, ∃ u ∈ taken, a ∈ u.adds
  | .windows _ | .claiming _ | .sending _ _ _ _ => True

/-- Deletions are clean; the hashes that expire, and the memory of gateways that are killed, have
only counts that were sent. -/
def Undisturbed (s : State) : Event → Prop
  | .go f outcome => ∀ x ∈ s.flushes f, x.Clean s outcome
  | .crash i => ∀ o ∈ (s.instances i).loc, ∀ t ∈ s.heap[o]?, ∀ a ∈ t.adds, IsSent s a
  | .tick d =>
    ∀ w ∈ s.valkey.windows, ∀ h ∈ s.valkey.hashes w, h.expireAt ≤ s.clock + d → ∀ t ∈ h.tallies, ∀ a ∈ t.adds, IsSent s a
  | .add _ _ _ _ _ _ | .flushDue _ _ _ => True

instance (s : State) (a : Added) : Decidable (IsSent s a) := inferInstanceAs (Decidable (∃ t ∈ s.sent, _))

instance (s : State) (outcome : Outcome) : (x : Flush) → Decidable (x.Clean s outcome)
  | ⟨_, .acking w _ _⟩ => inferInstanceAs (Decidable (_ → ∀ h ∈ s.valkey.hashes w, _))
  | ⟨i, .sendingLocal _ _⟩ => inferInstanceAs (Decidable (_ → ∀ o ∈ (s.instances i).loc, _))
  | ⟨_, .windows _⟩ | ⟨_, .claiming _⟩ | ⟨_, .sending _ _ _ _⟩ => isTrue trivial

instance (s : State) : (e : Event) → Decidable (Undisturbed s e)
  | .go f outcome => inferInstanceAs (Decidable (∀ x ∈ s.flushes f, x.Clean s outcome))
  | .crash i => inferInstanceAs (Decidable (∀ o ∈ (s.instances i).loc, _))
  | .tick _ => inferInstanceAs (Decidable (∀ w ∈ s.valkey.windows, _))
  | .add _ _ _ _ _ _ | .flushDue _ _ _ => isTrue trivial

/-! ## Valkey's scripts -/

section
variable {v : Valkey} {a b : Added}

/-- A hash that is there has its window listed. -/
def Valkey.Listed (v : Valkey) : Prop := ∀ w, ∀ h ∈ v.hashes w, h.tallies ≠ [] → w ∈ v.windows

theorem mem_increased (a : Added) (ts : List Tally) : ∃ t ∈ increased a ts, a ∈ t.adds := by
  induction ts with
  | nil => exact ⟨_, List.mem_singleton_self _, Tally.mem_add ⟨rfl, rfl⟩⟩
  | cons t ts ih =>
    unfold increased
    split_ifs with h
    · exact ⟨t.add a, List.mem_cons_self, Tally.mem_add h⟩
    · obtain ⟨u, hu, ha⟩ := ih
      exact ⟨u, List.mem_cons_of_mem t hu, ha⟩

theorem increased_keeps (a : Added) {ts : List Tally} {t : Tally} (ht : t ∈ ts) : ∃ u ∈ increased a ts, t.adds ⊆ u.adds := by
  induction ts with
  | nil => cases ht
  | cons u ts ih =>
    unfold increased
    obtain rfl | ht := List.mem_cons.mp ht
    · split_ifs
      · exact ⟨t.add a, List.mem_cons_self, t.adds_add a⟩
      · exact ⟨t, List.mem_cons_self, fun _ h => h⟩
    · split_ifs
      · exact ⟨t, List.mem_cons_of_mem _ ht, fun _ h => h⟩
      · obtain ⟨x, hx, hsub⟩ := ih ht
        exact ⟨x, List.mem_cons_of_mem u hx, hsub⟩

theorem mem_windows_addScript (v : Valkey) (clock : ℕ) (a : Added) : a.window ∈ (addScript v clock a).windows := by
  unfold addScript
  dsimp only
  split_ifs with h
  · exact h
  · simp

theorem windows_addScript (v : Valkey) (clock : ℕ) (a : Added) : v.windows ⊆ (addScript v clock a).windows := by
  unfold addScript
  dsimp only
  split_ifs
  · exact fun _ h => h
  · exact List.subset_append_left _ _

theorem has_addScript_self (v : Valkey) (clock : ℕ) (a : Added) : (addScript v clock a).Has a := by
  obtain ⟨t, ht, ha⟩ := mem_increased a ((v.hashes a.window).elim [] Hash.tallies)
  refine ⟨a.window, mem_windows_addScript v clock a, ⟨_, clock + keepSeconds * 1000⟩, ?_, t, ht, ha⟩
  simp [addScript]

theorem has_addScript (clock : ℕ) (a : Added) (hb : v.Has b) : (addScript v clock a).Has b := by
  obtain ⟨w, hw, h, hh, t, ht, hb⟩ := hb
  refine ⟨w, windows_addScript v clock a hw, ?_⟩
  by_cases hwa : w = a.window
  · subst hwa
    obtain ⟨u, hu, hsub⟩ := increased_keeps a ht
    refine ⟨⟨increased a h.tallies, clock + keepSeconds * 1000⟩, ?_, u, hu, hsub hb⟩
    simp [addScript, Option.mem_def.mp hh]
  · exact ⟨h, by simpa [addScript, hwa] using hh, t, ht, hb⟩

theorem Valkey.Listed.addScript (hv : v.Listed) (clock : ℕ) (a : Added) : (addScript v clock a).Listed := by
  intro w h hh hne
  by_cases hw : w = a.window
  · subst hw
    exact mem_windows_addScript v clock a
  · refine windows_addScript v clock a (hv w h ?_ hne)
    simpa [UsageWindows.addScript, hw] using hh

/-- What an acknowledgement deletes was in a row it names. -/
theorem has_ackScript (w : ℕ) (sent : List Row) (hb : v.Has b) :
    (ackScript v w sent).Has b ∨ ∃ h ∈ v.hashes w, ∃ t ∈ h.tallies, t.row ∈ sent ∧ b ∈ t.adds := by
  obtain ⟨w', hw', h, hh, t, ht, hb⟩ := hb
  by_cases hww : w' = w
  · subst hww
    by_cases hrow : t.row ∈ sent
    · exact .inr ⟨h, hh, t, ht, hrow, hb⟩
    · have hrest : t ∈ h.tallies.filter fun t => t.row ∉ sent := List.mem_filter.mpr ⟨ht, by simpa using hrow⟩
      have hne : (h.tallies.filter fun t => t.row ∉ sent).isEmpty = false := by
        simpa using List.ne_nil_of_mem hrest
      refine .inl ⟨w', ?_, { h with tallies := h.tallies.filter fun t => t.row ∉ sent }, ?_, t, hrest, hb⟩
      · simpa only [ackScript, Option.mem_def.mp hh, Option.elim_some, hne, Bool.false_eq_true, if_false] using hw'
      · simp only [ackScript, Option.mem_def.mp hh, Option.elim_some, hne, Bool.false_eq_true, if_false, Function.update_self]
        rfl
  · refine .inl ⟨w', ?_, h, by simpa [ackScript, hww] using hh, t, ht, hb⟩
    unfold ackScript
    dsimp only
    split_ifs
    · exact List.mem_filter.mpr ⟨hw', by simpa using hww⟩
    · exact hw'

theorem Valkey.Listed.ackScript (hv : v.Listed) (w : ℕ) (sent : List Row) : (ackScript v w sent).Listed := by
  intro w' h hh hne
  by_cases hww : w' = w
  · subst hww
    unfold UsageWindows.ackScript at hh ⊢
    dsimp only at hh ⊢
    rw [Function.update_self] at hh
    split_ifs at hh ⊢ with hrest
    · cases hh
    · obtain ⟨h', hh', rfl⟩ := Option.map_eq_some_iff.mp hh
      refine hv w' h' hh' fun hnil => hrest ?_
      simp [hh', hnil]
  · have hw' := hv w' h (by simpa [UsageWindows.ackScript, hww] using hh) hne
    unfold UsageWindows.ackScript
    dsimp only
    split_ifs
    · exact List.mem_filter.mpr ⟨hw', by simpa using hww⟩
    · exact hw'

theorem has_expired (clock : ℕ) (hb : v.Has b) :
    (v.expired clock).Has b ∨ ∃ w ∈ v.windows, ∃ h ∈ v.hashes w, h.expireAt ≤ clock ∧ ∃ t ∈ h.tallies, b ∈ t.adds := by
  obtain ⟨w, hw, h, hh, t, ht, hb⟩ := hb
  by_cases hlive : clock < h.expireAt
  · refine .inl ⟨w, hw, h, ?_, t, ht, hb⟩
    exact Option.filter_eq_some_iff.mpr ⟨hh, by simpa using hlive⟩
  · exact .inr ⟨w, hw, h, hh, not_lt.mp hlive, t, ht, hb⟩

theorem Valkey.Listed.expired (hv : v.Listed) (clock : ℕ) : (v.expired clock).Listed := by
  intro w h hh hne
  exact hv w h (Option.filter_eq_some_iff.mp hh).1 hne

end

/-! ## The map in memory -/

section
variable {heap : List Tally} {loc : List ℕ} {a b : Added}

theorem hasLocal_addLocal_self (heap : List Tally) (loc : List ℕ) (a : Added) :
    HasLocal (addLocal heap loc a).1 (addLocal heap loc a).2 a := by
  unfold addLocal
  cases hfind : loc.find? (objectFor heap a) with
  | none => exact ⟨heap.length, by simp, (Tally.zero a.window a.row).add a, by simp, Tally.mem_add ⟨rfl, rfl⟩⟩
  | some o =>
    have hobject := List.find?_some hfind
    obtain ⟨t, ht, hcounts⟩ := (Option.any_eq_true _ _).mp hobject
    refine ⟨o, List.mem_of_find?_eq_some hfind, t.add a, ?_, Tally.mem_add (by simpa using hcounts)⟩
    simp [Option.mem_def.mp ht]

/-- No object loses what was added to it, whichever map refers to it. -/
theorem heap_addLocal (loc : List ℕ) (a : Added) {o : ℕ} {t : Tally} (ht : t ∈ heap[o]?) :
    ∃ u ∈ (addLocal heap loc a).1[o]?, t.adds ⊆ u.adds := by
  unfold addLocal
  cases loc.find? (objectFor heap a) with
  | none =>
    refine ⟨t, ?_, fun _ h => h⟩
    obtain ⟨hlt, -⟩ := List.getElem?_eq_some_iff.mp ht
    rw [Option.mem_def, List.getElem?_append_left hlt]
    exact ht
  | some o' =>
    by_cases ho : o' = o
    · subst ho
      exact ⟨t.add a, by simp [Option.mem_def.mp ht], t.adds_add a⟩
    · exact ⟨t, by simpa [List.getElem?_modify, ho] using ht, fun _ h => h⟩

theorem loc_addLocal (heap : List Tally) (loc : List ℕ) (a : Added) : loc ⊆ (addLocal heap loc a).2 := by
  unfold addLocal
  cases loc.find? (objectFor heap a) with
  | none => exact List.subset_append_left _ _
  | some o => exact fun _ h => h

theorem HasLocal.mono {heap' : List Tally} {loc' : List ℕ}
    (hheap : ∀ (o : ℕ) (t : Tally), t ∈ heap[o]? → ∃ u : Tally, u ∈ heap'[o]? ∧ t.adds ⊆ u.adds) (hloc : loc ⊆ loc') (h : HasLocal heap loc b) :
    HasLocal heap' loc' b := by
  obtain ⟨o, ho, t, ht, hb⟩ := h
  obtain ⟨u, hu, hsub⟩ := hheap o t ht
  exact ⟨o, hloc ho, u, hu, hsub hb⟩

end

/-! ## Steps -/

section
variable {s : State} {a : Added}

/-- What a flush has sent of the window it is at. -/
def Flush.sentSoFar (x : Flush) : List Tally :=
  match x.point with
  | .sending _ _ sent _ | .acking _ sent _ => sent
  | .windows _ | .claiming _ | .sendingLocal _ _ => []

structure Inv (s : State) : Prop where
  listed : s.valkey.Listed
  flushes : ∀ f x, s.flushes f = some x → ∀ t ∈ x.sentSoFar, t ∈ s.sent
  kept : NoneLost s

theorem Inv.put (hi : Inv s) (f : ℕ) {x : Option Flush} (h : ∀ y, x = some y → ∀ t ∈ y.sentSoFar, t ∈ s.sent) : Inv (s.put f x) := by
  refine ⟨hi.listed, fun n y hy => ?_, hi.kept⟩
  by_cases hn : n = f
  · subst hn
    exact h y (by simpa [State.put] using hy)
  · exact hi.flushes n y (by simpa [State.put, hn] using hy)

/-- Tallies get to the collector. -/
theorem Inv.sends (hi : Inv s) (ts : List Tally) : Inv { s with sent := s.sent ++ ts } := by
  refine ⟨hi.listed, fun f x hx t ht => List.mem_append_left ts (hi.flushes f x hx t ht), fun a ha => ?_⟩
  refine (hi.kept a ha).imp_left fun h => ?_
  obtain ⟨t, ht, hat⟩ := h
  exact ⟨t, List.mem_append_left ts ht, hat⟩

/-- Valkey goes on to another state, in which nothing is gone that was not sent. -/
theorem Inv.setValkey (hi : Inv s) {v : Valkey} (hl : v.Listed) (h : ∀ a, s.valkey.Has a → v.Has a ∨ IsSent s a) :
    Inv { s with valkey := v } := by
  refine ⟨hl, hi.flushes, fun a ha => ?_⟩
  obtain hsent | hhas | hloc := hi.kept a ha
  · exact .inl hsent
  · exact (h a hhas).symm.imp_right .inl
  · exact .inr (.inr hloc)

theorem has_claimScript (v : Valkey) (clock w : ℕ) (a : Added) : (claimScript v clock w).1.Has a ↔ v.Has a := by
  unfold claimScript
  split_ifs <;> rfl

theorem Inv.claims (hi : Inv s) (w : ℕ) : Inv { s with valkey := (claimScript s.valkey s.clock w).1 } := by
  refine hi.setValkey ?_ fun a ha => .inl ((has_claimScript _ _ w a).mpr ha)
  unfold claimScript
  split_ifs
  · exact hi.listed
  · exact hi.listed

/-- A gateway's map goes on to another one, in which nothing is gone that was not sent. -/
theorem Inv.setLocal (hi : Inv s) (i : ℕ) {loc : List ℕ}
    (h : ∀ a, HasLocal s.heap (s.instances i).loc a → HasLocal s.heap loc a ∨ IsSent s a) : Inv (s.setLocal i loc) := by
  refine ⟨hi.listed, hi.flushes, fun a ha => ?_⟩
  obtain hsent | hhas | ⟨j, hloc⟩ := hi.kept a ha
  · exact .inl hsent
  · exact .inr (.inl hhas)
  · by_cases hj : j = i
    · subst hj
      refine (h a hloc).symm.imp_right fun h => .inr ⟨j, ?_⟩
      simpa [State.setLocal] using h
    · exact .inr (.inr ⟨j, by simpa [State.setLocal, hj] using hloc⟩)

theorem Inv.accepts (hi : Inv s) (h : Safe s a) : Inv { s with accepted := s.accepted ++ [a] } := by
  refine ⟨hi.listed, hi.flushes, fun b hb => ?_⟩
  obtain hb | hb := List.mem_append.mp hb
  · exact hi.kept b hb
  · obtain rfl := List.mem_singleton.mp hb
    exact h

theorem Inv.counted (hi : Inv s) (n : ℕ) : Inv { s with count := n } := ⟨hi.listed, hi.flushes, hi.kept⟩

theorem Inv.addValkey (hi : Inv s) (a : Added) : Inv { s with valkey := addScript s.valkey s.clock a } :=
  hi.setValkey (hi.listed.addScript s.clock a) fun _ h => .inl (has_addScript s.clock a h)

theorem Inv.addLocal (hi : Inv s) (i : ℕ) (a : Added) :
    Inv { s.setLocal i (addLocal s.heap (s.instances i).loc a).2 with heap := (addLocal s.heap (s.instances i).loc a).1 } := by
  have hheap (o : ℕ) (t : Tally) (ht : t ∈ s.heap[o]?) := heap_addLocal (s.instances i).loc a ht
  refine ⟨hi.listed, hi.flushes, fun b hb => ?_⟩
  obtain hsent | hhas | ⟨j, hloc⟩ := hi.kept b hb
  · exact .inl hsent
  · exact .inr (.inl hhas)
  · refine .inr (.inr ⟨j, ?_⟩)
    by_cases hj : j = i
    · subst hj
      simpa [State.setLocal] using hloc.mono hheap (loc_addLocal s.heap (s.instances j).loc a)
    · simpa [State.setLocal, hj] using hloc.mono hheap fun _ h => h

theorem Inv.add (hi : Inv s) (enabled : ℕ → Bool) (i : ℕ) (a : Added) (outcome : Outcome) : Inv (s.add enabled i a outcome) := by
  have hcount := hi.counted (s.count + 1)
  unfold State.add
  dsimp only
  cases enabled i with
  | true =>
    cases outcome with
    | ok => exact (hcount.addValkey a).accepts (.inr (.inl (has_addScript_self s.valkey s.clock a)))
    | failed => exact hcount
    | lost => exact hcount.addValkey a
  | false =>
    refine (hcount.addLocal i a).accepts (.inr (.inr ⟨i, ?_⟩))
    simpa [State.setLocal] using hasLocal_addLocal_self s.heap (s.instances i).loc a

theorem Inv.sendLocal (hi : Inv s) (f i : ℕ) (todo : List (List ℕ)) : Inv (s.sendLocal f i todo) := by
  cases todo with
  | nil => exact hi.put f fun y hy => by cases hy
  | cons rows todo =>
    refine hi.put f fun y hy t ht => ?_
    obtain rfl := Option.some.inj hy
    cases ht

theorem Inv.flushDue (hi : Inv s) (enabled : ℕ → Bool) (i f now : ℕ) : Inv (s.flushDue enabled i f now) := by
  unfold State.flushDue
  have hstamped : Inv { s with instances := Function.update s.instances i { s.instances i with nextCheckAt := now + checkEveryMs } } := by
    refine ⟨hi.listed, hi.flushes, fun a ha => ?_⟩
    refine (hi.kept a ha).imp_right fun h => h.imp_right fun h => ?_
    obtain ⟨j, hloc⟩ := h
    refine ⟨j, ?_⟩
    by_cases hj : j = i
    · subst hj
      simpa using hloc
    · simpa [hj] using hloc
  dsimp only
  split_ifs
  · exact hi
  · refine hstamped.put f fun y hy t ht => ?_
    obtain rfl := Option.some.inj hy
    cases ht
  · exact hstamped.sendLocal f i _

/-- A flush goes on with what it has sent so far. -/
theorem Inv.moves (hi : Inv s) (f gateway : ℕ) {point : Point} (h : ∀ t ∈ (Flush.mk gateway point).sentSoFar, t ∈ s.sent) :
    Inv (s.put f (some ⟨gateway, point⟩)) := by
  refine hi.put f fun y hy => ?_
  obtain rfl := Option.some.inj hy
  exact h

theorem sentSoFar_sendingNext (gateway window : ℕ) (todo : List (List Tally)) (sent : List Tally) (due : List ℕ) :
    (Flush.mk gateway (sendingNext window todo sent due)).sentSoFar = sent := by
  unfold sendingNext
  split_ifs
  · rfl
  · rfl

theorem Inv.ends (hi : Inv s) (f : ℕ) : Inv (s.put f none) := hi.put f fun y hy => by cases hy

theorem Inv.acks (hi : Inv s) {w : ℕ} {sent : List Tally} (hsent : ∀ t ∈ sent, t ∈ s.sent)
    (hc : ∀ h ∈ s.valkey.hashes w, ∀ t ∈ h.tallies, t.row ∈ sent.map Tally.row → ∀ a ∈ t.adds, ∃ u ∈ sent, a ∈ u.adds) :
    Inv { s with valkey := ackScript s.valkey w (sent.map Tally.row) } := by
  refine hi.setValkey (hi.listed.ackScript w _) fun a ha => (has_ackScript w _ ha).imp_right fun h => ?_
  obtain ⟨h, hh, t, ht, hrow, hat⟩ := h
  obtain ⟨u, hu, hau⟩ := hc h hh t ht hrow a hat
  exact ⟨u, hsent u hu, hau⟩

/-- The rows that were sent from memory are deleted. -/
theorem Inv.deletes (hi : Inv s) {i : ℕ} {taken : List Tally} (hsent : ∀ t ∈ taken, t ∈ s.sent)
    (hc : ∀ o ∈ (s.instances i).loc, ∀ t ∈ s.heap[o]?, t.amongst taken → ∀ a ∈ t.adds, ∃ u ∈ taken, a ∈ u.adds) :
    Inv (s.setLocal i ((s.instances i).loc.filter fun o => ¬s.heap[o]?.any fun t => t.amongst taken)) := by
  refine hi.setLocal i fun a ha => ?_
  obtain ⟨o, ho, t, ht, hat⟩ := ha
  by_cases hamong : t.amongst taken = true
  · obtain ⟨u, hu, hau⟩ := hc o ho t ht hamong a hat
    exact .inr ⟨u, hsent u hu, hau⟩
  · refine .inl ⟨o, List.mem_filter.mpr ⟨ho, ?_⟩, t, ht, hat⟩
    simp [Option.mem_def.mp ht, hamong]

theorem Inv.go (hi : Inv s) {f : ℕ} {x : Flush} (hx : s.flushes f = some x) (outcome : Outcome) (hc : x.Clean s outcome) :
    Inv (s.go f x outcome) := by
  obtain ⟨i, point⟩ := x
  have hsent := hi.flushes f _ hx
  unfold State.go
  unfold Flush.Clean at hc
  cases point with
  | windows current =>
    dsimp only
    split_ifs
    · exact hi.moves f i fun t ht => by cases ht
    · exact hi.ends f
  | claiming due =>
    cases due with
    | nil => exact hi.ends f
    | cons w due =>
      have hclaims := hi.claims w
      cases outcome with
      | failed => exact hi.ends f
      | lost => exact hclaims.ends f
      | ok =>
        refine hclaims.moves f i fun t ht => ?_
        cases hreply : (claimScript s.valkey s.clock w).2 with
        | none =>
          simp only [hreply, Option.elim_none] at ht
          cases ht
        | some reply =>
          simp only [hreply, Option.elim_some, sentSoFar_sendingNext] at ht
          cases ht
  | sending w todo sent due =>
    cases todo with
    | nil => exact hi.moves f i hsent
    | cons rows todo =>
      cases outcome with
      | failed => exact hi.moves f i hsent
      | lost => exact (hi.sends rows).moves f i fun t ht => List.mem_append_left rows (hsent t ht)
      | ok =>
        refine (hi.sends rows).moves f i fun t ht => ?_
        rw [sentSoFar_sendingNext] at ht
        obtain ht | ht := List.mem_append.mp ht
        · exact List.mem_append_left rows (hsent t ht)
        · exact List.mem_append_right s.sent ht
  | acking w sent due =>
    have hacked : Inv { s with valkey := if outcome = Outcome.failed then s.valkey else ackScript s.valkey w (sent.map Tally.row) } := by
      split_ifs with ho
      · exact hi
      · exact hi.acks hsent (hc ho)
    cases due with
    | none => exact hacked.ends f
    | some due => exact hacked.moves f i fun t ht => by cases ht
  | sendingLocal taken todo =>
    cases outcome with
    | failed => exact hi.ends f
    | lost => exact (hi.sends taken).ends f
    | ok => exact ((hi.sends taken).deletes (fun t ht => List.mem_append_right s.sent ht) (hc rfl)).sendLocal f i todo

theorem Inv.step (hi : Inv s) (enabled : ℕ → Bool) (e : Event) (he : Undisturbed s e) : Inv (step enabled s e) := by
  cases e with
  | add i row bytes items now outcome => exact hi.add enabled i _ outcome
  | flushDue i f now =>
    simp only [UsageWindows.step]
    split_ifs
    · exact hi
    · exact hi.flushDue enabled i f now
  | go f outcome =>
    simp only [UsageWindows.step]
    cases hx : s.flushes f with
    | none => exact hi
    | some x => exact hi.go hx outcome (he x hx)
  | crash i =>
    refine ⟨hi.listed, fun f x hx => hi.flushes f x (Option.filter_eq_some_iff.mp hx).1, fun a ha => ?_⟩
    obtain hsent | hhas | ⟨j, hloc⟩ := hi.kept a ha
    · exact .inl hsent
    · exact .inr (.inl hhas)
    · by_cases hj : j = i
      · subst hj
        obtain ⟨o, ho, t, ht, hat⟩ := hloc
        exact .inl (he o ho t ht a hat)
      · exact .inr (.inr ⟨j, by simpa [UsageWindows.step, hj] using hloc⟩)
  | tick d =>
    have hexpired : Inv { s with valkey := s.valkey.expired (s.clock + d) } := by
      refine hi.setValkey (hi.listed.expired _) fun a ha => (has_expired _ ha).imp_right fun h => ?_
      obtain ⟨w, hw, h, hh, hexp, t, ht, hat⟩ := h
      exact he w hw h hh hexp t ht a hat
    exact ⟨hexpired.listed, hexpired.flushes, hexpired.kept⟩

end

/-- However additions and flushes of any gateways interleave, and whatever fails, as long as the
steps are undisturbed every accepted addition is in a tally that was sent or stored for a later flush. -/
theorem none_lost (enabled : ℕ → Bool) (clock : ℕ) (es : List Event) (hm : Meets (step enabled) Undisturbed (initial clock) es) :
    Throughout (step enabled) NoneLost (initial clock) es := by
  have hinit : Inv (initial clock) :=
    ⟨fun w h hh => (by cases hh), fun f x hx => (by cases hx), fun a ha => (by cases ha)⟩
  exact (hm.throughout (P := Inv) (fun s e hs he => hs.step enabled e he) hinit).imp fun s hs => hs.kept

def row : Row := ⟨"org", "key", .rum⟩

/-- A gateway adds to a window, and flushes it when it has closed. -/
def oneFlush : List Event :=
  [.add 0 row 10 2 1000 .ok, .tick 61000, .flushDue 0 0 61000, .go 0 .ok, .go 0 .ok, .go 0 .ok, .go 0 .ok]

theorem one_flush_none_lost : Throughout (step fun _ => true) NoneLost (initial 0) oneFlush :=
  none_lost (fun _ => true) 0 oneFlush (by decide +kernel)

/-- As above, but a request that came before the window had closed adds to it while its tallies are being sent. -/
def lateAddition : List Event :=
  [.add 0 row 10 2 1000 .ok, .tick 61000, .flushDue 0 0 61000, .go 0 .ok, .go 0 .ok, .add 1 row 5 1 59000 .ok, .go 0 .ok, .go 0 .ok]

theorem late_addition_lost : ¬∀ (enabled : ℕ → Bool) (clock : ℕ) (es : List Event), Throughout (step enabled) NoneLost (initial clock) es := by
  intro h
  have hlast := (h (fun _ => true) 0 lateAddition).last ⟨1, 0, row, 5, 1⟩ (List.mem_of_getLast? rfl)
  obtain hsent | ⟨w, hw, -⟩ | ⟨i, o, ho, -⟩ := hlast
  · exact absurd hsent (by decide +kernel)
  · cases hw
  · have hinstances : (run (step fun _ => true) (initial 0) lateAddition).instances = Function.update (fun _ => ⟨0, []⟩) 0 ⟨76000, []⟩ := rfl
    rw [hinstances] at ho
    by_cases hi : i = 0 <;> simp [hi] at ho

end Upstat.UsageWindows
