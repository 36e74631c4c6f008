import Mathlib.Data.List.Induction
import Mathlib.Data.List.Sort
import Mathlib.Order.Lattice
import Mathlib.Data.Int.Order.Basic
import Upstat.GuardedRuns

/-! # The hourly pass over the monitors (`service/insight_generator.py`, `settle.py`)

`_hourly` attempts the active monitors in the order of their ids, a slice of them in each settle, and stores how far it has come
after each. A slice ends at its deadline, which it looks at before a monitor, or is cancelled by the phase it runs in, whose timer
is for the same instant. -/
namespace Upstat.HourlyInsights

open GuardedRuns

def everySeconds : ℤ := 3600

/-- What comes of a monitor: no time is left for it; or it is attempted, whatever comes of that, and the cursor written, and the slice
goes on or is cancelled; or the slice is cancelled before the cursor is written. -/
inductive Choice | cut | done | last | cancelled
  deriving DecidableEq

/-- What a slice gets done at the end of the monitors: the cursor is deleted and the pass recorded, or it is cancelled before, or
between the two. -/
inductive Closing | recorded | deleted | cancelled
  deriving DecidableEq

/-- `insights:cursor`. No id is empty, so that nothing is after the empty one that the code begins with. -/
structure Cursor (ι : Type*) where
  after : Option ι
  started : ℤ

structure Store (ι : Type*) where
  cursor : Option (Cursor ι) := none
  last : Option ℤ := none

structure Slice (ι : Type*) where
  now : ℤ
  active : ι → Bool
  choice : ι → Choice
  closing : Closing := .recorded

/-- What the loop has come to: what it has attempted, the last id it has written, and whether it has come to its end. -/
structure Swept (ι : Type*) where
  attempted : List ι := []
  written : Option ι := none
  through : Bool := true

section
variable {ι : Type*} [LinearOrder ι]

/-- The monitor is behind the cursor. -/
def behind (after : Option ι) (m : ι) : Bool := after.any (m ≤ ·)

def sweep (choice : ι → Choice) : Option ι → List ι → Swept ι
  | _, [] => {}
  | after, m :: ms =>
    if behind after m then sweep choice after ms
    else
      match choice m with
      | .cut => { through := false }
      | .done =>
        let rest := sweep choice (some m) ms
        { rest with attempted := m :: rest.attempted, written := rest.written.or (some m) }
      | .last => { attempted := [m], written := some m, through := false }
      | .cancelled => { attempted := [m], through := false }

/-- A pass that has come to its end, with the monitors that were active in all of its slices. -/
structure Pass (ι : Type*) where
  attempted : List ι
  steady : ι → Bool

structure World (ι : Type*) where
  store : Store ι := {}
  attempted : List ι := []
  steady : ι → Bool := fun _ => true
  completed : List (Pass ι) := []

/-- The cursor that a slice begins with, if there is something to do. -/
def cursorOf (s : Store ι) (now : ℤ) : Option (Cursor ι) :=
  match s.cursor with
  | some c => some c
  | none => if s.last.any fun at_ => now - at_ < everySeconds then none else some ⟨none, now⟩

variable (monitors : List ι)

def step (w : World ι) (x : Slice ι) : World ι :=
  match cursorOf w.store x.now with
  | none => w
  | some c =>
    let swept := sweep x.choice c.after (monitors.filter x.active)
    let attempted := w.attempted ++ swept.attempted
    let steady := fun m => w.steady m && x.active m
    if swept.through ∧ x.closing ≠ .cancelled then
      { store := ⟨none, if x.closing = .recorded then some c.started else w.store.last⟩
        completed := ⟨attempted, steady⟩ :: w.completed }
    else
      { w with
        store := { w.store with cursor := (swept.written.map fun m => ⟨some m, c.started⟩).or w.store.cursor }
        attempted, steady }

/-- The active monitors that the cursor is not past. -/
def todo (active : ι → Bool) (after : Option ι) : List ι := (monitors.filter active).filter fun m => !behind after m

/-- The slice is not cancelled before the cursor is past what it attempts. -/
def Kept (w : World ι) (x : Slice ι) : Prop :=
  ∀ c ∈ cursorOf w.store x.now, ∀ m ∈ (todo monitors x.active c.after).find? (x.choice · ≠ .done), x.choice m ≠ .cancelled

instance (w : World ι) (x : Slice ι) : Decidable (Kept monitors w x) := by
  unfold Kept
  infer_instance

/-- No monitor is attempted twice in a pass, none that was active all along is left out, and the cursor is past what was attempted. -/
structure Law (w : World ι) : Prop where
  once : w.attempted.Nodup
  advanced : w.store.cursor.bind Cursor.after = w.attempted.getLast?
  noneSkipped : ∀ m ∈ monitors, w.steady m = true → behind (w.attempted.getLast?) m = true → m ∈ w.attempted
  each : ∀ p ∈ w.completed, p.attempted.Nodup ∧ ∀ m ∈ monitors, p.steady m = true → m ∈ p.attempted

end

/-! ## One slice -/

section
variable {ι : Type*} [LinearOrder ι] {choice : ι → Choice} {after : Option ι}

theorem not_behind_of_lt {a b : ι} (ha : behind after a = false) (hab : a < b) : behind after b = false := by
  cases after with
  | none => rfl
  | some c =>
    simp only [behind, Option.any_some, decide_eq_false_iff_not, not_le] at ha ⊢
    exact ha.trans hab

theorem filter_not_behind {ms : List ι} (h : ∀ m ∈ ms, behind after m = false) : ms.filter (fun m => !behind after m) = ms := by
  apply List.filter_eq_self.mpr
  intro m hm
  rw [h m hm]
  rfl

/-- The monitors attempted are the first ones that the cursor is not past, and the cursor is written after each. -/
theorem sweep_spec {ms : List ι} (hsorted : ms.Pairwise (· < ·))
    (hkept : ∀ m ∈ (ms.filter fun m => !behind after m).find? (choice · ≠ .done), choice m ≠ .cancelled) :
    (sweep choice after ms).attempted <+: ms.filter (fun m => !behind after m) ∧
      (sweep choice after ms).written = (sweep choice after ms).attempted.getLast? ∧
      ((sweep choice after ms).through = true → (sweep choice after ms).attempted = ms.filter fun m => !behind after m) := by
  induction ms generalizing after with
  | nil => exact ⟨List.nil_prefix, rfl, fun _ => rfl⟩
  | cons m ms ih =>
    obtain ⟨hless, hrest⟩ := List.pairwise_cons.mp hsorted
    unfold sweep
    cases hm : behind after m with
    | true =>
      rw [List.filter_cons_of_neg (by simp [hm])] at hkept ⊢
      exact ih hrest hkept
    | false =>
      have hahead : ms.filter (fun m => !behind after m) = ms := filter_not_behind fun b hb => not_behind_of_lt hm (hless b hb)
      have hnext : ms.filter (fun b => !behind (some m) b) = ms := by
        apply filter_not_behind
        intro b hb
        simpa [behind] using hless b hb
      rw [List.filter_cons_of_pos (by simp [hm]), hahead] at hkept ⊢
      rw [if_neg Bool.false_ne_true]
      cases hc : choice m with
      | cut => exact ⟨List.nil_prefix, rfl, fun h => by cases h⟩
      | done =>
        rw [List.find?_cons_of_neg (by simp [hc])] at hkept
        obtain ⟨hfirst, hwritten, hthrough⟩ := ih hrest (by rw [hnext]; exact hkept)
        rw [hnext] at hfirst hthrough
        refine ⟨List.cons_prefix_cons.mpr ⟨rfl, hfirst⟩, ?_, fun h => congrArg (m :: ·) (hthrough h)⟩
        dsimp only
        rw [hwritten, List.getLast?_cons]
        cases (sweep choice (some m) ms).attempted.getLast? <;> rfl
      | last => exact ⟨⟨ms, rfl⟩, rfl, fun h => by cases h⟩
      | cancelled =>
        rw [List.find?_cons_of_pos (by simp [hc])] at hkept
        exact absurd hc (hkept m rfl)

end

/-! ## Slices of a pass -/

section
variable {ι : Type*} [LinearOrder ι] {monitors : List ι} {w : World ι} {x : Slice ι} {c : Cursor ι}

/-- The attempts are in the order of the ids, and the cursor is at the last of them. -/
structure Sound (monitors : List ι) (w : World ι) : Prop where
  place : w.store.cursor.bind Cursor.after = w.attempted.getLast?
  sorted : w.attempted.Pairwise (· < ·)
  covered : ∀ m ∈ monitors, w.steady m = true → behind (w.attempted.getLast?) m = true → m ∈ w.attempted
  each : ∀ p ∈ w.completed, p.attempted.Nodup ∧ ∀ m ∈ monitors, p.steady m = true → m ∈ p.attempted

theorem Sound.law (h : Sound monitors w) : Law monitors w :=
  ⟨h.sorted.imp fun hlt => hlt.ne, h.place, h.covered, h.each⟩

theorem Sound.cursor (h : Sound monitors w) (hc : cursorOf w.store x.now = some c) : c.after = w.attempted.getLast? := by
  have hplace := h.place
  unfold cursorOf at hc
  cases hstored : w.store.cursor with
  | some d =>
    rw [hstored] at hc hplace
    cases hc
    exact hplace
  | none =>
    rw [hstored] at hc hplace
    dsimp only at hc
    split at hc
    · cases hc
    · cases hc
      exact hplace

/-- In a sorted list what is not behind the last is after all. -/
theorem lt_of_not_behind {as : List ι} (hsorted : as.Pairwise (· < ·)) {m : ι} (hm : behind as.getLast? m = false) : ∀ a ∈ as, a < m := by
  induction as using List.reverseRecOn with
  | nil => intro a ha; cases ha
  | append_singleton as l _ =>
    rw [List.getLast?_append, List.getLast?_singleton, Option.some_or] at hm
    have hlast : l < m := by simpa [behind] using hm
    intro a ha
    rcases List.mem_append.mp ha with ha | ha
    · exact ((List.pairwise_append.mp hsorted).2.2 a ha l (List.mem_singleton_self l)).trans hlast
    · rwa [List.mem_singleton.mp ha]

/-- The first ones of the monitors that are left are attempted. -/
theorem Sound.attempted (h : Sound monitors w) (hmonitors : monitors.Pairwise (· < ·)) {attempted : List ι}
    (hfirst : attempted <+: todo monitors x.active w.attempted.getLast?) : (w.attempted ++ attempted).Pairwise (· < ·) ∧
      ∀ m ∈ monitors, (w.steady m && x.active m) = true → behind (w.attempted ++ attempted).getLast? m = true → m ∈ w.attempted ++ attempted := by
  obtain ⟨rest, hrest⟩ := hfirst
  have htodo : (attempted ++ rest).Pairwise (· < ·) := by
    rw [hrest]
    exact (hmonitors.filter _).filter _
  obtain ⟨hattempted, -, hbetween⟩ := List.pairwise_append.mp htodo
  constructor
  · refine List.pairwise_append.mpr ⟨h.sorted, hattempted, fun a ha b hb => ?_⟩
    have hb' : b ∈ todo monitors x.active w.attempted.getLast? := hrest ▸ List.mem_append_left _ hb
    exact lt_of_not_behind h.sorted (by simpa using (List.mem_filter.mp hb').2) a ha
  · intro m hm hsteady hbehind
    obtain ⟨hsteady, hactive⟩ := Bool.and_eq_true_iff.mp hsteady
    cases hbefore : behind w.attempted.getLast? m with
    | true => exact List.mem_append_left _ (h.covered m hm hsteady hbefore)
    | false =>
      -- what is left and not attempted is after the attempts
      have hmem : m ∈ attempted ++ rest := by
        rw [hrest]
        exact List.mem_filter.mpr ⟨List.mem_filter.mpr ⟨hm, hactive⟩, by simp [hbefore]⟩
      rcases List.mem_append.mp hmem with hmem | hmem
      · exact List.mem_append_right _ hmem
      · have hafter : ∀ a ∈ attempted, a < m := fun a ha => hbetween a ha m hmem
        cases hlast : attempted.getLast? with
        | none =>
          rw [List.getLast?_append, hlast, Option.none_or, hbefore] at hbehind
          cases hbehind
        | some l =>
          have hlt := hafter l (List.mem_of_getLast? hlast)
          rw [List.getLast?_append, hlast, Option.some_or] at hbehind
          simp only [behind, Option.any_some, decide_eq_true_eq] at hbehind
          exact absurd hbehind (not_le.mpr hlt)

theorem Sound.step (h : Sound monitors w) (hmonitors : monitors.Pairwise (· < ·)) (hkept : Kept monitors w x) :
    Sound monitors (step monitors w x) := by
  unfold HourlyInsights.step
  cases hc : cursorOf w.store x.now with
  | none => exact h
  | some c =>
    have hafter := h.cursor hc
    have hkept' := hkept c hc
    obtain ⟨hfirst, hwritten, hthrough⟩ := sweep_spec (hmonitors.filter _) hkept'
    rw [hafter] at hfirst
    obtain ⟨hsorted, hcovered⟩ := h.attempted hmonitors hfirst
    rw [← hafter] at hsorted hcovered
    dsimp only
    split
    · rename_i hend
      refine ⟨rfl, List.Pairwise.nil, nofun, fun p hp => ?_⟩
      rcases List.mem_cons.mp hp with rfl | hp
      · refine ⟨hsorted.imp fun hlt => hlt.ne, fun m hm hsteady => ?_⟩
        cases hbefore : behind w.attempted.getLast? m with
        | true => exact List.mem_append_left _ (h.covered m hm (Bool.and_eq_true_iff.mp hsteady).1 hbefore)
        | false =>
          apply List.mem_append_right
          rw [hthrough hend.1, hafter]
          exact List.mem_filter.mpr ⟨List.mem_filter.mpr ⟨hm, (Bool.and_eq_true_iff.mp hsteady).2⟩, by simp [hbefore]⟩
      · exact h.each p hp
    · refine ⟨?_, hsorted, hcovered, h.each⟩
      dsimp only
      rw [hwritten, List.getLast?_append]
      cases (sweep x.choice c.after (monitors.filter x.active)).attempted.getLast? with
      | none => exact h.place
      | some l => rfl

/-- In every run of slices that are kept, over any monitors in the order of their ids. -/
theorem attempts_once (monitors : List ι) (hmonitors : monitors.Pairwise (· < ·)) (last : Option ℤ) (xs : List (Slice ι))
    (h : Meets (HourlyInsights.step monitors) (Kept monitors) { store := ⟨none, last⟩ } xs) :
    Throughout (HourlyInsights.step monitors) (Law monitors) { store := ⟨none, last⟩ } xs := by
  have hstart : Sound monitors { store := ⟨none, last⟩ } :=
    ⟨rfl, List.Pairwise.nil, nofun, nofun⟩
  have hsound : Throughout (HourlyInsights.step monitors) (Sound monitors) { store := ⟨none, last⟩ } xs :=
    h.throughout (fun _ _ hw hx => hw.step hmonitors hx) hstart
  exact hsound.imp fun w hw => hw.law

end

/-! ## Three monitors -/

/-- A slice in which so many monitors are attempted, and what comes of the next. -/
def sliceOf (attempted : ℕ) (then_ : Choice) : Slice ℕ where
  now := 3600
  active _ := true
  choice m := if m ≤ attempted then .done else then_

/-- The deadline cuts the first slice, and the second is cancelled when the cursor is written. -/
theorem attempts_once_cut : Law [1, 2, 3] (run (step [1, 2, 3]) { store := ⟨none, none⟩ } [sliceOf 1 .cut, sliceOf 1 .last, sliceOf 3 .cut]) := by
  have hkept : Meets (step [1, 2, 3]) (Kept [1, 2, 3]) { store := ⟨none, none⟩ } [sliceOf 1 .cut, sliceOf 1 .last, sliceOf 3 .cut] := by
    decide +kernel
  exact (attempts_once [1, 2, 3] (by decide) none _ hkept).last

/-- Two slices are cancelled in a slow monitor: it is attempted in each, and the pass has not come further. -/
theorem slow_repeated : (run (step [1, 2, 3]) { store := ⟨none, none⟩ } [sliceOf 1 .cancelled, sliceOf 1 .cancelled]).attempted = [1, 2, 2] ∧
    ¬Law [1, 2, 3] (run (step [1, 2, 3]) { store := ⟨none, none⟩ } [sliceOf 1 .cancelled, sliceOf 1 .cancelled]) := by
  have hattempted : (run (step [1, 2, 3]) { store := ⟨none, none⟩ } [sliceOf 1 .cancelled, sliceOf 1 .cancelled]).attempted = [1, 2, 2] := by
    decide +kernel
  refine ⟨hattempted, fun hlaw => ?_⟩
  have honce := hlaw.once
  rw [hattempted] at honce
  exact absurd honce (by decide)

end Upstat.HourlyInsights
