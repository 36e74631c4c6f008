import Upstat.LabelledRuns
import Upstat.StaleReads

/-! # Bands and markers of a replay (`telemetry/query.go`)

`Bands` finds the stretches of points over a threshold, and the starts of critical ones that would have fired.
Instants are nanoseconds from Go's zero time. -/
namespace Upstat.ThresholdBands

open LabelledRuns
open StaleReads (sub)

inductive Level | warn | crit
  deriving DecidableEq

structure Point (ν : Type*) where
  ts : ℤ
  value : Option ν

structure Thresholds (ν : Type*) where
  warn : Option ν
  crit : ν

structure Band where
  level : Level
  from_ : ℤ
  to_ : ℤ
  deriving DecidableEq

section
variable {ν : Type*} [LE ν] [DecidableLE ν]

def level (th : Thresholds ν) (p : Point ν) : Option Level :=
  match p.value with
  | none => none
  | some v =>
    if th.crit ≤ v then some .crit
    else if th.warn.any (· ≤ v) then some .warn else none

/-- The variables of the loop. `last` is the last marker, or the zero time. -/
structure Scan where
  bands : List Band := []
  markers : List ℤ := []
  last : ℤ := 0

/-- The body of the loop, for a band whose first and last points are at these instants. -/
def Scan.band (step cooldown : ℤ) (s : Scan) (l : Level) (first last : ℤ) : Scan :=
  let s' := { s with bands := s.bands ++ [⟨l, first, last + step⟩] }
  if l = .crit ∧ (s.last = 0 ∨ cooldown ≤ sub first s.last) then { s' with markers := s.markers ++ [first], last := first } else s'

/-- The loop over the points that are left. -/
def loop (step : ℤ) (th : Thresholds ν) (cooldown : ℤ) : ℕ → Scan → List (Point ν) → Scan
  | 0, s, _ => s
  | _ + 1, s, [] => s
  | fuel + 1, s, p :: points =>
    match level th p with
    | none => loop step th cooldown fuel s points
    | some l =>
      let j := (points.takeWhile fun q => level th q = some l).length
      let stop := ((p :: points)[j]?).getD p
      loop step th cooldown fuel (s.band step cooldown l p.ts stop.ts) (points.drop j)

def bands (points : List (Point ν)) (step : ℤ) (th : Thresholds ν) (cooldown : ℤ) : List Band × List ℤ :=
  let s := loop step th cooldown points.length {} points
  (s.bands, s.markers)

/-! ## The loop goes over the runs -/

/-- The instant of the point at that position. -/
def tsAt (points : List (Point ν)) (k : ℕ) : ℤ := (points[k]?.map Point.ts).getD 0

def bandOf (points : List (Point ν)) (step : ℤ) (r : Run Level) : Band := ⟨r.label, tsAt points r.first, tsAt points r.last + step⟩

variable {points rest : List (Point ν)} {step cooldown : ℤ} {th : Thresholds ν} {n : ℕ}

omit [LE ν] [DecidableLE ν] in
theorem tsAt_drop (hdrop : points.drop n = rest) (k : ℕ) : tsAt rest k = tsAt points (n + k) := by
  rw [tsAt, tsAt, ← hdrop, List.getElem?_drop]

theorem loop_eq (fuel : ℕ) (s : Scan) (hdrop : points.drop n = rest) : loop step th cooldown fuel s rest =
    (runs (level th) fuel n rest).foldl (fun s r => s.band step cooldown r.label (tsAt points r.first) (tsAt points r.last)) s := by
  induction fuel generalizing n rest s with
  | zero => rfl
  | succ fuel ih =>
    cases rest with
    | nil => rfl
    | cons p rest =>
      have hnext : ∀ k, points.drop (n + 1 + k) = rest.drop k := by
        intro k
        rw [← List.drop_drop, ← List.drop_drop, hdrop]
        rfl
      cases hp : level th p with
      | none =>
        simp only [loop, runs, hp]
        exact ih s (hnext 0)
      | some l =>
        have hfirst : p.ts = tsAt points n := (tsAt_drop hdrop 0)
        have hlast : ((p :: rest)[stretch (level th) l rest]?.getD p).ts = tsAt points (n + stretch (level th) l rest) := by
          rw [← tsAt_drop hdrop, tsAt]
          have hlt : stretch (level th) l rest < (p :: rest).length := by
            have hle : stretch (level th) l rest ≤ rest.length := (List.takeWhile_sublist _).length_le
            rw [List.length_cons]
            omega
          rw [List.getElem?_eq_getElem hlt]
          rfl
        simp only [loop, runs, hp, List.foldl_cons]
        rw [← hfirst, ← hlast]
        exact ih _ (hnext _)

end

/-! ## The markers -/

section
variable (start : Run Level → ℤ) (cooldown : ℤ)

/-- Enough time has passed since the previous marker. One at the zero time is taken for none. -/
def Due (previous : Option (Run Level)) (r : Run Level) : Prop :=
  ∀ m ∈ previous, start m = 0 ∨ cooldown ≤ sub (start r) (start m)

instance (previous : Option (Run Level)) (r : Run Level) : Decidable (Due start cooldown previous r) := by
  unfold Due
  infer_instance

def mark (ms : List (Run Level)) (r : Run Level) : List (Run Level) :=
  if r.label = .crit ∧ Due start cooldown ms.getLast? r then ms ++ [r] else ms

/-- The runs whose starts are markers. -/
def marked (rs : List (Run Level)) : List (Run Level) := rs.foldl (mark start cooldown) []

end

section
variable {start stop : Run Level → ℤ} {cooldown step : ℤ} {rs : List (Run Level)}

theorem band_eq (stop : Run Level → ℤ) (cooldown step : ℤ) {s : Scan} {ms : List (Run Level)} (hmarkers : s.markers = ms.map start)
    (hlast : s.last = (ms.getLast?.map start).getD 0) (r : Run Level) :
    let s' := s.band step cooldown r.label (start r) (stop r)
    s'.bands = s.bands ++ [⟨r.label, start r, stop r + step⟩] ∧ s'.markers = (mark start cooldown ms r).map start ∧
      s'.last = ((mark start cooldown ms r).getLast?.map start).getD 0 := by
  have hdue : (s.last = 0 ∨ cooldown ≤ sub (start r) s.last) ↔ Due start cooldown ms.getLast? r := by
    rw [hlast, Due]
    cases ms.getLast? with
    | none => simp
    | some m => simp
  unfold Scan.band mark
  simp only [hdue]
  split
  · refine ⟨rfl, ?_, ?_⟩
    · simp [hmarkers]
    · simp
  · exact ⟨rfl, hmarkers, hlast⟩

theorem foldl_band (rs : List (Run Level)) (start stop : Run Level → ℤ) (cooldown step : ℤ) (s : Scan) (ms : List (Run Level)) (hmarkers : s.markers = ms.map start)
    (hlast : s.last = (ms.getLast?.map start).getD 0) :
    let s' := rs.foldl (fun s r => s.band step cooldown r.label (start r) (stop r)) s
    s'.bands = s.bands ++ rs.map (fun r => ⟨r.label, start r, stop r + step⟩) ∧
      s'.markers = (rs.foldl (mark start cooldown) ms).map start := by
  induction rs generalizing s ms with
  | nil => simp [hmarkers]
  | cons r rs ih =>
    obtain ⟨hbands, hmarkers', hlast'⟩ := band_eq stop cooldown step hmarkers hlast r
    obtain ⟨hrest, hmarks⟩ := ih _ _ hmarkers' hlast'
    refine ⟨?_, hmarks⟩
    simp only [List.foldl_cons]
    rw [hrest, hbands]
    simp

/-- The last of the runs before this one. -/
def previousOf (ms : List (Run Level)) (r : Run Level) : Option (Run Level) := (ms.filter fun m => m.first < r.first).getLast?

theorem marked_concat (r : Run Level) : marked start cooldown (rs ++ [r]) = mark start cooldown (marked start cooldown rs) r := by
  rw [marked, List.foldl_append]
  rfl

theorem mem_mark {ms : List (Run Level)} {r m : Run Level} (h : m ∈ mark start cooldown ms r) : m ∈ ms ∨ m = r := by
  unfold mark at h
  split at h
  · exact (List.mem_append.mp h).imp_right List.mem_singleton.mp
  · exact Or.inl h

theorem marked_subset {m : Run Level} (h : m ∈ marked start cooldown rs) : m ∈ rs := by
  induction rs using List.reverseRecOn with
  | nil => exact h
  | append_singleton rs r ih =>
    rw [marked_concat] at h
    rw [List.mem_append, List.mem_singleton]
    exact (mem_mark h).imp_left ih

/-- Of runs in order, those marked are in order and critical, and a critical one is marked if it is due
after the previous one. -/
theorem marked_spec (hrs : rs.Pairwise fun r r' => r.first < r'.first) :
    (marked start cooldown rs).Sublist rs ∧ (∀ r ∈ marked start cooldown rs, r.label = .crit) ∧
      ∀ r ∈ rs, r.label = .crit →
        (r ∈ marked start cooldown rs ↔ Due start cooldown (previousOf (marked start cooldown rs) r) r) := by
  induction rs using List.reverseRecOn with
  | nil => simp [marked]
  | append_singleton rs r ih =>
    obtain ⟨hbefore, -, hlater⟩ := List.pairwise_append.mp hrs
    obtain ⟨hsub, hcrit, hiff⟩ := ih hbefore
    have hfirst : ∀ m ∈ marked start cooldown rs, m.first < r.first := fun m hm => hlater m (marked_subset hm) r (List.mem_singleton_self r)
    rw [marked_concat]
    have hlast : previousOf (mark start cooldown (marked start cooldown rs) r) r = (marked start cooldown rs).getLast? := by
      have hkept : ((marked start cooldown rs).filter fun m => m.first < r.first) = marked start cooldown rs :=
        List.filter_eq_self.mpr fun m hm => decide_eq_true (hfirst m hm)
      unfold previousOf mark
      split
      · rw [List.filter_append, hkept]
        simp
      · rw [hkept]
    refine ⟨?_, ?_, ?_⟩
    · unfold mark
      split
      · exact hsub.append (List.Sublist.refl _)
      · exact hsub.trans (List.sublist_append_left _ _)
    · intro m hm
      unfold mark at hm
      split at hm
      · rename_i hdue
        rcases List.mem_append.mp hm with hold | hnew
        · exact hcrit m hold
        · exact List.mem_singleton.mp hnew ▸ hdue.1
      · exact hcrit m hm
    · intro m hm hmcrit
      rcases List.mem_append.mp hm with hold | hnew
      · -- a later run comes after it, marked or not
        have hlt : m.first < r.first := hlater m hold r (List.mem_singleton_self r)
        have hsame : previousOf (mark start cooldown (marked start cooldown rs) r) m = previousOf (marked start cooldown rs) m := by
          unfold previousOf mark
          split
          · rw [List.filter_append]
            simp [Nat.not_lt.mpr hlt.le]
          · rfl
        rw [hsame, ← hiff m hold hmcrit]
        constructor
        · intro hmark
          rcases mem_mark hmark with hmarked | rfl
          · exact hmarked
          · exact absurd hlt (Nat.lt_irrefl _)
        · intro hmarked
          unfold mark
          split
          · exact List.mem_append_left _ hmarked
          · exact hmarked
      · obtain rfl : m = r := List.mem_singleton.mp hnew
        rw [hlast]
        constructor
        · intro hmark
          unfold mark at hmark
          split at hmark
          · rename_i hdue
            exact hdue.2
          · exact absurd (hfirst m hmark) (Nat.lt_irrefl _)
        · intro hdue
          rw [mark, if_pos ⟨hmcrit, hdue⟩]
          exact List.mem_append_right _ (List.mem_singleton_self m)

end

/-- The bands are the maximal runs of points of one level, in order and apart, and the start of a critical one is a
marker exactly if it is due after the marker before it. -/
theorem bands_spec {ν : Type*} [LE ν] [DecidableLE ν] (points : List (Point ν)) (step : ℤ) (th : Thresholds ν) (cooldown : ℤ) :
    ∃ rs ms : List (Run Level), bands points step th cooldown = (rs.map (bandOf points step), ms.map fun r => tsAt points r.first) ∧
      (∀ r, r ∈ rs ↔ IsRun (level th) points r) ∧ (rs.Pairwise fun r r' => r.last < r'.first) ∧
      ms.Sublist rs ∧ (∀ r ∈ ms, r.label = .crit) ∧ ∀ r ∈ rs, r.label = .crit →
        (r ∈ ms ↔ Due (fun r => tsAt points r.first) cooldown (previousOf ms r) r) := by
  have hruns : ∀ r, r ∈ runs (level th) points.length 0 points ↔ IsRun (level th) points r := fun r => mem_runs
  have hpairwise : (runs (level th) points.length 0 points).Pairwise fun r r' => r.last < r'.first := pairwise_runs
  have hordered : (runs (level th) points.length 0 points).Pairwise fun r r' => r.first < r'.first := by
    apply hpairwise.imp_of_mem
    intro r r' hr _ hlt
    exact Nat.lt_of_le_of_lt ((hruns r).mp hr).nonempty hlt
  have hloop : loop step th cooldown points.length {} points = _ := loop_eq points.length {} List.drop_zero
  have hfold := foldl_band (runs (level th) points.length 0 points) (fun r => tsAt points r.first) (fun r => tsAt points r.last) cooldown step
    {} [] rfl rfl
  refine ⟨runs (level th) points.length 0 points, marked (fun r => tsAt points r.first) cooldown (runs (level th) points.length 0 points),
    ?_, hruns, hpairwise, marked_spec hordered⟩
  rw [bands, hloop]
  exact Prod.ext hfold.1 hfold.2

/-- A marker at the zero time does not hold the next one back. -/
theorem zero_marker_forgotten : bands [⟨0, some 10⟩, ⟨1, none⟩, ⟨2, some 10⟩] 1 ⟨none, (5 : ℕ)⟩ 10 =
    ([⟨.crit, 0, 1⟩, ⟨.crit, 2, 3⟩], [0, 2]) := by
  decide

end Upstat.ThresholdBands
