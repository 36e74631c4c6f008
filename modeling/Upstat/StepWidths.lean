import Upstat.NumberTexts
import Upstat.SeriesAssembly

/-! # The widths that a step stands for (`compile.go`, `telemetry/query.go`)

`Step` gives a width in nanoseconds. The bucket of the SQL is whole seconds of it, `rate()` divides by its
seconds as a double, and the response shows it as a text. -/
namespace Upstat.StepWidths

open DoubleNumbers NumberTexts
open SeriesAssembly (nsPerSecond minute hour Tier Platform TimeRange maxInt64 mul64 steps stepFloor trimDays step stepLabel)

def maxRange : ℤ := 92 * 24 * hour

/-- `Seconds` of a duration, whose whole seconds and nanoseconds are doubles as they are. -/
def seconds (d : ℤ) : ℚ := nearest (d.tdiv nsPerSecond + nearest (d.tmod nsPerSecond / 1000000000))

/-- `int` of a double. -/
def truncate (x : ℚ) : ℤ := if 0 ≤ x then ⌊x⌋ else ⌈x⌉

/-- The width of the buckets in the SQL. -/
def bucketSeconds (d : ℤ) : ℤ := truncate (seconds d)

/-- `FormatFloat` with the fewest digits and no exponent, for numbers from `10` to `10 ^ 21`. -/
def formatFloat : Number → List Char
  | .finite x => numberToString x
  | .infinite negative => if negative then "-Inf".toList else "+Inf".toList

/-- What `rate()` divides by. -/
def rateText (d : ℤ) : List Char := formatFloat (toNumber (seconds d))

/-- The seconds that a step's label stands for. -/
def labelSeconds (text : String) : Option ℤ :=
  match text.toList.reverse with
  | 'd' :: cs => (readNatural cs.reverse).map (86400 * ·)
  | 'h' :: cs => (readNatural cs.reverse).map (3600 * ·)
  | 'm' :: cs => (readNatural cs.reverse).map (60 * ·)
  | 's' :: cs => readNatural cs.reverse
  | _ => none

/-- A width is not below the tier's grain and gives few enough points, and the three widths in seconds are one. -/
structure Law (r : TimeRange) (tier : Tier) (d : ℤ) : Prop where
  grain : stepFloor tier ≤ d
  points : (r.to_ - r.from_).tdiv d ≤ 2000
  rate : readNumber (rateText d) = some (toNumber (bucketSeconds d))
  label : labelSeconds (stepLabel d) = some (bucketSeconds d)

/-- The duration's seconds are whole: it has no more nanoseconds, or a double has no room for them. -/
def Whole (d : ℤ) : Prop := seconds d = (d / nsPerSecond : ℤ)

/-- The product of a step in days, as it wraps. -/
def wrappedDays (n : ℤ) : ℤ := mul64 (mul64 n 24) hour

/-- A duration is below the tier's grain or has whole seconds; a number of days is below 106752, or its product wraps to
such a width that gives few enough points. -/
def Clean (p : Platform) (spec : String) (r : TimeRange) (tier : Tier) : Prop :=
  spec = "" ∨ spec = "auto" ∨ (∃ d, p.parseDuration spec = some d ∧ (d ≤ stepFloor tier ∨ Whole d)) ∨
    p.parseDuration spec = none ∧ ∃ n, trimDays spec = some n ∧ (n < 106752 ∨
      (wrappedDays n ≤ stepFloor tier ∨ Whole (wrappedDays n)) ∧ (r.to_ - r.from_).tdiv (max (wrappedDays n) (stepFloor tier)) ≤ 2000)

/-! ## The seconds of a duration -/

section
variable {d : ℤ}

theorem seconds_lt (hmax : d ≤ maxInt64) : d / nsPerSecond < 2 ^ 34 := by
  rw [maxInt64] at hmax
  rw [nsPerSecond]
  omega

/-- The seconds lie between two whole ones. -/
theorem seconds_between (hpos : 0 < d) (hmax : d ≤ maxInt64) :
    ((d / nsPerSecond : ℤ) : ℚ) ≤ seconds d ∧ seconds d ≤ (d / nsPerSecond : ℤ) + 1 := by
  have hdiv : d.tdiv nsPerSecond = d / nsPerSecond := Int.tdiv_eq_ediv_of_nonneg hpos.le
  have hmod : d.tmod nsPerSecond = d % nsPerSecond := Int.tmod_eq_emod_of_nonneg hpos.le
  have hnonneg : (0 : ℚ) ≤ ((d % nsPerSecond : ℤ) : ℚ) := by exact_mod_cast Int.emod_nonneg d (by decide)
  have hlt : ((d % nsPerSecond : ℤ) : ℚ) < 1000000000 := by exact_mod_cast Int.emod_lt_of_pos d (by decide : 0 < nsPerSecond)
  have hlow : 0 ≤ ((d % nsPerSecond : ℤ) : ℚ) / 1000000000 := by positivity
  have hhigh : ((d % nsPerSecond : ℤ) : ℚ) / 1000000000 ≤ 1 := by
    rw [div_le_one (by norm_num)]
    exact hlt.le
  obtain ⟨hlow', hhigh'⟩ := nearest_between (n := 0) (by simpa using hlow) (by simpa using hhigh) le_rfl (by norm_num)
  simp only [Int.cast_zero, zero_add] at hlow' hhigh'
  rw [seconds, hdiv, hmod]
  apply nearest_between
  · linarith
  · linarith
  · exact Int.ediv_nonneg hpos.le (by decide)
  · have hsmall := seconds_lt hmax
    omega

theorem seconds_abs_lt (hpos : 0 < d) (hmax : d ≤ maxInt64) : |seconds d| < 2 ^ 200 := by
  obtain ⟨hlow, hhigh⟩ := seconds_between hpos hmax
  have hnonneg : (0 : ℚ) ≤ ((d / nsPerSecond : ℤ) : ℚ) := by exact_mod_cast Int.ediv_nonneg hpos.le (by decide)
  have hsmall : ((d / nsPerSecond : ℤ) : ℚ) < 2 ^ 34 := by exact_mod_cast seconds_lt hmax
  rw [abs_of_nonneg (hnonneg.trans hlow)]
  norm_num at hsmall ⊢
  linarith

theorem whole_of_dvd (hpos : 0 < d) (hmax : d ≤ maxInt64) (hdvd : nsPerSecond ∣ d) : Whole d := by
  have hdiv : d.tdiv nsPerSecond = d / nsPerSecond := Int.tdiv_eq_ediv_of_nonneg hpos.le
  have hmod : d.tmod nsPerSecond = 0 := by
    rw [Int.tmod_eq_emod_of_nonneg hpos.le, Int.emod_eq_zero_of_dvd hdvd]
  rw [Whole, seconds, hdiv, hmod]
  simp only [Int.cast_zero, zero_div, nearest_zero, add_zero]
  apply nearest_intCast
  have hsmall := seconds_lt hmax
  have hnonneg : 0 ≤ d / nsPerSecond := Int.ediv_nonneg hpos.le (by decide)
  rw [abs_of_nonneg hnonneg]
  omega

/-- A fraction of a second in nanoseconds is not rounded to nothing, and not above a second. -/
theorem nearest_fraction {k : ℤ} (hone : 1 ≤ k) (hlt : k < 1000000000) :
    (2 : ℚ) ^ (-30 : ℤ) ≤ nearest ((k : ℚ) / 1000000000) ∧ nearest ((k : ℚ) / 1000000000) ≤ 1 := by
  have honeQ : (1 : ℚ) ≤ k := by exact_mod_cast hone
  have hltQ : (k : ℚ) < 1000000000 := by exact_mod_cast hlt
  have hlow : (2 : ℚ) ^ (-30 : ℤ) ≤ (k : ℚ) / 1000000000 := by
    rw [le_div_iff₀ (by norm_num)]
    norm_num
    linarith
  have hhigh : (k : ℚ) / 1000000000 < 1 := by
    rw [div_lt_one (by norm_num)]
    exact hltQ
  have hplace : lastPlace ((k : ℚ) / 1000000000) ≤ -30 := by
    apply lastPlace_le
    · positivity
    · norm_num
    · rw [abs_of_nonneg (by positivity)]
      norm_num
      linarith
  constructor
  · have hle := le_nearest (m := 1) (e := -30) (by simpa using hlow) hplace
    simpa using hle
  · have hle := nearest_le (m := 2 ^ 30) (e := -30) (by norm_num; linarith) hplace
    norm_num at hle
    exact hle

/-- In ninety-seven days a double has room for nanoseconds. -/
theorem seconds_above (hpos : 0 < d) (hshort : d / nsPerSecond + 1 < 2 ^ 23) (hsome : 1 ≤ d % nsPerSecond) :
    ((d / nsPerSecond : ℤ) : ℚ) + 2 ^ (-30 : ℤ) ≤ seconds d := by
  have hdiv : d.tdiv nsPerSecond = d / nsPerSecond := Int.tdiv_eq_ediv_of_nonneg hpos.le
  have hmod : d.tmod nsPerSecond = d % nsPerSecond := Int.tmod_eq_emod_of_nonneg hpos.le
  obtain ⟨hlow, hhigh⟩ := nearest_fraction hsome (Int.emod_lt_of_pos d (by decide : 0 < nsPerSecond))
  have hnonneg : (0 : ℚ) ≤ ((d / nsPerSecond : ℤ) : ℚ) := by exact_mod_cast Int.ediv_nonneg hpos.le (by decide)
  have hshortQ : ((d / nsPerSecond : ℤ) : ℚ) + 1 < 2 ^ 23 := by exact_mod_cast hshort
  have hsplit : ((d / nsPerSecond : ℤ) : ℚ) + 2 ^ (-30 : ℤ) = ((d / nsPerSecond * 2 ^ 30 + 1 : ℤ) : ℚ) * 2 ^ (-30 : ℤ) := by
    push_cast
    norm_num
    ring
  rw [seconds, hdiv, hmod, hsplit]
  apply le_nearest
  · rw [← hsplit]
    linarith
  · apply lastPlace_le
    · positivity
    · norm_num
    · rw [abs_of_nonneg (by positivity)]
      norm_num at hhigh hshortQ ⊢
      linarith

theorem whole_iff_of_short (hpos : 0 < d) (hshort : d / nsPerSecond + 1 < 2 ^ 23) : Whole d ↔ nsPerSecond ∣ d := by
  constructor
  · intro h
    by_contra hdvd
    have hnonneg : 0 ≤ d % nsPerSecond := Int.emod_nonneg d (by decide)
    have hne : d % nsPerSecond ≠ 0 := fun heq => hdvd (Int.dvd_of_emod_eq_zero heq)
    have hmore : ((d / nsPerSecond : ℤ) : ℚ) + 2 ^ (-30 : ℤ) ≤ seconds d := seconds_above hpos hshort (by omega)
    have hplace : (0 : ℚ) < 2 ^ (-30 : ℤ) := by positivity
    rw [h] at hmore
    linarith
  · apply whole_of_dvd hpos
    rw [maxInt64]
    rw [nsPerSecond] at hshort
    omega

theorem bucketSeconds_of_whole (hpos : 0 < d) (h : Whole d) : bucketSeconds d = d / nsPerSecond := by
  have hnonneg : 0 ≤ d / nsPerSecond := Int.ediv_nonneg hpos.le (by decide)
  rw [bucketSeconds, truncate, h, if_pos (by exact_mod_cast hnonneg), Int.floor_intCast]

theorem read_label {n : ℤ} (hn : 0 ≤ n) : readNatural (toString n).toList = some n := by
  obtain ⟨k, rfl⟩ := Int.eq_ofNat_of_zero_le hn
  have htext : (toString (k : ℤ)).toList = Nat.toDigits 10 k := Nat.toList_repr
  rw [htext, readNatural_toDigits]

theorem labelSeconds_unit {n : ℤ} (hn : 0 ≤ n) :
    labelSeconds (toString n ++ "d") = some (86400 * n) ∧ labelSeconds (toString n ++ "h") = some (3600 * n) ∧
      labelSeconds (toString n ++ "m") = some (60 * n) ∧ labelSeconds (toString n ++ "s") = some n := by
  have hlast : ∀ (unit : String) (c : Char), unit.toList = [c] → (toString n ++ unit).toList.reverse = c :: (toString n).toList.reverse := by
    intro unit c hunit
    rw [String.toList_append, hunit, List.reverse_append]
    rfl
  unfold labelSeconds
  rw [hlast "d" 'd' rfl, hlast "h" 'h' rfl, hlast "m" 'm' rfl, hlast "s" 's' rfl]
  simp only [List.reverse_reverse, read_label hn, Option.map_some, and_self]

/-- `stepLabel` shows whole seconds. -/
theorem labelSeconds_stepLabel (hpos : 0 < d) : labelSeconds (stepLabel d) = some (d / nsPerSecond) := by
  have hdiv : ∀ unit, d.tdiv unit = d / unit := fun unit => Int.tdiv_eq_ediv_of_nonneg hpos.le
  have hmod : ∀ unit, d.tmod unit = d % unit := fun unit => Int.tmod_eq_emod_of_nonneg hpos.le
  have hnonneg : ∀ unit : ℤ, 0 ≤ unit → 0 ≤ d / unit := fun _ hunit => Int.ediv_nonneg hpos.le hunit
  unfold stepLabel
  simp only [hdiv, hmod]
  split
  · rename_i hday
    have hunit : 86400 * (d / (24 * hour)) = d / nsPerSecond := by
      simp only [hour, minute, nsPerSecond] at hday ⊢
      omega
    rw [(labelSeconds_unit (hnonneg (24 * hour) (by decide))).1, hunit]
  · split
    · rename_i hhour
      have hunit : 3600 * (d / hour) = d / nsPerSecond := by
        simp only [hour, minute, nsPerSecond] at hhour ⊢
        omega
      rw [(labelSeconds_unit (hnonneg hour (by decide))).2.1, hunit]
    · split
      · rename_i hminute
        have hunit : 60 * (d / minute) = d / nsPerSecond := by
          simp only [minute, nsPerSecond] at hminute ⊢
          omega
        rw [(labelSeconds_unit (hnonneg minute (by decide))).2.2.1, hunit]
      · exact (labelSeconds_unit (hnonneg nsPerSecond (by decide))).2.2.2

/-- The three widths are one exactly if the seconds are whole. -/
theorem widths_iff (hpos : 0 < d) (hmax : d ≤ maxInt64) :
    readNumber (rateText d) = some (toNumber (bucketSeconds d)) ∧ labelSeconds (stepLabel d) = some (bucketSeconds d) ↔ Whole d := by
  obtain ⟨x, hx, hvalue⟩ := toNumber_of_lt (seconds_abs_lt hpos hmax)
  have hrate : readNumber (rateText d) = some (.finite x) := by
    rw [rateText, hx, formatFloat, readNumber_numberToString]
  rw [hrate, labelSeconds_stepLabel hpos]
  constructor
  · rintro ⟨hbucket, hlabel⟩
    have hlabel' : d / nsPerSecond = bucketSeconds d := Option.some.inj hlabel
    have hnonneg : 0 ≤ d / nsPerSecond := Int.ediv_nonneg hpos.le (by decide)
    have hsmall := seconds_lt hmax
    have hinteger : nearest ((d / nsPerSecond : ℤ) : ℚ) = (d / nsPerSecond : ℤ) := by
      apply nearest_intCast
      rw [abs_of_nonneg hnonneg]
      omega
    obtain ⟨y, hy, hyvalue⟩ : ∃ y : Double, toNumber ((d / nsPerSecond : ℤ) : ℚ) = .finite y ∧ y.1 = nearest ((d / nsPerSecond : ℤ) : ℚ) := by
      apply toNumber_of_lt
      rw [abs_of_nonneg (by exact_mod_cast hnonneg)]
      have hcast : ((d / nsPerSecond : ℤ) : ℚ) < 2 ^ 34 := by exact_mod_cast hsmall
      norm_num at hcast ⊢
      linarith
    rw [← hlabel', hy] at hbucket
    have hsame : x = y := Number.finite.inj (Option.some.inj hbucket)
    have hround : nearest (seconds d) = seconds d := nearest_nearest _
    rw [Whole, ← hround, ← hvalue, hsame, hyvalue, hinteger]
  · intro h
    rw [bucketSeconds_of_whole hpos h, ← h, hx]
    exact ⟨rfl, rfl⟩

end

/-! ## The widths that `Step` gives -/

section
variable {p : Platform} {spec : String} {r : TimeRange} {tier : Tier} {d : ℤ}

/-- Where a width comes from. -/
inductive Source (p : Platform) (spec : String) (r : TimeRange) (tier : Tier) (d : ℤ) : Prop
  | auto (s : ℤ) (hspec : spec = "" ∨ spec = "auto") (hs : s ∈ steps) (hraw : r.sub.tdiv 200 ≤ s ∨ s = 24 * hour)
      (hd : d = max s (stepFloor tier))
  | duration (d₀ : ℤ) (hspec : spec ≠ "" ∧ spec ≠ "auto") (hparse : p.parseDuration spec = some d₀) (hpos : 0 < d₀)
      (hpoints : r.sub.tdiv d₀ ≤ 2000) (hd : d = max d₀ (stepFloor tier))
  | days (n : ℤ) (hspec : spec ≠ "" ∧ spec ≠ "auto") (hparse : p.parseDuration spec = none) (hdays : trimDays spec = some n)
      (hpos : 0 < n) (hd : d = max (wrappedDays n) (stepFloor tier))

theorem source_of_step (h : step p spec r tier = .ok d) : Source p spec r tier d := by
  unfold step at h
  split at h
  · rename_i hspec
    split at h
    · rename_i hparse
      split at h
      · rename_i n hdays
        split at h
        · rename_i hpos
          exact .days n hspec hparse hdays hpos (Except.ok.inj h).symm
        · cases h
      · cases h
    · rename_i d₀ hparse
      split at h
      · cases h
      · rename_i hpos
        split at h
        · cases h
        · rename_i hpoints
          exact .duration d₀ hspec hparse (Int.lt_of_not_ge hpos) (Int.le_of_not_gt hpoints) (Except.ok.inj h).symm
  · rename_i hspec
    have hauto : spec = "" ∨ spec = "auto" := by
      by_contra hother
      push Not at hother
      exact hspec hother
    dsimp only at h
    split at h
    · rename_i s hfind
      exact .auto s hauto (List.mem_of_find?_eq_some hfind) (Or.inl (by simpa using List.find?_some hfind)) (Except.ok.inj h).symm
    · exact .auto (24 * hour) hauto (by simp [steps]) (Or.inr rfl) (Except.ok.inj h).symm

theorem whole_stepFloor (tier : Tier) : Whole (stepFloor tier) := by
  apply whole_of_dvd
  · cases tier <;> decide
  · cases tier <;> decide
  · cases tier <;> decide

/-- A longer width gives no more points. -/
theorem points_anti {a b c : ℤ} (ha : 0 ≤ a) (hb : 0 < b) (h : b ≤ c) : a.tdiv c ≤ a.tdiv b := by
  have hc : 0 < c := lt_of_lt_of_le hb h
  rw [Int.tdiv_eq_ediv_of_nonneg ha, Int.tdiv_eq_ediv_of_nonneg ha]
  apply Int.le_ediv_of_mul_le hb
  calc a / c * b ≤ a / c * c := Int.mul_le_mul_of_nonneg_left h (Int.ediv_nonneg ha hc.le)
    _ ≤ a := Int.ediv_mul_le a hc.ne'

theorem points_le {a c : ℤ} (ha : 0 ≤ a) (hc : 0 < c) (h : a ≤ 2000 * c) : a.tdiv c ≤ 2000 := by
  rw [Int.tdiv_eq_ediv_of_nonneg ha]
  exact Int.ediv_le_of_le_mul hc h

theorem whole_max (a : ℤ) (tier : Tier) : Whole (max a (stepFloor tier)) ↔ a ≤ stepFloor tier ∨ Whole a := by
  rcases le_or_gt a (stepFloor tier) with hle | hlt
  · rw [max_eq_right hle]
    exact iff_of_true (whole_stepFloor tier) (Or.inl hle)
  · rw [max_eq_left hlt.le, or_iff_right (not_le.mpr hlt)]

/-- Up to 106751 days the product does not wrap. -/
theorem wrappedDays_eq {n : ℤ} (hpos : 0 < n) (hn : n < 106752) : wrappedDays n = n * 24 * hour := by
  have hinner : mul64 n 24 = n * 24 := by
    rw [mul64, Int.bmod_eq_of_le_mul_two] <;> omega
  rw [wrappedDays, hinner, mul64, Int.bmod_eq_of_le_mul_two]
  · simp only [hour, minute, nsPerSecond]
    omega
  · simp only [hour, minute, nsPerSecond]
    omega

theorem wrappedDays_le (n : ℤ) : wrappedDays n ≤ maxInt64 := by
  have hlt : wrappedDays n < (2 ^ 64 + 1) / 2 := Int.bmod_lt (by decide)
  rw [maxInt64]
  omega

theorem law_iff (hd : stepFloor tier ≤ d) (hmax : d ≤ maxInt64) : Law r tier d ↔ Whole d ∧ (r.to_ - r.from_).tdiv d ≤ 2000 := by
  have hfloor : 0 < stepFloor tier := by cases tier <;> decide
  have hpos : 0 < d := lt_of_lt_of_le hfloor hd
  rw [← widths_iff hpos hmax]
  constructor
  · intro h
    exact ⟨⟨h.rate, h.label⟩, h.points⟩
  · rintro ⟨⟨hrate, hlabel⟩, hpoints⟩
    exact ⟨hd, hpoints, hrate, hlabel⟩

/-- The width keeps the law exactly if the step is clean. -/
theorem step_law_iff (p : Platform) (spec : String) (r : TimeRange) (tier : Tier) (d : ℤ) (hrange : r.to_ - r.from_ ≤ maxRange) (hparsed : ∀ spec d, p.parseDuration spec = some d → d ≤ maxInt64)
    (hstep : step p spec r tier = .ok d) : Law r tier d ↔ Clean p spec r tier := by
  have hnonneg : 0 ≤ r.to_ - r.from_ := by
    have hordered := r.from_lt_to
    omega
  have hsub : r.sub = r.to_ - r.from_ := by
    simp only [maxRange, hour, minute, nsPerSecond] at hrange
    rw [TimeRange.sub, maxInt64, min_eq_right (by omega), max_eq_right (by omega)]
  have hfloor : 0 < stepFloor tier := by cases tier <;> decide
  have hfloorMax : stepFloor tier ≤ maxInt64 := by cases tier <;> decide
  cases source_of_step hstep with
  | auto s hspec hs hraw hd =>
    have hsteps : ∀ s ∈ steps, 10 * nsPerSecond ≤ s ∧ nsPerSecond ∣ s ∧ s ≤ maxInt64 := by decide
    obtain ⟨hten, hdvd, hmax⟩ := hsteps s hs
    have hpos : 0 < s := lt_of_lt_of_le (by decide) hten
    have hbound : r.to_ - r.from_ ≤ 2000 * s := by
      rcases hraw with hraw | rfl
      · rw [hsub, Int.tdiv_eq_ediv_of_nonneg hnonneg] at hraw
        simp only [nsPerSecond] at hten
        omega
      · exact hrange.trans (by decide)
    have hfew : (r.to_ - r.from_).tdiv s ≤ 2000 := points_le hnonneg hpos hbound
    apply iff_of_true
    · rw [hd]
      apply (law_iff (le_max_right _ _) (max_le hmax hfloorMax)).mpr
      refine ⟨(whole_max s tier).mpr (Or.inr (whole_of_dvd hpos hmax hdvd)), ?_⟩
      exact (points_anti hnonneg hpos (le_max_left _ _)).trans hfew
    · exact hspec.imp_right Or.inl
  | duration d₀ hspec hparse hpos hpoints hd =>
    have hclean : Clean p spec r tier ↔ d₀ ≤ stepFloor tier ∨ Whole d₀ := by
      simp [Clean, hspec, hparse]
    have hfew : (r.to_ - r.from_).tdiv d ≤ 2000 := by
      rw [hd]
      rw [hsub] at hpoints
      exact (points_anti hnonneg hpos (le_max_left _ _)).trans hpoints
    have hlaw : Law r tier d ↔ Whole d ∧ (r.to_ - r.from_).tdiv d ≤ 2000 := by
      apply law_iff
      · exact hd ▸ le_max_right _ _
      · exact hd ▸ max_le (hparsed spec d₀ hparse) hfloorMax
    rw [hlaw, hclean, and_iff_left hfew, hd, whole_max]
  | days n hspec hparse hdays hpos hd =>
    have hlaw : Law r tier d ↔ Whole d ∧ (r.to_ - r.from_).tdiv d ≤ 2000 := by
      apply law_iff
      · exact hd ▸ le_max_right _ _
      · exact hd ▸ max_le (wrappedDays_le n) hfloorMax
    have hclean : Clean p spec r tier ↔ n < 106752 ∨
        (wrappedDays n ≤ stepFloor tier ∨ Whole (wrappedDays n)) ∧ (r.to_ - r.from_).tdiv d ≤ 2000 := by
      simp [Clean, hspec, hparse, hdays, hd]
    rw [hlaw, hclean, hd, whole_max]
    constructor
    · exact Or.inr
    · rintro (hn | h)
      · have heq : wrappedDays n = n * 24 * hour := wrappedDays_eq hpos hn
        have hlong : 24 * hour ≤ wrappedDays n := by
          rw [heq]
          simp only [hour, minute, nsPerSecond]
          omega
        have hdayPos : 0 < wrappedDays n := lt_of_lt_of_le (by decide) hlong
        have hdvd : nsPerSecond ∣ wrappedDays n := by
          rw [heq]
          exact Dvd.dvd.mul_left (by decide) _
        refine ⟨Or.inr (whole_of_dvd hdayPos (wrappedDays_le n) hdvd), ?_⟩
        apply points_le hnonneg (lt_of_lt_of_le hdayPos (le_max_left _ _))
        have hrange' : r.to_ - r.from_ ≤ 2000 * wrappedDays n := by
          simp only [maxRange] at hrange
          have hhour : 0 < hour := by decide
          omega
        exact hrange'.trans (Int.mul_le_mul_of_nonneg_left (le_max_left _ _) (by decide))
      · exact h

end

/-! ## Ten and a half seconds -/

theorem wholeSeconds_lt (d : ℤ) : d / nsPerSecond * nsPerSecond < d + nsPerSecond := by
  rw [nsPerSecond]
  omega

theorem lt_wholeSeconds (d : ℤ) : d - nsPerSecond < d / nsPerSecond * nsPerSecond := by
  rw [nsPerSecond]
  omega

def platform : Platform where
  parseDuration spec := if spec = "10.5s" then some 10500000000 else none
  seconds d := d / nsPerSecond
  seconds_lt d _ := wholeSeconds_lt d
  lt_seconds d _ := lt_wholeSeconds d

def firstHour : TimeRange := ⟨0, hour, by decide⟩

theorem step_law_auto : Law firstHour .raw minute := by
  have hparsed : ∀ spec d, platform.parseDuration spec = some d → d ≤ maxInt64 := by
    intro spec d h
    simp only [platform, Option.ite_none_right_eq_some, Option.some.injEq] at h
    rw [← h.2]
    decide
  have hstep : step platform "auto" firstHour .raw = .ok minute := by rfl
  exact (step_law_iff platform "auto" firstHour .raw minute (by decide) hparsed hstep).mpr (Or.inr (Or.inl rfl))

/-- The bucket is ten seconds, as the label says, and `rate()` divides by ten and a half. -/
theorem half_second_lost : step platform "10.5s" firstHour .raw = .ok 10500000000 ∧ seconds 10500000000 = 21 / 2 ∧
    bucketSeconds 10500000000 = 10 ∧ stepLabel 10500000000 = "10s" ∧ ¬Law firstHour .raw 10500000000 := by
  have hhalf : nearest (1 / 2) = 1 / 2 := by
    have h := nearest_of_places (m := 1) (e := -1) (by norm_num) (by norm_num)
    norm_num at h
    exact h
  have hseconds : seconds 10500000000 = 21 / 2 := by
    have h := nearest_of_places (m := 21) (e := -1) (by norm_num) (by norm_num)
    norm_num at h
    have hdiv : Int.tdiv 10500000000 nsPerSecond = 10 := by decide
    have hmod : Int.tmod 10500000000 nsPerSecond = 500000000 := by decide
    rw [seconds, hdiv, hmod]
    norm_num
    rw [hhalf]
    norm_num
    exact h
  have hbucket : bucketSeconds 10500000000 = 10 := by
    rw [bucketSeconds, hseconds, truncate]
    norm_num
  refine ⟨rfl, hseconds, hbucket, rfl, ?_⟩
  intro h
  have hwhole : Whole 10500000000 := (widths_iff (by decide) (by decide)).mp ⟨h.rate, h.label⟩
  rw [Whole, hseconds] at hwhole
  norm_num [nsPerSecond] at hwhole

end Upstat.StepWidths
