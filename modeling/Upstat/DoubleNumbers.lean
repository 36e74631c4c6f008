import Mathlib.Algebra.Order.Floor.Ring
import Mathlib.Algebra.Order.Group.Unbundled.Abs
import Mathlib.Algebra.Order.Field.Power
import Mathlib.Data.Int.Log
import Mathlib.Data.Rat.Floor
import Mathlib.Tactic.FieldSimp
import Mathlib.Tactic.Linarith
import Mathlib.Tactic.NormNum
import Mathlib.Tactic.Positivity

/-! # Rounding to the nearest double

A double is a rational of at most 53 binary places, the last of them no finer than `2 ^ (-1074)`;
from `2 ^ 1024` on there are only the infinities. Ties go to the even neighbour. -/
namespace Upstat.DoubleNumbers

def roundEven (q : ℚ) : ℤ :=
  if q - ⌊q⌋ < 1 / 2 then ⌊q⌋
  else if 1 / 2 < q - ⌊q⌋ then ⌊q⌋ + 1
  else if ⌊q⌋ % 2 = 0 then ⌊q⌋ else ⌊q⌋ + 1

/-- The exponent of the last binary place a rational is rounded to. -/
def lastPlace (q : ℚ) : ℤ := max (Int.log 2 |q| - 52) (-1074)

def nearest (q : ℚ) : ℚ := roundEven (q / 2 ^ lastPlace q) * 2 ^ lastPlace q

/-! ## Rounding to an integer -/

@[simp] theorem roundEven_intCast (n : ℤ) : roundEven n = n := by simp [roundEven]

theorem floor_le_roundEven (q : ℚ) : ⌊q⌋ ≤ roundEven q := by
  rw [roundEven]
  split_ifs <;> omega

theorem roundEven_le_floor (q : ℚ) : roundEven q ≤ ⌊q⌋ + 1 := by
  rw [roundEven]
  split_ifs <;> omega

theorem le_roundEven {n : ℤ} {q : ℚ} (h : n ≤ q) : n ≤ roundEven q := (Int.le_floor.mpr h).trans (floor_le_roundEven q)

theorem roundEven_le {n : ℤ} {q : ℚ} (h : q ≤ n) : roundEven q ≤ n := by
  rcases h.eq_or_lt with rfl | hlt
  · exact (roundEven_intCast n).le
  · have hfloor : ⌊q⌋ < n := Int.floor_lt.mpr hlt
    have hround := roundEven_le_floor q
    omega

theorem abs_roundEven_le {n : ℤ} {q : ℚ} (h : |q| ≤ n) : |roundEven q| ≤ n := by
  apply abs_le.mpr
  constructor
  · apply le_roundEven
    push_cast
    exact (abs_le.mp h).1
  · exact roundEven_le (abs_le.mp h).2

/-! ## Rounding to a double -/

@[simp] theorem nearest_zero : nearest 0 = 0 := by
  have hround : roundEven 0 = 0 := by simpa using roundEven_intCast 0
  simp [nearest, hround]

theorem abs_lt_zpow_lastPlace (q : ℚ) : |q| < 2 ^ (lastPlace q + 53) := by
  have hlog : |q| < (2 : ℚ) ^ (Int.log 2 |q| + 1) := by exact_mod_cast Int.lt_zpow_succ_log_self one_lt_two |q|
  apply hlog.trans_le
  apply zpow_le_zpow_right₀ one_le_two
  have hplace := le_max_left (Int.log 2 |q| - 52) (-1074)
  rw [lastPlace]
  omega

theorem abs_roundEven_lastPlace_le (q : ℚ) : |roundEven (q / 2 ^ lastPlace q)| ≤ 2 ^ 53 := by
  have hpos : (0 : ℚ) < 2 ^ lastPlace q := by positivity
  apply abs_roundEven_le
  rw [abs_div, abs_of_pos hpos, div_le_iff₀ hpos]
  have hlt := abs_lt_zpow_lastPlace q
  rw [zpow_add₀ two_ne_zero] at hlt
  push_cast
  calc |q| ≤ 2 ^ lastPlace q * 2 ^ (53 : ℤ) := hlt.le
    _ = 2 ^ 53 * 2 ^ lastPlace q := by rw [mul_comm]; norm_cast

/-- A rounded number has at most 53 places. -/
theorem nearest_places (q : ℚ) : ∃ m e : ℤ, |m| ≤ 2 ^ 53 ∧ -1074 ≤ e ∧ nearest q = m * 2 ^ e :=
  ⟨_, _, abs_roundEven_lastPlace_le q, le_max_right _ _, rfl⟩

theorem lastPlace_le {q : ℚ} {e : ℤ} (hq : q ≠ 0) (he : -1074 ≤ e) (h : |q| < 2 ^ (e + 53)) : lastPlace q ≤ e := by
  have hlog : Int.log 2 |q| < e + 53 := (Int.lt_zpow_iff_log_lt one_lt_two (abs_pos.mpr hq)).mp (by exact_mod_cast h)
  rw [lastPlace]
  omega

/-- A whole number of places no finer than the last one is kept. -/
theorem nearest_of_lastPlace_le {m e : ℤ} (h : lastPlace (m * 2 ^ e) ≤ e) : nearest (m * 2 ^ e) = m * 2 ^ e := by
  obtain ⟨d, hd⟩ := Int.le.dest h
  have hquotient : (m * 2 ^ e : ℚ) / 2 ^ lastPlace (m * 2 ^ e) = ((m * 2 ^ d : ℤ) : ℚ) := by
    rw [div_eq_iff (by positivity)]
    push_cast
    rw [mul_assoc, ← zpow_natCast (2 : ℚ) d, ← zpow_add₀ two_ne_zero, add_comm, hd]
  have hround : roundEven ((m * 2 ^ e : ℚ) / 2 ^ lastPlace (m * 2 ^ e)) = m * 2 ^ d := by rw [hquotient, roundEven_intCast]
  rw [nearest, hround, Int.cast_mul, Int.cast_pow, Int.cast_ofNat, mul_assoc, ← zpow_natCast (2 : ℚ) d, ← zpow_add₀ two_ne_zero,
    add_comm, hd]

theorem nearest_of_places {m e : ℤ} (hm : |m| ≤ 2 ^ 53) (he : -1074 ≤ e) : nearest (m * 2 ^ e) = m * 2 ^ e := by
  by_cases hzero : m = 0
  · simp [hzero]
  · have habs : |(m * 2 ^ e : ℚ)| = |m| * 2 ^ e := by
      rw [abs_mul, abs_of_pos (by positivity : (0 : ℚ) < 2 ^ e), Int.cast_abs]
    have hne : (m * 2 ^ e : ℚ) ≠ 0 := mul_ne_zero (by exact_mod_cast hzero) (by positivity)
    rcases hm.eq_or_lt with heq | hlt
    · -- The mantissa is a power of two: one place less holds it.
      obtain ⟨half, rfl⟩ : ∃ half, m = half * 2 := by
        rcases abs_eq (by norm_num) |>.mp heq with hpos | hneg
        · exact ⟨2 ^ 52, by rw [hpos]; norm_num⟩
        · exact ⟨-2 ^ 52, by rw [hneg]; norm_num⟩
      have hshift : ((half * 2 : ℤ) * 2 ^ e : ℚ) = half * 2 ^ (e + 1) := by
        rw [zpow_add_one₀ two_ne_zero]
        push_cast
        ring
      rw [hshift] at habs hne ⊢
      apply nearest_of_lastPlace_le
      apply lastPlace_le hne (by omega)
      rw [habs, heq]
      push_cast
      rw [show e + 1 + 53 = 53 + (e + 1) by ring, zpow_add₀ two_ne_zero, zpow_add_one₀ two_ne_zero]
      have hpos : (0 : ℚ) < 2 ^ e := by positivity
      norm_num
      linarith
    · apply nearest_of_lastPlace_le
      apply lastPlace_le hne he
      rw [habs, zpow_add₀ two_ne_zero, mul_comm]
      apply mul_lt_mul_of_pos_left _ (by positivity)
      exact_mod_cast hlt

theorem nearest_nearest (q : ℚ) : nearest (nearest q) = nearest q := by
  obtain ⟨m, e, hm, he, heq⟩ := nearest_places q
  rw [heq]
  exact nearest_of_places hm he

theorem nearest_neg_of_nearest {q : ℚ} (h : nearest q = q) : nearest (-q) = -q := by
  obtain ⟨m, e, hm, he, heq⟩ := nearest_places q
  have hplaces := nearest_of_places (m := -m) (by rwa [abs_neg]) he
  rw [Int.cast_neg, neg_mul, ← heq, h] at hplaces
  exact hplaces

/-- What a double is in places of a finer double. -/
theorem places_eq {m e e' : ℤ} (h : e' ≤ e) : ∃ k : ℤ, (m * 2 ^ e : ℚ) = k * 2 ^ e' := by
  obtain ⟨n, hn⟩ := Int.le.dest h
  refine ⟨m * 2 ^ n, ?_⟩
  push_cast
  rw [mul_assoc, ← zpow_natCast (2 : ℚ) n, ← zpow_add₀ two_ne_zero, add_comm, hn]

/-- Rounding does not cross a number with no finer place than the last one. -/
theorem le_nearest {m e : ℤ} {q : ℚ} (h : m * 2 ^ e ≤ q) (hplace : lastPlace q ≤ e) : m * 2 ^ e ≤ nearest q := by
  have hpos : (0 : ℚ) < 2 ^ lastPlace q := by positivity
  obtain ⟨k, hk⟩ : ∃ k : ℤ, (m * 2 ^ e : ℚ) = k * 2 ^ lastPlace q := places_eq hplace
  rw [hk] at h ⊢
  apply mul_le_mul_of_nonneg_right _ hpos.le
  exact_mod_cast le_roundEven ((le_div_iff₀ hpos).mpr h)

theorem nearest_le {m e : ℤ} {q : ℚ} (h : q ≤ m * 2 ^ e) (hplace : lastPlace q ≤ e) : nearest q ≤ m * 2 ^ e := by
  have hpos : (0 : ℚ) < 2 ^ lastPlace q := by positivity
  obtain ⟨k, hk⟩ : ∃ k : ℤ, (m * 2 ^ e : ℚ) = k * 2 ^ lastPlace q := places_eq hplace
  rw [hk] at h ⊢
  apply mul_le_mul_of_nonneg_right _ hpos.le
  exact_mod_cast roundEven_le ((div_le_iff₀ hpos).mpr h)

/-- Rounding does not cross an integer. -/
theorem nearest_between {n : ℤ} {q : ℚ} (hle : n ≤ q) (hge : q ≤ n + 1) (hpos : 0 ≤ n) (hlt : n + 1 < 2 ^ 53) :
    n ≤ nearest q ∧ nearest q ≤ n + 1 := by
  have hplace : lastPlace q ≤ 0 := by
    by_cases hzero : q = 0
    · simp [hzero, lastPlace]
    · apply lastPlace_le hzero (by norm_num)
      have hnonneg : (0 : ℚ) ≤ n := by exact_mod_cast hpos
      have hbound : ((n + 1 : ℤ) : ℚ) < ((2 ^ 53 : ℤ) : ℚ) := by exact_mod_cast hlt
      push_cast at hbound
      rw [abs_of_nonneg (hnonneg.trans hle)]
      calc q ≤ n + 1 := hge
        _ < 2 ^ 53 := hbound
        _ = 2 ^ (0 + 53 : ℤ) := by norm_cast
  have hlow : (n * 2 ^ (0 : ℤ) : ℚ) ≤ nearest q := le_nearest (by simpa using hle) hplace
  have hhigh : nearest q ≤ ((n + 1 : ℤ) * 2 ^ (0 : ℤ) : ℚ) := nearest_le (by simpa using hge) hplace
  simp only [zpow_zero, mul_one] at hlow hhigh
  exact ⟨hlow, by exact_mod_cast hhigh⟩

/-! ## Numbers -/

/-- A finite double. -/
def Double : Type := {q : ℚ // nearest q = q ∧ |q| < 2 ^ 1024}

instance : DecidableEq Double := inferInstanceAs (DecidableEq {q : ℚ // nearest q = q ∧ |q| < 2 ^ 1024})

def Double.neg (x : Double) : Double := ⟨-x.1, nearest_neg_of_nearest x.2.1, by rw [abs_neg]; exact x.2.2⟩

inductive Number where
  | finite (x : Double)
  | infinite (negative : Bool)
deriving DecidableEq

def toNumber (q : ℚ) : Number := if h : |nearest q| < 2 ^ 1024 then .finite ⟨nearest q, nearest_nearest q, h⟩ else .infinite (q < 0)

theorem toNumber_of_nearest {q : ℚ} {x : Double} (h : nearest q = x.1) : toNumber q = .finite x := by
  have hlt : |nearest q| < 2 ^ 1024 := by
    rw [h]
    exact x.2.2
  rw [toNumber, dif_pos hlt]
  exact congrArg Number.finite (Subtype.ext h)

theorem toNumber_of_lt {q : ℚ} (h : |q| < 2 ^ 200) : ∃ x : Double, toNumber q = .finite x ∧ x.1 = nearest q := by
  have hlt : |nearest q| < 2 ^ 1024 := by
    by_cases hzero : q = 0
    · simp [hzero]
    · have hplace : lastPlace q ≤ 147 := lastPlace_le hzero (by norm_num) (by exact_mod_cast h)
      have hround : ((|roundEven (q / 2 ^ lastPlace q)| : ℤ) : ℚ) ≤ 2 ^ 53 := by exact_mod_cast abs_roundEven_lastPlace_le q
      have hpower : (2 : ℚ) ^ lastPlace q ≤ 2 ^ (147 : ℤ) := zpow_le_zpow_right₀ one_le_two hplace
      calc |nearest q| = ((|roundEven (q / 2 ^ lastPlace q)| : ℤ) : ℚ) * 2 ^ lastPlace q := by
            rw [nearest, abs_mul, Int.cast_abs, abs_of_pos (by positivity : (0 : ℚ) < 2 ^ lastPlace q)]
        _ ≤ 2 ^ 53 * 2 ^ (147 : ℤ) := mul_le_mul hround hpower (by positivity) (by positivity)
        _ = 2 ^ 200 := by norm_num
        _ < 2 ^ 1024 := pow_lt_pow_right₀ (by norm_num) (by norm_num)
  exact ⟨⟨nearest q, nearest_nearest q, hlt⟩, dif_pos hlt, rfl⟩

/-! ## Integers -/

theorem nearest_intCast {n : ℤ} (h : |n| ≤ 2 ^ 53) : nearest n = n := by
  have hplaces := nearest_of_places (e := 0) h (by norm_num)
  simpa using hplaces

theorem nearest_nonneg {q : ℚ} (h : 0 ≤ q) : 0 ≤ nearest q := by
  have hround : 0 ≤ roundEven (q / 2 ^ lastPlace q) := le_roundEven (n := 0) (by rw [Int.cast_zero]; positivity)
  exact mul_nonneg (by exact_mod_cast hround) (by positivity)

/-- Rounding stays between integers. -/
theorem nearest_within {a b : ℤ} {q : ℚ} (ha : a ≤ q) (hb : q ≤ b) (hlow : -2 ^ 53 ≤ a) (hhigh : b ≤ 2 ^ 53) :
    a ≤ nearest q ∧ nearest q ≤ b := by
  have hlow' : -2 ^ 53 ≤ q := le_trans (by exact_mod_cast hlow) ha
  have hhigh' : q ≤ 2 ^ 53 := hb.trans (by exact_mod_cast hhigh)
  rcases lt_or_eq_of_le (abs_le.mpr ⟨hlow', hhigh'⟩) with hlt | heq
  · have hplace : lastPlace q ≤ 0 := by
      by_cases hzero : q = 0
      · simp [hzero, lastPlace]
      · exact lastPlace_le hzero (by norm_num) (by simpa using hlt)
    have hge := le_nearest (m := a) (e := 0) (q := q) (by simpa using ha) hplace
    have hle := nearest_le (m := b) (e := 0) (q := q) (by simpa using hb) hplace
    simp only [zpow_zero, mul_one] at hge hle
    exact ⟨hge, hle⟩
  · have hself : nearest q = q := by
      rcases abs_eq (by norm_num : (0 : ℚ) ≤ 2 ^ 53) |>.mp heq with h | h
      · have hint : q = ((2 ^ 53 : ℤ) : ℚ) := by rw [h]; norm_num
        rw [hint]
        exact nearest_intCast (by norm_num)
      · have hint : q = ((-2 ^ 53 : ℤ) : ℚ) := by rw [h]; norm_num
        rw [hint]
        exact nearest_intCast (by norm_num)
    rw [hself]
    exact ⟨ha, hb⟩

/-- A large integer is rounded to a large integer. -/
theorem nearest_large {n : ℤ} (h : 2 ^ 53 ≤ n) : ∃ k : ℤ, nearest n = k ∧ 2 ^ 53 ≤ k := by
  have hn : (2 : ℚ) ^ (53 : ℤ) ≤ n := by exact_mod_cast h
  have hpos : (0 : ℚ) < n := lt_of_lt_of_le (by norm_num) hn
  have habs : |(n : ℚ)| = n := abs_of_pos hpos
  have hlog : 53 ≤ Int.log 2 (n : ℚ) := (Int.zpow_le_iff_le_log one_lt_two hpos).mp (by exact_mod_cast hn)
  have hplace : lastPlace n = Int.log 2 (n : ℚ) - 52 := by
    rw [lastPlace, habs]
    omega
  obtain ⟨d, hd⟩ := Int.le.dest (show 1 ≤ lastPlace n by omega)
  have hpower : (2 : ℚ) ^ lastPlace n = ((2 ^ (d + 1) : ℤ) : ℚ) := by
    rw [← hd, add_comm]
    norm_cast
  have hround : 2 ^ 52 ≤ roundEven (n / 2 ^ lastPlace n) := by
    apply le_roundEven
    rw [le_div_iff₀ (by positivity), hplace]
    have hself : (2 : ℚ) ^ Int.log 2 (n : ℚ) ≤ n := by exact_mod_cast Int.zpow_log_le_self one_lt_two hpos
    calc ((2 ^ 52 : ℤ) : ℚ) * 2 ^ (Int.log 2 (n : ℚ) - 52) = 2 ^ Int.log 2 (n : ℚ) := by
          rw [zpow_sub₀ two_ne_zero]
          norm_num
          ring
      _ ≤ n := hself
  refine ⟨roundEven (n / 2 ^ lastPlace n) * 2 ^ (d + 1), ?_, ?_⟩
  · rw [Int.cast_mul, ← hpower]
    rfl
  · calc (2 : ℤ) ^ 53 = 2 ^ 52 * 2 ^ 1 := by norm_num
      _ ≤ roundEven (n / 2 ^ lastPlace n) * 2 ^ (d + 1) :=
          mul_le_mul hround (pow_le_pow_right₀ (by norm_num) (by omega)) (by norm_num) (le_trans (by norm_num) hround)

/-- An integer that is not negative stays one, is kept up to `2 ^ 53`, and does not fall below it. -/
theorem toNumber_natural {n : ℤ} (hn : 0 ≤ n) (h : n < 2 ^ 200) :
    ∃ (x : Double) (k : ℤ), toNumber n = .finite x ∧ x.1 = k ∧ 0 ≤ k ∧ (n ≤ 2 ^ 53 → k = n) ∧ (2 ^ 53 ≤ n → 2 ^ 53 ≤ k) := by
  have habs : |(n : ℚ)| < 2 ^ 200 := by
    rw [abs_of_nonneg (by exact_mod_cast hn)]
    exact_mod_cast h
  obtain ⟨x, hx, hnearest⟩ := toNumber_of_lt habs
  rcases le_total n (2 ^ 53) with hsmall | hlarge
  · refine ⟨x, n, hx, ?_, hn, fun _ => rfl, fun h => h⟩
    rw [hnearest, nearest_intCast (by rwa [abs_of_nonneg hn])]
  · obtain ⟨k, hk, hle⟩ := nearest_large hlarge
    refine ⟨x, k, hx, by rw [hnearest, hk], (by norm_num : (0 : ℤ) ≤ 2 ^ 53).trans hle, fun hsmall => ?_, fun _ => hle⟩
    rw [le_antisymm hsmall hlarge, nearest_intCast (by norm_num)] at hk
    rw [le_antisymm hsmall hlarge]
    exact_mod_cast hk.symm

/-! ## Comparing with a small integer -/

/-- A number is above an integer. -/
def Number.above : Number → ℤ → Bool
  | .finite x, k => k < x.1
  | .infinite negative, _ => !negative

theorem above_toNumber {n k : ℤ} (hn : 0 ≤ n) (hk : k < 2 ^ 53) : (toNumber n).above k = true ↔ k < n := by
  rcases le_total n (2 ^ 53) with hsmall | hlarge
  · obtain ⟨x, r, hx, hr, -, hsame, -⟩ := toNumber_natural hn (hsmall.trans_lt (by norm_num))
    rw [hsame hsmall] at hr
    simp [hx, Number.above, hr]
  · obtain ⟨r, hr, hle⟩ := nearest_large hlarge
    have hlt : k < n := hk.trans_le hlarge
    have habove : (toNumber n).above k = true := by
      rw [toNumber]
      split
      · simpa [Number.above, hr] using hk.trans_le hle
      · simpa [Number.above] using hn
    simp [habove, hlt]

end Upstat.DoubleNumbers
