import Mathlib.Algebra.Order.Field.Basic
import Mathlib.Data.Rat.Defs
import Mathlib.Tactic.Linarith
import Mathlib.Tactic.NormNum
import Mathlib.Tactic.Ring

/-! # The error budget of an SLO (`analytics/evaluation.py`)

`slo_status` of counts as exact numbers, without its last rounding. -/
namespace Upstat.BudgetStatus

inductive State where
  | exhausted | burning | healthy
  deriving DecidableEq, Repr

structure Status where
  current : ℚ
  budget : ℚ
  burn : ℚ
  state : State
  deriving DecidableEq

/-- The error rate that a target allows, with a floor under it. -/
def allowed (target : ℚ) : ℚ := max (1 / 1000000000) (1 - target / 100)

/-- The share of attempts that failed, which is none when there are no attempts. -/
def errorRate (good all : ℚ) : ℚ := if all = 0 then 0 else 1 - good / all

def sloStatus (good all recentGood recentAll target : ℚ) : Status :=
  let current := if all = 0 then 100 else good / all * 100
  let spent := (1 - current / 100) / allowed target
  let budget := max 0 (min 100 ((1 - spent) * 100))
  let recentErr := errorRate recentGood recentAll
  let burn := recentErr / allowed target
  ⟨current, budget, burn, if budget ≤ 0 then .exhausted else if 1 < burn then .burning else .healthy⟩

variable {good all recentGood recentAll target : ℚ}

theorem allowed_pos (target : ℚ) : 0 < allowed target := by
  have hfloor : (0 : ℚ) < 1 / 1000000000 := by norm_num
  exact lt_of_lt_of_le hfloor (le_max_left _ _)

theorem errorRate_eq (good all : ℚ) : 1 - (if all = 0 then 100 else good / all * 100) / 100 = errorRate good all := by
  unfold errorRate
  split
  · norm_num
  · ring

theorem budget_eq : (sloStatus good all recentGood recentAll target).budget =
    max 0 (min 100 ((1 - errorRate good all / allowed target) * 100)) := by
  rw [← errorRate_eq]
  rfl

theorem budget_bounds : 0 ≤ (sloStatus good all recentGood recentAll target).budget ∧
    (sloStatus good all recentGood recentAll target).budget ≤ 100 := by
  rw [budget_eq]
  constructor
  · exact le_max_left _ _
  · apply max_le
    · norm_num
    · exact min_le_left _ _

theorem budget_le_zero_iff : (sloStatus good all recentGood recentAll target).budget ≤ 0 ↔ allowed target ≤ errorRate good all := by
  have hpos := allowed_pos target
  have hspent : 1 ≤ errorRate good all / allowed target ↔ allowed target ≤ errorRate good all := one_le_div hpos
  rw [budget_eq, ← hspent, max_le_iff, min_le_iff]
  constructor
  · rintro ⟨-, h | h⟩
    · norm_num at h
    · linarith
  · intro h
    refine ⟨le_rfl, Or.inr ?_⟩
    linarith

theorem state_eq : (sloStatus good all recentGood recentAll target).state =
    if allowed target ≤ errorRate good all then .exhausted
    else if allowed target < errorRate recentGood recentAll then .burning else .healthy := by
  have hburn : 1 < errorRate recentGood recentAll / allowed target ↔ allowed target < errorRate recentGood recentAll :=
    one_lt_div (allowed_pos target)
  have hbudget : (sloStatus good all recentGood recentAll target).budget ≤ 0 ↔ allowed target ≤ errorRate good all := budget_le_zero_iff
  have hstate : (sloStatus good all recentGood recentAll target).state =
      if (sloStatus good all recentGood recentAll target).budget ≤ 0 then .exhausted
      else if 1 < errorRate recentGood recentAll / allowed target then .burning else .healthy := rfl
  rw [hstate]
  simp only [hbudget, hburn]

/-- Fewer of the attempts fail when more of them are good. -/
theorem errorRate_anti {good' : ℚ} (hall : 0 ≤ all) (h : good ≤ good') : errorRate good' all ≤ errorRate good all := by
  unfold errorRate
  split
  · exact le_rfl
  · have hdiv : good / all ≤ good' / all := by
      apply div_le_div_of_nonneg_right h hall
    linarith

theorem budget_mono {good' : ℚ} (hall : 0 ≤ all) (h : good ≤ good') :
    (sloStatus good all recentGood recentAll target).budget ≤ (sloStatus good' all recentGood recentAll target).budget := by
  have hspent : errorRate good' all / allowed target ≤ errorRate good all / allowed target := by
    apply div_le_div_of_nonneg_right (errorRate_anti hall h) (allowed_pos target).le
  rw [budget_eq, budget_eq]
  apply max_le_max le_rfl
  apply min_le_min le_rfl
  linarith

/-- The budget is a percentage that does not fall when more is good, and the state tells whether the rates reach what is allowed. -/
theorem status_sound (good all recentGood recentAll target : ℚ) (hgood : 0 ≤ good) (hall : good ≤ all) :
    let s := sloStatus good all recentGood recentAll target
    (0 ≤ s.budget ∧ s.budget ≤ 100) ∧ (s.state = .exhausted ↔ allowed target ≤ errorRate good all) ∧
      (s.state = .burning ↔ s.state ≠ .exhausted ∧ allowed target < errorRate recentGood recentAll) ∧
      ∀ good', good ≤ good' → good' ≤ all → s.budget ≤ (sloStatus good' all recentGood recentAll target).budget := by
  intro s
  have hstate : s.state = _ := state_eq
  refine ⟨budget_bounds, ?_, ?_, ?_⟩
  · rw [hstate]
    split
    · simp_all
    · split <;> simp_all
  · rw [hstate]
    split
    · simp
    · split <;> simp_all
  · intro good' h _
    exact budget_mono (hgood.trans hall) h

/-- Of ten thousand attempts five failed, which is half of what 99.9 % allows. -/
theorem status_sound_half : (sloStatus 9995 10000 995 1000 (999 / 10)).state = .burning ∧
    (sloStatus 9995 10000 995 1000 (999 / 10)).budget ≤ 100 := by
  obtain ⟨⟨-, hle⟩, -, hburning, -⟩ := status_sound 9995 10000 995 1000 (999 / 10) (by norm_num) (by norm_num)
  refine ⟨hburning.mpr ⟨?_, ?_⟩, hle⟩
  · decide +kernel
  · decide +kernel

end Upstat.BudgetStatus
