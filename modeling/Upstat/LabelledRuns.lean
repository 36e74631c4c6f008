import Mathlib.Data.Nat.Notation
import Mathlib.Tactic.Common

/-! # Maximal runs of a list with labels

Some elements have a label. A run is a stretch of one label that is as long as it can be. -/
namespace Upstat.LabelledRuns

variable {α β : Type*}

/-- The positions from `first` to `last`. -/
structure Run (β : Type*) where
  label : β
  first : ℕ
  last : ℕ
  deriving DecidableEq

def labelAt (label : α → Option β) (xs : List α) (k : ℕ) : Option β := xs[k]?.bind label

/-- A maximal run. -/
structure IsRun (label : α → Option β) (xs : List α) (r : Run β) : Prop where
  nonempty : r.first ≤ r.last
  labelled : ∀ k, r.first ≤ k → k ≤ r.last → labelAt label xs k = some r.label
  left : ∀ k, k + 1 = r.first → labelAt label xs k ≠ some r.label
  right : labelAt label xs (r.last + 1) ≠ some r.label

/-- How many elements at the front have the label. -/
def stretch [DecidableEq β] (label : α → Option β) (l : β) (xs : List α) : ℕ := (xs.takeWhile fun x => label x = some l).length

/-- The runs of a list that begins at position `n`, found from left to right. -/
def runs [DecidableEq β] (label : α → Option β) : ℕ → ℕ → List α → List (Run β)
  | 0, _, _ => []
  | _ + 1, _, [] => []
  | fuel + 1, n, x :: xs =>
    match label x with
    | none => runs label fuel (n + 1) xs
    | some l => ⟨l, n, n + stretch label l xs⟩ :: runs label fuel (n + 1 + stretch label l xs) (xs.drop (stretch label l xs))

section
variable {label : α → Option β} {xs rest : List α} {n : ℕ}

theorem labelAt_drop (hrest : xs.drop n = rest) (k : ℕ) : labelAt label rest k = labelAt label xs (n + k) := by
  rw [labelAt, labelAt, ← hrest, List.getElem?_drop]

/-- No run goes over position `n`. -/
def Cut (label : α → Option β) (xs : List α) (n : ℕ) : Prop :=
  ∀ k l, k + 1 = n → labelAt label xs k = some l → labelAt label xs n ≠ some l

theorem cut_zero : Cut label xs 0 := fun k _ h => absurd h (Nat.succ_ne_zero k)

variable [DecidableEq β]

theorem labelAt_of_lt_stretch {l : β} {k : ℕ} (h : k < stretch label l rest) : labelAt label rest k = some l := by
  induction rest generalizing k with
  | nil => simp [stretch] at h
  | cons x rest ih =>
    by_cases hx : label x = some l
    · cases k with
      | zero => exact hx
      | succ k =>
        apply ih
        simpa [stretch, hx] using h
    · simp [stretch, hx] at h

theorem labelAt_stretch_ne (l : β) (rest : List α) : labelAt label rest (stretch label l rest) ≠ some l := by
  induction rest with
  | nil => simp [labelAt]
  | cons x rest ih =>
    by_cases hx : label x = some l
    · have hstretch : stretch label l (x :: rest) = stretch label l rest + 1 := by simp [stretch, hx]
      rw [hstretch]
      exact ih
    · have hstretch : stretch label l (x :: rest) = 0 := by simp [stretch, hx]
      rw [hstretch]
      exact hx

theorem labelAt_after {x : α} (l : β) (hdrop : xs.drop n = x :: rest) : labelAt label xs (n + 1 + stretch label l rest) ≠ some l := by
  have hafter : labelAt label xs (n + (stretch label l rest + 1)) ≠ some l := by
    rw [← labelAt_drop hdrop]
    exact labelAt_stretch_ne l rest
  rwa [Nat.add_assoc, Nat.add_comm 1]

section
variable {x : α} {l : β} (hdrop : xs.drop n = x :: rest) (hx : label x = some l)
include hdrop hx

/-- What there is from a label on that is the first of its run. -/
theorem labelAt_head (k : ℕ) (hk : k ≤ stretch label l rest) : labelAt label xs (n + k) = some l := by
  rw [← labelAt_drop hdrop]
  cases k with
  | zero => exact hx
  | succ k =>
    have hrest : labelAt label rest k = some l := labelAt_of_lt_stretch hk
    exact hrest

theorem isRun_head (hcut : Cut label xs n) : IsRun label xs ⟨l, n, n + stretch label l rest⟩ where
  nonempty := Nat.le_add_right _ _
  labelled k hfirst hlast := by
    obtain ⟨i, rfl⟩ := Nat.exists_eq_add_of_le hfirst
    apply labelAt_head hdrop hx
    simpa using hlast
  left k hk hbefore := hcut k l hk hbefore (labelAt_head hdrop hx 0 (Nat.zero_le _))
  right := by
    have hafter : labelAt label xs (n + 1 + stretch label l rest) ≠ some l := labelAt_after l hdrop
    rwa [Nat.add_right_comm] at hafter

theorem cut_after : Cut label xs (n + 1 + stretch label l rest) := by
  intro k l' hk hbefore
  have hlast : labelAt label xs (n + stretch label l rest) = some l := labelAt_head hdrop hx _ (Nat.le_refl _)
  have hsame : k = n + stretch label l rest := by omega
  rw [hsame, hlast] at hbefore
  rw [← Option.some.inj hbefore]
  exact labelAt_after l hdrop

/-- It is the only run that begins there or within it. -/
theorem eq_head {r : Run β} (h : IsRun label xs r) (hfirst : n ≤ r.first) (hlt : r.first < n + 1 + stretch label l rest) :
    r = ⟨l, n, n + stretch label l rest⟩ := by
  obtain ⟨i, hi⟩ := Nat.exists_eq_add_of_le hfirst
  have hlabel : l = r.label := by
    have hr : labelAt label xs r.first = some r.label := h.labelled r.first (Nat.le_refl _) h.nonempty
    rw [hi, labelAt_head hdrop hx i (by omega)] at hr
    exact Option.some.inj hr
  have hbegin : r.first = n := by
    cases i with
    | zero => exact hi
    | succ i =>
      have hbefore : labelAt label xs (n + i) = some l := labelAt_head hdrop hx i (by omega)
      exact absurd (hlabel ▸ hbefore) (h.left (n + i) (by omega))
  have hend : r.last = n + stretch label l rest := by
    rcases Nat.lt_trichotomy r.last (n + stretch label l rest) with hshort | heq | hlong
    · obtain ⟨j, hj⟩ := Nat.exists_eq_add_of_le (hbegin ▸ h.nonempty)
      have hnext : labelAt label xs (n + (j + 1)) = some l := labelAt_head hdrop hx (j + 1) (by omega)
      rw [← Nat.add_assoc, ← hj] at hnext
      exact absurd (hlabel ▸ hnext) h.right
    · exact heq
    · have hafter := h.labelled (n + 1 + stretch label l rest) (by omega) (by omega)
      rw [← hlabel] at hafter
      exact absurd hafter (labelAt_after l hdrop)
  cases r
  simp_all

end

theorem runs_nil {fuel : ℕ} (hdrop : xs.drop n = []) : (∀ r, r ∈ runs label fuel n ([] : List α) ↔ IsRun label xs r ∧ n ≤ r.first) ∧
    (runs label fuel n ([] : List α)).Pairwise fun r r' => r.last < r'.first := by
  have hruns : runs label fuel n ([] : List α) = [] := by cases fuel <;> rfl
  rw [hruns]
  refine ⟨fun r => ?_, List.Pairwise.nil⟩
  constructor
  · intro h
    cases h
  · rintro ⟨hr, hfirst⟩
    obtain ⟨i, hi⟩ := Nat.exists_eq_add_of_le hfirst
    have hat : labelAt label xs r.first = some r.label := hr.labelled r.first (Nat.le_refl _) hr.nonempty
    rw [hi, ← labelAt_drop hdrop] at hat
    simp [labelAt] at hat

/-- `runs` finds all runs from the position on, in order. -/
theorem runs_spec (fuel : ℕ) (hfuel : rest.length ≤ fuel) (hdrop : xs.drop n = rest) (hcut : Cut label xs n) :
    (∀ r, r ∈ runs label fuel n rest ↔ IsRun label xs r ∧ n ≤ r.first) ∧
      (runs label fuel n rest).Pairwise fun r r' => r.last < r'.first := by
  induction fuel generalizing n rest with
  | zero =>
    have hnil : rest = [] := List.length_eq_zero_iff.mp (Nat.le_zero.mp hfuel)
    subst hnil
    exact runs_nil hdrop
  | succ fuel ih =>
    cases rest with
    | nil => exact runs_nil hdrop
    | cons x rest =>
      have hlength : rest.length ≤ fuel := Nat.le_of_succ_le_succ hfuel
      have hnext : ∀ k, xs.drop (n + 1 + k) = rest.drop k := by
        intro k
        rw [← List.drop_drop, ← List.drop_drop, hdrop]
        rfl
      cases hx : label x with
      | none =>
        have hhead : labelAt label xs n = none := by
          have hat : labelAt label (x :: rest) 0 = labelAt label xs (n + 0) := labelAt_drop hdrop 0
          simpa [labelAt, hx] using hat.symm
        have hcut' : Cut label xs (n + 1) := by
          intro k l hk hbefore
          obtain rfl : k = n := Nat.succ.inj hk
          rw [hhead] at hbefore
          cases hbefore
        obtain ⟨hmem, hpairwise⟩ := ih hlength (hnext 0) hcut'
        simp only [runs, hx]
        refine ⟨?_, hpairwise⟩
        intro r
        rw [hmem]
        refine and_congr_right fun hr => ⟨Nat.le_of_succ_le, fun hfirst => ?_⟩
        apply Nat.lt_of_le_of_ne hfirst
        rintro rfl
        have hat : labelAt label xs r.first = some r.label := hr.labelled r.first (Nat.le_refl _) hr.nonempty
        rw [hhead] at hat
        cases hat
      | some l =>
        have hshort : (rest.drop (stretch label l rest)).length ≤ fuel := by
          rw [List.length_drop]
          omega
        obtain ⟨hmem, hpairwise⟩ := ih hshort (hnext _) (cut_after hdrop hx)
        simp only [runs, hx]
        constructor
        · intro r
          rw [List.mem_cons, hmem]
          constructor
          · rintro (rfl | ⟨hr, hfirst⟩)
            · exact ⟨isRun_head hdrop hx hcut, Nat.le_refl _⟩
            · exact ⟨hr, by omega⟩
          · rintro ⟨hr, hfirst⟩
            by_cases hlt : r.first < n + 1 + stretch label l rest
            · exact Or.inl (eq_head hdrop hx hr hfirst hlt)
            · exact Or.inr ⟨hr, Nat.le_of_not_lt hlt⟩
        · apply List.Pairwise.cons
          · intro r hr
            have hfirst := ((hmem r).mp hr).2
            simp only
            omega
          · exact hpairwise

theorem mem_runs {r : Run β} : r ∈ runs label xs.length 0 xs ↔ IsRun label xs r := by
  have hmem : ∀ r, r ∈ runs label xs.length 0 xs ↔ IsRun label xs r ∧ 0 ≤ r.first :=
    (runs_spec xs.length (Nat.le_refl _) List.drop_zero cut_zero).1
  rw [hmem]
  simp

theorem pairwise_runs : (runs label xs.length 0 xs).Pairwise fun r r' => r.last < r'.first :=
  (runs_spec xs.length (Nat.le_refl _) List.drop_zero cut_zero).2

end

end Upstat.LabelledRuns
