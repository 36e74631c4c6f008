import Mathlib.Data.Int.ModEq
import Mathlib.Tactic.Linarith
import Mathlib.Tactic.Ring

/-! # Grids of instants counted from an origin

Instants are integers. `alignDown o d t` is the last instant at or before `t` that lies a
whole number of steps `d` from the origin `o`, and `stepsFrom b e d` is the loop that
starts at `b` and adds `d` while it is before `e`. -/
namespace Upstat.AlignedGrids

def alignDown (o d t : ℤ) : ℤ := t - (t - o) % d

theorem alignDown_le (o : ℤ) {d : ℤ} (hd : 0 < d) (t : ℤ) : alignDown o d t ≤ t := by
  have := Int.emod_nonneg (t - o) hd.ne'
  simp only [alignDown]; omega

theorem lt_alignDown_add (o : ℤ) {d : ℤ} (hd : 0 < d) (t : ℤ) : t < alignDown o d t + d := by
  have := Int.emod_lt_of_pos (t - o) hd
  simp only [alignDown]; omega

theorem dvd_alignDown_sub (o d t : ℤ) : d ∣ alignDown o d t - o := by
  have h : alignDown o d t - o = (t - o) - (t - o) % d := by simp only [alignDown]; ring
  rw [h]
  exact Int.dvd_self_sub_emod

/-- Being the aligned instant is being aligned and less than one step before. -/
theorem alignDown_eq_iff (o : ℤ) {d : ℤ} (hd : 0 < d) (t x : ℤ) :
    alignDown o d t = x ↔ d ∣ x - o ∧ x ≤ t ∧ t < x + d := by
  constructor
  · rintro rfl
    exact ⟨dvd_alignDown_sub o d t, alignDown_le o hd t, lt_alignDown_add o hd t⟩
  · rintro ⟨⟨k, hk⟩, hx, ht⟩
    have hmod : (t - o) % d = t - x := by
      rw [show t - o = t - x + d * k by linarith, Int.add_mul_emod_self_left]
      exact Int.emod_eq_of_lt (by omega) (by omega)
    simp only [alignDown, hmod]; ring

/-- Aligning to a finer grid of the same origin first changes nothing. -/
theorem alignDown_alignDown (o : ℤ) {m d : ℤ} (hm : 0 < m) (hd : 0 < d) (hmd : m ∣ d) (t : ℤ) :
    alignDown o d (alignDown o m t) = alignDown o d t := by
  rw [alignDown_eq_iff o hd]
  have hle := alignDown_le o hm t
  refine ⟨dvd_alignDown_sub o d t, ?_, by have := lt_alignDown_add o hd t; omega⟩
  -- The coarse instant is on the fine grid too, so the fine one is not before it.
  obtain ⟨a, ha⟩ := Int.dvd_trans hmd (dvd_alignDown_sub o d t)
  obtain ⟨b, hb⟩ := dvd_alignDown_sub o m t
  have hlt := lt_alignDown_add o hm t
  have hcoarse := alignDown_le o hd t
  by_contra hgt
  have hab : b + 1 ≤ a := by
    by_contra hn
    nlinarith
  nlinarith

/-- The instants `b, b + d, b + 2 * d, …` before `e`. -/
def stepsFrom (b e d : ℤ) : List ℤ :=
  if 0 < d ∧ b < e then b :: stepsFrom (b + d) e d else []
termination_by (e - b).toNat
decreasing_by omega

theorem mem_stepsFrom (b e : ℤ) {d : ℤ} (hd : 0 < d) (x : ℤ) :
    x ∈ stepsFrom b e d ↔ x < e ∧ ∃ k : ℕ, x = b + k * d := by
  induction b using stepsFrom.induct (e := e) (d := d) with
  | case1 b h ih =>
    rw [stepsFrom, if_pos h, List.mem_cons, ih]
    constructor
    · rintro (rfl | ⟨hx, k, rfl⟩)
      · exact ⟨h.2, 0, by simp⟩
      · exact ⟨hx, k + 1, by push_cast; ring⟩
    · rintro ⟨hx, k, rfl⟩
      cases k with
      | zero => exact .inl (by simp)
      | succ k => exact .inr ⟨hx, k, by push_cast; ring⟩
  | case2 b h =>
    rw [stepsFrom, if_neg h]
    constructor
    · simp
    · rintro ⟨hx, k, rfl⟩
      have : 0 ≤ (k : ℤ) * d := by positivity
      omega

/-- Buckets of width `w` from origin `o'`, of the instants in `[s, e)`, against the grid of
step `d` from origin `o` over a range from `f` to `t`: every bucket is on the grid exactly
when there is no bucket, or the first bucket starts the grid and the others, if there are
any, follow at the grid's own step. -/
theorem buckets_on_grid_iff {o o' s e f t w d : ℤ} (hw : 0 < w) (hd : 0 < d) (hwd : w < 2 * d) (he : e ≤ t) (hsf : s ≤ f)
    (hfirst : alignDown o' w s = alignDown o' w f) :
    (∀ i, s ≤ i → i < e → alignDown o' w i ∈ stepsFrom (alignDown o d f) t d) ↔
      e ≤ s ∨ alignDown o d f = alignDown o' w f ∧ (w = d ∨ e ≤ alignDown o' w f + w) := by
  have hbs : alignDown o' w f ≤ s := hfirst ▸ alignDown_le o' hw s
  have hgf := lt_alignDown_add o hd f
  constructor
  · intro h
    rcases le_or_gt e s with hes | hse
    · exact .inl hes
    obtain ⟨-, k, hk⟩ := (mem_stepsFrom _ _ hd _).mp (h s le_rfl hse)
    rw [hfirst] at hk
    have hk0 : k = 0 := by
      by_contra hne
      have h1 : (1 : ℤ) ≤ k := by exact_mod_cast Nat.one_le_iff_ne_zero.mpr hne
      have := mul_le_mul_of_nonneg_right h1 hd.le
      omega
    have hstart : alignDown o d f = alignDown o' w f := by simp [hk, hk0]
    refine .inr ⟨hstart, ?_⟩
    rcases le_or_gt e (alignDown o' w f + w) with hone | hmore
    · exact .inr hone
    -- A second bucket forces the two widths to agree.
    refine .inl ?_
    have hnext : alignDown o' w (alignDown o' w f + w) = alignDown o' w f + w := by
      rw [alignDown_eq_iff o' hw]
      refine ⟨?_, le_rfl, by omega⟩
      have := Int.dvd_add (dvd_alignDown_sub o' w f) (Int.dvd_refl w)
      rwa [show alignDown o' w f - o' + w = alignDown o' w f + w - o' by ring] at this
    have hs : s ≤ alignDown o' w f + w := by
      have := lt_alignDown_add o' hw s
      omega
    obtain ⟨-, n, hn⟩ := (mem_stepsFrom _ _ hd _).mp (h _ hs hmore)
    rw [hnext, hstart] at hn
    have hwn : w = n * d := by linarith
    have hn1 : n = 1 := by
      rcases n with _ | _ | n
      · simp at hwn; omega
      · rfl
      · push_cast at hwn
        nlinarith [Int.natCast_nonneg n]
    simpa [hn1] using hwn
  · rintro (hes | ⟨hstart, hwidth⟩) i hi hie
    · omega
    rw [mem_stepsFrom _ _ hd, hstart]
    have hile := alignDown_le o' hw i
    have hbi := lt_alignDown_add o' hw i
    refine ⟨by omega, ?_⟩
    rcases hwidth with rfl | hone
    · obtain ⟨a, ha⟩ := dvd_alignDown_sub o' w i
      obtain ⟨b, hb⟩ := dvd_alignDown_sub o' w f
      have hmul : alignDown o' w i = alignDown o' w f + (a - b) * w := by linarith
      have hab : 0 ≤ a - b := by
        by_contra hneg
        nlinarith
      exact ⟨(a - b).toNat, by rw [Int.toNat_of_nonneg hab]; exact hmul⟩
    · refine ⟨0, ?_⟩
      rw [alignDown_eq_iff o' hw]
      exact ⟨by simpa using dvd_alignDown_sub o' w f, by simpa using by omega, by simpa using by omega⟩

end Upstat.AlignedGrids
