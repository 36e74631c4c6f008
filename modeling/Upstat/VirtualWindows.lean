import Mathlib.Algebra.BigOperators.Group.List.Basic
import Mathlib.Algebra.BigOperators.Group.Finset.Basic
import Mathlib.Algebra.BigOperators.Intervals
import Mathlib.Data.List.Sort
import Mathlib.Tactic.Linarith
import Mathlib.Tactic.Ring

/-! # The rows of a list that are rendered (`controllers/virtual-window.ts`)

Rows have one height, but for the expanded ones. From the scroll offset `computeVirtualWindow` finds the rows to render and the
heights of what stands for the others. -/
namespace Upstat.VirtualWindows

structure WindowExtra where
  index : ℤ
  extra : ℤ
  deriving DecidableEq

structure VirtualWindowInput where
  count : ℤ
  rowHeight : ℤ
  viewportHeight : ℤ
  scrollTop : ℤ
  extras : List WindowExtra
  overscan : ℤ := 20

structure VirtualWindowResult where
  start : ℤ
  end_ : ℤ
  padTop : ℤ
  padBottom : ℤ
  totalHeight : ℤ
  deriving DecidableEq

/-- The extras above a row, of extras in order. -/
def extraAbove (index : ℤ) : List WindowExtra → ℤ
  | [] => 0
  | e :: es => if e.index < index then e.extra + extraAbove index es else 0

def offsetOf (index rowHeight : ℤ) (extras : List WindowExtra) : ℤ := index * rowHeight + extraAbove index extras

/-- The loop of `indexAt`, with what it has added. -/
def indexFrom (y rowHeight : ℤ) : ℤ → List WindowExtra → ℤ
  | above, [] => max 0 ((y - above) / rowHeight)
  | above, e :: es =>
    let top := e.index * rowHeight + above
    if top + rowHeight + e.extra ≤ y then indexFrom y rowHeight (above + e.extra) es
    else if top ≤ y then e.index
    else max 0 ((y - above) / rowHeight)

def indexAt (y rowHeight : ℤ) (extras : List WindowExtra) : ℤ := indexFrom y rowHeight 0 extras

section
variable (w : VirtualWindowInput)

def inRange : List WindowExtra :=
  (w.extras.filter fun e => 0 ≤ e.index ∧ e.index < w.count).mergeSort fun a b => a.index ≤ b.index

def totalHeight : ℤ := w.count * w.rowHeight + ((inRange w).map WindowExtra.extra).sum

def computeVirtualWindow : VirtualWindowResult :=
  if w.count = 0 then ⟨0, 0, 0, 0, 0⟩
  else
    let start := max 0 (indexAt w.scrollTop w.rowHeight (inRange w) - w.overscan)
    let end_ := min w.count (indexAt (w.scrollTop + w.viewportHeight) w.rowHeight (inRange w) + 1 + w.overscan)
    { start, end_
      padTop := offsetOf start w.rowHeight (inRange w)
      padBottom := max 0 (totalHeight w - offsetOf end_ w.rowHeight (inRange w))
      totalHeight := totalHeight w }

/-! ## What is rendered -/

/-- The height of a row. -/
def heightOf (i : ℤ) : ℤ := w.rowHeight + ((w.extras.filter fun e => e.index = i).map WindowExtra.extra).sum

/-- The heights of so many rows from the first one on. -/
def heights (from_ : ℤ) (n : ℕ) : ℤ := ∑ j ∈ Finset.range n, heightOf w (from_ + j)

/-- Where a row is. -/
def top (i : ℤ) : ℤ := heights w 0 i.toNat

/-- The row has some of its height in the viewport. -/
def Intersects (i : ℤ) : Prop := top w i < w.scrollTop + w.viewportHeight ∧ w.scrollTop < top w (i + 1)

/-- What is asked of the slice that is rendered. -/
structure Lawful (r : VirtualWindowResult) : Prop where
  nonneg : 0 ≤ r.start
  ordered : r.start ≤ r.end_
  within : r.end_ ≤ w.count
  total : r.padTop + heights w r.start (r.end_ - r.start).toNat + r.padBottom = top w w.count
  reported : r.totalHeight = top w w.count
  shown : ∀ i, 0 ≤ i → i < w.count → Intersects w i → r.start ≤ i ∧ i < r.end_

/-- The inputs there are. -/
structure Fits : Prop where
  count : 0 ≤ w.count
  rowHeight : 0 < w.rowHeight
  viewportHeight : 0 ≤ w.viewportHeight
  scrollTop : 0 ≤ w.scrollTop
  overscan : 0 ≤ w.overscan
  extras : ∀ e ∈ w.extras, 0 ≤ e.extra
  nodup : (w.extras.map WindowExtra.index).Nodup

end

/-! ## Offsets -/

section
variable {es : List WindowExtra}

theorem extraAbove_nonneg (hextra : ∀ e ∈ es, 0 ≤ e.extra) (i : ℤ) : 0 ≤ extraAbove i es := by
  induction es with
  | nil => exact le_refl 0
  | cons e es ih =>
    unfold extraAbove
    split
    · exact add_nonneg (hextra e List.mem_cons_self) (ih fun d hd => hextra d (List.mem_cons_of_mem _ hd))
    · exact le_refl 0

theorem extraAbove_mono (hextra : ∀ e ∈ es, 0 ≤ e.extra) {i j : ℤ} (hij : i ≤ j) : extraAbove i es ≤ extraAbove j es := by
  induction es with
  | nil => exact le_refl 0
  | cons e es ih =>
    have hrest : extraAbove i es ≤ extraAbove j es := ih fun d hd => hextra d (List.mem_cons_of_mem _ hd)
    simp only [extraAbove]
    by_cases hi : e.index < i
    · rw [if_pos hi, if_pos (hi.trans_le hij)]
      exact Int.add_le_add_left hrest _
    · rw [if_neg hi]
      exact extraAbove_nonneg hextra j

theorem extraAbove_zero {i : ℤ} (h : ∀ e ∈ es, i ≤ e.index) : extraAbove i es = 0 := by
  cases es with
  | nil => rfl
  | cons e es => exact if_neg (not_lt.mpr (h e List.mem_cons_self))

theorem extraAbove_all {i : ℤ} (h : ∀ e ∈ es, e.index < i) : extraAbove i es = (es.map WindowExtra.extra).sum := by
  induction es with
  | nil => rfl
  | cons e es ih =>
    rw [extraAbove, if_pos (h e List.mem_cons_self), ih fun d hd => h d (List.mem_cons_of_mem _ hd), List.map_cons, List.sum_cons]

/-- One row further there are the extras of the row between. -/
theorem extraAbove_succ (hsorted : es.Pairwise fun a b => a.index < b.index) (i : ℤ) :
    extraAbove (i + 1) es = extraAbove i es + ((es.filter fun e => e.index = i).map WindowExtra.extra).sum := by
  induction es with
  | nil => rfl
  | cons e es ih =>
    obtain ⟨hless, hrest⟩ := List.pairwise_cons.mp hsorted
    simp only [extraAbove]
    rcases lt_trichotomy e.index i with hi | hi | hi
    · rw [if_pos hi, if_pos (by omega), ih hrest, List.filter_cons_of_neg (by simpa using hi.ne), add_assoc]
    · have hnone : es.filter (fun d => d.index = i) = [] := by
        rw [List.filter_eq_nil_iff]
        intro d hd
        have hlt := hless d hd
        simp only [decide_eq_true_eq]
        omega
      have habove : extraAbove (i + 1) es = 0 := by
        apply extraAbove_zero
        intro d hd
        have hlt := hless d hd
        omega
      rw [if_pos (by omega), if_neg (by omega), List.filter_cons_of_pos (by simpa using hi), hnone, habove]
      simp
    · have hnone : es.filter (fun d => d.index = i) = [] := by
        rw [List.filter_eq_nil_iff]
        intro d hd
        have hlt := hless d hd
        simp only [decide_eq_true_eq]
        omega
      rw [if_neg (by omega), if_neg (by omega), List.filter_cons_of_neg (by simpa using hi.ne'), hnone]
      rfl

/-- The loop finds the row in which an offset is, at rows it has not passed. -/
theorem indexFrom_spec {rowHeight y : ℤ} (hrow : 0 < rowHeight) (hextra : ∀ e ∈ es, 0 ≤ e.extra)
    (hsorted : es.Pairwise fun a b => a.index < b.index) {above m : ℤ} (hm : 0 ≤ m) (hpassed : m * rowHeight + above ≤ y)
    (hes : ∀ e ∈ es, m ≤ e.index) :
    m ≤ indexFrom y rowHeight above es ∧
      indexFrom y rowHeight above es * rowHeight + above + extraAbove (indexFrom y rowHeight above es) es ≤ y ∧
      y < (indexFrom y rowHeight above es + 1) * rowHeight + above + extraAbove (indexFrom y rowHeight above es + 1) es := by
  have hquot : m ≤ (y - above) / rowHeight := (Int.le_ediv_iff_mul_le hrow).mpr (by omega)
  have hmax : max 0 ((y - above) / rowHeight) = (y - above) / rowHeight := max_eq_right (hm.trans hquot)
  have hlow : (y - above) / rowHeight * rowHeight ≤ y - above := Int.ediv_mul_le _ hrow.ne'
  have hhigh : y - above < ((y - above) / rowHeight + 1) * rowHeight := Int.lt_ediv_add_one_mul_self _ hrow
  induction es generalizing above m with
  | nil =>
    simp only [indexFrom, extraAbove, hmax]
    exact ⟨hquot, by omega, by omega⟩
  | cons e es ih =>
    obtain ⟨hless, hrest⟩ := List.pairwise_cons.mp hsorted
    have hhere : m ≤ e.index := hes e List.mem_cons_self
    have hextra' : ∀ d ∈ es, 0 ≤ d.extra := fun d hd => hextra d (List.mem_cons_of_mem _ hd)
    simp only [indexFrom]
    split
    · -- the expanded row is above
      rename_i hpast
      have hnext : (e.index + 1) * rowHeight + (above + e.extra) ≤ y := by linarith
      have hnextQuot : e.index + 1 ≤ (y - (above + e.extra)) / rowHeight := (Int.le_ediv_iff_mul_le hrow).mpr (by omega)
      obtain ⟨hle, hfrom, hbefore⟩ := ih hextra' hrest (by omega) hnext
        (fun d hd => hless d hd) hnextQuot (max_eq_right (by omega)) (Int.ediv_mul_le _ hrow.ne') (Int.lt_ediv_add_one_mul_self _ hrow)
      rw [extraAbove, if_pos (by omega), extraAbove, if_pos (by omega)]
      exact ⟨by omega, by omega, by omega⟩
    · rename_i hpast
      split
      · -- the offset is in the expanded row
        rename_i htop
        have hsum := extraAbove_nonneg hextra' (e.index + 1)
        rw [extraAbove, if_neg (lt_irrefl _), extraAbove, if_pos (by omega)]
        exact ⟨hhere, by omega, by linarith⟩
      · -- it is in a row before
        rename_i htop
        have hrowBefore : (y - above) / rowHeight < e.index := Int.ediv_lt_of_lt_mul hrow (by omega)
        rw [hmax, extraAbove, if_neg (by omega), extraAbove, if_neg (by omega)]
        exact ⟨hquot, by omega, by omega⟩

end

/-! ## Rows -/

section
variable {w : VirtualWindowInput}

theorem mem_inRange {e : WindowExtra} : e ∈ inRange w ↔ e ∈ w.extras ∧ 0 ≤ e.index ∧ e.index < w.count := by
  simp [inRange, List.mem_mergeSort]

/-- The extras in range are in the order of their rows, one for a row. -/
theorem inRange_sorted (h : Fits w) : (inRange w).Pairwise fun a b => a.index < b.index := by
  have hle : (inRange w).Pairwise fun a b => a.index ≤ b.index := by
    have htrans : ∀ a b c : WindowExtra, decide (a.index ≤ b.index) = true → decide (b.index ≤ c.index) = true →
        decide (a.index ≤ c.index) = true := by
      intro a b c hab hbc
      simp only [decide_eq_true_eq] at *
      omega
    have htotal : ∀ a b : WindowExtra, (decide (a.index ≤ b.index) || decide (b.index ≤ a.index)) = true := by
      intro a b
      simp only [Bool.or_eq_true, decide_eq_true_eq]
      omega
    exact (List.pairwise_mergeSort htrans htotal _).imp fun hab => by simpa using hab
  have hne : (inRange w).Pairwise fun a b => a.index ≠ b.index := by
    have hnodup : ((inRange w).map WindowExtra.index).Nodup := by
      have hperm : (inRange w).Perm (w.extras.filter fun e => 0 ≤ e.index ∧ e.index < w.count) := List.mergeSort_perm _ _
      exact (hperm.map WindowExtra.index).nodup_iff.mpr (h.nodup.sublist (List.filter_sublist.map _))
    exact List.pairwise_map.mp hnodup
  exact hle.imp₂ (fun _ _ hab hne' => lt_of_le_of_ne hab hne') hne

theorem inRange_extra (h : Fits w) : ∀ e ∈ inRange w, 0 ≤ e.extra := fun e he => h.extras e (mem_inRange.mp he).1

theorem heightOf_eq {i : ℤ} (hi : 0 ≤ i) (hcount : i < w.count) :
    heightOf w i = w.rowHeight + (((inRange w).filter fun e => e.index = i).map WindowExtra.extra).sum := by
  have hperm : ((inRange w).filter fun e => e.index = i).Perm (w.extras.filter fun e => e.index = i) := by
    have hsame : (w.extras.filter fun e => 0 ≤ e.index ∧ e.index < w.count).filter (fun e => e.index = i) =
        w.extras.filter fun e => e.index = i := by
      rw [List.filter_filter]
      apply List.filter_congr
      intro e _
      by_cases he : e.index = i
      · simp [he, hi, hcount]
      · simp [he]
    rw [← hsame]
    exact (List.mergeSort_perm _ _).filter _
  rw [heightOf, ((hperm.map WindowExtra.extra).sum_eq)]

/-- Where a row is, `offsetOf` finds it. -/
theorem top_eq_offsetOf (h : Fits w) {i : ℤ} (hi : 0 ≤ i) (hcount : i ≤ w.count) : top w i = offsetOf i w.rowHeight (inRange w) := by
  obtain ⟨n, rfl⟩ := Int.eq_ofNat_of_zero_le hi
  rw [top, Int.toNat_natCast, heights, offsetOf]
  induction n with
  | zero =>
    have hnone : extraAbove (0 : ℕ) (inRange w) = 0 := extraAbove_zero fun e he => (mem_inRange.mp he).2.1
    rw [hnone]
    simp
  | succ n ih =>
    have hstep : extraAbove (n + 1) (inRange w) = extraAbove n (inRange w) +
        (((inRange w).filter fun e => e.index = (n : ℤ)).map WindowExtra.extra).sum := extraAbove_succ (inRange_sorted h) n
    have hheight := heightOf_eq (w := w) (i := n) (by omega) (by omega)
    rw [Finset.sum_range_succ, ih (by omega) (by omega), Int.zero_add, hheight, Nat.cast_add, Nat.cast_one, hstep]
    ring

theorem totalHeight_eq (w : VirtualWindowInput) : totalHeight w = offsetOf w.count w.rowHeight (inRange w) := by
  rw [totalHeight, offsetOf, extraAbove_all fun e he => (mem_inRange.mp he).2.2]

theorem offsetOf_mono (h : Fits w) {i j : ℤ} (hij : i ≤ j) : offsetOf i w.rowHeight (inRange w) ≤ offsetOf j w.rowHeight (inRange w) :=
  add_le_add (Int.mul_le_mul_of_nonneg_right hij h.rowHeight.le) (extraAbove_mono (inRange_extra h) hij)

/-- The heights of the rows between two are what is between their offsets. -/
theorem heights_between (h : Fits w) {i j : ℤ} (hi : 0 ≤ i) (hij : i ≤ j) (hj : j ≤ w.count) :
    heights w i (j - i).toNat = offsetOf j w.rowHeight (inRange w) - offsetOf i w.rowHeight (inRange w) := by
  obtain ⟨m, rfl⟩ := Int.eq_ofNat_of_zero_le hi
  obtain ⟨n, hn⟩ := Int.eq_ofNat_of_zero_le (Int.sub_nonneg.mpr hij)
  obtain rfl : j = ((m + n : ℕ) : ℤ) := by omega
  have hsplit : top w ((m + n : ℕ) : ℤ) = top w (m : ℤ) + heights w m n := by
    rw [top, top, heights, heights, heights, Int.toNat_natCast, Int.toNat_natCast, Finset.sum_range_add]
    simp only [Int.zero_add, Nat.cast_add]
  have hlength : (((m + n : ℕ) : ℤ) - (m : ℤ)).toNat = n := by omega
  rw [← top_eq_offsetOf h (by omega) hj, ← top_eq_offsetOf h hi (by omega), hsplit, hlength]
  omega

/-- The row in which an offset is. -/
theorem indexAt_spec (h : Fits w) {y : ℤ} (hy : 0 ≤ y) : 0 ≤ indexAt y w.rowHeight (inRange w) ∧
    offsetOf (indexAt y w.rowHeight (inRange w)) w.rowHeight (inRange w) ≤ y ∧
    y < offsetOf (indexAt y w.rowHeight (inRange w) + 1) w.rowHeight (inRange w) := by
  have hpassed : 0 * w.rowHeight + 0 ≤ y := by omega
  obtain ⟨hle, hfrom, hbefore⟩ := indexFrom_spec h.rowHeight (inRange_extra h) (inRange_sorted h) (le_refl 0) hpassed
    fun e he => (mem_inRange.mp he).2.1
  simp only [add_zero] at hfrom hbefore
  exact ⟨hle, hfrom, hbefore⟩

theorem le_indexAt_iff (h : Fits w) {y : ℤ} (hy : 0 ≤ y) (i : ℤ) :
    i ≤ indexAt y w.rowHeight (inRange w) ↔ offsetOf i w.rowHeight (inRange w) ≤ y := by
  obtain ⟨-, hfrom, hbefore⟩ := indexAt_spec h hy
  constructor
  · intro hi
    exact (offsetOf_mono h hi).trans hfrom
  · intro hi
    by_contra hlt
    have hmono := offsetOf_mono h (i := indexAt y w.rowHeight (inRange w) + 1) (j := i) (by omega)
    omega

/-- A row that is in the viewport is between the rows of its edges. -/
theorem shown_between (h : Fits w) {i : ℤ} (hi : 0 ≤ i) (hcount : i < w.count) (hshown : Intersects w i) :
    indexAt w.scrollTop w.rowHeight (inRange w) ≤ i ∧ i ≤ indexAt (w.scrollTop + w.viewportHeight) w.rowHeight (inRange w) := by
  obtain ⟨hbefore, hafter⟩ := hshown
  rw [top_eq_offsetOf h (by omega) (by omega)] at hbefore hafter
  have hscroll := h.scrollTop
  have hview := h.viewportHeight
  constructor
  · by_contra hlt
    have hle := (le_indexAt_iff h hscroll (i + 1)).mp (by omega)
    omega
  · exact (le_indexAt_iff h (by omega) i).mpr (by omega)

/-- The edge above the viewport is among the rows and the overscan after them just when it is at most so far below the list. -/
theorem indexAt_le_iff (h : Fits w) : indexAt w.scrollTop w.rowHeight (inRange w) ≤ w.count + w.overscan ↔
    w.scrollTop < top w w.count + (w.overscan + 1) * w.rowHeight := by
  have hover := h.overscan
  have hend : offsetOf (w.count + w.overscan + 1) w.rowHeight (inRange w) = top w w.count + (w.overscan + 1) * w.rowHeight := by
    have hall : extraAbove (w.count + w.overscan + 1) (inRange w) = extraAbove w.count (inRange w) := by
      rw [extraAbove_all fun e he => (mem_inRange.mp he).2.2, extraAbove_all]
      intro e he
      have hlt := (mem_inRange.mp he).2.2
      omega
    rw [top_eq_offsetOf h h.count (le_refl _), offsetOf, offsetOf, hall]
    ring
  have hiff := le_indexAt_iff h h.scrollTop (w.count + w.overscan + 1)
  rw [hend] at hiff
  omega

/-- The slice is lawful just when the scroll offset is not more than the overscan and a row below the list. -/
theorem window_lawful_iff (h : Fits w) :
    Lawful w (computeVirtualWindow w) ↔ w.count = 0 ∨ w.scrollTop < top w w.count + (w.overscan + 1) * w.rowHeight := by
  have hcount := h.count
  have hover := h.overscan
  by_cases hzero : w.count = 0
  · have hempty : computeVirtualWindow w = ⟨0, 0, 0, 0, 0⟩ := if_pos hzero
    have htop : top w 0 = 0 := rfl
    rw [hempty]
    refine iff_of_true ⟨le_refl 0, le_refl 0, hcount, ?_, ?_, ?_⟩ (Or.inl hzero)
    · rw [hzero, htop]
      rfl
    · rw [hzero, htop]
    · intro i hi hlt
      omega
  · have hwindow : computeVirtualWindow w = _ := if_neg hzero
    rw [or_iff_right hzero, ← indexAt_le_iff h]
    obtain ⟨hfirst, -, -⟩ := indexAt_spec h h.scrollTop
    obtain ⟨hlast, -, -⟩ := indexAt_spec h (add_nonneg h.scrollTop h.viewportHeight)
    have hedges : indexAt w.scrollTop w.rowHeight (inRange w) ≤ indexAt (w.scrollTop + w.viewportHeight) w.rowHeight (inRange w) := by
      have hview := h.viewportHeight
      apply (le_indexAt_iff h (add_nonneg h.scrollTop h.viewportHeight) _).mpr
      have hfrom := (indexAt_spec h h.scrollTop).2.1
      omega
    have htotal : top w w.count = totalHeight w := (top_eq_offsetOf h hcount (le_refl _)).trans (totalHeight_eq w).symm
    constructor
    · intro hlaw
      have hordered := hlaw.ordered.trans hlaw.within
      rw [hwindow] at hordered
      dsimp only at hordered
      omega
    · intro hnear
      rw [hwindow]
      have hstart : max 0 (indexAt w.scrollTop w.rowHeight (inRange w) - w.overscan) ≤
          min w.count (indexAt (w.scrollTop + w.viewportHeight) w.rowHeight (inRange w) + 1 + w.overscan) := by omega
      refine ⟨le_max_left _ _, hstart, min_le_left _ _, ?_, htotal.symm, ?_⟩
      · -- the rows between the pads are what is between their offsets
        dsimp only
        have hend := offsetOf_mono h (min_le_left w.count (indexAt (w.scrollTop + w.viewportHeight) w.rowHeight (inRange w) + 1 + w.overscan))
        rw [heights_between h (le_max_left _ _) hstart (min_le_left _ _), htotal, totalHeight_eq w, max_eq_right (Int.sub_nonneg.mpr hend)]
        omega
      · intro i hi hlt hshown
        obtain ⟨hle, hge⟩ := shown_between h hi hlt hshown
        dsimp only
        omega

end

/-! ## A list that has become shorter -/

/-- Five rows of 29, in a viewport of twenty. -/
def shortList (scrollTop : ℤ) (extras : List WindowExtra) : VirtualWindowInput where
  count := 5
  rowHeight := 29
  viewportHeight := 580
  scrollTop := scrollTop
  extras := extras

theorem window_lawful_expanded : Lawful (shortList 40 [⟨1, 200⟩, ⟨99, 500⟩]) (computeVirtualWindow (shortList 40 [⟨1, 200⟩, ⟨99, 500⟩])) := by
  have hfits : Fits (shortList 40 [⟨1, 200⟩, ⟨99, 500⟩]) := ⟨by decide, by decide, by decide, by decide, by decide, by decide, by decide⟩
  exact (window_lawful_iff hfits).mpr (Or.inr (by decide +kernel))

/-- Where a list of a thousand rows was scrolled to its end. -/
theorem stale_scroll : computeVirtualWindow (shortList 28420 []) = ⟨960, 5, 27840, 0, 145⟩ ∧
    ¬Lawful (shortList 28420 []) (computeVirtualWindow (shortList 28420 [])) := by
  have hwindow : computeVirtualWindow (shortList 28420 []) = ⟨960, 5, 27840, 0, 145⟩ := by decide +kernel
  refine ⟨hwindow, fun hlaw => ?_⟩
  have hordered := hlaw.ordered
  rw [hwindow] at hordered
  exact absurd hordered (by decide)

end Upstat.VirtualWindows
