import Mathlib.Data.List.Basic
import Mathlib.Order.Basic
import Mathlib.Order.Nat

/-! # Sorting with ties

A list is sorted by a comparator under which different entries may be equal. The sorted lists
of the same entries differ only between such entries, so what is shown of the first few is
the same in every order exactly when it does not tell them apart. -/
namespace Upstat.TiedSorts

open scoped List

variable {α β : Type*} {le : α → α → Bool} {n : ℕ}

/-- The comparator is reflexive by totality, and transitive. -/
structure Preorders (le : α → α → Bool) : Prop where
  trans : ∀ a b c, le a b = true → le b c = true → le a c = true
  total : ∀ a b, (le a b || le b a) = true

theorem Preorders.refl (h : Preorders le) (a : α) : le a a = true := by
  have := h.total a a
  rwa [Bool.or_self] at this

/-- Of two entries one stands before the other. -/
theorem Preorders.of_not (h : Preorders le) {a b : α} (hab : ¬le a b = true) : le b a = true := by
  have := h.total a b
  rw [Bool.or_eq_true] at this
  exact this.resolve_left hab

/-- How many entries stand strictly before `a`. -/
def ahead (le : α → α → Bool) (l : List α) (a : α) : ℕ := l.countP fun b => !le a b

theorem ahead_perm {l l' : List α} (h : l.Perm l') (a : α) : ahead le l a = ahead le l' a := h.countP_eq _

theorem ahead_le {l : List α} (hl : l.Pairwise fun a b => le a b = true) (h : Preorders le) {i : ℕ} (hi : i < l.length) :
    ahead le l l[i] ≤ i := by
  have hrest : (l.drop i).countP (fun b => !le l[i] b) = 0 := by
    rw [List.countP_eq_zero]
    intro b hb
    obtain ⟨j, hj, rfl⟩ := List.getElem_of_mem hb
    rw [List.length_drop] at hj
    rw [List.getElem_drop]
    have hle : le l[i] l[i + j] = true := by
      rcases Nat.eq_zero_or_pos j with rfl | hpos
      · exact h.refl _
      · exact List.pairwise_iff_getElem.mp hl i (i + j) hi _ (by omega)
    simp [hle]
  have hfirst : (l.take i).countP (fun b => !le l[i] b) ≤ i :=
    List.countP_le_length.trans (List.length_take_le i l)
  have hsplit : ahead le l l[i] = (l.take i).countP (fun b => !le l[i] b) + (l.drop i).countP (fun b => !le l[i] b) := by
    rw [← List.countP_append, List.take_append_drop]
    rfl
  omega

/-- An entry stands behind all that are sorted up to one strictly before it. -/
theorem lt_ahead {l : List α} (hl : l.Pairwise fun a b => le a b = true) (h : Preorders le) {i : ℕ} (hi : i < l.length)
    {a : α} (ha : ¬le a l[i] = true) : i < ahead le l a := by
  have hall : ∀ b ∈ l.take (i + 1), (!le a b) = true := by
    intro b hb
    obtain ⟨j, hj, rfl⟩ := List.getElem_of_mem hb
    rw [List.length_take] at hj
    rw [List.getElem_take]
    have hle : le l[j] l[i] = true := by
      rcases Nat.lt_or_ge j i with hlt | hge
      · exact List.pairwise_iff_getElem.mp hl j i _ hi hlt
      · have heq : j = i := by omega
        subst heq
        exact h.refl _
    rw [Bool.not_eq_true', Bool.eq_false_iff]
    exact fun hab => ha (h.trans _ _ _ hab hle)
  have hcount : (l.take (i + 1)).countP (fun b => !le a b) = i + 1 := by
    rw [List.countP_eq_length.mpr hall, List.length_take]
    omega
  have hsublist := (List.take_sublist (i + 1) l).countP_le (p := fun b => !le a b)
  rw [hcount] at hsublist
  exact hsublist

/-- Two sorted lists of the same entries have entries that tie at each position. -/
theorem ties {l l' : List α} (hperm : l.Perm l') (hl : l.Pairwise fun a b => le a b = true)
    (hl' : l'.Pairwise fun a b => le a b = true) (h : Preorders le) {i : ℕ} (hi : i < l.length) (hi' : i < l'.length) :
    le l[i] l'[i] = true := by
  by_contra hnot
  have hbehind := lt_ahead hl' h hi' hnot
  rw [← ahead_perm hperm] at hbehind
  have := ahead_le hl h hi
  omega

/-- The entries sorted so that `a` comes first among those it ties with. -/
def placed (le : α → α → Bool) [DecidableEq α] (l : List α) (a : α) : List α :=
  ((l.erase a).filter fun b => !le a b).mergeSort le ++ a :: ((l.erase a).filter (le a)).mergeSort le

section Placed
variable [DecidableEq α] {l : List α} {a : α}

theorem placed_perm (ha : a ∈ l) : (placed le l a).Perm l := by
  have hsplit : (((l.erase a).filter fun b => !le a b) ++ (l.erase a).filter (le a)).Perm (l.erase a) :=
    List.perm_append_comm.trans (List.filter_append_perm (le a) (l.erase a))
  calc placed le l a
    _ ~ ((l.erase a).filter fun b => !le a b) ++ a :: (l.erase a).filter (le a) :=
      (List.mergeSort_perm _ _).append ((List.mergeSort_perm _ _).cons a)
    _ ~ a :: (((l.erase a).filter fun b => !le a b) ++ (l.erase a).filter (le a)) := List.perm_middle
    _ ~ a :: l.erase a := hsplit.cons a
    _ ~ l := (List.perm_cons_erase ha).symm

theorem placed_sorted (h : Preorders le) : (placed le l a).Pairwise fun x y => le x y = true := by
  have hbefore : ∀ x ∈ ((l.erase a).filter fun b => !le a b).mergeSort le, le x a = true := by
    intro x hx
    rw [List.mem_mergeSort, List.mem_filter, Bool.not_eq_true', Bool.eq_false_iff] at hx
    exact h.of_not hx.2
  have hafter : ∀ y ∈ ((l.erase a).filter (le a)).mergeSort le, le a y = true := by
    intro y hy
    rw [List.mem_mergeSort, List.mem_filter] at hy
    exact hy.2
  refine List.pairwise_append.mpr ⟨List.pairwise_mergeSort h.trans h.total _,
    List.pairwise_cons.mpr ⟨hafter, List.pairwise_mergeSort h.trans h.total _⟩, fun x hx y hy => ?_⟩
  rcases List.mem_cons.mp hy with rfl | hy
  · exact hbefore x hx
  · exact h.trans _ _ _ (hbefore x hx) (hafter y hy)

theorem getElem?_placed (h : Preorders le) (ha : a ∈ l) : (placed le l a)[ahead le l a]? = some a := by
  have hlength : (((l.erase a).filter fun b => !le a b).mergeSort le).length = ahead le l a := by
    rw [List.length_mergeSort, ← List.countP_eq_length_filter, ahead_perm (List.perm_cons_erase ha), ahead,
      List.countP_cons_of_neg (by simp [h.refl])]
  rw [placed, List.getElem?_append_right hlength.le, hlength, Nat.sub_self, List.getElem?_cons_zero]

end Placed

/-- What is shown of the first `n` is the same whatever order the entries come in, if and only
if it is the same for entries that tie, of which fewer than `n` stand before. -/
theorem order_free_iff [DecidableEq α] (h : Preorders le) (l : List α) (shown : α → β) :
    (∀ l₁ l₂ : List α, l₁.Perm l → l₂.Perm l →
      ((l₁.mergeSort le).take n).map shown = ((l₂.mergeSort le).take n).map shown) ↔
    ∀ a ∈ l, ∀ b ∈ l, le a b = true → le b a = true → ahead le l a < n → shown a = shown b := by
  constructor
  · intro hfree a ha b hb hab hba hahead
    have hsame := hfree (placed le l a) (placed le l b) (placed_perm ha) (placed_perm hb)
    rw [List.mergeSort_of_pairwise (placed_sorted h), List.mergeSort_of_pairwise (placed_sorted h)] at hsame
    have heq : ahead le l b = ahead le l a := by
      apply List.countP_congr
      intro c _
      have hiff : le b c = le a c := Bool.eq_iff_iff.mpr ⟨h.trans _ _ _ hab, h.trans _ _ _ hba⟩
      rw [hiff]
    have hat := congrArg (fun s => s[ahead le l a]?) hsame
    simp only [List.getElem?_map, List.getElem?_take, if_pos hahead] at hat
    rw [getElem?_placed h ha, ← heq, getElem?_placed h hb] at hat
    simpa using hat
  · intro htie l₁ l₂ h₁ h₂
    have hperm₁ := (List.mergeSort_perm l₁ le).trans h₁
    have hperm₂ := (List.mergeSort_perm l₂ le).trans h₂
    have hsorted₁ := List.pairwise_mergeSort h.trans h.total l₁
    have hsorted₂ := List.pairwise_mergeSort h.trans h.total l₂
    have hlength : (l₁.mergeSort le).length = (l₂.mergeSort le).length := (hperm₁.trans hperm₂.symm).length_eq
    apply List.ext_getElem
    · simp [hlength]
    · intro i hi hi'
      simp only [List.length_map, List.length_take, Nat.lt_min] at hi hi'
      rw [List.getElem_map, List.getElem_map, List.getElem_take, List.getElem_take]
      apply htie _ (hperm₁.mem_iff.mp (List.getElem_mem _)) _ (hperm₂.mem_iff.mp (List.getElem_mem _))
      · exact ties (hperm₁.trans hperm₂.symm) hsorted₁ hsorted₂ h hi.2 hi'.2
      · exact ties (hperm₂.trans hperm₁.symm) hsorted₂ hsorted₁ h hi'.2 hi.2
      · rw [← ahead_perm hperm₁]
        exact (ahead_le hsorted₁ h hi.2).trans_lt hi.1

end Upstat.TiedSorts
