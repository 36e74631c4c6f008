import Mathlib.Data.Finset.Card

/-! # How many elements meet a condition

What becomes of the count when the condition changes at one element. -/
namespace Upstat.FilteredCounts

variable {K : Type*} [DecidableEq K] {s : Finset K} {k : K} {p q : K → Bool}

/-- A new element counts if it meets the condition. -/
theorem card_filter_insert (hk : k ∉ s) (h : ∀ l ∈ s, q l = p l) :
    ((insert k s).filter fun l => q l = true).card = (s.filter fun l => p l = true).card + (q k).toNat := by
  have hrest : (s.filter fun l => q l = true) = s.filter fun l => p l = true := Finset.filter_congr fun l hl => by rw [h l hl]
  rw [Finset.filter_insert, hrest]
  cases hq : q k with
  | false => rw [if_neg (by simp)]; rfl
  | true =>
    rw [if_pos rfl, Finset.card_insert_of_notMem fun hmem => hk (Finset.mem_filter.mp hmem).1]
    rfl

/-- The condition changes at one of the elements. -/
theorem card_filter_change (hk : k ∈ s) (h : ∀ l ∈ s, l ≠ k → q l = p l) :
    (s.filter fun l => q l = true).card + (p k).toNat = (s.filter fun l => p l = true).card + (q k).toNat := by
  have hrest : ∀ l ∈ s.erase k, q l = p l := fun l hl => h l (Finset.mem_of_mem_erase hl) (Finset.ne_of_mem_erase hl)
  have hq := card_filter_insert (Finset.notMem_erase k s) hrest
  have hp := card_filter_insert (Finset.notMem_erase k s) fun l (_ : l ∈ s.erase k) => (rfl : p l = p l)
  rw [Finset.insert_erase hk] at hq hp
  omega

end Upstat.FilteredCounts
