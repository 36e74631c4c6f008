import Mathlib.Data.List.TakeWhile

/-! # Patterns that backtrack

A pattern has the ways in which it can take the front of a text, in the order in which it tries
them. The first way with which all that follows succeeds is the match. -/
namespace Upstat.BacktrackingPatterns

variable {α β : Type*}

/-- The ways: what is taken, and what is left. -/
abbrev Pattern (α : Type*) := List α → List (List α × List α)

/-- The word itself. -/
def word [DecidableEq α] (w : List α) : Pattern α := fun s => if w <+: s then [(w, s.drop w.length)] else []

/-- The first of the patterns is tried first. -/
def oneOf (ps : List (Pattern α)) : Pattern α := fun s => ps.flatMap (· s)

/-- One after the other. -/
def thenTake (p q : Pattern α) : Pattern α := fun s => (p s).flatMap fun w => (q w.2).map fun v => (w.1 ++ v.1, v.2)

/-- As many elements of a class as there are, and then fewer and fewer. -/
def star (p : α → Bool) : Pattern α := fun s => (List.range ((s.takeWhile p).length + 1)).reverse.map s.splitAt

/-- At least one element of a class. -/
def plus (p : α → Bool) : Pattern α := fun s => (star p s).filter (·.1 ≠ [])

/-- A pattern takes the front of a text. -/
def Takes (p : Pattern α) : Prop := ∀ s w, w ∈ p s → s = w.1 ++ w.2

theorem mem_word [DecidableEq α] {w s m r : List α} : (m, r) ∈ word w s ↔ m = w ∧ s = w ++ r := by
  unfold word
  split_ifs with hprefix
  · obtain ⟨t, rfl⟩ := hprefix
    rw [List.mem_singleton, List.drop_left, Prod.mk.injEq]
    exact and_congr_right fun _ => ⟨fun h => h ▸ rfl, fun h => (List.append_cancel_left h).symm⟩
  · simp only [List.not_mem_nil, false_iff]
    rintro ⟨-, rfl⟩
    exact hprefix (List.prefix_append _ _)

theorem mem_oneOf {ps : List (Pattern α)} {s : List α} {w : List α × List α} : w ∈ oneOf ps s ↔ ∃ p ∈ ps, w ∈ p s := List.mem_flatMap

theorem mem_thenTake {p q : Pattern α} {s : List α} {w : List α × List α} :
    w ∈ thenTake p q s ↔ ∃ u ∈ p s, ∃ v ∈ q u.2, w = (u.1 ++ v.1, v.2) := by
  simp only [thenTake, List.mem_flatMap, List.mem_map, eq_comm]

theorem take_all {p : α → Bool} {m r : List α} (hm : ∀ c ∈ m, p c = true) : m.length ≤ ((m ++ r).takeWhile p).length := by
  rw [List.takeWhile_append_of_pos hm, List.length_append]
  exact Nat.le_add_right _ _

theorem mem_star {p : α → Bool} {s m r : List α} : (m, r) ∈ star p s ↔ s = m ++ r ∧ ∀ c ∈ m, p c = true := by
  simp only [star, List.mem_map, List.mem_reverse, List.mem_range, List.splitAt_eq, Prod.mk.injEq]
  constructor
  · rintro ⟨n, hn, rfl, rfl⟩
    refine ⟨(List.take_append_drop n s).symm, fun c hc => ?_⟩
    have htaken : s.take n <+: s.takeWhile p :=
      List.prefix_of_prefix_length_le (List.take_prefix n s) (List.takeWhile_prefix p) (by
        rw [List.length_take]
        omega)
    exact List.mem_takeWhile_imp (htaken.subset hc)
  · rintro ⟨rfl, hm⟩
    exact ⟨m.length, Nat.lt_succ_of_le (take_all hm), List.take_left, List.drop_left⟩

theorem mem_plus {p : α → Bool} {s m r : List α} : (m, r) ∈ plus p s ↔ (s = m ++ r ∧ ∀ c ∈ m, p c = true) ∧ m ≠ [] := by
  rw [plus, List.mem_filter, mem_star, decide_eq_true_iff]

/-- What is tried first. -/
theorem star_head (p : α → Bool) (s : List α) : (star p s).head? = some (s.takeWhile p, s.dropWhile p) := by
  have htake : (s.takeWhile p ++ s.dropWhile p).take (s.takeWhile p).length = s.takeWhile p := List.take_left
  have hdrop : (s.takeWhile p ++ s.dropWhile p).drop (s.takeWhile p).length = s.dropWhile p := List.drop_left
  rw [List.takeWhile_append_dropWhile] at htake hdrop
  rw [star, List.range_succ, List.reverse_append, List.reverse_singleton, List.singleton_append, List.map_cons, List.head?_cons, List.splitAt_eq,
    htake, hdrop]

theorem plus_head {p : α → Bool} {s : List α} (h : s.takeWhile p ≠ []) : (plus p s).head? = some (s.takeWhile p, s.dropWhile p) := by
  obtain ⟨rest, hrest⟩ := List.head?_eq_some_iff.mp (star_head p s)
  rw [plus, hrest, List.filter_cons_of_pos (by simpa using h), List.head?_cons]

/-- A pattern that has no way is passed over. -/
theorem oneOf_skip {p : Pattern α} {s : List α} (h : p s = []) (ps : List (Pattern α)) : oneOf (p :: ps) s = oneOf ps s := by
  rw [oneOf, List.flatMap_cons, h, List.nil_append, oneOf]

theorem oneOf_head {p : Pattern α} {s : List α} {w : List α × List α} (h : (p s).head? = some w) (ps : List (Pattern α)) :
    (oneOf (p :: ps) s).head? = some w := by
  obtain ⟨rest, hrest⟩ := List.head?_eq_some_iff.mp h
  rw [oneOf, List.flatMap_cons, hrest]
  rfl

/-- The first of all ways is the first way onwards from the first, where there is one. -/
theorem head?_flatMap {xs : List α} {f : α → List β} {x : α} {y : β} (hx : xs.head? = some x) (hy : (f x).head? = some y) :
    (xs.flatMap f).head? = some y := by
  obtain ⟨rest, rfl⟩ := List.head?_eq_some_iff.mp hx
  obtain ⟨rest', hrest⟩ := List.head?_eq_some_iff.mp hy
  rw [List.flatMap_cons, hrest]
  rfl

end Upstat.BacktrackingPatterns
