import Mathlib.Data.List.DropRight

/-! # Texts and their words

The words of a text are what is between its blanks, and texts are joined with a separator between them. -/
namespace Upstat.WordTexts

variable {α : Type} {p : α → Bool}

def nonempty (parts : List (List α)) : List (List α) := parts.filter fun part => !part.isEmpty

def join (separator : List α) (parts : List (List α)) : List α := separator.intercalate parts

/-- The words of a text whose blanks are these. -/
def words (p : α → Bool) (s : List α) : List (List α) := nonempty (s.splitOnP p)

/-! ## Words -/

@[simp] theorem words_nil : words p [] = [] := rfl

theorem words_append_blank (s : List α) {c : α} (hc : p c = true) (r : List α) : words p (s ++ c :: r) = words p s ++ words p r := by
  rw [words, List.splitOnP_append_cons s r hc, nonempty, List.filter_append]
  rfl

theorem words_cons_blank {c : α} (hc : p c = true) (r : List α) : words p (c :: r) = words p r := words_append_blank [] hc r

/-- A text ends here, or a blank follows. -/
def Parted (p : α → Bool) (s : List α) : Prop := ∀ c ∈ s.head?, p c = true

theorem words_append {s r : List α} (hr : Parted p r) : words p (s ++ r) = words p s ++ words p r := by
  cases r with
  | nil => rw [List.append_nil, words_nil, List.append_nil]
  | cons c r =>
    have hc : p c = true := hr c rfl
    rw [words_append_blank s hc, words_cons_blank hc]

theorem words_of_plain {w : List α} (hne : w ≠ []) (hw : ∀ c ∈ w, p c = false) : words p w = [w] := by
  rw [words, List.splitOnP_eq_singleton hw]
  simp [nonempty, hne]

/-- A word is not empty and has no blank. -/
structure IsWord (p : α → Bool) (w : List α) : Prop where
  ne_nil : w ≠ []
  plain : ∀ c ∈ w, p c = false

theorem isWord_of_mem {s w : List α} (h : w ∈ words p s) : IsWord p w := by
  induction hn : s.length using Nat.strongRecOn generalizing s with
  | ind n ih =>
    by_cases hs : ∀ c ∈ s, p c = false
    · by_cases hnil : s = []
      · rw [hnil] at h
        cases h
      · rw [words_of_plain hnil hs] at h
        rw [List.mem_singleton.mp h]
        exact ⟨hnil, hs⟩
    · push Not at hs
      obtain ⟨c, hc, hblank⟩ := hs
      obtain ⟨a, b, rfl⟩ := List.append_of_mem hc
      rw [words_append_blank a (by simpa using hblank), List.mem_append] at h
      rw [List.length_append, List.length_cons] at hn
      rcases h with h | h
      · exact ih a.length (by omega) h rfl
      · exact ih b.length (by omega) h rfl

/-! ## Texts without blanks at their ends -/

/-- A text that is not empty and has no blank at its ends. -/
structure Solid (p : α → Bool) (s : List α) : Prop where
  ne_nil : s ≠ []
  head : ∀ c ∈ s.head?, p c = false
  last : ∀ c ∈ s.getLast?, p c = false

theorem IsWord.solid {w : List α} (h : IsWord p w) : Solid p w :=
  ⟨h.ne_nil, fun c hc => h.plain c (List.mem_of_mem_head? hc), fun c hc => h.plain c (List.mem_of_mem_getLast? hc)⟩

/-- Nothing is trimmed from it. -/
theorem Solid.trim {s : List α} (h : Solid p s) : (s.dropWhile p).rdropWhile p = s := by
  obtain ⟨c, t, rfl⟩ := List.exists_cons_of_ne_nil h.ne_nil
  have hc : p c = false := h.head c rfl
  rw [List.dropWhile_cons_of_neg (by simp [hc]), List.rdropWhile_eq_self_iff]
  intro hne
  have hlast := h.last _ (List.getLast?_eq_some_getLast hne)
  simpa using hlast

/-! ## Texts put together -/

variable {b : List α}

@[simp] theorem join_nil : join b [] = [] := rfl

@[simp] theorem join_singleton (x : List α) : join b [x] = x := List.intercalate_singleton

theorem join_cons {x : List α} {xs : List (List α)} (h : xs ≠ []) : join b (x :: xs) = x ++ (b ++ join b xs) := by
  rw [join, List.intercalate_cons_of_ne_nil h, List.append_assoc]
  rfl

theorem join_append {xs ys : List (List α)} (hx : xs ≠ []) (hy : ys ≠ []) : join b (xs ++ ys) = join b xs ++ (b ++ join b ys) := by
  induction xs with
  | nil => exact absurd rfl hx
  | cons x xs ih =>
    by_cases hxs : xs = []
    · rw [hxs, join_singleton, List.singleton_append, join_cons hy]
    · have hne : xs ++ ys ≠ [] := by simp [hxs]
      rw [List.cons_append, join_cons hne, ih hxs, join_cons hxs, List.append_assoc, List.append_assoc]

theorem join_solid {xs : List (List α)} (hne : xs ≠ []) (h : ∀ x ∈ xs, Solid p x) : Solid p (join b xs) := by
  induction xs with
  | nil => exact absurd rfl hne
  | cons x xs ih =>
    have hx := h x List.mem_cons_self
    by_cases hxs : xs = []
    · rw [hxs, join_singleton]
      exact hx
    · have hrest := ih hxs fun y hy => h y (List.mem_cons_of_mem x hy)
      have hne' : b ++ join b xs ≠ [] := by
        intro hnil
        exact hrest.ne_nil (List.append_eq_nil_iff.mp hnil).2
      rw [join_cons hxs]
      refine ⟨?_, ?_, ?_⟩
      · intro hnil
        exact hx.ne_nil (List.append_eq_nil_iff.mp hnil).1
      · intro c hc
        rw [List.head?_append_of_ne_nil _ hx.ne_nil] at hc
        exact hx.head c hc
      · intro c hc
        rw [List.getLast?_append_of_ne_nil _ hne', List.getLast?_append_of_ne_nil _ hrest.ne_nil] at hc
        exact hrest.last c hc

theorem join_trim {xs : List (List α)} (h : ∀ x ∈ xs, Solid p x) : ((join b xs).dropWhile p).rdropWhile p = join b xs := by
  by_cases hxs : xs = []
  · rw [hxs]
    rfl
  · exact (join_solid hxs h).trim

/-- Two parts, each of which may be empty, with the separator between those that are not. -/
theorem join_nonempty {xs ys : List (List α)} (hx : ∀ x ∈ xs, Solid p x) (hy : ∀ y ∈ ys, Solid p y) :
    join b (nonempty [join b xs, join b ys]) = join b (xs ++ ys) := by
  by_cases hxs : xs = []
  · by_cases hys : ys = []
    · rw [hxs, hys]
      rfl
    · have hne := (join_solid (b := b) hys hy).ne_nil
      simp [hxs, nonempty, hne]
  · have hxne := (join_solid (b := b) hxs hx).ne_nil
    by_cases hys : ys = []
    · simp [hys, nonempty, hxne]
    · have hyne := (join_solid (b := b) hys hy).ne_nil
      have hkept : nonempty [join b xs, join b ys] = [join b xs, join b ys] := by simp [nonempty, hxne, hyne]
      rw [hkept, join_cons (by simp), join_singleton, join_append hxs hys]

end Upstat.WordTexts
