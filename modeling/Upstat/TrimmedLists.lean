import Mathlib.Data.List.DropRight

/-! # Lists that are split at a separator and trimmed -/
namespace Upstat.TrimmedLists

variable {α : Type*}

section
variable (p : α → Bool)

/-- A list without the elements of a kind at its ends. -/
def trim (s : List α) : List α := (s.dropWhile p).rdropWhile p

variable {p}

theorem trim_cons {c : α} (hc : p c = true) (s : List α) : trim p (c :: s) = trim p s := by
  rw [trim, List.dropWhile_cons_of_pos hc, trim]

theorem trim_concat {c : α} (hc : p c = true) (s : List α) : trim p (s ++ [c]) = trim p s := by
  rw [trim, trim, List.dropWhile_append]
  split_ifs with hall
  · rw [List.isEmpty_iff.mp hall]
    simp [hc]
  · exact List.rdropWhile_concat_pos _ _ _ hc

/-- Nothing is trimmed at an end that stays. -/
theorem trim_end {c : α} (hc : p c = false) (s : List α) : trim p (s ++ [c]) = s.dropWhile p ++ [c] := by
  rw [trim, List.dropWhile_append]
  split_ifs with hall
  · rw [List.isEmpty_iff.mp hall]
    simp [hc]
  · exact List.rdropWhile_concat_neg _ _ _ (by simp [hc])

theorem trim_append {s t : List α} (ht : ∀ c ∈ t, p c = true) : trim p (s ++ t) = trim p s := by
  induction t using List.reverseRecOn with
  | nil => rw [List.append_nil]
  | append_singleton t c ih =>
    rw [← List.append_assoc, trim_concat (ht c (by simp)), ih fun d hd => ht d (List.mem_append_left _ hd)]

/-- What stays keeps what is before it. -/
theorem rdropWhile_kept {c : α} (hc : p c = false) (s t : List α) : (s ++ c :: t).rdropWhile p = s ++ c :: t.rdropWhile p := by
  induction t using List.reverseRecOn with
  | nil => exact List.rdropWhile_concat_neg _ _ _ (by simp [hc])
  | append_singleton t d ih =>
    rw [← List.cons_append, ← List.append_assoc]
    cases hd : p d with
    | true => rw [List.rdropWhile_concat_pos _ _ _ hd, List.rdropWhile_concat_pos _ _ _ hd, ih]
    | false => rw [List.rdropWhile_concat_neg _ _ _ (by simp [hd]),
        List.rdropWhile_concat_neg _ _ _ (by simp [hd]), List.append_assoc, List.cons_append]

theorem dropWhile_head (s : List α) : ∀ c ∈ (s.dropWhile p).head?, p c = false := by
  intro c hc
  have hnot := List.head?_dropWhile_not p s
  rw [Option.mem_def.mp hc] at hnot
  simpa using hnot

/-- What is trimmed begins with no element of the kind. -/
theorem trim_head (s : List α) : ∀ c ∈ (trim p s).head?, p c = false := by
  intro c hc
  obtain ⟨t, ht⟩ := List.head?_eq_some_iff.mp (Option.mem_def.mp hc)
  obtain ⟨rest, hrest⟩ : trim p s <+: s.dropWhile p := List.rdropWhile_prefix p _
  apply dropWhile_head s
  rw [← hrest, ht]
  rfl

end

section
variable [BEq α] [LawfulBEq α] {sep : α}

theorem splitOn_cons {c : α} (hc : c ≠ sep) (s : List α) : (c :: s).splitOn sep = (s.splitOn sep).modifyHead (List.cons c) := by
  rw [List.splitOn_cons_eq_if_modifyHead, if_neg (by simpa using hc)]

/-- An element at the end is the last part's. -/
theorem splitOn_concat {c : α} (hc : c ≠ sep) (s : List α) :
    ∃ first last, s.splitOn sep = first ++ [last] ∧ (s ++ [c]).splitOn sep = first ++ [last ++ [c]] := by
  induction s with
  | nil => exact ⟨[], [], rfl, List.splitOn_eq_singleton (by simpa using Ne.symm hc)⟩
  | cons d s ih =>
    obtain ⟨first, last, hs, hs'⟩ := ih
    by_cases hd : d = sep
    · subst hd
      have hsplit (t : List α) : (d :: t).splitOn d = [] :: t.splitOn d := List.splitOn_append_cons_self [] t
      exact ⟨[] :: first, last, by rw [hsplit, hs]; rfl, by rw [List.cons_append, hsplit, hs']; rfl⟩
    · rw [List.cons_append, splitOn_cons hd, splitOn_cons hd, hs, hs']
      cases first with
      | nil => exact ⟨[], d :: last, rfl, rfl⟩
      | cons f first => exact ⟨(d :: f) :: first, last, rfl, rfl⟩

theorem notMem_of_mem_splitOn (s : List α) : ∀ l ∈ s.splitOn sep, sep ∉ l := by
  induction s with
  | nil => simp
  | cons c s ih =>
    by_cases hc : c = sep
    · subst hc
      have hsplit : (c :: s).splitOn c = [] :: s.splitOn c := List.splitOn_append_cons_self [] s
      rw [hsplit]
      exact List.forall_mem_cons.mpr ⟨List.not_mem_nil, ih⟩
    · rw [splitOn_cons hc]
      cases hsplit : s.splitOn sep with
      | nil => exact absurd hsplit (List.splitOn_ne_nil _ _)
      | cons first rest =>
        rw [hsplit] at ih
        obtain ⟨hfirst, hrest⟩ := List.forall_mem_cons.mp ih
        exact List.forall_mem_cons.mpr ⟨fun hmem => (List.mem_cons.mp hmem).elim (Ne.symm hc) hfirst, hrest⟩

/-- Parts without separators, each closed by one, and a last one. -/
theorem splitOn_closed {ls : List (List α)} (hls : ∀ l ∈ ls, sep ∉ l) (s : List α) :
    (ls.flatMap (· ++ [sep]) ++ s).splitOn sep = ls ++ s.splitOn sep := by
  induction ls with
  | nil => rfl
  | cons l ls ih =>
    obtain ⟨hl, hrest⟩ := List.forall_mem_cons.mp hls
    rw [List.flatMap_cons, List.append_assoc, List.append_assoc, List.singleton_append, List.splitOn_append_cons_self, ih hrest,
      List.splitOn_eq_singleton hl]
    rfl

/-- A list is its parts with a separator after all but the last. -/
theorem closed_splitOn {s last : List α} {first : List (List α)} (h : s.splitOn sep = first ++ [last]) :
    first.flatMap (· ++ [sep]) ++ last = s := by
  have hmem : ∀ l ∈ s.splitOn sep, sep ∉ l := notMem_of_mem_splitOn s
  rw [h] at hmem
  obtain ⟨hfirst, hlast⟩ := List.forall_mem_append.mp hmem
  have hsplit : (first.flatMap (· ++ [sep]) ++ last).splitOn sep = s.splitOn sep := by
    rw [splitOn_closed hfirst, List.splitOn_eq_singleton (hlast last (List.mem_singleton_self _)), h]
  have hjoin : [sep].intercalate (s.splitOn sep) = s := List.intercalate_splitOn sep
  rw [← hjoin, ← hsplit, List.intercalate_splitOn]

end

end Upstat.TrimmedLists
