import Mathlib.Data.List.Infix

/-! # Where a name with a mark after it occurs in a list

A list is gone through from the left, piece by piece. `Free` says of a piece that no
occurrence ends in it, given what stands before it, so that a list is searched by searching
its pieces. The name can be looked for where the mark is, as it does not have the mark in it. -/
namespace Upstat.Occurrences

variable {α : Type*} {name : List α} {mark : α} {left s t : List α}

/-- No mark of the piece has the name right before it, `left` being what precedes the piece. -/
def Free (name : List α) (mark : α) (left s : List α) : Prop :=
  ∀ l₁ l₂, s = l₁ ++ mark :: l₂ → ¬name <:+ left ++ l₁

theorem free_of_notMem (h : mark ∉ s) : Free name mark left s := by
  intro l₁ l₂ hs
  exact absurd (by rw [hs]; simp) h

theorem free_mark : Free name mark left [mark] ↔ ¬name <:+ left := by
  constructor
  · intro h
    simpa using h [] [] rfl
  · intro h l₁ l₂ hs
    cases l₁ with
    | nil => rwa [List.append_nil]
    | cons c l₁ => simp at hs

theorem free_append : Free name mark left (s ++ t) ↔ Free name mark left s ∧ Free name mark (left ++ s) t := by
  constructor
  · intro h
    constructor
    · intro l₁ l₂ hs
      exact h l₁ (l₂ ++ t) (by rw [hs, List.append_assoc, List.cons_append])
    · intro l₁ l₂ ht
      rw [List.append_assoc]
      exact h (s ++ l₁) l₂ (by rw [ht, List.append_assoc])
  · intro ⟨hs, ht⟩ l₁ l₂ he
    rcases List.append_eq_append_iff.mp he with ⟨a, hl, hrest⟩ | ⟨c, hs', hrest⟩
    · rw [hl, ← List.append_assoc]
      exact ht a l₂ hrest
    · cases c with
      | nil =>
        rw [List.append_nil] at hs'
        have hfree := ht [] l₂ hrest.symm
        rwa [List.append_nil, hs'] at hfree
      | cons d c =>
        obtain ⟨rfl, -⟩ := List.cons.inj hrest
        exact hs l₁ c hs'

theorem free_append_of_notMem (h : mark ∉ s) : Free name mark left (s ++ t) ↔ Free name mark (left ++ s) t := by
  rw [free_append]
  exact and_iff_right (free_of_notMem h)

/-- A mark of two pieces is in the second when the first has none. -/
theorem split_after {l₁ l₂ : List α} (hs : mark ∉ s) (h : s ++ t = l₁ ++ mark :: l₂) :
    ∃ l, l₁ = s ++ l ∧ t = l ++ mark :: l₂ := by
  rcases List.append_eq_append_iff.mp h with ⟨a, hl, ht⟩ | ⟨c, hs', hc⟩
  · exact ⟨a, hl, ht⟩
  · cases c with
    | nil => exact ⟨[], by rw [hs', List.append_nil, List.append_nil], hc.symm⟩
    | cons d c =>
      obtain ⟨rfl, -⟩ := List.cons.inj hc
      exact absurd (by rw [hs']; simp) hs

/-- A name whose elements all satisfy `p` does not reach past one that does not. -/
theorem suffix_of_append {p : α → Prop} (hname : ∀ c ∈ name, p c) (hleft : ∀ c ∈ left.getLast?, ¬p c)
    (h : name <:+ left ++ s) : name <:+ s := by
  rcases List.suffix_or_suffix_of_suffix h (List.suffix_append left s) with hshort | ⟨x, hx⟩
  · exact hshort
  · have hxl : x <:+ left := by
      obtain ⟨y, hy⟩ := h
      rw [← hx, ← List.append_assoc] at hy
      exact ⟨y, List.append_cancel_right hy⟩
    cases hlast : x.getLast? with
    | none =>
      rw [List.getLast?_eq_none_iff.mp hlast, List.nil_append] at hx
      exact hx ▸ List.suffix_rfl
    | some c =>
      have hc : c ∈ x := List.mem_of_getLast? hlast
      have hleft' : c ∈ left.getLast? := by
        obtain ⟨y, rfl⟩ := hxl
        rw [List.getLast?_append, hlast]
        rfl
      exact absurd (hname c (hx ▸ List.mem_append_left s hc)) (hleft c hleft')

/-- Of two names before one mark, each has the mark right after it. -/
theorem mark_mem_of_lt {c rest post : List α} (h : name ++ mark :: post = c ++ mark :: rest)
    (hlt : c.length < name.length) : mark ∈ name := by
  rcases List.append_eq_append_iff.mp h with ⟨a, hc, -⟩ | ⟨a, hname, ha⟩
  · have hlen := congrArg List.length hc
    rw [List.length_append] at hlen
    omega
  · cases a with
    | nil =>
      have hlen := congrArg List.length hname
      simp only [List.append_nil] at hlen
      omega
    | cons d a =>
      obtain ⟨rfl, -⟩ := List.cons.inj ha
      rw [hname]
      simp

/-- The occurrence after `pre` is the first one when no occurrence ends in `pre`. -/
theorem first_iff_free {pre post : List α} (hmark : mark ∉ name) :
    (∀ i < pre.length, ¬(name ++ [mark]) <+: (pre ++ (name ++ mark :: post)).drop i) ↔ Free name mark [] pre := by
  constructor
  · intro h l₁ l₂ hpre ⟨x, hx⟩
    rw [List.nil_append] at hx
    subst hx
    have hlength : x.length < pre.length := by
      have hsum := congrArg List.length hpre
      simp only [List.length_append, List.length_cons] at hsum
      omega
    refine h x.length hlength ⟨l₂ ++ (name ++ mark :: post), ?_⟩
    rw [hpre]
    simp
  · intro h i hi ⟨rest, hrest⟩
    have hwhole : pre ++ (name ++ mark :: post) = ((pre ++ (name ++ mark :: post)).take i ++ name) ++ mark :: rest := by
      rw [List.append_assoc]
      conv_lhs => rw [← List.take_append_drop i (pre ++ (name ++ mark :: post)), ← hrest]
      simp
    have hlen : ((pre ++ (name ++ mark :: post)).take i).length = i := by
      rw [List.length_take, List.length_append]
      omega
    generalize (pre ++ (name ++ mark :: post)).take i = x at hwhole hlen
    rcases List.append_eq_append_iff.mp hwhole with ⟨c, hx, hc⟩ | ⟨a, hpre, ha⟩
    · -- The mark would stand in the name of the later occurrence.
      refine hmark (mark_mem_of_lt (c := c) hc ?_)
      have hxlen := congrArg List.length hx
      simp only [List.length_append] at hxlen
      omega
    · cases a with
      | nil =>
        rw [List.nil_append] at ha
        rw [List.append_nil] at hpre
        cases name with
        | nil =>
          have hxlen := congrArg List.length hpre
          simp only [List.append_nil] at hxlen
          omega
        | cons d name =>
          obtain ⟨rfl, -⟩ := List.cons.inj ha
          exact hmark List.mem_cons_self
      | cons d a =>
        obtain ⟨rfl, -⟩ := List.cons.inj ha
        refine h (x ++ name) a hpre ?_
        rw [List.nil_append]
        exact List.suffix_append x name

end Upstat.Occurrences
