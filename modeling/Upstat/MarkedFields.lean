import Mathlib.Logic.Relation

/-! # Fields that are spelled after their marks

A text of fields, each after its mark, does not always tell the fields: what stands before
or after a mark inside a field may as well be another field's. Nothing else is lost. -/
namespace Upstat.MarkedFields

variable {α : Type*}

/-- The fields in a row, each after its mark. -/
def spell : List (List α) → List (List α) → List α
  | k :: ks, v :: vs => k ++ v ++ spell ks vs
  | _, _ => []

/-- A mark whose first letter does not come in it again. -/
def IsMark : List α → Prop
  | [] => False
  | c :: s => c ∉ s

/-- One field gives what it has after the next field's mark to that field. -/
inductive Shift : List (List α) → List (List α) → List (List α) → Prop where
  | here (m k : List α) (ks : List (List α)) (v x w : List α) (vs : List (List α)) :
    Shift (m :: k :: ks) ((v ++ k ++ x) :: w :: vs) (v :: (x ++ k ++ w) :: vs)
  | there (k v : List α) {ks vs vs' : List (List α)} (h : Shift ks vs vs') : Shift (k :: ks) (v :: vs) (v :: vs')

theorem Shift.spell_eq {ks vs vs' : List (List α)} (h : Shift ks vs vs') : spell ks vs = spell ks vs' := by
  induction h with
  | here m k ks v x w vs => simp [spell]
  | there k v h ih => rw [spell, spell, ih]

/-- Fields that shifts make of each other. -/
abbrev Alike (ks : List (List α)) : List (List α) → List (List α) → Prop := Relation.EqvGen (Shift ks)

theorem Alike.spell_eq {ks vs vs' : List (List α)} (h : Alike ks vs vs') : spell ks vs = spell ks vs' := by
  induction h with
  | rel _ _ h => exact h.spell_eq
  | refl => rfl
  | symm _ _ _ ih => exact ih.symm
  | trans _ _ _ _ _ ih ih' => exact ih.trans ih'

theorem Alike.cons {ks vs vs' : List (List α)} (k v : List α) (h : Alike ks vs vs') :
    Alike (k :: ks) (v :: vs) (v :: vs') := by
  induction h with
  | rel _ _ h => exact .rel _ _ (h.there k v)
  | refl => exact .refl _
  | symm _ _ _ ih => exact .symm _ _ ih
  | trans _ _ _ _ _ ih ih' => exact .trans _ _ _ ih ih'

/-- What a text has before a mark, when the text begins with the mark, has the whole mark in it. -/
theorem mark_append {k x s t : List α} (hk : IsMark k) (h : k ++ s = x ++ (k ++ t)) : x = [] ∨ ∃ y, x = k ++ y := by
  rcases List.append_eq_append_iff.mp h with ⟨y, hx, -⟩ | ⟨y, hkx, hrest⟩
  · exact .inr ⟨y, hx⟩
  · cases k with
    | nil => exact absurd hk id
    | cons c k =>
      cases y with
      | nil => exact .inr ⟨[], by simpa using hkx.symm⟩
      | cons d y =>
        -- The mark would begin again inside itself.
        obtain ⟨rfl, -⟩ := List.cons.inj hrest
        cases x with
        | nil => exact .inl rfl
        | cons e x =>
          obtain ⟨-, rfl⟩ := List.cons.inj hkx
          simp [IsMark] at hk

/-- A field that goes on where the other ends shifts to it what it has more. -/
theorem alike_of_longer {m k v x w w' : List α} {ks vs vs' : List (List α)} (hk : IsMark k)
    (ih : ∀ u us, us.length = ks.length → spell (k :: ks) (w :: vs) = spell (k :: ks) (u :: us) →
      Alike (k :: ks) (w :: vs) (u :: us))
    (hlen : vs'.length = ks.length) (h : spell (k :: ks) (w :: vs) = x ++ spell (k :: ks) (w' :: vs')) :
    Alike (m :: k :: ks) (v :: w :: vs) ((v ++ x) :: w' :: vs') := by
  rw [spell, spell, List.append_assoc, List.append_assoc] at h
  obtain rfl | ⟨y, rfl⟩ := mark_append hk h
  · rw [List.append_nil]
    refine (ih w' vs' hlen ?_).cons m v
    rw [spell, spell, List.append_assoc, List.append_assoc]
    exact h
  · have hshift := Shift.here m k ks v y w' vs'
    rw [List.append_assoc] at hshift
    refine .trans _ _ _ ((ih (y ++ k ++ w') vs' hlen ?_).cons m v) (.symm _ _ (.rel _ _ hshift))
    rw [spell, spell, List.append_assoc, h]
    simp

/-- Fields are spelled alike if and only if shifts make them of each other. -/
theorem alike_of_spell_eq {ks : List (List α)} (hks : ∀ k ∈ ks.tail, IsMark k) {vs vs' : List (List α)}
    (hlen : vs.length = ks.length) (hlen' : vs'.length = ks.length) (h : spell ks vs = spell ks vs') :
    Alike ks vs vs' := by
  induction ks generalizing vs vs' with
  | nil =>
    rw [List.length_eq_zero_iff.mp hlen, List.length_eq_zero_iff.mp hlen']
    exact .refl _
  | cons m ks ih =>
    obtain ⟨v, vs, rfl⟩ := List.exists_cons_of_length_eq_add_one hlen
    obtain ⟨v', vs', rfl⟩ := List.exists_cons_of_length_eq_add_one hlen'
    rw [List.length_cons, List.length_cons, Nat.add_right_cancel_iff] at hlen hlen'
    rw [spell, spell, List.append_assoc, List.append_assoc, List.append_cancel_left_eq] at h
    cases ks with
    | nil =>
      obtain rfl := List.length_eq_zero_iff.mp hlen
      obtain rfl := List.length_eq_zero_iff.mp hlen'
      simp only [spell, List.append_nil] at h
      rw [h]
      exact .refl _
    | cons k ks =>
      obtain ⟨w, vs, rfl⟩ := List.exists_cons_of_length_eq_add_one hlen
      obtain ⟨w', vs', rfl⟩ := List.exists_cons_of_length_eq_add_one hlen'
      have hk : IsMark k := hks k (by simp)
      have ih' : ∀ {us us' : List (List α)}, us.length = (k :: ks).length → us'.length = (k :: ks).length →
          spell (k :: ks) us = spell (k :: ks) us' → Alike (k :: ks) us us' :=
        fun hus hus' => ih (fun l hl => hks l (by simp only [List.tail_cons] at hl ⊢; exact List.mem_cons_of_mem _ hl)) hus hus'
      rcases List.append_eq_append_iff.mp h with ⟨x, rfl, hx⟩ | ⟨x, rfl, hx⟩
      · exact alike_of_longer hk (fun u us hus => ih' hlen (by simpa using hus)) (by simpa using hlen') hx
      · exact .symm _ _ (alike_of_longer hk (fun u us hus => ih' hlen' (by simpa using hus)) (by simpa using hlen) hx)

theorem spell_eq_iff {ks : List (List α)} (hks : ∀ k ∈ ks.tail, IsMark k) {vs vs' : List (List α)}
    (hlen : vs.length = ks.length) (hlen' : vs'.length = ks.length) : spell ks vs = spell ks vs' ↔ Alike ks vs vs' :=
  ⟨alike_of_spell_eq hks hlen hlen', Alike.spell_eq⟩

end Upstat.MarkedFields
