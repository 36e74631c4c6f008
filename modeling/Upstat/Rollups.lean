import Mathlib.Data.List.Sort
import Upstat.LabelClasses

/-! # Rollups

A table of counts and of sets, one row for each key of a block of events that is inserted. Rows of one key are merged at any
time, and what is asked of the table is what is asked of the events. -/
namespace Upstat.Rollups

open LabelClasses

variable {ε κ υ β : Type}

structure Row (κ υ : Type) where
  key : κ
  events : ℕ
  uniques : Finset υ

/-- `sum(events)` -/
def total (t : List (Row κ υ)) : ℕ := (t.map Row.events).sum

theorem total_append (s t : List (Row κ υ)) : total (s ++ t) = total s + total t := by
  rw [total, List.map_append, List.sum_append, total, total]

theorem total_perm {s t : List (Row κ υ)} (h : s.Perm t) : total s = total t := (h.map Row.events).sum_eq

theorem total_flatten (T : List (List (Row κ υ))) : total T.flatten = (T.map total).sum := by
  induction T with
  | nil => rfl
  | cons t T ih => rw [List.flatten_cons, total_append, ih, List.map_cons, List.sum_cons]

section
variable [DecidableEq υ]

/-- The set that `uniqExactMerge(uniques)` counts. -/
def merged (t : List (Row κ υ)) : Finset υ := t.foldr (fun r s => r.uniques ∪ s) ∅

theorem mem_merged {t : List (Row κ υ)} {v : υ} : v ∈ merged t ↔ ∃ r ∈ t, v ∈ r.uniques := by
  induction t with
  | nil => simp [merged]
  | cons r t ih =>
    have hcons : merged (r :: t) = r.uniques ∪ merged t := rfl
    rw [hcons, Finset.mem_union, ih, List.exists_mem_cons_iff]

def Row.merge (r s : Row κ υ) : Row κ υ := ⟨r.key, r.events + s.events, r.uniques ∪ s.uniques⟩

variable [DecidableEq κ] (key : ε → κ) (visitor : ε → Option υ)

/-- Who is seen in a list of events. -/
def visitors (es : List ε) : Finset υ := (es.filterMap visitor).toFinset

variable {visitor} in
theorem mem_visitors {es : List ε} {v : υ} : v ∈ visitors visitor es ↔ ∃ e ∈ es, visitor e = some v := by
  rw [visitors, List.mem_toFinset, List.mem_filterMap]

/-- The rows that are inserted with a block. -/
def view (block : List ε) : List (Row κ υ) :=
  (block.map key).dedup.map fun k => ⟨k, (block.filter (key · = k)).length, visitors visitor (block.filter (key · = k))⟩

/-- The tables that inserts and merges lead to. -/
inductive Table : List ε → List (Row κ υ) → Prop
  | empty : Table [] []
  | insert {es : List ε} {t : List (Row κ υ)} (block : List ε) : Table es t → Table (es ++ block) (t ++ view key visitor block)
  | merge {es : List ε} {t : List (Row κ υ)} {r s : Row κ υ} {rest : List (Row κ υ)} : Table es t → t.Perm (r :: s :: rest) →
      r.key = s.key → Table es (r.merge s :: rest)

/-- The rows of some keys have the events of these keys. -/
structure Tallies (es : List ε) (t : List (Row κ υ)) : Prop where
  count : ∀ p : κ → Bool, total (t.filter fun r => p r.key) = es.countP fun e => p (key e)
  seen : ∀ k v, (∃ r ∈ t, r.key = k ∧ v ∈ r.uniques) ↔ ∃ e ∈ es, key e = k ∧ visitor e = some v
  keys : ∀ k, (∃ r ∈ t, r.key = k) ↔ ∃ e ∈ es, key e = k

variable {key visitor}

theorem view_count (block : List ε) (p : κ → Bool) :
    total ((view key visitor block).filter fun r => p r.key) = block.countP fun e => p (key e) := by
  have hkeys : ((view key visitor block).filter fun r => p r.key) = ((block.map key).dedup.filter p).map fun k =>
      (⟨k, (block.filter (key · = k)).length, visitors visitor (block.filter (key · = k))⟩ : Row κ υ) := by
    rw [view, List.filter_map]
    rfl
  have hperm : ((((block.map key).dedup.filter p).map fun k => block.filter (key · = k)).flatten).Perm
      (block.filter (key · ∈ (block.map key).dedup.filter p)) := filters_perm ((List.nodup_dedup _).filter p) block
  have hlength := hperm.length_eq
  rw [List.length_flatten, List.map_map] at hlength
  rw [hkeys, total, List.map_map, List.countP_eq_length_filter]
  refine hlength.trans (congrArg List.length (List.filter_congr fun e he => ?_))
  have hmem : key e ∈ (block.map key).dedup := List.mem_dedup.mpr (List.mem_map_of_mem he)
  simp [List.mem_filter, hmem]

theorem view_seen (block : List ε) (k : κ) (v : υ) :
    (∃ r ∈ view key visitor block, r.key = k ∧ v ∈ r.uniques) ↔ ∃ e ∈ block, key e = k ∧ visitor e = some v := by
  constructor
  · rintro ⟨r, hr, rfl, hv⟩
    obtain ⟨k, -, rfl⟩ := List.mem_map.mp hr
    obtain ⟨e, he, hev⟩ := mem_visitors.mp hv
    obtain ⟨he, hek⟩ := List.mem_filter.mp he
    exact ⟨e, he, of_decide_eq_true hek, hev⟩
  · rintro ⟨e, he, rfl, hv⟩
    exact ⟨_, List.mem_map_of_mem (List.mem_dedup.mpr (List.mem_map_of_mem he)), rfl,
      mem_visitors.mpr ⟨e, List.mem_filter.mpr ⟨he, decide_eq_true rfl⟩, hv⟩⟩

theorem view_keys (block : List ε) (k : κ) : (∃ r ∈ view key visitor block, r.key = k) ↔ ∃ e ∈ block, key e = k := by
  constructor
  · rintro ⟨r, hr, rfl⟩
    obtain ⟨k, hk, rfl⟩ := List.mem_map.mp hr
    exact List.mem_map.mp (List.mem_dedup.mp hk)
  · rintro ⟨e, he, rfl⟩
    exact ⟨_, List.mem_map_of_mem (List.mem_dedup.mpr (List.mem_map_of_mem he)), rfl⟩

theorem Tallies.insert {es : List ε} {t : List (Row κ υ)} (h : Tallies key visitor es t) (block : List ε) :
    Tallies key visitor (es ++ block) (t ++ view key visitor block) where
  count p := by rw [List.filter_append, total_append, h.count, view_count, List.countP_append]
  seen k v := by
    simp only [List.mem_append, or_and_right, exists_or]
    rw [h.seen, view_seen]
  keys k := by
    simp only [List.mem_append, or_and_right, exists_or]
    rw [h.keys, view_keys]

omit [DecidableEq κ] in
/-- Rows that are merged have what they had. -/
theorem Tallies.merge {es : List ε} {t rest : List (Row κ υ)} {r s : Row κ υ} (h : Tallies key visitor es t)
    (hp : t.Perm (r :: s :: rest)) (hk : r.key = s.key) : Tallies key visitor es (r.merge s :: rest) where
  count p := by
    rw [← h.count p, total_perm (hp.filter _)]
    have hfirst : (r.merge s).key = r.key := rfl
    cases hpr : p r.key with
    | true =>
      simp only [List.filter_cons, ← hk, hpr, if_true, total, List.map_cons, List.sum_cons, Row.merge]
      omega
    | false => simp only [List.filter_cons, hfirst, ← hk, hpr, Bool.false_eq_true, if_false]
  seen k v := by
    rw [← h.seen]
    simp only [hp.mem_iff, List.exists_mem_cons_iff, Row.merge, Finset.mem_union, ← hk]
    tauto
  keys k := by
    rw [← h.keys]
    simp only [hp.mem_iff, List.exists_mem_cons_iff, Row.merge, ← hk]
    tauto

/-- Every table that inserts and merges lead to has the events. -/
theorem Table.tallies {es : List ε} {t : List (Row κ υ)} (h : Table key visitor es t) : Tallies key visitor es t := by
  induction h with
  | empty => exact ⟨fun p => rfl, fun k v => by simp, fun k => by simp⟩
  | insert block _ ih => exact ih.insert block
  | merge _ hp hk ih => exact ih.merge hp hk

/-! ## Groups of rows -/

section
variable [DecidableEq β]

/-- `GROUP BY` what the rows are labelled with, in some order. -/
def groupsOf (label : Row κ υ → β) (bs : List β) (t : List (Row κ υ)) : List (β × ℕ × ℕ) :=
  bs.map fun b => (b, total (t.filter (label · = b)), (merged (t.filter (label · = b))).card)

omit [DecidableEq κ] in
theorem total_groupsOf {label : Row κ υ → β} {bs : List β} {t : List (Row κ υ)} (h : bs.Perm (t.map label).dedup) :
    ((groupsOf label bs t).map fun g => g.2.1).sum = total t := by
  have hparts : (groupBy label t).flatten.Perm t := groupBy_parts.perm
  have hgroups : ((groupsOf label bs t).map fun g => g.2.1) = bs.map fun b => total (t.filter (label · = b)) := by
    rw [groupsOf, List.map_map]
    rfl
  rw [hgroups, (h.map _).sum_eq, ← total_perm hparts, total_flatten, groupBy, List.map_map]
  rfl

end

end

end Upstat.Rollups
