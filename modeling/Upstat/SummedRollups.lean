import Mathlib.Algebra.BigOperators.Group.List.Basic
import Upstat.LabelClasses

/-! # Rollups of sums

A table with one row for each key of a block that is inserted: the sum of a measure over the key's
elements. Rows of one key are merged at any time, and sums over the table are those over the
elements. -/
namespace Upstat.SummedRollups

open LabelClasses

variable {ε κ β M : Type*}

structure Row (κ M : Type*) where
  key : κ
  value : M
  deriving DecidableEq

section
variable [AddCommMonoid M]

def total (t : List (Row κ M)) : M := (t.map Row.value).sum

theorem total_append (s t : List (Row κ M)) : total (s ++ t) = total s + total t := by
  rw [total, List.map_append, List.sum_append, total, total]

theorem total_perm {s t : List (Row κ M)} (h : s.Perm t) : total s = total t := (h.map Row.value).sum_eq

def Row.merge (r s : Row κ M) : Row κ M := ⟨r.key, r.value + s.value⟩

variable [DecidableEq κ] (key : ε → κ) (measure : ε → M)

/-- The rows that are inserted with a block. -/
def view (block : List ε) : List (Row κ M) :=
  (block.map key).dedup.map fun k => ⟨k, ((block.filter (key · = k)).map measure).sum⟩

/-- The tables that inserts and merges lead to. -/
inductive Table : List ε → List (Row κ M) → Prop
  | empty : Table [] []
  | insert {es : List ε} {t : List (Row κ M)} (block : List ε) : Table es t → Table (es ++ block) (t ++ view key measure block)
  | merge {es : List ε} {t : List (Row κ M)} {r s : Row κ M} {rest : List (Row κ M)} : Table es t → t.Perm (r :: s :: rest) →
      r.key = s.key → Table es (r.merge s :: rest)

variable {key measure}

theorem total_view (block : List ε) (p : κ → Bool) :
    total ((view key measure block).filter fun r => p r.key) = ((block.filter fun e => p (key e)).map measure).sum := by
  have hkeys : ((view key measure block).filter fun r => p r.key) = ((block.map key).dedup.filter p).map fun k =>
      (⟨k, ((block.filter (key · = k)).map measure).sum⟩ : Row κ M) := by
    rw [view, List.filter_map]
    rfl
  have hperm : ((((block.map key).dedup.filter p).map fun k => block.filter (key · = k)).flatten).Perm
      (block.filter (key · ∈ (block.map key).dedup.filter p)) := filters_perm ((List.nodup_dedup _).filter p) block
  have hsum := (hperm.map measure).sum_eq
  rw [List.map_flatten, List.sum_flatten, List.map_map, List.map_map] at hsum
  rw [hkeys, total, List.map_map]
  refine hsum.trans (congrArg (fun l => (List.map measure l).sum) (List.filter_congr fun e he => ?_))
  have hmem : key e ∈ (block.map key).dedup := List.mem_dedup.mpr (List.mem_map_of_mem he)
  simp [List.mem_filter, hmem]

omit [DecidableEq κ] in
theorem total_merge {r s : Row κ M} (h : r.key = s.key) (rest : List (Row κ M)) (p : κ → Bool) :
    total ((r.merge s :: rest).filter fun r => p r.key) = total ((r :: s :: rest).filter fun r => p r.key) := by
  have hmerge : (r.merge s).key = r.key := rfl
  cases hp : p r.key with
  | true => simp [← h, hp, total, Row.merge, add_assoc]
  | false => simp [hmerge, ← h, hp]

/-- Sums over the rows of some keys are sums over what was inserted with these keys. -/
theorem Table.total_filter {es : List ε} {t : List (Row κ M)} (h : Table key measure es t) (p : κ → Bool) :
    total (t.filter fun r => p r.key) = ((es.filter fun e => p (key e)).map measure).sum := by
  induction h with
  | empty => rfl
  | insert block _ ih => rw [List.filter_append, total_append, ih, total_view, List.filter_append, List.map_append, List.sum_append]
  | merge _ hperm hkey ih => rw [total_merge hkey, ← total_perm (hperm.filter _), ih]

end

/-! ## Groups of rows -/

section
variable [AddCommMonoid M] [DecidableEq β]

/-- `GROUP BY` a label, the groups in some order. -/
def groupSums (label : Row κ M → β) (bs : List β) (t : List (Row κ M)) : List (Row β M) :=
  bs.map fun b => ⟨b, total (t.filter (label · = b))⟩

/-- The groups together have what the rows have. -/
theorem total_groupSums {label : Row κ M → β} {bs : List β} {t : List (Row κ M)} (h : bs.Perm (t.map label).dedup) (p : β → Bool) :
    total ((groupSums label bs t).filter fun r => p r.key) = total (t.filter fun r => p (label r)) := by
  have hfilter : ((groupSums label bs t).filter fun r => p r.key) =
      (bs.filter p).map fun b => (⟨b, total (t.filter (label · = b))⟩ : Row β M) := by
    rw [groupSums, List.filter_map]
    rfl
  have hnodup : (bs.filter p).Nodup := (h.nodup_iff.mpr (List.nodup_dedup _)).filter p
  have hperm : (((bs.filter p).map fun b => t.filter (label · = b)).flatten).Perm (t.filter (label · ∈ bs.filter p)) := filters_perm hnodup t
  have hsum := (hperm.map Row.value).sum_eq
  rw [List.map_flatten, List.sum_flatten, List.map_map, List.map_map] at hsum
  rw [hfilter, total, List.map_map]
  refine hsum.trans (congrArg (fun l => (List.map Row.value l).sum) (List.filter_congr fun r hr => ?_))
  have hmem : label r ∈ bs := h.mem_iff.mpr (List.mem_dedup.mpr (List.mem_map_of_mem hr))
  simp [List.mem_filter, hmem]

end

end Upstat.SummedRollups
