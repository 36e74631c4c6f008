import Mathlib.Algebra.Order.BigOperators.Group.List
import Mathlib.Algebra.Order.Ring.Nat
import Mathlib.Data.Finset.Card
import Mathlib.Data.List.Dedup

/-! # Lists taken apart by a label

The elements of a list with one label are a class. A list is taken apart into its classes in one way only, but for the order
of the classes and of what is in them. -/
namespace Upstat.LabelClasses

section
variable {α β : Type*}

/-- The lists have what `l` has, none is empty, and what is in two of them has two labels. -/
structure Parts (label : α → β) (l : List α) (V : List (List α)) : Prop where
  perm : V.flatten.Perm l
  nonempty : ∀ v ∈ V, v ≠ []
  apart : V.Pairwise fun v w => ∀ a ∈ v, ∀ b ∈ w, label a ≠ label b

/-- What is in one list has one label. -/
def Uniform (label : α → β) (V : List (List α)) : Prop := ∀ v ∈ V, ∀ a ∈ v, ∀ b ∈ v, label a = label b

/-- `GROUP BY label` -/
def groupBy [DecidableEq β] (label : α → β) (l : List α) : List (List α) :=
  (l.map label).dedup.map fun k => l.filter (label · = k)

variable [DecidableEq β] {label : α → β} {l : List α}

theorem flatten_filter_of_apart {V : List (List α)} {k : β} (h : ∀ w ∈ V, ∀ a ∈ w, label a ≠ k) :
    V.flatten.filter (label · = k) = [] := by
  apply List.filter_eq_nil_iff.mpr
  intro a ha
  obtain ⟨w, hw, haw⟩ := List.mem_flatten.mp ha
  simpa using h w hw a haw

/-- A part is all that has the label of one of its elements. -/
theorem Parts.eq_filter {V : List (List α)} (hV : Parts label l V) (hu : Uniform label V) {v : List α} (hv : v ∈ V) {a : α}
    (ha : a ∈ v) : v.Perm (l.filter (label · = label a)) := by
  obtain ⟨pre, post, rfl⟩ := List.append_of_mem hv
  obtain ⟨-, hrest, hcross⟩ := List.pairwise_append.mp hV.apart
  have hpre : pre.flatten.filter (label · = label a) = [] :=
    flatten_filter_of_apart fun w hw b hb => hcross w hw v List.mem_cons_self b hb a ha
  have hpost : post.flatten.filter (label · = label a) = [] :=
    flatten_filter_of_apart fun w hw b hb => Ne.symm ((List.pairwise_cons.mp hrest).1 w hw a ha b hb)
  have hself : v.filter (label · = label a) = v := List.filter_eq_self.mpr fun b hb => decide_eq_true (hu v hv b hb a ha)
  have hall := hV.perm.filter (label · = label a)
  rwa [List.flatten_append, List.flatten_cons, List.filter_append, List.filter_append, hpre, hpost, hself, List.nil_append,
    List.append_nil] at hall

omit [DecidableEq β] in
theorem Parts.mem {V : List (List α)} (hV : Parts label l V) {a : α} : a ∈ l ↔ ∃ v ∈ V, a ∈ v := by
  rw [← hV.perm.mem_iff, List.mem_flatten]

/-- Every class is a part. -/
theorem Parts.exists_part {V : List (List α)} (hV : Parts label l V) (hu : Uniform label V) {a : α} (ha : a ∈ l) :
    ∃ v ∈ V, v.Perm (l.filter (label · = label a)) := by
  obtain ⟨v, hv, hav⟩ := hV.mem.mp ha
  exact ⟨v, hv, hV.eq_filter hu hv hav⟩

omit [DecidableEq β] in
theorem Parts.nodup {V : List (List α)} (hV : Parts label l V) : (V.map Multiset.ofList).Nodup := by
  rw [List.nodup_iff_pairwise_ne, List.pairwise_map]
  refine hV.apart.imp_of_mem fun {v w} hv _ h heq => ?_
  obtain ⟨a, ha⟩ := List.exists_mem_of_ne_nil v (hV.nonempty v hv)
  exact h a ha a ((Multiset.coe_eq_coe.mp heq).subset ha) rfl

/-- Two ways to take a list apart into its classes give the same parts. -/
theorem Parts.classes_perm {V W : List (List α)} (hV : Parts label l V) (hVu : Uniform label V) (hW : Parts label l W)
    (hWu : Uniform label W) : (V.map Multiset.ofList).Perm (W.map Multiset.ofList) := by
  have hsub {V W : List (List α)} (hV : Parts label l V) (hVu : Uniform label V) (hW : Parts label l W) (hWu : Uniform label W)
      {s : Multiset α} (hs : s ∈ V.map Multiset.ofList) : s ∈ W.map Multiset.ofList := by
    obtain ⟨v, hv, rfl⟩ := List.mem_map.mp hs
    obtain ⟨a, ha⟩ := List.exists_mem_of_ne_nil v (hV.nonempty v hv)
    obtain ⟨w, hw, hperm⟩ := hW.exists_part hWu (hV.mem.mpr ⟨v, hv, ha⟩)
    exact List.mem_map.mpr ⟨w, hw, Multiset.coe_eq_coe.mpr (hperm.trans (hV.eq_filter hVu hv ha).symm)⟩
  exact (List.perm_ext_iff_of_nodup hV.nodup hW.nodup).mpr fun s => ⟨hsub hV hVu hW hWu, hsub hW hWu hV hVu⟩

/-- What is measured of each part, whatever the order of its elements. -/
theorem Parts.map_perm {γ : Type*} {V W : List (List α)} (hV : Parts label l V) (hVu : Uniform label V) (hW : Parts label l W)
    (hWu : Uniform label W) {m : List α → γ} (hm : ∀ v w, v.Perm w → m v = m w) : (V.map m).Perm (W.map m) := by
  let f : Multiset α → γ := Quot.lift m hm
  have hlift : ∀ U : List (List α), U.map m = (U.map Multiset.ofList).map f := fun U => by
    rw [List.map_map]
    rfl
  rw [hlift V, hlift W]
  exact (hV.classes_perm hVu hW hWu).map _

/-! ## How many classes there are -/

variable (label) in
/-- How many labels there are in a list. -/
def count (l : List α) : ℕ := (l.map label).toFinset.card

theorem count_perm {l l' : List α} (h : l.Perm l') : count label l = count label l' := by
  unfold count
  rw [List.toFinset_eq_of_perm _ _ (h.map label)]

theorem count_flatten {V : List (List α)} (h : V.Pairwise fun v w => ∀ a ∈ v, ∀ b ∈ w, label a ≠ label b) :
    count label V.flatten = (V.map (count label)).sum := by
  induction V with
  | nil => rfl
  | cons v V ih =>
    obtain ⟨hv, hV⟩ := List.pairwise_cons.mp h
    rw [List.flatten_cons, List.map_cons, List.sum_cons, ← ih hV]
    unfold count
    rw [List.map_append, List.toFinset_append, Finset.card_union_of_disjoint]
    rw [Finset.disjoint_left]
    intro k hk hk'
    obtain ⟨a, ha, rfl⟩ := List.mem_map.mp (List.mem_toFinset.mp hk)
    obtain ⟨b, hb, hab⟩ := List.mem_map.mp (List.mem_toFinset.mp hk')
    obtain ⟨w, hw, hbw⟩ := List.mem_flatten.mp hb
    exact hv w hw a ha b hbw hab.symm

theorem count_pos {v : List α} (h : v ≠ []) : 0 < count label v := by
  obtain ⟨a, ha⟩ := List.exists_mem_of_ne_nil v h
  exact Finset.card_pos.mpr ⟨label a, List.mem_toFinset.mpr (List.mem_map_of_mem ha)⟩

theorem count_le_one_iff {v : List α} : count label v ≤ 1 ↔ ∀ a ∈ v, ∀ b ∈ v, label a = label b := by
  unfold count
  rw [Finset.card_le_one]
  constructor
  · intro h a ha b hb
    exact h _ (List.mem_toFinset.mpr (List.mem_map_of_mem ha)) _ (List.mem_toFinset.mpr (List.mem_map_of_mem hb))
  · intro h k hk j hj
    obtain ⟨a, ha, rfl⟩ := List.mem_map.mp (List.mem_toFinset.mp hk)
    obtain ⟨b, hb, rfl⟩ := List.mem_map.mp (List.mem_toFinset.mp hj)
    exact h a ha b hb

omit [DecidableEq β] in
/-- Two sums, one of which is nowhere less, are the same just where all of it is the same. -/
theorem sum_eq_sum_iff {l : List α} {f g : α → ℕ} (h : ∀ a ∈ l, f a ≤ g a) : (l.map f).sum = (l.map g).sum ↔ ∀ a ∈ l, f a = g a := by
  induction l with
  | nil => simp
  | cons a l ih =>
    obtain ⟨ha, hl⟩ := List.forall_mem_cons.mp h
    have hle : (l.map f).sum ≤ (l.map g).sum := List.sum_le_sum hl
    have hiff := ih hl
    rw [List.map_cons, List.map_cons, List.sum_cons, List.sum_cons, List.forall_mem_cons]
    constructor
    · intro hsum
      exact ⟨by omega, hiff.mp (by omega)⟩
    · rintro ⟨hfirst, hall⟩
      have := hiff.mpr hall
      omega

omit [DecidableEq β] in
theorem length_eq_sum (V : List (List α)) : V.length = (V.map fun _ => 1).sum := by simp

theorem Parts.length_le {V : List (List α)} (hV : Parts label l V) : V.length ≤ count label l := by
  rw [← count_perm hV.perm, count_flatten hV.apart, length_eq_sum]
  exact List.sum_le_sum fun v hv => count_pos (hV.nonempty v hv)

/-- The parts of a list are as many as its labels just where each has one label. -/
theorem Parts.length_eq_iff {V : List (List α)} (hV : Parts label l V) : V.length = count label l ↔ Uniform label V := by
  rw [← count_perm hV.perm, count_flatten hV.apart, length_eq_sum, sum_eq_sum_iff fun v hv => count_pos (hV.nonempty v hv)]
  refine forall₂_congr fun v hv => ?_
  rw [← count_le_one_iff]
  have hpos : 0 < count label v := count_pos (hV.nonempty v hv)
  omega

/-! ## Grouping -/

/-- The lists of some labels, one after the other. -/
theorem filters_perm {ks : List β} (h : ks.Nodup) (l : List α) :
    (ks.map fun k => l.filter (label · = k)).flatten.Perm (l.filter (label · ∈ ks)) := by
  induction ks with
  | nil => simp
  | cons k ks ih =>
    obtain ⟨hk, hks⟩ := List.nodup_cons.mp h
    have hfirst : (l.filter (label · ∈ k :: ks)).filter (label · = k) = l.filter (label · = k) := by
      rw [List.filter_filter]
      apply List.filter_congr
      intro a _
      by_cases ha : label a = k <;> simp [ha]
    have hrest : (l.filter (label · ∈ k :: ks)).filter (fun a => !decide (label a = k)) = l.filter (label · ∈ ks) := by
      rw [List.filter_filter]
      apply List.filter_congr
      intro a _
      by_cases ha : label a = k <;> simp [ha, hk]
    have hsplit := List.filter_append_perm (label · = k) (l.filter (label · ∈ k :: ks))
    rw [hfirst, hrest] at hsplit
    rw [List.map_cons, List.flatten_cons]
    exact ((ih hks).append_left _).trans hsplit

theorem groupBy_parts : Parts label l (groupBy label l) where
  perm := by
    have hall : l.filter (label · ∈ (l.map label).dedup) = l :=
      List.filter_eq_self.mpr fun a ha => decide_eq_true (List.mem_dedup.mpr (List.mem_map_of_mem ha))
    have hperm : (groupBy label l).flatten.Perm (l.filter (label · ∈ (l.map label).dedup)) := filters_perm (List.nodup_dedup _) l
    rwa [hall] at hperm
  nonempty v hv := by
    obtain ⟨k, hk, rfl⟩ := List.mem_map.mp hv
    obtain ⟨a, ha, rfl⟩ := List.mem_map.mp (List.mem_dedup.mp hk)
    exact List.ne_nil_of_mem (List.mem_filter.mpr ⟨ha, decide_eq_true rfl⟩)
  apart := by
    rw [groupBy, List.pairwise_map]
    refine (List.nodup_dedup _).imp fun {j k} hjk a ha b hb heq => hjk ?_
    rw [← of_decide_eq_true (List.mem_filter.mp ha).2, ← of_decide_eq_true (List.mem_filter.mp hb).2, heq]

theorem groupBy_uniform : Uniform label (groupBy label l) := by
  intro v hv a ha b hb
  obtain ⟨k, -, rfl⟩ := List.mem_map.mp hv
  rw [of_decide_eq_true (List.mem_filter.mp ha).2, of_decide_eq_true (List.mem_filter.mp hb).2]

end

end Upstat.LabelClasses
