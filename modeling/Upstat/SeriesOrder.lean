import Upstat.SeriesAssembly
import Upstat.TiedSorts

/-! # The order of assembled series (`telemetry/query.go`)

The series come out of a map in any order and are sorted by total, then by group. Two series
of one group and different aggregations tie when their totals are equal, and then the map
decides which comes first, and at the cap which is left out. `sort.Slice` is not stable; what
it may leave of the keys is what a stable sort leaves of them in some order. -/
namespace Upstat.SeriesOrder

open SeriesAssembly TiedSorts

/-! ## What is accumulated -/

section Cells
variable {V : Type} [Zero V] [Add V]

def sum (own : List (Cell V)) : V := own.foldl (fun s c => s + c.value) 0

/-- The tags of the first row with a value. -/
def firstTags (own : List (Cell V)) : List (String × String) := (own.head?.map Cell.tags).getD []

/-- The last value at the instant. -/
def valueAt (own : List (Cell V)) (t : ℤ) : Option V := ((own.filter (·.t = t)).getLast?).map Cell.value

def accOf (own : List (Cell V)) : Acc V := ⟨firstTags own, valueAt own, sum own⟩

/-- The values of one series, as the rows bring them. -/
def ofKey (cs : List (Cell V)) (k : Key) : List (Cell V) := cs.filter (·.key = k)

theorem sum_concat (own : List (Cell V)) (c : Cell V) : sum (own ++ [c]) = sum own + c.value := by
  simp [sum]

theorem valueAt_concat (own : List (Cell V)) (c : Cell V) :
    valueAt (own ++ [c]) = Function.update (valueAt own) c.t (some c.value) := by
  funext t
  rw [valueAt, List.filter_append]
  by_cases ht : c.t = t
  · simp [ht]
  · rw [Function.update_of_ne (Ne.symm ht)]
    simp [ht, valueAt]

theorem firstTags_concat {own : List (Cell V)} (h : own ≠ []) (c : Cell V) : firstTags (own ++ [c]) = firstTags own := by
  rw [firstTags, firstTags, List.head?_append_of_ne_nil _ h]

theorem ofKey_concat (cs : List (Cell V)) (c : Cell V) (k : Key) :
    ofKey (cs ++ [c]) k = if c.key = k then ofKey cs k ++ [c] else ofKey cs k := by
  rw [ofKey, List.filter_append]
  by_cases hk : c.key = k <;> simp [hk, ofKey]

/-- The map has each series' own values, counted up. -/
theorem lookup_accumulate_eq (cs : List (Cell V)) (k : Key) :
    (accumulate cs).lookup k = if ofKey cs k = [] then none else some (accOf (ofKey cs k)) := by
  induction cs using List.reverseRecOn with
  | nil => rfl
  | append_singleton cs c ih =>
    rw [accumulate_concat, addCell, ofKey_concat]
    by_cases hk : c.key = k
    · subst hk
      rw [AList.lookup_insert, ih, if_pos rfl, if_neg (List.concat_ne_nil c (ofKey cs c.key))]
      by_cases hnil : ofKey cs c.key = []
      · rw [if_pos hnil, hnil, accOf, valueAt_concat, sum_concat]
        rfl
      · have hacc : accOf (ofKey cs c.key ++ [c]) = ⟨firstTags (ofKey cs c.key),
            Function.update (valueAt (ofKey cs c.key)) c.t (some c.value), sum (ofKey cs c.key) + c.value⟩ := by
          rw [accOf, valueAt_concat, sum_concat, firstTags_concat hnil]
        rw [if_neg hnil, hacc]
        rfl
    · rw [AList.lookup_insert_ne (Ne.symm hk), ih, if_neg hk]

theorem mem_keys_iff (cs : List (Cell V)) (k : Key) : k ∈ (accumulate cs).keys ↔ k ∈ cs.map Cell.key :=
  AList.mem_keys.symm.trans (mem_accumulate cs k)

theorem lookup_of_mem {cs : List (Cell V)} {k : Key} (hk : k ∈ (accumulate cs).keys) :
    (accumulate cs).lookup k = some (accOf (ofKey cs k)) := by
  obtain ⟨c, hc, rfl⟩ := List.mem_map.mp ((mem_keys_iff cs k).mp hk)
  have hne : ofKey cs c.key ≠ [] := List.ne_nil_of_mem (List.mem_filter.mpr ⟨hc, by simp⟩)
  rw [lookup_accumulate_eq, if_neg hne]

end Cells

/-! ## The order -/

section Order
variable {V : Type} [Zero V] [Add V] [LinearOrder V]

theorem totalOf_of_mem {cs : List (Cell V)} {k : Key} (hk : k ∈ (accumulate cs).keys) :
    totalOf (accumulate cs) k = sum (ofKey cs k) := by
  rw [totalOf, lookup_of_mem hk]
  rfl

/-- Larger totals come first, then smaller groups. -/
theorem before_iff (m : SeriesMap V) (a b : Key) :
    before m a b = true ↔ totalOf m b < totalOf m a ∨ totalOf m a = totalOf m b ∧ a.group ≤ b.group := by
  unfold before
  by_cases h : totalOf m a = totalOf m b
  · rw [if_neg (not_not.mpr h), decide_eq_true_eq, h]
    simp
  · rw [if_pos h, decide_eq_true_eq]
    simp [h]

theorem before_preorders (m : SeriesMap V) : Preorders (before m) where
  trans := by
    intro a b c hab hbc
    rw [before_iff] at hab hbc ⊢
    rcases hab with hab | ⟨hab, hgroup⟩ <;> rcases hbc with hbc | ⟨hbc, hgroup'⟩
    · exact .inl (hbc.trans hab)
    · exact .inl (hbc ▸ hab)
    · exact .inl (hab ▸ hbc)
    · exact .inr ⟨hab.trans hbc, String.le_trans hgroup hgroup'⟩
  total := by
    intro a b
    rw [Bool.or_eq_true, before_iff, before_iff]
    rcases lt_trichotomy (totalOf m a) (totalOf m b) with h | h | h
    · exact .inr (.inl h)
    · rcases String.le_total a.group b.group with hgroup | hgroup
      · exact .inl (.inr ⟨h, hgroup⟩)
      · exact .inr (.inr ⟨h.symm, hgroup⟩)
    · exact .inl (.inl h)

/-- A series as it is laid out. -/
def seriesOf (q : Query) (r : TimeRange) (d : ℤ) (cs : List (Cell V)) (k : Key) : Series V where
  name := seriesName q k
  tags := firstTags (ofKey cs k)
  points := (grid r d).map fun b => ⟨b, valueAt (ofKey cs k) (unix b)⟩

theorem assemble_series {rows : List (Row V)} {q : Query} {r : TimeRange} {d : ℤ} {keys : List Key}
    (hkeys : keys.Perm (accumulate (cells q rows)).keys) : (assemble rows q r d keys).series =
      ((keys.mergeSort (before (accumulate (cells q rows)))).take (maxGroups * q.aggs.length)).map
        (seriesOf q r d (cells q rows)) := by
  simp only [assemble]
  rw [← List.filterMap_eq_map]
  apply List.filterMap_congr
  intro k hk
  have hmem : k ∈ (accumulate (cells q rows)).keys :=
    hkeys.mem_iff.mp ((List.mergeSort_perm _ _).mem_iff.mp (List.mem_of_mem_take hk))
  rw [lookup_of_mem hmem]
  rfl

/-- The aggregations and groups that have values. -/
def owners (q : Query) (rows : List (Row V)) : List Key := ((cells q rows).map Cell.key).dedup

/-- How many series have a larger total, or an equal one and a smaller group. -/
def rank (q : Query) (rows : List (Row V)) (k : Key) : ℕ :=
  (owners q rows).countP fun k' => sum (ofKey (cells q rows) k) < sum (ofKey (cells q rows) k') ∨
    sum (ofKey (cells q rows) k) = sum (ofKey (cells q rows) k') ∧ k'.group < k.group

/-- Two series of one group and one total. -/
def Tied (q : Query) (rows : List (Row V)) (k k' : Key) : Prop :=
  k.group = k'.group ∧ sum (ofKey (cells q rows) k) = sum (ofKey (cells q rows) k')

/-- One title, one set of tags, and one value at each bucket. -/
structure Same (q : Query) (rows : List (Row V)) (r : TimeRange) (d : ℤ) (k k' : Key) : Prop where
  name : seriesName q k = seriesName q k'
  tags : firstTags (ofKey (cells q rows) k) = firstTags (ofKey (cells q rows) k')
  values : ∀ b ∈ grid r d, valueAt (ofKey (cells q rows) k) (unix b) = valueAt (ofKey (cells q rows) k') (unix b)

omit [Zero V] [Add V] [LinearOrder V] in
theorem seriesOf_eq_iff {q : Query} {rows : List (Row V)} {r : TimeRange} {d : ℤ} {k k' : Key} :
    seriesOf q r d (cells q rows) k = seriesOf q r d (cells q rows) k' ↔ Same q rows r d k k' := by
  simp only [seriesOf, Series.mk.injEq]
  constructor
  · rintro ⟨hname, htags, hpoints⟩
    refine ⟨hname, htags, fun b hb => ?_⟩
    exact congrArg Point.value (List.map_inj_left.mp hpoints b hb)
  · intro h
    refine ⟨h.name, h.tags, List.map_inj_left.mpr fun b hb => ?_⟩
    rw [h.values b hb]

theorem owners_perm (q : Query) (rows : List (Row V)) : (accumulate (cells q rows)).keys.Perm (owners q rows) := by
  apply (List.perm_ext_iff_of_nodup (accumulate (cells q rows)).keys_nodup (List.nodup_dedup _)).mpr
  intro k
  rw [mem_keys_iff, List.mem_dedup]

theorem tied_iff {q : Query} {rows : List (Row V)} {k k' : Key} (hk : k ∈ (accumulate (cells q rows)).keys)
    (hk' : k' ∈ (accumulate (cells q rows)).keys) : Tied q rows k k' ↔
      before (accumulate (cells q rows)) k k' = true ∧ before (accumulate (cells q rows)) k' k = true := by
  rw [before_iff, before_iff, totalOf_of_mem hk, totalOf_of_mem hk', Tied]
  constructor
  · rintro ⟨hgroup, htotal⟩
    rw [hgroup]
    exact ⟨.inr ⟨htotal, String.le_refl _⟩, .inr ⟨htotal.symm, String.le_refl _⟩⟩
  · rintro ⟨h | ⟨htotal, hgroup⟩, h' | ⟨htotal', hgroup'⟩⟩
    · exact absurd h h'.not_gt
    · exact absurd htotal' h.ne
    · exact absurd htotal h'.ne
    · exact ⟨String.le_antisymm hgroup hgroup', htotal⟩

theorem ahead_eq_rank {q : Query} {rows : List (Row V)} {k : Key} (hk : k ∈ (accumulate (cells q rows)).keys) :
    ahead (before (accumulate (cells q rows))) (accumulate (cells q rows)).keys k = rank q rows k := by
  rw [ahead_perm (owners_perm q rows), rank, ahead]
  apply List.countP_congr
  intro k' hk'
  have hmem : k' ∈ (accumulate (cells q rows)).keys := (owners_perm q rows).mem_iff.mpr hk'
  rw [Bool.not_eq_true', Bool.eq_false_iff, ne_eq, before_iff, totalOf_of_mem hk, totalOf_of_mem hmem, decide_eq_true_eq]
  rcases lt_trichotomy (sum (ofKey (cells q rows) k)) (sum (ofKey (cells q rows) k')) with h | h | h
  · simp [h, h.ne, h.not_gt]
  · simp [h]
  · simp [h, h.ne', h.not_gt]

/-- The series are the same for every order in which the map is ranged over, if and only if
those that tie and reach under the cap are the same. -/
theorem order_free (q : Query) (rows : List (Row V)) (r : TimeRange) (d : ℤ) :
    (∀ keys keys' : List Key, keys.Perm (accumulate (cells q rows)).keys → keys'.Perm (accumulate (cells q rows)).keys →
      assemble rows q r d keys = assemble rows q r d keys') ↔
    ∀ k ∈ owners q rows, ∀ k' ∈ owners q rows, Tied q rows k k' → rank q rows k < maxGroups * q.aggs.length →
      Same q rows r d k k' := by
  have hgeneric := order_free_iff (before_preorders (accumulate (cells q rows))) (accumulate (cells q rows)).keys
    (seriesOf q r d (cells q rows)) (n := maxGroups * q.aggs.length)
  constructor
  · intro h k hk k' hk' htied hrank
    have hmem := (owners_perm q rows).mem_iff.mpr hk
    have hmem' := (owners_perm q rows).mem_iff.mpr hk'
    rw [← ahead_eq_rank hmem] at hrank
    obtain ⟨hbefore, hbefore'⟩ := (tied_iff hmem hmem').mp htied
    refine seriesOf_eq_iff.mp (hgeneric.mp (fun l₁ l₂ h₁ h₂ => ?_) k hmem k' hmem' hbefore hbefore' hrank)
    rw [← assemble_series h₁, ← assemble_series h₂, h l₁ l₂ h₁ h₂]
  · intro h keys keys' hkeys hkeys'
    have hseries : (assemble rows q r d keys).series = (assemble rows q r d keys').series := by
      rw [assemble_series hkeys, assemble_series hkeys']
      refine hgeneric.mpr (fun k hmem k' hmem' hbefore hbefore' hahead => ?_) keys keys' hkeys hkeys'
      rw [ahead_eq_rank hmem] at hahead
      have hk := (owners_perm q rows).mem_iff.mp hmem
      have hk' := (owners_perm q rows).mem_iff.mp hmem'
      exact seriesOf_eq_iff.mpr (h k hk k' hk' ((tied_iff hmem hmem').mpr ⟨hbefore, hbefore'⟩) hahead)
    rw [show assemble rows q r d keys = ⟨"timeseries", (assemble rows q r d keys).series, stepLabel d⟩ from rfl, hseries]
    rfl

end Order

def countAndMax : Query := ⟨[], [⟨"count", ""⟩, ⟨"max", "bytes"⟩], List.cons_ne_nil _ _⟩

/-- Two minutes whose counts and maxima are 1 and 2, the other way round. -/
def crossedRows : List (Row ℤ) := [⟨0, [], [some 1, some 2]⟩, ⟨60, [], [some 2, some 1]⟩]

def twoMinutes : TimeRange := ⟨0, 2 * minute, by decide⟩

/-- The first series is that of the counts or that of the maxima. -/
theorem crossedRows_run_dependent :
    ¬∀ keys keys' : List Key, keys.Perm (accumulate (cells countAndMax crossedRows)).keys →
      keys'.Perm (accumulate (cells countAndMax crossedRows)).keys →
      assemble crossedRows countAndMax twoMinutes minute keys = assemble crossedRows countAndMax twoMinutes minute keys' := by
  intro h
  have hruns : [⟨0, ""⟩, ⟨1, ""⟩].Perm (accumulate (cells countAndMax crossedRows)).keys ∧
      [⟨1, ""⟩, ⟨0, ""⟩].Perm (accumulate (cells countAndMax crossedRows)).keys ∧
      ([⟨0, ""⟩, ⟨1, ""⟩].Pairwise fun a b => before (accumulate (cells countAndMax crossedRows)) a b = true) ∧
      [⟨1, ""⟩, ⟨0, ""⟩].Pairwise fun a b => before (accumulate (cells countAndMax crossedRows)) a b = true := by decide +kernel
  obtain ⟨hkeys, hkeys', hsorted, hsorted'⟩ := hruns
  have hseries := congrArg Timeseries.series (h _ _ hkeys hkeys')
  rw [assemble_series hkeys, assemble_series hkeys', List.mergeSort_of_pairwise hsorted, List.mergeSort_of_pairwise hsorted'] at hseries
  have hsame : Same countAndMax crossedRows twoMinutes minute ⟨0, ""⟩ ⟨1, ""⟩ := seriesOf_eq_iff.mp (List.cons.inj hseries).1
  exact absurd hsame.name (by decide +kernel)

end Upstat.SeriesOrder
