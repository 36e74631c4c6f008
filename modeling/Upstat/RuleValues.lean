import Upstat.EvaluationWindows
import Upstat.SeriesKeys

/-! # The number that a rule compares (`evaluation.py`, `queryclient.py`, `telemetry/query.go`)

A rule asks for its window as one step, and takes the newest point of the first series. The
service counts its steps from 1970 in the database and from year 1 in the answer, whenever the
window begins. -/
namespace Upstat.RuleValues

open SeriesAssembly AlignedGrids
open QueryGrammar (Library AST Bytes)

/-! ## The source -/

/-- What a compiled query means to the database: the group columns of a row, and the aggregates
of rows, where there are numbers. -/
structure Meaning (α V : Type) where
  group : α → List String
  agg : ℕ → List α → Option V

/-- The seconds of a row's bucket. -/
def bucket (p : Platform) (d t : ℤ) : ℤ := unix (alignDown 0 (p.seconds d * nsPerSecond) t)

/-- `Series` has no more rows than this. -/
def limit : ℕ := 50000

/-- A name of the query's text. -/
def name (s : Bytes) : String := String.ofList (QueryGrammar.runes s)

section
variable {α V : Type} (D : Meaning α V) (p : Platform) (q : Query) (r : TimeRange) (d : ℤ)

/-- The rows that the query's range lets through, of those that its filters do. -/
def inRange (data : List (ℤ × α)) : List (ℤ × α) := data.filter fun s => milli r.from_ ≤ s.1 ∧ s.1 < milli r.to_

def keyOf (s : ℤ × α) : ℤ × List String := (bucket p d s.1, D.group s.2)

def members (data : List (ℤ × α)) (k : ℤ × List String) : List α :=
  ((inRange r data).filter fun s => keyOf D p d s = k).map Prod.snd

def resultRow (data : List (ℤ × α)) (k : ℤ × List String) : Row V :=
  ⟨k.1, k.2, (List.range q.aggs.length).map fun i => D.agg i (members D p r d data k)⟩

/-- The rows that the database may answer the compiled query with. -/
def Answers (data : List (ℤ × α)) (rows : List (Row V)) : Prop :=
  ∃ all : List (Row V), all.Perm (((inRange r data).map (keyOf D p d)).dedup.map (resultRow D p q r d data)) ∧
    all.Pairwise (fun a b => a.t ≤ b.t) ∧ rows = all.take limit

/-- `last_value`: the newest non-null point of the first series. -/
def lastValue (out : Timeseries V) : Option V := out.series.head?.bind fun s => (s.points.filterMap Point.value).getLast?

variable [Zero V] [Add V] [LT V] [DecidableLT V] [DecidableEq V]

/-- What `last_value` may find in the answer to a query of these groups and aggregations. A query
without aggregations is answered with a table. -/
def Shows (groups : List String) (aggs : List Agg) (data : List (ℤ × α)) (v : Option V) : Prop :=
  if h : aggs ≠ [] then
    ∃ rows keys, Answers D p ⟨groups, aggs, h⟩ r d data rows ∧
      keys.Perm (accumulate (cells ⟨groups, aggs, h⟩ rows)).keys ∧ v = lastValue (assemble rows ⟨groups, aggs, h⟩ r d keys)
  else v = none

end

section
variable {α V ν : Type} [Zero V] [Add V] [LT V] [DecidableLT V] [DecidableEq V]

/-- What `_value` may come to at an evaluation, of a query that is accepted. -/
def Compared (x : EvaluationWindows.Platform) (lib : Library ν) (D : Meaning α V) (detected : String) (clock : ℤ)
    (rule : EvaluationWindows.Rule) (now : ℤ) (data : List (ℤ × α)) (v : Option V) : Prop :=
  ∃ req r d ast, EvaluationWindows.ruleRequest x rule now = some req ∧ EvaluationWindows.resolve x detected clock req = .ok (r, d) ∧
    QueryGrammar.parse lib (QueryGrammar.bytes req.q) = .ok ast ∧
    Shows D x.toPlatform r d (ast.groupBy.map name) (ast.agg.map fun a => ⟨name a.fn, name a.field⟩) data v

end

/-! ## The rows of a window -/

variable {α V : Type}

def inWindow (from_ to_ : ℤ) (data : List (ℤ × α)) : List α := (data.filter fun s => from_ ≤ s.1 ∧ s.1 < to_).map Prod.snd

/-- The number is one of the aggregates of the rows, and there is none where there are no rows. -/
def Whole (D : Meaning α V) (n : ℕ) (rows : List α) (v : Option V) : Prop :=
  (rows = [] → v = none) ∧ (rows ≠ [] → ∃ i < n, v = D.agg i rows)

/-- Two rows that the query tells from one of them: they are in different groups if it has groups,
and no aggregate of one is an aggregate of both. -/
structure Tells (D : Meaning α V) (groups n : ℕ) (a b : α) : Prop where
  groups : 0 < groups → D.group a ≠ D.group b
  first : ∀ i < n, ∀ j < n, D.agg i [a] ≠ D.agg j [a, b]
  second : ∀ i < n, ∀ j < n, D.agg i [b] ≠ D.agg j [a, b]
  both : ∀ i < n, D.agg i [a, b] ≠ none
  one : ∀ i < n, D.agg i [a] ≠ none

/-- At the instant there is a point of the answer's grid in which a row counts. -/
def Seen (p : Platform) (r : TimeRange) (d t : ℤ) : Prop :=
  milli r.from_ ≤ t ∧ t < milli r.to_ ∧ bucket p d t * nsPerSecond ∈ grid r d

/-- How a window lies to the steps, for rows whose instants are multiples of `g`: a row counts for
some point if and only if it is in the window, and all for the same. -/
structure InStep (p : Platform) (g : ℤ) (r : TimeRange) (d : ℤ) : Prop where
  seen : ∀ t, g ∣ t → r.from_ ≤ t → t < r.to_ → Seen p r d t
  within : ∀ t, g ∣ t → Seen p r d t → r.from_ ≤ t ∧ t < r.to_
  one : ∀ t t', g ∣ t → g ∣ t' → r.from_ ≤ t → t < r.to_ → r.from_ ≤ t' → t' < r.to_ → bucket p d t = bucket p d t'

/-! ## What the first series shows -/

/-- The last of what is found is the one thing that may be found. -/
theorem getLast?_filterMap_eq {β : Type} {f : β → Option V} {l : List β} {v : Option V}
    (hall : ∀ b ∈ l, ∀ y, f b = some y → v = some y) (hex : ∀ y, v = some y → ∃ b ∈ l, f b = some y) :
    (l.filterMap f).getLast? = v := by
  cases hlast : (l.filterMap f).getLast? with
  | some y =>
    obtain ⟨b, hb, hy⟩ := List.mem_filterMap.mp (List.mem_of_getLast? hlast)
    exact (hall b hb y hy).symm
  | none =>
    cases v with
    | none => rfl
    | some y =>
      obtain ⟨b, hb, hy⟩ := hex y rfl
      have hmem : y ∈ l.filterMap f := List.mem_filterMap.mpr ⟨b, hb, hy⟩
      rw [List.getLast?_eq_none_iff.mp hlast] at hmem
      exact absurd hmem List.not_mem_nil

section
variable {D : Meaning α V} {p : Platform} {q : Query} {r : TimeRange} {d : ℤ} {data : List (ℤ × α)} {rows : List (Row V)}

theorem mem_answers (h : Answers D p q r d data rows) {row : Row V} (hrow : row ∈ rows) :
    ∃ s ∈ inRange r data, row = resultRow D p q r d data (keyOf D p d s) := by
  obtain ⟨all, hperm, -, rfl⟩ := h
  have hall := hperm.mem_iff.mp (List.mem_of_mem_take hrow)
  obtain ⟨k, hk, rfl⟩ := List.mem_map.mp hall
  obtain ⟨s, hs, rfl⟩ := List.mem_map.mp (List.mem_dedup.mp hk)
  exact ⟨s, hs, rfl⟩

theorem exists_answers (D : Meaning α V) (p : Platform) (q : Query) (r : TimeRange) (d : ℤ) (data : List (ℤ × α)) :
    ∃ rows, Answers D p q r d data rows := by
  refine ⟨_, (((inRange r data).map (keyOf D p d)).dedup.map (resultRow D p q r d data)).mergeSort (fun a b => a.t ≤ b.t),
    List.mergeSort_perm _ _, ?_, rfl⟩
  have hsorted : ∀ l : List (Row V), (l.mergeSort fun a b => decide (a.t ≤ b.t)).Pairwise fun a b => decide (a.t ≤ b.t) = true :=
    fun l => List.pairwise_mergeSort (by simp; omega) (by simp; omega) l
  exact (hsorted _).imp (by simp)

theorem valueAt_resultRow (k : ℤ × List String) {i : ℕ} {v : V} :
    SeriesKeys.valueAt q (resultRow D p q r d data k) i = some v ↔ i < q.aggs.length ∧ D.agg i (members D p r d data k) = some v := by
  rw [SeriesKeys.valueAt, Option.join_eq_some_iff, List.getElem?_take]
  by_cases hi : i < q.aggs.length <;> simp [resultRow, hi]

/-- The points of the grid are whole seconds. -/
theorem unix_of_grid (hd : nsPerSecond ∣ d) {b : ℤ} (hpos : 0 < d) (hb : b ∈ grid r d) : unix b * nsPerSecond = b := by
  obtain ⟨-, k, rfl⟩ := (mem_stepsFrom _ _ hpos b).mp hb
  have hstart := hd.trans (dvd_alignDown_sub zeroTime d r.from_)
  have hzero : nsPerSecond ∣ zeroTime := ⟨-62135596800, by decide⟩
  have hsum : nsPerSecond ∣ alignDown zeroTime d r.from_ + k * d := by
    have h := (hstart.add hzero).add (Dvd.dvd.mul_left hd (k : ℤ))
    simpa using h
  exact Int.ediv_mul_cancel hsum

variable [Zero V] [Add V] [LT V] [DecidableLT V] [DecidableEq V] {keys : List Key}

/-- A number is an aggregate of one bucket's rows of one group, and the bucket is on the grid. -/
theorem of_lastValue (hd : nsPerSecond ∣ d) (hpos : 0 < d) (h : Answers D p q r d data rows) {y : V}
    (hy : lastValue (assemble rows q r d keys) = some y) :
    ∃ s ∈ inRange r data, bucket p d s.1 * nsPerSecond ∈ grid r d ∧
      ∃ i < q.aggs.length, D.agg i (members D p r d data (keyOf D p d s)) = some y := by
  obtain ⟨sr, hsr, hlast⟩ := Option.bind_eq_some_iff.mp hy
  obtain ⟨pt, hpt, hvalue⟩ := List.mem_filterMap.mp (List.mem_of_getLast? hlast)
  have hmem := List.mem_of_head? hsr
  simp only [assemble, List.mem_filterMap, Option.map_eq_some_iff] at hmem
  obtain ⟨k, -, a, ha, rfl⟩ := hmem
  obtain ⟨b, hb, rfl⟩ := List.mem_map.mp hpt
  obtain ⟨c, hc, -, ht, rfl⟩ := SeriesKeys.cell_of_lookup ha hvalue
  obtain ⟨row, hrow, i, v, hv, rfl⟩ := (SeriesKeys.mem_cells_iff q rows c).mp hc
  obtain ⟨s, hs, rfl⟩ := mem_answers h hrow
  obtain ⟨hi, hagg⟩ := valueAt_resultRow (keyOf D p d s) |>.mp hv
  refine ⟨s, hs, ?_, i, hi, hagg⟩
  have hbucket : bucket p d s.1 = unix b := ht
  rw [hbucket, unix_of_grid hd hpos hb]
  exact hb

/-- Where the rows in range that count for a point of the grid are of one bucket, and there is but
one group, the number is an aggregate of that bucket's rows. -/
theorem lastValue_of_one (hd : nsPerSecond ∣ d) (hpos : 0 < d) (hgroup : ∀ s ∈ inRange r data, D.group s.2 = [])
    (h : Answers D p q r d data rows) (hkeys : keys.Perm (accumulate (cells q rows)).keys)
    {s : ℤ × α} (hrow : resultRow D p q r d data (keyOf D p d s) ∈ rows) (hs : s ∈ inRange r data)
    (hgrid : bucket p d s.1 * nsPerSecond ∈ grid r d)
    (hone : ∀ s' ∈ inRange r data, bucket p d s'.1 * nsPerSecond ∈ grid r d → bucket p d s'.1 = bucket p d s.1) :
    ∃ i < q.aggs.length, lastValue (assemble rows q r d keys) = D.agg i (members D p r d data (keyOf D p d s)) := by
  have hkeyOf : ∀ s' ∈ inRange r data, bucket p d s'.1 = bucket p d s.1 → keyOf D p d s' = keyOf D p d s := by
    intro s' hs' hb
    exact Prod.ext hb ((hgroup s' hs').trans (hgroup s hs).symm)
  have haggs : 0 < q.aggs.length := List.length_pos_iff.mpr q.aggs_ne
  generalize hL : (keys.mergeSort (before (accumulate (cells q rows)))).take (maxGroups * q.aggs.length) = L
  have hseries : (assemble rows q r d keys).series = L.filterMap fun k => ((accumulate (cells q rows)).lookup k).map fun a =>
      { name := seriesName q k, tags := a.tags, points := (grid r d).map fun b => ⟨b, a.points (unix b)⟩ } := by
    rw [← hL]
    rfl
  have hperm := (List.mergeSort_perm keys (before (accumulate (cells q rows)))).trans hkeys
  cases L with
  | nil =>
    -- No series at all: the bucket's row has no number.
    have hnil : (accumulate (cells q rows)).keys = [] := by
      have hlen := congrArg List.length hL
      rw [List.length_take, hperm.length_eq, List.length_nil] at hlen
      refine List.length_eq_zero_iff.mp ?_
      simp only [maxGroups] at hlen
      omega
    refine ⟨0, haggs, ?_⟩
    rw [lastValue, hseries, List.filterMap_nil, List.head?_nil, Option.bind_none]
    cases hagg : D.agg 0 (members D p r d data (keyOf D p d s)) with
    | none => rfl
    | some y =>
      have hcell := (SeriesKeys.mem_cells_iff q rows _).mpr ⟨_, hrow, 0, y, (valueAt_resultRow _).mpr ⟨haggs, hagg⟩, rfl⟩
      have hkey := (mem_accumulate (cells q rows) _).mpr (List.mem_map_of_mem hcell)
      rw [AList.mem_keys, hnil] at hkey
      exact absurd hkey List.not_mem_nil
  | cons k L =>
    have hk : k ∈ accumulate (cells q rows) := by
      rw [AList.mem_keys]
      refine hperm.mem_iff.mp (List.mem_of_mem_take (i := maxGroups * q.aggs.length) ?_)
      rw [hL]
      exact List.mem_cons_self
    obtain ⟨a, ha⟩ := Option.isSome_iff_exists.mp (AList.lookup_isSome.mpr hk)
    -- The series is one of an aggregation of the only group.
    obtain ⟨i, hi, hkey⟩ : ∃ i < q.aggs.length, k = ⟨i, label q []⟩ := by
      obtain ⟨c, hc, rfl⟩ := List.mem_map.mp ((mem_accumulate (cells q rows) k).mp hk)
      obtain ⟨row, hrow', i, v, hv, rfl⟩ := (SeriesKeys.mem_cells_iff q rows c).mp hc
      obtain ⟨s', hs', rfl⟩ := mem_answers h hrow'
      refine ⟨i, ((valueAt_resultRow _).mp hv).1, ?_⟩
      simp [resultRow, keyOf, hgroup s' hs']
    refine ⟨i, hi, ?_⟩
    have hlast : lastValue (assemble rows q r d keys) = ((grid r d).filterMap fun b => a.points (unix b)).getLast? := by
      simp only [lastValue, hseries, List.filterMap_cons, ha, Option.map_some, List.head?_cons, Option.bind_some, List.filterMap_map]
      rfl
    rw [hlast]
    refine getLast?_filterMap_eq ?_ ?_
    · intro b hb y hy
      obtain ⟨c, hc, hck, ht, rfl⟩ := SeriesKeys.cell_of_lookup ha hy
      obtain ⟨row, hrow', j, v, hv, rfl⟩ := (SeriesKeys.mem_cells_iff q rows c).mp hc
      obtain ⟨s', hs', rfl⟩ := mem_answers h hrow'
      have hj : j = i := by
        rw [hkey] at hck
        exact (Key.mk.inj hck).1
      have hb' : bucket p d s'.1 * nsPerSecond ∈ grid r d := by
        have hbucket : bucket p d s'.1 = unix b := ht
        rw [hbucket, unix_of_grid hd hpos hb]
        exact hb
      have hagg := ((valueAt_resultRow _).mp hv).2
      rw [hkeyOf s' hs' (hone s' hs' hb'), hj] at hagg
      exact hagg
    · intro y hy
      have hcell := (SeriesKeys.mem_cells_iff q rows _).mpr ⟨_, hrow, i, y, (valueAt_resultRow _).mpr ⟨hi, hy⟩, rfl⟩
      have hagree : ∀ c ∈ cells q rows, c.key = ⟨i, label q (resultRow D p q r d data (keyOf D p d s)).groups⟩ →
          c.t = bucket p d s.1 → c.value = y := by
        intro c hc hck ht
        obtain ⟨row, hrow', j, v, hv, rfl⟩ := (SeriesKeys.mem_cells_iff q rows c).mp hc
        obtain ⟨s', hs', rfl⟩ := mem_answers h hrow'
        obtain rfl : j = i := (Key.mk.inj hck).1
        have hagg := ((valueAt_resultRow _).mp hv).2
        rw [hkeyOf s' hs' ht, hy] at hagg
        exact (Option.some.inj hagg).symm
      obtain ⟨a', ha', hp⟩ := lookup_accumulate hcell hagree
      have hkey' : k = ⟨i, label q (resultRow D p q r d data (keyOf D p d s)).groups⟩ := by
        rw [hkey]
        simp [resultRow, keyOf, hgroup s hs]
      rw [← hkey'] at ha'
      obtain rfl := Option.some.inj (ha.symm.trans ha')
      refine ⟨_, hgrid, ?_⟩
      rw [unix, Int.mul_ediv_cancel _ (by decide)]
      exact hp

/-! ## The whole window -/

theorem seconds_eq (p : Platform) (hd : nsPerSecond ∣ d) (hpos : 0 < d) : p.seconds d * nsPerSecond = d := by
  obtain ⟨m, rfl⟩ := hd
  have hlt := p.seconds_lt _ hpos
  have hgt := p.lt_seconds _ hpos
  simp only [nsPerSecond] at *
  omega

omit [Zero V] [Add V] [LT V] [DecidableLT V] [DecidableEq V] in
/-- A range no longer than a step has rows of three buckets at most, which are no more than the limit. -/
theorem row_mem_answers (hd : nsPerSecond ∣ d) (hpos : 0 < d) (hwidth : r.to_ - r.from_ ≤ d)
    (hgroup : ∀ s ∈ inRange r data, D.group s.2 = []) (h : Answers D p q r d data rows) {s : ℤ × α} (hs : s ∈ inRange r data) :
    resultRow D p q r d data (keyOf D p d s) ∈ rows := by
  obtain ⟨all, hperm, -, rfl⟩ := h
  have hsub : ((inRange r data).map (keyOf D p d)).dedup ⊆
      ([0, 1, 2] : List ℤ).map fun k => (unix (alignDown 0 d (milli r.from_) + k * d), ([] : List String)) := by
    intro k hk
    obtain ⟨s', hs', rfl⟩ := List.mem_map.mp (List.mem_dedup.mp hk)
    have hrange := List.mem_filter.mp hs'
    simp only [decide_eq_true_eq] at hrange
    obtain ⟨-, hfrom, hto⟩ := hrange
    have hfirst := lt_alignDown_add 0 hpos (milli r.from_)
    have hle := alignDown_le 0 hpos (milli r.from_)
    have hle' := alignDown_le 0 hpos s'.1
    have hlt' := lt_alignDown_add 0 hpos s'.1
    have hms := lt_alignDown_add 0 (show (0 : ℤ) < 1000000 by decide) r.from_
    have hms' := milli_le r.to_
    obtain ⟨x, hx⟩ := dvd_alignDown_sub 0 d (milli r.from_)
    obtain ⟨y, hy⟩ := dvd_alignDown_sub 0 d s'.1
    obtain ⟨m, rfl⟩ := hd
    have hm : 0 < m := by
      simp only [nsPerSecond] at hpos
      omega
    have hlong : (1000000 : ℤ) ≤ nsPerSecond * m := by
      simp only [nsPerSecond]
      omega
    have hnext : alignDown 0 (nsPerSecond * m) s'.1 = alignDown 0 (nsPerSecond * m) (milli r.from_) + (y - x) * (nsPerSecond * m) := by
      linarith
    have hmilli : r.from_ < milli r.from_ + 1000000 := hms
    have hlow : 0 ≤ y - x := by
      by_contra hneg
      have : (y - x) * (nsPerSecond * m) ≤ -1 * (nsPerSecond * m) := by gcongr; omega
      omega
    have hhigh : y - x ≤ 2 := by
      by_contra hbig
      have : 3 * (nsPerSecond * m) ≤ (y - x) * (nsPerSecond * m) := by gcongr; omega
      omega
    refine List.mem_map.mpr ⟨y - x, ?_, ?_⟩
    · simp only [List.mem_cons, List.not_mem_nil, or_false]
      omega
    · refine Prod.ext ?_ (hgroup s' hs').symm
      rw [← hnext]
      change _ = bucket p _ _
      rw [bucket, seconds_eq p ⟨m, rfl⟩ hpos]
  have hlen : all.length ≤ limit := by
    have hle := ((List.nodup_dedup _).subperm hsub).length_le
    rw [hperm.length_eq, List.length_map]
    exact hle.trans (by simp [limit])
  rw [List.take_of_length_le hlen]
  exact hperm.mem_iff.mpr (List.mem_map_of_mem (List.mem_dedup.mpr (List.mem_map_of_mem hs)))

theorem mem_inWindow {s : ℤ × α} : s ∈ (data.filter fun s => r.from_ ≤ s.1 ∧ s.1 < r.to_) ↔ s ∈ data ∧ r.from_ ≤ s.1 ∧ s.1 < r.to_ := by
  simp

theorem mem_inRange {s : ℤ × α} : s ∈ inRange r data ↔ s ∈ data ∧ milli r.from_ ≤ s.1 ∧ s.1 < milli r.to_ := by
  simp [inRange]

theorem whole_of_inStep {g : ℤ} (hd : nsPerSecond ∣ d) (hpos : 0 < d) (hwidth : r.to_ - r.from_ ≤ d) (hgroup : ∀ a, D.group a = [])
    (hstep : InStep p g r d) (hdata : ∀ s ∈ data, g ∣ s.1) (h : Answers D p q r d data rows)
    (hkeys : keys.Perm (accumulate (cells q rows)).keys) :
    Whole D q.aggs.length (inWindow r.from_ r.to_ data) (lastValue (assemble rows q r d keys)) := by
  have hsees : ∀ s ∈ inRange r data, bucket p d s.1 * nsPerSecond ∈ grid r d → r.from_ ≤ s.1 ∧ s.1 < r.to_ := by
    intro s hs hgrid
    obtain ⟨hmem, hfrom, hto⟩ := mem_inRange.mp hs
    exact hstep.within s.1 (hdata s hmem) ⟨hfrom, hto, hgrid⟩
  constructor
  · intro hnil
    cases hv : lastValue (assemble rows q r d keys) with
    | none => rfl
    | some y =>
      obtain ⟨s, hs, hgrid, -⟩ := of_lastValue hd hpos h hv
      have hmem := mem_inWindow.mpr ⟨(mem_inRange.mp hs).1, hsees s hs hgrid⟩
      rw [List.map_eq_nil_iff.mp hnil] at hmem
      exact absurd hmem List.not_mem_nil
  · intro hne
    obtain ⟨s, hs⟩ := List.exists_mem_of_ne_nil _ fun hnil => hne (List.map_eq_nil_iff.mpr hnil)
    obtain ⟨hmem, hfrom, hto⟩ := mem_inWindow.mp hs
    obtain ⟨hfrom', hto', hgrid⟩ := hstep.seen s.1 (hdata s hmem) hfrom hto
    have hrange : s ∈ inRange r data := mem_inRange.mpr ⟨hmem, hfrom', hto'⟩
    have hone : ∀ s' ∈ inRange r data, bucket p d s'.1 * nsPerSecond ∈ grid r d → bucket p d s'.1 = bucket p d s.1 := by
      intro s' hs' hgrid'
      have hw := hsees s' hs' hgrid'
      exact hstep.one _ _ (hdata s' (mem_inRange.mp hs').1) (hdata s hmem) hw.1 hw.2 hfrom hto
    obtain ⟨i, hi, hv⟩ := lastValue_of_one hd hpos (fun s _ => hgroup s.2) h hkeys
      (row_mem_answers hd hpos hwidth (fun s _ => hgroup s.2) h hrange) hrange hgrid hone
    refine ⟨i, hi, ?_⟩
    rw [hv, members, inWindow, inRange, List.filter_filter]
    congr 2
    refine List.filter_congr fun s' hs' => ?_
    -- In range and of the bucket is in the window.
    simp only [keyOf, hgroup, Prod.mk.injEq, and_true, Bool.and_eq_decide, decide_eq_true_eq, decide_eq_decide]
    constructor
    · rintro ⟨hb, hr⟩
      refine hsees s' (mem_inRange.mpr ⟨hs', hr⟩) ?_
      rw [hb]
      exact hgrid
    · rintro ⟨hf, ht⟩
      have hs'' := hstep.seen s'.1 (hdata s' hs') hf ht
      exact ⟨hstep.one _ _ (hdata s' hs') (hdata s hmem) hf ht hfrom hto, hs''.1, hs''.2.1⟩

/-! ## What is not whole -/

section
variable {groups : List String} {aggs : List Agg} {a b : α}

/-- Two rows of the window give a number of both only where they count for one bucket and group
on the grid. -/
theorem together (hd : nsPerSecond ∣ d) (hpos : 0 < d) (htells : Tells D groups.length aggs.length a b) {t t' : ℤ}
    (ht : r.from_ ≤ t ∧ t < r.to_) (ht' : r.from_ ≤ t' ∧ t' < r.to_)
    (hwhole : ∀ v, Shows D p r d groups aggs [(t, a), (t', b)] v →
      Whole D aggs.length (inWindow r.from_ r.to_ [(t, a), (t', b)]) v) :
    aggs ≠ [] ∧ keyOf D p d (t, a) = keyOf D p d (t', b) ∧ (Seen p r d t ∨ Seen p r d t') := by
  have hwindow : inWindow r.from_ r.to_ [(t, a), (t', b)] = [a, b] := by simp [inWindow, ht, ht']
  rw [hwindow] at hwhole
  have haggs : aggs ≠ [] := by
    rintro rfl
    obtain ⟨i, hi, -⟩ := (hwhole none (by simp [Shows])).2 (List.cons_ne_nil _ _)
    simp at hi
  obtain ⟨rows, hrows⟩ := exists_answers D p ⟨groups, aggs, haggs⟩ r d [(t, a), (t', b)]
  have hshows := hwhole _ ((dif_pos haggs).mpr ⟨rows, _, hrows, List.Perm.refl _, rfl⟩)
  obtain ⟨j, hj, hv⟩ := hshows.2 (List.cons_ne_nil _ _)
  obtain ⟨y, hy⟩ := Option.ne_none_iff_exists'.mp (htells.both j hj)
  rw [hy] at hv
  obtain ⟨s, hs, hgrid, i, hi, hagg⟩ := of_lastValue hd hpos hrows hv
  obtain ⟨hmem, hfrom, hto⟩ := mem_inRange.mp hs
  have hseen : Seen p r d s.1 := ⟨hfrom, hto, hgrid⟩
  rw [← hy] at hagg
  refine ⟨haggs, ?_, ?_⟩
  · -- Rows of two buckets or groups are aggregated alone.
    by_contra hne
    simp only [List.mem_cons, List.not_mem_nil, or_false] at hmem
    rcases hmem with rfl | rfl
    · have hmembers : members D p r d [(t, a), (t', b)] (keyOf D p d (t, a)) = [a] := by
        have ha : milli r.from_ ≤ t ∧ t < milli r.to_ := ⟨hfrom, hto⟩
        have hne' : ¬keyOf D p d (t', b) = keyOf D p d (t, a) := Ne.symm hne
        by_cases hb : milli r.from_ ≤ t' ∧ t' < milli r.to_ <;> simp [members, inRange, ha, hb, hne']
      rw [hmembers] at hagg
      exact htells.first i hi j hj hagg
    · have hmembers : members D p r d [(t, a), (t', b)] (keyOf D p d (t', b)) = [b] := by
        have hb : milli r.from_ ≤ t' ∧ t' < milli r.to_ := ⟨hfrom, hto⟩
        by_cases ha : milli r.from_ ≤ t ∧ t < milli r.to_ <;> simp [members, inRange, ha, hb, hne]
      rw [hmembers] at hagg
      exact htells.second i hi j hj hagg
  · simp only [List.mem_cons, List.not_mem_nil, or_false] at hmem
    rcases hmem with rfl | rfl
    · exact .inl hseen
    · exact .inr hseen

variable (p groups aggs) in
/-- The number is an aggregate of the whole window, whatever its rows are, if and only if the query
is one series and the window lies in a step. -/
theorem shows_whole_iff {g : ℤ} (hd : nsPerSecond ∣ d) (hpos : 0 < d) (hwidth : r.to_ - r.from_ ≤ d)
    (hgroup : ∀ a, (D.group a).length = groups.length) (htells : Tells D groups.length aggs.length a b)
    (hsome : ∃ t, g ∣ t ∧ r.from_ ≤ t ∧ t < r.to_) :
    (∀ data, (∀ s ∈ data, g ∣ s.1) → ∀ v, Shows D p r d groups aggs data v → Whole D aggs.length (inWindow r.from_ r.to_ data) v) ↔
      aggs ≠ [] ∧ groups = [] ∧ InStep p g r d := by
  constructor
  · intro h
    have htwo : ∀ t t', g ∣ t → g ∣ t' → r.from_ ≤ t → t < r.to_ → r.from_ ≤ t' → t' < r.to_ →
        aggs ≠ [] ∧ keyOf D p d (t, a) = keyOf D p d (t', b) ∧ (Seen p r d t ∨ Seen p r d t') := by
      intro t t' hg hg' hf ht hf' ht'
      refine together hd hpos htells ⟨hf, ht⟩ ⟨hf', ht'⟩ (h _ ?_)
      simp [hg, hg']
    obtain ⟨t₀, hg₀, hf₀, ht₀⟩ := hsome
    obtain ⟨haggs, hkey, -⟩ := htwo t₀ t₀ hg₀ hg₀ hf₀ ht₀ hf₀ ht₀
    have hgroups : groups = [] := by
      by_contra hne
      exact htells.groups (List.length_pos_iff.mpr hne) (Prod.mk.inj hkey).2
    refine ⟨haggs, hgroups, ?_, ?_, ?_⟩
    · intro t hg hf ht
      obtain ⟨-, -, hseen⟩ := htwo t t hg hg hf ht hf ht
      exact hseen.elim id id
    · -- A row that counts though it is not in the window gives a number where there is none.
      intro t hg hseen
      by_contra hout
      have hnil : inWindow r.from_ r.to_ [(t, a)] = [] := by simpa [inWindow] using hout
      have hempty : ∀ a, D.group a = [] := fun a => List.length_eq_zero_iff.mp (by rw [hgroup a, hgroups, List.length_nil])
      have hs : ((t, a) : ℤ × α) ∈ inRange r [(t, a)] := mem_inRange.mpr ⟨by simp, hseen.1, hseen.2.1⟩
      obtain ⟨rows, hrows⟩ := exists_answers D p ⟨groups, aggs, haggs⟩ r d [(t, a)]
      have hnone := (h [(t, a)] (by simpa using hg) _ ((dif_pos haggs).mpr ⟨rows, _, hrows, List.Perm.refl _, rfl⟩)).1 hnil
      obtain ⟨i, hi, hv⟩ := lastValue_of_one hd hpos (fun s _ => hempty s.2) hrows (List.Perm.refl _)
        (row_mem_answers hd hpos hwidth (fun s _ => hempty s.2) hrows hs) hs hseen.2.2 (by
          intro s' hs' _
          rw [List.mem_singleton.mp (mem_inRange.mp hs').1])
      have hmembers : members D p r d [(t, a)] (keyOf D p d (t, a)) = [a] := by
        simp [members, inRange, hseen.1, hseen.2.1]
      rw [hmembers, hnone] at hv
      exact htells.one i hi hv.symm
    · intro t t' hg hg' hf ht hf' ht'
      obtain ⟨-, hkey, -⟩ := htwo t t' hg hg' hf ht hf' ht'
      exact (Prod.mk.inj hkey).1
  · rintro ⟨haggs, rfl, hstep⟩ data hdata v hv
    unfold Shows at hv
    rw [dif_pos haggs] at hv
    obtain ⟨rows, keys, hrows, hkeys, rfl⟩ := hv
    exact whole_of_inStep (q := ⟨[], aggs, haggs⟩) hd hpos hwidth (fun a => List.length_eq_zero_iff.mp (hgroup a)) hstep hdata hrows hkeys

end

end

/-! ## Windows in a step -/

/-- Rows at any instant: the window lies in a step of the grid where it does, its end is a whole
millisecond, and the steps from 1970 are those from year 1. -/
theorem inStep_one_iff (p : Platform) (r : TimeRange) {d n : ℤ} (hd : nsPerSecond ∣ d) (hpos : 0 < d)
    (hn : r.to_ - r.from_ = n * nsPerSecond) :
    InStep p 1 r d ↔ 1000000 ∣ r.to_ ∧ r.to_ ≤ alignDown 0 d r.from_ + d ∧ d ∣ zeroTime := by
  have hbucket : ∀ t, bucket p d t * nsPerSecond = alignDown 0 d t := by
    intro t
    have h := hd.trans (dvd_alignDown_sub 0 d t)
    rw [Int.sub_zero] at h
    rw [bucket, seconds_eq p hd hpos, unix, Int.ediv_mul_cancel h]
  have hlt := r.from_lt_to
  have hle := alignDown_le 0 hpos r.from_
  constructor
  · intro h
    obtain ⟨-, hlast, -⟩ := h.seen (r.to_ - 1) (one_dvd _) (by omega) (by omega)
    obtain ⟨-, -, hgrid⟩ := h.seen r.from_ (one_dvd _) le_rfl hlt
    have hsame := h.one r.from_ (r.to_ - 1) (one_dvd _) (one_dvd _) le_rfl hlt (by omega) (by omega)
    have hmilli := dvd_alignDown_sub 0 1000000 r.to_
    refine ⟨?_, ?_, ?_⟩
    · have hle' := milli_le r.to_
      rw [milli] at hlast hle'
      rwa [show alignDown 0 1000000 r.to_ = r.to_ by omega, Int.sub_zero] at hmilli
    · have hnext := lt_alignDown_add 0 hpos (r.to_ - 1)
      have heq : alignDown 0 d r.from_ = alignDown 0 d (r.to_ - 1) := by rw [← hbucket, ← hbucket, hsame]
      omega
    · -- The bucket is at or before the range, where the grid has its first point only.
      rw [hbucket, grid, mem_stepsFrom _ _ hpos] at hgrid
      obtain ⟨-, k, hk⟩ := hgrid
      have hstart := lt_alignDown_add zeroTime hpos r.from_
      have hzero : k = 0 := by
        by_contra hne
        have hk1 : (1 : ℤ) ≤ k := by exact_mod_cast Nat.one_le_iff_ne_zero.mpr hne
        have := mul_le_mul_of_nonneg_right hk1 hpos.le
        omega
      rw [hzero] at hk
      have h1 := dvd_alignDown_sub 0 d r.from_
      have h2 := dvd_alignDown_sub zeroTime d r.from_
      have h3 := h1.sub h2
      rw [hk] at h3
      simpa using h3
  · rintro ⟨hms, hone, hzero⟩
    have hms' : 1000000 ∣ r.from_ := by
      have hns : (1000000 : ℤ) ∣ n * nsPerSecond := ⟨n * 1000, by rw [nsPerSecond]; ring⟩
      have h := hms.sub hns
      rwa [show r.to_ - n * nsPerSecond = r.from_ by omega] at h
    have hmilli : ∀ {t : ℤ}, 1000000 ∣ t → milli t = t := by
      intro t ht
      rw [milli, alignDown_eq_iff 0 (by decide)]
      exact ⟨by simpa using ht, le_rfl, by omega⟩
    have hin : ∀ t, r.from_ ≤ t → t < r.to_ → alignDown 0 d t = alignDown 0 d r.from_ := by
      intro t hf ht
      rw [alignDown_eq_iff 0 hpos]
      exact ⟨dvd_alignDown_sub 0 d r.from_, by omega, by omega⟩
    have hstart : alignDown zeroTime d r.from_ = alignDown 0 d r.from_ := by
      rw [alignDown_eq_iff zeroTime hpos]
      refine ⟨?_, hle, lt_alignDown_add 0 hpos r.from_⟩
      have h := (dvd_alignDown_sub 0 d r.from_).sub hzero
      simpa using h
    refine ⟨?_, ?_, ?_⟩
    · intro t _ hf ht
      refine ⟨by rw [hmilli hms']; exact hf, by rw [hmilli hms]; exact ht, ?_⟩
      rw [hbucket, hin t hf ht, grid, mem_stepsFrom _ _ hpos]
      exact ⟨by omega, 0, by simp [hstart]⟩
    · rintro t - ⟨hf, ht, -⟩
      rw [hmilli hms'] at hf
      rw [hmilli hms] at ht
      exact ⟨hf, ht⟩
    · intro t t' _ _ hf ht hf' ht'
      have heq : bucket p d t * nsPerSecond = bucket p d t' * nsPerSecond := by
        rw [hbucket, hbucket, hin t hf ht, hin t' hf' ht']
      exact mul_right_cancel₀ (by decide) heq

/-! ## The rule's request -/

section
open EvaluationWindows (second day maxDatetime parseWindow ruleRequest resolve signalOf tierOf tierFor)

/-- The range of a window that ends now. -/
def rangeOf (now : ℤ) (w : ℕ) (h : 0 < w) : TimeRange := ⟨(now - w) * 1000, now * 1000, by omega⟩

theorem rangeOf_sub (now : ℤ) (w : ℕ) (h : 0 < w) : (rangeOf now w h).to_ - (rangeOf now w h).from_ = w * 1000 := by
  simp only [rangeOf]
  ring

/-- The step that a window is asked for with, which is no finer than the table. -/
def widthOf (signal : String) (r : TimeRange) (w : ℕ) : ℤ := max (w * 1000) (stepFloor (tierOf signal r))

/-- What the instants of a table's rows are multiples of: a rollup has one row for each of its
buckets. -/
def rowGrain (histogram : Bool) (signal : String) (r : TimeRange) : ℤ :=
  if signal = "metrics" ∧ histogram = false then
    match tierFor r with
    | .raw => 1
    | .minute => minute
    | .hour => hour
  else 1

variable {x : EvaluationWindows.Platform} {rule : EvaluationWindows.Rule} {now : ℤ} {w n : ℕ}

theorem widthOf_spec (signal : String) (r : TimeRange) (hw : w = n * second) :
    nsPerSecond ∣ widthOf signal r w ∧ 0 < widthOf signal r w ∧ (w : ℤ) * 1000 ≤ widthOf signal r w := by
  have hfloor : nsPerSecond ∣ stepFloor (tierOf signal r) := by
    cases tierOf signal r <;> decide
  have hwidth : nsPerSecond ∣ (w : ℤ) * 1000 := by
    refine ⟨n, ?_⟩
    rw [hw]
    simp only [second, nsPerSecond]
    push_cast
    ring
  have hge := stepFloor_ge (tierOf signal r)
  refine ⟨?_, ?_, le_max_left _ _⟩
  · rcases max_choice ((w : ℤ) * 1000) (stepFloor (tierOf signal r)) with h | h <;> rw [widthOf, h] <;> assumption
  · have hle := le_max_right ((w : ℤ) * 1000) (stepFloor (tierOf signal r))
    simp only [nsPerSecond] at hge
    rw [widthOf]
    omega

theorem signalOf_ne (h : rule.signal ∈ ["metric", "log", "trace"]) : signalOf rule.signal ≠ "" := by
  simp only [List.mem_cons, List.not_mem_nil, or_false] at h
  rcases h with h | h | h <;> rw [h] <;> decide

/-- A rule's request is resolved to its window, in one step or in those of the table. -/
theorem resolve_ruleRequest (detected : String) (clock : ℤ) (hnow : 0 ≤ now) (hmax : now ≤ maxDatetime)
    (hsignal : rule.signal ∈ ["metric", "log", "trace"]) (hw : w = n * second) (hpos : 0 < w) (hlong : w ≤ 92 * day) :
    ∃ req, EvaluationWindows.query x (DerivedQueries.ruleQuery rule.queryString.toList) w now (EvaluationWindows.stepOf w)
        (signalOf rule.signal) = some req ∧ req.q = String.ofList (DerivedQueries.ruleQuery rule.queryString.toList) ∧
      resolve x detected clock req = .ok (rangeOf now w hpos, widthOf (signalOf rule.signal) (rangeOf now w hpos) w) := by
  have hto := EvaluationWindows.ne_empty_of_trimSpace (x.iso_ne now)
  have hfrom := EvaluationWindows.ne_empty_of_trimSpace (x.iso_ne (now - w))
  have hearly : ¬now - w < EvaluationWindows.minDatetime := by
    simp only [EvaluationWindows.minDatetime, second, day] at *
    omega
  have hf := x.rfc3339_iso (now - w) (not_lt.mp hearly) (by omega)
  have ht := x.rfc3339_iso now (le_trans (by decide) hnow) hmax
  have hrange : EvaluationWindows.range x (x.iso (now - w)) (x.iso now) clock hour = .ok (rangeOf now w hpos) := by
    refine (EvaluationWindows.range_iff hfrom hto hf ht).mpr ⟨rfl, rfl, ?_⟩
    simp only [EvaluationWindows.maxRange, hour, minute, nsPerSecond, second, day] at *
    omega
  have hns : (n : ℤ) * nsPerSecond = w * 1000 := by
    rw [hw]
    simp only [second, nsPerSecond]
    push_cast
    ring
  have hstep : SeriesAssembly.step x.toPlatform (toString n ++ "s") (rangeOf now w hpos)
      (tierOf (signalOf rule.signal) (rangeOf now w hpos)) = .ok (widthOf (signalOf rule.signal) (rangeOf now w hpos) w) := by
    have hsub : (rangeOf now w hpos).sub.tdiv (n * nsPerSecond) ≤ 2000 := by
      have hle : (rangeOf now w hpos).sub ≤ (w : ℤ) * 1000 := by
        simp only [TimeRange.sub, rangeOf, max_le_iff, min_le_iff]
        exact ⟨by omega, .inr (by omega)⟩
      have hge : 0 ≤ (rangeOf now w hpos).sub := by
        simp only [TimeRange.sub, rangeOf, le_max_iff, le_min_iff, maxInt64]
        exact .inr ⟨by norm_num, by omega⟩
      rw [hns, Int.tdiv_eq_ediv_of_nonneg hge]
      exact (Int.ediv_le_of_le_mul (by omega) (by omega : _ ≤ 2000 * ((w : ℤ) * 1000)))
    have hpos' : ¬(n * nsPerSecond : ℤ) ≤ 0 := by omega
    have hint : (n : ℤ) * nsPerSecond ≤ maxInt64 := by
      rw [hns]
      simp only [maxInt64, day, second] at *
      omega
    unfold SeriesAssembly.step
    rw [if_pos (EvaluationWindows.seconds_ne n), x.parseDuration_seconds n hint]
    dsimp only
    rw [if_neg hpos', if_neg (not_lt.mpr hsub), hns, widthOf]
  refine ⟨⟨String.ofList (DerivedQueries.ruleQuery rule.queryString.toList), x.iso (now - w), x.iso now, EvaluationWindows.stepOf w,
    signalOf rule.signal⟩, if_neg hearly, rfl, ?_⟩
  rw [EvaluationWindows.stepOf_second hw]
  simp only [resolve, x.iso_ne, or_self, if_false, hrange, if_neg (EvaluationWindows.seconds_ne n).1, if_neg (signalOf_ne hsignal), hstep]

theorem rowGrain_spec (histogram : Bool) (signal : String) (r : TimeRange) :
    0 < rowGrain histogram signal r ∧ rowGrain histogram signal r ≤ r.to_ - r.from_ := by
  have hlt := r.from_lt_to
  have hns : nsPerSecond = 1000000000 := rfl
  have hlong : ¬r.sub ≤ 6 * hour → 6 * hour < r.to_ - r.from_ := by
    intro h
    rw [EvaluationWindows.sub_le_iff r (by decide) (by decide)] at h
    exact not_le.mp h
  have hone : (0 : ℤ) < 1 ∧ 1 ≤ r.to_ - r.from_ := ⟨by decide, by omega⟩
  unfold rowGrain tierFor
  by_cases hm : signal = "metrics" ∧ histogram = false
  · rw [if_pos hm]
    by_cases h6 : r.sub ≤ 6 * hour
    · rw [if_pos h6]
      exact hone
    · have h := hlong h6
      rw [if_neg h6]
      simp only [hour, minute, hns] at h
      by_cases h7 : r.sub ≤ 7 * 24 * hour
      · rw [if_pos h7]
        simp only [minute, hns]
        omega
      · rw [if_neg h7]
        simp only [hour, minute, hns]
        omega
  · rw [if_neg hm]
    exact hone

variable {ν : Type} [Zero V] [Add V] [LT V] [DecidableLT V] [DecidableEq V]

theorem compared_whole_iff (x : EvaluationWindows.Platform) (lib : Library ν) (D : Meaning α V) (histogram : Bool) (detected : String)
    (clock : ℤ) (rule : EvaluationWindows.Rule) (ast : AST ν) (a b : α) (hnow : 0 ≤ now) (hmax : now ≤ maxDatetime)
    (hsignal : rule.signal ∈ ["metric", "log", "trace"]) (hw : parseWindow rule.thresholds.window (5 * 60 * second) = some w)
    (hpos : 0 < w) (hlong : w ≤ 92 * day)
    (hparse : QueryGrammar.parse lib (QueryGrammar.encode (DerivedQueries.ruleQuery rule.queryString.toList)) = .ok ast)
    (hgroup : ∀ a, (D.group a).length = ast.groupBy.length) (htells : Tells D ast.groupBy.length ast.agg.length a b) :
    (∀ data, (∀ s ∈ data, rowGrain histogram (signalOf rule.signal) (rangeOf now w hpos) ∣ s.1) →
      ∀ v, Compared x lib D detected clock rule now data v →
        Whole D ast.agg.length (inWindow ((now - w) * 1000) (now * 1000) data) v) ↔
    ast.agg ≠ [] ∧ ast.groupBy = [] ∧ InStep x.toPlatform (rowGrain histogram (signalOf rule.signal) (rangeOf now w hpos))
      (rangeOf now w hpos) (widthOf (signalOf rule.signal) (rangeOf now w hpos) w) := by
  obtain ⟨n, hn⟩ := EvaluationWindows.parseWindow_second ⟨300, rfl⟩ hw
  obtain ⟨hd, hwpos, hwidth⟩ := widthOf_spec (signalOf rule.signal) (rangeOf now w hpos) hn
  obtain ⟨hg, hgle⟩ := rowGrain_spec histogram (signalOf rule.signal) (rangeOf now w hpos)
  obtain ⟨req, hreq, hq, hres⟩ := resolve_ruleRequest (x := x) detected clock hnow hmax hsignal hn hpos hlong
  have hsome : ∃ t, rowGrain histogram (signalOf rule.signal) (rangeOf now w hpos) ∣ t ∧ (rangeOf now w hpos).from_ ≤ t ∧
      t < (rangeOf now w hpos).to_ := by
    generalize rowGrain histogram (signalOf rule.signal) (rangeOf now w hpos) = g at hg hgle
    refine ⟨alignDown 0 g ((rangeOf now w hpos).to_ - 1), ?_, ?_, ?_⟩
    · simpa using dvd_alignDown_sub 0 g ((rangeOf now w hpos).to_ - 1)
    · have := lt_alignDown_add 0 hg ((rangeOf now w hpos).to_ - 1)
      omega
    · have := alignDown_le 0 hg ((rangeOf now w hpos).to_ - 1)
      omega
  have hcompared : ∀ data v, Compared x lib D detected clock rule now data v ↔
      Shows D x.toPlatform (rangeOf now w hpos) (widthOf (signalOf rule.signal) (rangeOf now w hpos) w) (ast.groupBy.map name)
        (ast.agg.map fun a => ⟨name a.fn, name a.field⟩) data v := by
    intro data v
    have hreq' : ruleRequest x rule now = some req := by
      rw [ruleRequest, hw]
      exact hreq
    have hparse' : QueryGrammar.parse lib (QueryGrammar.bytes req.q) = .ok ast := by
      rw [hq, QueryGrammar.bytes, String.toList_ofList]
      exact hparse
    constructor
    · rintro ⟨req', r, d, ast', hr, hrd, hast, hshows⟩
      rw [hreq'] at hr
      obtain rfl := Option.some.inj hr
      rw [hres] at hrd
      obtain ⟨rfl, rfl⟩ := Prod.mk.inj (Except.ok.inj hrd)
      rw [hparse'] at hast
      obtain rfl := Except.ok.inj hast
      exact hshows
    · intro hshows
      exact ⟨req, _, _, ast, hreq', hres, hparse', hshows⟩
  have hwhole := shows_whole_iff x.toPlatform (ast.groupBy.map name) (ast.agg.map fun a => ⟨name a.fn, name a.field⟩) (D := D)
    (a := a) (b := b) hd hwpos (by rw [rangeOf_sub]; exact hwidth) (by simpa using hgroup) (by simpa using htells) hsome
  simp only [List.length_map, ne_eq, List.map_eq_nil_iff] at hwhole
  simp only [hcompared]
  exact hwhole

end

/-! ## Five minutes of errors -/

/-- A count of rows of one kind. -/
def counted : Meaning Unit ℤ := ⟨fun _ => [], fun _ rows => some rows.length⟩

theorem counted_tells : Tells counted 0 1 () () where
  groups h := absurd h (by decide)
  first _ _ _ _ := by simp [counted]
  second _ _ _ _ := by simp [counted]
  both _ _ := by simp [counted]
  one _ _ := by simp [counted]

def errors : EvaluationWindows.Rule where
  name := "Errors"
  signal := "log"
  queryString := "level:error"
  thresholds := ⟨none, 10, "5m"⟩
  notify := ⟨some [], 60, 0, some []⟩

def errorsAst : AST PrintedQueries.Digits where
  filters := [.facet (QueryGrammar.bytes "level") .eq (.str (QueryGrammar.bytes "error"))]
  agg := [⟨QueryGrammar.bytes "count", []⟩]

theorem parse_errors : QueryGrammar.parse PrintedQueries.digitLibrary
    (QueryGrammar.encode (DerivedQueries.ruleQuery errors.queryString.toList)) = .ok errorsAst := by
  decide +kernel

theorem window_errors :
    EvaluationWindows.parseWindow errors.thresholds.window (5 * 60 * EvaluationWindows.second) = some 300000000 := by
  decide +kernel

/-- The count of errors is that of all in the last five minutes, whatever the rows are. -/
def ErrorsWhole (now : ℤ) : Prop :=
  ∀ data : List (ℤ × Unit), ∀ v,
    Compared EvaluationWindows.plain PrintedQueries.digitLibrary counted "" 0 errors now data v →
      Whole counted 1 (inWindow ((now - (300000000 : ℕ)) * 1000) (now * 1000) data) v

end Upstat.RuleValues
