import Mathlib.Data.Finset.Card
import Mathlib.Data.List.AList
import Upstat.AlignedGrids

/-! # Buckets of a timeseries query (`compile.go`, `telemetry/query.go`)

`step` picks a bucket width, the series query groups rows by `toStartOfInterval`, and
`assemble` lays the rows out over a grid of its own. Instants and durations are
nanoseconds, instants counted from 1970. Values are of any type that adds and compares,
and the order in which a map is ranged over is an argument. -/
namespace Upstat.SeriesAssembly

open AlignedGrids

def nsPerSecond : ℤ := 1000000000
def minute : ℤ := 60 * nsPerSecond
def hour : ℤ := 60 * minute

/-- Go's zero time, the first instant of year 1, which `Truncate` counts from. -/
def zeroTime : ℤ := -62135596800 * nsPerSecond

inductive Tier where
  | raw | minute | hour
  deriving DecidableEq, Repr

/-- `time.ParseDuration`, whose fractions go through floating point, and `int(d.Seconds())`,
which does too: on either side of a whole second it may round up. -/
structure Platform where
  parseDuration : String → Option ℤ
  seconds : ℤ → ℤ
  seconds_lt (d : ℤ) : 0 < d → seconds d * nsPerSecond < d + nsPerSecond
  lt_seconds (d : ℤ) : 0 < d → d - nsPerSecond < seconds d * nsPerSecond

/-- A query's range, as `Range` lets it through. -/
structure TimeRange where
  from_ : ℤ
  to_ : ℤ
  from_lt_to : from_ < to_

def maxInt64 : ℤ := 2 ^ 63 - 1

/-- `to.Sub(from)`, which saturates. -/
def TimeRange.sub (r : TimeRange) : ℤ := max (-2 ^ 63) (min maxInt64 (r.to_ - r.from_))

/-- `strconv.Atoi`. -/
def atoi (s : String) : Option ℤ :=
  let digits (cs : List Char) : Option ℤ :=
    if cs ≠ [] ∧ cs.all Char.isDigit then
      some (cs.foldl (fun n c => n * 10 + (c.toNat - '0'.toNat : ℕ)) 0)
    else none
  let n := match s.toList with
    | '-' :: cs => (digits cs).map (- ·)
    | '+' :: cs => digits cs
    | cs => digits cs
  n.filter fun n => -2 ^ 63 ≤ n ∧ n ≤ maxInt64

/-- A product of two `int64`s. -/
def mul64 (a b : ℤ) : ℤ := (a * b).bmod (2 ^ 64)

def steps : List ℤ := [10 * nsPerSecond, minute, 5 * minute, hour, 24 * hour]

/-- The grain of the tier's table. -/
def stepFloor : Tier → ℤ
  | .raw => 10 * nsPerSecond
  | .minute => minute
  | .hour => hour

/-- The `n` of a step written in days. -/
def trimDays (spec : String) : Option ℤ :=
  match spec.toList.reverse with
  | 'd' :: cs => atoi (String.ofList cs.reverse)
  | _ => none

/-- The bucket width: automatic or explicit, never finer than the tier's own grain. -/
def step (p : Platform) (spec : String) (r : TimeRange) (tier : Tier) : Except String ℤ :=
  if spec ≠ "" ∧ spec ≠ "auto" then
    match p.parseDuration spec with
    | none =>
      match trimDays spec with
      | some n =>
        if 0 < n then .ok (max (mul64 (mul64 n 24) hour) (stepFloor tier))
        else .error "step must be a duration like 1m or 1h"
      | none => .error "step must be a duration like 1m or 1h"
    | some d =>
      if d ≤ 0 then .error "step must be positive"
      else if 2000 < r.sub.tdiv d then .error "step too small for the range (max 2000 buckets)"
      else .ok (max d (stepFloor tier))
  else
    let raw := r.sub.tdiv 200
    match steps.find? fun s => raw ≤ s with
    | some s => .ok (max s (stepFloor tier))
    | none => .ok (max (24 * hour) (stepFloor tier))

structure Agg where
  fn : String
  field : String
  deriving DecidableEq, Repr

/-- What `Series` compiles: the columns the rows come back with. A query without an
aggregation is refused there. -/
structure Query where
  groups : List String
  aggs : List Agg
  aggs_ne : aggs ≠ []

/-- A row as `Assemble` reads it: its bucket in Unix seconds, its group columns, and its
aggregate columns, `none` where the column is no number. -/
structure Row (V : Type) where
  t : ℤ
  groups : List String
  values : List (Option V)

structure Key where
  agg : ℕ
  group : String
  deriving DecidableEq, Repr

structure Acc (V : Type) where
  tags : List (String × String)
  points : ℤ → Option V
  total : V

structure Point (V : Type) where
  ts : ℤ
  value : Option V
  deriving DecidableEq

structure Series (V : Type) where
  name : String
  tags : List (String × String)
  points : List (Point V)

structure Timeseries (V : Type) where
  kind : String
  series : List (Series V)
  step : String

/-- The cap on a series result's cardinality, for each aggregation. -/
def maxGroups : ℕ := 20

/-- One aggregate value of a row, under the series it belongs to. -/
structure Cell (V : Type) where
  key : Key
  tags : List (String × String)
  t : ℤ
  value : V

def label (q : Query) (groups : List String) : String :=
  " ".intercalate ((q.groups.zip groups).map fun (g, v) => g ++ ":" ++ v)

/-- The group columns as a map: of two columns of one name the later one counts. -/
def tagsOf (q : Query) (groups : List String) : List (String × String) :=
  (q.groups.zip groups).foldl (fun m (g, v) => m.filter (·.1 ≠ g) ++ [(g, v)]) []

/-- The values the two loops over rows and aggregations come to, in order. -/
def cells {V : Type} (q : Query) (rows : List (Row V)) : List (Cell V) :=
  rows.flatMap fun row =>
    (row.values.take q.aggs.length).zipIdx.filterMap fun (v, i) =>
      v.map fun v => ⟨⟨i, label q row.groups⟩, tagsOf q row.groups, row.t, v⟩

def stepLabel (d : ℤ) : String :=
  if d.tmod (24 * hour) = 0 then toString (d.tdiv (24 * hour)) ++ "d"
  else if d.tmod hour = 0 then toString (d.tdiv hour) ++ "h"
  else if d.tmod minute = 0 then toString (d.tdiv minute) ++ "m"
  else toString (d.tdiv nsPerSecond) ++ "s"

def unix (ts : ℤ) : ℤ := ts / nsPerSecond

/-- The instants of the assembled series: from `from.Truncate(step)` on, before `to`. -/
def grid (r : TimeRange) (d : ℤ) : List ℤ := stepsFrom (alignDown zeroTime d r.from_) r.to_ d

section Assembling
variable {V : Type} [Zero V] [Add V]

abbrev SeriesMap (V : Type) := AList fun _ : Key => Acc V

/-- A value lands on its series' point, and on its total. -/
def addCell (m : SeriesMap V) (c : Cell V) : SeriesMap V :=
  let a := (m.lookup c.key).getD ⟨c.tags, fun _ => none, 0⟩
  m.insert c.key { a with points := Function.update a.points c.t (some c.value), total := a.total + c.value }

def accumulate (cs : List (Cell V)) : SeriesMap V := cs.foldl addCell ∅

theorem accumulate_concat (cs : List (Cell V)) (c : Cell V) :
    accumulate (cs ++ [c]) = addCell (accumulate cs) c := by
  simp [accumulate]

theorem mem_accumulate (cs : List (Cell V)) (k : Key) : k ∈ accumulate cs ↔ k ∈ cs.map Cell.key := by
  induction cs using List.reverseRecOn with
  | nil => simp [accumulate]
  | append_singleton cs c ih =>
    rw [accumulate_concat, addCell, AList.mem_insert, ih]
    simp [or_comm]

/-- The keys of the map, counted on the values. -/
theorem keys_accumulate (cs : List (Cell V)) :
    (accumulate cs).keys.length = (cs.map Cell.key).toFinset.card := by
  rw [← List.toFinset_card_of_nodup (accumulate cs).keys_nodup]
  congr 1
  ext k
  rw [List.mem_toFinset, List.mem_toFinset, ← mem_accumulate]
  exact AList.mem_keys.symm

/-- A point holds a value where all values of its series and instant agree. -/
theorem lookup_accumulate {cs : List (Cell V)} {c : Cell V} (hc : c ∈ cs)
    (hagree : ∀ c' ∈ cs, c'.key = c.key → c'.t = c.t → c'.value = c.value) :
    ∃ a, (accumulate cs).lookup c.key = some a ∧ a.points c.t = some c.value := by
  induction cs using List.reverseRecOn with
  | nil => simp at hc
  | append_singleton cs c' ih =>
    rw [accumulate_concat, addCell]
    by_cases hk : c'.key = c.key
    · rw [hk, AList.lookup_insert]
      refine ⟨_, rfl, ?_⟩
      by_cases ht : c'.t = c.t
      · simp [ht, hagree c' (by simp) hk ht]
      · -- Another instant of the same series: the point is an older one.
        have hne : c ≠ c' := fun h => ht (h ▸ rfl)
        have hcs : c ∈ cs := by simpa [hne] using hc
        obtain ⟨a, ha, hp⟩ := ih hcs fun d hd => hagree d (by simp [hd])
        simp [ha, Function.update_of_ne (Ne.symm ht), hp]
    · have hne : c ≠ c' := fun h => hk (h ▸ rfl)
      have hcs : c ∈ cs := by simpa [hne] using hc
      rw [AList.lookup_insert_ne (Ne.symm hk)]
      exact ih hcs fun d hd => hagree d (by simp [hd])

variable [LT V] [DecidableLT V] [DecidableEq V]

def totalOf (m : SeriesMap V) (k : Key) : V := ((m.lookup k).map Acc.total).getD 0

/-- Whether series `a` may stand before series `b`: larger totals first, then by label. -/
def before (m : SeriesMap V) (a b : Key) : Bool :=
  if totalOf m a ≠ totalOf m b then totalOf m b < totalOf m a else a.group ≤ b.group

def seriesName (q : Query) (k : Key) : String :=
  let name := match q.aggs[k.agg]? with
    | some a => a.fn ++ "(" ++ a.field ++ ")"
    | none => ""
  if k.group ≠ "" then name ++ " " ++ k.group else name

/-- The rows as named series over every bucket of the grid. `keys` are the map's keys in
the order they were ranged over. -/
def assemble (rows : List (Row V)) (q : Query) (r : TimeRange) (d : ℤ) (keys : List Key) :
    Timeseries V where
  kind := "timeseries"
  series :=
    let m := accumulate (cells q rows)
    ((keys.mergeSort (before m)).take (maxGroups * q.aggs.length)).filterMap fun k =>
      (m.lookup k).map fun a =>
        { name := seriesName q k
          tags := a.tags
          points := (grid r d).map fun b => ⟨b, a.points (unix b)⟩ }
  step := stepLabel d

/-- The range's bounds as the query's parameters carry them. -/
def milli (ts : ℤ) : ℤ := alignDown 0 1000000 ts

theorem milli_le (ts : ℤ) : milli ts ≤ ts := alignDown_le 0 (by decide) ts

/-! ## Which rows the result shows -/

/-- A result set of the compiled query: at most 50000 rows ordered by bucket, no two of
one bucket and group, and each the bucket of some instant between the range's bounds,
which travel in milliseconds. -/
structure ResultSet (p : Platform) (q : Query) (r : TimeRange) (d : ℤ) (V : Type) where
  rows : List (Row V)
  length_le : rows.length ≤ 50000
  ordered : rows.Pairwise fun a b => a.t ≤ b.t
  distinct : rows.Pairwise fun a b => (a.t, a.groups) ≠ (b.t, b.groups)
  columns : ∀ row ∈ rows, row.groups.length = q.groups.length ∧ row.values.length = q.aggs.length
  bucket : ∀ row ∈ rows, ∃ i, milli r.from_ ≤ i ∧ i < milli r.to_ ∧
    row.t * nsPerSecond = alignDown 0 (p.seconds d * nsPerSecond) i

/-- At most `maxGroups` series for each aggregation, and two rows that come under one label
in one bucket say the same. -/
def ResultSet.Fits {p : Platform} {q : Query} {r : TimeRange} {d : ℤ} (rs : ResultSet p q r d V) : Prop :=
  ((cells q rs.rows).map Cell.key).toFinset.card ≤ maxGroups * q.aggs.length ∧
    ∀ c ∈ cells q rs.rows, ∀ c' ∈ cells q rs.rows, c'.key = c.key → c'.t = c.t → c'.value = c.value

/-- The value stands at its bucket, in the series of its aggregation and group. -/
def Shown (q : Query) (out : Timeseries V) (c : Cell V) : Prop :=
  ∃ sr ∈ out.series, sr.name = seriesName q c.key ∧ ⟨c.t * nsPerSecond, some c.value⟩ ∈ sr.points

/-- Every value of every result set that fits is shown, whatever order the map is ranged over. -/
def AllShown (p : Platform) (q : Query) (r : TimeRange) (d : ℤ) (V : Type)
    [Zero V] [Add V] [LT V] [DecidableLT V] [DecidableEq V] : Prop :=
  ∀ rs : ResultSet p q r d V, rs.Fits → ∀ keys, keys.Perm (accumulate (cells q rs.rows)).keys →
    ∀ c ∈ cells q rs.rows, Shown q (assemble rs.rows q r d keys) c

/-- The first grid instant starts a bucket, and the buckets are as wide as the grid's step
unless the range ends within the first. -/
def GridMeets (p : Platform) (r : TimeRange) (d : ℤ) : Prop :=
  let w := p.seconds d * nsPerSecond
  milli r.to_ ≤ milli r.from_ ∨
    alignDown zeroTime d r.from_ = alignDown 0 w r.from_ ∧
      (w = d ∨ milli r.to_ ≤ alignDown 0 w r.from_ + w)

theorem stepFloor_ge (tier : Tier) : 10 * nsPerSecond ≤ stepFloor tier := by
  cases tier <;> decide

/-- A step is never finer than ten seconds. -/
theorem step_ge {p : Platform} {spec : String} {r : TimeRange} {tier : Tier} {d : ℤ}
    (h : step p spec r tier = .ok d) : 10 * nsPerSecond ≤ d := by
  have hmax : ∀ a, 10 * nsPerSecond ≤ max a (stepFloor tier) := fun a =>
    (stepFloor_ge tier).trans (le_max_right _ _)
  unfold step at h
  split at h
  · split at h
    · split at h
      · split at h
        · exact Except.ok.inj h ▸ hmax _
        · cases h
      · cases h
    · split at h
      · cases h
      · split at h
        · cases h
        · exact Except.ok.inj h ▸ hmax _
  · dsimp only at h
    split at h
    · exact Except.ok.inj h ▸ hmax _
    · exact Except.ok.inj h ▸ hmax _

theorem shown_of_fits {p : Platform} {q : Query} {r : TimeRange} {d : ℤ} {rs : ResultSet p q r d V}
    (hfits : rs.Fits) {keys : List Key} (hkeys : keys.Perm (accumulate (cells q rs.rows)).keys)
    {c : Cell V} (hc : c ∈ cells q rs.rows) (hgrid : c.t * nsPerSecond ∈ grid r d) :
    Shown q (assemble rs.rows q r d keys) c := by
  obtain ⟨a, ha, hp⟩ := lookup_accumulate hc fun c' hc' => hfits.2 c hc c' hc'
  have hperm := (List.mergeSort_perm keys (before (accumulate (cells q rs.rows)))).trans hkeys
  have hlen : (keys.mergeSort (before (accumulate (cells q rs.rows)))).length ≤ maxGroups * q.aggs.length := by
    rw [hperm.length_eq, keys_accumulate]
    exact hfits.1
  have hmem : c.key ∈ (accumulate (cells q rs.rows)).keys :=
    AList.mem_keys.mpr (AList.lookup_isSome.mp (by simp [ha]))
  refine ⟨⟨seriesName q c.key, a.tags, (grid r d).map fun b => ⟨b, a.points (unix b)⟩⟩, ?_, rfl, ?_⟩
  · simp only [assemble, List.mem_filterMap, List.take_of_length_le hlen]
    exact ⟨c.key, hperm.mem_iff.mpr hmem, by simp [ha]⟩
  · have hunix : unix (c.t * nsPerSecond) = c.t := Int.mul_ediv_cancel _ (by decide)
    simp only [List.mem_map]
    exact ⟨_, hgrid, by rw [hunix, hp]⟩

theorem grid_of_shown {q : Query} {rows : List (Row V)} {r : TimeRange} {d : ℤ} {keys : List Key} {c : Cell V}
    (h : Shown q (assemble rows q r d keys) c) : c.t * nsPerSecond ∈ grid r d := by
  obtain ⟨sr, hsr, -, hp⟩ := h
  simp only [assemble, List.mem_filterMap, Option.map_eq_some_iff] at hsr
  obtain ⟨k, -, a, -, rfl⟩ := hsr
  obtain ⟨b, hb, he⟩ := List.mem_map.mp hp
  have hts : b = c.t * nsPerSecond := congrArg Point.ts he
  exact hts ▸ hb

omit [Add V] [LT V] [DecidableLT V] [DecidableEq V] in
/-- Any bucket of the range can come back, alone. -/
theorem exists_single (p : Platform) (q : Query) (r : TimeRange) (d t : ℤ)
    (hb : ∃ i, milli r.from_ ≤ i ∧ i < milli r.to_ ∧
      t * nsPerSecond = alignDown 0 (p.seconds d * nsPerSecond) i) :
    ∃ rs : ResultSet p q r d V, rs.Fits ∧ ∃ c ∈ cells q rs.rows, c.t = t := by
  obtain ⟨n, hn⟩ : ∃ n, q.aggs.length = n + 1 :=
    ⟨q.aggs.length - 1, by have := List.length_pos_iff.mpr q.aggs_ne; omega⟩
  let row : Row V := ⟨t, q.groups, some 0 :: List.replicate n none⟩
  have hnone : ∀ a b, (a, b) ∈ (List.replicate n (none : Option V)).zipIdx 1 → a = none := fun a b h =>
    List.eq_of_mem_replicate (List.fst_mem_of_mem_zipIdx h)
  have hcells : cells q [row] = [⟨⟨0, label q q.groups⟩, tagsOf q q.groups, t, 0⟩] := by
    simpa [cells, row, hn] using hnone
  refine ⟨⟨[row], by simp, by simp, by simp, ?_, ?_⟩, ⟨?_, ?_⟩, ?_⟩
  · simp [row, hn]
  · simpa [row] using hb
  · simp [hcells, maxGroups, hn]; omega
  · simp [hcells]
  · simp [hcells]

theorem allShown_iff_gridMeets (p : Platform) (q : Query) (r : TimeRange) {d : ℤ} (hd : 10 * nsPerSecond ≤ d) :
    AllShown p q r d V ↔ GridMeets p r d := by
  have hns : nsPerSecond = 1000000000 := rfl
  have hd0 : 0 < d := by omega
  have hlt := p.seconds_lt d hd0
  have hgt := p.lt_seconds d hd0
  have hw : 0 < p.seconds d * nsPerSecond := by omega
  -- The bounds travel in milliseconds, and a bucket is a whole number of them.
  have hmilli : (1000000 : ℤ) ∣ p.seconds d * nsPerSecond := ⟨p.seconds d * 1000, by rw [hns]; ring⟩
  have hfirst : alignDown 0 (p.seconds d * nsPerSecond) (milli r.from_) =
      alignDown 0 (p.seconds d * nsPerSecond) r.from_ :=
    alignDown_alignDown 0 (by decide) hw hmilli r.from_
  have hbuckets := buckets_on_grid_iff (o := zeroTime) hw hd0 (by omega)
    (milli_le r.to_) (milli_le r.from_) hfirst
  rw [GridMeets, ← hbuckets]
  constructor
  · intro h i hi hie
    obtain ⟨t, ht⟩ : ∃ t, t * nsPerSecond = alignDown 0 (p.seconds d * nsPerSecond) i := by
      obtain ⟨a, ha⟩ := dvd_alignDown_sub 0 (p.seconds d * nsPerSecond) i
      exact ⟨p.seconds d * a, by linarith⟩
    obtain ⟨rs, hfits, c, hc, hct⟩ := exists_single (V := V) p q r d t ⟨i, hi, hie, ht⟩
    have hshown := grid_of_shown (h rs hfits _ (List.Perm.refl _) c hc)
    rwa [hct, ht] at hshown
  · intro h rs hfits keys hkeys c hc
    refine shown_of_fits hfits hkeys hc ?_
    obtain ⟨row, hrow, ht⟩ : ∃ row ∈ rs.rows, c.t = row.t := by
      obtain ⟨row, hrow, hcell⟩ := List.mem_flatMap.mp hc
      obtain ⟨x, -, hx⟩ := List.mem_filterMap.mp hcell
      obtain ⟨v, -, rfl⟩ := Option.map_eq_some_iff.mp hx
      exact ⟨row, hrow, rfl⟩
    obtain ⟨i, hi, hie, hb⟩ := rs.bucket row hrow
    rw [ht, hb]
    exact h i hi hie

end Assembling

/-- A step written in days is none of `ParseDuration`'s. -/
def daysOnly : Platform where
  parseDuration := fun _ => none
  seconds := fun d => d / nsPerSecond
  seconds_lt := fun d _ => by simp only [nsPerSecond]; omega
  lt_seconds := fun d _ => by simp only [nsPerSecond]; omega

def countQuery : Query := ⟨[], [⟨"count", ""⟩], by simp⟩

/-- January 2026, which starts on a Thursday, as 1970 did. -/
def january : TimeRange where
  from_ := 1767225600 * nsPerSecond
  to_ := 1769904000 * nsPerSecond
  from_lt_to := by decide

instance (p : Platform) (r : TimeRange) (d : ℤ) : Decidable (GridMeets p r d) :=
  inferInstanceAs (Decidable (_ ∨ _ ∧ (_ ∨ _)))

end Upstat.SeriesAssembly
