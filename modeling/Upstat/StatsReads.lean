import Mathlib.Algebra.BigOperators.Group.Finset.Basic
import Mathlib.Algebra.Field.Rat
import Mathlib.Algebra.Order.Ring.Int
import Upstat.Rollups

/-! # The stats read

`Stats` takes its series from the hourly or the daily rollup, the split by a dimension from the events, and the average from
the daily rollup. Times of events are in milliseconds, those of a request in nanoseconds. -/
namespace Upstat.StatsReads

open LabelClasses Rollups

structure Event where
  orgId : String
  propertyId : String
  name : String
  ts : ℤ
  visitorHash : String
  path : String
  referrerHost : String
  deviceClass : String
  country : String
  dims : List (String × String)

/-! ## The rollups -/

def hour : ℤ := 3600000

def day : ℤ := 86400000

def toStartOfHour (ts : ℤ) : ℤ := ts / hour * hour

/-- Days are counted. -/
def toDate (ts : ℤ) : ℤ := ts / day

structure Key where
  orgId : String
  propertyId : String
  name : String
  bucket : ℤ
  deriving DecidableEq

/-- The keys of `events_hourly_mv`. -/
def hourKey (e : Event) : Key := ⟨e.orgId, e.propertyId, e.name, toStartOfHour e.ts⟩

/-- The keys of `events_daily_mv`. -/
def dayKey (e : Event) : Key := ⟨e.orgId, e.propertyId, e.name, toDate e.ts⟩

/-- `uniqExactStateIf(visitor_hash, visitor_hash != '')` -/
def visitor (e : Event) : Option String := if e.visitorHash ≠ "" then some e.visitorHash else none

structure Store where
  events : List Event
  hourly : List (Row Key String)
  daily : List (Row Key String)
  hourly_table : Table hourKey visitor events hourly
  daily_table : Table dayKey visitor events daily

/-! ## The read -/

structure Failure where
  code : String
  message : String
  deriving DecidableEq

structure Request where
  orgId : String
  property : String
  name : String
  period : String
  fromRaw : String
  toRaw : String
  dim : String

def nsPerDay : ℤ := 86400000000000

def maxRange : ℤ := 92 * nsPerDay

/-- The bounds are RFC 3339 texts. -/
def bound (parse : String → Option ℤ) (raw : String) (absent : ℤ) : Except Failure ℤ :=
  if raw = "" then .ok absent
  else
    match parse raw with
    | some t => .ok t
    | none => .error ⟨"ts_out_of_range", "from/to must be RFC3339"⟩

/-- `Range` -/
def range (parse : String → Option ℤ) (fromRaw toRaw : String) (now fallback : ℤ) : Except Failure (ℤ × ℤ) := do
  let stop ← bound parse toRaw now
  let start ← bound parse fromRaw (stop - fallback)
  if ¬start < stop then .error ⟨"ts_out_of_range", "from must be before to"⟩
  else if maxRange < stop - start then .error ⟨"range_too_large", "max range is 92 days"⟩
  else .ok (start, stop)

/-- `{f:DateTime64(3)}` -/
def milliseconds (t : ℤ) : ℤ := t / 1000000

structure Point where
  bucket : ℤ
  count : ℕ
  uniques : Option ℕ

/-- The average is the one before rounding. -/
structure Stats where
  series : List Point
  count : ℕ
  uniquesDailyAvg : Option ℚ
  uniquesAdditive : Bool
  byDim : Option (List (String × ℕ))

def ofRequest (r : Request) (orgId property name : String) : Bool := orgId = r.orgId ∧ property = r.property ∧ name = r.name

def keyOf (r : Request) (k : Key) : Bool := ofRequest r k.orgId k.propertyId k.name

def Store.rollup (db : Store) (period : String) : List (Row Key String) := if period = "hour" then db.hourly else db.daily

/-- When a bucket begins: `bucket`, or `toDateTime(bucket)` of the days. -/
def begins (period : String) (bucket : ℤ) : ℤ := if period = "hour" then bucket else bucket * day

def listed (r : Request) (f t : ℤ) (k : Key) : Bool := keyOf r k ∧ f ≤ begins r.period k.bucket ∧ begins r.period k.bucket < t

/-- The rows of the series: bucket, events, visitors. -/
def seriesRows (db : Store) (r : Request) (f t : ℤ) : List (ℤ × ℕ × ℕ) :=
  let rows := (db.rollup r.period).filter fun row => listed r f t row.key
  groupsOf (fun row => begins r.period row.key.bucket) ((rows.map fun row => begins r.period row.key.bucket).dedup.insertionSort (· ≤ ·)) rows

def dailyListed (r : Request) (f t : ℤ) (k : Key) : Bool := keyOf r k ∧ toDate f ≤ k.bucket ∧ k.bucket < toDate t + 1

def dailyRows (db : Store) (r : Request) (f t : ℤ) : List (ℤ × ℕ × ℕ) :=
  let rows := db.daily.filter fun row => dailyListed r f t row.key
  groupsOf (fun row => row.key.bucket) (rows.map fun row => row.key.bucket).dedup rows

/-- `avg(u)`, null where there are no rows. -/
def avg (rows : List (ℤ × ℕ × ℕ)) : Option ℚ :=
  if rows = [] then none else some ((rows.map fun g => g.2.2).sum / rows.length)

def dimValue (dim : String) (e : Event) : String :=
  if dim = "path" then e.path
  else if dim = "referrer_host" then e.referrerHost
  else if dim = "device_class" then e.deviceClass
  else if dim = "country" then e.country
  else (e.dims.lookup ("dim." ++ dim)).getD ""

def eventListed (r : Request) (f t : ℤ) (e : Event) : Bool := ofRequest r e.orgId e.propertyId e.name ∧ f ≤ e.ts ∧ e.ts < t

def dimGroups (db : Store) (r : Request) (f t : ℤ) : List (String × ℕ) :=
  let rows := db.events.filter (eventListed r f t)
  (rows.map (dimValue r.dim)).dedup.map fun v => (v, (rows.filter (dimValue r.dim · = v)).length)

/-- `ORDER BY c DESC`, rows of one count in whatever order. -/
structure Descending where
  order : List (String × ℕ) → List (String × ℕ)
  perm : ∀ l, (order l).Perm l
  sorted : ∀ l, (order l).Pairwise (·.2 ≥ ·.2)

def answer (desc : Descending) (db : Store) (r : Request) (start stop : ℤ) : Stats :=
  let f := milliseconds start
  let t := milliseconds stop
  let rows := seriesRows db r f t
  let eligible := rows.any (0 < ·.2.2)
  { series := rows.map fun g => ⟨g.1, g.2.1, if eligible then some g.2.2 else none⟩
    count := (rows.map fun g => g.2.1).sum
    uniquesDailyAvg := if eligible then some ((avg (dailyRows db r f t)).getD 0) else none
    uniquesAdditive := false
    byDim := if r.dim ≠ "" then some ((desc.order (dimGroups db r f t)).take 50) else none }

def stats (parse : String → Option ℤ) (now : ℤ) (desc : Descending) (db : Store) (r : Request) : Except Failure Stats :=
  if r.property = "" ∨ r.name = "" then .error ⟨"bad_shape", "property and name are required"⟩
  else if r.period ≠ "hour" ∧ r.period ≠ "day" then .error ⟨"invalid_period", "period is hour or day"⟩
  else
    match range parse r.fromRaw r.toRaw now (7 * nsPerDay) with
    | .error e => .error e
    | .ok (start, stop) =>
      if r.period = "hour" ∧ 8 * nsPerDay < stop - start then .error ⟨"range_too_large", "period=hour is limited to 8 days"⟩
      else .ok (answer desc db r start stop)

/-! ## Counts -/

/-- How long the buckets of a period are. -/
def width (period : String) : ℤ := if period = "hour" then hour else day

/-- The first start of a bucket that is not before an instant. -/
def nextStart (period : String) (t : ℤ) : ℤ := -(-t / width period) * width period

/-- How many of the events asked for are of a range. -/
def eventsIn (db : Store) (r : Request) (f t : ℤ) : ℕ := db.events.countP (eventListed r f t)

theorem width_pos (period : String) : 0 < width period := by
  unfold width hour day
  split <;> decide

/-- An instant is not after the start of a bucket just where the first start from it on is not after what the bucket has. -/
theorem le_floor_iff {w : ℤ} (hw : 0 < w) (a b : ℤ) : a ≤ b / w * w ↔ -(-a / w) * w ≤ b := by
  have hneg : a ≤ b / w * w ↔ -(b / w) * w ≤ -a := by
    rw [neg_mul]
    omega
  rw [hneg, ← Int.le_ediv_iff_mul_le hw, ← Int.le_ediv_iff_mul_le hw, neg_le]

theorem eventsIn_add (db : Store) (r : Request) {a b c : ℤ} (hab : a ≤ b) (hbc : b ≤ c) :
    eventsIn db r a c = eventsIn db r a b + eventsIn db r b c := by
  unfold eventsIn
  induction db.events with
  | nil => rfl
  | cons e es ih =>
    rw [List.countP_cons, List.countP_cons, List.countP_cons, ih]
    simp only [eventListed, decide_eq_true_eq]
    cases ofRequest r e.orgId e.propertyId e.name with
    | true =>
      simp only [true_and]
      split_ifs <;> omega
    | false => simp only [Bool.false_eq_true, false_and, if_false, Nat.add_zero]

theorem le_nextStart (period : String) (t : ℤ) : t ≤ nextStart period t :=
  ((le_floor_iff (width_pos period) t (nextStart period t)).mpr le_rfl).trans
    (Int.ediv_mul_le _ (width_pos period).ne')

theorem nextStart_mono (period : String) {s t : ℤ} (h : s ≤ t) : nextStart period s ≤ nextStart period t := by
  apply mul_le_mul_of_nonneg_right _ (width_pos period).le
  exact neg_le_neg (Int.ediv_le_ediv (width_pos period) (neg_le_neg h))

def bucketKey (period : String) : Event → Key := if period = "hour" then hourKey else dayKey

theorem Store.rollup_table (db : Store) (period : String) : Table (bucketKey period) visitor db.events (db.rollup period) := by
  unfold bucketKey Store.rollup
  split
  · exact db.hourly_table
  · exact db.daily_table

theorem begins_bucketKey (period : String) (e : Event) : begins period (bucketKey period e).bucket = e.ts / width period * width period := by
  unfold begins bucketKey width
  split <;> rfl

theorem keyOf_bucketKey (r : Request) (period : String) (e : Event) :
    keyOf r (bucketKey period e) = ofRequest r e.orgId e.propertyId e.name := by
  unfold bucketKey
  split <;> rfl

/-- A bucket is in the range just where what it has is between the starts of buckets. -/
theorem listed_bucketKey (r : Request) (f t : ℤ) (e : Event) :
    listed r f t (bucketKey r.period e) = eventListed r (nextStart r.period f) (nextStart r.period t) e := by
  have hw := width_pos r.period
  have hupper : e.ts / width r.period * width r.period < t ↔ e.ts < nextStart r.period t := by
    rw [← not_le, ← not_le, le_floor_iff hw]
    rfl
  rw [listed, eventListed, decide_eq_decide, keyOf_bucketKey, begins_bucketKey, le_floor_iff hw, hupper]
  rfl

/-- The counts of the series are those of the events from the first start of a bucket on. -/
theorem sum_series (db : Store) (r : Request) (f t : ℤ) :
    ((seriesRows db r f t).map fun g => g.2.1).sum = eventsIn db r (nextStart r.period f) (nextStart r.period t) := by
  unfold seriesRows
  rw [total_groupsOf (List.perm_insertionSort _ _), (db.rollup_table r.period).tallies.count]
  exact List.countP_congr fun e _ => by rw [listed_bucketKey]

/-- The counts of the series are those of the range just where as many events are before the first start of a bucket as are
between the end of the range and the next start. -/
theorem sum_series_iff (db : Store) (r : Request) {f t : ℤ} (h : f ≤ t) :
    ((seriesRows db r f t).map fun g => g.2.1).sum = eventsIn db r f t ↔
      eventsIn db r f (nextStart r.period f) = eventsIn db r t (nextStart r.period t) := by
  have hf := le_nextStart r.period f
  have ht := le_nextStart r.period t
  have hmono := nextStart_mono r.period h
  have hall := eventsIn_add db r h ht
  have hstarts := eventsIn_add db r hf hmono
  rw [sum_series]
  omega

/-! ## The split by a dimension -/

theorem sum_dimGroups (db : Store) (r : Request) (f t : ℤ) : ((dimGroups db r f t).map Prod.snd).sum = eventsIn db r f t := by
  have hparts : (groupBy (dimValue r.dim) (db.events.filter (eventListed r f t))).flatten.Perm (db.events.filter (eventListed r f t)) :=
    groupBy_parts.perm
  have hlength := hparts.length_eq
  rw [List.length_flatten, groupBy, List.map_map, ← List.countP_eq_length_filter] at hlength
  rw [dimGroups, List.map_map]
  exact hlength

theorem byDim_sum (desc : Descending) (db : Store) (r : Request) (f t : ℤ) (h : (dimGroups db r f t).length ≤ 50) :
    (((desc.order (dimGroups db r f t)).take 50).map Prod.snd).sum = eventsIn db r f t := by
  have hperm := desc.perm (dimGroups db r f t)
  rw [List.take_of_length_le (hperm.length_eq.trans_le h), (hperm.map Prod.snd).sum_eq, sum_dimGroups]

/-! ## The average -/

/-- The visitors of a day, from the events. -/
def dayUniques (db : Store) (r : Request) (d : ℤ) : ℕ :=
  (visitors visitor (db.events.filter fun e => ofRequest r e.orgId e.propertyId e.name ∧ toDate e.ts = d)).card

/-- The days that a range in nanoseconds intersects and that have an event asked for. -/
def daysIn (db : Store) (r : Request) (start stop : ℤ) : Finset ℤ :=
  ((db.events.filter fun e => ofRequest r e.orgId e.propertyId e.name).map fun e => toDate e.ts).toFinset.filter fun d =>
    d * nsPerDay < stop ∧ start < (d + 1) * nsPerDay

def mean (D : Finset ℤ) (u : ℤ → ℕ) : ℚ := (∑ d ∈ D, u d : ℕ) / D.card

/-- A bucket of the series has a visitor. -/
def Seen (db : Store) (r : Request) (f t : ℤ) : Prop :=
  ∃ e ∈ db.events, eventListed r (nextStart r.period f) (nextStart r.period t) e ∧ e.visitorHash ≠ ""

theorem visitor_eq_some {e : Event} {v : String} : visitor e = some v ↔ e.visitorHash ≠ "" ∧ e.visitorHash = v := by
  unfold visitor
  split_ifs with h
  · simp [h]
  · simp [h]

theorem eligible_iff (db : Store) (r : Request) (f t : ℤ) : (seriesRows db r f t).any (0 < ·.2.2) = true ↔ Seen db r f t := by
  have htallies := (db.rollup_table r.period).tallies
  constructor
  · intro h
    obtain ⟨g, hg, hpos⟩ := List.any_eq_true.mp h
    obtain ⟨b, -, rfl⟩ := List.mem_map.mp hg
    obtain ⟨v, hv⟩ := Finset.card_pos.mp (of_decide_eq_true hpos)
    obtain ⟨row, hrow, hv⟩ := mem_merged.mp hv
    obtain ⟨hrow, hlisted⟩ := List.mem_filter.mp (List.mem_filter.mp hrow).1
    obtain ⟨e, he, hkey, hev⟩ := (htallies.seen row.key v).mp ⟨row, hrow, rfl, hv⟩
    refine ⟨e, he, ?_, (visitor_eq_some.mp hev).1⟩
    rw [← listed_bucketKey, hkey]
    exact hlisted
  · rintro ⟨e, he, hlisted, hne⟩
    obtain ⟨row, hrow, hkey, hv⟩ := (htallies.seen (bucketKey r.period e) e.visitorHash).mpr
      ⟨e, he, rfl, visitor_eq_some.mpr ⟨hne, rfl⟩⟩
    have hmem : row ∈ (db.rollup r.period).filter fun row => listed r f t row.key := by
      refine List.mem_filter.mpr ⟨hrow, ?_⟩
      rw [hkey, listed_bucketKey]
      exact hlisted
    refine List.any_eq_true.mpr ⟨_, List.mem_map_of_mem ((List.perm_insertionSort _ _).mem_iff.mpr
      (List.mem_dedup.mpr (List.mem_map_of_mem hmem))), decide_eq_true (Finset.card_pos.mpr ⟨e.visitorHash, ?_⟩)⟩
    exact mem_merged.mpr ⟨row, List.mem_filter.mpr ⟨hmem, decide_eq_true rfl⟩, hv⟩

theorem mean_toFinset {ds : List ℤ} (h : ds.Nodup) (u : ℤ → ℕ) : mean ds.toFinset u = ((ds.map u).sum : ℕ) / (ds.length : ℕ) := by
  rw [mean, List.sum_toFinset u h, List.toFinset_card_of_nodup h]

/-- The days of the rollup that are averaged over. -/
def averagedDays (db : Store) (r : Request) (f t : ℤ) : List ℤ :=
  ((db.daily.filter fun row => dailyListed r f t row.key).map fun row => row.key.bucket).dedup

theorem mem_averagedDays {db : Store} {r : Request} {f t d : ℤ} : d ∈ averagedDays db r f t ↔
    (∃ e ∈ db.events, ofRequest r e.orgId e.propertyId e.name ∧ toDate e.ts = d) ∧ toDate f ≤ d ∧ d < toDate t + 1 := by
  have hkeys := db.daily_table.tallies.keys
  rw [averagedDays, List.mem_dedup, List.mem_map]
  constructor
  · rintro ⟨row, hrow, rfl⟩
    obtain ⟨hrow, hlisted⟩ := List.mem_filter.mp hrow
    obtain ⟨hkey, hbounds⟩ := of_decide_eq_true hlisted
    obtain ⟨e, he, heq⟩ := (hkeys row.key).mp ⟨row, hrow, rfl⟩
    rw [← heq] at hkey hbounds ⊢
    exact ⟨⟨e, he, hkey, rfl⟩, hbounds⟩
  · rintro ⟨⟨e, he, hr, rfl⟩, hbounds⟩
    obtain ⟨row, hrow, heq⟩ := (hkeys (dayKey e)).mpr ⟨e, he, rfl⟩
    refine ⟨row, List.mem_filter.mpr ⟨hrow, ?_⟩, congrArg Key.bucket heq⟩
    rw [heq]
    exact decide_eq_true ⟨hr, hbounds⟩

/-- The visitors of a day by the rollup are those by the events. -/
theorem merged_day {db : Store} {r : Request} {f t d : ℤ} (hd : toDate f ≤ d ∧ d < toDate t + 1) :
    merged ((db.daily.filter fun row => dailyListed r f t row.key).filter fun row => row.key.bucket = d) =
      visitors visitor (db.events.filter fun e => ofRequest r e.orgId e.propertyId e.name ∧ toDate e.ts = d) := by
  have hseen := db.daily_table.tallies.seen
  ext v
  rw [mem_merged, mem_visitors]
  constructor
  · rintro ⟨row, hrow, hv⟩
    obtain ⟨hrow, hbucket⟩ := List.mem_filter.mp hrow
    obtain ⟨hrow, hlisted⟩ := List.mem_filter.mp hrow
    have hkey : keyOf r row.key = true := (of_decide_eq_true hlisted).1
    obtain ⟨e, he, heq, hev⟩ := (hseen row.key v).mp ⟨row, hrow, rfl, hv⟩
    have hbucket : row.key.bucket = d := of_decide_eq_true hbucket
    rw [← heq] at hkey hbucket
    exact ⟨e, List.mem_filter.mpr ⟨he, decide_eq_true ⟨hkey, hbucket⟩⟩, hev⟩
  · rintro ⟨e, he, hev⟩
    obtain ⟨hmem, hof⟩ := List.mem_filter.mp he
    obtain ⟨hr, rfl⟩ := of_decide_eq_true hof
    obtain ⟨row, hrow, heq, hv⟩ := (hseen (dayKey e) v).mpr ⟨e, hmem, rfl, hev⟩
    refine ⟨row, List.mem_filter.mpr ⟨List.mem_filter.mpr ⟨hrow, ?_⟩, ?_⟩, hv⟩
    · rw [heq]
      exact decide_eq_true ⟨hr, hd⟩
    · rw [heq]
      exact decide_eq_true rfl

theorem avg_dailyRows (db : Store) (r : Request) (f t : ℤ) :
    (avg (dailyRows db r f t)).getD 0 = mean (averagedDays db r f t).toFinset (dayUniques db r) := by
  have hrows : (dailyRows db r f t).map (fun g => g.2.2) = (averagedDays db r f t).map (dayUniques db r) := by
    rw [dailyRows, groupsOf, List.map_map]
    apply List.map_congr_left
    intro d hd
    exact congrArg Finset.card (merged_day (mem_averagedDays.mp hd).2)
  have hlength : (dailyRows db r f t).length = (averagedDays db r f t).length := by
    have h := congrArg List.length hrows
    rwa [List.length_map, List.length_map] at h
  have hnodup : (averagedDays db r f t).Nodup := List.nodup_dedup _
  rw [mean_toFinset hnodup, avg, hrows, hlength]
  split_ifs with h
  · rw [h] at hlength
    rw [← hlength]
    simp
  · rfl

theorem toDate_milliseconds (t : ℤ) : toDate (milliseconds t) = t / nsPerDay := by
  unfold toDate milliseconds day nsPerDay
  omega

/-- The days that are averaged over are those of the range, where no event is of a day that begins at its end. -/
theorem averagedDays_eq {db : Store} {r : Request} {start stop : ℤ}
    (h : ∀ e ∈ db.events, ofRequest r e.orgId e.propertyId e.name → toDate e.ts * nsPerDay ≠ stop) :
    (averagedDays db r (milliseconds start) (milliseconds stop)).toFinset = daysIn db r start stop := by
  ext d
  rw [List.mem_toFinset, mem_averagedDays, toDate_milliseconds, toDate_milliseconds, daysIn, Finset.mem_filter, List.mem_toFinset,
    List.mem_map]
  have hns : nsPerDay = 86400000000000 := rfl
  constructor
  · rintro ⟨⟨e, he, hr, rfl⟩, hfirst, hlast⟩
    have hne := h e he hr
    refine ⟨⟨e, List.mem_filter.mpr ⟨he, hr⟩, rfl⟩, ?_⟩
    rw [hns] at *
    omega
  · rintro ⟨⟨e, he, rfl⟩, hfirst, hlast⟩
    obtain ⟨he, hr⟩ := List.mem_filter.mp he
    refine ⟨⟨e, he, hr, rfl⟩, ?_⟩
    rw [hns] at *
    omega

/-! ## What is read -/

theorem range_lt {parse : String → Option ℤ} {fromRaw toRaw : String} {now fallback start stop : ℤ}
    (h : range parse fromRaw toRaw now fallback = .ok (start, stop)) : start < stop := by
  unfold range at h
  cases hto : bound parse toRaw now with
  | error e =>
    rw [hto] at h
    cases h
  | ok b =>
    cases hfrom : bound parse fromRaw (b - fallback) with
    | error e =>
      simp only [hto, hfrom, bind, Except.bind] at h
      cases h
    | ok a =>
      simp only [hto, hfrom, bind, Except.bind] at h
      split_ifs at h with hlt
      obtain ⟨rfl, rfl⟩ := Prod.mk.inj (Except.ok.inj h)
      exact hlt

theorem stats_ok {parse : String → Option ℤ} {now : ℤ} {desc : Descending} {db : Store} {r : Request} {out : Stats}
    (h : stats parse now desc db r = .ok out) :
    ∃ start stop, range parse r.fromRaw r.toRaw now (7 * nsPerDay) = .ok (start, stop) ∧ answer desc db r start stop = out := by
  unfold stats at h
  split_ifs at h
  cases hr : range parse r.fromRaw r.toRaw now (7 * nsPerDay) with
  | error e =>
    rw [hr] at h
    cases h
  | ok p =>
    rw [hr] at h
    dsimp only at h
    split_ifs at h
    exact ⟨p.1, p.2, rfl, Except.ok.inj h⟩

theorem view_table {key : Event → Key} (block : List Event) : Table key visitor block (view key visitor block) :=
  Table.insert block .empty

def Store.ofBlock (block : List Event) : Store := ⟨block, _, _, view_table block, view_table block⟩

theorem byCount_total : Std.Total fun a b : String × ℕ => a.2 ≥ b.2 := ⟨fun a b => le_total b.2 a.2⟩

theorem byCount_trans : IsTrans (String × ℕ) fun a b => a.2 ≥ b.2 := ⟨fun _ _ _ hab hbc => hbc.trans hab⟩

theorem byCount_sorted (l : List (String × ℕ)) : (l.insertionSort fun a b => a.2 ≥ b.2).Pairwise (·.2 ≥ ·.2) :=
  have := byCount_total
  have := byCount_trans
  List.pairwise_insertionSort _ l

def byCount : Descending where
  order l := l.insertionSort fun a b => a.2 ≥ b.2
  perm l := List.perm_insertionSort _ l
  sorted l := byCount_sorted l

/-- Some texts of 4 and 5 October 2024. -/
def texts : List (String × ℤ) := [("2024-10-04T00:00:00Z", 1728000000000000000), ("2024-10-04T10:30:00Z", 1728037800000000000),
  ("2024-10-04T10:40:00.000000001Z", 1728038400000000001), ("2024-10-04T11:30:00Z", 1728041400000000000),
  ("2024-10-05T00:00:00Z", 1728086400000000000)]

def event (name : String) (ts : ℤ) (visitorHash : String) : Event := ⟨"org-1", "prop-1", name, ts, visitorHash, "/", "", "", "", []⟩

/-- A page view at 10:40, an event of a server at noon, and signups on both days. -/
def october : Store := Store.ofBlock [event "page_view" 1728038400000 "a", event "job_done" 1728043200000 "",
  event "signup" 1728043200000 "a", event "signup" 1728090000000 "b", event "signup" 1728090000000 "c"]

def request (name period fromRaw toRaw : String) : Request := ⟨"org-1", "prop-1", name, period, fromRaw, toRaw, "path"⟩

def read (r : Request) : Except Failure Stats := stats (texts.lookup ·) 0 byCount october r

end Upstat.StatsReads
