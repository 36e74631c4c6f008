import Mathlib.Algebra.Order.Ring.Int
import Mathlib.Data.List.Range
import Upstat.DoubleNumbers
import Upstat.SummedRollups

/-! # Daily uptime (`telemetry/checks.go`, `check_uptime_daily`)

The strips that the monitor and status pages show, read from the daily rollup of check results.
Times of results are milliseconds, days are counted, and counts stay below `2 ^ 53`. -/
namespace Upstat.UptimeStrips

open DoubleNumbers SummedRollups

structure CheckResult where
  orgId : String
  monitorId : String
  scheduledAt : ℤ
  ok : Bool
  deriving DecidableEq

def msPerDay : ℤ := 86400000

def toDate (ms : ℤ) : ℤ := ms / msPerDay

structure Key where
  orgId : String
  monitorId : String
  day : ℤ
  deriving DecidableEq

def keyOf (r : CheckResult) : Key := ⟨r.orgId, r.monitorId, toDate r.scheduledAt⟩

/-- The checks and the passing ones. -/
abbrev Tally : Type := ℕ × ℕ

def tallyOf (r : CheckResult) : Tally := (1, if r.ok then 1 else 0)

/-- The checks and the rollup that is kept of them. -/
structure Store where
  results : List CheckResult
  daily : List (Row Key Tally)
  table : Table keyOf tallyOf results daily

structure UptimeDay where
  date : ℤ
  uptimePct : Option ℚ
  downMinutes : ℤ
  deriving DecidableEq

/-- `math.Round` of what is not negative. -/
def round (q : ℚ) : ℤ := ⌊q + 1 / 2⌋

def pct (t : Tally) : Option ℚ :=
  if t.1 = 0 then none else some (nearest (round (nearest (nearest (t.2 / t.1) * 100000)) / 1000))

def uptimeDay (date : ℤ) (t : Tally) : UptimeDay where
  date := date
  uptimePct := pct t
  downMinutes := if 0 < t.1 then round (nearest (nearest ((t.1 - t.2) / t.1) * 1440)) else 0

/-- The days from a first one to a time. -/
def daysTo (d now : ℤ) : List ℤ := if d * msPerDay ≤ now then d :: daysTo (d + 1) now else []
termination_by (now / msPerDay + 1 - d).toNat
decreasing_by
  have hle : d ≤ now / msPerDay := Int.le_ediv_of_mul_le (by decide) ‹_›
  omega

def selected (orgId : String) (ids : List String) (first : ℤ) (k : Key) : Bool := k.orgId = orgId ∧ k.monitorId ∈ ids ∧ first ≤ k.day

theorem selected_iff {orgId : String} {ids : List String} {first : ℤ} {k : Key} :
    selected orgId ids first k = true ↔ k.orgId = orgId ∧ k.monitorId ∈ ids ∧ first ≤ k.day := decide_eq_true_iff

def label (r : Row Key Tally) : String × ℤ := (r.key.monitorId, r.key.day)

/-- The tallies of the rows by monitor and day; one of a pair that has come before is overwritten. -/
def byDay (rows : List (Row (String × ℤ) Tally)) : String × ℤ → Tally :=
  rows.foldl (fun m r => Function.update m r.key r.value) 0

def totals (rows : List (Row (String × ℤ) Tally)) : String → Tally :=
  rows.foldl (fun m r => Function.update m r.key.1 (m r.key.1 + r.value)) 0

/-- The first day of a strip. -/
def firstDay (now : ℤ) (n : ℕ) : ℤ := now / msPerDay - (n - 1)

/-- The rows that the database answers, its groups in some order. -/
def Answers (s : Store) (orgId : String) (ids : List String) (first : ℤ) (rows : List (Row (String × ℤ) Tally)) : Prop :=
  let t := s.daily.filter fun r => selected orgId ids first r.key
  ∃ bs, bs.Perm (t.map label).dedup ∧ rows = groupSums label bs t

/-- `days`, of the rows that are answered. -/
def days (now : ℤ) (n : ℕ) (rows : List (Row (String × ℤ) Tally)) (id : String) : List UptimeDay × Option ℚ :=
  ((daysTo (firstDay now n) now).map fun d => uptimeDay d (byDay rows (id, d)), pct (totals rows id))

/-- The number of days that `Uptime` reads. -/
def clampDays (n : ℤ) : ℕ := if n ≤ 0 ∨ 400 < n then 90 else n.toNat

/-! ## The days -/

theorem day_le_iff {d now : ℤ} : d * msPerDay ≤ now ↔ d ≤ now / msPerDay := (Int.le_ediv_iff_mul_le (by decide)).symm

theorem daysTo_eq (now : ℤ) (m : ℕ) : daysTo (now / msPerDay - m) now = (List.range (m + 1)).map fun k : ℕ => now / msPerDay - m + k := by
  induction m with
  | zero =>
    have hfirst : (now / msPerDay) * msPerDay ≤ now := day_le_iff.mpr le_rfl
    have hnext : ¬(now / msPerDay + 1) * msPerDay ≤ now := fun h => by
      have := day_le_iff.mp h
      omega
    rw [Nat.cast_zero, sub_zero, daysTo, if_pos hfirst, daysTo, if_neg hnext]
    simp
  | succ m ih =>
    have hfirst : (now / msPerDay - (m + 1 : ℕ)) * msPerDay ≤ now := day_le_iff.mpr (by omega)
    have hnext : now / msPerDay - (m + 1 : ℕ) + 1 = now / msPerDay - m := by push_cast; ring
    have hshift : ((List.range (m + 1)).map fun k : ℕ => now / msPerDay - m + k) =
        ((List.range (m + 1)).map Nat.succ).map fun k : ℕ => now / msPerDay - (m + 1 : ℕ) + k := by
      rw [List.map_map]
      refine List.map_congr_left fun k _ => ?_
      simp only [Function.comp, Nat.cast_succ]
      ring
    rw [daysTo, if_pos hfirst, hnext, ih, hshift, List.range_succ_eq_map (n := m + 1), List.map_cons, Nat.cast_zero, add_zero]

/-- A strip of so many days, today its last. -/
theorem daysTo_firstDay {now : ℤ} {n : ℕ} (hn : 1 ≤ n) :
    daysTo (firstDay now n) now = (List.range n).map fun k : ℕ => firstDay now n + k := by
  obtain ⟨m, rfl⟩ := Nat.exists_eq_add_of_le' hn
  have hfirst : firstDay now (m + 1) = now / msPerDay - m := by simp [firstDay]
  rw [hfirst, daysTo_eq]

/-! ## The tallies -/

theorem byDay_eq {rows : List (Row (String × ℤ) Tally)} (h : (rows.map Row.key).Nodup) (k : String × ℤ) :
    byDay rows k = total (rows.filter (·.key = k)) := by
  induction rows using List.reverseRecOn with
  | nil => rfl
  | append_singleton rows r ih =>
    rw [List.map_append, List.nodup_append] at h
    obtain ⟨hrows, -, hnew⟩ := h
    have hstep : byDay (rows ++ [r]) = Function.update (byDay rows) r.key r.value := by simp [byDay]
    rw [hstep, List.filter_append, total_append]
    by_cases hk : k = r.key
    · have hnone : rows.filter (·.key = k) = [] := by
        apply List.filter_eq_nil_iff.mpr
        intro r' hr' hsame
        exact hnew r'.key (List.mem_map_of_mem hr') r.key (by simp) ((of_decide_eq_true hsame).trans hk)
      rw [hnone, hk]
      simp [total]
    · rw [Function.update_of_ne hk, ih hrows]
      simp [total, Ne.symm hk]

theorem totals_eq (rows : List (Row (String × ℤ) Tally)) (id : String) : totals rows id = total (rows.filter (·.key.1 = id)) := by
  induction rows using List.reverseRecOn with
  | nil => rfl
  | append_singleton rows r ih =>
    have hstep : totals (rows ++ [r]) = Function.update (totals rows) r.key.1 (totals rows r.key.1 + r.value) := by simp [totals]
    rw [hstep, List.filter_append, total_append, ← ih]
    by_cases hid : id = r.key.1
    · rw [hid]
      simp [total]
    · rw [Function.update_of_ne hid]
      simp [total, Ne.symm hid]

/-- The checks of some results and those that pass. -/
def tally (rs : List CheckResult) : Tally := (rs.length, rs.countP (·.ok))

theorem sum_tallyOf (rs : List CheckResult) : (rs.map tallyOf).sum = tally rs := by
  induction rs with
  | nil => rfl
  | cons r rs ih =>
    rw [List.map_cons, List.sum_cons, ih]
    cases hok : r.ok <;> simp [tally, tallyOf, hok, Nat.add_comm]

section
variable {s : Store} {orgId : String} {ids : List String} {first : ℤ} {rows : List (Row (String × ℤ) Tally)}

/-- What is answered of some monitors and days are the results of these. -/
theorem Answers.total (h : Answers s orgId ids first rows) (p : String × ℤ → Bool) :
    SummedRollups.total (rows.filter fun r => p r.key) =
      tally (s.results.filter fun r => selected orgId ids first (keyOf r) ∧ p (r.monitorId, toDate r.scheduledAt)) := by
  obtain ⟨bs, hbs, rfl⟩ := h
  rw [total_groupSums hbs, List.filter_filter]
  have hsum := s.table.total_filter fun k => p (k.monitorId, k.day) && selected orgId ids first k
  refine (hsum.trans (sum_tallyOf _)).trans (congrArg tally (List.filter_congr fun r _ => ?_))
  rw [Bool.decide_and, Bool.decide_eq_true, Bool.decide_eq_true, Bool.and_comm]
  rfl

theorem Answers.nodup (h : Answers s orgId ids first rows) : (rows.map Row.key).Nodup := by
  obtain ⟨bs, hbs, rfl⟩ := h
  have hkeys : (groupSums label bs (s.daily.filter fun r => selected orgId ids first r.key)).map Row.key = bs := by
    simp [groupSums, Function.comp_def]
  rw [hkeys]
  exact hbs.nodup_iff.mpr (List.nodup_dedup _)

end

/-! ## Percentages and minutes -/

theorem round_within {q : ℚ} {n : ℕ} (h₀ : 0 ≤ q) (hn : q ≤ n) : 0 ≤ round q ∧ round q ≤ n := by
  constructor
  · exact Int.floor_nonneg.mpr (by linarith)
  · have hlt : ⌊q + 1 / 2⌋ < (n : ℤ) + 1 := Int.floor_lt.mpr (by push_cast; linarith)
    exact Int.lt_add_one_iff.mp hlt

theorem nearest_mem {q : ℚ} {n : ℕ} (h₀ : 0 ≤ q) (hn : q ≤ n) (hlt : n ≤ 2 ^ 53) : 0 ≤ nearest q ∧ nearest q ≤ n := by
  obtain ⟨hlow, hhigh⟩ := nearest_within (a := 0) (b := n) (q := q) (by simpa using h₀) (by simpa using hn)
    (by norm_num) (by exact_mod_cast hlt)
  exact ⟨by simpa using hlow, by simpa using hhigh⟩

theorem nearest_natCast {n : ℕ} (h : n ≤ 2 ^ 53) : nearest n = n := by
  have hint : |(n : ℤ)| ≤ 2 ^ 53 := by simpa using (by exact_mod_cast h : (n : ℤ) ≤ 2 ^ 53)
  exact_mod_cast nearest_intCast hint

/-- A share of something, rounded to one of so many parts. -/
theorem share_within {a b n : ℕ} (h : a ≤ b) (hn : n ≤ 2 ^ 53) :
    0 ≤ round (nearest (nearest (a / b) * n)) ∧ round (nearest (nearest (a / b) * n)) ≤ n := by
  obtain ⟨hlow, hhigh⟩ := nearest_mem (q := a / b) (n := 1) (by positivity)
    (by simpa using div_le_one_of_le₀ (by exact_mod_cast h : (a : ℚ) ≤ b) (by positivity)) (by norm_num)
  obtain ⟨hlow', hhigh'⟩ := nearest_mem (q := nearest (a / b) * n) (n := n) (by positivity)
    (mul_le_of_le_one_left (Nat.cast_nonneg n) (by simpa using hhigh)) hn
  exact round_within hlow' hhigh'

theorem share_zero {b n : ℕ} : round (nearest (nearest ((0 : ℕ) / b) * n)) = 0 := by
  rw [Nat.cast_zero, zero_div, nearest_zero, zero_mul, nearest_zero]
  norm_num [round]

theorem share_one {b n : ℕ} (hb : 0 < b) (hn : n ≤ 2 ^ 53) : round (nearest (nearest (b / b) * n)) = n := by
  have hone : nearest 1 = 1 := by simpa using nearest_natCast (n := 1) (by norm_num)
  have hself : (b / b : ℚ) = 1 := div_self (by exact_mod_cast hb.ne')
  rw [hself, hone, one_mul, nearest_natCast hn, round]
  norm_num

theorem pct_eq_none {t : Tally} : pct t = none ↔ t.1 = 0 := by
  unfold pct
  split_ifs with h <;> simp [h]

theorem pct_within {t : Tally} (h : t.2 ≤ t.1) {p : ℚ} (hp : pct t = some p) : 0 ≤ p ∧ p ≤ 100 := by
  unfold pct at hp
  split_ifs at hp
  obtain rfl := Option.some.inj hp
  obtain ⟨hlow, hhigh⟩ := share_within h (n := 100000) (by norm_num)
  have hlow' : (0 : ℚ) ≤ round (nearest (nearest (t.2 / t.1) * (100000 : ℕ))) := by exact_mod_cast hlow
  have hhigh' : (round (nearest (nearest (t.2 / t.1) * (100000 : ℕ))) : ℚ) ≤ 100000 := by exact_mod_cast hhigh
  push_cast at hlow' hhigh'
  refine nearest_mem (n := 100) (by positivity) ?_ (by norm_num)
  apply (div_le_iff₀ (by norm_num)).mpr
  norm_num
  exact_mod_cast hhigh'

theorem pct_all {n : ℕ} (hn : 0 < n) : pct (n, n) = some 100 := by
  have hshare := share_one hn (n := 100000) (by norm_num)
  push_cast at hshare
  have hnearest := nearest_natCast (n := 100) (by norm_num)
  rw [pct, if_neg hn.ne']
  dsimp only
  rw [hshare]
  norm_num at hnearest ⊢
  exact hnearest

theorem pct_no {n : ℕ} (hn : 0 < n) : pct (n, 0) = some 0 := by
  have hshare := share_zero (b := n) (n := 100000)
  push_cast at hshare
  rw [pct, if_neg hn.ne']
  dsimp only
  rw [Nat.cast_zero, hshare, Int.cast_zero, zero_div, nearest_zero]

theorem downMinutes_within (d : ℤ) {t : Tally} (h : t.2 ≤ t.1) : 0 ≤ (uptimeDay d t).downMinutes ∧ (uptimeDay d t).downMinutes ≤ 1440 := by
  unfold uptimeDay
  dsimp only
  split_ifs with hpos
  · have hshare := share_within (Nat.sub_le t.1 t.2) (n := 1440) (by norm_num)
    rw [Nat.cast_sub h] at hshare
    exact_mod_cast hshare
  · exact ⟨le_rfl, by norm_num⟩

theorem downMinutes_all (d : ℤ) (n : ℕ) : (uptimeDay d (n, n)).downMinutes = 0 := by
  unfold uptimeDay
  dsimp only
  split_ifs
  · have hshare := share_zero (b := n) (n := 1440)
    rw [sub_self]
    exact_mod_cast hshare
  · rfl

theorem downMinutes_no (d : ℤ) {n : ℕ} (hn : 0 < n) : (uptimeDay d (n, 0)).downMinutes = 1440 := by
  have hshare := share_one hn (n := 1440) (by norm_num)
  unfold uptimeDay
  dsimp only
  rw [if_pos hn, Nat.cast_zero, sub_zero]
  exact_mod_cast hshare

/-! ## Strips -/

/-- What a day of a strip says of the day's results: a gap without any, and whole numbers only of
what passes or fails whole. -/
structure Shows (rs : List CheckResult) (d : UptimeDay) : Prop where
  gap : d.uptimePct = none ↔ rs = []
  pct_within : ∀ p, d.uptimePct = some p → 0 ≤ p ∧ p ≤ 100
  minutes_within : 0 ≤ d.downMinutes ∧ d.downMinutes ≤ 1440
  passing : rs ≠ [] → (∀ r ∈ rs, r.ok = true) → d.uptimePct = some 100 ∧ d.downMinutes = 0
  failing : rs ≠ [] → (∀ r ∈ rs, r.ok = false) → d.uptimePct = some 0 ∧ d.downMinutes = 1440

theorem shows_uptimeDay (d : ℤ) (rs : List CheckResult) : Shows rs (uptimeDay d (tally rs)) := by
  have hle : (tally rs).2 ≤ (tally rs).1 := List.countP_le_length
  have hpos : rs ≠ [] → 0 < rs.length := List.length_pos_of_ne_nil
  constructor
  · exact pct_eq_none.trans List.length_eq_zero_iff
  · exact fun p hp => pct_within hle hp
  · exact downMinutes_within d hle
  · intro hne hok
    have htally : tally rs = (rs.length, rs.length) := by rw [tally, List.countP_eq_length.mpr hok]
    rw [htally]
    exact ⟨pct_all (hpos hne), downMinutes_all d _⟩
  · intro hne hok
    have htally : tally rs = (rs.length, 0) := by
      rw [tally, List.countP_eq_zero.mpr fun r hr => by simp [hok r hr]]
    rw [htally]
    exact ⟨pct_no (hpos hne), downMinutes_no d (hpos hne)⟩

/-- The results of a monitor on some days. -/
def resultsOf (s : Store) (orgId id : String) (p : ℤ → Bool) : List CheckResult :=
  s.results.filter fun r => r.orgId = orgId ∧ r.monitorId = id ∧ p (toDate r.scheduledAt)

section
variable {s : Store} {orgId : String} {ids : List String} {now : ℤ} {n : ℕ} {rows : List (Row (String × ℤ) Tally)} {id : String}

theorem byDay_of_results (h : Answers s orgId ids (firstDay now n) rows) (hid : id ∈ ids) {d : ℤ} (hd : firstDay now n ≤ d) :
    byDay rows (id, d) = tally (resultsOf s orgId id (· = d)) := by
  have hfilter := h.total fun k => decide (k = (id, d))
  rw [byDay_eq h.nodup, hfilter, resultsOf]
  refine congrArg tally (List.filter_congr fun r _ => decide_eq_decide.mpr ?_)
  rw [selected_iff, decide_eq_true_iff, Prod.mk.injEq, decide_eq_true_iff]
  constructor
  · rintro ⟨⟨horg, -, -⟩, hmonitor, hday⟩
    exact ⟨horg, hmonitor, hday⟩
  · rintro ⟨horg, hmonitor, hday⟩
    exact ⟨⟨horg, by rwa [keyOf, hmonitor], hd.trans_eq hday.symm⟩, hmonitor, hday⟩

theorem totals_of_results (h : Answers s orgId ids (firstDay now n) rows) (hid : id ∈ ids) :
    totals rows id = tally (resultsOf s orgId id (firstDay now n ≤ ·)) := by
  have hfilter := h.total fun k => decide (k.1 = id)
  rw [totals_eq, hfilter, resultsOf]
  refine congrArg tally (List.filter_congr fun r _ => decide_eq_decide.mpr ?_)
  rw [selected_iff, decide_eq_true_iff, decide_eq_true_iff]
  constructor
  · rintro ⟨⟨horg, -, hday⟩, hmonitor⟩
    exact ⟨horg, hmonitor, hday⟩
  · rintro ⟨horg, hmonitor, hday⟩
    exact ⟨⟨horg, by rwa [keyOf, hmonitor], hday⟩, hmonitor⟩

/-- In whatever blocks results come, rows are merged and groups are answered, a strip has the days
up to today, each with what its results of this monitor and organization say. -/
theorem strip_of_results (h : Answers s orgId ids (firstDay now n) rows) (hid : id ∈ ids) (hn : 1 ≤ n) :
    days now n rows id =
        ((List.range n).map fun k : ℕ => uptimeDay (firstDay now n + k) (tally (resultsOf s orgId id (· = firstDay now n + k))),
          pct (tally (resultsOf s orgId id (firstDay now n ≤ ·)))) ∧
      ∀ d, Shows (resultsOf s orgId id (· = d)) (uptimeDay d (tally (resultsOf s orgId id (· = d)))) := by
  refine ⟨Prod.ext ?_ ?_, fun d => shows_uptimeDay d _⟩
  · rw [days, daysTo_firstDay hn, List.map_map]
    refine List.map_congr_left fun k _ => ?_
    exact congrArg (uptimeDay _) (byDay_of_results h hid (by simp))
  · exact congrArg pct (totals_of_results h hid)

end

def passes : CheckResult := ⟨"o", "m", 86400001, true⟩

def fails : CheckResult := ⟨"o", "m", 86400002, false⟩

/-- Two blocks of a day, their rows not merged yet. -/
def twoBlocks : Store where
  results := [passes] ++ [fails]
  daily := [⟨⟨"o", "m", 1⟩, (1, 1)⟩] ++ [⟨⟨"o", "m", 1⟩, (1, 0)⟩]
  table := .insert [fails] (.insert [passes] .empty)

theorem strip_of_twoBlocks :
    days 86400003 1 [⟨("m", 1), (2, 1)⟩] "m" = ([uptimeDay 1 (2, 1)], pct (2, 1)) ∧
      (resultsOf twoBlocks "o" "m" (· = 1)).length = 2 := by
  have hanswers : Answers twoBlocks "o" ["m"] (firstDay 86400003 1) [⟨("m", 1), (2, 1)⟩] :=
    ⟨[("m", 1)], by decide, by decide⟩
  have hid : "m" ∈ ["m"] := List.mem_singleton_self _
  have hstrip := strip_of_results hanswers hid le_rfl
  exact ⟨hstrip.1, by decide⟩

end Upstat.UptimeStrips
