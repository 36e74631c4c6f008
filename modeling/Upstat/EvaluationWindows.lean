import Mathlib.Tactic.IntervalCases
import Upstat.DerivedQueries
import Upstat.SeriesAssembly

/-! # The ranges that evaluations ask for (`workspace.go`, `alerting.go`, `evaluation.py`, `query.go`)

What api/common lets be stored of an SLO's and a rule's window, the requests that the evaluator
derives from it, and the ranges and steps that api/query accepts. In Python an instant is counted
in microseconds from 1970, in Go in nanoseconds. -/
namespace Upstat.EvaluationWindows

open SeriesAssembly (TimeRange Tier nsPerSecond hour maxInt64)

def second : ℕ := 1000000
def day : ℕ := 86400 * second

/-- The first and the last instant of a `datetime`. -/
def minDatetime : ℤ := -62135596800 * second
def maxDatetime : ℤ := 253402300799999999

def isSpace (c : Char) : Bool :=
  c.toNat ∈ [9, 10, 11, 12, 13, 32, 133, 160, 5760, 8232, 8233, 8239, 8287, 12288] ∨ (8192 ≤ c.toNat ∧ c.toNat ≤ 8202)

/-- `strings.TrimSpace` -/
def trimSpace (s : String) : String := String.ofList ((s.toList.dropWhile isSpace).reverse.dropWhile isSpace).reverse

/-- How instants travel, and `time.ParseDuration` of whole seconds. -/
structure Platform extends SeriesAssembly.Platform where
  iso : ℤ → String
  rfc3339 : String → Option ℤ
  rfc3339_iso (t : ℤ) : minDatetime ≤ t → t ≤ maxDatetime → rfc3339 (iso t) = some (t * 1000)
  iso_ne (t : ℤ) : trimSpace (iso t) ≠ ""
  parseDuration_seconds (n : ℕ) : n * nsPerSecond ≤ maxInt64 → parseDuration (toString n ++ "s") = some (n * nsPerSecond)

/-! ## api/common -/

structure Error where
  status : ℕ
  code : String
  message : String
  resource : Option String := none

def invalid (code message : String) : Error := { status := 422, code := code, message := message }

def notFound (resource message : String) : Error :=
  { status := 404, code := "not_found", message := message, resource := some resource }

structure SLOInput where
  name : String
  sliSource : String
  target : Option ℚ
  window : String
  monitorID : Option String
  query : String

structure SLO where
  name : String
  sliSource : String
  target : ℚ
  window : String
  monitorID : Option String
  query : String

def sliSources : List String := ["check", "metric_ratio", "latency"]

/-- `^[1-9][0-9]?d$` -/
def windowRe (s : String) : Bool :=
  match s.toList with
  | [a, 'd'] => a.isDigit && a != '0'
  | [a, b, 'd'] => a.isDigit && a != '0' && b.isDigit
  | _ => false

/-- `CreateSLO`, for a caller who may, of an organisation with these monitors. -/
def createSLO (monitors : List String) (i : SLOInput) : Except Error SLO :=
  match i.target with
  | none => .error (invalid "bad_shape" "name, sli_source and target are required")
  | some target =>
    let window := if i.window = "" then "30d" else i.window
    if trimSpace i.name = "" ∨ i.sliSource ∉ sliSources then .error (invalid "bad_shape" "name, sli_source and target are required")
    else if target ≤ 0 ∨ 100 ≤ target then .error (invalid "bad_shape" "target is a percentage between 0 and 100")
    else if windowRe window = false then .error (invalid "bad_shape" "window is a rolling number of days, like 30d")
    else if ∃ id ∈ i.monitorID, id ∉ monitors then .error (notFound "monitor" "monitor not found")
    else .ok ⟨trimSpace i.name, i.sliSource, target, window, i.monitorID, i.query⟩

structure Thresholds where
  warn : Option ℚ
  crit : ℚ
  window : String

structure Notify where
  channelIDs : Option (List String)
  cooldownMinutes : ℤ
  renotifyMinutes : ℤ
  muteWindows : Option (List (String × String))

structure Rule where
  name : String
  signal : String
  queryString : String
  thresholds : Thresholds
  notify : Notify

def signals : List String := ["uptime", "metric", "log", "trace", "slo_burn"]

/-- What is wrong with a channel of a rule. -/
def channelError (health : String → Option String) (id : String) : Option Error :=
  match health id with
  | none => some (notFound "channel" s!"channel {id} not found")
  | some h => if h = "unverified" then some (invalid "channel_unverified" s!"channel {id} is not verified") else none

/-- `checkRule`, in an organisation whose channels have this health. -/
def checkRule (health : String → Option String) (r : Rule) : Except Error Rule :=
  let name := trimSpace r.name
  if name = "" ∨ 120 < name.utf8ByteSize then .error (invalid "bad_shape" "name, signal and thresholds are required")
  else if r.signal ∉ signals then .error (invalid "bad_shape" "signal must be uptime, metric, log, trace or slo_burn")
  else if r.signal ≠ "uptime" ∧ trimSpace r.queryString = "" then
    .error (invalid "bad_shape" "metric, log, trace and slo_burn rules need a query")
  else if r.notify.cooldownMinutes < 0 ∨ 1440 < r.notify.cooldownMinutes ∨ r.notify.renotifyMinutes < 0 then
    .error (invalid "bad_shape" "cooldown must be 0-1440 minutes")
  else
    let channelIDs := r.notify.channelIDs.getD []
    match channelIDs.findSome? (channelError health) with
    | some e => .error e
    | none => .ok { r with
        name := name
        thresholds := { r.thresholds with window := if r.thresholds.window = "" then "5m" else r.thresholds.window }
        notify := { r.notify with channelIDs := some channelIDs, muteWindows := some (r.notify.muteWindows.getD []) } }

/-! ## api/analytics -/

/-- The zeros of the decimal digits of Unicode 15. -/
def zeros : List ℕ :=
  [48, 1632, 1776, 1984, 2406, 2534, 2662, 2790, 2918, 3046, 3174, 3302, 3430, 3558, 3664, 3792, 3872, 4160, 4240, 6112, 6160, 6470,
    6608, 6784, 6800, 6992, 7088, 7232, 7248, 42528, 43216, 43264, 43472, 43504, 43600, 44016, 65296, 66720, 68912, 69734, 69872,
    69942, 70096, 70384, 70736, 70864, 71248, 71360, 71472, 71904, 72016, 72784, 73040, 73120, 73552, 92768, 92864, 93008, 120782,
    120792, 120802, 120812, 120822, 123200, 123632, 124144, 125264, 130032]

/-- The value of a character that `\d` takes. -/
def digit (c : Char) : Option ℕ := (zeros.find? fun z => z ≤ c.toNat ∧ c.toNat < z + 10).map (c.toNat - ·)

def number (ds : List Char) : ℕ := ds.foldl (fun n c => 10 * n + (digit c).getD 0) 0

/-- The most digits that `int` reads. -/
def maxDigits : ℕ := 4300

def unitOf : Char → Option ℕ
  | 's' => some second
  | 'm' => some (60 * second)
  | 'h' => some (3600 * second)
  | 'd' => some day
  | _ => none

/-- `_WINDOW`, of what `strip` leaves: digits and the length of their unit. -/
def window (spec : String) : Option (List Char × ℕ) :=
  let s := StrippedQueries.strip spec.toList
  if s.dropLast ≠ [] ∧ s.dropLast.all (fun c => (digit c).isSome) then (s.getLast?.bind unitOf).map fun unit => (s.dropLast, unit)
  else none

/-- `parse_window`, which raises where `int` does, or where that many days are no `timedelta`. -/
def parseWindow (spec : String) (default : ℕ) : Option ℕ :=
  match window spec with
  | none => some default
  | some (ds, unit) => if ds.length ≤ maxDigits ∧ number ds ≤ 999999999 then some (number ds * unit) else none

structure QueryRequest where
  q : String
  from_ : String
  to_ : String
  step : String
  signal : String

/-- `QueryClient.query`, which raises where the range starts before there are datetimes. -/
def query (x : Platform) (q : List Char) (window : ℕ) (now : ℤ) (step signal : String) : Option QueryRequest :=
  if now - window < minDatetime then none else some ⟨String.ofList q, x.iso (now - window), x.iso now, step, signal⟩

/-- A step as wide as the window. -/
def stepOf (window : ℕ) : String := toString (window / second) ++ "s"

def signalOf : String → String
  | "log" => "logs"
  | "trace" => "traces"
  | "metric" => "metrics"
  | _ => ""

/-- The request of `_value`. -/
def ruleRequest (x : Platform) (rule : Rule) (now : ℤ) : Option QueryRequest :=
  (parseWindow rule.thresholds.window (5 * 60 * second)).bind fun window =>
    query x (DerivedQueries.ruleQuery rule.queryString.toList) window now (stepOf window) (signalOf rule.signal)

/-- The queries of `_counts`, with their signal. -/
def countQueries (slo : SLO) : List (List Char × String) :=
  if slo.sliSource = "check" then
    match slo.monitorID with
    | none => []
    | some id =>
      if id = "" then []
      else [(s!"check:{id} status:up | count()".toList, "checks"), (s!"check:{id} | count()".toList, "checks")]
  else if slo.sliSource = "latency" then
    [(DerivedQueries.latencyGood slo.query.toList, "traces"), (DerivedQueries.latencyAll slo.query.toList, "traces")]
  else
    match DerivedQueries.ratioQueries slo.query.toList with
    | none => []
    | some (good, all) => [(good, ""), (all, "")]

/-- The requests of `_counts`. -/
def countRequests (x : Platform) (slo : SLO) (window : ℕ) (now : ℤ) : Option (List QueryRequest) :=
  (countQueries slo).mapM fun q => query x q.1 window now (stepOf window) q.2

/-- The requests of `_slo`: over the SLO's window, and over the last hour. -/
def sloRequests (x : Platform) (slo : SLO) (now : ℤ) : Option (List QueryRequest) := do
  let window ← parseWindow slo.window (30 * day)
  let counts ← countRequests x slo window now
  let recent ← countRequests x slo (3600 * second) now
  return counts ++ recent

/-! ## api/query -/

def maxRange : ℤ := 92 * 24 * hour

/-- `Range` -/
def range (x : Platform) (fromRaw toRaw : String) (now fallback : ℤ) : Except Error TimeRange :=
  let end_ := if toRaw = "" then some now else x.rfc3339 toRaw
  match if fromRaw = "" then end_.map (· - fallback) else x.rfc3339 fromRaw, end_ with
  | some from_, some to_ =>
    if h : from_ < to_ then
      let r : TimeRange := ⟨from_, to_, h⟩
      if maxRange < r.sub then .error (invalid "range_too_large" "max range is 92 days") else .ok r
    else .error (invalid "ts_out_of_range" "from must be before to")
  | _, _ => .error (invalid "ts_out_of_range" "from/to must be RFC3339")

/-- `TierFor` -/
def tierFor (r : TimeRange) : Tier := if r.sub ≤ 6 * hour then .raw else if r.sub ≤ 7 * 24 * hour then .minute else .hour

/-- The tier of `request`. -/
def tierOf (signal : String) (r : TimeRange) : Tier := if signal = "metrics" then tierFor r else .raw

/-- The range and the step of `Query`. `detected` is the signal of the query's facets. -/
def resolve (x : Platform) (detected : String) (now : ℤ) (req : QueryRequest) : Except Error (TimeRange × ℤ) :=
  if trimSpace req.from_ = "" ∨ trimSpace req.to_ = "" then .error (invalid "bad_shape" "q, from and to are required")
  else
    match range x req.from_ req.to_ now hour with
    | .error e => .error e
    | .ok r =>
      let spec := if req.step = "" then "auto" else req.step
      match SeriesAssembly.step x.toPlatform spec r (tierOf (if req.signal = "" then detected else req.signal) r) with
      | .error message => .error (invalid "invalid_query" message)
      | .ok d => .ok (r, d)

/-- Whatever the query's facets and whenever it comes, the request's range and step are accepted. -/
def Accepted (x : Platform) (req : QueryRequest) : Prop := ∀ detected now, ∃ v, resolve x detected now req = .ok v

/-- The evaluation derives its request, and the request is accepted. -/
def RuleEvaluated (x : Platform) (rule : Rule) (now : ℤ) : Prop := ∃ req, ruleRequest x rule now = some req ∧ Accepted x req

def SloEvaluated (x : Platform) (slo : SLO) (now : ℤ) : Prop := ∃ reqs, sloRequests x slo now = some reqs ∧ ∀ req ∈ reqs, Accepted x req

/-- The text is no number with a unit, for which there is a default, or a time of more than none and no more than 92 days. -/
def Fits (spec : String) : Prop :=
  ∀ w ∈ window spec, w.1.length ≤ maxDigits ∧ 0 < number w.1 * w.2 ∧ number w.1 * w.2 ≤ 92 * day

/-! ## A request for a window -/

section
variable {x : Platform} {q : List Char} {w n : ℕ} {now : ℤ} {signal : String}

theorem sub_le_iff (r : TimeRange) {d : ℤ} (hd : -2 ^ 63 ≤ d) (hmax : d < maxInt64) : r.sub ≤ d ↔ r.to_ - r.from_ ≤ d := by
  simp only [TimeRange.sub, max_le_iff, min_le_iff]
  constructor
  · rintro ⟨-, h | h⟩
    · omega
    · exact h
  · exact fun h => ⟨hd, .inr h⟩

theorem range_iff {r : TimeRange} {fromRaw toRaw : String} {from_ to_ t f : ℤ} (hfrom : fromRaw ≠ "") (hto : toRaw ≠ "")
    (hf : x.rfc3339 fromRaw = some from_) (ht : x.rfc3339 toRaw = some to_) :
    range x fromRaw toRaw t f = .ok r ↔ r.from_ = from_ ∧ r.to_ = to_ ∧ to_ - from_ ≤ maxRange := by
  obtain ⟨start, end_, hlt⟩ := r
  simp only [range, if_neg hfrom, if_neg hto, hf, ht]
  split_ifs with h hlong
  · simp only [false_iff]
    rintro ⟨rfl, rfl, hle⟩
    exact absurd ((sub_le_iff _ (by decide) (by decide)).mpr hle) (not_le.mpr hlong)
  · simp only [Except.ok.injEq, TimeRange.mk.injEq]
    constructor
    · rintro ⟨rfl, rfl⟩
      exact ⟨rfl, rfl, (sub_le_iff _ (by decide) (by decide)).mp (not_lt.mp hlong)⟩
    · rintro ⟨rfl, rfl, -⟩
      exact ⟨rfl, rfl⟩
  · simp only [false_iff]
    rintro ⟨rfl, rfl, -⟩
    exact h hlt

theorem ne_empty_of_trimSpace {s : String} (h : trimSpace s ≠ "") : s ≠ "" := by
  rintro rfl
  exact h (by decide)

theorem stepOf_second (hw : w = n * second) : stepOf w = toString n ++ "s" := by
  unfold stepOf
  rw [hw, Nat.mul_div_cancel n (by decide)]

theorem seconds_ne (n : ℕ) : toString n ++ "s" ≠ "" ∧ toString n ++ "s" ≠ "auto" := by
  constructor
  · intro h
    have hlast := congrArg (fun s : String => s.toList.getLast?) h
    simp at hlast
  · intro h
    have hlast := congrArg (fun s : String => s.toList.getLast?) h
    simp at hlast

/-- A step of whole seconds is accepted in a range that it does not divide too finely. -/
theorem step_seconds {r : TimeRange} {tier : Tier} (hn : 0 < n) (hmax : n * nsPerSecond ≤ maxInt64) (hr : r.sub.tdiv (n * nsPerSecond) ≤ 2000) :
    ∃ d, SeriesAssembly.step x.toPlatform (toString n ++ "s") r tier = .ok d := by
  have hpos : ¬(n * nsPerSecond : ℤ) ≤ 0 := by
    simp only [nsPerSecond]
    omega
  refine ⟨max (n * nsPerSecond) (SeriesAssembly.stepFloor tier), ?_⟩
  unfold SeriesAssembly.step
  rw [if_pos (seconds_ne n), x.parseDuration_seconds n hmax]
  dsimp only
  rw [if_neg hpos, if_neg (not_lt.mpr hr)]

/-- What is asked for with a window of so many seconds is accepted where there are some, and no more than 92 days of them. -/
theorem accepted_iff (hw : w = n * second) (hnow : 0 ≤ now) (hmax : now ≤ maxDatetime) :
    (∃ req, query x q w now (stepOf w) signal = some req ∧ Accepted x req) ↔ 0 < w ∧ w ≤ 92 * day := by
  have hto := ne_empty_of_trimSpace (x.iso_ne now)
  have hfrom := ne_empty_of_trimSpace (x.iso_ne (now - w))
  have hmin : minDatetime ≤ now := le_trans (by decide) hnow
  constructor
  · rintro ⟨req, hreq, haccepted⟩
    unfold query at hreq
    split_ifs at hreq with hearly
    obtain rfl := Option.some.inj hreq
    obtain ⟨v, hv⟩ := haccepted "" 0
    have hf := x.rfc3339_iso (now - w) (not_lt.mp hearly) (by omega)
    have ht := x.rfc3339_iso now hmin hmax
    cases hr : range x (x.iso (now - w)) (x.iso now) 0 hour with
    | error e => simp [resolve, x.iso_ne, hr] at hv
    | ok r =>
      obtain ⟨hstart, hend, hle⟩ := (range_iff hfrom hto hf ht).mp hr
      have hlt := r.from_lt_to
      simp only [maxRange, hour, SeriesAssembly.minute, nsPerSecond] at hle
      simp only [second, day] at *
      omega
  · rintro ⟨hpos, hle⟩
    have hearly : ¬now - w < minDatetime := by
      simp only [minDatetime, second, day] at *
      omega
    have hf := x.rfc3339_iso (now - w) (not_lt.mp hearly) (by omega)
    have ht := x.rfc3339_iso now hmin hmax
    have hlt : (now - w) * 1000 < now * 1000 := by omega
    have hrange : now * 1000 - (now - w) * 1000 ≤ maxRange := by
      simp only [maxRange, hour, SeriesAssembly.minute, nsPerSecond]
      simp only [second, day] at hw hle ⊢
      omega
    refine ⟨_, if_neg hearly, fun detected at_ => ?_⟩
    have hr := (range_iff (r := ⟨_, _, hlt⟩) (t := at_) (f := hour) hfrom hto hf ht).mpr ⟨rfl, rfl, hrange⟩
    have hsub : TimeRange.sub ⟨_, _, hlt⟩ = n * nsPerSecond := by
      simp only [TimeRange.sub, maxInt64, nsPerSecond]
      simp only [second, day] at hw hle ⊢
      omega
    have hn : 0 < n := by
      simp only [second] at hw
      omega
    have hstep (tier : Tier) : ∃ d, SeriesAssembly.step x.toPlatform (toString n ++ "s") ⟨_, _, hlt⟩ tier = .ok d := by
      refine step_seconds hn ?_ ?_
      · simp only [maxInt64, nsPerSecond]
        simp only [second, day] at hw hle
        omega
      · rw [hsub, Int.tdiv_self (by simp only [nsPerSecond]; omega)]
        decide
    obtain ⟨d, hd⟩ := hstep (tierOf (if signal = "" then detected else signal) ⟨_, _, hlt⟩)
    refine ⟨(⟨_, _, hlt⟩, d), ?_⟩
    have hblank : ¬(trimSpace (x.iso (now - w)) = "" ∨ trimSpace (x.iso now) = "") := by simp [x.iso_ne]
    unfold resolve
    dsimp only
    rw [if_neg hblank, hr]
    dsimp only
    rw [stepOf_second hw, if_neg (seconds_ne n).1, hd]

/-! ## What is derived from a window's text -/

theorem unitOf_dvd {c : Char} {unit : ℕ} (h : unitOf c = some unit) : ∃ k, 0 < k ∧ k ≤ 86400 ∧ unit = k * second := by
  unfold unitOf at h
  split at h <;> cases h
  exacts [⟨1, by decide, by decide, by decide⟩, ⟨60, by decide, by decide, rfl⟩, ⟨3600, by decide, by decide, rfl⟩,
    ⟨86400, by decide, by decide, rfl⟩]

theorem window_unit {spec : String} {ds : List Char} {unit : ℕ} (h : window spec = some (ds, unit)) :
    ∃ k, 0 < k ∧ k ≤ 86400 ∧ unit = k * second := by
  unfold window at h
  dsimp only at h
  split_ifs at h
  obtain ⟨unit', hunit, heq⟩ := Option.map_eq_some_iff.mp h
  obtain ⟨c, -, hc⟩ := Option.bind_eq_some_iff.mp hunit
  obtain ⟨-, rfl⟩ := Prod.mk.inj heq
  exact unitOf_dvd hc

/-- A text that is read as a window is one of whole seconds, and is in range where it fits. -/
theorem parseWindow_iff {spec : String} {d : ℕ} (hpos : 0 < d) (hmax : d ≤ 92 * day) :
    (∃ w, parseWindow spec d = some w ∧ 0 < w ∧ w ≤ 92 * day) ↔ Fits spec := by
  unfold parseWindow Fits
  cases h : window spec with
  | none => simp [hpos, hmax]
  | some v =>
    obtain ⟨ds, unit⟩ := v
    obtain ⟨k, hk, -, rfl⟩ := window_unit h
    simp only [Option.mem_some_iff, forall_eq']
    constructor
    · rintro ⟨w, hw, hwpos, hwmax⟩
      split_ifs at hw with hread
      obtain rfl := Option.some.inj hw
      exact ⟨hread.1, hwpos, hwmax⟩
    · rintro ⟨hdigits, hwpos, hwmax⟩
      have hn : number ds ≤ 999999999 := by
        have hle : number ds * (1 * second) ≤ number ds * (k * second) := by gcongr; omega
        simp only [second, day] at hle hwmax
        omega
      exact ⟨_, if_pos ⟨hdigits, hn⟩, hwpos, hwmax⟩

theorem parseWindow_second {spec : String} {default : ℕ} (hdefault : ∃ n, default = n * second) (h : parseWindow spec default = some w) :
    ∃ n, w = n * second := by
  unfold parseWindow at h
  cases hv : window spec with
  | none =>
    rw [hv] at h
    obtain rfl := Option.some.inj h
    exact hdefault
  | some v =>
    obtain ⟨ds, unit⟩ := v
    obtain ⟨k, -, -, rfl⟩ := window_unit hv
    rw [hv] at h
    dsimp only at h
    split_ifs at h
    obtain rfl := Option.some.inj h
    exact ⟨number ds * k, by ring⟩

/-- A rule's request is accepted where its window fits. -/
theorem ruleEvaluated_iff (rule : Rule) (hnow : 0 ≤ now) (hmax : now ≤ maxDatetime) :
    RuleEvaluated x rule now ↔ Fits rule.thresholds.window := by
  have hdefault : ∃ n, 5 * 60 * second = n * second := ⟨300, rfl⟩
  rw [← parseWindow_iff (d := 5 * 60 * second) (by decide) (by decide)]
  unfold RuleEvaluated ruleRequest
  constructor
  · rintro ⟨req, hreq, haccepted⟩
    obtain ⟨w, hw, hreq⟩ := Option.bind_eq_some_iff.mp hreq
    obtain ⟨n, hn⟩ := parseWindow_second hdefault hw
    exact ⟨w, hw, (accepted_iff hn hnow hmax).mp ⟨req, hreq, haccepted⟩⟩
  · rintro ⟨w, hw, hfits⟩
    obtain ⟨n, hn⟩ := parseWindow_second hdefault hw
    obtain ⟨req, hreq, haccepted⟩ := (accepted_iff hn hnow hmax).mpr hfits
    exact ⟨req, by rw [hw]; exact hreq, haccepted⟩

theorem mapM_iff {α β : Type} {f : α → Option β} {P : β → Prop} (as : List α) :
    (∃ bs, as.mapM f = some bs ∧ ∀ b ∈ bs, P b) ↔ ∀ a ∈ as, ∃ b, f a = some b ∧ P b := by
  induction as with
  | nil => simp
  | cons a as ih =>
    simp only [List.mapM_cons, List.mem_cons, forall_eq_or_imp, ← ih]
    constructor
    · rintro ⟨bs, hbs, hall⟩
      obtain ⟨b, hb, hrest⟩ := Option.bind_eq_some_iff.mp hbs
      obtain ⟨cs, hcs, hbs⟩ := Option.bind_eq_some_iff.mp hrest
      obtain rfl := Option.some.inj hbs
      exact ⟨⟨b, hb, hall b (by simp)⟩, cs, hcs, fun c hc => hall c (by simp [hc])⟩
    · rintro ⟨⟨b, hb, hPb⟩, bs, hbs, hall⟩
      refine ⟨b :: bs, by simp [hb, hbs], fun c hc => ?_⟩
      obtain rfl | hc := List.mem_cons.mp hc
      · exact hPb
      · exact hall c hc

/-- The counts over a window are accepted where it fits, or where there is nothing to count. -/
theorem countRequests_iff (slo : SLO) (hw : w = n * second) (hnow : 0 ≤ now) (hmax : now ≤ maxDatetime) :
    (∃ reqs, countRequests x slo w now = some reqs ∧ ∀ req ∈ reqs, Accepted x req) ↔
      countQueries slo = [] ∨ 0 < w ∧ w ≤ 92 * day := by
  unfold countRequests
  rw [mapM_iff]
  simp only [accepted_iff hw hnow hmax]
  cases countQueries slo with
  | nil => simp
  | cons q qs =>
    simp only [List.mem_cons, forall_eq_or_imp, reduceCtorEq, false_or]
    exact ⟨fun h => h.1, fun h => ⟨h, fun _ _ => h⟩⟩

/-- No monitor is checked, or there is no query to divide by. -/
def NothingToCount (slo : SLO) : Prop :=
  (slo.sliSource = "check" ∧ ∀ id ∈ slo.monitorID, id = "") ∨
    (slo.sliSource ≠ "check" ∧ slo.sliSource ≠ "latency" ∧ (DerivedQueries.partition " / ".toList slo.query.toList).2 = [])

theorem countQueries_eq_nil_iff (slo : SLO) : countQueries slo = [] ↔ NothingToCount slo := by
  unfold countQueries NothingToCount
  by_cases hcheck : slo.sliSource = "check"
  · rw [if_pos hcheck]
    cases slo.monitorID with
    | none => simp [hcheck]
    | some id =>
      dsimp only
      split_ifs with hid <;> simp [hcheck, hid]
  · rw [if_neg hcheck]
    by_cases hlatency : slo.sliSource = "latency"
    · simp [hlatency]
    · rw [if_neg hlatency]
      simp only [hcheck, hlatency, DerivedQueries.ratioQueries, false_and, not_false_eq_true, true_and, false_or, ne_eq]
      split_ifs with hall
      · exact iff_of_true rfl hall
      · exact iff_of_false (by simp) hall

theorem mem_digits_of_isDigit {c : Char} (h : c.isDigit = true) :
    c ∈ ['0', '1', '2', '3', '4', '5', '6', '7', '8', '9'] := by
  simp only [Char.isDigit, ge_iff_le, Bool.and_eq_true, decide_eq_true_eq, UInt32.le_iff_toNat_le] at h
  obtain ⟨hlow, hhigh⟩ := h
  change 48 ≤ c.toNat at hlow
  change c.toNat ≤ 57 at hhigh
  rw [← Char.ofNat_toNat c]
  interval_cases c.toNat <;> simp

theorem digit_of_isDigit {c : Char} (h : c.isDigit = true) :
    NotifierPrograms.isSpace c = false ∧ ∃ v < 10, digit c = some v ∧ (c ≠ '0' → 0 < v) := by
  have hmem := mem_digits_of_isDigit h
  simp only [List.mem_cons, List.not_mem_nil, or_false] at hmem
  rcases hmem with rfl | rfl | rfl | rfl | rfl | rfl | rfl | rfl | rfl | rfl
  all_goals exact ⟨by decide, _, by decide, rfl, by decide⟩

/-- Digits before a `d`, the first of them after no space. -/
theorem window_digits {spec : String} {c : Char} {ds : List Char} (hlist : spec.toList = (c :: ds) ++ ['d'])
    (hc : NotifierPrograms.isSpace c = false) (hds : ∀ e ∈ c :: ds, (digit e).isSome = true) : window spec = some (c :: ds, day) := by
  have hd : NotifierPrograms.isSpace 'd' = false := by decide
  have hstrip : StrippedQueries.strip spec.toList = (c :: ds) ++ ['d'] := by
    simp [StrippedQueries.strip, hlist, hc, hd]
  unfold window
  dsimp only
  rw [hstrip, List.dropLast_concat, List.getLast?_concat, if_pos ⟨List.cons_ne_nil _ _, List.all_eq_true.mpr hds⟩]
  rfl

/-- A window that an SLO is stored with is one of one to 99 days. -/
theorem window_of_windowRe {spec : String} (h : windowRe spec = true) :
    ∃ ds, window spec = some (ds, day) ∧ ds.length ≤ maxDigits ∧ 0 < number ds ∧ number ds ≤ 99 := by
  unfold windowRe at h
  split at h
  · next a hlist =>
    simp only [Bool.and_eq_true, bne_iff_ne] at h
    obtain ⟨hspace, v, hv, hdigit, hpos⟩ := digit_of_isDigit h.1
    have hvpos := hpos h.2
    refine ⟨[a], window_digits hlist hspace (by simp [hdigit]), by simp [maxDigits], ?_, ?_⟩
    · simpa [number, hdigit] using hvpos
    · simp [number, hdigit]
      omega
  · next a b hlist =>
    simp only [Bool.and_eq_true, bne_iff_ne] at h
    obtain ⟨hspace, v, hv, hdigit, hpos⟩ := digit_of_isDigit h.1.1
    obtain ⟨-, u, hu, hdigit', -⟩ := digit_of_isDigit h.2
    have hvpos := hpos h.1.2
    refine ⟨[a, b], window_digits hlist hspace (by simp [hdigit, hdigit']), by simp [maxDigits], ?_, ?_⟩
    · simp [number, hdigit, hdigit']
      omega
    · simp [number, hdigit, hdigit']
      omega
  · cases h

theorem parseWindow_of_windowRe {spec : String} (h : windowRe spec = true) (default : ℕ) :
    ∃ n, parseWindow spec default = some (n * second) ∧ (0 < n * second ∧ n * second ≤ 92 * day ↔ Fits spec) := by
  obtain ⟨ds, hwindow, hdigits, hpos, hle⟩ := window_of_windowRe h
  refine ⟨number ds * 86400, ?_, ?_⟩
  · unfold parseWindow
    rw [hwindow]
    dsimp only
    rw [if_pos ⟨hdigits, by omega⟩]
    simp only [day]
    ring_nf
  · unfold Fits
    rw [hwindow]
    simp only [Option.mem_some_iff, forall_eq', hdigits, true_and, day, mul_assoc]

theorem sloEvaluated_iff {slo : SLO} (h : windowRe slo.window = true) (hnow : 0 ≤ now) (hmax : now ≤ maxDatetime) :
    SloEvaluated x slo now ↔ NothingToCount slo ∨ Fits slo.window := by
  obtain ⟨n, hparse, hfits⟩ := parseWindow_of_windowRe h (30 * day)
  have hrecent := (countRequests_iff (x := x) slo (w := 3600 * second) rfl hnow hmax).mpr (.inr ⟨by decide, by decide⟩)
  rw [← countQueries_eq_nil_iff, ← hfits, ← countRequests_iff slo rfl hnow hmax]
  unfold SloEvaluated sloRequests
  obtain ⟨recent, hrecent, hall⟩ := hrecent
  rw [hparse]
  simp only [Option.bind_eq_bind, Option.bind_some, hrecent, Option.bind_eq_some_iff, Option.pure_def, Option.some.injEq]
  constructor
  · rintro ⟨reqs, ⟨counts, hcounts, rfl⟩, haccepted⟩
    exact ⟨counts, hcounts, fun req hreq => haccepted req (List.mem_append_left _ hreq)⟩
  · rintro ⟨counts, hcounts, haccepted⟩
    refine ⟨counts ++ recent, ⟨counts, hcounts, rfl⟩, fun req hreq => ?_⟩
    obtain hreq | hreq := List.mem_append.mp hreq
    · exact haccepted req hreq
    · exact hall req hreq

theorem windowRe_of_createSLO {monitors : List String} {i : SLOInput} {slo : SLO} (h : createSLO monitors i = .ok slo) :
    windowRe slo.window = true := by
  unfold createSLO at h
  cases ht : i.target with
  | none => simp [ht] at h
  | some target =>
    simp only [ht] at h
    generalize (if i.window = "" then "30d" else i.window) = window at h
    split_ifs at h with hshape htarget hwindow hmonitor
    obtain rfl := Except.ok.inj h
    simpa using hwindow

end

/-- What is evaluated of an accepted SLO, or of an accepted metric, log or trace rule, asks for
ranges and steps that are accepted exactly where its window fits, or where the SLO has nothing to count. -/
theorem evaluated_iff (x : Platform) {now : ℤ} (hnow : 0 ≤ now) (hmax : now ≤ maxDatetime) :
    (∀ monitors i slo, createSLO monitors i = .ok slo → (SloEvaluated x slo now ↔ NothingToCount slo ∨ Fits slo.window)) ∧
      ∀ health r rule, checkRule health r = .ok rule → rule.signal ∈ ["metric", "log", "trace"] →
        (RuleEvaluated x rule now ↔ Fits rule.thresholds.window) :=
  ⟨fun _ _ _ h => sloEvaluated_iff (windowRe_of_createSLO h) hnow hmax, fun _ _ rule _ _ => ruleEvaluated_iff rule hnow hmax⟩

/-! ## A platform -/

theorem trimSpace_ne {s : String} {c : Char} (hc : c ∈ s.toList) (h : isSpace c = false) : trimSpace s ≠ "" := by
  intro hnil
  have hlist : ((s.toList.dropWhile isSpace).reverse.dropWhile isSpace).reverse = [] := by
    have := congrArg String.toList hnil
    simpa [trimSpace] using this
  rw [List.reverse_eq_nil_iff, List.dropWhile_eq_nil_iff] at hlist
  have hmem : c ∈ s.toList.dropWhile isSpace := by
    rw [← List.takeWhile_append_dropWhile (p := isSpace) (l := s.toList)] at hc
    obtain hc | hc := List.mem_append.mp hc
    · have := List.mem_takeWhile_imp hc
      simp [h] at this
    · exact hc
  have hspace := hlist c (List.mem_reverse.mpr hmem)
  simp [h] at hspace

/-- The last day of January 2026, and an hour, five minutes and thirty days before. -/
def stamps : List (ℤ × String) :=
  [(1769817600000000, "2026-01-31T00:00:00Z"), (1769814000000000, "2026-01-30T23:00:00Z"), (1769817300000000, "2026-01-30T23:55:00Z"),
    (1767225600000000, "2026-01-01T00:00:00Z")]

/-- Other instants are written as their number. -/
def isoText (t : ℤ) : String :=
  ((stamps.find? (·.1 = t)).map (·.2)).getD (String.ofList ('T' :: (if t < 0 then '-' else '+') :: Nat.toDigits 10 t.natAbs))

def readText (s : String) : Option ℤ :=
  match stamps.find? (·.2 = s) with
  | some p => some (p.1 * 1000)
  | none =>
    match s.toList with
    | 'T' :: '+' :: ds => some (Nat.ofDigitChars 10 ds 0 * 1000)
    | 'T' :: '-' :: ds => some (-Nat.ofDigitChars 10 ds 0 * 1000)
    | _ => none

theorem isoText_ne (t : ℤ) : trimSpace (isoText t) ≠ "" := by
  by_cases ht : t ∈ stamps.map Prod.fst
  · revert t
    decide +kernel
  · have hnone : stamps.find? (·.1 = t) = none := by
      refine List.find?_eq_none.mpr fun p hp heq => ht ?_
      exact List.mem_map.mpr ⟨p, hp, by simpa using heq⟩
    rw [isoText, hnone]
    exact trimSpace_ne (c := 'T') (by simp) (by decide)

theorem readText_isoText (t : ℤ) : readText (isoText t) = some (t * 1000) := by
  by_cases ht : t ∈ stamps.map Prod.fst
  · revert t
    decide +kernel
  · have hnone : stamps.find? (·.1 = t) = none := by
      refine List.find?_eq_none.mpr fun p hp heq => ht ?_
      exact List.mem_map.mpr ⟨p, hp, by simpa using heq⟩
    have hno : ∀ p ∈ stamps, p.2.toList.head? ≠ some 'T' := by decide +kernel
    have hother (cs : List Char) : stamps.find? (·.2 = String.ofList ('T' :: cs)) = none := by
      refine List.find?_eq_none.mpr fun p hp heq => hno p hp ?_
      rw [of_decide_eq_true heq]
      simp
    rw [isoText, hnone]
    simp only [readText, Option.map_none, Option.getD_none, hother, String.toList_ofList]
    split_ifs with hneg
    · simp only [Nat.ofDigitChars_toDigits (by decide : 1 < 10) (by decide : 10 ≤ 10)]
      congr 1
      omega
    · simp only [Nat.ofDigitChars_toDigits (by decide : 1 < 10) (by decide : 10 ≤ 10)]
      congr 1
      omega

/-- Whole seconds are all the durations that are read. -/
def readSeconds (s : String) : Option ℤ :=
  if s.toList.getLast? = some 's' ∧ s.toList.dropLast.all Char.isDigit then some (Nat.ofDigitChars 10 s.toList.dropLast 0 * nsPerSecond)
  else none

theorem readSeconds_seconds (n : ℕ) : readSeconds (toString n ++ "s") = some (n * nsPerSecond) := by
  have hdigits : ∀ c ∈ Nat.toDigits 10 n, c.isDigit = true := fun c hc => Nat.isDigit_of_mem_toDigits (by decide) (by decide) hc
  simp [readSeconds, Nat.ofDigitChars_toDigits (by decide : 1 < 10) (by decide : 10 ≤ 10)]
  exact hdigits

def plain : Platform where
  toPlatform := { SeriesAssembly.daysOnly with parseDuration := readSeconds }
  iso := isoText
  rfc3339 := readText
  rfc3339_iso t _ _ := readText_isoText t
  iso_ne := isoText_ne
  parseDuration_seconds n _ := readSeconds_seconds n

/-! ## Accepted windows that are evaluated, and others -/

def january31 : ℤ := 1769817600000000

theorem january31_evaluated :
    (∀ monitors i slo, createSLO monitors i = .ok slo → (SloEvaluated plain slo january31 ↔ NothingToCount slo ∨ Fits slo.window)) ∧
      ∀ health r rule, checkRule health r = .ok rule → rule.signal ∈ ["metric", "log", "trace"] →
        (RuleEvaluated plain rule january31 ↔ Fits rule.thresholds.window) :=
  evaluated_iff plain (by decide) (by decide)

instance (spec : String) : Decidable (Fits spec) :=
  inferInstanceAs (Decidable (∀ w ∈ window spec, _))

def longInput : SLOInput := ⟨"Homepage", "check", some 99, "99d", some "m", ""⟩

theorem longInput_accepted : createSLO ["m"] longInput = .ok ⟨"Homepage", "check", 99, "99d", some "m", ""⟩ := by
  have hname : trimSpace "Homepage" = "Homepage" := by decide +kernel
  have hwindow : windowRe "99d" = true := by decide +kernel
  have hne : ("Homepage" = "") = False ∧ ("99d" = "") = False := by decide +kernel
  norm_num [createSLO, longInput, hname, hwindow, sliSources, hne.1, hne.2]

theorem ninetyNine_days_never_evaluated : ¬∀ (x : Platform) (now : ℤ), 0 ≤ now → now ≤ maxDatetime →
    (∀ monitors i slo, createSLO monitors i = .ok slo → SloEvaluated x slo now) ∧
      ∀ health r rule, checkRule health r = .ok rule → rule.signal ∈ ["metric", "log", "trace"] → RuleEvaluated x rule now := by
  intro h
  have hslo := (h plain january31 (by decide) (by decide)).1 _ _ _ longInput_accepted
  obtain hnothing | hfits := (sloEvaluated_iff (by decide +kernel) (by decide) (by decide)).mp hslo
  · simp [NothingToCount] at hnothing
  · exact absurd hfits (by decide +kernel)

end Upstat.EvaluationWindows
