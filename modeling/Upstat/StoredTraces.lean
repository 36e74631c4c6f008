import Mathlib.Data.List.Dedup
import Upstat.DoubleNumbers
import Upstat.TrimmedLists

/-! # A trace by its id (`telemetry/explore.go`, `otel_traces_trace_id_ts`)

The index tells when a trace began and ended, in seconds and for each block by itself, and the spans
are read from the time that it spans. Times are nanoseconds of 1970 to 2106, durations are such that
`int64` has them, and nothing has expired. -/
namespace Upstat.StoredTraces

open DoubleNumbers TrimmedLists

def second : ℤ := 1000000000

structure Span where
  orgId : String
  traceId : String
  spanId : String
  parentId : String
  service : String
  name : String
  timestamp : ℤ
  duration : ℕ
  statusCode : String
  timestamp_nonneg : 0 ≤ timestamp
  timestamp_lt : timestamp < 2 ^ 32 * second
  duration_lt : duration < 2 ^ 62
  deriving DecidableEq

structure IndexRow where
  orgId : String
  traceId : String
  start : ℤ
  stop : ℤ

def toDateTime (ns : ℤ) : ℤ := ns / second

def Span.key (s : Span) : String × String := (s.orgId, s.traceId)

/-- `otel_traces_trace_id_ts_mv`, of the block that is inserted. -/
def view (block : List Span) : List IndexRow :=
  let named := block.filter (·.traceId ≠ "")
  (named.map Span.key).dedup.map fun k =>
    let times := (named.filter (·.key = k)).map Span.timestamp
    ⟨k.1, k.2, toDateTime (times.min?.getD 0), toDateTime (times.max?.getD 0)⟩

/-- The index after some blocks. -/
def indexOf (blocks : List (List Span)) : List IndexRow := blocks.flatMap view

/-- 1972, the first year whose times count as known. -/
def knownFrom : ℤ := 63072000

/-- The time that is read. -/
def window (fails : Bool) (index : List IndexRow) (orgId traceId : String) (now : ℤ) : ℤ × ℤ :=
  let rows := index.filter fun r => r.orgId = orgId ∧ r.traceId = traceId
  let s := (rows.map IndexRow.start).min?.getD 0
  let e := (rows.map IndexRow.stop).max?.getD 0
  if fails = false ∧ knownFrom ≤ s then (s * second - 60 * second, e * second + 60 * second)
  else (now - 7 * 86400 * second, now + 3600 * second)

def limit : ℕ := 10000

/-- The rows of the spans that the database answers, those of one time in some order. -/
def Answers (spans : List Span) (orgId traceId : String) (w : ℤ × ℤ) (rows : List Span) : Prop :=
  ∃ all : List Span, all.Perm (spans.filter fun s => s.orgId = orgId ∧ s.traceId = traceId ∧ w.1 ≤ s.timestamp ∧ s.timestamp ≤ w.2) ∧
    all.Pairwise (·.timestamp ≤ ·.timestamp) ∧ rows = all.take limit

structure TraceSpan where
  traceId : String
  spanId : String
  parentId : Option String
  service : String
  name : String
  start : ℤ
  durationNs : ℤ
  status : String
  deriving DecidableEq

structure Trace where
  traceId : String
  rootService : String
  rootName : String
  start : ℤ
  durationMs : ℚ
  spanCount : ℕ
  status : String
  spans : List TraceSpan
  deriving DecidableEq

/-- `int64(d)` of a column that is read as a double. -/
def durationNs (d : ℕ) : ℤ := ⌊nearest d⌋

def Span.read (r : Span) (traceId : String) : TraceSpan where
  traceId := traceId
  spanId := r.spanId
  parentId := if r.parentId = "" then none else some r.parentId
  service := r.service
  name := r.name
  start := r.timestamp
  durationNs := durationNs r.duration
  status := if r.statusCode = "Error" then "error" else "ok"

/-- The variables of the loop over the rows. -/
structure Loop where
  status : String
  rootService : String
  rootName : String
  stop : ℤ
  spans : List TraceSpan

/-- The zero `time.Time`. -/
def zeroTime : ℤ := -62135596800 * second

def Loop.start : Loop := ⟨"", "", "", zeroTime, []⟩

def Loop.add (l : Loop) (sp : TraceSpan) : Loop where
  status := if sp.status = "error" then "error" else l.status
  rootService := if sp.parentId = none ∧ l.rootName = "" then sp.service else l.rootService
  rootName := if sp.parentId = none ∧ l.rootName = "" then sp.name else l.rootName
  stop := if l.stop < sp.start + sp.durationNs then sp.start + sp.durationNs else l.stop
  spans := l.spans ++ [sp]

/-- `time.Time.Sub`, which saturates, in microseconds. -/
def microseconds (stop start : ℤ) : ℤ := (max (-2 ^ 63) (min (2 ^ 63 - 1) (stop - start))).tdiv 1000

def hexDigit (c : Char) : Bool := c ∈ "0123456789abcdef".toList

def isTraceId (id : String) : Bool := id.utf8ByteSize = 32 ∧ trim hexDigit id.toList = []

/-- `Trace`, of the rows that are answered. -/
def trace (traceId : String) (rows : List Span) : Option Trace :=
  if isTraceId traceId then
    match rows.map (·.read traceId) with
    | [] => none
    | first :: rest =>
      let l := (first :: rest).foldl Loop.add .start
      some {
        traceId := traceId
        start := first.start
        spanCount := l.spans.length
        rootService := if l.rootName = "" then first.service else l.rootService
        rootName := if l.rootName = "" then first.name else l.rootName
        status := if l.status = "" then "ok" else l.status
        durationMs := nearest (nearest (microseconds l.stop first.start) / 1000)
        spans := l.spans }
  else none

/-! ## The index -/

section
variable {blocks : List (List Span)} {block : List Span} {s : Span} {r : IndexRow}

/-- The times of a key's spans in a block. -/
def times (block : List Span) (k : String × String) : List ℤ := ((block.filter (·.traceId ≠ "")).filter (·.key = k)).map Span.timestamp

theorem view_eq (block : List Span) : view block = ((block.filter (·.traceId ≠ "")).map Span.key).dedup.map fun k =>
    ⟨k.1, k.2, toDateTime ((times block k).min?.getD 0), toDateTime ((times block k).max?.getD 0)⟩ := rfl

theorem mem_times (hs : s ∈ block) (hid : s.traceId ≠ "") : s.timestamp ∈ times block s.key :=
  List.mem_map_of_mem (List.mem_filter.mpr ⟨List.mem_filter.mpr ⟨hs, decide_eq_true hid⟩, decide_eq_true rfl⟩)

theorem row_of_mem (hs : s ∈ block) (hid : s.traceId ≠ "") :
    ∃ r ∈ view block, r.orgId = s.orgId ∧ r.traceId = s.traceId ∧ r.start * second ≤ s.timestamp ∧ s.timestamp < (r.stop + 1) * second := by
  have hkey : s.key ∈ ((block.filter (·.traceId ≠ "")).map Span.key).dedup :=
    List.mem_dedup.mpr (List.mem_map_of_mem (List.mem_filter.mpr ⟨hs, decide_eq_true hid⟩))
  have htime := mem_times hs hid
  obtain ⟨least, hleast⟩ := Option.isSome_iff_exists.mp (List.isSome_min?_of_mem htime)
  obtain ⟨most, hmost⟩ := Option.isSome_iff_exists.mp (List.isSome_max?_of_mem htime)
  refine ⟨_, List.mem_map_of_mem hkey, rfl, rfl, ?_, ?_⟩
  · have hle : least ≤ s.timestamp := (List.min?_eq_some_iff.mp hleast).2 _ htime
    change toDateTime ((times block s.key).min?.getD 0) * second ≤ s.timestamp
    rw [hleast]
    exact (Int.ediv_mul_le least (by decide)).trans hle
  · have hle : s.timestamp ≤ most := (List.max?_eq_some_iff.mp hmost).2 _ htime
    change s.timestamp < (toDateTime ((times block s.key).max?.getD 0) + 1) * second
    rw [hmost]
    exact hle.trans_lt (Int.lt_ediv_add_one_mul_self most (by decide))

/-- A row begins with a span of its trace. -/
theorem span_of_row (hr : r ∈ view block) : ∃ s ∈ block, s.orgId = r.orgId ∧ s.traceId = r.traceId ∧ r.start = toDateTime s.timestamp := by
  rw [view_eq] at hr
  obtain ⟨k, hk, rfl⟩ := List.mem_map.mp hr
  obtain ⟨s₀, hs₀, rfl⟩ := List.mem_map.mp (List.mem_dedup.mp hk)
  obtain ⟨hs₀, hid⟩ := List.mem_filter.mp hs₀
  obtain ⟨least, hleast⟩ := Option.isSome_iff_exists.mp (List.isSome_min?_of_mem (mem_times hs₀ (of_decide_eq_true hid)))
  obtain ⟨s, hs, hsame⟩ := List.mem_map.mp (List.min?_mem hleast)
  obtain ⟨hs, hkey⟩ := List.mem_filter.mp hs
  have hkey : s.key = s₀.key := of_decide_eq_true hkey
  refine ⟨s, (List.mem_filter.mp hs).1, congrArg Prod.fst hkey, congrArg Prod.snd hkey, ?_⟩
  change toDateTime ((times block s₀.key).min?.getD 0) = toDateTime s.timestamp
  rw [hleast, hsame]
  rfl

/-- The spans of a trace that have been inserted. -/
def spansOf (blocks : List (List Span)) (orgId traceId : String) : List Span :=
  blocks.flatten.filter fun s => s.orgId = orgId ∧ s.traceId = traceId

theorem mem_spansOf {orgId traceId : String} : s ∈ spansOf blocks orgId traceId ↔ s ∈ blocks.flatten ∧ s.orgId = orgId ∧ s.traceId = traceId := by
  rw [spansOf, List.mem_filter, decide_eq_true_iff]

variable {orgId traceId : String} {now : ℤ}

/-- The spans of the trace are in the time that its rows of the index span. -/
theorem mem_window (hid : traceId ≠ "") (hlate : ∀ s ∈ spansOf blocks orgId traceId, knownFrom * second ≤ s.timestamp)
    (hs : s ∈ spansOf blocks orgId traceId) :
    (window false (indexOf blocks) orgId traceId now).1 ≤ s.timestamp ∧ s.timestamp ≤ (window false (indexOf blocks) orgId traceId now).2 := by
  obtain ⟨hmem, horg, htrace⟩ := mem_spansOf.mp hs
  obtain ⟨block, hblock, hs'⟩ := List.mem_flatten.mp hmem
  obtain ⟨r, hr, hrorg, hrtrace, hstart, hstop⟩ := row_of_mem hs' (htrace ▸ hid)
  have hrow : r ∈ (indexOf blocks).filter fun r => r.orgId = orgId ∧ r.traceId = traceId :=
    List.mem_filter.mpr ⟨List.mem_flatMap.mpr ⟨block, hblock, hr⟩, decide_eq_true ⟨hrorg.trans horg, hrtrace.trans htrace⟩⟩
  unfold window
  generalize hrows : (indexOf blocks).filter (fun r => r.orgId = orgId ∧ r.traceId = traceId) = rows at hrow
  obtain ⟨lo, hlo⟩ := Option.isSome_iff_exists.mp (List.isSome_min?_of_mem (List.mem_map_of_mem (f := IndexRow.start) hrow))
  obtain ⟨hi, hhi⟩ := Option.isSome_iff_exists.mp (List.isSome_max?_of_mem (List.mem_map_of_mem (f := IndexRow.stop) hrow))
  have hlo_le : lo ≤ r.start := (List.min?_eq_some_iff.mp hlo).2 _ (List.mem_map_of_mem hrow)
  have hle_hi : r.stop ≤ hi := (List.max?_eq_some_iff.mp hhi).2 _ (List.mem_map_of_mem hrow)
  have hknown : knownFrom ≤ lo := by
    obtain ⟨r', hr', rfl⟩ := List.mem_map.mp (List.min?_mem hlo)
    rw [← hrows] at hr'
    obtain ⟨hindex, hkey⟩ := List.mem_filter.mp hr'
    obtain ⟨horg', htrace'⟩ := of_decide_eq_true hkey
    obtain ⟨block', hblock', hview⟩ := List.mem_flatMap.mp hindex
    obtain ⟨s', hs', hsorg, hstrace, hsstart⟩ := span_of_row hview
    have hlate' := hlate s' (mem_spansOf.mpr ⟨List.mem_flatten.mpr ⟨block', hblock', hs'⟩, hsorg.trans horg', hstrace.trans htrace'⟩)
    rw [hsstart]
    exact Int.le_ediv_of_mul_le (by decide) hlate'
  dsimp only
  rw [hlo, hhi, Option.getD_some, Option.getD_some, if_pos ⟨rfl, hknown⟩]
  unfold second at hstart hstop ⊢
  constructor <;> dsimp only <;> omega

/-- All spans of the trace are answered. -/
theorem answers_perm {rows : List Span} (hid : traceId ≠ "") (hlate : ∀ s ∈ spansOf blocks orgId traceId, knownFrom * second ≤ s.timestamp)
    (hfew : (spansOf blocks orgId traceId).length ≤ limit)
    (h : Answers blocks.flatten orgId traceId (window false (indexOf blocks) orgId traceId now) rows) :
    rows.Perm (spansOf blocks orgId traceId) ∧ rows.Pairwise (·.timestamp ≤ ·.timestamp) := by
  obtain ⟨all, hperm, hsorted, rfl⟩ := h
  have hfilter : (blocks.flatten.filter fun s => s.orgId = orgId ∧ s.traceId = traceId ∧
      (window false (indexOf blocks) orgId traceId now).1 ≤ s.timestamp ∧ s.timestamp ≤ (window false (indexOf blocks) orgId traceId now).2) =
      spansOf blocks orgId traceId := by
    refine List.filter_congr fun s hs => decide_eq_decide.mpr ⟨fun h => ⟨h.1, h.2.1⟩, fun h => ⟨h.1, h.2, ?_⟩⟩
    exact mem_window hid hlate (mem_spansOf.mpr ⟨hs, h⟩)
  rw [hfilter] at hperm
  rw [List.take_of_length_le (hperm.length_eq.trans_le hfew)]
  exact ⟨hperm, hsorted⟩

end

/-! ## The loop over the spans -/

/-- A span that the trace may be named by. -/
def TraceSpan.names (sp : TraceSpan) : Bool := sp.parentId = none ∧ sp.name ≠ ""

/-- What the loop has come to after some spans. -/
structure After (sps : List TraceSpan) (l : Loop) : Prop where
  spans : l.spans = sps
  status : l.status = if ∃ sp ∈ sps, sp.status = "error" then "error" else ""
  unnamed : sps.find? TraceSpan.names = none → l.rootName = ""
  named : ∀ root, sps.find? TraceSpan.names = some root → l.rootService = root.service ∧ l.rootName = root.name
  stop : l.stop = (sps.map fun sp => sp.start + sp.durationNs).foldl max zeroTime

theorem After.add {sps : List TraceSpan} {l : Loop} (h : After sps l) (sp : TraceSpan) : After (sps ++ [sp]) (l.add sp) := by
  have hfind : (sps ++ [sp]).find? TraceSpan.names = (sps.find? TraceSpan.names).or (if sp.names then some sp else none) := by
    rw [List.find?_append, List.find?_singleton]
  refine ⟨congrArg (· ++ [sp]) h.spans, ?_, fun hnone => ?_, fun root hroot => ?_, ?_⟩
  · unfold Loop.add
    dsimp only
    by_cases hsp : sp.status = "error"
    · simp [hsp]
    · rw [if_neg hsp, h.status]
      simp [hsp]
  · rw [hfind, Option.or_eq_none_iff] at hnone
    have hname := h.unnamed hnone.1
    have hsp : ¬sp.names = true := fun hsp => by simp [hsp] at hnone
    unfold Loop.add
    dsimp only
    split_ifs with hparent
    · by_contra hne
      exact hsp (decide_eq_true ⟨hparent.1, hne⟩)
    · exact hname
  · rw [hfind] at hroot
    unfold Loop.add
    dsimp only
    cases hbefore : sps.find? TraceSpan.names with
    | some root' =>
      -- The first such span stays.
      rw [hbefore, Option.some_or] at hroot
      obtain rfl := Option.some.inj hroot
      obtain ⟨hservice, hname⟩ := h.named root' hbefore
      have hnames : root'.names = true := List.find?_some hbefore
      have hne : l.rootName ≠ "" := hname ▸ (of_decide_eq_true hnames).2
      rw [if_neg fun h => hne h.2, if_neg fun h => hne h.2]
      exact ⟨hservice, hname⟩
    | none =>
      rw [hbefore, Option.none_or] at hroot
      split_ifs at hroot with hsp
      obtain rfl := Option.some.inj hroot
      have hparent : sp.parentId = none ∧ l.rootName = "" := ⟨(of_decide_eq_true hsp).1, h.unnamed hbefore⟩
      rw [if_pos hparent, if_pos hparent]
      exact ⟨rfl, rfl⟩
  · unfold Loop.add
    dsimp only
    rw [List.map_append, List.foldl_append, ← h.stop]
    exact (max_def_lt _ _).symm

theorem after_spans (sps : List TraceSpan) : After sps (sps.foldl Loop.add .start) := by
  induction sps using List.reverseRecOn with
  | nil => exact ⟨rfl, by simp [Loop.start], fun _ => rfl, nofun, rfl⟩
  | append_singleton sps sp ih =>
    rw [List.foldl_append]
    exact ih.add sp

theorem foldl_max_mem {x : ℤ} {xs : List ℤ} (hne : xs ≠ []) (h : ∀ y ∈ xs, x ≤ y) : xs.foldl max x ∈ xs ∧ ∀ y ∈ xs, y ≤ xs.foldl max x := by
  obtain ⟨y, ys, rfl⟩ := List.exists_cons_of_ne_nil hne
  rw [List.foldl_cons, max_eq_right (h y List.mem_cons_self)]
  have hmax : (y :: ys).max? = some (ys.foldl max y) := rfl
  exact List.max?_eq_some_iff.mp hmax

theorem durationNs_nonneg (d : ℕ) : 0 ≤ durationNs d :=
  Int.floor_nonneg.mpr (nearest_nonneg (Nat.cast_nonneg d))

/-- The root that is shown: the first span without a parent that has a name, or else the first span. -/
def rootOf (sps : List TraceSpan) : Option TraceSpan := (sps.find? TraceSpan.names).or sps.head?

/-- What is shown of a trace's spans. -/
structure Shows (sps : List TraceSpan) (t : Trace) : Prop where
  spans : t.spans = sps
  count : t.spanCount = sps.length
  start : ∀ sp ∈ sps, t.start ≤ sp.start
  first : ∃ sp ∈ sps, t.start = sp.start
  status : t.status = if ∃ sp ∈ sps, sp.status = "error" then "error" else "ok"
  root : ∃ sp, rootOf sps = some sp ∧ t.rootService = sp.service ∧ t.rootName = sp.name
  duration : ∃ stop, (∃ sp ∈ sps, stop = sp.start + sp.durationNs) ∧ (∀ sp ∈ sps, sp.start + sp.durationNs ≤ stop) ∧
    t.durationMs = nearest (nearest (microseconds stop t.start) / 1000)

theorem shows_trace {traceId : String} {rows : List Span} {t : Trace} (hsorted : rows.Pairwise (·.timestamp ≤ ·.timestamp))
    (h : trace traceId rows = some t) : Shows (rows.map (·.read traceId)) t := by
  unfold trace at h
  have hsorted' : (rows.map (·.read traceId)).Pairwise (·.start ≤ ·.start) := List.pairwise_map.mpr hsorted
  have hnonneg : ∀ sp ∈ rows.map (·.read traceId), 0 ≤ sp.start ∧ 0 ≤ sp.durationNs := by
    intro sp hsp
    obtain ⟨r, -, rfl⟩ := List.mem_map.mp hsp
    exact ⟨r.timestamp_nonneg, durationNs_nonneg _⟩
  split_ifs at h
  cases hrows : rows.map (·.read traceId) with
  | nil =>
    rw [hrows] at h
    cases h
  | cons first rest =>
    rw [hrows] at h hsorted' hnonneg
    obtain rfl := Option.some.inj h
    have hafter := after_spans (first :: rest)
    generalize (first :: rest).foldl Loop.add .start = l at hafter
    have hfirst : ∀ sp ∈ first :: rest, first.start ≤ sp.start :=
      List.forall_mem_cons.mpr ⟨le_rfl, (List.pairwise_cons.mp hsorted').1⟩
    have hzero : ∀ y ∈ (first :: rest).map fun sp => sp.start + sp.durationNs, zeroTime ≤ y := by
      intro y hy
      obtain ⟨sp, hsp, rfl⟩ := List.mem_map.mp hy
      obtain ⟨hstart, hduration⟩ := hnonneg sp hsp
      have hzero : zeroTime ≤ 0 := by decide
      omega
    have hne : ((first :: rest).map fun sp => sp.start + sp.durationNs) ≠ [] := List.cons_ne_nil _ _
    have hstop := foldl_max_mem hne hzero
    rw [← hafter.stop] at hstop
    refine ⟨hafter.spans, congrArg List.length hafter.spans, hfirst, ⟨first, List.mem_cons_self, rfl⟩, ?_, ?_, l.stop, ?_, ?_, rfl⟩
    · dsimp only
      rw [hafter.status]
      by_cases herror : ∃ sp ∈ first :: rest, sp.status = "error"
      · rw [if_pos herror, if_pos herror]
        rfl
      · rw [if_neg herror, if_neg herror]
        rfl
    · unfold rootOf
      cases hfind : (first :: rest).find? TraceSpan.names with
      | none =>
        have hname := hafter.unnamed hfind
        exact ⟨first, rfl, if_pos hname, if_pos hname⟩
      | some root =>
        obtain ⟨hservice, hname⟩ := hafter.named root hfind
        have hnames : root.names = true := List.find?_some hfind
        have hne : ¬l.rootName = "" := hname ▸ (of_decide_eq_true hnames).2
        exact ⟨root, rfl, (if_neg hne).trans hservice, (if_neg hne).trans hname⟩
    · obtain ⟨sp, hsp, hsame⟩ := List.mem_map.mp hstop.1
      exact ⟨sp, hsp, hsame.symm⟩
    · exact fun sp hsp => hstop.2 _ (List.mem_map_of_mem hsp)

theorem trace_eq_none {traceId : String} {rows : List Span} (hid : isTraceId traceId = true) : trace traceId rows = none ↔ rows = [] := by
  unfold trace
  rw [if_pos hid]
  cases rows with
  | nil => simp
  | cons r rows => simp

theorem ne_empty_of_isTraceId {traceId : String} (h : isTraceId traceId = true) : traceId ≠ "" := by
  rintro rfl
  exact absurd h (by decide)

/-- In whatever blocks spans come, a trace is shown with all of its organization's spans and no
others, in the order of their times, with their count, the time from the earliest start to the
latest end, an error if one has one, and the name of its root. -/
theorem trace_of_spans {blocks : List (List Span)} {orgId traceId : String} {now : ℤ} {rows : List Span} (hid : isTraceId traceId = true)
    (hlate : ∀ s ∈ spansOf blocks orgId traceId, knownFrom * second ≤ s.timestamp) (hfew : (spansOf blocks orgId traceId).length ≤ limit)
    (hrows : Answers blocks.flatten orgId traceId (window false (indexOf blocks) orgId traceId now) rows) :
    match trace traceId rows with
    | none => spansOf blocks orgId traceId = []
    | some t => ∃ sps, sps.Perm ((spansOf blocks orgId traceId).map (·.read traceId)) ∧ sps.Pairwise (·.start ≤ ·.start) ∧ Shows sps t := by
  obtain ⟨hperm, hsorted⟩ := answers_perm (ne_empty_of_isTraceId hid) hlate hfew hrows
  cases htrace : trace traceId rows with
  | none =>
    obtain rfl := (trace_eq_none hid).mp htrace
    exact hperm.nil_eq.symm
  | some t => exact ⟨_, hperm.map _, List.pairwise_map.mpr hsorted, shows_trace hsorted htrace⟩

def someId : String := "0123456789abcdef0123456789abcdef"

/-- A root of another block than its child's, and a span of another organization. -/
def twoBlocks : List (List Span) :=
  [[⟨"o", someId, "b", "a", "db", "select", 1800000000000000500, 40, "Error", by decide, by decide, by decide⟩,
    ⟨"p", someId, "c", "", "web", "GET", 1700000000000000000, 7, "", by decide, by decide, by decide⟩],
   [⟨"o", someId, "a", "", "api", "GET", 1800000000000000000, 2000000, "Ok", by decide, by decide, by decide⟩]]

def twoAnswers : List Span := (spansOf twoBlocks "o" someId).reverse

theorem trace_of_twoBlocks :
    match trace someId twoAnswers with
    | none => spansOf twoBlocks "o" someId = []
    | some t => ∃ sps, sps.Perm ((spansOf twoBlocks "o" someId).map (·.read someId)) ∧
        sps.Pairwise (·.start ≤ ·.start) ∧ Shows sps t :=
  @trace_of_spans twoBlocks "o" someId 0 twoAnswers (by decide +kernel) (by decide +kernel) (by decide +kernel)
    ⟨twoAnswers, by decide +kernel, by decide +kernel, by decide +kernel⟩

end Upstat.StoredTraces
