import Upstat.CompiledFilters

/-! # The columns that a compiled query reads

A query's columns are compared with those of its table, and the arguments of its aggregates are
looked for. -/
namespace Upstat.CompiledColumns

open QueryGrammar ConditionTexts QueryCompiler BuiltQueries CompiledFilters

/-! ## Tables (`0001_telemetry.sql`) -/

@[grind] def metricColumns : List String :=
  ["ResourceAttributes", "ResourceSchemaUrl", "ScopeName", "ScopeVersion", "ScopeAttributes", "ScopeDroppedAttrCount",
    "ScopeSchemaUrl", "ServiceName", "MetricName", "MetricDescription", "MetricUnit", "Attributes", "StartTimeUnix", "TimeUnix"]

def exemplarColumns : List String :=
  ["Exemplars.FilteredAttributes", "Exemplars.TimeUnix", "Exemplars.Value", "Exemplars.SpanId", "Exemplars.TraceId"]

@[grind] def rollupColumns : List String :=
  ["org_id", "ServiceName", "MetricName", "Attributes", "bucket", "sum_value", "count_value", "min_value", "max_value", "quantiles"]

/-- The columns of the tables that queries read. -/
@[grind] def tableColumns : String → Option (List String)
  | "otel_logs" => some ["Timestamp", "TimestampTime", "TraceId", "SpanId", "TraceFlags", "SeverityText", "SeverityNumber",
      "ServiceName", "Body", "ResourceSchemaUrl", "ResourceAttributes", "ScopeSchemaUrl", "ScopeName", "ScopeVersion",
      "ScopeAttributes", "LogAttributes", "org_id"]
  | "otel_traces" => some ["Timestamp", "TraceId", "SpanId", "ParentSpanId", "TraceState", "SpanName", "SpanKind", "ServiceName",
      "ResourceAttributes", "ScopeName", "ScopeVersion", "SpanAttributes", "Duration", "StatusCode", "StatusMessage",
      "Events.Timestamp", "Events.Name", "Events.Attributes", "Links.TraceId", "Links.SpanId", "Links.TraceState",
      "Links.Attributes", "org_id"]
  | "otel_metrics_gauge" => some (metricColumns ++ ["Value", "Flags"] ++ exemplarColumns ++ ["org_id"])
  | "otel_metrics_sum" =>
    some (metricColumns ++ ["Value", "Flags"] ++ exemplarColumns ++ ["AggregationTemporality", "IsMonotonic", "org_id"])
  | "otel_metrics_histogram" =>
    some (metricColumns ++ ["Count", "Sum", "BucketCounts", "ExplicitBounds"] ++ exemplarColumns ++
      ["Flags", "Min", "Max", "AggregationTemporality", "org_id"])
  | "metrics_1m" => some rollupColumns
  | "metrics_1h" => some rollupColumns
  | "check_results" => some ["org_id", "monitor_id", "tick_id", "region", "scheduled_at", "checked_at", "ok", "cause",
      "status_code", "dns_ms", "connect_ms", "tls_ms", "ttfb_ms", "total_ms", "cert_not_after"]
  | "events" => some ["org_id", "property_id", "name", "ts", "visitor_hash", "path", "referrer_host", "device_class", "country",
      "value", "dims"]
  | _ => none

/-- The columns of what is selected from. -/
@[grind] def sourceColumns : Source → List String
  | .table name => (tableColumns name).getD []
  | .union columns _ => columns

/-- The tables there are have the columns that are selected from each. -/
def sourceExists : Source → Prop
  | .table name => (tableColumns name).isSome
  | .union columns tables => ∀ t ∈ tables, ∃ cs, tableColumns t = some cs ∧ columns ⊆ cs

def columnOf : Piece → Option String
  | .column name => some name
  | .text _ | .param _ _ => none

def columnsOf (e : Expr) : List String := e.filterMap columnOf

@[simp] theorem columnsOf_nil : columnsOf [] = [] := rfl

@[simp] theorem columnsOf_append (d e : Expr) : columnsOf (d ++ e) = columnsOf d ++ columnsOf e := List.filterMap_append

@[simp] theorem columnsOf_column (name : String) (e : Expr) : columnsOf (.column name :: e) = name :: columnsOf e := rfl

@[simp] theorem columnsOf_text (s : Bytes) (e : Expr) : columnsOf (.text s :: e) = columnsOf e := rfl

@[simp] theorem columnsOf_param (n : ℕ) (typ : String) (e : Expr) : columnsOf (.param n typ :: e) = columnsOf e := rfl

@[simp] theorem columnsOf_lit (s : String) (e : Expr) : columnsOf (lit s :: e) = columnsOf e := rfl

theorem columnsOf_intercalate (s : String) (es : List Expr) : columnsOf ([lit s].intercalate es) = es.flatMap columnsOf := by
  induction es with
  | nil => rfl
  | cons e es ih =>
    cases es with
    | nil => simp
    | cons e' es =>
      rw [List.intercalate_cons_cons, columnsOf_append, columnsOf_append, ih, List.flatMap_cons]
      simp

theorem columnsOf_source (s : Source) : columnsOf s.expr = [] := by
  cases s with
  | table name => rfl
  | union columns tables =>
    have hlit (names : List String) : (names.map fun c => [lit c]).flatMap columnsOf = [] := by
      induction names with
      | nil => rfl
      | cons c names ih => rw [List.map_cons, List.flatMap_cons, ih]; rfl
    simp [Source.expr, columnsOf_intercalate, commaSeparated, List.flatMap_map, hlit]

/-- An aggregate's parens with nothing between them. -/
@[grind] def emptyArgument : Expr → Bool
  | .text s :: .text t :: e => (s.getLast? = some lparen ∧ t.head? = some rparen) || emptyArgument (.text t :: e)
  | _ :: e => emptyArgument e
  | [] => false

/-- What a query needs to be answered: tables and columns that there are, something to select,
and arguments for its aggregates. -/
structure Sound (s : Select) : Prop where
  source : sourceExists s.source
  columns : ∀ name ∈ columnsOf s.expr, name ∈ sourceColumns s.source
  selects : s.columns ≠ []
  arguments : ∀ e ∈ s.columns, emptyArgument e = false

theorem columnsOf_select (s : Select) : columnsOf s.expr =
    s.columns.flatMap columnsOf ++ columnsOf s.arrayJoin ++ columnsOf (conditionExpr s.filter) ++ s.groupBy.flatMap columnsOf ++
      columnsOf s.orderBy := by
  have hgroup : columnsOf (if s.groupBy = [] then [] else lit " GROUP BY " :: commaSeparated s.groupBy) = s.groupBy.flatMap columnsOf := by
    split_ifs with h
    · rw [h]
      rfl
    · rw [columnsOf_lit, commaSeparated, columnsOf_intercalate]
  simp only [Select.expr, columnsOf_append, hgroup]
  simp [commaSeparated, columnsOf_intercalate, columnsOf_source]

/-! ## Columns of facets -/

section
variable {ν : Type} (lib : Formats ν) (req : Request ν)

/-- The columns that the request's query may read. -/
abbrev known : List String := sourceColumns (source req).1

def Reads (e : Expr) : Prop := ∀ name ∈ columnsOf e, name ∈ known req

@[simp] theorem reads_nil : Reads req [] := by simp [Reads]

@[simp] theorem reads_append (d e : Expr) : Reads req (d ++ e) ↔ Reads req d ∧ Reads req e := by
  simp only [Reads, columnsOf_append, List.mem_append, or_imp, forall_and]

@[simp] theorem reads_column (name : String) (e : Expr) : Reads req (.column name :: e) ↔ name ∈ known req ∧ Reads req e := by
  simp [Reads]

@[simp] theorem reads_text (s : Bytes) (e : Expr) : Reads req (.text s :: e) ↔ Reads req e := Iff.rfl

@[simp] theorem reads_param (n : ℕ) (typ : String) (e : Expr) : Reads req (.param n typ :: e) ↔ Reads req e := Iff.rfl

@[simp] theorem reads_lit (s : String) (e : Expr) : Reads req (lit s :: e) ↔ Reads req e := Iff.rfl

/-- What metrics are read from: a histogram, a rollup, or the points. -/
def metricSources : List (Source × String) :=
  [(.table "otel_metrics_histogram", "TimeUnix"), (.table "metrics_1m", "bucket"), (.table "metrics_1h", "bucket"),
    (.union ["org_id", "ServiceName", "MetricName", "Attributes", "ResourceAttributes", "TimeUnix", "Value"]
      ["otel_metrics_gauge", "otel_metrics_sum"], "TimeUnix")]

/-- What holds of each signal and the sources it may have holds of the request's. -/
theorem source_cases {P : Signal → Source × String → Prop} (htraces : P .traces (.table "otel_traces", "Timestamp"))
    (hchecks : P .checks (.table "check_results", "scheduled_at")) (hevents : P .events (.table "events", "ts"))
    (hmetrics : ∀ s ∈ metricSources, P .metrics s) (hlogs : P .logs (.table "otel_logs", "Timestamp"))
    (hother : ∀ name, P (.other name) (.table "otel_logs", "Timestamp")) : P req.signal (source req) := by
  obtain ⟨ast, signal, orgId, from_, to_, step, tier, monitors, histogram, limit⟩ := req
  cases signal with
  | traces => exact htraces
  | checks => exact hchecks
  | events => exact hevents
  | logs => exact hlogs
  | other name => exact hother name
  | metrics =>
    apply hmetrics
    cases tier <;> cases histogram <;> simp [source, metricSources]

theorem known_base : "org_id" ∈ known req ∧ (source req).2 ∈ known req :=
  source_cases req (P := fun _ source => "org_id" ∈ sourceColumns source.1 ∧ source.2 ∈ sourceColumns source.1)
    (by decide) (by decide) (by decide) (by decide) (by decide) fun _ => by decide

theorem known_metricName : "MetricName" ∈ known req ↔ req.signal = .metrics :=
  source_cases req (P := fun signal source => "MetricName" ∈ sourceColumns source.1 ↔ signal = .metrics)
    (by decide) (by decide) (by decide) (by decide) (by decide) fun _ => iff_of_false (by decide) nofun

theorem known_monitorId : "monitor_id" ∈ known req ↔ req.signal = .checks :=
  source_cases req (P := fun signal source => "monitor_id" ∈ sourceColumns source.1 ↔ signal = .checks)
    (by decide) (by decide) (by decide) (by decide) (by decide) fun _ => iff_of_false (by decide) nofun

theorem known_name : "name" ∈ known req ↔ req.signal = .events :=
  source_cases req (P := fun signal source => "name" ∈ sourceColumns source.1 ↔ signal = .events)
    (by decide) (by decide) (by decide) (by decide) (by decide) fun _ => iff_of_false (by decide) nofun

theorem known_attrMap : attrMap req ∈ known req ↔ req.signal ≠ .checks := by
  apply source_cases req (P := fun signal source => attrMap { req with signal := signal } ∈ sourceColumns source.1 ↔ signal ≠ .checks)
  · exact iff_of_true (show "SpanAttributes" ∈ _ by decide) (by decide)
  · exact iff_of_false (show "LogAttributes" ∉ _ by decide) (by decide)
  · exact iff_of_true (show "dims" ∈ _ by decide) (by decide)
  · have hall : ∀ s ∈ metricSources, "Attributes" ∈ sourceColumns s.1 := by decide
    exact fun s hs => iff_of_true (hall s hs) (by decide)
  · exact iff_of_true (show "LogAttributes" ∈ _ by decide) (by decide)
  · exact fun name => iff_of_true (show "LogAttributes" ∈ _ by decide) nofun

/-- A table has the columns that only its signal's queries read. -/
theorem known_of_signal :
    (req.signal = .logs → ∀ c ∈ ["ServiceName", "SeverityText", "Body", "LogAttributes", "Timestamp"], c ∈ known req) ∧
    (req.signal = .traces → ∀ c ∈ ["SpanName", "SpanAttributes", "ServiceName", "Duration", "StatusCode", "TraceId", "Timestamp"],
      c ∈ known req) ∧
    (req.signal = .metrics → ∀ c ∈ ["MetricName", "Attributes", "ServiceName"], c ∈ known req) ∧
    (req.signal = .checks → ∀ c ∈ ["scheduled_at", "monitor_id", "region", "ok", "cause", "status_code", "total_ms"],
      c ∈ known req) ∧
    (req.signal = .events → ∀ c ∈ ["ts", "name", "path", "referrer_host", "device_class", "country", "value", "dims", "visitor_hash"],
      c ∈ known req) :=
  source_cases req (P := fun signal source =>
    (signal = .logs → ∀ c ∈ ["ServiceName", "SeverityText", "Body", "LogAttributes", "Timestamp"], c ∈ sourceColumns source.1) ∧
    (signal = .traces → ∀ c ∈ ["SpanName", "SpanAttributes", "ServiceName", "Duration", "StatusCode", "TraceId", "Timestamp"],
      c ∈ sourceColumns source.1) ∧
    (signal = .metrics → ∀ c ∈ ["MetricName", "Attributes", "ServiceName"], c ∈ sourceColumns source.1) ∧
    (signal = .checks → ∀ c ∈ ["scheduled_at", "monitor_id", "region", "ok", "cause", "status_code", "total_ms"],
      c ∈ sourceColumns source.1) ∧
    (signal = .events → ∀ c ∈ ["ts", "name", "path", "referrer_host", "device_class", "country", "value", "dims", "visitor_hash"],
      c ∈ sourceColumns source.1))
    (by decide) (by decide) (by decide) (by decide) (by decide) fun _ => ⟨nofun, nofun, nofun, nofun, nofun⟩

theorem facetColumns_reads : ∀ c ∈ facetColumns req, req.signal ∈ c.2.1 → Reads req c.2.2 := by
  obtain ⟨ast, signal, orgId, from_, to_, step, tier, monitors, histogram, limit⟩ := req
  cases signal with
  | metrics =>
    cases tier <;> cases histogram <;>
      simp [facetColumns, resource, duration, known, source, sourceColumns, tableColumns, rollupColumns, metricColumns]
  | logs | traces | checks | events | other _ =>
    simp [facetColumns, resource, duration, known, source, sourceColumns, tableColumns]

theorem lookup_ok {m : String} {key : Bytes} {b c : Builder} {e : Expr} (h : lookup m key b = .ok (e, c)) :
    e = [.column m, lit "[", .param (b.n + 1) "String", lit "]"] := by
  obtain ⟨p, d, hp, h⟩ := bind_ok.mp h
  obtain ⟨rfl, -⟩ := Prod.mk.inj (pure_ok.mp h)
  obtain ⟨rfl, -⟩ := Prod.mk.inj (Except.ok.inj hp)
  rfl

theorem place_inMap {f : Bytes} {m : String} {key : Bytes} (h : place req f = .inMap m key) :
    m ∈ known req ↔ (hasPrefix f "@" → req.signal ≠ .checks) := by
  unfold place at h
  cases hat : hasPrefix f "@" with
  | true =>
    rw [hat, if_pos rfl] at h
    obtain ⟨rfl, -⟩ := Place.inMap.inj h
    simpa using known_attrMap req
  | false =>
    rw [hat, if_neg (by decide)] at h
    refine ⟨fun _ hf => absurd hf (by decide), fun _ => ?_⟩
    split_ifs at h with hm hv ht
    · obtain ⟨rfl, -⟩ := Place.inMap.inj h
      exact (known_of_signal req).2.2.1 hm.2 _ (by simp)
    · cases hc : facetColumn req f with
      | some e => simp [hc] at h
      | none => simp [hc] at h
    · cases hc : facetColumn req f with
      | some e => simp [hc] at h
      | none =>
        rw [hc] at h
        obtain ⟨rfl, -⟩ := Place.inMap.inj h
        exact (known_of_signal req).2.1 ht.2 _ (by simp)
    · cases hc : facetColumn req f with
      | some e => simp [hc] at h
      | none => simp [hc] at h

theorem place_here {f : Bytes} {e : Expr} (h : place req f = .here e) : Reads req e ∧ hasPrefix f "@" = false := by
  unfold place at h
  cases hat : hasPrefix f "@" with
  | true => simp [hat] at h
  | false =>
    refine ⟨?_, rfl⟩
    rw [hat, if_neg (by decide)] at h
    split_ifs at h with hm hv ht
    all_goals
      cases hc : facetColumn req f with
      | some d =>
        rw [hc] at h
        obtain rfl := Place.here.inj h
        obtain ⟨c, hmem, -, hs, rfl⟩ := facetColumn_mem req hc
        exact facetColumns_reads req c hmem hs
      | none =>
        rw [hc] at h
        simp only [Option.elim_none, reduceCtorEq] at h
        try
          obtain rfl := Place.here.inj h
          simpa using (known_of_signal req).2.2.2.2 hv.2 "value" (by simp)

/-- A facet reads a column that there is, but for attributes of checks. -/
theorem facet_reads {f : Bytes} {b c : Builder} {e : Expr} (h : facet req f b = .ok (e, c)) :
    Reads req e ↔ (hasPrefix f "@" → req.signal ≠ .checks) := by
  rw [facet_eq] at h
  cases hp : place req f with
  | inMap m key =>
    rw [hp] at h
    obtain rfl := lookup_ok h
    simpa using place_inMap req hp
  | here d =>
    rw [hp] at h
    obtain ⟨rfl, -⟩ := Prod.mk.inj (pure_ok.mp h)
    obtain ⟨hr, hat⟩ := place_here req hp
    simp [hr, hat]
  | nowhere =>
    rw [hp] at h
    cases h

@[simp] theorem reads_numeric (e : Expr) : Reads req (numeric e) ↔ Reads req e := by
  unfold numeric
  split_ifs <;> simp

/-! ## Columns of terms -/

/-- What a term's facet needs the signal to be. -/
structure FacetFits (f : Bytes) : Prop where
  metric : f = bytes "metric" → req.signal = .metrics
  check : f = bytes "check" → req.signal = .checks
  vital : hasPrefix f "rum.vital." → req.signal = .events
  attr : hasPrefix f "@" → req.signal ≠ .checks

mutual

def TermFits : Term ν → Prop
  | .not t => TermFits t
  | .op _ ts => TermsFit ts
  | .text _ => True
  | .facet f _ _ => FacetFits req f

def TermsFit : List (Term ν) → Prop
  | [] => True
  | t :: ts => TermFits t ∧ TermsFit ts

end

theorem equals_reads {e : Expr} {v : Bytes} {b d : Builder} {c : Condition} (h : equals e v b = .ok (c, d)) :
    Reads req (conditionExpr c) ↔ Reads req e := by
  obtain ⟨p, d', hp, h⟩ := bind_ok.mp h
  obtain ⟨rfl, -⟩ := Prod.mk.inj (pure_ok.mp h)
  obtain ⟨rfl, -⟩ := Prod.mk.inj (Except.ok.inj hp)
  simp [conditionExpr_atom]

theorem compares_reads {e : Expr} {cmp : Cmp} {v : Bytes} {b d : Builder} {c : Condition}
    (h : compares e cmp v b = .ok (c, d)) : Reads req (conditionExpr c) ↔ Reads req e := by
  obtain ⟨p, d', hp, h⟩ := bind_ok.mp h
  obtain ⟨rfl, -⟩ := Prod.mk.inj (pure_ok.mp h)
  obtain ⟨rfl, -⟩ := Prod.mk.inj (Except.ok.inj hp)
  simp [conditionExpr_atom]

theorem vitalTerm_reads {vital v : Bytes} {cmp : Cmp} {b d : Builder} {c : Condition} (h : vitalTerm vital cmp v b = .ok (c, d)) :
    Reads req (conditionExpr c) ↔ req.signal = .events := by
  have hevents : req.signal = .events → ∀ c ∈ ["name", "dims", "value"], c ∈ known req := fun hs c hc =>
    (known_of_signal req).2.2.2.2 hs c (by simp at hc ⊢; tauto)
  obtain ⟨p, d', hp, h⟩ := bind_ok.mp h
  obtain ⟨rfl, -⟩ := Prod.mk.inj (Except.ok.inj hp)
  split_ifs at h
  · obtain ⟨rfl, -⟩ := Prod.mk.inj (pure_ok.mp h)
    rw [← known_name]
    constructor
    · intro hr
      exact hr "name" (by simp [conditionExpr, tokenExpr])
    · intro hn
      have := hevents ((known_name req).mp hn)
      simp [conditionExpr, tokenExpr, hn, this]
  · obtain ⟨c', d'', hc, h⟩ := bind_ok.mp h
    obtain ⟨rfl, -⟩ := Prod.mk.inj (pure_ok.mp h)
    have hval := compares_reads req hc
    rw [← known_name]
    constructor
    · intro hr
      exact hr "name" (by simp [conditionExpr, tokenExpr])
    · intro hn
      have hall := hevents ((known_name req).mp hn)
      have hv : Reads req (conditionExpr c') := hval.mpr (by simp [hall])
      simp [conditionExpr, tokenExpr, hn, hall] at hv ⊢
      exact hv

theorem facetTerm_reads {f : Bytes} {cmp : Cmp} {v : Value ν} {b d : Builder} {c : Condition}
    (h : facetTerm lib req f cmp v b = .ok (c, d)) : Reads req (conditionExpr c) ↔ FacetFits req f := by
  have hname (n p : String) (hnp : hasPrefix (bytes n) p = false) (hf : f = bytes n) : ¬hasPrefix f p = true := by
    rw [hf, hnp]
    decide
  unfold facetTerm at h
  by_cases hm : f = bytes "metric"
  · rw [if_pos hm] at h
    rw [equals_reads req h, reads_column, and_iff_left (reads_nil req), known_metricName]
    exact ⟨fun hs => ⟨fun _ => hs, fun hf => absurd (hm.symm.trans hf) (by decide), fun hf => absurd hf (hname _ _ (by decide) hm),
      fun hf => absurd hf (hname _ _ (by decide) hm)⟩, fun hf => hf.metric hm⟩
  rw [if_neg hm] at h
  by_cases hon : f = bytes "on"
  · rw [if_pos hon] at h
    obtain ⟨rfl, -⟩ := Prod.mk.inj (pure_ok.mp h)
    refine ⟨fun _ => ⟨fun hf => absurd hf hm, fun hf => absurd (hon.symm.trans hf) (by decide),
      fun hf => absurd hf (hname _ _ (by decide) hon), fun hf => absurd hf (hname _ _ (by decide) hon)⟩, fun _ => ?_⟩
    simp [conditionExpr, tokenExpr]
  rw [if_neg hon] at h
  by_cases hcheck : f = bytes "check"
  · rw [if_pos hcheck] at h
    cases hid : req.monitors (valueText lib v) with
    | none =>
      rw [hid] at h
      exact absurd h invalid_ok
    | some id =>
      rw [hid] at h
      rw [equals_reads req h, reads_column, and_iff_left (reads_nil req), known_monitorId]
      exact ⟨fun hs => ⟨fun hf => absurd hf hm, fun _ => hs, fun hf => absurd hf (hname _ _ (by decide) hcheck),
        fun hf => absurd hf (hname _ _ (by decide) hcheck)⟩, fun hf => hf.check hcheck⟩
  rw [if_neg hcheck] at h
  cases hvital : hasPrefix f "rum.vital." with
  | true =>
    rw [hvital, if_pos rfl] at h
    rw [vitalTerm_reads req h]
    refine ⟨fun hs => ⟨fun hf => absurd hf hm, fun hf => absurd hf hcheck, fun _ => hs, fun _ => ?_⟩, fun hf => hf.vital hvital⟩
    rw [hs]
    decide
  | false =>
    rw [hvital, if_neg (by decide)] at h
    have hfits : FacetFits req f ↔ (hasPrefix f "@" → req.signal ≠ .checks) :=
      ⟨fun hf => hf.attr, fun hf => ⟨fun he => absurd he hm, fun he => absurd he hcheck, fun he => absurd he (by rw [hvital]; decide), hf⟩⟩
    obtain ⟨e, d', he, h⟩ := bind_ok.mp h
    rw [hfits, ← facet_reads req he]
    split_ifs at h with hnum hsp
    · rw [compares_reads req h, reads_numeric]
    · obtain ⟨rfl, -⟩ := Prod.mk.inj (pure_ok.mp h)
      rw [facet_reads req he]
      refine ⟨fun _ hf => absurd hf (hname _ _ (by decide) hsp.1), fun _ => ?_⟩
      simpa [conditionExpr_atom] using (known_of_signal req).1 hsp.2.1 "SeverityText" (by simp)
    · rw [equals_reads req h]
      simp

theorem text_reads {s : Bytes} {b d : Builder} {c : Condition} (h : text req s b = .ok (c, d)) : Reads req (conditionExpr c) := by
  have hin {column : String} (hk : column ∈ known req) (h : textIn column s b = .ok (c, d)) : Reads req (conditionExpr c) := by
    obtain ⟨p, d', hp, h⟩ := bind_ok.mp h
    obtain ⟨rfl, -⟩ := Prod.mk.inj (pure_ok.mp h)
    obtain ⟨rfl, -⟩ := Prod.mk.inj (Except.ok.inj hp)
    simpa [conditionExpr_atom] using hk
  have hk := known_of_signal req
  unfold text at h
  revert h
  cases hs : req.signal with
  | logs => exact hin (hk.1 hs _ (by simp))
  | traces => exact hin (hk.2.1 hs _ (by simp))
  | metrics => exact hin (hk.2.2.1 hs _ (by simp))
  | events => exact hin (hk.2.2.2.2 hs _ (by simp))
  | checks | other _ => exact fun h => absurd h invalid_ok

theorem reads_parens (c : Condition) : Reads req (conditionExpr (parens c)) ↔ Reads req (conditionExpr c) := by
  simp [parens, conditionExpr, tokenExpr]

theorem reads_join (conj : Bool) (cs : List Condition) :
    Reads req (conditionExpr (join conj cs)) ↔ ∀ c ∈ cs, Reads req (conditionExpr c) := by
  induction cs with
  | nil => simp [join, conditionExpr]
  | cons c cs ih =>
    cases cs with
    | nil => simp [join]
    | cons d cs =>
      have hop : Reads req (conditionExpr ((if conj then .and else .or) :: join conj (d :: cs))) ↔
          Reads req (conditionExpr (join conj (d :: cs))) := by
        cases conj <;> simp [conditionExpr, tokenExpr]
      rw [join, conditionExpr_append, reads_append, hop, ih, List.forall_mem_cons (l := d :: cs)]

mutual

theorem term_reads : ∀ (t : Term ν) {b d : Builder} {c : Condition}, QueryCompiler.term lib req t b = .ok (c, d) →
    (Reads req (conditionExpr c) ↔ TermFits req t)
  | .not t, b, d, c, h => by
    rw [QueryCompiler.term] at h
    obtain ⟨c', d', hc, h⟩ := bind_ok.mp h
    obtain ⟨rfl, -⟩ := Prod.mk.inj (pure_ok.mp h)
    rw [TermFits, ← term_reads t hc, ← reads_parens req c']
    simp [conditionExpr, tokenExpr]
  | .op op ts, b, d, c, h => by
    rw [QueryCompiler.term] at h
    obtain ⟨cs, d', hcs, h⟩ := bind_ok.mp h
    obtain ⟨rfl, -⟩ := Prod.mk.inj (pure_ok.mp h)
    rw [TermFits, reads_join, terms_read ts hcs]
  | .text s, b, d, c, h => by
    rw [QueryCompiler.term] at h
    simpa only [TermFits, iff_true] using text_reads req h
  | .facet f cmp v, b, d, c, h => by
    rw [QueryCompiler.term] at h
    rw [TermFits, facetTerm_reads lib req h]

theorem terms_read : ∀ (ts : List (Term ν)) {b d : Builder} {cs : List Condition}, terms lib req ts b = .ok (cs, d) →
    ((∀ c ∈ cs, Reads req (conditionExpr c)) ↔ TermsFit req ts)
  | [], b, d, cs, h => by
    rw [terms] at h
    obtain ⟨rfl, -⟩ := Prod.mk.inj (pure_ok.mp h)
    simp [TermsFit]
  | t :: ts, b, d, cs, h => by
    rw [terms] at h
    obtain ⟨c, d', hc, h⟩ := bind_ok.mp h
    obtain ⟨cs', d'', hcs, h⟩ := bind_ok.mp h
    obtain ⟨rfl, -⟩ := Prod.mk.inj (pure_ok.mp h)
    rw [List.forall_mem_cons, reads_parens, term_reads t hc, terms_read ts hcs, TermsFit]

end

theorem conditions_read {ts : List (Term ν)} {b d : Builder} {cs : List Condition} (h : conditions lib req ts b = .ok (cs, d)) :
    (∀ c ∈ cs, Reads req (conditionExpr c)) ↔ TermsFit req ts := by
  induction ts generalizing b cs with
  | nil =>
    obtain ⟨rfl, -⟩ := Prod.mk.inj (pure_ok.mp h)
    simp [TermsFit]
  | cons t ts ih =>
    obtain ⟨c, d', hc, h⟩ := bind_ok.mp h
    obtain ⟨cs', d'', hcs, h⟩ := bind_ok.mp h
    obtain ⟨rfl, rfl⟩ := Prod.mk.inj (pure_ok.mp h)
    rw [TermsFit, ← term_reads lib req t hc, ← ih hcs]
    split_ifs with hone
    · have hr : Reads req (conditionExpr c) := by
        rw [hone]
        simp [conditionExpr, tokenExpr]
      exact (and_iff_right hr).symm
    · rw [List.forall_mem_cons, reads_parens]

theorem where_reads {c : Condition} {b : Builder} (h : where_ lib req (source req).2 {} = .ok (c, b)) :
    Reads req (conditionExpr c) ↔ TermsFit req req.ast.filters := by
  obtain ⟨cs, hcs, rfl⟩ := (where_ok lib req).mp h
  obtain ⟨horg, hts⟩ := known_base req
  have hbase : ∀ e ∈ base req (source req).2, Reads req e := by
    unfold base
    intro e he
    rcases List.mem_append.mp he with he | he
    · simp only [List.mem_cons, List.not_mem_nil, or_false] at he
      rcases he with rfl | rfl | rfl
      · simpa [inOrg] using horg
      · simpa [notBefore] using hts
      · simpa [before] using hts
    · split_ifs at he with hs
      · obtain rfl := List.mem_singleton.mp he
        simpa [notOurs] using (known_of_signal req).1 hs "ServiceName" (by simp)
      · simp at he
  rw [reads_join, List.forall_mem_append, conditions_read lib req hcs, and_iff_right]
  intro c hc
  obtain ⟨e, he, rfl⟩ := List.mem_map.mp hc
  rw [conditionExpr_atom]
  exact hbase e he

/-! ## Columns of groups and aggregates -/

theorem groupExpr_reads {g : Bytes} {b d : Builder} {e : Expr} (h : groupExpr req g b = .ok (e, d)) :
    Reads req e ↔ (hasPrefix g "@" → req.signal ≠ .checks) := by
  unfold groupExpr at h
  cases hf : facet req g b with
  | ok r =>
    rw [hf] at h
    exact facet_reads req (hf.trans h)
  | error m =>
    rw [hf] at h
    have hk := known_of_signal req
    have hin {column : String} {key : Bytes} (hs : req.signal ≠ .checks) (hc : column ∈ known req) (h : lookup column key b = .ok (e, d)) :
        Reads req e ↔ (hasPrefix g "@" → req.signal ≠ .checks) := by
      obtain rfl := lookup_ok h
      simp [hc, hs]
    revert h
    cases hs : req.signal with
    | metrics => exact fun h => by simpa [hs] using hin (by simp [hs]) (hk.2.2.1 hs _ (by simp)) h
    | logs | traces =>
      exact fun h => by simpa [hs] using hin (by simp [hs]) ((known_attrMap req).mpr (by simp [hs])) h
    | events => exact fun h => by simpa [hs] using hin (by simp [hs]) (hk.2.2.2.2 hs "dims" (by simp)) h
    | checks | other _ => exact fun h => absurd h (by simp)

theorem groupColumns_read {gs : List Bytes} : ∀ {i : ℕ} {b d : Builder} {es : List Expr}, groupColumns req i gs b = .ok (es, d) →
    ((∀ e ∈ es, Reads req e) ↔ ∀ g ∈ gs, hasPrefix g "@" → req.signal ≠ .checks) := by
  induction gs with
  | nil =>
    intro i b d es h
    obtain ⟨rfl, -⟩ := Prod.mk.inj (pure_ok.mp h)
    simp
  | cons g gs ih =>
    intro i b d es h
    obtain ⟨e, d', he, h⟩ := bind_ok.mp h
    obtain ⟨es', d'', hes, h⟩ := bind_ok.mp h
    obtain ⟨rfl, -⟩ := Prod.mk.inj (pure_ok.mp h)
    rw [List.forall_mem_cons, List.forall_mem_cons, ih hes, ← groupExpr_reads req he]
    simp

/-- A field in the attributes of checks is read by the aggregations that look at their field. -/
def AggFits (a : Agg) : Prop := hasPrefix a.field "@" → req.signal = .checks → a.fn = bytes "count" ∨ a.fn = bytes "rate"

theorem metricAgg_reads {a : Agg} {b d : Builder} {e : Expr} (hs : req.signal = .metrics) (h : metricAgg req a b = .ok (e, d)) :
    Reads req e := by
  have hattr : "Attributes" ∈ known req := (known_of_signal req).2.2.1 hs _ (by simp)
  obtain ⟨ast, signal, orgId, from_, to_, step, tier, monitors, histogram, limit⟩ := req
  obtain rfl : signal = .metrics := hs
  unfold metricAgg at h
  by_cases h1 : a.fn = bytes "rate"
  · rw [if_pos h1] at h
    exact absurd h invalid_ok
  rw [if_neg h1] at h
  by_cases h2 : a.fn = bytes "uniq"
  · rw [if_pos h2] at h
    obtain ⟨rfl, -⟩ := Prod.mk.inj (pure_ok.mp h)
    simpa [toFloat, call] using hattr
  rw [if_neg h2] at h
  cases histogram with
  | true =>
    obtain ⟨rfl, -⟩ := Prod.mk.inj (pure_ok.mp h)
    split_ifs <;> simp [toFloat, call, average, quantile, known, source, sourceColumns, tableColumns]
  | false =>
    cases tier with
    | raw =>
      obtain ⟨rfl, -⟩ := Prod.mk.inj (pure_ok.mp h)
      split_ifs <;> simp [toFloat, call, quantile, known, source, sourceColumns]
    | minute | hour =>
      obtain ⟨rfl, -⟩ := Prod.mk.inj (pure_ok.mp h)
      split_ifs <;> simp [toFloat, call, average, known, source, sourceColumns, tableColumns, rollupColumns]

theorem aggOf_reads {a : Agg} {b d : Builder} {e : Expr} (h : aggOf req a b = .ok (e, d)) :
    Reads req e ↔ (hasPrefix a.field "@" → req.signal ≠ .checks) := by
  unfold aggOf at h
  split_ifs at h with hne hv hc
  · obtain ⟨rfl, -⟩ := Prod.mk.inj (pure_ok.mp h)
    have := (known_of_signal req).2.2.2.2 hv.2 "visitor_hash" (by simp)
    simp [this, hv.2]
  · exact facet_reads req h
  · obtain ⟨rfl, -⟩ := Prod.mk.inj (pure_ok.mp h)
    have hnil : a.field = [] := not_not.mp hne
    have hat : hasPrefix [] "@" = false := by decide
    have := (known_of_signal req).2.2.2.1 hc "total_ms" (by simp)
    simp [this, hnil, hat]
  · obtain ⟨rfl, -⟩ := Prod.mk.inj (pure_ok.mp h)
    simp [hc]

theorem aggExpr_reads {a : Agg} {b d : Builder} {e : Expr} (h : aggExpr lib req a b = .ok (e, d)) :
    Reads req e ↔ AggFits req a := by
  unfold aggExpr at h
  by_cases hs : req.signal = .metrics
  · rw [if_pos hs] at h
    exact ⟨fun _ _ hc => absurd (hs.symm.trans hc) (by simp), fun _ => metricAgg_reads req hs h⟩
  rw [if_neg hs] at h
  obtain ⟨e', d', he, h⟩ := bind_ok.mp h
  have hof := aggOf_reads req he
  have hfits : (¬a.fn = bytes "count") → (¬a.fn = bytes "rate") → (AggFits req a ↔ Reads req e') := by
    intro h1 h2
    rw [hof, AggFits]
    simp only [h1, h2, or_self]
  split_ifs at h with h1 h2 h3 h4 h5 h6
  · obtain ⟨rfl, -⟩ := Prod.mk.inj (pure_ok.mp h)
    exact ⟨fun _ _ _ => Or.inl h1, fun _ => by simp [toFloat]⟩
  · obtain ⟨rfl, -⟩ := Prod.mk.inj (pure_ok.mp h)
    have := (known_of_signal req).2.2.2.1 h3 "ok" (by simp)
    exact ⟨fun _ _ _ => Or.inr h2, fun _ => by simp [call, this]⟩
  · obtain ⟨rfl, -⟩ := Prod.mk.inj (pure_ok.mp h)
    exact ⟨fun _ _ _ => Or.inr h2, fun _ => by simp⟩
  · obtain ⟨rfl, -⟩ := Prod.mk.inj (pure_ok.mp h)
    rw [hfits h1 h2]
    simp [toFloat, call]
  · obtain ⟨rfl, -⟩ := Prod.mk.inj (pure_ok.mp h)
    rw [hfits h1 h2]
    simp [call]
  · obtain ⟨rfl, -⟩ := Prod.mk.inj (pure_ok.mp h)
    rw [hfits h1 h2]
    simp [quantile, call]
  · exact absurd h invalid_ok

theorem aggColumns_read {as : List Agg} : ∀ {i : ℕ} {b d : Builder} {es : List Expr}, aggColumns lib req i as b = .ok (es, d) →
    ((∀ e ∈ es, Reads req e) ↔ ∀ a ∈ as, AggFits req a) := by
  induction as with
  | nil =>
    intro i b d es h
    obtain ⟨rfl, -⟩ := Prod.mk.inj (pure_ok.mp h)
    simp
  | cons a as ih =>
    intro i b d es h
    obtain ⟨e, d', he, h⟩ := bind_ok.mp h
    obtain ⟨es', d'', hes, h⟩ := bind_ok.mp h
    obtain ⟨rfl, -⟩ := Prod.mk.inj (pure_ok.mp h)
    rw [List.forall_mem_cons, List.forall_mem_cons, ih hes, ← aggExpr_reads lib req he]
    simp

end

/-! ## Arguments of aggregates -/

def startsClosing : Expr → Bool
  | .text t :: _ => t.head? = some rparen
  | _ => false

@[grind] def endsOpening (e : Expr) : Bool :=
  match e.getLast? with
  | some (.text s) => s.getLast? = some lparen
  | _ => false

/-- What may stand between parens: it is not empty and has no empty parens, also not with what stands around it. -/
def Argument (e : Expr) : Prop := e ≠ [] ∧ emptyArgument e = false ∧ startsClosing e = false ∧ endsOpening e = false

instance (e : Expr) : Decidable (Argument e) := inferInstanceAs (Decidable (_ ∧ _ ∧ _ ∧ _))

theorem emptyArgument_cons (p : Piece) (e : Expr) : emptyArgument (p :: e) =
    ((endsOpening [p] && startsClosing e) || emptyArgument e) := by
  cases p with
  | column _ | param _ _ => cases e <;> simp [emptyArgument, endsOpening]
  | text s =>
    cases e with
    | nil => simp [emptyArgument, startsClosing]
    | cons q e => cases q <;> simp [emptyArgument, endsOpening, startsClosing]

theorem endsOpening_cons (p q : Piece) (e : Expr) : endsOpening (p :: q :: e) = endsOpening (q :: e) := by
  simp [endsOpening, List.getLast?_cons_cons]

theorem emptyArgument_append {d e : Expr} (hd : d ≠ []) :
    emptyArgument (d ++ e) = (emptyArgument d || (endsOpening d && startsClosing e) || emptyArgument e) := by
  induction d with
  | nil => exact absurd rfl hd
  | cons p d ih =>
    cases d with
    | nil => simp [emptyArgument_cons p, emptyArgument, startsClosing]
    | cons q d =>
      rw [List.cons_append, emptyArgument_cons, emptyArgument_cons, ih (by simp), endsOpening_cons]
      have : startsClosing (q :: d ++ e) = startsClosing (q :: d) := by
        cases q <;> rfl
      rw [this]
      cases endsOpening [p] && startsClosing (q :: d) <;> simp

theorem endsOpening_append {d e : Expr} (he : e ≠ []) : endsOpening (d ++ e) = endsOpening e := by
  rw [endsOpening, endsOpening, List.getLast?_append_of_ne_nil _ he]

theorem Argument.between {e : Expr} (h : Argument e) (s t : Bytes) : emptyArgument ([.text s] ++ e ++ [.text t]) = false := by
  obtain ⟨h1, h2, h3, h4⟩ := h
  rw [emptyArgument_append (by simp), emptyArgument_append (by simp), endsOpening_append h1, h2, h3, h4]
  simp [emptyArgument]

theorem Argument.parens {e : Expr} (h : Argument e) {s t : Bytes} (hs : s.head? ≠ some rparen) (ht : t.getLast? ≠ some lparen) :
    Argument ([.text s] ++ e ++ [.text t]) := by
  refine ⟨by simp, h.between s t, ?_, ?_⟩
  · simpa [startsClosing] using hs
  · rw [endsOpening_append (by simp)]
    simpa [endsOpening] using ht

section
variable {ν : Type} (lib : Formats ν) (req : Request ν)

theorem facetColumns_argument : ∀ c ∈ facetColumns req, Argument c.2.2 := by
  unfold facetColumns resource
  split_ifs <;> decide +kernel

theorem facet_argument {f : Bytes} {b d : Builder} {e : Expr} (h : facet req f b = .ok (e, d)) : Argument e := by
  rw [facet_eq] at h
  cases hp : place req f with
  | inMap m key =>
    rw [hp] at h
    obtain rfl := lookup_ok h
    exact ⟨by simp, rfl, rfl, rfl⟩
  | nowhere =>
    rw [hp] at h
    cases h
  | here e' =>
    rw [hp] at h
    obtain ⟨rfl, -⟩ := Prod.mk.inj (pure_ok.mp h)
    unfold place at hp
    cases hc : facetColumn req f with
    | some d' =>
      rw [hc] at hp
      split_ifs at hp
      all_goals
        obtain rfl := Place.here.inj hp
        obtain ⟨c, hmem, -, -, rfl⟩ := facetColumn_mem req hc
        exact facetColumns_argument req c hmem
    | none =>
      rw [hc, Option.elim_none] at hp
      split_ifs at hp
      obtain rfl := Place.here.inj hp
      decide

theorem numeric_argument {e : Expr} (h : Argument e) : Argument (numeric e) := by
  unfold numeric
  split_ifs
  · exact h
  · exact h.parens (by decide) (by decide)

theorem groupExpr_argument {g : Bytes} {b d : Builder} {e : Expr} (h : groupExpr req g b = .ok (e, d)) : Argument e := by
  unfold groupExpr at h
  cases hf : facet req g b with
  | ok r =>
    rw [hf] at h
    exact facet_argument req (hf.trans h)
  | error m =>
    rw [hf] at h
    have hin {column : String} {key : Bytes} (h : lookup column key b = .ok (e, d)) : Argument e := by
      obtain rfl := lookup_ok h
      exact ⟨by simp, rfl, rfl, rfl⟩
    revert h
    cases req.signal with
    | metrics | logs | traces | events => exact hin
    | checks | other _ => exact fun h => absurd h (by simp)

theorem groupColumns_arguments {gs : List Bytes} : ∀ {i : ℕ} {b d : Builder} {es : List Expr},
    groupColumns req i gs b = .ok (es, d) → ∀ e ∈ es, emptyArgument e = false := by
  induction gs with
  | nil =>
    intro i b d es h
    obtain ⟨rfl, -⟩ := Prod.mk.inj (pure_ok.mp h)
    simp
  | cons g gs ih =>
    intro i b d es h
    obtain ⟨e, d', he, h⟩ := bind_ok.mp h
    obtain ⟨es', d'', hes, h⟩ := bind_ok.mp h
    obtain ⟨rfl, -⟩ := Prod.mk.inj (pure_ok.mp h)
    exact List.forall_mem_cons.mpr ⟨(groupExpr_argument req he).between _ _, ih hes⟩

theorem emptyArgument_named {e : Expr} (hne : e ≠ []) (h : emptyArgument e = false) (s : Bytes) :
    emptyArgument (e ++ [.text (bytes " AS a" ++ s)]) = false := by
  rw [emptyArgument_append hne, h]
  have : startsClosing [.text (bytes " AS a" ++ s)] = false := rfl
  rw [this]
  simp [emptyArgument]

/-- An aggregation that looks at its field has one. -/
def HasArgument (a : Agg) : Prop :=
  req.signal = .metrics ∨ req.signal = .checks ∨ a.fn = bytes "count" ∨ a.fn = bytes "rate" ∨ a.field ≠ []

theorem metricAgg_argument {a : Agg} {b d : Builder} {e : Expr} (h : metricAgg req a b = .ok (e, d)) :
    e ≠ [] ∧ emptyArgument e = false := by
  have hcall (fn : Bytes) (column : String) : call fn [.column column] ≠ [] ∧ emptyArgument (call fn [.column column]) = false :=
    ⟨by simp [call], Argument.between (e := [.column column]) ⟨by simp, rfl, rfl, rfl⟩ _ _⟩
  unfold metricAgg at h
  by_cases h1 : a.fn = bytes "rate"
  · rw [if_pos h1] at h
    exact absurd h invalid_ok
  rw [if_neg h1] at h
  by_cases h2 : a.fn = bytes "uniq"
  · rw [if_pos h2] at h
    obtain ⟨rfl, -⟩ := Prod.mk.inj (pure_ok.mp h)
    decide
  rw [if_neg h2] at h
  by_cases h3 : req.histogram
  · rw [if_pos h3] at h
    obtain ⟨rfl, -⟩ := Prod.mk.inj (pure_ok.mp h)
    split_ifs
    · decide
    · exact hcall _ _
    · decide
    · exact hcall _ _
    · exact hcall _ _
    · exact ⟨by simp [quantile, call], Argument.between (e := [lit "b.1, b.2"]) (by decide) _ _⟩
  rw [if_neg h3] at h
  by_cases h4 : req.tier = .raw
  · rw [if_pos h4] at h
    obtain ⟨rfl, -⟩ := Prod.mk.inj (pure_ok.mp h)
    split_ifs
    · decide
    · exact hcall _ _
    · exact hcall _ _
  rw [if_neg h4] at h
  obtain ⟨rfl, -⟩ := Prod.mk.inj (pure_ok.mp h)
  split_ifs
  · decide
  · exact hcall _ _
  · decide
  · exact hcall _ _
  · exact hcall _ _
  · exact ⟨by simp, Argument.between (e := [.column "quantiles"]) (by decide) _ _⟩

theorem aggExpr_argument {a : Agg} {b d : Builder} {e : Expr} (ha : HasArgument req a) (h : aggExpr lib req a b = .ok (e, d)) :
    e ≠ [] ∧ emptyArgument e = false := by
  unfold aggExpr at h
  by_cases hs : req.signal = .metrics
  · rw [if_pos hs] at h
    exact metricAgg_argument req h
  rw [if_neg hs] at h
  obtain ⟨e', d', he, h⟩ := bind_ok.mp h
  have hof (h1 : a.fn ≠ bytes "count") (h2 : a.fn ≠ bytes "rate") : Argument e' := by
    unfold aggOf at he
    split_ifs at he with hne hv hc
    · obtain ⟨rfl, -⟩ := Prod.mk.inj (pure_ok.mp he)
      decide
    · exact facet_argument req he
    · obtain ⟨rfl, -⟩ := Prod.mk.inj (pure_ok.mp he)
      decide
    · exact absurd ha (by simp [HasArgument, hs, hc, h1, h2, not_not.mp hne])
  split_ifs at h with h1 h2 h3 h4 h5 h6
  · obtain ⟨rfl, -⟩ := Prod.mk.inj (pure_ok.mp h)
    decide
  · obtain ⟨rfl, -⟩ := Prod.mk.inj (pure_ok.mp h)
    decide
  · obtain ⟨rfl, -⟩ := Prod.mk.inj (pure_ok.mp h)
    refine ⟨by simp, ?_⟩
    rw [emptyArgument_cons]
    have : endsOpening [lit "count() / "] = false := by decide
    rw [this]
    simp [emptyArgument]
  · obtain ⟨rfl, -⟩ := Prod.mk.inj (pure_ok.mp h)
    exact ⟨by simp [toFloat], ((hof h1 h2).parens (by decide) (by decide)).between _ _⟩
  · obtain ⟨rfl, -⟩ := Prod.mk.inj (pure_ok.mp h)
    exact ⟨by simp [call], (numeric_argument (hof h1 h2)).between _ _⟩
  · obtain ⟨rfl, -⟩ := Prod.mk.inj (pure_ok.mp h)
    exact ⟨by simp [quantile, call], (numeric_argument (hof h1 h2)).between _ _⟩
  · exact absurd h invalid_ok

theorem aggColumns_arguments {as : List Agg} : ∀ {i : ℕ} {b d : Builder} {es : List Expr}, (∀ a ∈ as, HasArgument req a) →
    aggColumns lib req i as b = .ok (es, d) → ∀ e ∈ es, emptyArgument e = false := by
  induction as with
  | nil =>
    intro i b d es _ h
    obtain ⟨rfl, -⟩ := Prod.mk.inj (pure_ok.mp h)
    simp
  | cons a as ih =>
    intro i b d es ha h
    obtain ⟨e, d', he, h⟩ := bind_ok.mp h
    obtain ⟨es', d'', hes, h⟩ := bind_ok.mp h
    obtain ⟨rfl, -⟩ := Prod.mk.inj (pure_ok.mp h)
    obtain ⟨ha, has⟩ := List.forall_mem_cons.mp ha
    obtain ⟨hne, hempty⟩ := aggExpr_argument lib req ha he
    exact List.forall_mem_cons.mpr ⟨emptyArgument_named hne hempty _, ih has hes⟩

/-! ## What validation leaves -/

mutual

theorem uses_metric : ∀ t : Term ν, t.uses (bytes "metric") = true → TermFits req t → req.signal = .metrics
  | .not t, hu, hf => uses_metric t hu hf
  | .op _ ts, hu, hf => anyUses_metric ts hu hf
  | .text _, hu, _ => by simp [Term.uses] at hu
  | .facet f _ _, hu, hf => by
    have h1 : bytes "metric" ≠ bytes "trace." := by decide
    have h2 : bytes "metric" ≠ bytes "rum." := by decide
    simp only [Term.uses, h1, h2, false_and, or_false, decide_eq_true_eq] at hu
    exact FacetFits.metric hf hu

theorem anyUses_metric : ∀ ts : List (Term ν), anyUses (bytes "metric") ts = true → TermsFit req ts → req.signal = .metrics
  | [], hu, _ => by simp [anyUses] at hu
  | t :: ts, hu, hf => by
    rw [anyUses, Bool.or_eq_true] at hu
    exact hu.elim (fun h => uses_metric t h hf.1) fun h => anyUses_metric ts h hf.2

end

/-- `metric` is no field on any signal. -/
theorem place_metric : place req (bytes "metric") = .nowhere := by
  have hc : facetColumn req (bytes "metric") = none := by
    cases hc : facetColumn req (bytes "metric") with
    | none => rfl
    | some e =>
      obtain ⟨c, hmem, he, -⟩ := facetColumn_mem req hc
      have hall : ∀ c ∈ facetColumns req, bytes c.1 ≠ bytes "metric" := by
        simp only [facetColumns, List.forall_mem_cons]
        decide
      exact absurd he (hall c hmem)
  have h1 : hasPrefix (bytes "metric") "@" = false := by decide
  have h2 : hasPrefix (bytes "metric") "metric." = false := by decide
  have h3 : hasPrefix (bytes "metric") "rum.vital." = false := by decide
  have h4 : hasPrefix (bytes "metric") "trace." = false := by decide
  simp [place, h1, h2, h3, h4, hc]

theorem aggColumns_ok {as : List Agg} : ∀ {i : ℕ} {b d : Builder} {es : List Expr}, aggColumns lib req i as b = .ok (es, d) →
    ∀ a ∈ as, ∃ b' r, aggExpr lib req a b' = .ok r := by
  induction as with
  | nil => simp
  | cons a as ih =>
    intro i b d es h
    obtain ⟨e, d', he, h⟩ := bind_ok.mp h
    obtain ⟨es', d'', hes, -⟩ := bind_ok.mp h
    exact List.forall_mem_cons.mpr ⟨⟨b, _, he⟩, ih hes⟩

theorem refuse_none {q : Bytes} {a : Agg} (h : refuse false q a = none) (hnil : a.field = []) :
    a.fn ∉ ["sum", "avg", "min", "max", "p50", "p95", "p99"].map bytes ∧ a.fn ≠ bytes "uniq" := by
  unfold refuse at h
  rw [hnil] at h
  by_cases h1 : a.fn ∈ ["sum", "avg", "min", "max", "p50", "p95", "p99"].map bytes
  · rw [if_pos h1, if_pos ⟨rfl, by decide⟩] at h
    cases h
  rw [if_neg h1] at h
  by_cases h2 : a.fn = bytes "uniq"
  · rw [if_pos h2, if_pos rfl] at h
    cases h
  exact ⟨h1, h2⟩

/-- A query about no metric, on another signal than metrics, has a field where one is needed. -/
theorem validate_hasArgument {q : Bytes} (hv : validate req.ast q = none) (hf : TermsFit req req.ast.filters) {i : ℕ}
    {b d : Builder} {es : List Expr} (h : aggColumns lib req i req.ast.agg b = .ok (es, d)) :
    ∀ a ∈ req.ast.agg, HasArgument req a := by
  intro a ha
  by_contra hno
  simp only [HasArgument, not_or, not_not] at hno
  obtain ⟨hs, -, hcount, hrate, hnil⟩ := hno
  have hmetric : hasFacet req.ast (bytes "metric") = false := by
    rw [← Bool.not_eq_true]
    intro hfacet
    have hdot : (bytes ".").isSuffixOf (bytes "metric") = false := by decide
    simp only [hasFacet, hdot, Bool.false_eq_true, and_false, or_false, decide_false, Bool.or_eq_true, List.any_eq_true,
      decide_eq_true_eq, exists_false] at hfacet
    rcases hfacet with hterm | ⟨a', ha', hfield⟩
    · exact hs (anyUses_metric req _ hterm hf)
    · obtain ⟨b', r, hr⟩ := aggColumns_ok lib req h a' ha'
      rw [aggExpr, if_neg hs] at hr
      obtain ⟨e, d', he, -⟩ := bind_ok.mp hr
      have hne : a'.field ≠ [] := by rw [hfield]; decide
      have hvisitor : a'.field ≠ bytes "visitor" := by rw [hfield]; decide
      rw [aggOf, if_pos hne, if_neg (fun h => hvisitor h.1), facet_eq, hfield, place_metric] at he
      cases he
  have hrefuse : refuse false q a = none := by
    rw [← hmetric]
    exact List.findSome?_eq_none_iff.mp hv a ha
  obtain ⟨b', r, hr⟩ := aggColumns_ok lib req h a ha
  rw [aggExpr, if_neg hs] at hr
  obtain ⟨e, d', -, hr⟩ := bind_ok.mp hr
  rw [if_neg hcount, if_neg hrate] at hr
  obtain ⟨hfns, huniq⟩ := refuse_none hrefuse hnil
  split_ifs at hr with h1 h2 h3
  · exact huniq h1
  · exact hfns (by rcases h2 with h2 | h2 | h2 | h2 <;> rw [h2] <;> decide)
  · exact hfns (by rcases h3 with h3 | h3 | h3 <;> rw [h3] <;> decide)
  · exact invalid_ok hr

/-! ## Which queries are sound -/

theorem source_exists : sourceExists (source req).1 := by
  obtain ⟨ast, signal, orgId, from_, to_, step, tier, monitors, histogram, limit⟩ := req
  cases signal with
  | metrics =>
    cases tier <;> cases histogram <;> simp [source, sourceExists, tableColumns, metricColumns, exemplarColumns]
  | logs | traces | checks | events | other _ => simp [source, sourceExists, tableColumns]

/-- The terms, aggregations and groups of a series are of its signal. -/
structure SeriesFits : Prop where
  filters : TermsFit req req.ast.filters
  aggs : ∀ a ∈ req.ast.agg, AggFits req a
  groups : ∀ g ∈ req.ast.groupBy, hasPrefix g "@" → req.signal ≠ .checks

/-- All columns of a query are there if those of its parts are. -/
theorem select_reads {s : Select} (hs : s.source = (source req).1) :
    (∀ name ∈ columnsOf s.expr, name ∈ sourceColumns s.source) ↔
      (∀ e ∈ s.columns, Reads req e) ∧ Reads req s.arrayJoin ∧ Reads req (conditionExpr s.filter) ∧
        (∀ e ∈ s.groupBy, Reads req e) ∧ Reads req s.orderBy := by
  have hall (es : List Expr) : (∀ name ∈ es.flatMap columnsOf, name ∈ known req) ↔ ∀ e ∈ es, Reads req e := by
    simp only [List.mem_flatMap, Reads]
    exact ⟨fun h e he name hn => h name ⟨e, he, hn⟩, fun h name ⟨e, he, hn⟩ => h e he name hn⟩
  rw [columnsOf_select, hs, ← hall, ← hall]
  simp only [List.forall_mem_append, Reads, and_assoc]

theorem arrayJoin_reads : Reads req (if req.signal = .metrics ∧ req.histogram then
    [lit " ARRAY JOIN arrayZip(arrayPushBack(", .column "ExplicitBounds", lit ", ", .column "Max", lit "), ",
      .column "BucketCounts", lit ") AS b"] else []) := by
  obtain ⟨ast, signal, orgId, from_, to_, step, tier, monitors, histogram, limit⟩ := req
  split_ifs with h
  · obtain ⟨rfl, rfl⟩ : signal = .metrics ∧ histogram = true := h
    simp [known, source, sourceColumns, tableColumns]
  · simp

theorem seriesBuild_sound_iff {q : Bytes} (hv : validate req.ast q = none) {s : Select} {b : Builder}
    (h : seriesBuild lib req {} = .ok (s, b)) : Sound s ↔ SeriesFits req := by
  obtain ⟨c, d, hc, h⟩ := bind_ok.mp h
  obtain ⟨gs, d', hgs, h⟩ := bind_ok.mp h
  obtain ⟨as, d'', has, h⟩ := bind_ok.mp h
  obtain ⟨rfl, rfl⟩ := Prod.mk.inj (pure_ok.mp h)
  obtain ⟨-, hts⟩ := known_base req
  have hbucket (s : Bytes) : Reads req [lit "toStartOfInterval(", .column (source req).2, .text s] := by simpa using hts
  have hgroups (n : ℕ) : ∀ e ∈ [lit "t"] :: (List.range n).map fun i => [Piece.text (groupName i)], Reads req e := by simp
  constructor
  · intro hsound
    obtain ⟨hcols, -, hfilter, -, -⟩ := (select_reads req rfl).mp hsound.columns
    have hcols := (List.forall_mem_cons.mp hcols).2
    exact ⟨(where_reads lib req hc).mp hfilter,
      (aggColumns_read lib req has).mp fun e he => hcols e (List.mem_append_right _ he),
      (groupColumns_read req hgs).mp fun e he => hcols e (List.mem_append_left _ he)⟩
  · intro hfits
    refine ⟨source_exists req, (select_reads req rfl).mpr ⟨?_, arrayJoin_reads req, (where_reads lib req hc).mpr hfits.filters,
      hgroups _, by simp⟩, by simp, ?_⟩
    · refine List.forall_mem_cons.mpr ⟨hbucket _, fun e he => ?_⟩
      exact (List.mem_append.mp he).elim ((groupColumns_read req hgs).mpr hfits.groups e)
        ((aggColumns_read lib req has).mpr hfits.aggs e)
    · have harg := validate_hasArgument lib req hv hfits.filters has
      refine List.forall_mem_cons.mpr ⟨rfl, fun e he => ?_⟩
      exact (List.mem_append.mp he).elim (groupColumns_arguments req hgs e) (aggColumns_arguments lib req harg has e)

/-- The terms of a query for rows are of its signal, which is one that there is. -/
structure RowsFit : Prop where
  filters : TermsFit req req.ast.filters
  signal : ∀ name, req.signal ≠ .other name

theorem rowColumns_ok {b d : Builder} {es : List Expr} (h : rowColumns req b = .ok (es, d)) :
    (∀ e ∈ es, Reads req e) ∧ (∀ e ∈ es, emptyArgument e = false) ∧ (es ≠ [] ↔ ∀ name, req.signal ≠ .other name) := by
  obtain ⟨hlogs, htraces, hmetrics, hchecks, hevents⟩ := known_of_signal req
  have hin {es' : List Expr} {b d : Builder} (hp : (pure es' : Build (List Expr)) b = .ok (es, d))
      (hr : ∀ e ∈ es', Reads req e) (hempty : ∀ e ∈ es', emptyArgument e = false) (hne : es' ≠ []) (hs : ∀ name, req.signal ≠ .other name) :
      (∀ e ∈ es, Reads req e) ∧ (∀ e ∈ es, emptyArgument e = false) ∧ (es ≠ [] ↔ ∀ name, req.signal ≠ .other name) := by
    obtain ⟨rfl, -⟩ := Prod.mk.inj (pure_ok.mp hp)
    exact ⟨hr, hempty, iff_of_true hne hs⟩
  unfold rowColumns at h
  revert h
  cases hs : req.signal with
  | logs =>
    have hk := hlogs hs
    simp only [List.forall_mem_cons] at hk
    exact fun h => by simpa [hs] using hin h (by simp [hk]) (by simp [emptyArgument]) (by simp) (by simp [hs])
  | traces =>
    have hk := htraces hs
    simp only [List.forall_mem_cons] at hk
    exact fun h => by simpa [hs] using hin h (by simp [hk]) (by simp [emptyArgument]) (by simp) (by simp [hs])
  | checks =>
    have hk := hchecks hs
    simp only [List.forall_mem_cons] at hk
    exact fun h => by simpa [hs] using hin h (by simp [hk]) (by simp [emptyArgument]) (by simp) (by simp [hs])
  | events =>
    have hk := hevents hs
    simp only [List.forall_mem_cons] at hk
    exact fun h => by simpa [hs] using hin h (by simp [hk]) (by simp [emptyArgument]) (by simp) (by simp [hs])
  | metrics =>
    intro h
    by_cases hraw : req.tier ≠ .raw ∨ req.histogram
    · simp only [if_pos hraw] at h
      exact absurd h invalid_ok
    · simp only [if_neg hraw] at h
      have hk : "TimeUnix" ∈ known req ∧ "Value" ∈ known req := by
        obtain ⟨ast, signal, orgId, from_, to_, step, tier, monitors, histogram, limit⟩ := req
        obtain ⟨rfl, rfl⟩ : tier = .raw ∧ histogram = false := by simpa using hraw
        obtain rfl : signal = .metrics := hs
        simp [known, source, sourceColumns]
      have hk' := hmetrics hs
      simp only [List.forall_mem_cons] at hk'
      simpa [hs] using hin h (by simp [hk, hk']) (by simp [emptyArgument]) (by simp) (by simp [hs])
  | other name =>
    intro h
    obtain ⟨rfl, -⟩ := Prod.mk.inj (pure_ok.mp h)
    simp

theorem rowsBuild_sound_iff {s : Select} {b : Builder} (h : rowsBuild lib req {} = .ok (s, b)) : Sound s ↔ RowsFit req := by
  obtain ⟨c, d, hc, h⟩ := bind_ok.mp h
  obtain ⟨cols, d', hcols, h⟩ := bind_ok.mp h
  obtain ⟨rfl, rfl⟩ := Prod.mk.inj (pure_ok.mp h)
  obtain ⟨hr, hempty, hne⟩ := rowColumns_ok req hcols
  obtain ⟨-, hts⟩ := known_base req
  constructor
  · intro hsound
    obtain ⟨-, -, hfilter, -, -⟩ := (select_reads req rfl).mp hsound.columns
    exact ⟨(where_reads lib req hc).mp hfilter, hne.mp hsound.selects⟩
  · intro hfits
    refine ⟨source_exists req, (select_reads req rfl).mpr ⟨hr, by simp, (where_reads lib req hc).mpr hfits.filters, by simp, ?_⟩,
      hne.mpr hfits.signal, hempty⟩
    rw [reads_column]
    exact ⟨hts, by simp⟩

/-- A query that is accepted and compiles reads only what there is if and only if its terms,
fields and groups are of its signal: `metric:` of metrics, `check:` of checks, `rum.vital.` of
events, attributes not of checks, and rows are of a signal that there is. -/
theorem compiled_sound_iff {q : Bytes} (hv : validate req.ast q = none) :
    (∀ s, series lib req = .ok s → (Sound s.select ↔ SeriesFits req)) ∧
    (∀ s, rows lib req = .ok s → (Sound s.select ↔ RowsFit req)) := by
  refine ⟨fun s hs => ?_, fun s hs => ?_⟩
  · obtain ⟨b, hb, -⟩ := series_ok lib req hs
    exact seriesBuild_sound_iff lib req hv hb
  · obtain ⟨b, hb, -⟩ := rows_ok lib req hs
    exact rowsBuild_sound_iff lib req hb

end

theorem series_compiles (req : Request PrintedQueries.Digits)
    (h : (series digitFormats req).toOption.isSome = true) : ∃ s, series digitFormats req = .ok s :=
  (Option.isSome_iff_exists.mp h).imp fun _ hs => GrammarReadings.toOption_eq_some.mp hs

/-- `service:web | p95(trace.duration_ms) by env` on traces. -/
theorem traced_sound :
    let ast : AST PrintedQueries.Digits :=
      { filters := [.facet (bytes "service") .eq (.str (bytes "web"))], agg := [⟨bytes "p95", bytes "trace.duration_ms"⟩],
        groupBy := [bytes "env"] }
    parse digitFormats.toLibrary (bytes "service:web | p95(trace.duration_ms) by env") = .ok ast ∧
      ∃ s, series digitFormats (hourRequest .traces ast) = .ok s ∧ Sound s.select := by
  intro ast
  have hruns : parse digitFormats.toLibrary (bytes "service:web | p95(trace.duration_ms) by env") = .ok ast ∧
      validate ast (bytes "service:web | p95(trace.duration_ms) by env") = none ∧
      (series digitFormats (hourRequest .traces ast)).toOption.isSome = true := by decide +kernel
  obtain ⟨hparse, hv, hsome⟩ := hruns
  obtain ⟨s, hs⟩ := series_compiles (hourRequest .traces ast) hsome
  have hfits : SeriesFits (hourRequest .traces ast) := by
    refine ⟨⟨⟨?_, ?_, ?_, fun _ => by decide⟩, trivial⟩, fun a _ _ hc => absurd hc (by decide), fun g _ _ => by decide⟩
    · exact fun h => absurd h (by decide)
    · exact fun h => absurd h (by decide)
    · exact fun h => absurd h (by decide)
  exact ⟨hparse, s, hs, ((compiled_sound_iff digitFormats (hourRequest .traces ast) hv).1 s hs).mpr hfits⟩

/-- The attributes of checks are looked for in a column of logs. -/
theorem attribute_of_checks_unknown :
    let q := bytes "@region:eu | p95(response_time_ms)"
    let ast : AST PrintedQueries.Digits :=
      { filters := [.facet (bytes "@region") .eq (.str (bytes "eu"))], agg := [⟨bytes "p95", bytes "response_time_ms"⟩] }
    parse digitFormats.toLibrary q = .ok ast ∧ validate ast q = none ∧ detect ast = .checks ∧
      ∃ s, series digitFormats (hourRequest .checks ast) = .ok s ∧ ¬Sound s.select := by
  intro q ast
  have hruns : parse digitFormats.toLibrary q = .ok ast ∧ validate ast q = none ∧ detect ast = .checks ∧
      (series digitFormats (hourRequest .checks ast)).toOption.isSome = true := by decide +kernel
  obtain ⟨hparse, hv, hdetect, hsome⟩ := hruns
  obtain ⟨s, hs⟩ := series_compiles (hourRequest .checks ast) hsome
  refine ⟨hparse, hv, hdetect, s, hs, fun hsound => ?_⟩
  obtain ⟨b, hb, -⟩ := series_ok digitFormats _ hs
  have hfits := (seriesBuild_sound_iff digitFormats (hourRequest .checks ast) hv hb).mp hsound
  exact hfits.filters.1.attr (by decide) rfl

end Upstat.CompiledColumns
