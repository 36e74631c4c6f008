import Upstat.ConditionTexts
import Upstat.QueryGrammar
import Upstat.SeriesAssembly

/-! # The query compiler (`query/internal/compile/compile.go`)

SQL is a list of pieces, so that the columns it reads and its placeholders stand apart from its
text. Conditions are lists of tokens. A time is counted in nanoseconds. -/
namespace Upstat.QueryCompiler

open QueryGrammar ConditionTexts
open SeriesAssembly (Tier Platform)

/-- The store a query reads. A request may name one that there is not. -/
inductive Signal where
  | logs | traces | metrics | checks | events
  | other (name : Bytes)
  deriving DecidableEq

def Signal.name : Signal → Bytes
  | .logs => bytes "logs"
  | .traces => bytes "traces"
  | .metrics => bytes "metrics"
  | .checks => bytes "checks"
  | .events => bytes "events"
  | .other name => name

/-- What the compiler uses of Go's library besides: a step's seconds by `strconv.FormatFloat`,
and `time.Format`. -/
structure Formats (ν : Type) extends Library ν, Platform where
  stepSeconds : ℤ → Bytes
  formatTime : ℤ → Bytes

section
variable {ν : Type}

def aggField (ast : AST ν) (field : Bytes) : Bool := ast.agg.any fun a => a.field = field

def detect (ast : AST ν) : Signal :=
  if hasFacet ast (bytes "metric") then .metrics
  else if hasFacet ast (bytes "check") ∨ aggField ast (bytes "response_time_ms") then .checks
  else if hasFacet ast (bytes "trace.") then .traces
  else if hasFacet ast (bytes "rum.") then .events
  else .logs

structure Request (ν : Type) where
  ast : AST ν
  signal : Signal
  orgId : Bytes
  from_ : ℤ
  to_ : ℤ
  step : ℤ
  tier : Tier
  monitors : Bytes → Option Bytes
  histogram : Bool
  limit : ℤ

end

/-! ## SQL -/

inductive Piece where
  | text (s : Bytes)
  | column (name : String)
  | param (n : ℕ) (typ : String)
  deriving DecidableEq

abbrev Expr := List Piece

def lit (s : String) : Piece := .text (bytes s)

def decimal (n : ℤ) : Bytes := bytes (toString n)

def Piece.sql : Piece → Bytes
  | .text s => s
  | .column name => bytes name
  | .param n typ => bytes "\x7bp" ++ decimal n ++ bytes ":" ++ bytes typ ++ bytes "\x7d"

abbrev Condition := List (Token Expr)

def tokenExpr : Token Expr → Expr
  | .and => [lit " AND "]
  | .or => [lit " OR "]
  | .not => [lit "NOT "]
  | .opening => [lit "("]
  | .closing => [lit ")"]
  | .one => [lit "1"]
  | .atom e => e

def conditionExpr (c : Condition) : Expr := c.flatMap tokenExpr

inductive Source where
  | table (name : String)
  | union (columns tables : List String)

def commaSeparated (es : List Expr) : Expr := [lit ", "].intercalate es

def Source.expr : Source → Expr
  | .table name => [lit name]
  | .union columns tables =>
    [lit "("] ++ [lit "\n\t\t\tUNION ALL "].intercalate (tables.map fun t =>
      [lit "SELECT "] ++ commaSeparated (columns.map fun c => [lit c]) ++ [lit (" FROM " ++ t)]) ++ [lit ")"]

structure Select where
  columns : List Expr
  source : Source
  arrayJoin : Expr
  filter : Condition
  groupBy : List Expr
  orderBy : Expr
  limit : ℤ

def Select.expr (s : Select) : Expr :=
  [lit "SELECT "] ++ commaSeparated s.columns ++ [lit " FROM "] ++ s.source.expr ++ s.arrayJoin ++ [lit " WHERE "] ++
    conditionExpr s.filter ++ (if s.groupBy = [] then [] else lit " GROUP BY " :: commaSeparated s.groupBy) ++
    [lit " ORDER BY "] ++ s.orderBy ++ [lit " LIMIT ", .text (decimal s.limit)]

/-- SQL and its parameters, by the numbers in their names. -/
structure Query where
  select : Select
  params : List (ℕ × Bytes)
  groups : List Bytes := []
  aggs : List Agg := []

def sqlText (e : Expr) : Bytes := e.flatMap Piece.sql

def Query.sql (q : Query) : Bytes := sqlText q.select.expr

/-! ## The builder -/

structure Builder where
  n : ℕ := 0
  params : List (ℕ × Bytes) := []

/-- A builder's steps, which stop at an `invalid_query` with its message. -/
abbrev Build := StateT Builder (Except Bytes)

def invalid {α : Type} (message : Bytes) : Build α := fun _ => .error message

/-- `params[name] = v` -/
def assign (params : List (ℕ × Bytes)) (n : ℕ) (v : Bytes) : List (ℕ × Bytes) := params.filter (·.1 ≠ n) ++ [(n, v)]

def param (typ : String) (v : Bytes) : Build Expr := fun b =>
  .ok ([.param (b.n + 1) typ], { n := b.n + 1, params := assign b.params (b.n + 1) v })

def str (v : Bytes) : Build Expr := param "String" v

section
variable {ν : Type} (lib : Formats ν) (req : Request ν)

/-- The FROM clause and the time column of the signal. -/
@[grind] def source : Source × String :=
  match req.signal with
  | .traces => (.table "otel_traces", "Timestamp")
  | .checks => (.table "check_results", "scheduled_at")
  | .events => (.table "events", "ts")
  | .metrics =>
    if req.histogram then (.table "otel_metrics_histogram", "TimeUnix")
    else
      match req.tier with
      | .minute => (.table "metrics_1m", "bucket")
      | .hour => (.table "metrics_1h", "bucket")
      | .raw =>
        (.union ["org_id", "ServiceName", "MetricName", "Attributes", "ResourceAttributes", "TimeUnix", "Value"]
          ["otel_metrics_gauge", "otel_metrics_sum"], "TimeUnix")
  | .logs | .other _ => (.table "otel_logs", "Timestamp")

/-- Where `@` attributes live. -/
@[grind] def attrMap : String :=
  match req.signal with
  | .traces => "SpanAttributes"
  | .metrics => "Attributes"
  | .events => "dims"
  | .logs | .checks | .other _ => "LogAttributes"

def resource (key : String) : Expr :=
  if req.signal = .metrics ∧ req.tier ≠ .raw ∧ ¬req.histogram then [.column "Attributes", lit ("['" ++ key ++ "']")]
  else [.column "ResourceAttributes", lit ("['" ++ key ++ "']")]

def duration : Expr := [lit "(", .column "Duration", lit " / 1e6)"]

/-- The facets that are columns: the name, the signals it applies to and the expression. -/
def facetColumns : List (String × List Signal × Expr) :=
  [("service", [.logs, .traces, .metrics], [.column "ServiceName"]),
    ("env", [.logs, .traces, .metrics], resource req "deployment.environment"),
    ("host", [.logs, .traces, .metrics], resource req "host.name"),
    ("level", [.logs], [lit "lower(", .column "SeverityText", lit ")"]),
    ("status", [.logs], [lit "lower(", .column "SeverityText", lit ")"]),
    ("status", [.traces], [lit "if(", .column "StatusCode", lit " = 'Error', 'error', 'ok')"]),
    ("status", [.checks], [lit "if(", .column "ok", lit ", 'up', 'down')"]),
    ("region", [.checks], [.column "region"]),
    ("status_code", [.checks], [.column "status_code"]),
    ("response_time_ms", [.checks], [.column "total_ms"]),
    ("name", [.events], [.column "name"]),
    ("name", [.traces], [.column "SpanName"]),
    ("name", [.metrics], [.column "MetricName"]),
    ("trace.duration_ms", [.traces], duration),
    ("trace.endpoint", [.traces], [.column "SpanName"]),
    ("trace.error", [.traces], [lit "if(", .column "StatusCode", lit " = 'Error', 'true', 'false')"]),
    ("trace.kind", [.traces], [lit "lower(", .column "SpanKind", lit ")"]),
    ("trace.id", [.traces, .logs], [.column "TraceId"]),
    ("rum.path", [.events], [.column "path"]),
    ("rum.country", [.events], [.column "country"]),
    ("rum.device", [.events], [.column "device_class"]),
    ("rum.referrer", [.events], [.column "referrer_host"]),
    ("rum.event", [.events], [.column "name"]),
    ("rum.name", [.events], [.column "name"])]

def facetColumn (f : Bytes) : Option Expr :=
  ((facetColumns req).find? fun c => bytes c.1 = f ∧ req.signal ∈ c.2.1).map (·.2.2)

/-- `m[key]` -/
def lookup (m : String) (key : Bytes) : Build Expr := do
  let p ← str key
  pure ([.column m, lit "["] ++ p ++ [lit "]"])

/-- The expression for a facet on the signal. -/
def facet (f : Bytes) : Build Expr :=
  if hasPrefix f "@" then lookup (attrMap req) (if req.signal = .events then bytes "dim." ++ f.drop 1 else f.drop 1)
  else if hasPrefix f "metric." ∧ req.signal = .metrics then lookup "Attributes" (f.drop 7)
  else
    match facetColumn req f with
    | some e => pure e
    | none =>
      if hasPrefix f "rum.vital." ∧ req.signal = .events then pure [.column "value"]
      else if hasPrefix f "trace." ∧ req.signal = .traces then lookup "SpanAttributes" (f.drop 6)
      else invalid (bytes "facet " ++ f ++ bytes " does not apply to " ++ req.signal.name)

def numeric (e : Expr) : Expr :=
  if e = duration ∨ e = [.column "total_ms"] ∨ e = [.column "value"] ∨ e = [.column "status_code"] then e
  else [lit "toFloat64OrNull(toString("] ++ e ++ [lit "))"]

def cmpSql : Cmp → Bytes
  | .eq => bytes "="
  | .gt => bytes ">"
  | .gte => bytes ">="
  | .lt => bytes "<"
  | .lte => bytes "<="

/-- `fmt.Sprint` of a value -/
def valueText : Value ν → Bytes
  | .str s => s
  | .num x => lib.sprint x

def isNum : Value ν → Bool
  | .str _ => false
  | .num _ => true

/-! ## Terms -/

def textIn (column : String) (s : Bytes) : Build Condition := do
  let p ← str s
  pure [.atom ([lit "positionCaseInsensitiveUTF8(", .column column, lit ", "] ++ p ++ [lit ") > 0"])]

def text (s : Bytes) : Build Condition :=
  match req.signal with
  | .logs => textIn "Body" s
  | .traces => textIn "SpanName" s
  | .events => textIn "name" s
  | .metrics => textIn "MetricName" s
  | .checks | .other _ => invalid (bytes "free text does not apply to checks")

def equals (e : Expr) (v : Bytes) : Build Condition := do
  let p ← str v
  pure [.atom (e ++ [lit " = "] ++ p)]

def compares (e : Expr) (cmp : Cmp) (v : Bytes) : Build Condition := do
  let p ← param "Float64" v
  pure [.atom (e ++ [.text (bytes " " ++ cmpSql cmp ++ bytes " ")] ++ p)]

/-- A `rum.vital.` facet's condition on the events of the vital. -/
def vitalTerm (vital : Bytes) (cmp : Cmp) (v : Bytes) : Build Condition := do
  let p ← str vital
  let cond : Condition :=
    [.atom [.column "name", lit " = 'web_vital'"], .and, .atom ([.column "dims", lit "['dim.metric'] = "] ++ p)]
  if cmp = .eq ∧ v = [] then pure cond
  else do
    let c ← compares [.column "value"] cmp v
    pure (cond ++ .and :: c)

def facetTerm (f : Bytes) (cmp : Cmp) (v : Value ν) : Build Condition :=
  if f = bytes "metric" then equals [.column "MetricName"] (valueText lib v)
  else if f = bytes "on" then pure [.one]
  else if f = bytes "check" then
    match req.monitors (valueText lib v) with
    | some id => equals [.column "monitor_id"] id
    | none => invalid (bytes "unknown check: " ++ valueText lib v)
  else if hasPrefix f "rum.vital." then vitalTerm (f.drop 10) cmp (valueText lib v)
  else do
    let e ← facet req f
    if isNum v ∨ cmp ≠ .eq then compares (numeric e) cmp (valueText lib v)
    else if f = bytes "status" ∧ req.signal = .logs ∧ valueText lib v = bytes "error" then
      pure [.atom [lit "lower(", .column "SeverityText", lit ") IN ('error', 'fatal')"]]
    else equals ([lit "toString("] ++ e ++ [lit ")"]) (valueText lib v)

mutual

def term : Term ν → Build Condition
  | .not t => do
    let inner ← term t
    pure (.not :: parens inner)
  | .op op ts => do
    let parts ← terms ts
    pure (join (op = .and) parts)
  | .text s => text req s
  | .facet f cmp v => facetTerm lib req f cmp v

def terms : List (Term ν) → Build (List Condition)
  | [] => pure []
  | t :: ts => do
    let p ← term t
    let ps ← terms ts
    pure (parens p :: ps)

end

/-! ## Aggregations -/

def call (fn : Bytes) (e : Expr) : Expr := [.text (fn ++ bytes "(")] ++ e ++ [lit ")"]

/-- `quantile(0.50)(e)` and its like -/
def quantile (name fn : Bytes) (e : Expr) : Expr := call (name ++ bytes "(0." ++ fn.drop 1 ++ bytes ")") e

def toFloat (e : Expr) : Expr := [lit "toFloat64("] ++ e ++ [lit ")"]

def quantileIndex (fn : Bytes) : Bytes :=
  if fn = bytes "p50" then bytes "1" else if fn = bytes "p95" then bytes "2" else if fn = bytes "p99" then bytes "3" else []

/-- `sum(a) / nullIf(sum(b), 0)` -/
def average (a b : String) : Expr :=
  call (bytes "sum") [.column a] ++ [lit " / nullIf("] ++ call (bytes "sum") [.column b] ++ [lit ", 0)"]

def metricAgg (a : Agg) : Build Expr :=
  if a.fn = bytes "rate" then invalid (bytes "rate() does not apply to metrics; use the metric itself")
  else if a.fn = bytes "uniq" then pure (toFloat (call (bytes "uniqExact") [.column "Attributes"]))
  else if req.histogram then
    pure (if a.fn = bytes "count" then toFloat (call (bytes "sum") [.column "Count"])
      else if a.fn = bytes "sum" then call (bytes "sum") [.column "Sum"]
      else if a.fn = bytes "avg" then average "Sum" "Count"
      else if a.fn = bytes "min" then call (bytes "min") [.column "Min"]
      else if a.fn = bytes "max" then call (bytes "max") [.column "Max"]
      else quantile (bytes "quantileWeighted") a.fn [lit "b.1, b.2"])
  else if req.tier = .raw then
    pure (if a.fn = bytes "count" then toFloat [lit "count()"]
      else if a.fn = bytes "p50" ∨ a.fn = bytes "p95" ∨ a.fn = bytes "p99" then quantile (bytes "quantile") a.fn [.column "Value"]
      else call a.fn [.column "Value"])
  else
    pure (if a.fn = bytes "count" then toFloat (call (bytes "sum") [.column "count_value"])
      else if a.fn = bytes "sum" then call (bytes "sum") [.column "sum_value"]
      else if a.fn = bytes "avg" then average "sum_value" "count_value"
      else if a.fn = bytes "min" then call (bytes "min") [.column "min_value"]
      else if a.fn = bytes "max" then call (bytes "max") [.column "max_value"]
      else [lit "quantilesMerge(0.5, 0.95, 0.99)(", .column "quantiles", .text (bytes ")[" ++ quantileIndex a.fn ++ bytes "]")])

/-- What an aggregation is of, on any signal but metrics. -/
def aggOf (a : Agg) : Build Expr :=
  if a.field ≠ [] then
    if a.field = bytes "visitor" ∧ req.signal = .events then pure [lit "nullIf(", .column "visitor_hash", lit ", '')"]
    else facet req a.field
  else pure (if req.signal = .checks then [.column "total_ms"] else [])

def aggExpr (a : Agg) : Build Expr :=
  if req.signal = .metrics then metricAgg req a
  else do
    let field ← aggOf req a
    if a.fn = bytes "count" then pure (toFloat [lit "count()"])
    else if a.fn = bytes "rate" then
      pure (if req.signal = .checks then call (bytes "avg") [.column "ok"]
        else [lit "count() / ", .text (lib.stepSeconds req.step)])
    else if a.fn = bytes "uniq" then pure (toFloat (call (bytes "uniqExact") field))
    else if a.fn = bytes "sum" ∨ a.fn = bytes "avg" ∨ a.fn = bytes "min" ∨ a.fn = bytes "max" then pure (call a.fn (numeric field))
    else if a.fn = bytes "p50" ∨ a.fn = bytes "p95" ∨ a.fn = bytes "p99" then
      pure (quantile (bytes "quantile") a.fn (numeric field))
    else invalid (bytes "unknown function " ++ a.fn)

/-! ## Queries -/

/-- The filters' conditions, without those that say nothing. -/
def conditions : List (Term ν) → Build (List Condition)
  | [] => pure []
  | t :: ts => do
    let c ← term lib req t
    let cs ← conditions ts
    pure (if c = [.one] then cs else parens c :: cs)

/-- The WHERE clause: org, range, signal guard and the filters. -/
def where_ (ts : String) : Build Condition := do
  let org ← str req.orgId
  let lo ← param "DateTime64(3)" (lib.formatTime req.from_)
  let hi ← param "DateTime64(3)" (lib.formatTime req.to_)
  let guard : List Condition :=
    if req.signal = .logs then [[.atom [.column "ServiceName", lit " NOT LIKE 'upstat.%'"]]] else []
  let cs ← conditions lib req req.ast.filters
  pure (join true ([[.atom ([.column "org_id", lit " = "] ++ org)], [.atom ([.column ts, lit " >= "] ++ lo)],
    [.atom ([.column ts, lit " < "] ++ hi)]] ++ guard ++ cs))

/-- Any facet of the signal; an unknown name is a tag. -/
def groupExpr (g : Bytes) : Build Expr := fun b =>
  match facet req g b with
  | .ok r => .ok r
  | .error e =>
    match req.signal with
    | .metrics => lookup "Attributes" g b
    | .logs | .traces => lookup (attrMap req) g b
    | .events => lookup "dims" (bytes "dim." ++ g) b
    | .checks | .other _ => .error e

def groupName (i : ℕ) : Bytes := bytes "g" ++ decimal i

/-- The columns of the groups from the `i`th on. -/
def groupColumns (i : ℕ) : List Bytes → Build (List Expr)
  | [] => pure []
  | g :: gs => do
    let e ← groupExpr req g
    let es ← groupColumns (i + 1) gs
    pure (([lit "toString("] ++ e ++ [.text (bytes ") AS " ++ groupName i)]) :: es)

def aggColumns (i : ℕ) : List Agg → Build (List Expr)
  | [] => pure []
  | a :: as => do
    let e ← aggExpr lib req a
    let es ← aggColumns (i + 1) as
    pure ((e ++ [.text (bytes " AS a" ++ decimal i)]) :: es)

def seriesBuild : Build Select := do
  let (from_, ts) := source req
  let filter ← where_ lib req ts
  let groups ← groupColumns req 0 req.ast.groupBy
  let aggs ← aggColumns lib req 0 req.ast.agg
  let bucket : Expr := [lit "toStartOfInterval(", .column ts,
    .text (bytes ", INTERVAL " ++ decimal (lib.seconds req.step) ++ bytes " SECOND) AS t")]
  pure {
    columns := bucket :: (groups ++ aggs)
    source := from_
    arrayJoin :=
      if req.signal = .metrics ∧ req.histogram then
        [lit " ARRAY JOIN arrayZip(arrayPushBack(", .column "ExplicitBounds", lit ", ", .column "Max", lit "), ",
          .column "BucketCounts", lit ") AS b"]
      else []
    filter := filter
    groupBy := [lit "t"] :: (List.range req.ast.groupBy.length).map fun i => [.text (groupName i)]
    orderBy := [lit "t"]
    limit := if req.limit ≤ 0 then 50000 else req.limit }

/-- `Series` -/
def series : Except Bytes Query :=
  if req.ast.agg = [] then .error (bytes "a series needs an aggregation (| count() …)")
  else
    match seriesBuild lib req {} with
    | .ok (select, b) => .ok { select := select, params := b.params, groups := req.ast.groupBy, aggs := req.ast.agg }
    | .error e => .error e

def rowColumns : Build (List Expr) :=
  match req.signal with
  | .logs => pure [[.column "Timestamp", lit " AS ts"], [.column "ServiceName", lit " AS service"],
      [.column "SeverityText", lit " AS level"], [.column "Body", lit " AS message"]]
  | .traces => pure [[.column "Timestamp", lit " AS ts"], [.column "ServiceName", lit " AS service"],
      [.column "SpanName", lit " AS name"], [.column "Duration", lit " / 1e6 AS duration_ms"],
      [.column "StatusCode", lit " AS status"], [.column "TraceId", lit " AS trace_id"]]
  | .checks => pure [[.column "scheduled_at", lit " AS ts"], [.column "monitor_id"], [.column "region"], [.column "ok"],
      [.column "cause"], [.column "status_code"], [.column "total_ms"]]
  | .events => pure [[.column "ts"], [.column "name"], [.column "path"], [.column "referrer_host"],
      [.column "device_class"], [.column "country"], [.column "value"]]
  | .metrics =>
    if req.tier ≠ .raw ∨ req.histogram then
      invalid (bytes "raw metric points are kept for 6 hours; add an aggregation or narrow the range")
    else pure [[.column "TimeUnix", lit " AS ts"], [.column "ServiceName", lit " AS service"],
      [.column "MetricName", lit " AS metric"], [.column "Value", lit " AS value"]]
  | .other _ => pure []

def rowsBuild : Build Select := do
  let (from_, ts) := source req
  let filter ← where_ lib req ts
  let cols ← rowColumns req
  pure {
    columns := cols
    source := from_
    arrayJoin := []
    filter := filter
    groupBy := []
    orderBy := [.column ts, lit " DESC"]
    limit := if req.limit ≤ 0 ∨ 1000 < req.limit then 1000 else req.limit }

/-- `Rows` -/
def rows : Except Bytes Query :=
  match rowsBuild lib req {} with
  | .ok (select, b) => .ok { select := select, params := b.params }
  | .error e => .error e

/-- `Where` -/
def filterClause : Except Bytes (Condition × List (ℕ × Bytes)) :=
  match where_ lib req (source req).2 {} with
  | .ok (c, b) => .ok (c, b.params)
  | .error e => .error e

end

end Upstat.QueryCompiler
