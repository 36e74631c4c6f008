import Mathlib.Algebra.BigOperators.Group.List.Basic
import Mathlib.Algebra.BigOperators.Ring.List
import Mathlib.Data.Nat.Cast.Order.Ring
import Mathlib.Algebra.Order.BigOperators.Group.List
import Mathlib.Algebra.Order.Ring.Rat
import Mathlib.Tactic.Ring
import Mathlib.Tactic.FieldSimp
import Upstat.CompiledFilters

/-! # Totals of a histogram's series (`compile.go`)

A series of a histogram metric is over the rows of an ARRAY JOIN: each point of the table once for each of its buckets, which is what
the quantiles are of. The other aggregations are compiled over the same rows. -/
namespace Upstat.HistogramTotals

open QueryGrammar QueryCompiler BuiltQueries CompiledFilters

/-! ## Points and rows -/

/-- A row of `otel_metrics_histogram`; `other` is what conditions and groups read. -/
structure Point (α : Type) where
  other : α
  count : ℕ
  sum : ℚ
  min : ℚ
  max : ℚ
  bucketCounts : List ℕ
  explicitBounds : List ℚ

/-- As OTLP has it: one count more than bounds, or neither. -/
def Point.WellFormed {α : Type} (p : Point α) : Prop :=
  p.bucketCounts.length = p.explicitBounds.length + 1 ∨ p.bucketCounts = [] ∧ p.explicitBounds = []

/-- The arrays have to be of one length. -/
def arrayZip {β γ : Type} (xs : List β) (ys : List γ) : Option (List (β × γ)) := if xs.length = ys.length then some (xs.zip ys) else none

/-- `ARRAY JOIN arrayZip(arrayPushBack(ExplicitBounds, Max), BucketCounts) AS b` -/
def arrayJoin {α : Type} : List (Point α) → Option (List (Point α × ℚ × ℕ))
  | [] => some []
  | p :: ps => do
    let bs ← arrayZip (p.explicitBounds ++ [p.max]) p.bucketCounts
    let rows ← arrayJoin ps
    some (bs.map (p, ·) ++ rows)

def joinText : Expr :=
  [lit " ARRAY JOIN arrayZip(arrayPushBack(", .column "ExplicitBounds", lit ", ", .column "Max", lit "), ", .column "BucketCounts", lit ") AS b"]

/-! ## Aggregations -/

inductive Column | count | sum | min | max

def Column.name : Column → String
  | .count => "Count"
  | .sum => "Sum"
  | .min => "Min"
  | .max => "Max"

def Column.value {α : Type} (p : Point α) : Column → ℚ
  | .count => p.count
  | .sum => p.sum
  | .min => p.min
  | .max => p.max

inductive Sql
  | sum (c : Column)
  | min (c : Column)
  | max (c : Column)
  | average (a b : Column)
  | toFloat64 (e : Sql)

def Sql.text : Sql → Expr
  | .sum c => call (bytes "sum") [.column c.name]
  | .min c => call (bytes "min") [.column c.name]
  | .max c => call (bytes "max") [.column c.name]
  | .average a b => QueryCompiler.average a.name b.name
  | .toFloat64 e => toFloat e.text

section
variable {α : Type}

def Column.total (c : Column) (points : List (Point α)) : ℚ := (points.map fun p => c.value p).sum

/-- What the expression is of a group's rows; `average` is null where its divisor is. -/
def Sql.eval (rows : List (Point α)) : Sql → Option ℚ
  | .sum c => some (c.total rows)
  | .min c => (rows.map fun p => c.value p).min?
  | .max c => (rows.map fun p => c.value p).max?
  | .average a b => if b.total rows = 0 then none else some (a.total rows / b.total rows)
  | .toFloat64 e => e.eval rows

inductive Fn | count | sum | avg | min | max

def Fn.name : Fn → String
  | .count => "count"
  | .sum => "sum"
  | .avg => "avg"
  | .min => "min"
  | .max => "max"

def Fn.sql : Fn → Sql
  | .count => .toFloat64 (.sum .count)
  | .sum => .sum .sum
  | .avg => .average .sum .count
  | .min => .min .min
  | .max => .max .max

/-- What the function is of a group's points. -/
def Fn.wanted (points : List (Point α)) : Fn → Option ℚ
  | .count => some ((points.map Point.count).sum : ℕ)
  | .sum => some (points.map Point.sum).sum
  | .avg =>
    if (points.map Point.count).sum = 0 then none else some ((points.map Point.sum).sum / ((points.map Point.count).sum : ℕ))
  | .min => (points.map Point.min).min?
  | .max => (points.map Point.max).max?

section
variable {κ : Type} [DecidableEq κ] (selected : Point α → Bool) (key : Point α → κ)

/-- The WHERE clause lets the point through, and it is of the bucket and group. -/
def inGroup (k : κ) (p : Point α) : Bool := selected p && key p = k

/-- Of the points that come to the ARRAY JOIN the query returns the values that the functions are of them, in the groups that ORDER BY
and LIMIT leave. -/
def Right (points : List (Point α)) (returned : List κ) (fns : List Fn) : Prop :=
  ∃ rows, arrayJoin points = some rows ∧ ∀ k ∈ returned, ∀ fn ∈ fns,
    fn.sql.eval ((rows.map Prod.fst).filter (inGroup selected key k)) = fn.wanted (points.filter (inGroup selected key k))

/-- What the rows beyond a point's first one add. -/
def Column.extra (c : Column) (points : List (Point α)) : ℚ := (points.map fun p => ((p.bucketCounts.length : ℚ) - 1) * c.value p).sum

/-- The rows beyond the first of each point leave the function's value as it is. -/
def Fn.Balanced (points : List (Point α)) : Fn → Prop
  | .count => ∀ p ∈ points, p.bucketCounts.length = 1 ∨ p.count = 0
  | .sum => Column.sum.extra points = 0
  | .avg => Column.sum.extra points * Column.count.total points = Column.sum.total points * Column.count.extra points
  | .min | .max => True

end

/-! ## The rows of a group -/

/-- Every point as often as it has buckets. -/
def repeated (points : List (Point α)) : List (Point α) := points.flatMap fun p => List.replicate p.bucketCounts.length p

theorem arrayZip_wellFormed {p : Point α} (h : p.WellFormed) : p.bucketCounts ≠ [] →
    arrayZip (p.explicitBounds ++ [p.max]) p.bucketCounts = some ((p.explicitBounds ++ [p.max]).zip p.bucketCounts) := by
  intro hne
  rcases h with hlength | ⟨hnil, -⟩
  · exact if_pos (by rw [List.length_append, List.length_singleton, hlength])
  · exact absurd hnil hne

/-- A point with neither bounds nor counts makes the query fail. -/
theorem arrayZip_empty {p : Point α} (h : p.bucketCounts = []) : arrayZip (p.explicitBounds ++ [p.max]) p.bucketCounts = none := by
  rw [h]
  exact if_neg (by simp)

theorem fst_zip_rows {p : Point α} (h : p.WellFormed) (hne : p.bucketCounts ≠ []) :
    (((p.explicitBounds ++ [p.max]).zip p.bucketCounts).map (p, ·)).map Prod.fst = List.replicate p.bucketCounts.length p := by
  have hlength : ((p.explicitBounds ++ [p.max]).zip p.bucketCounts).length = p.bucketCounts.length := by
    rcases h with hlength | ⟨hnil, -⟩
    · rw [List.length_zip, List.length_append, List.length_singleton, hlength, Nat.min_self]
    · exact absurd hnil hne
  rw [List.map_map, ← hlength]
  exact List.map_const'

theorem arrayJoin_rows {points : List (Point α)} (hpoints : ∀ p ∈ points, p.WellFormed) (hne : ∀ p ∈ points, p.bucketCounts ≠ []) :
    ∃ rows, arrayJoin points = some rows ∧ rows.map Prod.fst = repeated points := by
  induction points with
  | nil => exact ⟨[], rfl, rfl⟩
  | cons p ps ih =>
    obtain ⟨hp, hps⟩ := List.forall_mem_cons.mp hpoints
    obtain ⟨hpne, hpsne⟩ := List.forall_mem_cons.mp hne
    obtain ⟨rows, hrows, hfst⟩ := ih hps hpsne
    refine ⟨((p.explicitBounds ++ [p.max]).zip p.bucketCounts).map (p, ·) ++ rows, ?_, ?_⟩
    · rw [arrayJoin, arrayZip_wellFormed hp hpne, hrows]
      rfl
    · rw [List.map_append, fst_zip_rows hp hpne, hfst]
      rfl

theorem ne_nil_of_arrayJoin {points : List (Point α)} {rows : List (Point α × ℚ × ℕ)} (h : arrayJoin points = some rows) :
    ∀ p ∈ points, p.bucketCounts ≠ [] := by
  induction points generalizing rows with
  | nil => exact nofun
  | cons p ps ih =>
    obtain ⟨bs, hbs, h⟩ := Option.bind_eq_some_iff.mp h
    obtain ⟨rest, hrest, -⟩ := Option.bind_eq_some_iff.mp h
    refine List.forall_mem_cons.mpr ⟨fun hnil => ?_, ih hrest⟩
    rw [arrayZip_empty hnil] at hbs
    cases hbs

theorem filter_repeated (q : Point α → Bool) (points : List (Point α)) : (repeated points).filter q = repeated (points.filter q) := by
  induction points with
  | nil => rfl
  | cons p ps ih =>
    unfold repeated at ih ⊢
    rw [List.flatMap_cons, List.filter_append, ih]
    cases hq : q p with
    | true => rw [List.filter_cons_of_pos hq, List.flatMap_cons, List.filter_replicate_of_pos hq]
    | false => rw [List.filter_cons_of_neg (by simp [hq]), List.filter_replicate_of_neg (by simp [hq]), List.nil_append]

theorem mem_repeated {points : List (Point α)} (hne : ∀ p ∈ points, p.bucketCounts ≠ []) (p : Point α) :
    p ∈ repeated points ↔ p ∈ points := by
  unfold repeated
  rw [List.mem_flatMap]
  constructor
  · rintro ⟨r, hr, hp⟩
    rwa [List.eq_of_mem_replicate hp]
  · intro hp
    exact ⟨p, hp, List.mem_replicate.mpr ⟨fun hzero => hne p hp (List.length_eq_zero_iff.mp hzero), rfl⟩⟩

/-! ## Totals -/

theorem total_repeated (c : Column) (points : List (Point α)) : c.total (repeated points) = c.total points + c.extra points := by
  induction points with
  | nil => exact (add_zero 0).symm
  | cons p ps ih =>
    unfold Column.total Column.extra repeated at ih ⊢
    rw [List.flatMap_cons, List.map_append, List.sum_append, ih, List.map_replicate, List.sum_replicate]
    simp only [List.map_cons, List.sum_cons, nsmul_eq_mul]
    ring

theorem total_count (points : List (Point α)) : Column.count.total points = ((points.map Point.count).sum : ℕ) := by
  unfold Column.total
  induction points with
  | nil => exact Nat.cast_zero.symm
  | cons p ps ih =>
    rw [List.map_cons, List.sum_cons, List.map_cons, List.sum_cons, Nat.cast_add, ih]
    rfl

theorem total_sum (points : List (Point α)) : Column.sum.total points = (points.map Point.sum).sum := rfl

theorem extra_count_nonneg {points : List (Point α)} (hne : ∀ p ∈ points, p.bucketCounts ≠ []) :
    ∀ x ∈ points.map fun p => ((p.bucketCounts.length : ℚ) - 1) * Column.count.value p, 0 ≤ x := by
  intro x hx
  obtain ⟨p, hp, rfl⟩ := List.mem_map.mp hx
  have hpos : 1 ≤ p.bucketCounts.length := List.length_pos_iff.mpr (hne p hp)
  have hpos' : (1 : ℚ) ≤ p.bucketCounts.length := by exact_mod_cast hpos
  exact mul_nonneg (sub_nonneg.mpr hpos') (Nat.cast_nonneg p.count)

theorem extra_count_eq_zero {points : List (Point α)} (hne : ∀ p ∈ points, p.bucketCounts ≠ []) :
    Column.count.extra points = 0 ↔ ∀ p ∈ points, p.bucketCounts.length = 1 ∨ p.count = 0 := by
  have hterm : ∀ p : Point α, ((p.bucketCounts.length : ℚ) - 1) * Column.count.value p = 0 ↔ p.bucketCounts.length = 1 ∨ p.count = 0 := by
    intro p
    rw [mul_eq_zero, sub_eq_zero, Nat.cast_eq_one]
    exact or_congr_right Nat.cast_eq_zero
  unfold Column.extra
  constructor
  · intro hzero p hp
    exact (hterm p).mp (List.all_zero_of_le_zero_le_of_sum_eq_zero (extra_count_nonneg hne) hzero (List.mem_map_of_mem hp))
  · intro h
    apply List.sum_eq_zero
    intro x hx
    obtain ⟨p, hp, rfl⟩ := List.mem_map.mp hx
    exact (hterm p).mpr (h p hp)

theorem total_count_nonneg (points : List (Point α)) : 0 ≤ Column.count.total points := by
  rw [total_count]
  exact Nat.cast_nonneg _

/-- The average over the rows is that over the points where what is added is in their proportion. -/
theorem average_iff {s c ds dc : ℚ} (hc : c ≠ 0) (hsum : c + dc ≠ 0) : (s + ds) / (c + dc) = s / c ↔ ds * c = s * dc := by
  rw [div_eq_div_iff hsum hc]
  constructor <;> intro h <;> linarith

theorem extreme_congr {l m : List ℚ} (h : ∀ x, x ∈ l ↔ x ∈ m) : l.min? = m.min? ∧ l.max? = m.max? := by
  constructor
  · cases hm : m.min? with
    | none =>
      have hnil := List.min?_eq_none_iff.mp hm
      rw [List.min?_eq_none_iff, List.eq_nil_iff_forall_not_mem]
      intro x hx
      rw [h, hnil] at hx
      cases hx
    | some a =>
      obtain ⟨hmem, hle⟩ := List.min?_eq_some_iff.mp hm
      exact List.min?_eq_some_iff.mpr ⟨(h a).mpr hmem, fun b hb => hle b ((h b).mp hb)⟩
  · cases hm : m.max? with
    | none =>
      have hnil := List.max?_eq_none_iff.mp hm
      rw [List.max?_eq_none_iff, List.eq_nil_iff_forall_not_mem]
      intro x hx
      rw [h, hnil] at hx
      cases hx
    | some a =>
      obtain ⟨hmem, hle⟩ := List.max?_eq_some_iff.mp hm
      exact List.max?_eq_some_iff.mpr ⟨(h a).mpr hmem, fun b hb => hle b ((h b).mp hb)⟩

theorem eval_repeated_iff {points : List (Point α)} (hne : ∀ p ∈ points, p.bucketCounts ≠ []) (fn : Fn) :
    fn.sql.eval (repeated points) = fn.wanted points ↔ fn.Balanced points := by
  have hvalues : ∀ c : Column, ∀ x, x ∈ (repeated points).map (fun p => c.value p) ↔ x ∈ points.map fun p => c.value p := by
    intro c x
    simp only [List.mem_map, mem_repeated hne]
  cases fn with
  | count =>
    simp only [Fn.sql, Sql.eval, Fn.wanted, Fn.Balanced, total_repeated, ← total_count, ← extra_count_eq_zero hne, Option.some_inj, add_eq_left]
  | sum =>
    simp only [Fn.sql, Sql.eval, Fn.wanted, Fn.Balanced, total_repeated, ← total_sum, Option.some_inj, add_eq_left]
  | avg =>
    have hextra : 0 ≤ Column.count.extra points := List.sum_nonneg (extra_count_nonneg hne)
    have htotal := total_count_nonneg points
    simp only [Fn.sql, Sql.eval, Fn.wanted, Fn.Balanced, total_repeated, ← total_sum]
    by_cases hzero : (points.map Point.count).sum = 0
    · have hcount : Column.count.total points = 0 := by rw [total_count, hzero, Nat.cast_zero]
      have hnone : Column.count.extra points = 0 :=
        (extra_count_eq_zero hne).mpr fun p hp => Or.inr (List.sum_eq_zero_iff.mp hzero _ (List.mem_map_of_mem hp))
      rw [if_pos hzero, if_pos (by rw [hcount, hnone, add_zero]), hcount, hnone, mul_zero, mul_zero]
      exact iff_of_true rfl rfl
    · have hcount : Column.count.total points ≠ 0 := by
        rw [total_count]
        exact Nat.cast_ne_zero.mpr hzero
      have hpos : 0 < Column.count.total points := lt_of_le_of_ne htotal hcount.symm
      have hrows : Column.count.total points + Column.count.extra points ≠ 0 := (add_pos_of_pos_of_nonneg hpos hextra).ne'
      rw [if_neg hzero, if_neg hrows, Option.some_inj, ← total_count]
      exact average_iff hcount hrows
  | min => exact iff_of_true (extreme_congr (hvalues .min)).1 trivial
  | max => exact iff_of_true (extreme_congr (hvalues .max)).2 trivial

end

/-! ## The compiled series -/

def fns : List Fn := [.count, .sum, .avg, .min, .max]

/-- The function of the name, unless it is a quantile or `uniq`. -/
def fnOf (name : Bytes) : Option Fn := fns.find? fun fn => bytes fn.name = name

section
variable {ν : Type} (lib : Formats ν) (req : Request ν)

theorem fnOf_name {name : Bytes} {fn : Fn} (h : fnOf name = some fn) : name = bytes fn.name := by
  have hname := List.find?_some h
  exact (of_decide_eq_true hname).symm

theorem aggExpr_histogram (hmetrics : req.signal = .metrics) (hhistogram : req.histogram = true) {a : Agg} {fn : Fn} (hfn : fnOf a.fn = some fn)
    (b : Builder) : aggExpr lib req a b = .ok (fn.sql.text, b) := by
  have hname := fnOf_name hfn
  unfold aggExpr metricAgg
  rw [if_pos hmetrics, hname, hhistogram]
  cases fn <;> rfl

theorem aggColumns_get {as : List Agg} {i : ℕ} {b d : Builder} {es : List Expr} (h : aggColumns lib req i as b = .ok (es, d))
    {j : ℕ} {a : Agg}
    (ha : as[j]? = some a) : ∃ b' d' e, aggExpr lib req a b' = .ok (e, d') ∧ es[j]? = some (e ++ [.text (bytes " AS a" ++ decimal (i + j : ℕ))]) := by
  induction as generalizing i b d es j with
  | nil => cases ha
  | cons c cs ih =>
    obtain ⟨e, d', he, h⟩ := bind_ok.mp h
    obtain ⟨es', d'', hes, h⟩ := bind_ok.mp h
    obtain ⟨rfl, -⟩ := Prod.mk.inj (pure_ok.mp h)
    cases j with
    | zero =>
      cases ha
      exact ⟨b, d', e, he, rfl⟩
    | succ j =>
      obtain ⟨b', c', e', he', hget⟩ := ih hes ha
      refine ⟨b', c', e', he', ?_⟩
      rw [List.getElem?_cons_succ, hget, Nat.add_right_comm, Nat.add_assoc]

theorem groupColumns_length {gs : List Bytes} {i : ℕ} {b d : Builder} {es : List Expr} (h : groupColumns req i gs b = .ok (es, d)) :
    es.length = gs.length := by
  induction gs generalizing i b d es with
  | nil =>
    obtain ⟨rfl, -⟩ := Prod.mk.inj (pure_ok.mp h)
    rfl
  | cons g gs ih =>
    obtain ⟨e, d', -, h⟩ := bind_ok.mp h
    obtain ⟨es', d'', hes, h⟩ := bind_ok.mp h
    obtain ⟨rfl, -⟩ := Prod.mk.inj (pure_ok.mp h)
    rw [List.length_cons, List.length_cons, ih hes]

/-- The select is over the points' joined rows, and its columns after the bucket's and the groups' are the functions'. -/
structure Compiled (s : Select) : Prop where
  source : s.source = .table "otel_metrics_histogram"
  join : s.arrayJoin = joinText
  columns : ∀ j a fn, req.ast.agg[j]? = some a → fnOf a.fn = some fn →
    s.columns[1 + req.ast.groupBy.length + j]? = some (fn.sql.text ++ [.text (bytes " AS a" ++ decimal (j : ℕ))])

theorem compiled (hmetrics : req.signal = .metrics) (hhistogram : req.histogram = true) {s : Select} {b : Builder}
    (h : seriesBuild lib req {} = .ok (s, b)) : Compiled req s := by
  obtain ⟨c, d, -, h⟩ := bind_ok.mp h
  obtain ⟨gs, d', hgs, h⟩ := bind_ok.mp h
  obtain ⟨as, d'', has, h⟩ := bind_ok.mp h
  obtain ⟨rfl, rfl⟩ := Prod.mk.inj (pure_ok.mp h)
  have hsource : (QueryCompiler.source req).1 = .table "otel_metrics_histogram" := by
    unfold QueryCompiler.source
    rw [hmetrics, hhistogram]
    rfl
  refine ⟨hsource, if_pos ⟨hmetrics, hhistogram⟩, fun j a fn ha hfn => ?_⟩
  · obtain ⟨b', c', e, he, hget⟩ := aggColumns_get lib req has ha
    rw [aggExpr_histogram lib req hmetrics hhistogram hfn] at he
    obtain ⟨rfl, -⟩ := Prod.mk.inj (Except.ok.inj he)
    rw [Nat.zero_add] at hget
    have hplace : 1 + req.ast.groupBy.length + j = gs.length + j + 1 := by
      rw [groupColumns_length req hgs]
      omega
    rw [hplace, List.getElem?_cons_succ, List.getElem?_append_right (Nat.le_add_right _ _), Nat.add_sub_cancel_left]
    exact hget

end

section
variable {α κ : Type} [DecidableEq κ]

/-- For every series of a histogram metric and all points that are read: the values are right if and only if every point has buckets
and in each group returned the rows beyond the points' first ones leave the function as it is. -/
theorem totals_right_iff {ν : Type} (lib : Formats ν) (req : Request ν) (hmetrics : req.signal = .metrics) (hhistogram : req.histogram = true)
    {s : Select} {b : Builder} (h : seriesBuild lib req {} = .ok (s, b)) (points : List (Point α)) (hpoints : ∀ p ∈ points, p.WellFormed)
    (selected : Point α → Bool) (key : Point α → κ) (returned : List κ) :
    Compiled req s ∧ (Right selected key points returned (req.ast.agg.filterMap fun a => fnOf a.fn) ↔
      (∀ p ∈ points, p.bucketCounts ≠ []) ∧ ∀ k ∈ returned, ∀ fn ∈ req.ast.agg.filterMap (fun a => fnOf a.fn),
        fn.Balanced (points.filter (inGroup selected key k))) := by
  refine ⟨compiled lib req hmetrics hhistogram h, ?_⟩
  generalize req.ast.agg.filterMap (fun a => fnOf a.fn) = asked
  have hvalue : (∀ p ∈ points, p.bucketCounts ≠ []) → ∀ k, ∀ fn : Fn,
      fn.sql.eval ((repeated points).filter (inGroup selected key k)) = fn.wanted (points.filter (inGroup selected key k)) ↔
        fn.Balanced (points.filter (inGroup selected key k)) := by
    intro hne k fn
    rw [filter_repeated]
    exact eval_repeated_iff (fun p hp => hne p (List.mem_of_mem_filter hp)) fn
  constructor
  · rintro ⟨rows, hrows, hright⟩
    have hne := ne_nil_of_arrayJoin hrows
    obtain ⟨rows', hrows', hfst⟩ := arrayJoin_rows hpoints hne
    rw [hrows, Option.some_inj] at hrows'
    refine ⟨hne, fun k hk fn hfn => ?_⟩
    have hthis := hright k hk fn hfn
    rw [hrows', hfst] at hthis
    exact (hvalue hne k fn).mp hthis
  · rintro ⟨hne, hbalanced⟩
    obtain ⟨rows, hrows, hfst⟩ := arrayJoin_rows hpoints hne
    refine ⟨rows, hrows, fun k hk fn hfn => ?_⟩
    rw [hfst]
    exact (hvalue hne k fn).mpr (hbalanced k hk fn hfn)

end

/-! ## Points of one bucket and of two -/

/-- `metric:latency | count() sum() avg() max()`, of a histogram -/
def latency : Request PrintedQueries.Digits :=
  let query : AST PrintedQueries.Digits :=
    { filters := [.facet (bytes "metric") .eq (.str (bytes "latency"))]
      agg := [⟨bytes "count", []⟩, ⟨bytes "sum", []⟩, ⟨bytes "avg", []⟩, ⟨bytes "max", []⟩] }
  { hourRequest .metrics query with histogram := true }

def single (count : ℕ) (sum : ℚ) : Point Unit := ⟨(), count, sum, 1, 9, [count], []⟩

/-- Two requests, one up to 5 and one beyond. -/
def double : Point Unit := ⟨(), 2, 10, 1, 9, [1, 1], [5]⟩

theorem latency_compiles : ∃ s b, seriesBuild digitFormats latency {} = .ok (s, b) := by
  have hsome : (seriesBuild digitFormats latency {}).toOption.isSome = true := by decide +kernel
  obtain ⟨⟨s, b⟩, h⟩ := Option.isSome_iff_exists.mp hsome
  exact ⟨s, b, GrammarReadings.toOption_eq_some.mp h⟩

theorem totals_right_single : Right (fun _ => true) (fun _ => ()) [single 3 12, single 1 5] [()] [.count, .sum, .avg, .max] := by
  obtain ⟨s, b, h⟩ := latency_compiles
  have hpoints : ∀ p ∈ [single 3 12, single 1 5], p.WellFormed := by
    intro p hp
    rcases List.mem_pair.mp hp with rfl | rfl <;> exact Or.inl rfl
  have hone : ∀ p ∈ [single 3 12, single 1 5], p.bucketCounts.length = 1 := by
    intro p hp
    rcases List.mem_pair.mp hp with rfl | rfl <;> rfl
  refine (totals_right_iff digitFormats latency rfl rfl h _ hpoints (fun _ => true) (fun _ => ()) [()]).2.mpr ⟨?_, ?_⟩
  · intro p hp hnil
    have hlength := hone p hp
    rw [hnil] at hlength
    cases hlength
  · intro k _ fn hfn
    have hasked : fn ∈ [Fn.count, .sum, .avg, .max] := hfn
    simp only [List.mem_cons, List.not_mem_nil, or_false] at hasked
    rcases hasked with rfl | rfl | rfl | rfl
    · exact fun p hp => Or.inl (hone p (List.mem_of_mem_filter hp))
    · change Column.sum.extra [single 3 12, single 1 5] = 0
      decide +kernel
    · change Column.sum.extra [single 3 12, single 1 5] * Column.count.total [single 3 12, single 1 5] =
        Column.sum.total [single 3 12, single 1 5] * Column.count.extra [single 3 12, single 1 5]
      decide +kernel
    · trivial

/-- The count of a point with two buckets is four, and a point with neither bounds nor counts fails the query. -/
theorem double_wrong : ∃ s b, seriesBuild digitFormats latency {} = .ok (s, b) ∧ Compiled latency s ∧
    ¬Right (fun _ => true) (fun _ => ()) [double] [()] [.count] ∧
    ¬Right (fun _ => true) (fun _ => ()) [single 3 12, ⟨(), 2, 10, 1, 9, [], []⟩] [()] [.count] := by
  obtain ⟨s, b, h⟩ := latency_compiles
  refine ⟨s, b, h, compiled digitFormats latency rfl rfl h, ?_, ?_⟩
  · rintro ⟨rows, hrows, hright⟩
    have hthis := hright () (List.mem_singleton_self _) .count (List.mem_singleton_self _)
    cases hrows
    exact absurd hthis (by decide +kernel)
  · rintro ⟨rows, hrows, -⟩
    cases hrows

end Upstat.HistogramTotals
