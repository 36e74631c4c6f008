import Upstat.CompiledFilters

/-! # What the text of a compiled query depends on

Two requests whose queries have the same shape compile to the same text, where both compile.
What differs between them is in the parameters. -/
namespace Upstat.CompiledShapes

open QueryGrammar ConditionTexts QueryCompiler BuiltQueries CompiledFilters

/-! ## Shapes -/

/-- The names that the compiler knows. -/
def builtInNames : List Bytes :=
  ["service", "env", "host", "level", "status", "region", "status_code", "response_time_ms", "name", "trace.duration_ms",
    "trace.endpoint", "trace.error", "trace.kind", "trace.id", "rum.path", "rum.country", "rum.device", "rum.referrer",
    "rum.event", "rum.name", "metric", "on", "check", "visitor"].map bytes

/-- Which of these a name is, if any, and which of the kinds of other names it is of. -/
def builtIn (f : Bytes) : Option Bytes × List Bool :=
  (builtInNames.find? (· = f), ["@", "metric.", "rum.vital.", "trace."].map (hasPrefix f))

inductive Shape where
  | facet (name : Option Bytes × List Bool) (cmp : Cmp) (numeric special : Bool)
  | op (op : Op) (terms : List Shape)
  | not (term : Shape)
  | text

section
variable {ν : Type} (lib : Formats ν)

/-- The values that the compiler looks at: `error` as the status of logs, and none for a vital. -/
def special (signal : Signal) (f : Bytes) (v : Value ν) : Bool :=
  (signal = .logs ∧ f = bytes "status" ∧ valueText lib v = bytes "error") ∨ (hasPrefix f "rum.vital." ∧ valueText lib v = [])

mutual

def shape (signal : Signal) : Term ν → Shape
  | .facet f cmp v => .facet (builtIn f) cmp (isNum v) (special lib signal f v)
  | .op op ts => .op op (shapes signal ts)
  | .not t => .not (shape signal t)
  | .text _ => .text

def shapes (signal : Signal) : List (Term ν) → List Shape
  | [] => []
  | t :: ts => shape signal t :: shapes signal ts

end

def aggShape (a : Agg) : Bytes × Option (Option Bytes × List Bool) :=
  (a.fn, if a.field = [] then none else some (builtIn a.field))

structure QueryShape where
  filters : List Shape
  agg : List (Bytes × Option (Option Bytes × List Bool))
  groupBy : List (Option Bytes × List Bool)

def queryShape (signal : Signal) (ast : AST ν) : QueryShape where
  filters := shapes lib signal ast.filters
  agg := ast.agg.map aggShape
  groupBy := ast.groupBy.map builtIn

end

theorem find_name (f : Bytes) : builtInNames.find? (· = f) = if f ∈ builtInNames then some f else none := by
  split_ifs with h
  · obtain ⟨g, hg⟩ := Option.isSome_iff_exists.mp (List.find?_isSome.mpr ⟨f, h, by simp⟩ : (builtInNames.find? (· = f)).isSome)
    have heq := List.find?_some hg
    rw [hg, of_decide_eq_true heq]
  · rw [List.find?_eq_none]
    rintro g hg hgf
    exact h (of_decide_eq_true hgf ▸ hg)

theorem builtIn_name {f f' : Bytes} (h : builtIn f = builtIn f') : f = f' ∨ (f ∉ builtInNames ∧ f' ∉ builtInNames) := by
  have h1 : builtInNames.find? (· = f) = builtInNames.find? (· = f') := congrArg Prod.fst h
  rw [find_name, find_name] at h1
  split_ifs at h1 with hf hf' hf'
  · exact Or.inl (Option.some.inj h1)
  · exact Or.inr ⟨hf, hf'⟩

theorem builtIn_eq_iff {f f' n : Bytes} (h : builtIn f = builtIn f') (hn : n ∈ builtInNames) : f = n ↔ f' = n := by
  obtain rfl | ⟨hf, hf'⟩ := builtIn_name h
  · rfl
  · exact ⟨fun he => absurd (he ▸ hn) hf, fun he => absurd (he ▸ hn) hf'⟩

theorem builtIn_prefix {f f' : Bytes} (h : builtIn f = builtIn f') : ∀ p ∈ ["@", "metric.", "rum.vital.", "trace."],
    hasPrefix f p = hasPrefix f' p := by
  have h2 : ["@", "metric.", "rum.vital.", "trace."].map (hasPrefix f) =
    ["@", "metric.", "rum.vital.", "trace."].map (hasPrefix f') := congrArg Prod.snd h
  exact List.map_inj_left.mp h2

/-! ## Steps that differ in values only -/

section
variable {α β : Type}

/-- Where as many parameters are there before both, and both go through, their results are the
same and as many parameters are there after. -/
def Alike (m m' : Build α) : Prop :=
  ∀ b b' a a' c c', b.n = b'.n → m b = .ok (a, c) → m' b' = .ok (a', c') → a = a' ∧ c.n = c'.n

theorem Alike.bind {m m' : Build α} {f f' : α → Build β} (hm : Alike m m') (hf : ∀ a, Alike (f a) (f' a)) :
    Alike (m >>= f) (m' >>= f') := by
  intro b b' r r' c c' hb h h'
  obtain ⟨a, d, ha, h⟩ := bind_ok.mp h
  obtain ⟨a', d', ha', h'⟩ := bind_ok.mp h'
  obtain ⟨rfl, hd⟩ := hm b b' a a' d d' hb ha ha'
  exact hf a d d' r r' c c' hd h h'

theorem Alike.pure (a : α) : Alike (pure a) (pure a) := by
  intro b b' r r' c c' hb h h'
  obtain ⟨rfl, rfl⟩ := Prod.mk.inj (pure_ok.mp h)
  obtain ⟨rfl, rfl⟩ := Prod.mk.inj (pure_ok.mp h')
  exact ⟨rfl, hb⟩

theorem Alike.invalid {message message' : Bytes} : Alike (invalid message : Build α) (invalid message') :=
  fun _ _ _ _ _ _ _ h _ => absurd h invalid_ok

theorem Alike.ite {p : Prop} [Decidable p] {m m' n n' : Build α} (hm : Alike m m') (hn : Alike n n') :
    Alike (if p then m else n) (if p then m' else n') := by
  split_ifs
  · exact hm
  · exact hn

theorem Alike.invalid_left {message : Bytes} {m : Build α} : Alike (QueryCompiler.invalid message) m :=
  fun _ _ _ _ _ _ _ h _ => absurd h invalid_ok

theorem Alike.invalid_right {message : Bytes} {m : Build α} : Alike m (QueryCompiler.invalid message) :=
  fun _ _ _ _ _ _ _ _ h => absurd h invalid_ok

theorem Alike.param (typ : String) (v v' : Bytes) : Alike (param typ v) (param typ v') := by
  intro b b' a a' c c' hb h h'
  obtain ⟨rfl, rfl⟩ := Prod.mk.inj (Except.ok.inj h)
  obtain ⟨rfl, rfl⟩ := Prod.mk.inj (Except.ok.inj h')
  rw [hb]
  exact ⟨rfl, rfl⟩

theorem Alike.str (v v' : Bytes) : Alike (str v) (str v') := .param "String" v v'

theorem Alike.lookup (m : String) (key key' : Bytes) : Alike (lookup m key) (lookup m key') :=
  (Alike.str key key').bind fun _ => .pure _

theorem Alike.equals (e : Expr) (v v' : Bytes) : Alike (equals e v) (equals e v') := (Alike.str v v').bind fun _ => .pure _

theorem Alike.compares (e : Expr) (cmp : Cmp) (v v' : Bytes) : Alike (compares e cmp v) (compares e cmp v') :=
  (Alike.param "Float64" v v').bind fun _ => .pure _

end

/-! ## Facets -/

section
variable {ν : Type} (lib : Formats ν) (req : Request ν)

inductive SamePlace : Place → Place → Prop
  | inMap (m : String) (key key' : Bytes) : SamePlace (.inMap m key) (.inMap m key')
  | here (e : Expr) : SamePlace (.here e) (.here e)
  | nowhere : SamePlace .nowhere .nowhere

theorem facetColumn_builtIn {f : Bytes} (h : f ∉ builtInNames) : facetColumn req f = none := by
  cases hc : facetColumn req f with
  | none => rfl
  | some e =>
    obtain ⟨c, hmem, rfl, -⟩ := facetColumn_mem req hc
    refine absurd (List.mem_map_of_mem ?_) h
    have hnames : ∀ c ∈ facetColumns req, c.1 ∈ ["service", "env", "host", "level", "status", "region", "status_code",
        "response_time_ms", "name", "trace.duration_ms", "trace.endpoint", "trace.error", "trace.kind", "trace.id", "rum.path",
        "rum.country", "rum.device", "rum.referrer", "rum.event", "rum.name", "metric", "on", "check", "visitor"] := by
      simp only [facetColumns, List.forall_mem_cons]
      simp
    exact hnames c hmem

theorem place_same {f f' : Bytes} (h : builtIn f = builtIn f') : SamePlace (place req f) (place req f') := by
  have hp := builtIn_prefix h
  have hcol : facetColumn req f = facetColumn req f' := by
    obtain rfl | ⟨hf, hf'⟩ := builtIn_name h
    · rfl
    · rw [facetColumn_builtIn req hf, facetColumn_builtIn req hf']
  unfold place
  rw [hp "@" (by simp), hp "metric." (by simp), hp "rum.vital." (by simp), hp "trace." (by simp), hcol]
  cases facetColumn req f' with
  | some e =>
    split_ifs
    · exact .inMap _ _ _
    · exact .inMap _ _ _
    · exact .inMap _ _ _
    all_goals exact .here e
  | none =>
    split_ifs
    · exact .inMap _ _ _
    · exact .inMap _ _ _
    · exact .inMap _ _ _
    · exact .here _
    · exact .inMap _ _ _
    · exact .nowhere

theorem facet_alike {f f' : Bytes} (h : builtIn f = builtIn f') : Alike (facet req f) (facet req f') := by
  rw [facet_eq, facet_eq]
  have hp := place_same req h
  generalize place req f = p at hp
  generalize place req f' = p' at hp
  cases hp with
  | inMap m key key' => exact .lookup m key key'
  | here e => exact .pure e
  | nowhere => exact .invalid

/-- Whether a name is a facet of the signal depends on its shape only. -/
theorem facet_error {f f' : Bytes} (h : builtIn f = builtIn f') {b : Builder} (b' : Builder) {e : Bytes} (he : facet req f b = .error e) :
    ∃ e', facet req f' b' = .error e' := by
  rw [facet_eq] at he
  rw [facet_eq]
  have hp := place_same req h
  generalize place req f = p at hp he
  generalize place req f' = p' at hp
  cases hp with
  | inMap m key key' => cases he
  | here d => cases he
  | nowhere => exact ⟨_, rfl⟩

/-! ## Terms -/

theorem vitalTerm_alike (vital vital' : Bytes) (cmp : Cmp) {v v' : Bytes} (h : v = [] ↔ v' = []) :
    Alike (vitalTerm vital cmp v) (vitalTerm vital' cmp v') := by
  refine (Alike.str vital vital').bind fun p => ?_
  simp only [h]
  split_ifs
  · exact .pure _
  · exact (Alike.compares _ cmp v v').bind fun c => .pure _

/-- A request that differs in the query, the org, the range and the checks there are. -/
abbrev other (ast : AST ν) (orgId : Bytes) (from_ to_ : ℤ) (monitors : Bytes → Option Bytes) : Request ν :=
  { req with ast := ast, orgId := orgId, from_ := from_, to_ := to_, monitors := monitors }

variable (ast : AST ν) (orgId : Bytes) (from_ to_ : ℤ) (monitors : Bytes → Option Bytes)

theorem facetTerm_alike {f f' : Bytes} {cmp : Cmp} {v v' : Value ν} (hf : builtIn f = builtIn f') (hnum : isNum v = isNum v')
    (hsp : special lib req.signal f v = special lib req.signal f' v') :
    Alike (facetTerm lib req f cmp v) (facetTerm lib (other req ast orgId from_ to_ monitors) f' cmp v') := by
  have hname {n : Bytes} (hn : n ∈ builtInNames) : f = n ↔ f' = n := builtIn_eq_iff hf hn
  have hp := builtIn_prefix hf "rum.vital." (by simp)
  unfold facetTerm
  simp only [hname (n := bytes "metric") (by decide), hname (n := bytes "on") (by decide), hname (n := bytes "check") (by decide), hp, hnum]
  by_cases hm : f' = bytes "metric"
  · rw [if_pos hm, if_pos hm]
    exact .equals _ _ _
  rw [if_neg hm, if_neg hm]
  by_cases hon : f' = bytes "on"
  · rw [if_pos hon, if_pos hon]
    exact .pure _
  rw [if_neg hon, if_neg hon]
  by_cases hcheck : f' = bytes "check"
  · rw [if_pos hcheck, if_pos hcheck]
    cases req.monitors (valueText lib v) with
    | none => exact .invalid_left
    | some id =>
      cases monitors (valueText lib v') with
      | none => exact .invalid_right
      | some id' => exact .equals _ _ _
  rw [if_neg hcheck, if_neg hcheck]
  cases hvital : hasPrefix f' "rum.vital." with
  | true =>
    rw [if_pos rfl, if_pos rfl]
    refine vitalTerm_alike _ _ cmp ?_
    rw [← hp] at hvital
    have hstatus (g : Bytes) (hg : hasPrefix g "rum.vital." = true) : g ≠ bytes "status" := by
      rintro rfl
      exact absurd hg (by decide)
    simpa [special, hvital, hp ▸ hvital, hstatus f hvital, hstatus f' (hp ▸ hvital)] using hsp
  | false =>
    rw [if_neg (by decide), if_neg (by decide)]
    have hspecial : (f = bytes "status" ∧ req.signal = .logs ∧ valueText lib v = bytes "error") ↔
        (f' = bytes "status" ∧ req.signal = .logs ∧ valueText lib v' = bytes "error") := by
      simp only [special, hvital, hp ▸ hvital, decide_eq_decide] at hsp
      simpa [and_left_comm] using hsp
    refine Alike.bind (facet_alike req hf) fun e => ?_
    simp only [hspecial]
    split_ifs
    · exact .compares _ _ _ _
    · exact .pure _
    · exact .equals _ _ _

theorem text_alike (s s' : Bytes) : Alike (text req s) (text req s') := by
  have hin (column : String) : Alike (textIn column s) (textIn column s') := (Alike.str s s').bind fun _ => .pure _
  unfold text
  cases req.signal with
  | logs | traces | events | metrics => exact hin _
  | checks | other _ => exact .invalid

mutual

theorem term_alike : ∀ t t' : Term ν, shape lib req.signal t = shape lib req.signal t' →
    Alike (QueryCompiler.term lib req t) (QueryCompiler.term lib (other req ast orgId from_ to_ monitors) t')
  | .facet f cmp v, .facet f' cmp' v', h => by
    simp only [shape, Shape.facet.injEq] at h
    obtain ⟨hf, rfl, hnum, hsp⟩ := h
    rw [QueryCompiler.term, QueryCompiler.term]
    exact facetTerm_alike lib req ast orgId from_ to_ monitors hf hnum hsp
  | .op op ts, .op op' ts', h => by
    simp only [shape, Shape.op.injEq] at h
    obtain ⟨rfl, hts⟩ := h
    rw [QueryCompiler.term, QueryCompiler.term]
    exact (terms_alike ts ts' hts).bind fun _ => .pure _
  | .not t, .not t', h => by
    simp only [shape, Shape.not.injEq] at h
    rw [QueryCompiler.term, QueryCompiler.term]
    exact (term_alike t t' h).bind fun _ => .pure _
  | .text s, .text s', _ => by
    rw [QueryCompiler.term, QueryCompiler.term]
    exact text_alike req s s'
  | .facet .., .op .., h | .facet .., .not _, h | .facet .., .text _, h | .op .., .facet .., h | .op .., .not _, h
  | .op .., .text _, h | .not _, .facet .., h | .not _, .op .., h | .not _, .text _, h | .text _, .facet .., h
  | .text _, .op .., h | .text _, .not _, h => by
    simp [shape] at h

theorem terms_alike : ∀ ts ts' : List (Term ν), shapes lib req.signal ts = shapes lib req.signal ts' →
    Alike (terms lib req ts) (terms lib (other req ast orgId from_ to_ monitors) ts')
  | [], [], _ => by
    rw [terms, terms]
    exact .pure _
  | t :: ts, t' :: ts', h => by
    simp only [shapes, List.cons.injEq] at h
    rw [terms, terms]
    exact (term_alike t t' h.1).bind fun _ => (terms_alike ts ts' h.2).bind fun _ => .pure _
  | [], _ :: _, h | _ :: _, [], h => by
    simp [shapes] at h

end

theorem conditions_alike {ts ts' : List (Term ν)} (h : shapes lib req.signal ts = shapes lib req.signal ts') :
    Alike (conditions lib req ts) (conditions lib (other req ast orgId from_ to_ monitors) ts') := by
  induction ts generalizing ts' with
  | nil =>
    cases ts' with
    | nil => exact .pure _
    | cons t' ts' => simp [shapes] at h
  | cons t ts ih =>
    cases ts' with
    | nil => simp [shapes] at h
    | cons t' ts' =>
      simp only [shapes, List.cons.injEq] at h
      exact (term_alike lib req ast orgId from_ to_ monitors t t' h.1).bind fun _ => (ih h.2).bind fun _ => .pure _

theorem where_alike (ts : String) (h : shapes lib req.signal req.ast.filters = shapes lib req.signal ast.filters) :
    Alike (where_ lib req ts) (where_ lib (other req ast orgId from_ to_ monitors) ts) :=
  (Alike.str _ _).bind fun _ => (Alike.param _ _ _).bind fun _ => (Alike.param _ _ _).bind fun _ =>
    (conditions_alike lib req ast orgId from_ to_ monitors h).bind fun _ => .pure _

/-! ## Groups and aggregations -/

theorem groupExpr_alike {g g' : Bytes} (h : builtIn g = builtIn g') : Alike (groupExpr req g) (groupExpr req g') := by
  intro b b' a a' c c' hb hg hg'
  unfold groupExpr at hg hg'
  cases hf : facet req g b with
  | ok r =>
    cases hf' : facet req g' b' with
    | ok r' =>
      rw [hf] at hg
      rw [hf'] at hg'
      exact facet_alike req h b b' a a' c c' hb (hf.trans hg) (hf'.trans hg')
    | error e =>
      obtain ⟨e', he'⟩ := facet_error req h.symm b hf'
      exact absurd (hf.symm.trans he') (by simp)
  | error e =>
    obtain ⟨e', he'⟩ := facet_error req h b' hf
    rw [hf] at hg
    rw [he'] at hg'
    revert hg hg'
    cases req.signal with
    | checks | other _ => exact fun hg => absurd hg (by simp)
    | logs | traces | metrics | events => exact fun hg hg' => Alike.lookup _ _ _ b b' a a' c c' hb hg hg'

theorem groupColumns_alike {gs gs' : List Bytes} (h : gs.map builtIn = gs'.map builtIn) :
    ∀ i, Alike (groupColumns req i gs) (groupColumns req i gs') := by
  induction gs generalizing gs' with
  | nil =>
    cases gs' with
    | nil => exact fun i => .pure _
    | cons g' gs' => simp at h
  | cons g gs ih =>
    cases gs' with
    | nil => simp at h
    | cons g' gs' =>
      rw [List.map_cons, List.map_cons, List.cons.injEq] at h
      exact fun i => (groupExpr_alike req h.1).bind fun _ => (ih h.2 (i + 1)).bind fun _ => .pure _

theorem aggExpr_alike {a a' : Agg} (h : aggShape a = aggShape a') : Alike (aggExpr lib req a) (aggExpr lib req a') := by
  obtain ⟨fn, field⟩ := a
  obtain ⟨fn', field'⟩ := a'
  obtain ⟨rfl, hfield⟩ : fn = fn' ∧ (if field = [] then none else some (builtIn field)) =
    if field' = [] then none else some (builtIn field') := Prod.mk.inj h
  have hof : Alike (aggOf req ⟨fn, field⟩) (aggOf req ⟨fn, field'⟩) := by
    unfold aggOf
    by_cases he : field = []
    · have he' : field' = [] := by
        by_contra hne
        simp [he, hne] at hfield
      subst he
      subst he'
      exact .pure _
    · have he' : field' ≠ [] := by
        rintro rfl
        simp [he] at hfield
      have hb : builtIn field = builtIn field' := by simpa [he, he'] using hfield
      simp only [ne_eq, he, he', not_false_eq_true, if_true, builtIn_eq_iff hb (n := bytes "visitor") (by decide)]
      split_ifs
      · exact .pure _
      · exact facet_alike req hb
  unfold aggExpr
  refine .ite ?_ (hof.bind fun e => ?_)
  · unfold metricAgg
    refine .ite .invalid (.ite (.pure _) (.ite (.pure _) (.ite (.pure _) (.pure _))))
  · refine .ite (.pure _) (.ite (.pure _) (.ite (.pure _) (.ite (.pure _) (.ite (.pure _) .invalid))))

theorem aggColumns_alike {as as' : List Agg} (h : as.map aggShape = as'.map aggShape) :
    ∀ i, Alike (aggColumns lib req i as) (aggColumns lib req i as') := by
  induction as generalizing as' with
  | nil =>
    cases as' with
    | nil => exact fun i => .pure _
    | cons a' as' => simp at h
  | cons a as ih =>
    cases as' with
    | nil => simp at h
    | cons a' as' =>
      rw [List.map_cons, List.map_cons, List.cons.injEq] at h
      exact fun i => (aggExpr_alike lib req h.1).bind fun _ => (ih h.2 (i + 1)).bind fun _ => .pure _

/-! ## Whole queries -/

theorem groupColumns_other (gs : List Bytes) : ∀ i,
    groupColumns (other req ast orgId from_ to_ monitors) i gs = groupColumns req i gs := by
  induction gs with
  | nil => exact fun i => rfl
  | cons g gs ih =>
    intro i
    rw [groupColumns, groupColumns, ih]
    rfl

theorem aggColumns_other (as : List Agg) : ∀ i,
    aggColumns lib (other req ast orgId from_ to_ monitors) i as = aggColumns lib req i as := by
  induction as with
  | nil => exact fun i => rfl
  | cons a as ih =>
    intro i
    rw [aggColumns, aggColumns, ih]
    rfl

theorem seriesBuild_alike (h : queryShape lib req.signal req.ast = queryShape lib req.signal ast) :
    Alike (seriesBuild lib req) (seriesBuild lib (other req ast orgId from_ to_ monitors)) := by
  obtain ⟨hfilters, hagg, hgroup⟩ := QueryShape.mk.inj h
  have hlen : req.ast.groupBy.length = ast.groupBy.length := by
    have := congrArg List.length hgroup
    simpa using this
  have hgroups : Alike (groupColumns req 0 req.ast.groupBy) (groupColumns (other req ast orgId from_ to_ monitors) 0 ast.groupBy) := by
    rw [groupColumns_other req ast orgId from_ to_ monitors]
    exact groupColumns_alike req hgroup 0
  have haggs : Alike (aggColumns lib req 0 req.ast.agg) (aggColumns lib (other req ast orgId from_ to_ monitors) 0 ast.agg) := by
    rw [aggColumns_other lib req ast orgId from_ to_ monitors]
    exact aggColumns_alike lib req hagg 0
  refine (where_alike lib req ast orgId from_ to_ monitors _ hfilters).bind fun _ => hgroups.bind fun _ => haggs.bind fun _ => ?_
  dsimp only
  rw [hlen]
  exact .pure _

theorem rowsBuild_alike (h : queryShape lib req.signal req.ast = queryShape lib req.signal ast) :
    Alike (rowsBuild lib req) (rowsBuild lib (other req ast orgId from_ to_ monitors)) := by
  have hrows : Alike (rowColumns req) (rowColumns req) := by
    unfold rowColumns
    cases req.signal with
    | metrics =>
      dsimp only
      split_ifs
      · exact .invalid
      · exact .pure _
    | logs | traces | checks | events | other _ => exact .pure _
  exact (where_alike lib req ast orgId from_ to_ monitors _ (QueryShape.mk.inj h).1).bind fun _ => hrows.bind fun _ => .pure _

/-- The texts of two requests' series, rows and WHERE clauses, where both have them. -/
structure SameTexts (req req' : Request ν) : Prop where
  series : ∀ s s', series lib req = .ok s → series lib req' = .ok s' → s.sql = s'.sql
  rows : ∀ s s', rows lib req = .ok s → rows lib req' = .ok s' → s.sql = s'.sql
  where_ : ∀ c c' params params', filterClause lib req = .ok (c, params) → filterClause lib req' = .ok (c', params') →
    sqlText (conditionExpr c) = sqlText (conditionExpr c')

theorem sameTexts (h : queryShape lib req.signal req.ast = queryShape lib req.signal ast) :
    SameTexts lib req (other req ast orgId from_ to_ monitors) where
  series s s' hs hs' := by
    obtain ⟨b, hb, -⟩ := series_ok lib req hs
    obtain ⟨b', hb', -⟩ := series_ok lib _ hs'
    rw [Query.sql, Query.sql, (seriesBuild_alike lib req ast orgId from_ to_ monitors h _ _ _ _ _ _ rfl hb hb').1]
  rows s s' hs hs' := by
    obtain ⟨b, hb, -⟩ := rows_ok lib req hs
    obtain ⟨b', hb', -⟩ := rows_ok lib _ hs'
    rw [Query.sql, Query.sql, (rowsBuild_alike lib req ast orgId from_ to_ monitors h _ _ _ _ _ _ rfl hb hb').1]
  where_ c c' params params' hc hc' := by
    obtain ⟨b, hb, -⟩ := filterClause_ok lib req hc
    obtain ⟨b', hb', -⟩ := filterClause_ok lib _ hc'
    rw [(where_alike lib req ast orgId from_ to_ monitors _ (QueryShape.mk.inj h).1 _ _ _ _ _ _ rfl hb hb').1]

/-! ## Placeholders and the org -/

/-- Every placeholder is of a parameter that has one value. -/
def EachBound (e : Expr) (params : List (ℕ × Bytes)) : Prop := ∀ n typ, .param n typ ∈ e → ∃! v, (n, v) ∈ params

/-- The condition on the org is a conjunct of the filter, before anything that the query says,
and the org is the request's. -/
structure OrgHeld (c : Condition) (params : List (ℕ × Bytes)) : Prop where
  first : (atoms c).head? = some inOrg
  org : (1, req.orgId) ∈ params
  conjunct : ∀ v : ℕ → Bool, ∃ rest, eval v (number 0 c) = some (v 0 && rest)

theorem where_held {ts : String} {c : Condition} {b : Builder} (hg : allGrouped req.ast.filters = true)
    (h : QueryCompiler.where_ lib req ts {} = .ok (c, b)) {params : List (ℕ × Bytes)} (hp : b.params <+: params) :
    OrgHeld req c params := by
  obtain ⟨⟨es, hes⟩, heval⟩ := where_meaning lib req hg h
  refine ⟨by rw [hes]; rfl, ((baseParams_first lib req h).trans hp).subset (by simp [baseParams]), fun v => ?_⟩
  obtain ⟨n, hn⟩ : ∃ n, (base req ts).length = n + 1 := ⟨_, rfl⟩
  refine ⟨combine true ((List.range' 1 n).map v) && written lib v (base req ts).length req.ast.filters, ?_⟩
  rw [heval v, hn, List.range_eq_range', List.range'_succ, List.map_cons, combine_cons, cond_true, Bool.and_assoc]

theorem eachBound {e : Expr} {b : Builder} (hb : Keyed b) (hw : Within b.n e) : EachBound e b.params := fun n typ hn =>
  hb.bound (hw n typ hn).1 (hw n typ hn).2

theorem seriesBuild_held {s : Select} {b : Builder} (hg : allGrouped req.ast.filters = true) (h : seriesBuild lib req {} = .ok (s, b)) :
    EachBound s.expr b.params ∧ OrgHeld req s.filter b.params := by
  obtain ⟨hb, -, hw⟩ := numbered_seriesBuild lib req {} s b rfl (within_nil _) h
  refine ⟨eachBound hb hw, ?_⟩
  obtain ⟨c, d, hc, h⟩ := bind_ok.mp h
  obtain ⟨hd, -, hin⟩ := numbered_where lib req [] _ {} c d rfl (within_nil _) hc
  obtain ⟨gs, d', hgs, h⟩ := bind_ok.mp h
  obtain ⟨hd', hp, hin'⟩ := numbered_groupColumns req _ _ 0 _ _ _ hd hin hgs
  obtain ⟨as, d'', has, h⟩ := bind_ok.mp h
  obtain ⟨-, hp', -⟩ := numbered_aggColumns lib req _ _ 0 _ _ _ hd' hin' has
  obtain ⟨rfl, rfl⟩ := Prod.mk.inj (pure_ok.mp h)
  exact where_held lib req hg hc (hp.trans hp')

theorem rowsBuild_held {s : Select} {b : Builder} (hg : allGrouped req.ast.filters = true) (h : rowsBuild lib req {} = .ok (s, b)) :
    EachBound s.expr b.params ∧ OrgHeld req s.filter b.params := by
  obtain ⟨hb, -, hw⟩ := numbered_rowsBuild lib req {} s b rfl (within_nil _) h
  refine ⟨eachBound hb hw, ?_⟩
  obtain ⟨c, d, hc, h⟩ := bind_ok.mp h
  obtain ⟨hd, -, hin⟩ := numbered_where lib req [] _ {} c d rfl (within_nil _) hc
  obtain ⟨cols, d', hcols, h⟩ := bind_ok.mp h
  obtain ⟨-, hp, -⟩ := numbered_rowColumns req _ _ _ _ hd hin hcols
  obtain ⟨rfl, rfl⟩ := Prod.mk.inj (pure_ok.mp h)
  exact where_held lib req hg hc hp

/-- Requests that are of one signal, have their range in one tier and ask for one step and limit. -/
structure Comparable (req req' : Request ν) : Prop where
  signal : req'.signal = req.signal
  tier : req'.tier = req.tier
  histogram : req'.histogram = req.histogram
  step : req'.step = req.step
  limit : req'.limit = req.limit

/-- The text of a query depends on its shape, every placeholder in it has its argument, and the
condition on the org stands before all that the query says. -/
theorem compiled_by_shape {q : Bytes} (hq : parse lib.toLibrary q = .ok req.ast) :
    (∀ q' req', parse lib.toLibrary q' = .ok req'.ast → Comparable req req' →
      queryShape lib req.signal req.ast = queryShape lib req.signal req'.ast → SameTexts lib req req') ∧
    (∀ s, QueryCompiler.series lib req = .ok s ∨ QueryCompiler.rows lib req = .ok s →
      EachBound s.select.expr s.params ∧ OrgHeld req s.select.filter s.params) ∧
    ∀ c params, filterClause lib req = .ok (c, params) → EachBound (conditionExpr c) params ∧ OrgHeld req c params := by
  have hg := parse_grouped hq
  refine ⟨fun q' req' _ hc h => ?_, fun s hs => ?_, fun c params h => ?_⟩
  · obtain ⟨ast, signal, orgId, from_, to_, step, tier, monitors, histogram, limit⟩ := req'
    obtain ⟨rfl, rfl, rfl, rfl, rfl⟩ := hc
    exact sameTexts lib req ast orgId from_ to_ monitors h
  · rcases hs with hs | hs
    · obtain ⟨b, hb, hp⟩ := series_ok lib req hs
      rw [hp]
      exact seriesBuild_held lib req hg hb
    · obtain ⟨b, hb, hp⟩ := rows_ok lib req hs
      rw [hp]
      exact rowsBuild_held lib req hg hb
  · obtain ⟨b, hb, rfl⟩ := filterClause_ok lib req h
    obtain ⟨hk, -, hw⟩ := numbered_where lib req [] _ {} c b rfl (within_nil _) hb
    exact ⟨eachBound hk hw, where_held lib req hg hb List.prefix_rfl⟩

end

/-- A query and one with another service, another attribute and another tag. -/
theorem hostile_service_same_text :
    let plainQuery : AST PrintedQueries.Digits :=
      { filters := [.facet (bytes "service") .eq (.str (bytes "web")), .facet (bytes "@team") .eq (.str (bytes "a"))],
        agg := [⟨bytes "count", []⟩], groupBy := [bytes "tier"] }
    let hostileQuery : AST PrintedQueries.Digits :=
      { filters := [.facet (bytes "service") .eq (.str (bytes "' OR 1")), .facet (bytes "@OR") .eq (.str (bytes ")"))],
        agg := [⟨bytes "count", []⟩], groupBy := [bytes "zone"] }
    SameTexts digitFormats (hourRequest .logs plainQuery) (hourRequest .logs hostileQuery) ∧
      ∃ s, QueryCompiler.series digitFormats (hourRequest .logs hostileQuery) = .ok s ∧
        EachBound s.select.expr s.params ∧ OrgHeld (hourRequest .logs hostileQuery) s.select.filter s.params := by
  intro plainQuery hostileQuery
  have hplain : parse digitFormats.toLibrary (bytes "service:web @team:a | count() by tier") = .ok plainQuery := by decide +kernel
  have hhostile : parse digitFormats.toLibrary (bytes "service:\"' OR 1\" @OR:\")\" | count() by zone") = .ok hostileQuery := by
    decide +kernel
  obtain ⟨s, hs⟩ : ∃ s, QueryCompiler.series digitFormats (hourRequest .logs hostileQuery) = .ok s := by
    have hok : (QueryCompiler.series digitFormats (hourRequest .logs hostileQuery)).toOption.isSome = true := by decide +kernel
    exact (Option.isSome_iff_exists.mp hok).imp fun s hs => GrammarReadings.toOption_eq_some.mp hs
  have hshape : queryShape digitFormats .logs plainQuery = queryShape digitFormats .logs hostileQuery := by
    simp only [queryShape, shapes, shape, plainQuery, hostileQuery, QueryShape.mk.injEq, List.cons.injEq, Shape.facet.injEq]
    decide +kernel
  exact ⟨(compiled_by_shape digitFormats (hourRequest .logs plainQuery) hplain).1 _ (hourRequest .logs hostileQuery) hhostile
    ⟨rfl, rfl, rfl, rfl, rfl⟩ hshape, s, hs,
    (compiled_by_shape digitFormats (hourRequest .logs hostileQuery) hhostile).2.1 s (Or.inl hs)⟩

end Upstat.CompiledShapes
