import Mathlib.Data.List.Nodup
import Upstat.QueryCompiler

/-! # What the builder's steps do

Parameters are only added, numbered one after the other, and every placeholder is of one that
is there. -/
namespace Upstat.BuiltQueries

open QueryGrammar ConditionTexts QueryCompiler

/-! ## Steps one after the other -/

section
variable {α β : Type}

theorem bind_ok {m : Build α} {f : α → Build β} {b : Builder} {r : β × Builder} :
    (m >>= f) b = .ok r ↔ ∃ a c, m b = .ok (a, c) ∧ f a c = .ok r := by
  constructor
  · intro h
    cases hm : m b with
    | error e => simp [bind, StateT.bind, Except.bind, hm] at h
    | ok p => exact ⟨p.1, p.2, rfl, by simpa [bind, StateT.bind, Except.bind, hm] using h⟩
  · rintro ⟨a, c, hm, hf⟩
    simpa [bind, StateT.bind, Except.bind, hm] using hf

theorem pure_ok {a : α} {b : Builder} {r : α × Builder} : (pure a : Build α) b = .ok r ↔ (a, b) = r :=
  ⟨fun h => Except.ok.inj h, fun h => congrArg Except.ok h⟩

theorem invalid_ok {message : Bytes} {b : Builder} {r : α × Builder} : ¬(invalid message : Build α) b = .ok r := by
  simp [invalid]

/-- The parameters are numbered from 1 to `n`. -/
def Keyed (b : Builder) : Prop := b.params.map Prod.fst = List.range' 1 b.n

theorem Keyed.length {b : Builder} (h : Keyed b) : b.params.length = b.n := by
  have := congrArg List.length h
  simpa using this

theorem Keyed.assign {b : Builder} (h : Keyed b) (v : Bytes) : assign b.params (b.n + 1) v = b.params ++ [(b.n + 1, v)] := by
  rw [QueryCompiler.assign, List.filter_eq_self.mpr]
  intro p hp
  have hk : p.1 ∈ List.range' 1 b.n := by
    rw [← h]
    exact List.mem_map_of_mem hp
  obtain ⟨-, hlt⟩ := List.mem_range'_1.mp hk
  simp only [decide_not, Bool.not_eq_eq_eq_not, Bool.not_true, decide_eq_false_iff_not]
  omega

theorem Keyed.bound {b : Builder} (h : Keyed b) {n : ℕ} (h1 : 1 ≤ n) (hn : n ≤ b.n) : ∃! v, (n, v) ∈ b.params := by
  have hk : n ∈ b.params.map Prod.fst := by
    rw [h]
    exact List.mem_range'_1.mpr ⟨h1, by omega⟩
  obtain ⟨⟨m, v⟩, hv, rfl⟩ := List.mem_map.mp hk
  refine ⟨v, hv, fun w hw => ?_⟩
  have hnd : (b.params.map Prod.fst).Nodup := by
    rw [h]
    exact List.nodup_range'
  have := List.inj_on_of_nodup_map hnd hw hv rfl
  exact (Prod.mk.inj this).2

/-- Every placeholder is of one of the first `n` parameters. -/
def Within (n : ℕ) (e : Expr) : Prop := ∀ k typ, .param k typ ∈ e → 1 ≤ k ∧ k ≤ n

theorem Within.mono {m n : ℕ} {e : Expr} (h : Within m e) (hmn : m ≤ n) : Within n e := fun k typ hk =>
  ⟨(h k typ hk).1, (h k typ hk).2.trans hmn⟩

theorem Within.append {n : ℕ} {d e : Expr} (h : Within n d) (h' : Within n e) : Within n (d ++ e) := fun k typ hk =>
  (List.mem_append.mp hk).elim (h k typ) (h' k typ)

/-- The placeholders of `d` are placeholders of `e`. -/
def Holds (d e : Expr) : Prop := ∀ k typ, .param k typ ∈ d → .param k typ ∈ e

theorem Within.of_holds {n : ℕ} {d e : Expr} (h : Within n e) (hde : Holds d e) : Within n d := fun k typ hk =>
  h k typ (hde k typ hk)

/-- After what is in `known` the steps add parameters, and the pieces of their result have
placeholders of what is there then. -/
def Numbered (known : Expr) (pieces : α → Expr) (m : Build α) : Prop :=
  ∀ b a c, Keyed b → Within b.n known → m b = .ok (a, c) → Keyed c ∧ b.params <+: c.params ∧ Within c.n (pieces a)

theorem Numbered.le {b c : Builder} (hb : Keyed b) (hc : Keyed c) (h : b.params <+: c.params) : b.n ≤ c.n := by
  rw [← hb.length, ← hc.length]
  exact h.length_le

theorem Numbered.bind {known : Expr} {p : α → Expr} {q : β → Expr} {m : Build α} {f : α → Build β} (hm : Numbered known p m)
    (hf : ∀ a, Numbered (known ++ p a) q (f a)) : Numbered known q (m >>= f) := by
  intro b a c hb hk h
  obtain ⟨x, d, hx, hrest⟩ := bind_ok.mp h
  obtain ⟨hd, hbd, hp⟩ := hm b x d hb hk hx
  obtain ⟨hc, hdc, hq⟩ := hf x d a c hd ((hk.mono (Numbered.le hb hd hbd)).append hp) hrest
  exact ⟨hc, hbd.trans hdc, hq⟩

theorem Numbered.pure {known : Expr} {p : α → Expr} {a : α} (h : Holds (p a) known) : Numbered known p (pure a : Build α) := by
  intro b x c hb hk hx
  obtain ⟨rfl, rfl⟩ := Prod.mk.inj (pure_ok.mp hx)
  exact ⟨hb, List.prefix_rfl, hk.of_holds h⟩

theorem Numbered.invalid {known : Expr} {p : α → Expr} {message : Bytes} : Numbered known p (invalid message : Build α) :=
  fun _ _ _ _ _ h => absurd h invalid_ok

theorem Numbered.ite {c : Prop} [Decidable c] {known : Expr} {p : α → Expr} {m m' : Build α} (h : Numbered known p m)
    (h' : Numbered known p m') : Numbered known p (if c then m else m') := by
  split
  · exact h
  · exact h'

theorem Numbered.param (known : Expr) (typ : String) (v : Bytes) : Numbered known id (param typ v) := by
  intro b e c hb _ h
  obtain ⟨rfl, rfl⟩ := Prod.mk.inj (Except.ok.inj h)
  refine ⟨?_, ?_, ?_⟩
  · rw [Keyed, hb.assign, List.map_append, hb, List.range'_1_concat]
    simp [Nat.add_comm]
  · rw [hb.assign]
    exact List.prefix_append _ _
  · intro k typ' hk
    obtain ⟨rfl, -⟩ : k = b.n + 1 ∧ typ' = typ := by simpa using hk
    exact ⟨by omega, le_rfl⟩

theorem Numbered.str (known : Expr) (v : Bytes) : Numbered known id (str v) := .param known "String" v

end

/-! ## Facets and terms -/

/-- Nothing but text and columns. -/
def Plain (e : Expr) : Prop := ∀ k typ, .param k typ ∉ e

theorem Plain.holds {d : Expr} (h : Plain d) (e : Expr) : Holds d e := fun k typ hk => absurd hk (h k typ)

theorem plain_lit (s : String) : Plain [lit s] := by simp [Plain, lit]

theorem plain_column (name : String) : Plain [.column name] := by simp [Plain]

theorem Plain.append {d e : Expr} (hd : Plain d) (he : Plain e) : Plain (d ++ e) := fun k typ hk =>
  (List.mem_append.mp hk).elim (hd k typ) (he k typ)

theorem Plain.call (fn : Bytes) {e : Expr} (he : Plain e) : Plain (call fn e) := by
  have hopen : Plain [.text (fn ++ bytes "(")] := by simp [Plain]
  exact (hopen.append he).append (plain_lit ")")

theorem Plain.toFloat {e : Expr} (he : Plain e) : Plain (toFloat e) := ((plain_lit "toFloat64(").append he).append (plain_lit ")")

theorem plain_average (a b : String) : Plain (average a b) :=
  ((((plain_column a).call _).append (plain_lit " / nullIf(")).append ((plain_column b).call _)).append (plain_lit ", 0)")

theorem Plain.ite {c : Prop} [Decidable c] {d e : Expr} (hd : Plain d) (he : Plain e) : Plain (if c then d else e) := by
  split
  · exact hd
  · exact he

theorem numbered_lookup (known : Expr) (m : String) (key : Bytes) : Numbered known id (lookup m key) := by
  refine (Numbered.str known key).bind fun p => Numbered.pure ?_
  intro k typ hk
  exact List.mem_append_right _ (by simpa [lit] using hk)

/-- Where a facet is found: in a map, in columns, or not at all. -/
inductive Place where
  | inMap (m : String) (key : Bytes)
  | here (e : Expr)
  | nowhere

section
variable {ν : Type} (lib : Formats ν) (req : Request ν)

def place (f : Bytes) : Place :=
  if hasPrefix f "@" then .inMap (attrMap req) (if req.signal = .events then bytes "dim." ++ f.drop 1 else f.drop 1)
  else if hasPrefix f "metric." ∧ req.signal = .metrics then .inMap "Attributes" (f.drop 7)
  else
    (facetColumn req f).elim
      (if hasPrefix f "rum.vital." ∧ req.signal = .events then .here [.column "value"]
      else if hasPrefix f "trace." ∧ req.signal = .traces then .inMap "SpanAttributes" (f.drop 6)
      else .nowhere) .here

def Place.build (f : Bytes) : Place → Build Expr
  | .inMap m key => lookup m key
  | .here e => pure e
  | .nowhere => invalid (bytes "facet " ++ f ++ bytes " does not apply to " ++ req.signal.name)

theorem facet_eq (f : Bytes) : facet req f = (place req f).build req f := by
  unfold facet place
  cases facetColumn req f with
  | some e => split_ifs <;> rfl
  | none => split_ifs <;> rfl

theorem facetColumn_mem {f : Bytes} {e : Expr} (h : facetColumn req f = some e) :
    ∃ c ∈ facetColumns req, bytes c.1 = f ∧ req.signal ∈ c.2.1 ∧ c.2.2 = e := by
  obtain ⟨c, hc, rfl⟩ := Option.map_eq_some_iff.mp h
  have := List.find?_some hc
  exact ⟨c, List.mem_of_find?_eq_some hc, (of_decide_eq_true this).1, (of_decide_eq_true this).2, rfl⟩

theorem facetColumn_plain {f : Bytes} {e : Expr} (h : facetColumn req f = some e) : Plain e := by
  have hres (key : String) : Plain (resource req key) := by
    unfold resource
    split_ifs <;> simp [Plain, lit]
  have hall : ∀ c ∈ facetColumns req, Plain c.2.2 := by
    simp only [facetColumns, List.forall_mem_cons, hres]
    simp [Plain, lit, duration]
  obtain ⟨c, hc, -, -, rfl⟩ := facetColumn_mem req h
  exact hall c hc

theorem place_plain {f : Bytes} {e : Expr} (h : place req f = .here e) : Plain e := by
  unfold place at h
  cases hc : facetColumn req f with
  | some d =>
    rw [hc] at h
    split_ifs at h
    all_goals
      obtain rfl := Place.here.inj h
      exact facetColumn_plain req hc
  | none =>
    rw [hc] at h
    simp only [Option.elim_none] at h
    split_ifs at h
    simp [← Place.here.inj h, Plain]

theorem numbered_facet (known : Expr) (f : Bytes) : Numbered known id (facet req f) := by
  rw [facet_eq]
  cases hp : place req f with
  | inMap m key => exact numbered_lookup known m key
  | here e => exact .pure ((place_plain req hp).holds known)
  | nowhere => exact .invalid

theorem numeric_holds (e : Expr) : Holds (numeric e) e := by
  intro k typ hk
  unfold numeric at hk
  split_ifs at hk
  · exact hk
  · simpa [lit] using hk

theorem numbered_equals (known e : Expr) (v : Bytes) (he : Holds e known) : Numbered known conditionExpr (equals e v) := by
  refine (Numbered.str known v).bind fun p => Numbered.pure ?_
  intro k typ hk
  have hk : Piece.param k typ ∈ e ∨ Piece.param k typ ∈ p := by simpa [conditionExpr, tokenExpr, lit] using hk
  exact List.mem_append.mpr (hk.imp_left (he k typ))

theorem numbered_compares (known e : Expr) (cmp : Cmp) (v : Bytes) (he : Holds e known) :
    Numbered known conditionExpr (compares e cmp v) := by
  refine (Numbered.param known "Float64" v).bind fun p => Numbered.pure ?_
  intro k typ hk
  have hk : Piece.param k typ ∈ e ∨ Piece.param k typ ∈ p := by simpa [conditionExpr, tokenExpr] using hk
  exact List.mem_append.mpr (hk.imp_left (he k typ))

theorem numbered_vitalTerm (known : Expr) (vital : Bytes) (cmp : Cmp) (v : Bytes) :
    Numbered known conditionExpr (vitalTerm vital cmp v) := by
  refine (Numbered.str known vital).bind fun p => ?_
  split_ifs
  · refine .pure fun k typ hk => List.mem_append_right _ ?_
    simpa [conditionExpr, tokenExpr, lit] using hk
  · refine (numbered_compares _ _ cmp v ?_).bind fun c => .pure fun k typ hk => ?_
    · exact fun k typ hk => absurd hk (by simp)
    · have hk : Piece.param k typ ∈ p ∨ Piece.param k typ ∈ conditionExpr c := by
        simpa [conditionExpr, tokenExpr, lit] using hk
      simp only [List.mem_append]
      exact hk.imp_left Or.inr

theorem numbered_facetTerm (known : Expr) (f : Bytes) (cmp : Cmp) (v : Value ν) :
    Numbered known conditionExpr (facetTerm lib req f cmp v) := by
  have hcol (s : String) : Holds [.column s] known := fun k typ hk => absurd hk (by simp)
  unfold facetTerm
  split_ifs
  · exact numbered_equals known _ _ (hcol _)
  · exact .pure fun k typ hk => absurd hk (by simp [conditionExpr, tokenExpr, lit])
  · cases req.monitors (valueText lib v) with
    | some id => exact numbered_equals known _ _ (hcol _)
    | none => exact .invalid
  · exact numbered_vitalTerm known _ _ _
  · refine (numbered_facet req known f).bind fun e => numbered_compares _ _ cmp _ fun k typ hk => ?_
    exact List.mem_append_right _ (numeric_holds e k typ hk)
  · exact (numbered_facet req known f).bind fun e => .pure fun k typ hk => absurd hk (by simp [conditionExpr, tokenExpr, lit])
  · refine (numbered_facet req known f).bind fun e => numbered_equals _ _ _ fun k typ hk => ?_
    exact List.mem_append_right _ (by simpa [lit] using hk)

theorem numbered_textIn (known : Expr) (column : String) (s : Bytes) : Numbered known conditionExpr (textIn column s) := by
  refine (Numbered.str known s).bind fun p => Numbered.pure fun k typ hk => List.mem_append_right _ ?_
  simpa [conditionExpr, tokenExpr, lit] using hk

theorem numbered_text (known : Expr) (s : Bytes) : Numbered known conditionExpr (text req s) := by
  unfold text
  split
  · exact numbered_textIn known _ s
  · exact numbered_textIn known _ s
  · exact numbered_textIn known _ s
  · exact numbered_textIn known _ s
  · exact .invalid
  · exact .invalid

theorem conditionExpr_append (c d : Condition) : conditionExpr (c ++ d) = conditionExpr c ++ conditionExpr d :=
  List.flatMap_append

theorem holds_parens (c : Condition) : Holds (conditionExpr (parens c)) (conditionExpr c) := by
  intro k typ hk
  simpa [parens, conditionExpr, tokenExpr, lit] using hk

/-- The pieces of several conditions. -/
def allPieces (cs : List Condition) : Expr := cs.flatMap conditionExpr

theorem holds_join (conj : Bool) (cs : List Condition) : Holds (conditionExpr (join conj cs)) (allPieces cs) := by
  induction cs with
  | nil => exact fun k typ hk => hk
  | cons c cs ih =>
    intro k typ hk
    rw [allPieces, List.flatMap_cons]
    cases cs with
    | nil => exact List.mem_append_left _ hk
    | cons d cs =>
      rw [join, conditionExpr_append] at hk
      rcases List.mem_append.mp hk with hk | hk
      · exact List.mem_append_left _ hk
      · refine List.mem_append_right _ (ih k typ ?_)
        have hk : Piece.param k typ ∈ tokenExpr (if conj then .and else .or) ∨ Piece.param k typ ∈ conditionExpr (join conj (d :: cs)) := by
          simpa [conditionExpr] using hk
        cases conj <;> simpa [tokenExpr, lit] using hk

mutual

theorem numbered_term (known : Expr) : ∀ t : Term ν, Numbered known conditionExpr (term lib req t)
  | .not t => by
    unfold QueryCompiler.term
    refine (numbered_term known t).bind fun c => .pure fun k typ hk => List.mem_append_right _ (holds_parens c k typ ?_)
    simpa [conditionExpr, tokenExpr, lit] using hk
  | .op op ts => by
    unfold QueryCompiler.term
    exact (numbered_terms known ts).bind fun cs => .pure fun k typ hk => List.mem_append_right _ (holds_join _ cs k typ hk)
  | .text s => by
    unfold QueryCompiler.term
    exact numbered_text req known s
  | .facet f cmp v => by
    unfold QueryCompiler.term
    exact numbered_facetTerm lib req known f cmp v

theorem numbered_terms (known : Expr) : ∀ ts : List (Term ν), Numbered known allPieces (terms lib req ts)
  | [] => by
    unfold terms
    exact .pure fun k typ hk => absurd hk (by simp [allPieces])
  | t :: ts => by
    unfold terms
    refine (numbered_term known t).bind fun c => (numbered_terms _ ts).bind fun cs => .pure fun k typ hk => ?_
    rw [allPieces, List.flatMap_cons] at hk
    rcases List.mem_append.mp hk with hk | hk
    · exact List.mem_append_left _ (List.mem_append_right _ (holds_parens c k typ hk))
    · exact List.mem_append_right _ hk

end

theorem numbered_conditions (known : Expr) (ts : List (Term ν)) : Numbered known allPieces (conditions lib req ts) := by
  induction ts generalizing known with
  | nil => exact .pure fun k typ hk => absurd hk (by simp [allPieces])
  | cons t ts ih =>
    refine (numbered_term lib req known t).bind fun c => (ih _).bind fun cs => .pure fun k typ hk => ?_
    split_ifs at hk
    · exact List.mem_append_right _ hk
    · rw [allPieces, List.flatMap_cons] at hk
      rcases List.mem_append.mp hk with hk | hk
      · exact List.mem_append_left _ (List.mem_append_right _ (holds_parens c k typ hk))
      · exact List.mem_append_right _ hk

/-! ## Whole queries -/

theorem conditionExpr_atom (e : Expr) : conditionExpr [.atom e] = e := by simp [conditionExpr, tokenExpr]

theorem numbered_where (known : Expr) (ts : String) : Numbered known conditionExpr (where_ lib req ts) := by
  refine (Numbered.str known req.orgId).bind fun org => (Numbered.param _ _ _).bind fun lo => (Numbered.param _ _ _).bind fun hi =>
    (numbered_conditions lib req _ req.ast.filters).bind fun cs => .pure fun k typ hk => ?_
  have hk := holds_join true _ k typ hk
  rw [allPieces, List.flatMap_append, List.flatMap_append] at hk
  simp only [List.mem_append] at hk ⊢
  rcases hk with (hk | hk) | hk
  · have hk : Piece.param k typ ∈ org ∨ Piece.param k typ ∈ lo ∨ Piece.param k typ ∈ hi := by
      simpa [conditionExpr_atom, lit] using hk
    rcases hk with hk | hk | hk
    · exact Or.inl (Or.inl (Or.inl (Or.inr hk)))
    · exact Or.inl (Or.inl (Or.inr hk))
    · exact Or.inl (Or.inr hk)
  · split_ifs at hk <;> simp [conditionExpr_atom, lit] at hk
  · exact Or.inr hk

theorem numbered_groupExpr (known : Expr) (g : Bytes) : Numbered known id (groupExpr req g) := by
  intro b e c hb hk h
  unfold groupExpr at h
  cases hf : facet req g b with
  | ok r =>
    rw [hf] at h
    exact numbered_facet req known g b e c hb hk (hf.trans h)
  | error m =>
    rw [hf] at h
    revert h
    cases req.signal with
    | checks | other _ => exact fun h => absurd h (by simp)
    | logs | traces | metrics | events => exact fun h => numbered_lookup known _ _ b e c hb hk h

theorem numbered_groupColumns (known : Expr) (gs : List Bytes) : ∀ i, Numbered known List.flatten (groupColumns req i gs) := by
  induction gs generalizing known with
  | nil => exact fun i => .pure fun k typ hk => absurd hk (by simp)
  | cons g gs ih =>
    refine fun i => (numbered_groupExpr req known g).bind fun e => (ih _ (i + 1)).bind fun es => .pure fun k typ hk => ?_
    have hk : Piece.param k typ ∈ e ∨ Piece.param k typ ∈ es.flatten := by simpa [lit] using hk
    rcases hk with hk | hk
    · exact List.mem_append_left _ (List.mem_append_right _ hk)
    · exact List.mem_append_right _ hk

theorem numbered_metricAgg (known : Expr) (a : Agg) : Numbered known id (metricAgg req a) := by
  have hplain {e : Expr} (h : Plain e) : Numbered known id (pure e) := .pure (h.holds known)
  have hcall (fn : Bytes) (name : String) : Plain (call fn [.column name]) := (plain_column name).call fn
  have hmerge : Plain [lit "quantilesMerge(0.5, 0.95, 0.99)(", .column "quantiles", .text (bytes ")[" ++ quantileIndex a.fn ++ bytes "]")] := by
    simp [Plain, lit]
  have hpairs : Plain (quantile (bytes "quantileWeighted") a.fn [lit "b.1, b.2"]) := (plain_lit "b.1, b.2").call _
  refine .ite .invalid (.ite (hplain (hcall _ _).toFloat) (.ite (hplain ?_) (.ite (hplain ?_) (hplain ?_))))
  · exact .ite (hcall _ _).toFloat (.ite (hcall _ _) (.ite (plain_average _ _) (.ite (hcall _ _) (.ite (hcall _ _) hpairs))))
  · exact .ite (plain_lit "count()").toFloat (.ite (hcall _ _) (hcall _ _))
  · exact .ite (hcall _ _).toFloat (.ite (hcall _ _) (.ite (plain_average _ _) (.ite (hcall _ _) (.ite (hcall _ _) hmerge))))

theorem numbered_aggExpr (known : Expr) (a : Agg) : Numbered known id (aggExpr lib req a) := by
  have hagg : Numbered known id (aggOf req a) := by
    unfold aggOf
    split_ifs
    · exact .pure fun k typ hk => absurd hk (by simp [lit])
    · exact numbered_facet req known _
    · exact .pure fun k typ hk => absurd hk (by simp)
    · exact .pure fun k typ hk => absurd hk (by simp)
  unfold aggExpr
  split_ifs
  · exact numbered_metricAgg req known a
  all_goals refine hagg.bind fun e => ?_
  all_goals first | exact .invalid | refine .pure fun k typ hk => ?_
  · exact absurd hk (by simp [toFloat, lit])
  · exact absurd hk (by simp [call, lit])
  · exact absurd hk (by simp [lit])
  · exact List.mem_append_right _ (by simpa [toFloat, call, lit] using hk)
  · exact List.mem_append_right _ (numeric_holds e k typ (by simpa [call, lit] using hk))
  · exact List.mem_append_right _ (numeric_holds e k typ (by simpa [quantile, call, lit] using hk))

theorem numbered_aggColumns (known : Expr) (as : List Agg) : ∀ i, Numbered known List.flatten (aggColumns lib req i as) := by
  induction as generalizing known with
  | nil => exact fun i => .pure fun k typ hk => absurd hk (by simp)
  | cons a as ih =>
    refine fun i => (numbered_aggExpr lib req known a).bind fun e => (ih _ (i + 1)).bind fun es => .pure fun k typ hk => ?_
    have hk : Piece.param k typ ∈ e ∨ Piece.param k typ ∈ es.flatten := by simpa using hk
    rcases hk with hk | hk
    · exact List.mem_append_left _ (List.mem_append_right _ hk)
    · exact List.mem_append_right _ hk

theorem mem_intercalate {p : Piece} {d : Expr} {es : List Expr} (h : p ∈ d.intercalate es) : p ∈ d ∨ p ∈ es.flatten := by
  induction es with
  | nil => simp at h
  | cons e es ih =>
    cases es with
    | nil => simpa using Or.inr h
    | cons e' es =>
      rw [List.intercalate_cons_cons] at h
      simp only [List.append_assoc, List.mem_append] at h
      rw [List.flatten_cons, List.mem_append]
      rcases h with h | h | h
      · exact Or.inr (Or.inl h)
      · exact Or.inl h
      · exact (ih h).imp_right Or.inr

theorem holds_commaSeparated (es : List Expr) : Holds (commaSeparated es) es.flatten := by
  intro k typ hk
  exact (mem_intercalate hk).elim (fun h => absurd h (by simp [lit])) id

theorem plain_source (s : Source) : Plain s.expr := by
  intro k typ hk
  cases s with
  | table name => simp [Source.expr, lit] at hk
  | union columns tables =>
    simp only [Source.expr, List.mem_append] at hk
    rcases hk with (hk | hk) | hk
    · simp [lit] at hk
    · refine (mem_intercalate hk).elim (fun h => absurd h (by simp [lit])) fun h => ?_
      obtain ⟨e, he, h⟩ := List.mem_flatten.mp h
      obtain ⟨t, -, rfl⟩ := List.mem_map.mp he
      simp only [List.mem_append] at h
      rcases h with (h | h) | h
      · simp [lit] at h
      · have := holds_commaSeparated _ k typ h
        simp [lit] at this
      · simp [lit] at h
    · simp [lit] at hk

theorem holds_select {s : Select} (hjoin : Plain s.arrayJoin) (hgroup : Plain s.groupBy.flatten) (horder : Plain s.orderBy) :
    Holds s.expr (s.columns.flatten ++ conditionExpr s.filter) := by
  intro k typ hk
  simp only [Select.expr, List.mem_append] at hk ⊢
  rcases hk with (((((((((hk | hk) | hk) | hk) | hk) | hk) | hk) | hk) | hk) | hk) | hk
  · simp [lit] at hk
  · exact Or.inl (holds_commaSeparated _ k typ hk)
  · simp [lit] at hk
  · exact absurd hk (plain_source s.source k typ)
  · exact absurd hk (hjoin k typ)
  · simp [lit] at hk
  · exact Or.inr hk
  · split_ifs at hk
    · simp at hk
    · refine absurd (holds_commaSeparated s.groupBy k typ ?_) (hgroup k typ)
      simpa [lit] using hk
  · simp [lit] at hk
  · exact absurd hk (horder k typ)
  · simp [lit] at hk

theorem numbered_seriesBuild : Numbered [] Select.expr (seriesBuild lib req) := by
  refine (numbered_where lib req _ _).bind fun c => (numbered_groupColumns req _ _ 0).bind fun gs =>
    (numbered_aggColumns lib req _ _ 0).bind fun as => .pure fun k typ hk => ?_
  have hk := holds_select (by dsimp only; split_ifs <;> simp [Plain, lit]) (by simp [Plain, lit]) (by simp [Plain, lit]) k typ hk
  simpa [lit, or_assoc, or_comm, or_left_comm] using hk

theorem numbered_rowColumns (known : Expr) : Numbered known List.flatten (rowColumns req) := by
  unfold rowColumns
  split
  all_goals first | split_ifs | skip
  all_goals first | exact .invalid | exact .pure fun k typ hk => absurd hk (by simp [lit])

theorem numbered_rowsBuild : Numbered [] Select.expr (rowsBuild lib req) := by
  refine (numbered_where lib req _ _).bind fun c => (numbered_rowColumns req _).bind fun cols => .pure fun k typ hk => ?_
  have hk := holds_select (by simp [Plain]) (by simp [Plain]) (by simp [Plain, lit]) k typ hk
  simpa [lit, or_comm] using hk

theorem within_nil (n : ℕ) : Within n [] := fun _ _ h => absurd h (by simp)

/-! ## What every filter begins with -/

def inOrg : Expr := [.column "org_id", lit " = ", .param 1 "String"]

def notBefore (ts : String) : Expr := [.column ts, lit " >= ", .param 2 "DateTime64(3)"]

def before (ts : String) : Expr := [.column ts, lit " < ", .param 3 "DateTime64(3)"]

def notOurs : Expr := [.column "ServiceName", lit " NOT LIKE 'upstat.%'"]

/-- Which rows a signal's query is about, whatever it says. -/
def base (ts : String) : List Expr :=
  [inOrg, notBefore ts, before ts] ++ if req.signal = .logs then [notOurs] else []

def baseParams : List (ℕ × Bytes) := [(1, req.orgId), (2, lib.formatTime req.from_), (3, lib.formatTime req.to_)]

theorem where_start (ts : String) : where_ lib req ts {} =
    (conditions lib req req.ast.filters >>= fun cs => pure (join true ([[.atom inOrg], [.atom (notBefore ts)], [.atom (before ts)]] ++
      (if req.signal = .logs then [[.atom notOurs]] else []) ++ cs))) { n := 3, params := baseParams lib req } := rfl

theorem where_ok {ts : String} {c : Condition} {b : Builder} : where_ lib req ts {} = .ok (c, b) ↔
    ∃ cs, conditions lib req req.ast.filters { n := 3, params := baseParams lib req } = .ok (cs, b) ∧
      c = join true ((base req ts).map (fun e => [.atom e]) ++ cs) := by
  have hbase : (base req ts).map (fun e => [Token.atom e]) =
      [[.atom inOrg], [.atom (notBefore ts)], [.atom (before ts)]] ++ if req.signal = .logs then [[.atom notOurs]] else [] := by
    unfold base
    split_ifs <;> rfl
  rw [hbase, where_start]
  constructor
  · intro h
    obtain ⟨cs, d, hcs, h⟩ := bind_ok.mp h
    obtain ⟨rfl, rfl⟩ := Prod.mk.inj (pure_ok.mp h)
    exact ⟨cs, hcs, rfl⟩
  · rintro ⟨cs, hcs, rfl⟩
    exact bind_ok.mpr ⟨cs, b, hcs, rfl⟩

/-! ## Queries that compile -/

theorem series_ok {s : Query} (h : series lib req = .ok s) :
    ∃ b, seriesBuild lib req {} = .ok (s.select, b) ∧ s.params = b.params := by
  unfold series at h
  split_ifs at h
  cases hb : seriesBuild lib req {} with
  | error e => simp [hb] at h
  | ok p =>
    rw [hb] at h
    obtain rfl := Except.ok.inj h
    exact ⟨p.2, rfl, rfl⟩

theorem rows_ok {s : Query} (h : rows lib req = .ok s) :
    ∃ b, rowsBuild lib req {} = .ok (s.select, b) ∧ s.params = b.params := by
  unfold rows at h
  cases hb : rowsBuild lib req {} with
  | error e => simp [hb] at h
  | ok p =>
    rw [hb] at h
    obtain rfl := Except.ok.inj h
    exact ⟨p.2, rfl, rfl⟩

theorem filterClause_ok {c : Condition} {params : List (ℕ × Bytes)} (h : filterClause lib req = .ok (c, params)) :
    ∃ b, where_ lib req (source req).2 {} = .ok (c, b) ∧ b.params = params := by
  unfold filterClause at h
  cases hw : where_ lib req (source req).2 {} with
  | error e => simp [hw] at h
  | ok p =>
    rw [hw] at h
    obtain ⟨rfl, rfl⟩ := Prod.mk.inj (Except.ok.inj h)
    exact ⟨p.2, rfl, rfl⟩

end

end Upstat.BuiltQueries
