import Upstat.StrippedQueries

/-! # The queries an evaluation derives

`analytics/evaluation.py` makes the queries it sends from the text of a rule's or an SLO's query:
it appends an aggregation, and cuts the text at a pipe or at a slash. Whether the filter is kept
depends on whether the text is cut where the grammar cuts it. -/
namespace Upstat.DerivedQueries

open QueryGrammar GrammarReadings PrintedQueries EncodedTexts StrippedQueries

variable {ν : Type} {lib : Library ν}

/-! ## The source's texts -/

/-- The parts that `str.partition` finds before and after a separator, where there is no more
than `before` when it is not found. -/
def partition (sep : List Char) : List Char → List Char × List Char
  | [] => ([], [])
  | c :: s =>
    if sep.isPrefixOf (c :: s) then ([], (c :: s).drop sep.length)
    else (c :: (partition sep s).1, (partition sep s).2)

def count : List Char := " | count()".toList

/-- `_value` -/
def ruleQuery (q : List Char) : List Char := if '|' ∉ q then q ++ count else q

/-- `_counts` of a latency SLO -/
def latencyFilters (q : List Char) : List Char := strip (q.takeWhile (· ≠ '|'))

def latencyGood (q : List Char) : List Char := latencyFilters q ++ " trace.duration_ms:<=500".toList ++ count

def latencyAll (q : List Char) : List Char := latencyFilters q ++ count

/-- `_counts` of a ratio SLO -/
def ratioQueries (q : List Char) : Option (List Char × List Char) :=
  let (good, all) := partition " / ".toList q
  if all = [] then none else some (strip good ++ count, strip all ++ count)

/-! ## What is derived well -/

variable (lib) in
/-- The derived text is an aggregated query with these filters. -/
def Keeps (d : List Char) (ts : List (Term ν)) : Prop :=
  ∃ ast, parse lib (encode d) = .ok ast ∧ ast.agg ≠ [] ∧ ast.filters = ts

/-! ## The appended aggregation -/

/-- A byte that no aggregation has. -/
structure Foreign (p : UInt8) : Prop where
  not_ident : ∀ b, identByte p b = false
  not_space : isSpace p = false
  not_lparen : p ≠ lparen
  not_rparen : p ≠ rparen
  not_comma : p ≠ comma

theorem foreign_pipe : Foreign pipe where
  not_ident := by decide
  not_space := by decide
  not_lparen := by decide
  not_rparen := by decide
  not_comma := by decide

section
variable {p : UInt8}

theorem Foreign.not_mem (hf : Foreign p) {name : Bytes} (h : IsIdent name) : p ∉ name := by
  obtain ⟨c, name, rfl⟩ := List.exists_cons_of_ne_nil h.ne_nil
  intro hp
  rcases List.mem_cons.mp hp with rfl | hp
  · have hc := h.1
    rw [hf.not_ident] at hc
    cases hc
  · have hc := h.2 p hp
    rw [hf.not_ident] at hc
    cases hc

theorem Foreign.after_ident (hf : Foreign p) {s name r : Bytes} (h : ident s = (name, r)) (hp : p ∈ s) : p ∈ r := by
  obtain ⟨rfl, hn, -⟩ := ident_split h
  rcases List.mem_append.mp hp with hp | hp
  · rcases hn with rfl | hn
    · simp at hp
    · exact absurd hp (hf.not_mem hn)
  · exact hp

theorem Foreign.after_space (hf : Foreign p) {s : Bytes} (hp : p ∈ s) : p ∈ space s := by
  obtain ⟨sp, hb, he, -⟩ := space_split s
  rw [he] at hp
  rcases List.mem_append.mp hp with hp | hp
  · have hspace := hb p hp
    rw [hf.not_space] at hspace
    cases hspace
  · exact hp

theorem mem_drop_of_head {s : Bytes} {c : UInt8} (hc : s.head? = some c) (hne : p ≠ c) (hp : p ∈ s) : p ∈ s.drop 1 := by
  obtain ⟨d, s, rfl⟩ := List.exists_cons_of_ne_nil (l := s) (by rintro rfl; simp at hp)
  obtain rfl : d = c := by simpa using hc
  simpa [hne] using hp

theorem Foreign.after_agg (hf : Foreign p) {s r : Bytes} {a : Agg} (h : agg s = .ok (a, r)) (hp : p ∈ s) : p ∈ r := by
  obtain ⟨fn, r₁, hfn⟩ : ∃ fn r₁, ident s = (fn, r₁) := ⟨_, _, rfl⟩
  obtain ⟨field, r₂, hfield⟩ : ∃ field r₂, ident (space (r₁.drop 1)) = (field, r₂) := ⟨_, _, rfl⟩
  simp only [agg, hfn, hfield, fail] at h
  by_cases h₁ : fn = []
  · simp [h₁] at h
  by_cases h₂ : fn ∉ functions
  · simp [h₁, h₂] at h
  by_cases h₃ : r₁.head? ≠ some lparen
  · simp [h₁, h₂, h₃] at h
  by_cases h₄ : (space r₂).head? ≠ some rparen
  · simp [h₁, h₂, h₃, h₄] at h
  by_cases h₅ : field ≠ [] ∧ ¬knownFacet field = true ∧ ¬fieldName field = true
  · simp [h₁, h₂, h₃, h₄, h₅] at h
  rw [if_neg h₁, if_neg h₂, if_neg h₃, if_neg h₄, if_neg h₅] at h
  obtain rfl : (space r₂).drop 1 = r := (Prod.mk.inj (Except.ok.inj h)).2
  have hp₁ := hf.after_ident hfn hp
  have hp₂ := hf.after_ident hfield (hf.after_space (mem_drop_of_head (not_not.mp h₃) hf.not_lparen hp₁))
  exact mem_drop_of_head (not_not.mp h₄) hf.not_rparen (hf.after_space hp₂)

theorem Foreign.after_aggs (hf : Foreign p) (fuel : ℕ) : ∀ (acc : List Agg) (s : Bytes) (as : List Agg) (r : Bytes),
    aggs fuel acc s = .ok (as, r) → p ∈ s → p ∈ r := by
  induction fuel with
  | zero => simp [aggs]
  | succ fuel ih =>
    intro acc s as r h hp
    rw [aggs] at h
    obtain ⟨⟨a, r₁⟩, ha, h⟩ := bind_eq_ok.mp h
    have hp₁ := hf.after_space (hf.after_agg ha hp)
    simp only at h
    split_ifs at h with hc
    · exact ih _ _ _ _ h (hf.after_space (mem_drop_of_head hc hf.not_comma hp₁))
    · obtain rfl := (Prod.mk.inj (Except.ok.inj h)).2
      exact hp₁

theorem Foreign.after_groupList (hf : Foreign p) (fuel : ℕ) : ∀ (acc : List Bytes) (s : Bytes) (gs : List Bytes) (r : Bytes),
    groupList fuel acc s = .ok (gs, r) → p ∈ s → p ∈ r := by
  induction fuel with
  | zero => simp [groupList]
  | succ fuel ih =>
    intro acc s gs r h hp
    obtain ⟨f, r₁, hident⟩ : ∃ f r₁, ident s = (f, r₁) := ⟨_, _, rfl⟩
    have hp₁ := hf.after_space (hf.after_ident hident hp)
    simp only [groupList, hident, fail] at h
    by_cases hne : f = []
    · simp [hne] at h
    rw [if_neg hne] at h
    split_ifs at h with hc
    · exact ih _ _ _ _ h (hf.after_space (mem_drop_of_head hc hf.not_comma hp₁))
    · obtain rfl := (Prod.mk.inj (Except.ok.inj h)).2
      exact hp₁

/-- No foreign byte is in what follows the pipe. -/
theorem Foreign.not_mem_aggregation (hf : Foreign p) {fuel : ℕ} {s : Bytes} {as : List Agg} {gs : List Bytes}
    (h : aggregation lib fuel s = .ok (as, gs)) : p ∉ s := by
  intro hp
  rw [aggregation] at h
  split_ifs at h with hs
  · simp [fail] at h
  obtain ⟨⟨as', r⟩, ha, h⟩ := bind_eq_ok.mp h
  obtain ⟨⟨gs', r'⟩, hg, h⟩ := bind_eq_ok.mp h
  have hp₁ := hf.after_aggs _ _ _ _ _ ha hp
  have hp₂ : p ∈ r' := by
    rw [grouping] at hg
    cases hw : word "by" r with
    | none =>
      obtain ⟨-, rfl⟩ : [] = gs' ∧ r = r' := by simpa [hw] using hg
      exact hp₁
    | some r₁ =>
      simp only [hw] at hg
      obtain ⟨rfl, -⟩ := word_eq_some.mp hw
      have hname : IsIdent (bytes "by") := by decide +kernel
      have hby := hf.not_mem hname
      exact hf.after_groupList _ _ _ _ _ hg (hf.after_space ((List.mem_append.mp hp₁).resolve_left hby))
  have hp₃ := hf.after_space hp₂
  cases hsp : space r' with
  | nil => simp [hsp] at hp₃
  | cons c r'' =>
    simp only [hsp, fail] at h
    split_ifs at h

end

/-- There is no pipe in what follows the pipe. -/
theorem no_pipe_after {fuel : ℕ} {s : Bytes} {as : List Agg} {gs : List Bytes}
    (h : aggregation lib fuel s = .ok (as, gs)) : pipe ∉ s := foreign_pipe.not_mem_aggregation h

/-- The last pipe of a text is told by what follows it. -/
theorem last_pipe {x y u v : Bytes} (h : x ++ pipe :: u = y ++ pipe :: v) (hu : pipe ∉ u) (hv : pipe ∉ v) : x = y ∧ u = v := by
  rcases List.append_eq_append_iff.mp h with ⟨m, rfl, hm⟩ | ⟨m, rfl, hm⟩
  · cases m with
    | nil => exact ⟨by simp, (List.cons.inj hm).2⟩
    | cons c m => exact absurd (by simp [(List.cons.inj hm).2]) hu
  · cases m with
    | nil => exact ⟨by simp, (List.cons.inj hm).2.symm⟩
    | cons c m => exact absurd (by simp [(List.cons.inj hm).2]) hv

theorem encode_count : encode count = bytes " " ++ pipe :: bytes " count()" := by decide

/-- A text with the appended aggregation keeps the terms it is a query of without it. -/
theorem keeps_count {s : List Char} {ts : List (Term ν)} : Keeps lib (s ++ count) ts ↔ Reads lib (encode s) ts := by
  have hcount : ∀ fuel, 0 < fuel → aggregation lib fuel (space (bytes " count()")) = .ok ([⟨bytes "count", []⟩], []) := by
    intro fuel hf
    have ha : ParsedAgg ⟨bytes "count", []⟩ := ⟨by decide, by simp⟩
    have h : aggregation lib fuel (printList [printAgg ⟨bytes "count", []⟩] ++ if ([] : List Bytes) = [] then [] else _) =
        .ok ([⟨bytes "count", []⟩], []) :=
      aggregation_print (List.cons_ne_nil _ []) (by simpa using ha) (by simp) hf (by simp)
    rw [if_pos rfl, List.append_nil, printList_singleton] at h
    rw [← h]
    congr 1
  rw [Keeps, encode_append, encode_count, ← List.append_assoc]
  constructor
  · rintro ⟨ast, hparse, hagg, rfl⟩
    obtain ⟨ps, r, hq, ⟨-, h, -⟩ | ⟨v, rfl, hv⟩⟩ := parse_eq_ok.mp hparse
    · exact absurd h hagg
    obtain ⟨sp, hsp, he⟩ := hq.text
    have hu : pipe ∉ bytes " count()" := by decide
    have hv' : pipe ∉ v := fun hp => no_pipe_after hv (foreign_pipe.after_space hp)
    have hx := (last_pipe he hu hv').1
    rw [← reads_append_blank blank_space]
    exact ⟨ps, hq.filters, ⟨sp, hsp, by rw [hx, List.append_nil]⟩, by simp [AtPipe]⟩
  · rw [← reads_append_blank blank_space]
    rintro ⟨ps, h⟩
    obtain ⟨sp, hsp, he⟩ := h.text
    rw [List.append_nil] at he
    refine ⟨⟨ts, [⟨bytes "count", []⟩], []⟩, parse_eq_ok.mpr ⟨ps, pipe :: bytes " count()", ⟨h.filters, ⟨sp, hsp, ?_⟩, ?_⟩,
      Or.inr ⟨_, rfl, hcount _ (by omega)⟩⟩, by simp, rfl⟩
    · rw [he]
    · simp [AtPipe]

/-! ## Where the text is cut -/

theorem pipe_iff {s : List Char} : pipe ∈ encode s ↔ '|' ∈ s := mem_encode (by decide)

/-- A query without an aggregation is read to its end. -/
theorem reads_iff {q : Bytes} {ast : AST ν} (h : parse lib q = .ok ast) : Reads lib q ast.filters ↔ ast.agg = [] := by
  obtain ⟨ps, r, hq, hagg⟩ := parse_eq_ok.mp h
  constructor
  · rintro ⟨ps', h'⟩
    obtain ⟨-, rfl, -⟩ := QueryReading.unique hq h'
    obtain ⟨-, h, -⟩ | ⟨s, hs, -⟩ := hagg
    · exact h
    · simp at hs
  · intro hnil
    obtain ⟨rfl, -⟩ | ⟨s, -, hs⟩ := hagg
    · exact ⟨ps, hq⟩
    · exact absurd hnil (aggregation_parsed hs).1

theorem rule_keeps {q : List Char} {ast : AST ν} (h : parse lib (encode q) = .ok ast) :
    Keeps lib (ruleQuery q) ast.filters ↔ ast.agg ≠ [] ∨ '|' ∉ q := by
  by_cases hp : '|' ∈ q
  · rw [ruleQuery, if_neg (not_not.mpr hp)]
    constructor
    · rintro ⟨ast', h', hagg, -⟩
      obtain rfl := Except.ok.inj (h.symm.trans h')
      exact Or.inl hagg
    · rintro (hagg | hp')
      · exact ⟨ast, h, hagg, rfl⟩
      · exact absurd hp hp'
  · rw [ruleQuery, if_pos hp, keeps_count, reads_iff h]
    obtain ⟨ps, r, hq, ⟨-, hagg, -⟩ | ⟨s, rfl, -⟩⟩ := parse_eq_ok.mp h
    · simp [hagg, hp]
    · obtain ⟨sp, -, he⟩ := hq.text
      exact absurd (pipe_iff.mp (by simp [he])) hp

/-- A query cut before its first pipe. -/
theorem cut_pipe (q : List Char) :
    ∃ y, encode q = encode (q.takeWhile (· ≠ '|')) ++ y ∧ pipe ∉ encode (q.takeWhile (· ≠ '|')) ∧ AtPipe y := by
  refine ⟨encode (q.dropWhile (· ≠ '|')), by rw [← encode_append, List.takeWhile_append_dropWhile], fun hp => ?_, ?_⟩
  · have := List.mem_takeWhile_imp (pipe_iff.mp hp)
    simp at this
  · have hhead := List.head?_dropWhile_not (fun c => decide (c ≠ '|')) q
    cases hd : q.dropWhile (· ≠ '|') with
    | nil => simp [AtPipe]
    | cons d s =>
      rw [hd] at hhead
      obtain rfl : d = '|' := by simpa using hhead
      intro c hc
      rw [encode_cons_ascii (by decide), List.head?_cons] at hc
      exact (Option.some.inj hc).symm

/-- The text before the first pipe is a query of the same terms if that pipe is the query's. -/
theorem reads_before {q : List Char} {ps : List Piece} {r : Bytes} {ts : List (Term ν)}
    (h : QueryReading lib (encode q) ps ts r) :
    Reads lib (encode (q.takeWhile (· ≠ '|'))) ts ↔ pipe ∉ text ps := by
  obtain ⟨y, hsplit, hfirst, hrest⟩ := cut_pipe q
  generalize encode (q.takeWhile (· ≠ '|')) = x at hsplit hfirst ⊢
  obtain ⟨sp, hsp, he⟩ := h.text
  constructor
  · rintro ⟨ps', h'⟩
    obtain ⟨sp', hsp', he'⟩ := h'.text
    have hq : QueryReading lib (encode q) ps' ts y :=
      ⟨h'.filters, ⟨sp', hsp', by rw [hsplit, he', List.append_nil]⟩, hrest⟩
    rw [(QueryReading.unique h hq).2.2]
    rw [he', List.append_nil] at hfirst
    exact fun hp => hfirst (List.mem_append_right _ hp)
  · intro hp
    have hp' : pipe ∉ sp ++ text ps := by
      intro hm
      rcases List.mem_append.mp hm with hm | hm
      · exact absurd (hsp pipe hm) (by decide)
      · exact hp hm
    refine ⟨ps, h.filters, ⟨sp, hsp, ?_⟩, by simp [AtPipe]⟩
    rw [List.append_nil]
    -- Both cuts are at the first pipe.
    rw [he] at hsplit
    rcases List.append_eq_append_iff.mp hsplit with ⟨m, hm, hr⟩ | ⟨m, hm, hr⟩
    · cases m with
      | nil => simpa using hm
      | cons c m =>
        obtain rfl : c = pipe := h.atPipe c (by simp [hr])
        exact absurd (by simp [hm]) hfirst
    · cases m with
      | nil => simpa using hm.symm
      | cons c m =>
        obtain rfl : c = pipe := hrest c (by simp [hr])
        exact absurd (by rw [hm]; simp) hp'

/-- One more term after whitespace. -/
theorem FilterReading.snoc {ps qs : List Piece} {ts : List (Term ν)} {t : Term ν} (h : FilterReading lib ps ts)
    (hu : Reading lib qs (.term t)) {b : Bytes} (hb : Blank b) (hne : b ≠ []) :
    ∃ sp rs, Blank sp ∧ FilterReading lib rs (ts ++ [t]) ∧ sp ++ text rs = text ps ++ b ++ text qs := by
  induction h with
  | nil => exact ⟨b, qs ++ [.space []], hb, .cons hu blank_nil (fun _ => rfl) .nil, by simp [Piece.text]⟩
  | @cons ps qs' sp u ts h hsp hnil h' ih =>
    obtain ⟨sp', rs, hsp', hrs, he⟩ := ih
    refine ⟨[], ps ++ .space (sp ++ sp') :: rs, blank_nil, .cons h (blank_append hsp hsp') (fun hs => ?_) hrs, ?_⟩
    · obtain ⟨rfl, rfl⟩ := List.append_eq_nil_iff.mp hs
      obtain rfl := hnil rfl
      obtain ⟨c, b, rfl⟩ := List.exists_cons_of_ne_nil hne
      obtain ⟨d, s, hd, hds⟩ := FilterReading.head hrs (by simp)
      rw [List.nil_append, hd] at he
      obtain rfl : d = c := (List.cons.inj he).1
      have hc := hb d (by simp)
      rw [hds] at hc
      exact absurd hc (by decide)
    · simp [he, Piece.text]

/-- The term that a latency SLO's good query has at its end. -/
def fast (n : ν) : Term ν := .facet (bytes "trace.duration_ms") .lte (.num n)

theorem fast_reading {n : ν} (hn : lib.parseFloat (bytes "500") = some n) :
    Reading lib [.leaf (bytes "trace.duration_ms" ++ colon :: bytes "<=500")] (.term (fast n)) := by
  have hlast : ∀ c ∈ (colon :: bytes "<=500").getLast?, isSpace c = false := by decide +kernel
  refine .leaf (atomic_facet (by decide +kernel) (by decide +kernel) hlast fun start rest hrest => facetValue_eq_ok.mpr ?_)
  have hcmp : comparator (bytes "<=500" ++ rest) = (.lte, bytes "500" ++ rest) := by
    rw [show bytes "<=500" = printCmp .lte ++ bytes "500" by decide, List.append_assoc]
    exact comparator_printCmp .lte (by rw [show bytes "500" = [53, 48, 48] by decide]; simp; decide)
  have hbare : bare (bytes "500" ++ rest) = (bytes "500", rest) := bare_append (by decide +kernel) hrest
  have hhead : (bytes "500" ++ rest).head? ≠ some dquote := by
    rw [show bytes "500" = [53, 48, 48] by decide]
    simp
    decide
  have hvalue : valueTerm lib (bytes "trace.duration_ms") .lte (bytes "500") false = some (fast n) := by
    rw [valueTerm, if_neg (by decide), if_pos (by decide), if_neg (by decide), hn]
    rfl
  rw [hcmp]
  exact ⟨bytes "500", false, by rw [rawValue, if_neg hhead, hbare], hvalue⟩

variable (lib) in
/-- The queries of a latency SLO keep the terms, with the time in the good query. -/
def LatencyKept (n : ν) (q : List Char) (ts : List (Term ν)) : Prop :=
  Keeps lib (latencyGood q) (ts ++ [fast n]) ∧ Keeps lib (latencyAll q) ts

theorem latency_keeps (hnum : PlainNumbers lib) {n : ν} (hn : lib.parseFloat (bytes "500") = some n) {q : List Char}
    {ps : List Piece} {r : Bytes} {ts : List (Term ν)} (h : QueryReading lib (encode q) ps ts r) :
    LatencyKept lib n q ts ↔ Trims (q.takeWhile (· ≠ '|')) ∧ pipe ∉ text ps := by
  have hall : LatencyKept lib n q ts ↔ Reads lib (encode (latencyFilters q)) ts := by
    rw [LatencyKept, latencyGood, latencyAll, keeps_count, keeps_count, and_iff_right_iff_imp]
    rintro ⟨ps', h'⟩
    obtain ⟨sp, hsp, he⟩ := h'.text
    obtain ⟨sp', rs, hsp', hrs, hr⟩ := FilterReading.snoc h'.filters (fast_reading hn) blank_space (by decide)
    have htext : encode " trace.duration_ms:<=500".toList = bytes " " ++ (bytes "trace.duration_ms" ++ colon :: bytes "<=500") := by
      decide
    refine ⟨rs, hrs, ⟨sp ++ sp', blank_append hsp hsp', ?_⟩, by simp [AtPipe]⟩
    rw [encode_append, he, htext, List.append_assoc sp sp', hr]
    simp [Piece.text]
  obtain ⟨y, hsplit, -, hy⟩ := cut_pipe q
  rw [hall, latencyFilters, reads_strip_iff hnum hy (hsplit ▸ h), reads_before h]

/-! ## Where a ratio is cut -/

/-- A separator that is there is found where it first is. -/
theorem partition_first {sep : List Char} (hsep : sep ≠ []) (x y : List Char) :
    ∃ x' y', partition sep (x ++ sep ++ y) = (x', y') ∧ x ++ sep ++ y = x' ++ sep ++ y' ∧
      ∀ x'' y'', x ++ sep ++ y = x'' ++ sep ++ y'' → x'.length ≤ x''.length := by
  have hhere : ∀ {s : List Char}, sep.isPrefixOf s = true → partition sep s = ([], s.drop sep.length) ∧
      s = [] ++ sep ++ s.drop sep.length := by
    intro s hs
    obtain ⟨t, rfl⟩ := List.isPrefixOf_iff_prefix.mp hs
    obtain ⟨c, sep, rfl⟩ := List.exists_cons_of_ne_nil hsep
    rw [List.cons_append] at hs ⊢
    rw [partition, if_pos hs, ← List.cons_append, List.drop_left]
    exact ⟨rfl, rfl⟩
  induction x with
  | nil =>
    have hs : sep.isPrefixOf ([] ++ sep ++ y) = true := List.isPrefixOf_iff_prefix.mpr ⟨y, rfl⟩
    exact ⟨[], _, (hhere hs).1, (hhere hs).2, by simp⟩
  | cons c x ih =>
    by_cases hs : sep.isPrefixOf (c :: x ++ sep ++ y) = true
    · exact ⟨[], _, (hhere hs).1, (hhere hs).2, by simp⟩
    obtain ⟨x', y', hp, he, hmin⟩ := ih
    have hnot : ¬sep.isPrefixOf (c :: (x ++ sep ++ y)) = true := by simpa using hs
    refine ⟨c :: x', y', ?_, by simpa using he, ?_⟩
    · rw [List.cons_append, List.cons_append, partition, if_neg hnot, hp]
    · intro x'' y'' h
      cases x'' with
      | nil => exact absurd (List.isPrefixOf_iff_prefix.mpr ⟨y'', h.symm⟩) hs
      | cons d x'' =>
        have := hmin x'' y'' (List.cons.inj h).2
        simpa using this

/-- What stands before an earlier slash goes on after it. -/
theorem before_slash {g a x y : List Char} (h : g ++ " / ".toList ++ a = x ++ " / ".toList ++ y) (hlt : x.length < g.length) :
    ∃ m, g = x ++ " /".toList ++ m ∧ " / ".toList <:+: g ++ " /".toList ∧ y ≠ [] := by
  rw [List.append_assoc, List.append_assoc] at h
  rcases List.append_eq_append_iff.mp h with ⟨k, rfl, hk⟩ | ⟨k, rfl, hk⟩
  · simp at hlt
  · cases k with
    | nil => simp at hlt
    | cons c k =>
    cases k with
    | nil => simp at hk
    | cons d k =>
      have he : ' ' :: '/' :: ' ' :: y = c :: d :: (k ++ ' ' :: '/' :: ' ' :: a) := by simpa using hk
      simp only [List.cons.injEq] at he
      obtain ⟨rfl, rfl, hk'⟩ := he
      refine ⟨k, by simp, ?_, ?_⟩
      · cases k with
        | nil => exact ⟨x, ['/'], by simp⟩
        | cons e k =>
          obtain rfl : ' ' = e := (List.cons.inj hk').1
          exact ⟨x, k ++ " /".toList, by simp⟩
      · rintro rfl
        have := congrArg List.length hk'
        simp at this
        omega

theorem earlier_slash {g a : List Char} (h : " / ".toList <:+: g ++ " /".toList) :
    ∃ x y, g ++ " / ".toList ++ a = x ++ " / ".toList ++ y ∧ x.length < g.length := by
  obtain ⟨x, y, he⟩ := h
  have hlen := congrArg List.length he
  simp at hlen
  have hsplit : " / ".toList = " /".toList ++ [' '] := by decide
  refine ⟨x, y ++ ' ' :: a, ?_, by omega⟩
  rw [hsplit, ← List.append_assoc g, ← he, hsplit]
  simp

variable (lib) in
/-- The queries made of a ratio, if there are any, keep the filters of its two queries. -/
def RatioKept (g a : List Char) (good all : List (Term ν)) : Prop :=
  ∀ d e, ratioQueries (g ++ " / ".toList ++ a) = some (d, e) → Keeps lib d good ∧ Keeps lib e all

theorem ratio_keeps (hnum : PlainNumbers lib) {g a : List Char} {good all : AST ν} (hg : parse lib (encode g) = .ok good)
    (ha : parse lib (encode a) = .ok all) :
    RatioKept lib g a good.filters all.filters ↔
      ¬" / ".toList <:+: g ++ " /".toList ∧ (a = [] ∨ (Trims g ∧ good.agg = []) ∧ Trims a ∧ all.agg = []) := by
  have hsep : " / ".toList ≠ [] := by decide
  obtain ⟨x, y, hxy, he, hmin⟩ := partition_first hsep g a
  have hsome : ∀ d e, ratioQueries (g ++ " / ".toList ++ a) = some (d, e) ↔
      y ≠ [] ∧ d = strip x ++ count ∧ e = strip y ++ count := by
    intro d e
    simp only [ratioQueries, hxy]
    split_ifs with hy
    · simp [hy]
    · simp only [Option.some.injEq, Prod.mk.injEq, ne_eq, hy, not_false_eq_true, true_and]
      exact and_congr eq_comm eq_comm
  have hkept : RatioKept lib g a good.filters all.filters ↔
      (y ≠ [] → Reads lib (encode (strip x)) good.filters ∧ Reads lib (encode (strip y)) all.filters) := by
    rw [← keeps_count, ← keeps_count]
    constructor
    · intro h hy
      exact h _ _ ((hsome _ _).mpr ⟨hy, rfl, rfl⟩)
    · intro h d e hde
      obtain ⟨hy, rfl, rfl⟩ := (hsome d e).mp hde
      exact h hy
  -- A query that is cut off right keeps its terms unless more than whitespace is stripped from it.
  have hcut : ∀ {s : List Char} {ast : AST ν}, parse lib (encode s) = .ok ast →
      (Reads lib (encode (strip s)) ast.filters ↔ Trims s ∧ ast.agg = []) := by
    intro s ast hs
    obtain ⟨ps, r, hq, -⟩ := parse_eq_ok.mp hs
    rw [reads_strip_iff hnum (y := []) (by simp [AtPipe]) (by rw [List.append_nil]; exact hq), reads_iff hs]
  rw [hkept]
  rcases Nat.lt_or_ge x.length g.length with hlt | hge
  · -- It is cut within the good query, which goes on after the cut.
    obtain ⟨m, rfl, hin, hy⟩ := before_slash he hlt
    simp only [hin, not_true_eq_false, false_and, iff_false]
    intro h
    obtain ⟨ps, r, hq, -⟩ := parse_eq_ok.mp hg
    obtain ⟨u, v, hx, hu, hv, hhead⟩ := strip_split x
    have hslash : encode (x ++ " /".toList ++ m) =
        encode u ++ (encode (strip x) ++ (encode v ++ 32 :: '/'.toUInt8 :: encode m)) := by
      rw [encode_append, encode_append, show encode " /".toList = [32, '/'.toUInt8] by decide]
      conv_lhs => rw [hx, encode_append, encode_append]
      simp
    rw [hslash] at hq
    exact not_reads_more hnum hu hv (by decide) (by decide) (by decide) (endsText_encode _) hhead (h hy).1 hq
  · have hlen : x.length = g.length := Nat.le_antisymm (hmin g a rfl) hge
    rw [List.append_assoc, List.append_assoc] at he
    obtain ⟨rfl, he⟩ := List.append_inj he hlen.symm
    obtain rfl : a = y := List.append_cancel_left (List.append_cancel_left he)
    rw [hcut hg, hcut ha]
    constructor
    · intro h
      refine ⟨fun hin => ?_, (em (a = [])).imp_right h⟩
      obtain ⟨x', y', he', hlt⟩ := earlier_slash (a := a) hin
      exact absurd (hmin x' y' he') (by omega)
    · rintro ⟨-, rfl | h⟩ hy
      · exact absurd rfl hy
      · exact h

/-! ## Exactly which derivations keep the filter -/

/-- A rule's query keeps its filter unless its only pipes are in its terms; a latency SLO's does
if its first pipe is the grammar's and whitespace alone is stripped; a ratio's two do if it is cut
between them and neither has an aggregation of its own. -/
theorem derived_keep_iff (hnum : PlainNumbers lib) {n : ν} (hn : lib.parseFloat (bytes "500") = some n) :
    (∀ q ast, parse lib (encode q) = .ok ast →
      (Keeps lib (ruleQuery q) ast.filters ↔ ast.agg ≠ [] ∨ '|' ∉ q)) ∧
    (∀ q ast, parse lib (encode q) = .ok ast → ∃ ps r, QueryReading lib (encode q) ps ast.filters r ∧
      (LatencyKept lib n q ast.filters ↔ Trims (q.takeWhile (· ≠ '|')) ∧ pipe ∉ text ps)) ∧
    ∀ g a good all, parse lib (encode g) = .ok good → parse lib (encode a) = .ok all →
      (RatioKept lib g a good.filters all.filters ↔
        ¬" / ".toList <:+: g ++ " /".toList ∧ (a = [] ∨ (Trims g ∧ good.agg = []) ∧ Trims a ∧ all.agg = [])) := by
  refine ⟨fun q ast h => rule_keeps h, fun q ast h => ?_, fun g a good all hg ha => ratio_keeps hnum hg ha⟩
  obtain ⟨ps, r, hq, -⟩ := parse_eq_ok.mp h
  exact ⟨ps, r, hq, latency_keeps hnum hn hq⟩

theorem digitLibrary_plainNumbers : PlainNumbers digitLibrary := by
  intro s x hx c hc
  obtain ⟨hs, -⟩ := Option.dite_none_right_eq_some.mp hx
  obtain ⟨h₁, h₂⟩ := (isNumber_iff.mp hs).2 c hc
  rw [UInt8.le_iff_toNat_le] at h₁ h₂
  have : (48 : UInt8).toNat = 48 := rfl
  have : (57 : UInt8).toNat = 57 := rfl
  omega

theorem digitLibrary_digits {s : Bytes} (h : isNumber s = true) : digitLibrary.parseFloat s = some ⟨s, h⟩ := dif_pos h

/-- `service:web level:error` and the query that a rule makes of it. -/
theorem derived_keep_plain :
    Keeps digitLibrary (ruleQuery "service:web level:error".toList)
      [.facet (bytes "service") .eq (.str (bytes "web")), .facet (bytes "level") .eq (.str (bytes "error"))] :=
  ((derived_keep_iff digitLibrary_plainNumbers (digitLibrary_digits (by decide +kernel))).1 _
    { filters := [.facet (bytes "service") .eq (.str (bytes "web")), .facet (bytes "level") .eq (.str (bytes "error"))] }
    (by decide +kernel)).mpr (Or.inr (by decide))

/-- `service:"a|b"` is a query that a rule sends without an aggregation, and `service:"a / b"` is
cut within its value. -/
theorem quoted_pipe_lost :
    let piped : AST Digits :=
      { filters := [.facet (bytes "service") .eq (.str (bytes "a|b"))] }
    let slashed : AST Digits :=
      { filters := [.facet (bytes "service") .eq (.str (bytes "a / b"))] }
    (parse digitLibrary (encode "service:\"a|b\"".toList) = .ok piped ∧
      ¬Keeps digitLibrary (ruleQuery "service:\"a|b\"".toList) piped.filters) ∧
    (parse digitLibrary (encode "service:\"a / b\"".toList) = .ok slashed ∧
      ¬RatioKept digitLibrary "service:\"a / b\"".toList "service:\"a / b\"".toList slashed.filters slashed.filters) := by
  intro piped slashed
  have hp : parse digitLibrary (encode "service:\"a|b\"".toList) = .ok piped := by decide +kernel
  have hs : parse digitLibrary (encode "service:\"a / b\"".toList) = .ok slashed := by decide +kernel
  refine ⟨⟨hp, ?_⟩, hs, ?_⟩
  · rw [rule_keeps hp]
    simp [piped]
  · rw [ratio_keeps digitLibrary_plainNumbers hs hs]
    rintro ⟨h, -⟩
    exact h ⟨"service:\"a".toList, "b\" /".toList, by decide⟩

end Upstat.DerivedQueries
