import Upstat.BuiltQueries
import Upstat.PrintedQueries

/-! # The meaning of a compiled filter

A term's condition is read over its atomic conditions, numbered from left to right. Two or three
of them, joined by AND, say what a term of a `rum.vital.` facet says. An `on:` term says
nothing of a row. -/
namespace Upstat.CompiledFilters

open QueryGrammar ConditionTexts QueryCompiler BuiltQueries

/-! ## Terms that the parser gives -/

section
variable {ν : Type}
mutual

/-- Every group in the term has terms. -/
def grouped : Term ν → Bool
  | .op _ ts => !ts.isEmpty && allGrouped ts
  | .not t => grouped t
  | .text _ | .facet .. => true

def allGrouped : List (Term ν) → Bool
  | [] => true
  | t :: ts => grouped t && allGrouped ts

end

theorem allGrouped_iff {ts : List (Term ν)} : allGrouped ts = true ↔ ∀ t ∈ ts, grouped t = true := by
  induction ts with
  | nil => simp [allGrouped]
  | cons t ts ih => simp [allGrouped, ih]

theorem flush_grouped {s : Bytes} {branches seq bs : List (Term ν)} (h : flush s branches seq = .ok bs)
    (hb : allGrouped branches = true) (hs : allGrouped seq = true) : bs ≠ [] ∧ allGrouped bs = true := by
  rw [allGrouped_iff] at *
  unfold flush at h
  split at h
  · simp [fail] at h
  · obtain rfl := Except.ok.inj h
    refine ⟨by simp, fun t ht => ?_⟩
    exact (List.mem_append.mp ht).elim (hb t) (hs t)
  · next ts hne _ =>
    obtain rfl := Except.ok.inj h
    refine ⟨by simp, fun t ht => ?_⟩
    rcases List.mem_append.mp ht with ht | ht
    · exact hb t ht
    · obtain rfl := List.mem_singleton.mp ht
      rw [grouped, Bool.and_eq_true, allGrouped_iff]
      exact ⟨by simpa using hne, hs⟩

theorem collapse_grouped {bs : List (Term ν)} (hne : bs ≠ []) (h : allGrouped bs = true) : grouped (collapse bs) = true := by
  unfold collapse
  split
  · simpa [allGrouped] using h
  · rw [grouped, h]
    simpa using hne

open GrammarReadings in
/-- Of a group that is not closed yet, once its terms so far are grouped. -/
def NodeGrouped : Node ν → Prop
  | .term t => grouped t = true
  | .inside branches seq t => allGrouped branches = true → allGrouped seq = true → grouped t = true

open GrammarReadings in
theorem reading_grouped {lib : Library ν} {ps : List GrammarReadings.Piece} {n : Node ν} (h : Reading lib ps n) : NodeGrouped n := by
  induction h with
  | leaf h =>
    obtain ⟨s, rfl⟩ | ⟨f, cmp, raw, isQuoted, -, -, hv⟩ := h.text_or_facet
    · rfl
    · obtain ⟨cmp', v, rfl⟩ := valueTerm_facet hv
      rfl
  | not _ ih => exact ih
  | group _ _ ih => exact ih rfl rfl
  | close hfl =>
    intro hb hs
    obtain ⟨hne, hbs⟩ := flush_grouped (hfl []) hb hs
    exact collapse_grouped hne hbs
  | or hfl _ _ _ ih =>
    intro hb hs
    exact ih (flush_grouped (hfl []) hb hs).2 rfl
  | item _ _ _ _ _ ih ih' =>
    intro hb hs
    refine ih' hb (allGrouped_iff.mpr fun t ht => ?_)
    rcases List.mem_append.mp ht with ht | ht
    · exact allGrouped_iff.mp hs t ht
    · obtain rfl := List.mem_singleton.mp ht
      exact ih

open GrammarReadings in
theorem filters_grouped {lib : Library ν} {ps : List GrammarReadings.Piece} {ts : List (Term ν)} (h : FilterReading lib ps ts) :
    allGrouped ts = true := by
  induction h with
  | nil => rfl
  | cons ht _ _ _ ih =>
    rw [allGrouped, ih, Bool.and_true]
    exact reading_grouped ht

theorem parse_grouped {lib : Library ν} {q : Bytes} {ast : AST ν} (h : parse lib q = .ok ast) : allGrouped ast.filters = true := by
  obtain ⟨ps, r, hq, -⟩ := GrammarReadings.parse_eq_ok.mp h
  exact filters_grouped hq.filters

end

/-! ## What a query says -/

section
variable {ν : Type} (lib : Formats ν)

/-- A vital's event, its name and, unless any value will do, its value. -/
def vitalAtoms (cmp : Cmp) (v : Value ν) : ℕ := if cmp = .eq ∧ valueText lib v = [] then 2 else 3

mutual

/-- How many atomic conditions a term becomes. -/
def count : Term ν → ℕ
  | .not t => count t
  | .op _ ts => countAll ts
  | .text _ => 1
  | .facet f cmp v => if f = bytes "on" then 0 else if hasPrefix f "rum.vital." then vitalAtoms lib cmp v else 1

def countAll : List (Term ν) → ℕ
  | [] => 0
  | t :: ts => count t + countAll ts

end

mutual

/-- What a term says of its atomic conditions, which are numbered from `k` on. -/
def formula (k : ℕ) : Term ν → Formula ℕ
  | .not t => .not (formula k t)
  | .op op ts => .join (op = .and) (formulas k ts)
  | .text _ => .leaf k
  | .facet f cmp v =>
    if f = bytes "on" then .neutral
    else if hasPrefix f "rum.vital." then .join true ((List.range' k (vitalAtoms lib cmp v)).map .leaf)
    else .leaf k

def formulas (k : ℕ) : List (Term ν) → List (Formula ℕ)
  | [] => []
  | t :: ts => formula k t :: formulas (k + count lib t) ts

end

mutual

theorem leaves_formula (k : ℕ) : ∀ t : Term ν, (formula lib k t).leaves = List.range' k (count lib t)
  | .not t => by
    rw [formula, Formula.leaves, count, leaves_formula k t]
  | .op op ts => by
    rw [formula, Formula.leaves, count, leaves_formulas k ts]
  | .text s => by
    rw [formula, Formula.leaves, count, List.range'_one]
  | .facet f cmp v => by
    have hmap (js : List ℕ) : Formula.allLeaves (js.map .leaf) = js := by
      induction js with
      | nil => rfl
      | cons j js ih => rw [List.map_cons, Formula.allLeaves, ih, Formula.leaves, List.singleton_append]
    rw [formula, count]
    split_ifs
    · rfl
    · rw [Formula.leaves, hmap]
    · rw [Formula.leaves, List.range'_one]

theorem leaves_formulas (k : ℕ) : ∀ ts : List (Term ν), Formula.allLeaves (formulas lib k ts) = List.range' k (countAll lib ts)
  | [] => by
    rw [formulas, Formula.allLeaves, countAll, List.range'_zero]
  | t :: ts => by
    rw [formulas, Formula.allLeaves, countAll, leaves_formula k t, leaves_formulas _ ts, List.range'_append_1]

end

/-! ## What its condition says -/

/-- A condition of so many atomic ones that has, on its own, the value of the formula. -/
structure Says (c : Condition) (n : ℕ) (f : ℕ → Formula ℕ) : Prop where
  atoms : (atoms c).length = n
  takes : ∀ (v : ℕ → Bool) k, ∃ g, Takes v {} (number k c) g ∧ g.awaits = false ∧ g.value = (f k).value v

/-- Conditions between parens, as operands. -/
structure AllSay (cs : List Condition) (n : ℕ) (f : ℕ → List (Formula ℕ)) : Prop where
  atoms : (cs.flatMap ConditionTexts.atoms).length = n
  operands : ∀ (v : ℕ → Bool) k, Operands v (numberParts k cs) (Formula.values v (f k))

theorem Says.operand {c : Condition} {n : ℕ} {f : ℕ → Formula ℕ} (h : Says c n f) (v : ℕ → Bool) (k : ℕ) :
    Operand v (number k (parens c)) ((f k).value v) := by
  obtain ⟨g, hg, hw, he⟩ := h.takes v k
  rw [number_parens, ← he]
  exact .parens hg hw

theorem Says.atom (e : Expr) : Says [.atom e] 1 .leaf := by
  refine ⟨rfl, fun v k => ⟨_, Operand.atom k {} rfl, rfl, ?_⟩⟩
  simp [Frame.put, Frame.value, Formula.value]

theorem Says.one : Says [.one] 0 fun _ => .neutral :=
  ⟨rfl, fun _ _ => ⟨_, Operand.one {} rfl, rfl, rfl⟩⟩

theorem Says.not {c : Condition} {n : ℕ} {f : ℕ → Formula ℕ} (h : Says c n f) :
    Says (.not :: parens c) n fun k => .not (f k) := by
  refine ⟨by rw [ConditionTexts.atoms, atoms_parens, h.atoms], fun v k => ⟨_, (h.operand v k).not {} rfl, rfl, ?_⟩⟩
  simp [Frame.put, Frame.value, Formula.value]

theorem AllSay.nil : AllSay [] 0 fun _ => [] := ⟨rfl, fun _ _ => .nil⟩

theorem AllSay.cons {c : Condition} {cs : List Condition} {m n : ℕ} {f : ℕ → Formula ℕ} {fs : ℕ → List (Formula ℕ)}
    (h : Says c m f) (hs : AllSay cs n fs) : AllSay (parens c :: cs) (m + n) fun k => f k :: fs (k + m) := by
  refine ⟨?_, fun v k => ?_⟩
  · rw [List.flatMap_cons, List.length_append, atoms_parens, h.atoms, hs.atoms]
  · rw [numberParts, atoms_parens, h.atoms, Formula.values]
    exact .cons (h.operand v k) (hs.operands v _)

theorem AllSay.join {cs : List Condition} {n : ℕ} {fs : ℕ → List (Formula ℕ)} (h : AllSay cs n fs) (hne : cs ≠ []) (conj : Bool) :
    Says (join conj cs) n fun k => .join conj (fs k) := by
  refine ⟨by rw [atoms_join, h.atoms], fun v k => ?_⟩
  rw [number_join]
  refine (h.operands v k).join ?_ conj
  cases cs with
  | nil => exact absurd rfl hne
  | cons c cs => simp [numberParts]

/-- What the atomic conditions say when AND stands between them. -/
theorem Says.conjunction (es : List Expr) (hne : es ≠ []) :
    Says (ConditionTexts.join true (es.map fun e => [.atom e])) es.length
      fun k => .join true ((List.range' k es.length).map .leaf) := by
  have hall : ∀ es : List Expr, (es.flatMap fun e => ConditionTexts.atoms [.atom e]).length = es.length ∧
      ∀ (v : ℕ → Bool) k, Operands v (numberParts k (es.map fun e => [.atom e]))
        (Formula.values v ((List.range' k es.length).map .leaf)) := by
    intro es
    induction es with
    | nil => exact ⟨rfl, fun _ _ => .nil⟩
    | cons e es ih =>
      refine ⟨by simp [ConditionTexts.atoms], fun v k => ?_⟩
      rw [List.map_cons, numberParts, List.length_cons, List.range'_succ, List.map_cons, Formula.values]
      exact .cons (Operand.atom k) (ih.2 v (k + 1))
  refine ⟨?_, fun v k => ?_⟩
  · rw [atoms_join, List.flatMap_map]
    exact (hall es).1
  · rw [number_join]
    refine ((hall es).2 v k).join ?_ true
    cases es with
    | nil => exact absurd rfl hne
    | cons e es => simp [numberParts]

variable (req : Request ν)

theorem equals_meaning {e : Expr} {v : Bytes} {b b' : Builder} {c : Condition} (h : equals e v b = .ok (c, b')) : Says c 1 .leaf := by
  obtain ⟨p, d, -, h⟩ := bind_ok.mp h
  obtain ⟨rfl, -⟩ := Prod.mk.inj (pure_ok.mp h)
  exact .atom _

theorem compares_atom {e : Expr} {cmp : Cmp} {v : Bytes} {b b' : Builder} {c : Condition}
    (h : compares e cmp v b = .ok (c, b')) : ∃ d, c = [.atom d] := by
  obtain ⟨p, d, -, h⟩ := bind_ok.mp h
  obtain ⟨rfl, -⟩ := Prod.mk.inj (pure_ok.mp h)
  exact ⟨_, rfl⟩

theorem vitalTerm_meaning {vital : Bytes} {cmp : Cmp} {v : Value ν} {b b' : Builder} {c : Condition}
    (h : vitalTerm vital cmp (valueText lib v) b = .ok (c, b')) :
    Says c (vitalAtoms lib cmp v) fun k => .join true ((List.range' k (vitalAtoms lib cmp v)).map .leaf) := by
  obtain ⟨p, d, -, h⟩ := bind_ok.mp h
  unfold vitalAtoms
  split_ifs at h ⊢
  · obtain ⟨rfl, -⟩ := Prod.mk.inj (pure_ok.mp h)
    exact .conjunction [_, _] (by simp)
  · obtain ⟨c', d', hc, h⟩ := bind_ok.mp h
    obtain ⟨e, rfl⟩ := compares_atom hc
    obtain ⟨rfl, -⟩ := Prod.mk.inj (pure_ok.mp h)
    exact .conjunction [_, _, e] (by simp)

theorem facetTerm_meaning {f : Bytes} {cmp : Cmp} {v : Value ν} {b b' : Builder} {c : Condition}
    (h : facetTerm lib req f cmp v b = .ok (c, b')) :
    Says c (count lib (.facet f cmp v)) fun k => formula lib k (.facet f cmp v) := by
  have hleaf (hon : f ≠ bytes "on") (hvital : hasPrefix f "rum.vital." = false) (hc : Says c 1 .leaf) :
      Says c (count lib (.facet f cmp v)) fun k => formula lib k (.facet f cmp v) := by
    simpa [count, formula, hon, hvital] using hc
  unfold facetTerm at h
  by_cases hm : f = bytes "metric"
  · subst hm
    rw [if_pos rfl] at h
    exact hleaf (by decide) (by decide) (equals_meaning h)
  rw [if_neg hm] at h
  by_cases hon : f = bytes "on"
  · rw [if_pos hon] at h
    obtain ⟨rfl, -⟩ := Prod.mk.inj (pure_ok.mp h)
    simpa [count, formula, hon] using Says.one
  rw [if_neg hon] at h
  by_cases hcheck : f = bytes "check"
  · subst hcheck
    rw [if_pos rfl] at h
    refine hleaf hon (by decide) ?_
    cases hid : req.monitors (valueText lib v) with
    | some id =>
      rw [hid] at h
      exact equals_meaning h
    | none =>
      rw [hid] at h
      exact absurd h invalid_ok
  rw [if_neg hcheck] at h
  cases hvital : hasPrefix f "rum.vital." with
  | true =>
    rw [hvital, if_pos rfl] at h
    simpa [count, formula, hon, hvital] using vitalTerm_meaning lib h
  | false =>
    rw [hvital, if_neg (by decide)] at h
    refine hleaf hon hvital ?_
    obtain ⟨e, d, -, h⟩ := bind_ok.mp h
    split_ifs at h
    · obtain ⟨e', rfl⟩ := compares_atom h
      exact .atom e'
    · obtain ⟨rfl, -⟩ := Prod.mk.inj (pure_ok.mp h)
      exact .atom _
    · exact equals_meaning h

theorem text_meaning {s : Bytes} {b b' : Builder} {c : Condition} (h : text req s b = .ok (c, b')) : Says c 1 .leaf := by
  have hin {column : String} (h : textIn column s b = .ok (c, b')) : Says c 1 .leaf := by
    obtain ⟨p, d, -, h⟩ := bind_ok.mp h
    obtain ⟨rfl, -⟩ := Prod.mk.inj (pure_ok.mp h)
    exact .atom _
  unfold text at h
  revert h
  cases req.signal with
  | logs | traces | events | metrics => exact hin
  | checks | other _ => exact fun h => absurd h invalid_ok

theorem terms_ne_nil {ts : List (Term ν)} {b b' : Builder} {cs : List Condition} (h : terms lib req ts b = .ok (cs, b'))
    (hne : ts ≠ []) : cs ≠ [] := by
  obtain ⟨t, ts, rfl⟩ := List.exists_cons_of_ne_nil hne
  rw [terms] at h
  obtain ⟨c, d, -, h⟩ := bind_ok.mp h
  obtain ⟨cs', d', -, h⟩ := bind_ok.mp h
  obtain ⟨rfl, -⟩ := Prod.mk.inj (pure_ok.mp h)
  simp

mutual

theorem term_meaning : ∀ (t : Term ν) {b b' : Builder} {c : Condition}, grouped t = true →
    QueryCompiler.term lib req t b = .ok (c, b') → Says c (count lib t) fun k => formula lib k t
  | .not t, b, b', c, ht, h => by
    rw [QueryCompiler.term] at h
    obtain ⟨c', d, hc, h⟩ := bind_ok.mp h
    obtain ⟨rfl, -⟩ := Prod.mk.inj (pure_ok.mp h)
    simpa only [count, formula] using (term_meaning t ht hc).not
  | .op op ts, b, b', c, ht, h => by
    rw [QueryCompiler.term] at h
    obtain ⟨cs, d, hcs, h⟩ := bind_ok.mp h
    obtain ⟨rfl, -⟩ := Prod.mk.inj (pure_ok.mp h)
    rw [grouped, Bool.and_eq_true] at ht
    simpa only [count, formula] using (terms_say ts ht.2 hcs).join (terms_ne_nil lib req hcs (by simpa using ht.1)) (op = .and)
  | .text s, b, b', c, _, h => by
    rw [QueryCompiler.term] at h
    simpa only [count, formula] using text_meaning req h
  | .facet f cmp v, b, b', c, _, h => by
    rw [QueryCompiler.term] at h
    exact facetTerm_meaning lib req h

theorem terms_say : ∀ (ts : List (Term ν)) {b b' : Builder} {cs : List Condition}, allGrouped ts = true →
    terms lib req ts b = .ok (cs, b') → AllSay cs (countAll lib ts) fun k => formulas lib k ts
  | [], b, b', cs, _, h => by
    rw [terms] at h
    obtain ⟨rfl, -⟩ := Prod.mk.inj (pure_ok.mp h)
    simpa only [countAll, formulas] using AllSay.nil
  | t :: ts, b, b', cs, ht, h => by
    rw [terms] at h
    obtain ⟨c, d, hc, h⟩ := bind_ok.mp h
    obtain ⟨cs', d', hcs, h⟩ := bind_ok.mp h
    obtain ⟨rfl, -⟩ := Prod.mk.inj (pure_ok.mp h)
    rw [allGrouped, Bool.and_eq_true] at ht
    simpa only [countAll, formulas] using AllSay.cons (term_meaning t ht.1 hc) (terms_say ts ht.2 hcs)

end

/-- A filter that says nothing is left out of the conjunction, where it would change nothing. -/
theorem conditions_say {ts : List (Term ν)} {b b' : Builder} {cs : List Condition} (hts : allGrouped ts = true)
    (h : conditions lib req ts b = .ok (cs, b')) (v : ℕ → Bool) (k : ℕ) :
    ∃ bs, Operands v (numberParts k cs) bs ∧ combine true bs = combine true (Formula.values v (formulas lib k ts)) := by
  induction ts generalizing b cs k with
  | nil =>
    obtain ⟨rfl, -⟩ := Prod.mk.inj (pure_ok.mp h)
    exact ⟨[], .nil, rfl⟩
  | cons t ts ih =>
    obtain ⟨c, d, hc, h⟩ := bind_ok.mp h
    obtain ⟨cs', d', hcs, h⟩ := bind_ok.mp h
    obtain ⟨rfl, rfl⟩ := Prod.mk.inj (pure_ok.mp h)
    rw [allGrouped, Bool.and_eq_true] at hts
    have hmeaning := term_meaning lib req t hts.1 hc
    obtain ⟨bs, hbs, he⟩ := ih hts.2 hcs (k + count lib t)
    rw [formulas, Formula.values, combine_cons, cond_true, ← he]
    split_ifs with hone
    · subst hone
      obtain ⟨g, hg, hw, hv⟩ := hmeaning.takes v k
      have htrue : Formula.value v (formula lib k t) = true := by
        have := (hg.eval hw).symm.trans ((Operand.one {} rfl).eval rfl)
        rw [← hv]
        simpa [Frame.put, Frame.value] using this
      have hzero : count lib t = 0 := hmeaning.atoms.symm
      rw [hzero, Nat.add_zero] at hbs
      exact ⟨bs, hbs, by rw [htrue, Bool.true_and]⟩
    · refine ⟨_ :: bs, ?_, combine_cons _ _ _⟩
      rw [numberParts, atoms_parens, hmeaning.atoms]
      exact .cons (hmeaning.operand v k) hbs

/-! ## The whole filter -/

theorem base_operands (es : List Expr) (v : ℕ → Bool) (k : ℕ) :
    Operands v (numberParts k (es.map fun e => [.atom e])) ((List.range' k es.length).map v) := by
  induction es generalizing k with
  | nil => exact .nil
  | cons e es ih =>
    rw [List.map_cons, numberParts, List.length_cons, List.range'_succ, List.map_cons]
    exact .cons (Operand.atom k) (ih (k + 1))

theorem combine_append (bs cs : List Bool) : combine true (bs ++ cs) = (combine true bs && combine true cs) := by
  induction bs with
  | nil => simp [combine]
  | cons b bs ih => rw [List.cons_append, combine_cons, combine_cons, cond_true, cond_true, ih, Bool.and_assoc]

/-- The filters of a query that says nothing else, with what is not said written as true. -/
def written (v : ℕ → Bool) (k : ℕ) (ts : List (Term ν)) : Bool := combine true (Formula.values v (formulas lib k ts))

/-- What the filters are documented to say, over their atomic conditions. -/
def documented (v : ℕ → Bool) (k : ℕ) (ts : List (Term ν)) : Bool := combine true (Formula.meanings v (formulas lib k ts))

/-- The WHERE clause begins with the conditions on org and range and those of the signal, and
is true of a row if these and the filters as they are written are. -/
theorem where_meaning {ts : String} {c : Condition} {b : Builder} (hg : allGrouped req.ast.filters = true)
    (h : where_ lib req ts {} = .ok (c, b)) :
    (∃ es, atoms c = base req ts ++ es) ∧ ∀ v : ℕ → Bool, eval v (number 0 c) =
      some (combine true ((List.range (base req ts).length).map v) && written lib v (base req ts).length req.ast.filters) := by
  obtain ⟨cs, hcs, rfl⟩ := (where_ok lib req).mp h
  have hatoms (es : List Expr) : (es.map fun e => [Token.atom e]).flatMap atoms = es := by
    induction es with
    | nil => rfl
    | cons e es ih => rw [List.map_cons, List.flatMap_cons, ih]; rfl
  refine ⟨⟨cs.flatMap atoms, ?_⟩, fun v => ?_⟩
  · rw [atoms_join, List.flatMap_append, hatoms]
  · obtain ⟨bs, hbs, he⟩ := conditions_say lib req hg hcs v (base req ts).length
    have hall := (base_operands (base req ts) v 0).append (by simpa using hbs)
    obtain ⟨g, hg, hw, hv⟩ := hall.join (by simp [base, numberParts]) true
    rw [number_join, numberParts_append, hatoms, Nat.zero_add, hg.eval hw, hv, combine_append, he, written, List.range_eq_range']

theorem baseParams_first {ts : String} {c : Condition} {b : Builder} (h : where_ lib req ts {} = .ok (c, b)) :
    baseParams lib req <+: b.params := by
  obtain ⟨cs, hcs, -⟩ := (where_ok lib req).mp h
  exact (numbered_conditions lib req [] req.ast.filters _ cs b (by rfl) (within_nil _) hcs).2.1

/-- A WHERE clause begins with the conditions on org, range and signal, whose placeholders are
bound to the request's. It is true of just the rows that these and the filters as documented are
true of, for all rows, if and only if no filter that says nothing stands under a NOT or in an OR
where it would say something. -/
theorem where_documented_iff {q : Bytes} {c : Condition} {params : List (ℕ × Bytes)} (hq : parse lib.toLibrary q = .ok req.ast)
    (h : filterClause lib req = .ok (c, params)) :
    (∃ es, atoms c = base req (source req).2 ++ es) ∧ baseParams lib req <+: params ∧
    ((∀ v : ℕ → Bool, eval v (number 0 c) =
      some (combine true ((List.range (base req (source req).2).length).map v) &&
        documented lib v (base req (source req).2).length req.ast.filters)) ↔
    Formula.harmlessIn true (formulas lib (base req (source req).2).length req.ast.filters) = true) := by
  obtain ⟨b, hw, rfl⟩ := filterClause_ok lib req h
  obtain ⟨hatoms, heval⟩ := where_meaning lib req (parse_grouped hq) hw
  refine ⟨hatoms, baseParams_first lib req hw, ?_⟩
  have hnd : (Formula.allLeaves (formulas lib (base req (source req).2).length req.ast.filters)).Nodup := by
    rw [leaves_formulas]
    exact List.nodup_range'
  rw [← Formula.conjunction_agrees_iff hnd]
  generalize base req (source req).2 = base at heval ⊢
  constructor
  · intro h v
    -- Whether the row is of the org, the range and the signal is left out of what the filters are about.
    have hv := (heval fun k => if k < base.length then true else v k).symm.trans (h _)
    have hbase : combine true ((List.range base.length).map fun k => if k < base.length then true else v k) = true := by
      rw [combine_eq_iff]
      intro c hc
      obtain ⟨k, hk, rfl⟩ := List.mem_map.mp hc
      exact if_pos (List.mem_range.mp hk)
    have hcongr : ∀ k ∈ Formula.allLeaves (formulas lib base.length req.ast.filters),
        (if k < base.length then true else v k) = v k := by
      intro k hk
      rw [leaves_formulas] at hk
      exact if_neg (by have := (List.mem_range'_1.mp hk).1; omega)
    rw [hbase, Bool.true_and, Bool.true_and, written, documented, Formula.values_congr hcongr, Formula.meanings_congr hcongr] at hv
    exact Option.some.inj hv
  · intro h v
    rw [heval v, written, documented, h v]

/-- Where a row tells which of the atomic conditions are true. -/
theorem where_row {q : Bytes} {c : Condition} {params : List (ℕ × Bytes)} (hq : parse lib.toLibrary q = .ok req.ast)
    (h : filterClause lib req = .ok (c, params))
    (hs : Formula.harmlessIn true (formulas lib (base req (source req).2).length req.ast.filters) = true) (row : Expr → Bool) :
    eval row c = some (combine true ((base req (source req).2).map row) &&
      documented lib (fun k => (atoms c)[k]?.elim false row) (base req (source req).2).length req.ast.filters) := by
  obtain ⟨⟨es, hes⟩, -, hiff⟩ := where_documented_iff lib req hq h
  rw [eval_number, hiff.mpr hs]
  generalize base req (source req).2 = base at hes ⊢
  have hmap : (List.range base.length).map (fun k => (atoms c)[k]?.elim false row) = base.map row := by
    apply List.ext_getElem (by simp)
    intro k hk hk'
    rw [List.length_map] at hk'
    rw [List.getElem_map, List.getElem_map, List.getElem_range, hes, List.getElem?_append_left hk', List.getElem?_eq_getElem hk',
      Option.elim_some]
  rw [hmap]

end

/-- Numbers told by their digits, steps of whole seconds, and times of the first day. -/
def digitFormats : Formats PrintedQueries.Digits where
  toLibrary := PrintedQueries.digitLibrary
  parseDuration := fun
    | "1m" => some 60000000000
    | _ => none
  seconds d := d / 1000000000
  seconds_lt d hd := by
    unfold SeriesAssembly.nsPerSecond
    omega
  lt_seconds d hd := by
    unfold SeriesAssembly.nsPerSecond
    omega
  stepSeconds d := decimal (d / 1000000000)
  formatTime t :=
    let two (n : ℕ) : Bytes := (if n < 10 then bytes "0" else []) ++ decimal n
    let seconds := t.toNat / 1000000000
    bytes "1970-01-01 " ++ two (seconds / 3600) ++ bytes ":" ++ two (seconds / 60 % 60) ++ bytes ":" ++ two (seconds % 60) ++ bytes ".000"

/-- A query of the first hour. -/
def hourRequest (signal : Signal) (ast : AST PrintedQueries.Digits) :
    Request PrintedQueries.Digits where
  ast := ast
  signal := signal
  orgId := bytes "org"
  from_ := 0
  to_ := 3600000000000
  step := 60000000000
  tier := .raw
  monitors := fun _ => none
  histogram := false
  limit := 0

def worded : AST PrintedQueries.Digits :=
  { filters := [.op .and [.facet (bytes "level") .eq (.str (bytes "error")), .facet (bytes "on") .eq (.str (bytes "down"))],
      .not (.facet (bytes "service") .eq (.str (bytes "web")))] }

/-- `(level:error on:down) -service:web` on logs. -/
theorem worded_documented : ∃ c params, filterClause digitFormats (hourRequest .logs worded) = .ok (c, params) ∧
    ∀ v : ℕ → Bool, eval v (number 0 c) = some (combine true ((List.range 4).map v) &&
      documented digitFormats v 4 worded.filters) := by
  obtain ⟨c, params, h⟩ : ∃ c params, filterClause digitFormats (hourRequest .logs worded) = .ok (c, params) := ⟨_, _, rfl⟩
  exact ⟨c, params, h, (where_documented_iff digitFormats (hourRequest .logs worded)
    (show parse _ (bytes "(level:error on:down) -service:web") = .ok worded by decide +kernel) h).2.2.mpr (by decide +kernel)⟩

/-- Of the log rows of the org and the range the empty query finds only those that are not
Upstat's own, and `-on:down` finds no trace. -/
theorem not_all_found :
    (parse digitFormats.toLibrary (bytes "") = .ok { filters := [] } ∧
      ∃ c params, filterClause digitFormats (hourRequest .logs { filters := [] }) = .ok (c, params) ∧
        eval (fun k => decide (k < 3)) (number 0 c) = some false ∧ documented digitFormats (fun k => decide (k < 3)) 4 [] = true) ∧
    let ast : AST PrintedQueries.Digits :=
      { filters := [.not (.facet (bytes "on") .eq (.str (bytes "down")))] }
    parse digitFormats.toLibrary (bytes "-on:down") = .ok ast ∧
      ∃ c params, filterClause digitFormats (hourRequest .traces ast) = .ok (c, params) ∧
        eval (fun _ => true) (number 0 c) = some false ∧ documented digitFormats (fun _ => true) 3 ast.filters = true := by
  refine ⟨⟨by decide +kernel, ?_⟩, by decide +kernel, ?_⟩
  · exact ⟨_, _, rfl, by decide +kernel, by decide +kernel⟩
  · exact ⟨_, _, rfl, by decide +kernel, by decide +kernel⟩

end Upstat.CompiledFilters
