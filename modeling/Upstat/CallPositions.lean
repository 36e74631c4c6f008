import Upstat.Occurrences
import Upstat.PrintedQueries

/-! # The position of a refused aggregation (`query/internal/grammar/grammar.go`)

`Validate` has no positions left and looks the function's name up in the query. A paren of
the filters stands in a quoted text or opens a group, and one of the aggregations follows
its function, so the places where the name could be found too early are known. -/
namespace Upstat.CallPositions

open QueryGrammar GrammarReadings Occurrences

variable {ν : Type} {lib : Library ν}

/-! ## The calls of a query -/

/-- An aggregation and what was left of the query where it began. -/
structure Call where
  rest : Bytes
  agg : Agg
  deriving DecidableEq

/-- `p.pos` where the call began -/
def Call.offset (q : Bytes) (c : Call) : ℕ := q.length - c.rest.length

/-- The aggregations as `aggs` reads them, each with where it began. -/
def callsFrom : ℕ → List Call → Bytes → Result (List Call × Bytes)
  | 0, _, _ => .error .unfinished
  | fuel + 1, cs, s => do
    let (a, r) ← agg s
    let r := space r
    if r.head? = some comma then callsFrom fuel (cs ++ [⟨s, a⟩]) (space (r.drop 1)) else .ok (cs ++ [⟨s, a⟩], r)

/-- The calls of a query, in order. -/
def calls (lib : Library ν) (q : Bytes) : Result (List Call) := do
  let (_, r) ← filters lib (2 * q.length + 1) [] (space q)
  match r with
  | [] => .ok []
  | _ :: r => do
    let (cs, _) ← callsFrom (q.length + 1) [] (space r)
    .ok cs

theorem callsFrom_aggs (fuel : ℕ) : ∀ (cs : List Call) (s : Bytes) (as : List Agg) (r : Bytes),
    aggs fuel (cs.map Call.agg) s = .ok (as, r) → ∃ cs', callsFrom fuel cs s = .ok (cs', r) ∧ cs'.map Call.agg = as := by
  induction fuel with
  | zero => simp [aggs]
  | succ fuel ih =>
    intro cs s as r h
    rw [aggs] at h
    obtain ⟨⟨a, r₁⟩, ha, h⟩ := bind_eq_ok.mp h
    dsimp only at h
    rw [callsFrom, ha]
    simp only [bind, Except.bind]
    split_ifs at h ⊢ with hc
    · have hmap : (cs ++ [Call.mk s a]).map Call.agg = cs.map Call.agg ++ [a] := by simp
      rw [← hmap] at h
      exact ih (cs ++ [⟨s, a⟩]) _ as r h
    · obtain ⟨rfl, rfl⟩ := Prod.mk.inj (Except.ok.inj h)
      exact ⟨_, rfl, by simp⟩

/-- The calls of an accepted query are its aggregations. -/
theorem calls_parse {q : Bytes} {ast : AST ν} (h : parse lib q = .ok ast) :
    ∃ cs, calls lib q = .ok cs ∧ cs.map Call.agg = ast.agg := by
  obtain ⟨ps, r, hps, ⟨rfl, hagg, -⟩ | ⟨s, rfl, hagg⟩⟩ := parse_eq_ok.mp h
  · refine ⟨[], ?_, hagg.symm⟩
    rw [calls, filters_eq_ok.mpr ⟨ps, hps⟩]
    rfl
  · rw [aggregation] at hagg
    split_ifs at hagg with hs
    · simp [fail] at hagg
    obtain ⟨⟨as', r⟩, ha, hagg⟩ := bind_eq_ok.mp hagg
    obtain ⟨⟨gs', r'⟩, -, hagg⟩ := bind_eq_ok.mp hagg
    have has : as' = ast.agg := by
      cases hsp : space r' with
      | nil =>
        simp only [hsp] at hagg
        exact (Prod.mk.inj (Except.ok.inj hagg)).1
      | cons c r'' =>
        simp only [hsp, fail] at hagg
        split_ifs at hagg
    obtain ⟨cs, hcs, hmap⟩ := callsFrom_aggs _ [] _ _ _ ha
    refine ⟨cs, ?_, hmap.trans has⟩
    rw [calls, filters_eq_ok.mpr ⟨ps, hps⟩]
    simp only [bind, Except.bind, hcs]

/-! ## Names of functions -/

/-- A byte of a function's name. -/
def nameByte (c : UInt8) : Bool :=
  ('a'.toUInt8 ≤ c ∧ c ≤ 'z'.toUInt8) ∨ ('0'.toUInt8 ≤ c ∧ c ≤ '9'.toUInt8)

/-- What does not end in a byte of a name. -/
def Fenced (last : Option UInt8) : Prop := ∀ c ∈ last, ¬nameByte c = true

theorem functions_name : ∀ f ∈ functions, f ≠ [] ∧ ∀ c ∈ f, nameByte c = true := by decide +kernel

/-- No function's name ends in another's. -/
theorem functions_suffix : ∀ f ∈ functions, ∀ g ∈ functions, f <:+ g → f = g := by decide +kernel

theorem lparen_notMem {f : Bytes} (hf : f ∈ functions) : lparen ∉ f := by
  intro hmem
  exact absurd ((functions_name f hf).2 lparen hmem) (by decide)

theorem not_nameByte_of_isSpace {c : UInt8} (h : isSpace c = true) : ¬nameByte c = true := by
  intro hname
  have hident : identByte c false = true := by
    simp only [nameByte, identByte, decide_eq_true_eq] at hname ⊢
    tauto
  rw [identByte_not_space hident] at h
  cases h

theorem Fenced.blank {sp : Bytes} (hb : Blank sp) {last : Option UInt8} (h : sp = [] → Fenced last) :
    Fenced (sp.getLast?.or last) := by
  cases hlast : sp.getLast? with
  | none => exact h (List.getLast?_eq_none_iff.mp hlast)
  | some c =>
    intro d hd
    obtain rfl : c = d := by simpa using hd
    exact not_nameByte_of_isSpace (hb c (List.mem_of_getLast? hlast))

theorem blank_lparen {sp : Bytes} (h : Blank sp) : lparen ∉ sp := by
  intro hmem
  exact absurd (h lparen hmem) (by decide)

theorem not_suffix_of_fenced {f left : Bytes} (hf : f ∈ functions) (h : Fenced left.getLast?) : ¬f <:+ left := by
  intro hsuffix
  have hnil : f <:+ left ++ [] := by rwa [List.append_nil]
  have := suffix_of_append (p := fun c => nameByte c = true) (functions_name f hf).2 h hnil
  exact (functions_name f hf).1 (List.suffix_nil.mp this)

/-- A paren after a function's name is an occurrence of that function only. -/
theorem suffix_call_iff {f g left : Bytes} (hf : f ∈ functions) (hg : g ∈ functions) (h : Fenced left.getLast?) :
    f <:+ left ++ g ↔ f = g := by
  constructor
  · intro hsuffix
    exact functions_suffix f hf g hg (suffix_of_append (p := fun c => nameByte c = true) (functions_name f hf).2 h hsuffix)
  · intro hfg
    exact hfg ▸ List.suffix_append left f

/-! ## Parens of the filters -/

/-- What a piece may have to do with parens, after a byte `last`: one that opens a group follows
no name, and in a word or a value one is quoted. -/
def Plain (last : Option UInt8) : Piece → Prop
  | .opening => Fenced last
  | .space s => Blank s
  | .leaf l => ∀ l₁ l₂, l = l₁ ++ lparen :: l₂ → dquote ∈ l₁
  | _ => True

def AllPlain : Option UInt8 → List Piece → Prop
  | _, [] => True
  | last, p :: ps => Plain last p ∧ AllPlain (p.text.getLast?.or last) ps

theorem AllPlain.append {last : Option UInt8} {ps qs : List Piece} (h : AllPlain last ps)
    (h' : AllPlain ((text ps).getLast?.or last) qs) : AllPlain last (ps ++ qs) := by
  induction ps generalizing last with
  | nil => exact h'
  | cons p ps ih =>
    refine ⟨h.1, ih h.2 ?_⟩
    rw [text_cons, List.getLast?_append, Option.or_assoc] at h'
    exact h'

theorem bare_lparen {s text r : Bytes} (h : bare s = (text, r)) : lparen ∉ text := by
  intro hmem
  have hall := (bare_split s).2
  rw [h] at hall
  exact absurd (hall lparen hmem) (by decide)

theorem ident_lparen {name : Bytes} (h : IsIdent name) : lparen ∉ name := by
  intro hmem
  exact absurd (h.bare lparen hmem) (by decide)

theorem comparator_lparen (s : Bytes) : ∃ o, s = o ++ (comparator s).2 ∧ lparen ∉ o := by
  have hplain : ∀ o ∈ comparators, lparen ∉ o.1 := by decide +kernel
  unfold comparator
  cases hfind : comparators.find? fun o => o.1.isPrefixOf s with
  | none => exact ⟨[], rfl, List.not_mem_nil⟩
  | some o =>
    have hfound : o.1.isPrefixOf s = true := List.find?_some (p := fun o : Bytes × Cmp => o.1.isPrefixOf s) hfind
    have hpre : o.1 <+: s := List.isPrefixOf_iff_prefix.mp hfound
    exact ⟨o.1, (List.prefix_iff_eq_append.mp hpre).symm, hplain o (List.mem_of_find?_eq_some hfind)⟩

/-- The quote that begins a text is before every paren of it. -/
theorem dquote_before {s l₁ l₂ : Bytes} (hs : s.head? = some dquote) (h : s = l₁ ++ lparen :: l₂) : dquote ∈ l₁ := by
  subst h
  cases l₁ with
  | nil => exact absurd (Option.some.inj hs) (by decide)
  | cons c l₁ =>
    obtain rfl : c = dquote := by simpa using hs
    exact List.mem_cons_self

theorem rawValue_paren {s raw l₁ l₂ : Bytes} {isQuoted : Bool} (h : rawValue s = .ok ((raw, isQuoted), []))
    (hs : s = l₁ ++ lparen :: l₂) : dquote ∈ l₁ := by
  by_cases hq : s.head? = some dquote
  · exact dquote_before hq hs
  · rw [rawValue, if_neg hq] at h
    have hbare : bare s = ((bare s).1, []) := Prod.ext rfl (Prod.mk.inj (Except.ok.inj h)).2
    have hall : s = (bare s).1 := by
      have := (bare_split s).1
      rwa [hbare, List.append_nil] at this
    exact absurd (by rw [← hall, hs]; simp) (bare_lparen hbare)

/-- A paren of an atomic term is quoted. -/
theorem paren_quoted {l : Bytes} {t : Term ν} (h : Atomic lib l t) : ∀ l₁ l₂, l = l₁ ++ lparen :: l₂ → dquote ∈ l₁ := by
  intro l₁ l₂ hl
  obtain ⟨c, l, rfl⟩ := List.exists_cons_of_ne_nil h.ne_nil
  have hread := h.reads [] Ends.nil
  rw [List.append_nil] at hread
  by_cases hq : c = dquote
  · exact dquote_before (by rw [hq]; rfl) hl
  · rw [atom_eq_named hq] at hread
    obtain ⟨name, s, hs, hi, -, hv⟩ | ⟨text, hb, -, -, -⟩ := named_cases hread
    · obtain ⟨raw, isQuoted, hraw, -⟩ := facetValue_eq_ok.mp hv
      obtain ⟨o, hcmp, ho⟩ := comparator_lparen s
      have hfacet : lparen ∉ name ++ colon :: o := by
        rw [List.mem_append, List.mem_cons]
        rintro (hmem | hmem | hmem)
        · exact ident_lparen hi hmem
        · exact absurd hmem (by decide)
        · exact ho hmem
      have hvalue : (name ++ colon :: o) ++ (comparator s).2 = l₁ ++ lparen :: l₂ := by
        rw [← hl, hs, List.append_assoc, List.cons_append, ← hcmp]
      obtain ⟨l₁', rfl, hv'⟩ := split_after hfacet hvalue
      exact List.mem_append_right _ (rawValue_paren hraw hv')
    · have hall := (bare_split (c :: l)).1
      simp only [hb, List.append_nil] at hall
      have hmem : lparen ∈ text := by
        rw [← hall, hl]
        simp
      exact absurd hmem (bare_lparen hb)

/-- The rest of a group that begins with a paren only closes it. -/
theorem closing_of_head {ps : List Piece} {branches seq : List (Term ν)} {t : Term ν}
    (h : Reading lib ps (.inside branches seq t)) (hhead : (text ps).head? = some rparen) : ps = [.closing] := by
  cases h with
  | close _ => rfl
  | or _ _ _ _ =>
    rw [text_cons] at hhead
    exact absurd (Option.some.inj hhead) (by decide)
  | @item _ _ ps qs sp t u hterm _ _ _ _ =>
    obtain ⟨c, s, hc, -⟩ := hterm.head
    rw [text_append, hc] at hhead
    exact absurd (Option.some.inj hhead) (hterm.head_ne_rparen c (by rw [hc]; rfl))

theorem reading_plain {ps : List Piece} {n : Node ν} (h : Reading lib ps n) :
    ∀ last, Fenced last → AllPlain last ps := by
  have hfence : ∀ c, nameByte c = false → Fenced (some c) := by
    intro c hc d hd
    obtain rfl : c = d := by simpa using hd
    simp [hc]
  induction h with
  | leaf h => exact fun last _ => ⟨paren_quoted h, trivial⟩
  | not _ ih => exact fun last _ => ⟨trivial, ih _ (hfence minus (by decide))⟩
  | group hb _ ih => exact fun last hlast => ⟨hlast, hb, ih _ (Fenced.blank hb fun _ => hfence lparen (by decide))⟩
  | close _ => exact fun last _ => ⟨trivial, trivial⟩
  | or _ hb _ _ ih => exact fun last _ => ⟨trivial, hb, ih _ (Fenced.blank hb fun _ => hfence 'R'.toUInt8 (by decide))⟩
  | @item branches seq ps qs sp t u _ _ hb hsp hrest ih ih' =>
    intro last hlast
    refine (ih last hlast).append ⟨hb, ?_⟩
    by_cases hnil : sp = []
    · -- Without whitespace the group closes here.
      rw [closing_of_head hrest (hsp hnil)]
      exact ⟨trivial, trivial⟩
    · exact ih' _ (Fenced.blank hb fun h => absurd h hnil)

theorem filters_plain {ps : List Piece} {ts : List (Term ν)} (h : FilterReading lib ps ts) :
    ∀ last, Fenced last → AllPlain last ps := by
  induction h with
  | nil => exact fun last _ => trivial
  | @cons ps qs sp t ts hterm hb hsp _ ih =>
    intro last hlast
    refine (reading_plain hterm last hlast).append ⟨hb, ?_⟩
    by_cases hnil : sp = []
    · rw [hsp hnil]
      trivial
    · exact ih _ (Fenced.blank hb fun h => absurd h hnil)

/-! ## Where a function's name and a paren stand in a query -/

variable {f : Bytes}

/-- A term's own bytes are searched alone: what is before them does not reach the quote. -/
theorem free_leaf {left l : Bytes} (hf : f ∈ functions) (hl : ∀ l₁ l₂, l = l₁ ++ lparen :: l₂ → dquote ∈ l₁) :
    Free f lparen left l ↔ ¬(f ++ [lparen]) <:+: l := by
  constructor
  · intro h ⟨a, b, hab⟩
    refine h (a ++ f) b (by rw [← hab]; simp) ?_
    rw [← List.append_assoc]
    exact List.suffix_append _ f
  · intro h l₁ l₂ hs hsuffix
    have hquote := hl l₁ l₂ hs
    have hown : f <:+ l₁ := by
      rcases List.suffix_or_suffix_of_suffix hsuffix (List.suffix_append left l₁) with hown | hlong
      · exact hown
      · exact absurd ((functions_name f hf).2 dquote (hlong.mem hquote)) (by decide)
    obtain ⟨a, ha⟩ := hown
    exact h ⟨a, l₂, by rw [hs, ← ha]; simp⟩

theorem free_piece (hf : f ∈ functions) {left : Bytes} {p : Piece} (hp : Plain left.getLast? p) :
    Free f lparen left p.text ↔ ∀ l, p = .leaf l → ¬(f ++ [lparen]) <:+: l := by
  cases p with
  | minus => exact iff_of_true (free_of_notMem (by decide)) nofun
  | closing => exact iff_of_true (free_of_notMem (by decide)) nofun
  | or => exact iff_of_true (free_of_notMem (by decide)) nofun
  | space sp => exact iff_of_true (free_of_notMem (blank_lparen hp)) nofun
  | opening => exact iff_of_true (free_mark.mpr (not_suffix_of_fenced hf hp)) nofun
  | leaf l =>
    rw [Piece.text, free_leaf hf hp]
    constructor
    · intro h l' hl'
      obtain rfl := Piece.leaf.inj hl'
      exact h
    · intro h
      exact h l rfl

theorem free_pieces (hf : f ∈ functions) {ps : List Piece} : ∀ left : Bytes, AllPlain left.getLast? ps →
    (Free f lparen left (text ps) ↔ ∀ l, .leaf l ∈ ps → ¬(f ++ [lparen]) <:+: l) := by
  induction ps with
  | nil =>
    intro left _
    exact iff_of_true (free_of_notMem List.not_mem_nil) nofun
  | cons p ps ih =>
    intro left hplain
    have hrest : AllPlain (left ++ p.text).getLast? ps := by
      rw [List.getLast?_append]
      exact hplain.2
    rw [text_cons, free_append, free_piece hf hplain.1, ih _ hrest]
    constructor
    · intro h l hl
      rcases List.mem_cons.mp hl with heq | hl
      · exact h.1 l heq.symm
      · exact h.2 l hl
    · intro h
      exact ⟨fun l hp => h l (List.mem_cons.mpr (.inl hp.symm)), fun l hl => h l (List.mem_cons_of_mem p hl)⟩

/-- An aggregation is its function and a paren, and has no other. -/
theorem agg_text {s r : Bytes} {a : Agg} (h : agg s = .ok (a, r)) :
    a.fn ∈ functions ∧ ∃ args, s = a.fn ++ lparen :: args ++ r ∧ lparen ∉ args := by
  obtain ⟨fn, r₁, hfn⟩ : ∃ fn r₁, ident s = (fn, r₁) := ⟨_, _, rfl⟩
  obtain ⟨field, r₂, hfield⟩ : ∃ field r₂, ident (space (r₁.drop 1)) = (field, r₂) := ⟨_, _, rfl⟩
  simp only [agg, hfn, hfield, fail] at h
  by_cases h₁ : fn = []
  · simp [h₁] at h
  by_cases h₂ : fn ∉ functions
  · simp [h₁, h₂] at h
  by_cases h₃ : r₁.head? ≠ some lparen
  · simp [h₁, h₂, h₃] at h
  by_cases h₄ : (space r₂).head? ≠ some rparen
  · simp [h₁, h₂, h₃, h₄] at h
  by_cases h₅ : field ≠ [] ∧ ¬knownFacet field = true ∧ ¬fieldName field = true
  · simp [h₁, h₂, h₃, h₄, h₅] at h
  rw [if_neg h₁, if_neg h₂, if_neg h₃, if_neg h₄, if_neg h₅] at h
  obtain ⟨rfl, rfl⟩ := Prod.mk.inj (Except.ok.inj h)
  refine ⟨not_not.mp h₂, ?_⟩
  obtain ⟨sp, hb, hsp, -⟩ := space_split (r₁.drop 1)
  obtain ⟨sp', hb', hsp', -⟩ := space_split r₂
  have hopen : r₁ = lparen :: r₁.drop 1 := by
    cases r₁ with
    | nil => simp at h₃
    | cons c r₁ => simpa using h₃
  have hclose : space r₂ = rparen :: (space r₂).drop 1 := by
    cases hr : space r₂ with
    | nil => simp [hr] at h₄
    | cons c r => simpa [hr] using h₄
  have hfieldp : lparen ∉ field := by
    rcases (ident_split hfield).2.1 with rfl | hi
    · exact List.not_mem_nil
    · exact ident_lparen hi
  refine ⟨sp ++ (field ++ (sp' ++ [rparen])), ?_, ?_⟩
  · calc s = fn ++ r₁ := (ident_split hfn).1
      _ = fn ++ lparen :: (sp ++ (field ++ (sp' ++ space r₂))) := by
        rw [hopen, hsp, (ident_split hfield).1, ← hsp']
      _ = fn ++ lparen :: (sp ++ (field ++ (sp' ++ [rparen]))) ++ (space r₂).drop 1 := by
        conv_lhs => rw [hclose]
        simp
  · simp only [List.mem_append, List.mem_singleton]
    rintro (hmem | hmem | hmem | hmem)
    · exact blank_lparen hb hmem
    · exact hfieldp hmem
    · exact blank_lparen hb' hmem
    · exact absurd hmem (by decide)

/-- Every aggregation before a call is searched in its function's name only. -/
theorem callsFrom_free (fuel : ℕ) : ∀ (acc : List Call) (s : Bytes) (cs : List Call) (r : Bytes),
    callsFrom fuel acc s = .ok (cs, r) → ∃ new, cs = acc ++ new ∧ ∀ before c after, new = before ++ c :: after →
      c.agg.fn ∈ functions ∧ (∃ args, c.rest = c.agg.fn ++ lparen :: args) ∧
        ∃ pre, s = pre ++ c.rest ∧ ∀ f ∈ functions, ∀ left : Bytes, Fenced left.getLast? →
          (Free f lparen left pre ↔ ∀ b ∈ before, b.agg.fn ≠ f) := by
  induction fuel with
  | zero => simp [callsFrom]
  | succ fuel ih =>
    intro acc s cs r h
    rw [callsFrom] at h
    obtain ⟨⟨a, r₁⟩, ha, h⟩ := bind_eq_ok.mp h
    dsimp only at h
    obtain ⟨hfn, args, hs, hargs⟩ := agg_text ha
    have hfirst : ∀ f ∈ functions, ∀ left : Bytes, Fenced left.getLast? →
        (Free f lparen left [] ↔ ∀ b ∈ ([] : List Call), b.agg.fn ≠ f) :=
      fun f _ left _ => iff_of_true (free_of_notMem List.not_mem_nil) (by simp)
    split_ifs at h with hc
    · obtain ⟨new, rfl, hnew⟩ := ih _ _ _ _ h
      refine ⟨⟨s, a⟩ :: new, by simp, ?_⟩
      intro before c after hsplit
      cases before with
      | nil =>
        obtain ⟨rfl, -⟩ := List.cons.inj hsplit
        exact ⟨hfn, ⟨args ++ r₁, by simp [hs]⟩, [], rfl, hfirst⟩
      | cons b before =>
        obtain ⟨rfl, htail⟩ := List.cons.inj hsplit
        obtain ⟨hcfn, hcrest, pre, hpre, hfree⟩ := hnew before c after htail
        refine ⟨hcfn, hcrest, ?_⟩
        obtain ⟨sp, hb, hsp, -⟩ := space_split r₁
        obtain ⟨sp', hb', hsp', -⟩ := space_split ((space r₁).drop 1)
        have hcomma : space r₁ = comma :: (space r₁).drop 1 := by
          cases hr : space r₁ with
          | nil => simp [hr] at hc
          | cons c r => simpa [hr] using hc
        refine ⟨a.fn ++ ([lparen] ++ ((args ++ (sp ++ comma :: sp')) ++ pre)), ?_, ?_⟩
        · rw [hs, hsp, hcomma, hsp', hpre]
          simp
        · intro f hf left hleft
          have hmiddle : lparen ∉ args ++ (sp ++ comma :: sp') := by
            simp only [List.mem_append, List.mem_cons]
            rintro (hmem | hmem | hmem | hmem)
            · exact hargs hmem
            · exact blank_lparen hb hmem
            · exact absurd hmem (by decide)
            · exact blank_lparen hb' hmem
          have hfenced : Fenced (left ++ a.fn ++ [lparen] ++ (args ++ (sp ++ comma :: sp'))).getLast? := by
            have hlast : (left ++ a.fn ++ [lparen] ++ (args ++ (sp ++ comma :: sp'))).getLast? =
                sp'.getLast?.or (some comma) := by simp [List.getLast?_append, List.getLast?_cons]
            rw [hlast]
            exact Fenced.blank hb' fun _ c hc => by
              obtain rfl : comma = c := by simpa using hc
              decide
          rw [free_append_of_notMem (lparen_notMem hfn), free_append, free_mark, suffix_call_iff hf hfn hleft,
            free_append_of_notMem hmiddle, hfree f hf _ hfenced, List.forall_mem_cons]
          exact and_congr_left' (by rw [eq_comm])
    · obtain ⟨rfl, rfl⟩ := Prod.mk.inj (Except.ok.inj h)
      refine ⟨[⟨s, a⟩], rfl, ?_⟩
      intro before c after hsplit
      cases before with
      | nil =>
        obtain ⟨rfl, -⟩ := List.cons.inj hsplit
        exact ⟨hfn, ⟨args ++ r₁, by simp [hs]⟩, [], rfl, hfirst⟩
      | cons b before => simp at hsplit

/-! ## What `Validate` tells -/

theorem index_eq_iff (hf : lparen ∉ f) (pre post : Bytes) :
    index (pre ++ (f ++ lparen :: post)) (f ++ [lparen]) = pre.length ↔ Free f lparen [] pre := by
  have hfound : (f ++ [lparen]).isPrefixOf ((pre ++ (f ++ lparen :: post)).drop pre.length) = true := by
    rw [List.drop_left, List.isPrefixOf_iff_prefix]
    exact ⟨post, by simp⟩
  have hlt : pre.length < (pre ++ (f ++ lparen :: post)).length + 1 := by
    rw [List.length_append]
    omega
  have hfind : (List.range ((pre ++ (f ++ lparen :: post)).length + 1)).find?
      (fun i => (f ++ [lparen]).isPrefixOf ((pre ++ (f ++ lparen :: post)).drop i)) = some pre.length ↔
      Free f lparen [] pre := by
    have hfree : (∀ i < pre.length, ¬(f ++ [lparen]) <+: (pre ++ (f ++ lparen :: post)).drop i) ↔ Free f lparen [] pre :=
      first_iff_free hf
    rw [← hfree, List.find?_range_eq_some]
    simp only [hfound, List.mem_range, hlt, true_and, Bool.not_eq_true', ← Bool.not_eq_true, List.isPrefixOf_iff_prefix]
  rw [← hfind]
  unfold index
  cases (List.range ((pre ++ (f ++ lparen :: post)).length + 1)).find?
      (fun i => (f ++ [lparen]).isPrefixOf ((pre ++ (f ++ lparen :: post)).drop i)) with
  | none => simp
  | some j =>
    rw [Option.some.injEq]
    exact Int.ofNat_inj

theorem refuse_position {isMetric : Bool} {q : Bytes} {a : Agg} {r : Refusal} (h : refuse isMetric q a = some r) :
    r.position = index q (a.fn ++ [lparen]) := by
  have hparen : bytes "(" = [lparen] := by decide
  have huniq : bytes "uniq(" = bytes "uniq" ++ [lparen] := by decide
  unfold refuse at h
  split_ifs at h with hsum hfield hfn hfield
  · rw [← Option.some.inj h, hparen]
  · rw [← Option.some.inj h, huniq, hfn]

/-- The first call of the query that lacks a field it needs, the calls before it, and what
`Validate` tells of it. -/
structure Rejected (lib : Library ν) (ast : AST ν) (q : Bytes) (refusal : Refusal) (before : List Call) (c : Call) :
    Prop where
  calls : ∃ after, calls lib q = .ok (before ++ c :: after)
  earlier : ∀ b ∈ before, refuse (hasFacet ast (bytes "metric")) q b.agg = none
  refused : refuse (hasFacet ast (bytes "metric")) q c.agg = some refusal

theorem exists_rejected {q : Bytes} {ast : AST ν} {refusal : Refusal} (hparse : parse lib q = .ok ast)
    (hrefused : validate ast q = some refusal) : ∃ before c, Rejected lib ast q refusal before c := by
  obtain ⟨cs, hcalls, hcs⟩ := calls_parse hparse
  obtain ⟨as, a, as', hagg, hr, hnone⟩ := List.findSome?_eq_some_iff.mp hrefused
  rw [hagg] at hcs
  obtain ⟨before, rest, rfl, hbefore, hrest⟩ := List.map_eq_append_iff.mp hcs
  obtain ⟨c, after, rfl, rfl, -⟩ := List.map_eq_cons_iff.mp hrest
  refine ⟨before, c, ⟨after, hcalls⟩, fun b hb => ?_, hr⟩
  exact hnone b.agg (hbefore ▸ List.mem_map_of_mem hb)

/-- `Validate` tells where the call it refuses begins exactly when no earlier call is of the
same function and no term of the filters has the function's name and a paren in it. -/
theorem position_exact_iff {q : Bytes} {ast : AST ν} {refusal : Refusal} (hparse : parse lib q = .ok ast)
    (hrefused : validate ast q = some refusal) :
    ∃ before c ps rest, Rejected lib ast q refusal before c ∧ QueryReading lib q ps ast.filters rest ∧
      (refusal.position = c.offset q ↔
        (∀ b ∈ before, b.agg.fn ≠ c.agg.fn) ∧ ∀ l, .leaf l ∈ ps → ¬(c.agg.fn ++ [lparen]) <:+: l) := by
  obtain ⟨before, c, hrejected⟩ := exists_rejected hparse hrefused
  obtain ⟨after, hcalls⟩ := hrejected.calls
  obtain ⟨ps, r, hps, hr⟩ := parse_eq_ok.mp hparse
  refine ⟨before, c, ps, r, hrejected, hps, ?_⟩
  rw [calls, filters_eq_ok.mpr ⟨ps, hps⟩] at hcalls
  obtain ⟨x, hx, hcalls⟩ := bind_eq_ok.mp hcalls
  obtain rfl := Except.ok.inj hx
  rcases hr with ⟨rfl, -, -⟩ | ⟨s, rfl, -⟩
  · have hnil : [] = before ++ c :: after := Except.ok.inj hcalls
    simp at hnil
  obtain ⟨⟨cs, r'⟩, hfrom, hcs⟩ := bind_eq_ok.mp hcalls
  obtain rfl : cs = before ++ c :: after := Except.ok.inj hcs
  obtain ⟨new, hnew, hcall⟩ := callsFrom_free _ _ _ _ _ hfrom
  obtain ⟨hfn, ⟨args, hargs⟩, pre, hpre, hfree⟩ := hcall before c after hnew.symm
  obtain ⟨sp, hb, hq⟩ := hps.text
  obtain ⟨sp', hb', hsp', -⟩ := space_split s
  have hpipe : lparen ∉ pipe :: sp' := by
    rw [List.mem_cons]
    rintro (hmem | hmem)
    · exact absurd hmem (by decide)
    · exact blank_lparen hb' hmem
  have hfenced : Fenced ([] ++ sp ++ text ps ++ pipe :: sp').getLast? := by
    have hlast : ([] ++ sp ++ text ps ++ pipe :: sp').getLast? = sp'.getLast?.or (some pipe) := by
      simp [List.getLast?_append, List.getLast?_cons]
    rw [hlast]
    refine Fenced.blank hb' fun _ c hc => ?_
    obtain rfl : pipe = c := by simpa using hc
    decide
  have hstart : Fenced ([] ++ sp).getLast? := by
    have hblank : Fenced (sp.getLast?.or none) := Fenced.blank hb fun _ c hc => by cases hc
    simpa using hblank
  have hwhole : q = (sp ++ (text ps ++ ((pipe :: sp') ++ pre))) ++ (c.agg.fn ++ lparen :: args) := by
    rw [hq, hsp', hpre, hargs]
    simp
  have hoffset : c.offset q = (sp ++ (text ps ++ ((pipe :: sp') ++ pre))).length := by
    rw [Call.offset, hargs, hwhole, List.length_append, Nat.add_sub_cancel]
  rw [refuse_position hrejected.refused, hoffset, hwhole, index_eq_iff (lparen_notMem hfn),
    free_append_of_notMem (blank_lparen hb), free_append, free_pieces hfn _ (filters_plain hps.filters _ hstart),
    free_append_of_notMem hpipe, hfree _ hfn _ hfenced, and_comm]

/-! ## A quoted text and an earlier call -/

open PrintedQueries (Digits digitLibrary)

/-- `| avg(value), avg()`, refused for its second call. -/
def second : Bytes := bytes "| avg(value), avg()"

def secondAst : AST Digits := { filters := [], agg := [⟨bytes "avg", bytes "value"⟩, ⟨bytes "avg", []⟩] }

def needsField (position : ℤ) : Refusal :=
  ⟨position, bytes "avg() needs a field here", bytes "for example avg(trace.duration_ms)"⟩

theorem position_exact_second :
    ∃ before c ps rest, Rejected digitLibrary secondAst second (needsField 2) before c ∧
      QueryReading digitLibrary second ps secondAst.filters rest ∧
      ((needsField 2).position = c.offset second ↔
        (∀ b ∈ before, b.agg.fn ≠ c.agg.fn) ∧ ∀ l, .leaf l ∈ ps → ¬(c.agg.fn ++ [lparen]) <:+: l) :=
  position_exact_iff (show parse digitLibrary second = .ok secondAst by decide +kernel) (by decide +kernel)

/-- The service's name is quoted with `avg(` in it. -/
def quotedName : Bytes := bytes "service:\"avg(\" | avg()"

def quotedAst : AST Digits where
  filters := [.facet (bytes "service") .eq (.str (bytes "avg("))]
  agg := [⟨bytes "avg", []⟩]

/-- The call that is refused begins at 17, and the position told is 9, in the name. -/
theorem quoted_position : parse digitLibrary quotedName = .ok quotedAst ∧
    validate quotedAst quotedName = some (needsField 9) ∧
    Rejected digitLibrary quotedAst quotedName (needsField 9) [] ⟨bytes "avg()", ⟨bytes "avg", []⟩⟩ ∧
    (needsField 9).position ≠ (Call.offset quotedName ⟨bytes "avg()", ⟨bytes "avg", []⟩⟩ : ℤ) := by
  refine ⟨by decide +kernel, by decide +kernel, ⟨⟨[], by decide +kernel⟩, nofun, by decide +kernel⟩, by decide +kernel⟩

end Upstat.CallPositions
