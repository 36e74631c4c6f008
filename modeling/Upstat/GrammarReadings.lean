import Mathlib.Data.List.TakeWhile
import Upstat.QueryGrammar

/-! # What the grammar accepts

A reading tells how the bytes of a query make up its terms. `parse` accepts a query if and only
if it has a reading, and gives the terms of it. -/
namespace Upstat.GrammarReadings

open QueryGrammar

variable {ν : Type} {lib : Library ν}

/-! ## Bytes -/

def Blank (s : Bytes) : Prop := ∀ c ∈ s, isSpace c = true

/-- What may follow a term. -/
def Ends (s : Bytes) : Prop := ∀ c ∈ s.head?, isSpace c = true ∨ c = rparen ∨ c = pipe

theorem Ends.nil : Ends [] := by simp [Ends]

theorem Ends.blank {sp s : Bytes} (hb : Blank sp) (h : sp = [] → Ends s) : Ends (sp ++ s) := by
  cases sp with
  | nil => exact h rfl
  | cons c sp =>
    intro d hd
    obtain rfl : c = d := by simpa using hd
    exact Or.inl (hb c (by simp))

theorem not_bareByte_of_ends {s : Bytes} (h : Ends s) : ∀ c ∈ s.head?, bareByte c = false := by
  intro c hc
  rcases h c hc with h | rfl | rfl
  · simp [bareByte, h]
  · decide
  · decide

theorem not_space_of_bareByte {c : UInt8} (h : bareByte c = true) : isSpace c = false := by
  simp only [bareByte, decide_eq_true_eq, not_or, Bool.not_eq_true] at h
  exact h.1

theorem space_blank {sp s : Bytes} (hb : Blank sp) (hs : ∀ c ∈ s.head?, isSpace c = false) : space (sp ++ s) = s := by
  unfold space
  rw [List.dropWhile_append_of_pos hb]
  cases s with
  | nil => rfl
  | cons c s => simp [hs c (by simp)]

theorem space_of_head {s : Bytes} (h : ∀ c ∈ s.head?, isSpace c = false) : space s = s := by
  have hb : Blank [] := by simp [Blank]
  exact space_blank hb h

theorem space_split (s : Bytes) : ∃ sp, Blank sp ∧ s = sp ++ space s ∧ ∀ c ∈ (space s).head?, isSpace c = false := by
  refine ⟨s.takeWhile isSpace, ?_, (List.takeWhile_append_dropWhile).symm, ?_⟩
  · intro c hc
    exact List.mem_takeWhile_imp hc
  · intro c hc
    have h := List.head?_dropWhile_not isSpace s
    unfold space at hc
    rw [Option.mem_def.mp hc] at h
    simpa using h

/-- A scan that stops where the predicate fails. -/
theorem span_append {p : UInt8 → Bool} {l s : Bytes} (hl : ∀ c ∈ l, p c = true) (hs : ∀ c ∈ s.head?, p c = false) :
    (l ++ s).takeWhile p = l ∧ (l ++ s).dropWhile p = s := by
  rw [List.takeWhile_append_of_pos hl, List.dropWhile_append_of_pos hl]
  cases s with
  | nil => simp
  | cons c s => simp [hs c (by simp)]

theorem bare_append {l s : Bytes} (hl : ∀ c ∈ l, bareByte c = true) (hs : Ends s) : bare (l ++ s) = (l, s) := by
  have h := span_append hl (not_bareByte_of_ends hs)
  rw [bare, h.1, h.2]

theorem bare_split (s : Bytes) : s = (bare s).1 ++ (bare s).2 ∧ ∀ c ∈ (bare s).1, bareByte c = true :=
  ⟨(List.takeWhile_append_dropWhile).symm, fun _ hc => List.mem_takeWhile_imp hc⟩

/-! ## Names -/

/-- A name as `ident` reads it. -/
def IsIdent : Bytes → Prop
  | [] => False
  | c :: s => identByte c true = true ∧ ∀ d ∈ s, identByte d false = true

instance : DecidablePred IsIdent
  | [] => isFalse id
  | c :: s => inferInstanceAs (Decidable (identByte c true = true ∧ ∀ d ∈ s, identByte d false = true))

theorem ident_split {s name r : Bytes} (h : ident s = (name, r)) :
    s = name ++ r ∧ (name = [] ∨ IsIdent name) ∧ ∀ c ∈ r.head?, name ≠ [] → identByte c false = false := by
  cases s with
  | nil =>
    simp only [ident, Prod.mk.injEq] at h
    obtain ⟨rfl, rfl⟩ := h
    simp
  | cons c s =>
    rw [ident] at h
    split at h
    · rename_i hc
      simp only [Prod.mk.injEq] at h
      obtain ⟨rfl, rfl⟩ := h
      refine ⟨by simp, Or.inr ⟨hc, fun d hd => List.mem_takeWhile_imp (p := (identByte · false)) hd⟩, ?_⟩
      intro d hd _
      have := List.head?_dropWhile_not (identByte · false) s
      rw [Option.mem_def.mp hd] at this
      simpa using this
    · simp only [Prod.mk.injEq] at h
      obtain ⟨rfl, rfl⟩ := h
      simp

theorem ident_append {name r : Bytes} (hn : IsIdent name) (hr : ∀ c ∈ r.head?, identByte c false = false) :
    ident (name ++ r) = (name, r) := by
  cases name with
  | nil => exact absurd hn id
  | cons c name =>
    have h := span_append hn.2 hr
    rw [List.cons_append, ident, if_pos hn.1, h.1, h.2]

theorem IsIdent.ne_nil {name : Bytes} (h : IsIdent name) : name ≠ [] := by
  rintro rfl
  exact h

/-! ## Quotes -/

theorem quotedBody_escape (d : UInt8) (s : Bytes) :
    quotedBody (backslash :: d :: s) = (quotedBody s).map fun r => (d :: r.1, r.2) := by
  conv_lhs => rw [quotedBody.eq_def]
  rfl

theorem quotedBody_end (s : Bytes) : quotedBody (dquote :: s) = some ([], s) := by
  rw [quotedBody.eq_def]
  rfl

theorem quotedBody_plain {c : UInt8} (hb : c ≠ backslash) (hd : c ≠ dquote) (s : Bytes) :
    quotedBody (c :: s) = (quotedBody s).map fun r => (c :: r.1, r.2) := by
  conv_lhs => rw [quotedBody.eq_def]
  simp only [if_neg hb, if_neg hd]

theorem quotedBody_split {s v r : Bytes} (h : quotedBody s = some (v, r)) :
    ∃ b, s = b ++ r ∧ b.getLast? = some dquote ∧ ∀ rest, quotedBody (b ++ rest) = some (v, rest) := by
  fun_induction quotedBody s generalizing v with
  | case1 => simp at h
  | case2 => simp at h
  | case3 d s ih =>
    obtain ⟨⟨v', r'⟩, hq, hv⟩ := Option.map_eq_some_iff.mp h
    simp only [Prod.mk.injEq] at hv
    obtain ⟨rfl, rfl⟩ := hv
    obtain ⟨b, rfl, hlast, hb⟩ := ih hq
    refine ⟨backslash :: d :: b, rfl, by simp [List.getLast?_cons, hlast], fun rest => ?_⟩
    rw [List.cons_append, List.cons_append, quotedBody_escape, hb rest]
    rfl
  | case4 s hc =>
    simp only [Option.some.injEq, Prod.mk.injEq] at h
    obtain ⟨rfl, rfl⟩ := h
    exact ⟨[dquote], rfl, rfl, fun rest => quotedBody_end rest⟩
  | case5 c s hc hd ih =>
    obtain ⟨⟨v', r'⟩, hq, hv⟩ := Option.map_eq_some_iff.mp h
    simp only [Prod.mk.injEq] at hv
    obtain ⟨rfl, rfl⟩ := hv
    obtain ⟨b, rfl, hlast, hb⟩ := ih hq
    refine ⟨c :: b, rfl, by simp [List.getLast?_cons, hlast], fun rest => ?_⟩
    rw [List.cons_append, quotedBody_plain hc hd, hb rest]
    rfl

theorem quoted_split {s v r : Bytes} (hs : s.head? = some dquote) (h : quoted s = .ok (v, r)) :
    ∃ l, s = l ++ r ∧ l.head? = some dquote ∧ l.getLast? = some dquote ∧ ∀ rest, quoted (l ++ rest) = .ok (v, rest) := by
  obtain ⟨c, s, rfl⟩ := List.exists_cons_of_ne_nil (l := s) (by rintro rfl; simp at hs)
  obtain rfl : c = dquote := by simpa using hs
  unfold quoted at h
  cases hq : quotedBody s with
  | none => simp [hq, fail] at h
  | some p =>
    simp only [List.drop_succ_cons, List.drop_zero, hq, Except.ok.injEq] at h
    subst h
    obtain ⟨b, rfl, hlast, hb⟩ := quotedBody_split hq
    refine ⟨dquote :: b, rfl, rfl, by simp [List.getLast?_cons, hlast], fun rest => ?_⟩
    simp [quoted, hb rest]

/-! ## Atomic terms -/

/-- A term that begins with no paren and no minus. -/
def atom (lib : Library ν) : Bytes → Result (Term ν × Bytes)
  | [] => .error .outOfRange
  | c :: s =>
    if c = dquote then do
      let (text, r) ← quoted (c :: s)
      .ok (.text text, r)
    else named lib (c :: s)

/-- The bytes of an atomic term, which whatever ends a term may follow. -/
structure Atomic (lib : Library ν) (l : Bytes) (t : Term ν) : Prop where
  ne_nil : l ≠ []
  head : ∀ c ∈ l.head?, c ≠ minus ∧ c ≠ lparen ∧ c ≠ rparen
  last : ∀ c ∈ l.getLast?, isSpace c = false
  reads : ∀ rest, Ends rest → atom lib (l ++ rest) = .ok (t, rest)

theorem term_atom {c : UInt8} (s : Bytes) (fuel : ℕ) (h : c ≠ minus ∧ c ≠ lparen ∧ c ≠ rparen) :
    term lib (fuel + 1) (c :: s) = atom lib (c :: s) := by
  rw [term, atom, if_neg h.1, if_neg h.2.1, if_neg h.2.2]

theorem isPrefixOf_cons (a : UInt8) (l : Bytes) (c : UInt8) (s : Bytes) :
    (a :: l).isPrefixOf (c :: s) = (decide (c = a) && l.isPrefixOf s) := by
  rw [List.isPrefixOf, beq_eq_decide]
  simp only [eq_comm]

theorem isPrefixOf_singleton (a : UInt8) (s : Bytes) : [a].isPrefixOf s = decide (s.head? = some a) := by
  cases s with
  | nil => rfl
  | cons c s =>
    rw [isPrefixOf_cons]
    cases s <;> simp [List.isPrefixOf]

theorem comparator_cons (c : UInt8) (s : Bytes) :
    comparator (c :: s) =
      if c = '>'.toUInt8 then if s.head? = some '='.toUInt8 then (.gte, s.drop 1) else (.gt, s)
      else if c = '<'.toUInt8 then if s.head? = some '='.toUInt8 then (.lte, s.drop 1) else (.lt, s)
      else if c = '='.toUInt8 then (.eq, s) else (.eq, c :: s) := by
  have h₁ : bytes ">=" = ['>'.toUInt8, '='.toUInt8] := by decide
  have h₂ : bytes "<=" = ['<'.toUInt8, '='.toUInt8] := by decide
  have h₃ : bytes ">" = ['>'.toUInt8] := by decide
  have h₄ : bytes "<" = ['<'.toUInt8] := by decide
  have h₅ : bytes "=" = ['='.toUInt8] := by decide
  have hgl : '<'.toUInt8 ≠ '>'.toUInt8 := by decide
  have hge : '='.toUInt8 ≠ '>'.toUInt8 := by decide
  have hle : '='.toUInt8 ≠ '<'.toUInt8 := by decide
  unfold comparator comparators
  rw [h₁, h₂, h₃, h₄, h₅]
  generalize '>'.toUInt8 = g at *
  generalize '<'.toUInt8 = l at *
  generalize '='.toUInt8 = e at *
  have hnil : ([] : Bytes).isPrefixOf s = true := by cases s <;> rfl
  simp only [List.find?_cons, isPrefixOf_cons, isPrefixOf_singleton, hnil, Bool.and_true]
  by_cases hg : c = g
  · subst hg
    by_cases he : s.head? = some e <;> simp [he, hgl.symm]
  · by_cases hl : c = l
    · subst hl
      by_cases he : s.head? = some e <;> simp [he, hg]
    · by_cases he : c = e <;> simp [hg, hl, he, hge, hle]

/-- What is read as a comparator depends on no more than the first byte of the value after it. -/
theorem comparator_split {s v r : Bytes} {cmp : Cmp} (hv : v ≠ []) (h : comparator s = (cmp, v ++ r)) :
    ∃ o, s = o ++ v ++ r ∧ ∀ rest, comparator (o ++ v ++ rest) = (cmp, v ++ rest) := by
  obtain ⟨d, v, rfl⟩ := List.exists_cons_of_ne_nil hv
  cases s with
  | nil =>
    rw [show comparator [] = (.eq, []) from rfl] at h
    simp at h
  | cons c s =>
    rw [comparator_cons] at h
    -- The second byte belongs to the comparator, or it is the first of the value.
    have two : ∀ {cmp' cmp''}, (if s.head? = some '='.toUInt8 then (cmp', s.drop 1) else (cmp'', s)) = (cmp, d :: v ++ r) →
        (cmp = cmp' ∧ s = '='.toUInt8 :: d :: v ++ r) ∨ (cmp = cmp'' ∧ d ≠ '='.toUInt8 ∧ s = d :: v ++ r) := by
      intro cmp' cmp'' h
      split_ifs at h with he
      · obtain ⟨rfl, hs⟩ := Prod.mk.inj h
        cases s with
        | nil => simp at hs
        | cons e s =>
          obtain rfl : e = '='.toUInt8 := by simpa using he
          exact Or.inl ⟨rfl, by simpa using hs⟩
      · obtain ⟨rfl, rfl⟩ := Prod.mk.inj h
        exact Or.inr ⟨rfl, by simpa using he, rfl⟩
    have hgl : '<'.toUInt8 ≠ '>'.toUInt8 := by decide
    have hge : '='.toUInt8 ≠ '>'.toUInt8 := by decide
    have hle : '='.toUInt8 ≠ '<'.toUInt8 := by decide
    by_cases hg : c = '>'.toUInt8
    · rw [if_pos hg] at h
      obtain ⟨rfl, rfl⟩ | ⟨rfl, hd, rfl⟩ := two h
      · exact ⟨[c, '='.toUInt8], by simp, fun rest => by simp [comparator_cons, hg]⟩
      · exact ⟨[c], by simp, fun rest => by simp [comparator_cons, hg, hd]⟩
    rw [if_neg hg] at h
    by_cases hl : c = '<'.toUInt8
    · rw [if_pos hl] at h
      obtain ⟨rfl, rfl⟩ | ⟨rfl, hd, rfl⟩ := two h
      · exact ⟨[c, '='.toUInt8], by simp, fun rest => by simp [comparator_cons, hl, hgl]⟩
      · exact ⟨[c], by simp, fun rest => by simp [comparator_cons, hl, hgl, hd]⟩
    rw [if_neg hl] at h
    by_cases he : c = '='.toUInt8
    · rw [if_pos he] at h
      obtain ⟨rfl, rfl⟩ := Prod.mk.inj h
      exact ⟨[c], by simp, fun rest => by simp [comparator_cons, he, hge, hle]⟩
    · rw [if_neg he] at h
      obtain ⟨rfl, hs⟩ := Prod.mk.inj h
      obtain ⟨rfl, rfl⟩ := List.cons.inj hs
      exact ⟨[], by simp, fun rest => by simp [comparator_cons, hg, hl, he]⟩

theorem rawValue_split {s raw r : Bytes} {isQuoted : Bool} (h : rawValue s = .ok ((raw, isQuoted), r)) :
    ∃ v, s = v ++ r ∧ (v = [] → raw = [] ∧ isQuoted = false) ∧ (∀ c ∈ v.getLast?, isSpace c = false) ∧
      ∀ rest, Ends rest → rawValue (v ++ rest) = .ok ((raw, isQuoted), rest) := by
  unfold rawValue at h
  split_ifs at h with hq
  · cases hr : quoted s with
    | error e => simp [hr] at h
    | ok p =>
      rw [hr] at h
      obtain ⟨⟨rfl, rfl⟩, rfl⟩ : (p.1 = raw ∧ true = isQuoted) ∧ p.2 = r := by simpa using h
      obtain ⟨l, rfl, hl, hlast, hread⟩ := quoted_split hq hr
      refine ⟨l, rfl, by rintro rfl; simp at hl, by rw [hlast]; simp; decide, fun rest _ => ?_⟩
      have hh : (l ++ rest).head? = some dquote := by
        cases l with
        | nil => simp at hl
        | cons c l => simpa using hl
      rw [rawValue, if_pos hh, hread rest]
  · obtain ⟨⟨rfl, rfl⟩, rfl⟩ : ((bare s).1 = raw ∧ false = isQuoted) ∧ (bare s).2 = r := by simpa using h
    obtain ⟨hs, hall⟩ := bare_split s
    refine ⟨(bare s).1, hs, fun h => ⟨h, rfl⟩, fun c hc => not_space_of_bareByte (hall c (List.mem_of_mem_getLast? hc)),
      fun rest hr => ?_⟩
    have hh : ((bare s).1 ++ rest).head? ≠ some dquote := by
      intro hd
      cases hb : (bare s).1 with
      | nil =>
        rw [hb, List.nil_append] at hd
        have := not_bareByte_of_ends hr dquote hd
        rcases hr dquote hd with h | h | h <;> revert h <;> decide
      | cons c l =>
        obtain rfl : c = dquote := by simpa [hb] using hd
        have := hall dquote (by simp [hb])
        revert this
        decide
    rw [rawValue, if_neg hh, bare_append hall hr]

/-- The term a facet makes of a value, if it accepts it. -/
def valueTerm (lib : Library ν) (facet : Bytes) (cmp : Cmp) (raw : Bytes) (isQuoted : Bool) : Option (Term ν) :=
  if raw = [] ∧ ¬isQuoted then none
  else if cmp ≠ .eq then
    if ¬numericFacet facet then none else (lib.parseFloat raw).map fun n => .facet facet cmp (.num n)
  else
    let raw := if facet = bytes "level" then lib.toLower raw else raw
    some (.facet facet .eq
      (if numericFacet facet ∧ ¬isQuoted then (lib.parseFloat raw).elim (.str raw) .num else .str raw))

/-- A facet's value but for its errors. -/
theorem facetValue_toOption (start facet s : Bytes) :
    (facetValue lib start facet s).toOption =
      (rawValue (comparator s).2).toOption.bind fun p =>
        (valueTerm lib facet (comparator s).1 p.1.1 p.1.2).map (·, p.2) := by
  rw [facetValue]
  generalize comparator s = c
  simp only [bind, Except.bind]
  cases rawValue c.2 with
  | error e => rfl
  | ok p =>
    simp only [Except.toOption, Option.bind_some, valueTerm, fail]
    by_cases h₁ : p.1.1 = [] ∧ ¬p.1.2
    · rw [if_pos h₁, if_pos h₁]
      rfl
    rw [if_neg h₁, if_neg h₁]
    by_cases h₂ : c.1 ≠ .eq
    · rw [if_pos h₂, if_pos h₂]
      by_cases h₃ : ¬numericFacet facet
      · rw [if_pos h₃, if_pos h₃]
        rfl
      · rw [if_neg h₃, if_neg h₃]
        cases lib.parseFloat p.1.1 <;> rfl
    · rw [if_neg h₂, if_neg h₂]
      rfl

theorem bind_eq_ok {α β : Type} {e : Result α} {f : α → Result β} {b : β} :
    (e >>= f) = .ok b ↔ ∃ a, e = .ok a ∧ f a = .ok b := by
  cases e <;> simp [bind, Except.bind]

theorem toOption_eq_some {ε α : Type} {e : Except ε α} {a : α} : e.toOption = some a ↔ e = .ok a := by
  cases e <;> simp [Except.toOption]

theorem facetValue_eq_ok {start facet s r : Bytes} {t : Term ν} :
    facetValue lib start facet s = .ok (t, r) ↔
      ∃ raw isQuoted, rawValue (comparator s).2 = .ok ((raw, isQuoted), r) ∧
        valueTerm lib facet (comparator s).1 raw isQuoted = some t := by
  rw [← toOption_eq_some, facetValue_toOption, Option.bind_eq_some_iff]
  constructor
  · rintro ⟨⟨⟨raw, isQuoted⟩, r'⟩, hraw, ht⟩
    obtain ⟨t', ht', he⟩ := Option.map_eq_some_iff.mp ht
    obtain ⟨rfl, rfl⟩ := Prod.mk.inj he
    exact ⟨raw, isQuoted, toOption_eq_some.mp hraw, ht'⟩
  · rintro ⟨raw, isQuoted, hraw, ht⟩
    exact ⟨((raw, isQuoted), r), toOption_eq_some.mpr hraw, by simp [ht]⟩

theorem facetValue_split {start facet s r : Bytes} {t : Term ν} (h : facetValue lib start facet s = .ok (t, r)) :
    ∃ v, s = v ++ r ∧ (∀ c ∈ (colon :: v).getLast?, isSpace c = false) ∧
      ∀ start' rest, Ends rest → facetValue lib start' facet (v ++ rest) = .ok (t, rest) := by
  obtain ⟨raw, isQuoted, hraw, ht⟩ := facetValue_eq_ok.mp h
  obtain ⟨cmp, s', hc⟩ : ∃ cmp s', comparator s = (cmp, s') := ⟨_, _, rfl⟩
  rw [hc] at hraw ht
  obtain ⟨v, rfl, hnil, hlast, hread⟩ := rawValue_split hraw
  have hv : v ≠ [] := by
    intro hv
    obtain ⟨rfl, rfl⟩ := hnil hv
    simp [valueTerm] at ht
  obtain ⟨o, rfl, hcmp⟩ := comparator_split hv hc
  have hlast' : (colon :: (o ++ v)).getLast? = v.getLast? := by
    rw [← List.cons_append, List.getLast?_append, List.getLast?_eq_some_getLast hv]
    rfl
  refine ⟨o ++ v, rfl, by rwa [hlast'], fun start' rest hrest => facetValue_eq_ok.mpr ⟨raw, isQuoted, ?_, ?_⟩⟩
  · rw [hcmp rest]
    exact hread rest hrest
  · rw [hcmp rest]
    exact ht

theorem bareByte_of_identByte {c : UInt8} {b : Bool} (h : identByte c b = true) : bareByte c = true := by
  have hc : (97 ≤ c.toNat ∧ c.toNat ≤ 122) ∨ c.toNat = 64 ∨ c.toNat = 95 ∨ (48 ≤ c.toNat ∧ c.toNat ≤ 57) ∨
      c.toNat = 46 ∨ c.toNat = 45 ∨ (65 ≤ c.toNat ∧ c.toNat ≤ 90) := by
    simp only [identByte, decide_eq_true_eq, UInt8.le_iff_toNat_le, ← UInt8.toNat_inj] at h
    have : 'a'.toUInt8.toNat = 97 := rfl
    have : 'z'.toUInt8.toNat = 122 := rfl
    have : '@'.toUInt8.toNat = 64 := rfl
    have : '_'.toUInt8.toNat = 95 := rfl
    have : '0'.toUInt8.toNat = 48 := rfl
    have : '9'.toUInt8.toNat = 57 := rfl
    have : '.'.toUInt8.toNat = 46 := rfl
    have : minus.toNat = 45 := rfl
    have : 'A'.toUInt8.toNat = 65 := rfl
    have : 'Z'.toUInt8.toNat = 90 := rfl
    omega
  simp only [bareByte, isSpace, decide_eq_true_eq, UInt8.le_iff_toNat_le, ← UInt8.toNat_inj]
  have : (9 : UInt8).toNat = 9 := rfl
  have : (13 : UInt8).toNat = 13 := rfl
  have : (32 : UInt8).toNat = 32 := rfl
  have : (0x85 : UInt8).toNat = 133 := rfl
  have : (0xA0 : UInt8).toNat = 160 := rfl
  have : lparen.toNat = 40 := rfl
  have : rparen.toNat = 41 := rfl
  have : pipe.toNat = 124 := rfl
  have : dquote.toNat = 34 := rfl
  omega

theorem identByte_not_space {c : UInt8} {b : Bool} (h : identByte c b = true) : isSpace c = false := by
  exact not_space_of_bareByte (bareByte_of_identByte h)

theorem IsIdent.head_not_space {f s : Bytes} (h : IsIdent f) : ∀ c ∈ (f ++ s).head?, isSpace c = false := by
  obtain ⟨d, f, rfl⟩ := List.exists_cons_of_ne_nil h.ne_nil
  intro c hc
  obtain rfl : d = c := by simpa using hc
  exact identByte_not_space h.1

theorem IsIdent.bare {name : Bytes} (h : IsIdent name) : ∀ c ∈ name, bareByte c = true := by
  cases name with
  | nil => exact absurd h id
  | cons c name =>
    intro d hd
    rcases List.mem_cons.mp hd with rfl | hd
    · exact bareByte_of_identByte h.1
    · exact bareByte_of_identByte (h.2 d hd)

/-- Where the colon of a facet would be, no name ends in a word without a colon. -/
theorem ident_bare_colon {s name r : Bytes} (h : ident s = (name, r)) (hn : name ≠ []) (hr : r.head? = some colon) :
    colon ∈ (bare s).1 := by
  obtain ⟨rfl, hi, -⟩ := ident_split h
  obtain ⟨c, r, rfl⟩ := List.exists_cons_of_ne_nil (l := r) (by rintro rfl; simp at hr)
  obtain rfl : c = colon := by simpa using hr
  have hname := (hi.resolve_left hn).bare
  simp only [bare, List.takeWhile_append_of_pos hname]
  rw [List.takeWhile_cons_of_pos (by decide)]
  simp

theorem atom_eq_named {c : UInt8} {s : Bytes} (hc : c ≠ dquote) : atom lib (c :: s) = named lib (c :: s) := by
  rw [atom, if_neg hc]

theorem named_text {c : UInt8} {s text r : Bytes} (hb : bare (c :: s) = (text, r)) (ht : text ≠ []) (hc : colon ∉ text) :
    named lib (c :: s) = .ok (.text text, r) := by
  obtain ⟨name, r', hi⟩ : ∃ name r', ident (c :: s) = (name, r') := ⟨_, _, rfl⟩
  have hn : ¬(name ≠ [] ∧ r'.head? = some colon) := by
    rintro ⟨hn, hr⟩
    have := ident_bare_colon hi hn hr
    rw [hb] at this
    exact hc this
  simp only [named, hi, if_neg hn, hb, if_neg ht, if_neg hc]

theorem named_facet {name s : Bytes} (hi : IsIdent name) (hk : knownFacet name = true) :
    named lib (name ++ colon :: s) = facetValue lib (name ++ colon :: s) name s := by
  have h : ident (name ++ colon :: s) = (name, colon :: s) := ident_append hi (by simp; decide)
  have hc : name ≠ [] ∧ (colon :: s).head? = some colon := ⟨hi.ne_nil, rfl⟩
  simp only [named, h, if_pos hc, hk, not_true_eq_false, if_false, List.drop_succ_cons, List.drop_zero]

/-- What `named` accepts is a facet with its value, or a word. -/
theorem named_cases {c : UInt8} {s r : Bytes} {t : Term ν} (h : named lib (c :: s) = .ok (t, r)) :
    (∃ name s', c :: s = name ++ colon :: s' ∧ IsIdent name ∧ knownFacet name = true ∧
      facetValue lib (c :: s) name s' = .ok (t, r)) ∨
    (∃ text, bare (c :: s) = (text, r) ∧ text ≠ [] ∧ colon ∉ text ∧ t = .text text) := by
  obtain ⟨name, r', hi⟩ : ∃ name r', ident (c :: s) = (name, r') := ⟨_, _, rfl⟩
  obtain ⟨text, r'', hb⟩ : ∃ text r'', bare (c :: s) = (text, r'') := ⟨_, _, rfl⟩
  simp only [named, hi, hb] at h
  by_cases hn : name ≠ [] ∧ r'.head? = some colon
  · rw [if_pos hn] at h
    by_cases hk : knownFacet name = true
    · obtain ⟨hs, hident, -⟩ := ident_split hi
      obtain ⟨d, s', rfl⟩ := List.exists_cons_of_ne_nil (l := r') (by rintro rfl; simp at hn)
      obtain rfl : d = colon := by simpa using hn.2
      simp only [hk, not_true_eq_false, if_false, List.drop_succ_cons, List.drop_zero] at h
      exact Or.inl ⟨name, s', hs, hident.resolve_left hn.1, hk, h⟩
    · simp [hk, fail] at h
  · rw [if_neg hn] at h
    by_cases ht : text = []
    · simp [ht, fail] at h
    by_cases hc : colon ∈ text
    · simp [ht, hc, fail] at h
    simp only [if_neg ht, if_neg hc, Except.ok.injEq, Prod.mk.injEq] at h
    obtain ⟨rfl, rfl⟩ := h
    exact Or.inr ⟨text, hb, ht, hc, rfl⟩

theorem atom_head {c : UInt8} {s r : Bytes} {t : Term ν} (h : atom lib (c :: s) = .ok (t, r)) :
    c = dquote ∨ bareByte c = true := by
  by_cases hq : c = dquote
  · exact Or.inl hq
  rw [atom_eq_named hq] at h
  obtain ⟨name, s', hs', hi, -, -⟩ | ⟨text, hb, ht, -, -⟩ := named_cases h
  · obtain ⟨d, name, rfl⟩ := List.exists_cons_of_ne_nil hi.ne_nil
    obtain rfl : c = d := (List.cons.inj hs').1
    exact Or.inr (bareByte_of_identByte hi.1)
  · obtain ⟨he, hall⟩ := bare_split (c :: s)
    rw [hb] at he hall
    obtain ⟨d, text, rfl⟩ := List.exists_cons_of_ne_nil ht
    obtain rfl : c = d := (List.cons.inj he).1
    exact Or.inr (hall c (by simp))

theorem Atomic.head_not {l : Bytes} {t : Term ν} (h : Atomic lib l t) :
    ∀ c ∈ l.head?, isSpace c = false ∧ c ≠ pipe := by
  intro c hc
  obtain ⟨d, l, rfl⟩ := List.exists_cons_of_ne_nil h.ne_nil
  obtain rfl : d = c := by simpa using hc
  rcases atom_head (h.reads [] Ends.nil) with rfl | hb
  · decide
  · simp only [bareByte, decide_eq_true_eq, not_or, Bool.not_eq_true] at hb
    exact ⟨hb.1, hb.2.2.2.1⟩

theorem Atomic.text_or_facet {l : Bytes} {t : Term ν} (h : Atomic lib l t) :
    (∃ s, t = .text s) ∨ ∃ f cmp raw isQuoted, IsIdent f ∧ knownFacet f = true ∧ valueTerm lib f cmp raw isQuoted = some t := by
  obtain ⟨c, l, rfl⟩ := List.exists_cons_of_ne_nil h.ne_nil
  have hr := h.reads [] Ends.nil
  rw [List.append_nil] at hr
  by_cases hq : c = dquote
  · rw [atom, if_pos hq] at hr
    obtain ⟨⟨s, r⟩, -, he⟩ := bind_eq_ok.mp hr
    obtain ⟨rfl, -⟩ : Term.text s = t ∧ r = [] := by simpa using he
    exact Or.inl ⟨s, rfl⟩
  · rw [atom_eq_named hq] at hr
    obtain ⟨name, s, -, hi, hk, hv⟩ | ⟨s, -, -, -, rfl⟩ := named_cases hr
    · obtain ⟨raw, isQuoted, -, ht⟩ := facetValue_eq_ok.mp hv
      exact Or.inr ⟨name, _, raw, isQuoted, hi, hk, ht⟩
    · exact Or.inl ⟨s, rfl⟩

theorem valueTerm_facet {f raw : Bytes} {cmp : Cmp} {isQuoted : Bool} {t : Term ν}
    (h : valueTerm lib f cmp raw isQuoted = some t) : ∃ cmp' v, t = .facet f cmp' v := by
  unfold valueTerm at h
  split_ifs at h
  · obtain ⟨n, -, rfl⟩ := Option.map_eq_some_iff.mp h
    exact ⟨cmp, _, rfl⟩
  all_goals exact ⟨.eq, _, (Option.some.inj h).symm⟩

/-- An atomic term takes some of the bytes, and reads the same whatever ends a term follows. -/
theorem atom_split {s r : Bytes} {t : Term ν} (h : atom lib s = .ok (t, r))
    (hs : ∀ c ∈ s.head?, c ≠ minus ∧ c ≠ lparen ∧ c ≠ rparen) : ∃ l, s = l ++ r ∧ Atomic lib l t := by
  cases s with
  | nil => simp [atom] at h
  | cons c s =>
    have hhead : ∀ {l : Bytes}, l ≠ [] → c :: s = l ++ r → ∀ d ∈ l.head?, d ≠ minus ∧ d ≠ lparen ∧ d ≠ rparen := by
      intro l hl he d hd
      obtain ⟨e, l, rfl⟩ := List.exists_cons_of_ne_nil hl
      obtain rfl : c = e := (List.cons.inj he).1
      exact hs d hd
    by_cases hq : c = dquote
    · simp only [atom, if_pos hq, bind, Except.bind] at h
      cases hr : quoted (c :: s) with
      | error e => simp [hr] at h
      | ok p =>
        rw [hr] at h
        obtain ⟨rfl, rfl⟩ : Term.text p.1 = t ∧ p.2 = r := by simpa using h
        obtain ⟨l, hl, hl', hlast, hread⟩ := quoted_split (by simp [hq]) hr
        have hne : l ≠ [] := by rintro rfl; simp at hl'
        refine ⟨l, hl, hne, hhead hne hl, by rw [hlast]; simp; decide, fun rest _ => ?_⟩
        obtain ⟨d, l, rfl⟩ := List.exists_cons_of_ne_nil hne
        obtain rfl : d = dquote := by simpa using hl'
        have := hread rest
        rw [List.cons_append] at this ⊢
        simp only [atom, if_true, this, bind, Except.bind]
    · rw [atom_eq_named hq] at h
      obtain ⟨name, s', hs', hi, hk, hv⟩ | ⟨text, hb, ht, hc, rfl⟩ := named_cases h
      · obtain ⟨v, rfl, hlast, hread⟩ := facetValue_split hv
        have hne : name ++ colon :: v ≠ [] := by simp
        have he : c :: s = name ++ colon :: v ++ r := by simpa using hs'
        have hlast' : (name ++ colon :: v).getLast? = (colon :: v).getLast? := by
          rw [List.getLast?_append, List.getLast?_eq_some_getLast (List.cons_ne_nil colon v)]
          rfl
        refine ⟨name ++ colon :: v, he, hne, hhead hne he, by rwa [hlast'], fun rest hrest => ?_⟩
        obtain ⟨d, name, rfl⟩ := List.exists_cons_of_ne_nil hi.ne_nil
        obtain rfl : c = d := (List.cons.inj hs').1
        have : (c :: name) ++ colon :: v ++ rest = c :: (name ++ colon :: (v ++ rest)) := by simp
        rw [this, atom_eq_named hq, ← List.cons_append, named_facet hi hk]
        exact hread _ rest hrest
      · obtain ⟨he, hall⟩ := bare_split (c :: s)
        rw [hb] at he hall
        refine ⟨text, he, ht, hhead ht he, fun c hc => not_space_of_bareByte (hall c (List.mem_of_mem_getLast? hc)),
          fun rest hrest => ?_⟩
        have hb' := bare_append hall hrest
        obtain ⟨d, text, rfl⟩ := List.exists_cons_of_ne_nil ht
        obtain rfl : c = d := (List.cons.inj he).1
        rw [List.cons_append, atom_eq_named hq]
        exact named_text hb' ht hc

/-! ## Readings -/

inductive Piece where
  | minus | opening | closing | or
  | space (s : Bytes)
  | leaf (s : Bytes)

def Piece.text : Piece → Bytes
  | .minus => [QueryGrammar.minus]
  | .opening => [lparen]
  | .closing => [rparen]
  | .or => bytes "OR"
  | .space s => s
  | .leaf s => s

def text (ps : List Piece) : Bytes := ps.flatMap Piece.text

@[simp] theorem text_nil : text [] = [] := rfl

@[simp] theorem text_cons (p : Piece) (ps : List Piece) : text (p :: ps) = p.text ++ text ps := rfl

@[simp] theorem text_append (ps qs : List Piece) : text (ps ++ qs) = text ps ++ text qs := List.flatMap_append

/-- What pieces are read as: a term, or the rest of a group that has these branches and is in
the branch of these terms. -/
inductive Node (ν : Type) where
  | term (t : Term ν)
  | inside (branches seq : List (Term ν)) (t : Term ν)

inductive Reading (lib : Library ν) : List Piece → Node ν → Prop
  | leaf {l : Bytes} {t : Term ν} : Atomic lib l t → Reading lib [.leaf l] (.term t)
  | not {ps : List Piece} {t : Term ν} : Reading lib ps (.term t) → Reading lib (.minus :: ps) (.term (.not t))
  | group {sp : Bytes} {ps : List Piece} {t : Term ν} :
      Blank sp → Reading lib ps (.inside [] [] t) → Reading lib (.opening :: .space sp :: ps) (.term t)
  | close {branches seq bs : List (Term ν)} :
      (∀ s, flush s branches seq = .ok bs) → Reading lib [.closing] (.inside branches seq (collapse bs))
  | or {branches seq bs : List (Term ν)} {sp : Bytes} {ps : List Piece} {t : Term ν} :
      (∀ s, flush s branches seq = .ok bs) → Blank sp → (sp = [] → (text ps).head? = some lparen) →
      Reading lib ps (.inside bs [] t) → Reading lib (.or :: .space sp :: ps) (.inside branches seq t)
  | item {branches seq : List (Term ν)} {ps qs : List Piece} {sp : Bytes} {t u : Term ν} :
      Reading lib ps (.term t) → text ps ≠ bytes "OR" → Blank sp → (sp = [] → (text qs).head? = some rparen) →
      Reading lib qs (.inside branches (seq ++ [t]) u) → Reading lib (ps ++ .space sp :: qs) (.inside branches seq u)

theorem flush_anywhere {s : Bytes} {branches seq bs : List (Term ν)} (h : flush s branches seq = .ok bs) (s' : Bytes) :
    flush s' branches seq = .ok bs := by
  unfold flush at h ⊢
  split at h
  · simp [fail] at h
  · exact h
  · exact h

/-- No term and no rest of a group begins with whitespace, and none is empty. -/
theorem Reading.head {ps : List Piece} {n : Node ν} (h : Reading lib ps n) :
    ∃ c s, text ps = c :: s ∧ isSpace c = false ∧ c ≠ pipe := by
  induction h with
  | leaf h =>
    obtain ⟨c, l, rfl⟩ := List.exists_cons_of_ne_nil h.ne_nil
    exact ⟨c, l, by simp [Piece.text], h.head_not c rfl⟩
  | not _ _ => exact ⟨QueryGrammar.minus, _, rfl, by decide, by decide⟩
  | group _ _ _ => exact ⟨lparen, _, rfl, by decide, by decide⟩
  | close _ => exact ⟨rparen, _, rfl, by decide, by decide⟩
  | or _ _ _ _ _ => exact ⟨'O'.toUInt8, _, rfl, by decide, by decide⟩
  | item _ _ _ _ _ ih _ =>
    obtain ⟨c, s, hc, h⟩ := ih
    exact ⟨c, _, by rw [text_append, hc, List.cons_append], h⟩

theorem Reading.length_pos {ps : List Piece} {n : Node ν} (h : Reading lib ps n) : 0 < (text ps).length := by
  obtain ⟨c, s, hc, -⟩ := h.head
  simp [hc]

theorem separator_blank {sp s : Bytes} (hb : Blank sp) (hs : ∀ c ∈ s.head?, isSpace c = false)
    (h : sp = [] → s = [] ∨ s.head? = some rparen ∨ s.head? = some pipe) : separator lib (sp ++ s) = .ok s := by
  cases sp with
  | nil =>
    rw [List.nil_append]
    cases s with
    | nil => rfl
    | cons c s =>
      have hc : c = rparen ∨ c = pipe := by simpa using h rfl
      rcases hc with rfl | rfl
      · simp [separator]
      · have : space (pipe :: s) = pipe :: s := space_of_head hs
        rw [separator, if_neg (by decide), if_neg (by decide), this]
  | cons c sp =>
    have hc := hb c (by simp)
    have hr : c ≠ rparen := by
      rintro rfl
      revert hc
      decide
    rw [List.cons_append, separator, if_neg hr, if_neg (by simp [hc]), ← List.cons_append, space_blank hb hs]

/-- What may follow a keyword. -/
def Alone (s : Bytes) : Prop := ∀ c ∈ s.head?, isSpace c = true ∨ c = lparen ∨ c = rparen

theorem Alone.blank {sp s : Bytes} (hb : Blank sp) (h : sp = [] → Alone s) : Alone (sp ++ s) := by
  cases sp with
  | nil => exact h rfl
  | cons c sp =>
    intro d hd
    obtain rfl : c = d := by simpa using hd
    exact Or.inl (hb c (by simp))

theorem word_eq_some {kw : String} {s r : Bytes} : word kw s = some r ↔ s = bytes kw ++ r ∧ Alone r := by
  unfold word
  by_cases hp : (bytes kw).isPrefixOf s = true
  · obtain ⟨s', rfl⟩ := List.isPrefixOf_iff_prefix.mp hp
    rw [if_pos hp, List.drop_left]
    cases s' with
    | nil =>
      constructor
      · rintro ⟨⟩
        exact ⟨rfl, by simp [Alone]⟩
      · rintro ⟨h, -⟩
        obtain rfl : [] = r := List.append_cancel_left h
        rfl
    | cons c s' =>
      by_cases hc : ¬isSpace c = true ∧ c ≠ lparen ∧ c ≠ rparen
      · simp only [if_pos hc, reduceCtorEq, List.append_cancel_left_eq, false_iff, not_and]
        rintro rfl ha
        rcases ha c rfl with h | h | h
        · exact hc.1 h
        · exact hc.2.1 h
        · exact hc.2.2 h
      · simp only [if_neg hc, Option.some.injEq, List.append_cancel_left_eq]
        constructor
        · rintro rfl
          refine ⟨rfl, fun d hd => ?_⟩
          obtain rfl : c = d := by simpa using hd
          tauto
        · rintro ⟨rfl, -⟩
          rfl
  · rw [if_neg hp]
    constructor
    · rintro ⟨⟩
    · rintro ⟨rfl, -⟩
      exact absurd (List.isPrefixOf_iff_prefix.mpr (List.prefix_append _ _)) hp

theorem not_bareByte_of_alone {s : Bytes} (h : Alone s) : ∀ c ∈ s.head?, bareByte c = false := by
  intro c hc
  rcases h c hc with h | rfl | rfl
  · simp [bareByte, h]
  · decide
  · decide

/-- An atomic term that begins like the keyword is a word. -/
theorem Atomic.bare_of_or {s : Bytes} {t : Term ν} (h : Atomic lib ('O'.toUInt8 :: s) t) :
    ∀ c ∈ 'O'.toUInt8 :: s, bareByte c = true := by
  have hr := h.reads [] Ends.nil
  rw [List.append_nil, atom_eq_named (by decide)] at hr
  obtain ⟨name, s', hs', hi, -, -⟩ | ⟨text, hb, -, -, -⟩ := named_cases hr
  · obtain ⟨d, name, rfl⟩ := List.exists_cons_of_ne_nil hi.ne_nil
    obtain rfl : 'O'.toUInt8 = d := (List.cons.inj hs').1
    exact absurd hi.1 (by decide)
  · obtain ⟨he, hall⟩ := bare_split ('O'.toUInt8 :: s)
    rw [hb, List.append_nil] at he
    rw [hb] at hall
    rw [he]
    exact hall

/-- A term is not taken for the keyword unless it is its bytes. -/
theorem Reading.word_or {ps : List Piece} {t : Term ν} (h : Reading lib ps (.term t)) (hne : text ps ≠ bytes "OR")
    {s : Bytes} (hs : Ends s) : word "OR" (text ps ++ s) = none := by
  have hor : bytes "OR" = ['O'.toUInt8, 'R'.toUInt8] := by decide
  rw [Option.eq_none_iff_forall_not_mem]
  intro r hr
  obtain ⟨he, ha⟩ := word_eq_some.mp hr
  rw [hor, List.cons_append, List.cons_append, List.nil_append] at he
  cases h with
  | leaf h =>
    rename_i l
    simp only [text_cons, Piece.text, text_nil, List.append_nil] at he hne
    obtain ⟨c, l, rfl⟩ := List.exists_cons_of_ne_nil h.ne_nil
    obtain rfl : c = 'O'.toUInt8 := (List.cons.inj he).1
    have hb := congrArg (List.takeWhile bareByte) he
    rw [(span_append h.bare_of_or (not_bareByte_of_ends hs)).1, List.takeWhile_cons_of_pos (by decide),
      List.takeWhile_cons_of_pos (by decide), ← List.nil_append r,
      (span_append (by simp) (not_bareByte_of_alone ha)).1] at hb
    exact hne (by rw [hb, hor])
  | not h => exact absurd (List.cons.inj he).1 (by decide)
  | group _ h => exact absurd (List.cons.inj he).1 (by decide)

/-! ## Readings are accepted -/

theorem Reading.ends_of_text {ps : List Piece} {branches seq : List (Term ν)} {t : Term ν} {sp s : Bytes}
    (h : Reading lib ps (.inside branches seq t)) (hb : Blank sp) (hsp : sp = [] → (text ps).head? = some rparen) :
    Ends (sp ++ (text ps ++ s)) := by
  apply Ends.blank hb
  intro he c hc
  obtain ⟨d, s', hd, -⟩ := h.head
  have := hsp he
  rw [hd] at this hc
  have hr : d = rparen := by simpa using this
  have hdc : d = c := by simpa using hc
  exact Or.inr (Or.inl (hdc ▸ hr))

theorem Reading.head_ne_rparen {ps : List Piece} {t : Term ν} (h : Reading lib ps (.term t)) :
    ∀ c ∈ (text ps).head?, c ≠ rparen := by
  intro c hc
  cases h with
  | leaf h => exact (h.head c (by simpa [Piece.text] using hc)).2.2
  | not h =>
    obtain rfl : QueryGrammar.minus = c := by simpa [Piece.text] using hc
    decide
  | group _ h =>
    obtain rfl : lparen = c := by simpa [Piece.text] using hc
    decide

/-- What is left to read of a node is read as it is, with as much fuel as it has bytes. -/
def Accepted (lib : Library ν) (ps : List Piece) : Node ν → Prop
  | .term t => ∀ s fuel, Ends s → (text ps).length ≤ fuel → term lib fuel (text ps ++ s) = .ok (t, s)
  | .inside branches seq t => ∀ start s fuel, (text ps).length ≤ fuel →
      group lib fuel start branches seq (text ps ++ s) = .ok (t, s)

theorem Reading.accepted {ps : List Piece} {n : Node ν} (h : Reading lib ps n) : Accepted lib ps n := by
  induction h with
  | @leaf l t h =>
    intro s fuel hs hf
    obtain ⟨c, l, rfl⟩ := List.exists_cons_of_ne_nil h.ne_nil
    obtain ⟨fuel, rfl⟩ : ∃ k, fuel = k + 1 := ⟨fuel - 1, by simp [Piece.text] at hf; omega⟩
    have := h.reads s hs
    simp only [text_cons, Piece.text, text_nil, List.append_nil]
    rw [List.cons_append] at this ⊢
    rw [term_atom _ _ (h.head c rfl), this]
  | @not ps t h ih =>
    intro s fuel hs hf
    obtain ⟨fuel, rfl⟩ : ∃ k, fuel = k + 1 := ⟨fuel - 1, by simp [Piece.text] at hf; omega⟩
    obtain ⟨c, s', hc, hsp, -⟩ := h.head
    have hin := ih s fuel hs (by simp [Piece.text] at hf; omega)
    have hblank : ((text ps ++ s).head?.all isSpace) = false := by simp [hc, hsp]
    simp only [text_cons, Piece.text, List.cons_append, List.nil_append, term, if_true, hblank, Bool.false_eq_true, if_false,
      hin, bind, Except.bind]
  | @group sp ps t hb h ih =>
    intro s fuel hs hf
    obtain ⟨fuel, rfl⟩ : ∃ k, fuel = k + 1 := ⟨fuel - 1, by simp [Piece.text] at hf; omega⟩
    obtain ⟨c, s', hc, hsp, -⟩ := h.head
    have hskip : space (sp ++ (text ps ++ s)) = text ps ++ s := space_blank hb (by simp [hc, hsp])
    have hin := ih (lparen :: (sp ++ (text ps ++ s))) s fuel (by simp [Piece.text] at hf; omega)
    simp only [text_cons, Piece.text, List.cons_append, List.nil_append, List.append_assoc]
    rw [term, if_neg (by decide), if_pos rfl, hskip, hin]
  | @close branches seq bs hfl =>
    intro start s fuel hf
    obtain ⟨fuel, rfl⟩ : ∃ k, fuel = k + 1 := ⟨fuel - 1, by simp [Piece.text] at hf; omega⟩
    simp only [text_cons, Piece.text, text_nil, List.append_nil, List.cons_append, List.nil_append, QueryGrammar.group,
      if_true, hfl, bind, Except.bind]
  | @or branches seq bs sp ps t hfl hb hsp h ih =>
    intro start s fuel hf
    have hlen : (bytes "OR").length = 2 := by decide
    simp only [text_cons, Piece.text, List.length_append, hlen] at hf
    obtain ⟨fuel, rfl⟩ : ∃ k, fuel = k + 1 := ⟨fuel - 1, by omega⟩
    obtain ⟨c, s', hc, hc', -⟩ := h.head
    have hskip : space (sp ++ (text ps ++ s)) = text ps ++ s := space_blank hb (by simp [hc, hc'])
    have hin := ih start s fuel (by omega)
    have halone : Alone (sp ++ (text ps ++ s)) := by
      apply Alone.blank hb
      intro he
      have := hsp he
      rw [hc] at this ⊢
      obtain rfl : c = lparen := by simpa using this
      simp [Alone]
    have hword : word "OR" (bytes "OR" ++ (sp ++ (text ps ++ s))) = some (sp ++ (text ps ++ s)) :=
      word_eq_some.mpr ⟨rfl, halone⟩
    have hor : bytes "OR" = ['O'.toUInt8, 'R'.toUInt8] := by decide
    simp only [text_cons, Piece.text, List.append_assoc]
    rw [hor, List.cons_append] at hword ⊢
    rw [QueryGrammar.group, if_neg (by decide), hword]
    simp only [hfl, bind, Except.bind, hskip, hin]
  | @item branches seq ps qs sp t u h hne hb hsp h' ih ih' =>
    intro start s fuel hf
    have hpos := h.length_pos
    have hpos' := h'.length_pos
    simp only [text_append, text_cons, Piece.text, List.length_append] at hf
    obtain ⟨fuel, rfl⟩ : ∃ k, fuel = k + 1 := ⟨fuel - 1, by omega⟩
    have hends : Ends (sp ++ (text qs ++ s)) := h'.ends_of_text hb hsp
    have hin := ih (sp ++ (text qs ++ s)) fuel hends (by omega)
    have hin' := ih' start s fuel (by omega)
    have hword := h.word_or hne hends
    obtain ⟨d, s'', hd, hd', -⟩ := h'.head
    have hsep : separator lib (sp ++ (text qs ++ s)) = .ok (text qs ++ s) := by
      apply separator_blank hb
      · simp [hd, hd']
      · intro he
        refine Or.inr (Or.inl ?_)
        have := hsp he
        rw [hd] at this ⊢
        simpa using this
    simp only [text_append, text_cons, Piece.text, List.append_assoc]
    obtain ⟨c, s', hc, -⟩ := h.head
    rw [hc, List.cons_append] at hin hword ⊢
    rw [QueryGrammar.group, if_neg (h.head_ne_rparen c (by simp [hc])), hword]
    simp only [hin, hsep, hin', bind, Except.bind]

/-! ## What is accepted has a reading -/

theorem separator_split {s r : Bytes} (h : separator lib s = .ok r) :
    ∃ sp, Blank sp ∧ s = sp ++ r ∧ (sp = [] → r = [] ∨ r.head? = some rparen ∨ r.head? = some pipe) ∧
      ∀ c ∈ r.head?, isSpace c = false := by
  cases s with
  | nil =>
    obtain rfl : [] = r := by simpa [separator] using h
    exact ⟨[], by simp [Blank], rfl, fun _ => Or.inl rfl, by simp⟩
  | cons c s =>
    rw [separator] at h
    by_cases hr : c = rparen
    · rw [if_pos hr] at h
      obtain rfl : c :: s = r := by simpa using h
      exact ⟨[], by simp [Blank], rfl, fun _ => Or.inr (Or.inl (by simp [hr])), by simp [hr]; decide⟩
    rw [if_neg hr] at h
    by_cases hs : ¬isSpace c = true ∧ c ≠ pipe
    · rw [if_pos hs] at h
      simp [fail] at h
    rw [if_neg hs] at h
    obtain rfl : space (c :: s) = r := by simpa using h
    obtain ⟨sp, hb, he, hn⟩ := space_split (c :: s)
    refine ⟨sp, hb, he, fun hsp => Or.inr (Or.inr ?_), hn⟩
    subst hsp
    rw [List.nil_append] at he
    rw [← he]
    have := hn c (by rw [← he]; rfl)
    have hp : c = pipe := by
      by_contra hp
      exact hs ⟨by simp [this], hp⟩
    simp [hp]

/-- A group does not close right after the keyword. -/
theorem Reading.not_close {ps : List Piece} {branches : List (Term ν)} {t : Term ν}
    (h : Reading lib ps (.inside branches [] t)) : (text ps).head? ≠ some rparen := by
  intro hc
  cases h with
  | close hfl => simp [flush, fail] at hfl
  | or _ _ _ _ =>
    have hor : bytes "OR" = ['O'.toUInt8, 'R'.toUInt8] := by decide
    rw [text_cons, Piece.text, hor] at hc
    exact absurd (Option.some.inj hc) (by decide)
  | item h _ _ _ _ =>
    obtain ⟨c, s, hs, -⟩ := h.head
    rw [text_append, hs] at hc
    exact h.head_ne_rparen rparen (by rw [hs]; simpa using hc) rfl

theorem accepted_reading (fuel : ℕ) :
    (∀ s t r, term lib fuel s = .ok (t, r) → ∃ ps, Reading lib ps (.term t) ∧ s = text ps ++ r) ∧
    ∀ start branches seq s t r, group lib fuel start branches seq s = .ok (t, r) →
      ∃ ps, Reading lib ps (.inside branches seq t) ∧ s = text ps ++ r := by
  induction fuel with
  | zero => exact ⟨by simp [term], by simp [QueryGrammar.group]⟩
  | succ fuel ih =>
    obtain ⟨ihTerm, ihGroup⟩ := ih
    constructor
    · intro s t r h
      cases s with
      | nil => simp [term] at h
      | cons c s =>
        by_cases hm : c = minus
        · rw [term, if_pos hm] at h
          split at h
          · simp [fail] at h
          · obtain ⟨⟨inner, r'⟩, hin, h⟩ := bind_eq_ok.mp h
            obtain ⟨rfl, rfl⟩ : Term.not inner = t ∧ r' = r := by simpa using h
            obtain ⟨ps, hps, rfl⟩ := ihTerm _ _ _ hin
            exact ⟨.minus :: ps, hps.not, by simp [Piece.text, hm]⟩
        by_cases hl : c = lparen
        · rw [term, if_neg hm, if_pos hl] at h
          obtain ⟨ps, hps, he⟩ := ihGroup _ _ _ _ _ _ h
          obtain ⟨sp, hb, hs, -⟩ := space_split s
          refine ⟨.opening :: .space sp :: ps, .group hb hps, ?_⟩
          rw [hs, he]
          simp [Piece.text, hl]
        by_cases hr : c = rparen
        · rw [term, if_neg hm, if_neg hl, if_pos hr] at h
          simp [fail] at h
        · rw [term_atom _ _ ⟨hm, hl, hr⟩] at h
          obtain ⟨l, he, hl'⟩ := atom_split h (by simpa using ⟨hm, hl, hr⟩)
          exact ⟨[.leaf l], .leaf hl', by simpa [Piece.text] using he⟩
    · intro start branches seq s t r h
      cases s with
      | nil => simp [QueryGrammar.group, fail] at h
      | cons c s =>
        rw [QueryGrammar.group] at h
        by_cases hc : c = rparen
        · rw [if_pos hc] at h
          obtain ⟨bs, hfl, h⟩ := bind_eq_ok.mp h
          obtain ⟨rfl, rfl⟩ : collapse bs = t ∧ s = r := by simpa using h
          exact ⟨[.closing], .close (flush_anywhere hfl), by simp [Piece.text, hc]⟩
        rw [if_neg hc] at h
        cases hw : word "OR" (c :: s) with
        | some r' =>
          simp only [hw] at h
          obtain ⟨bs, hfl, h⟩ := bind_eq_ok.mp h
          obtain ⟨ps, hps, he⟩ := ihGroup _ _ _ _ _ _ h
          obtain ⟨hs, ha⟩ := word_eq_some.mp hw
          obtain ⟨sp, hb, hsp, hn⟩ := space_split r'
          refine ⟨.or :: .space sp :: ps, .or (flush_anywhere hfl) hb ?_ hps, ?_⟩
          · rintro rfl
            obtain ⟨d, s', hd, hd', -⟩ := hps.head
            have hr' : r' = d :: (s' ++ r) := by
              rw [hsp, he, hd]
              rfl
            have hclose := hps.not_close
            rw [hd] at hclose ⊢
            obtain h | h | h := ha d (by simp [hr'])
            · simp [h] at hd'
            · simp [h]
            · simp [h] at hclose
          · rw [hs, hsp, he]
            simp [Piece.text]
        | none =>
          simp only [hw] at h
          obtain ⟨⟨u, r'⟩, hu, h⟩ := bind_eq_ok.mp h
          obtain ⟨r'', hsep, h⟩ := bind_eq_ok.mp h
          obtain ⟨ps, hps, he⟩ := ihTerm _ _ _ hu
          obtain ⟨qs, hqs, rfl⟩ := ihGroup _ _ _ _ _ _ h
          obtain ⟨sp, hb, rfl, hend, -⟩ := separator_split hsep
          obtain ⟨d, s', hd, hd', hp⟩ := hqs.head
          have hclose : sp = [] → (text qs).head? = some rparen := by
            intro hsp
            have := hend hsp
            simp only [hd, List.cons_append, reduceCtorEq, List.head?_cons, Option.some.injEq, false_or] at this ⊢
            exact this.resolve_right hp
          refine ⟨ps ++ .space sp :: qs, .item hps ?_ hb hclose hqs, ?_⟩
          · intro hor
            have : Alone (sp ++ (text qs ++ r)) := by
              apply Alone.blank hb
              intro hsp
              have := hclose hsp
              rw [hd] at this ⊢
              obtain rfl : d = rparen := by simpa using this
              simp [Alone]
            have := word_eq_some.mpr ⟨he.trans (by rw [hor]), this⟩
            rw [hw] at this
            simp at this
          · rw [he]
            simp [Piece.text]

/-! ## The filters of a query -/

/-- The terms up to the pipe or the end, with the whitespace after each. -/
inductive FilterReading (lib : Library ν) : List Piece → List (Term ν) → Prop
  | nil : FilterReading lib [] []
  | cons {ps qs : List Piece} {sp : Bytes} {t : Term ν} {ts : List (Term ν)} :
      Reading lib ps (.term t) → Blank sp → (sp = [] → qs = []) → FilterReading lib qs ts →
      FilterReading lib (ps ++ .space sp :: qs) (t :: ts)

/-- What follows the filters: nothing, or the pipe. -/
def AtPipe (s : Bytes) : Prop := ∀ c ∈ s.head?, c = pipe

theorem AtPipe.not_space {s : Bytes} (h : AtPipe s) : ∀ c ∈ s.head?, isSpace c = false := by
  intro c hc
  obtain rfl := h c hc
  decide

theorem AtPipe.ends {s : Bytes} (h : AtPipe s) : Ends s := fun c hc => Or.inr (Or.inr (h c hc))

theorem FilterReading.not_space {ps : List Piece} {ts : List (Term ν)} {s : Bytes} (h : FilterReading lib ps ts)
    (hs : AtPipe s) : ∀ c ∈ (text ps ++ s).head?, isSpace c = false := by
  cases h with
  | nil => exact hs.not_space
  | cons h _ _ _ =>
    obtain ⟨c, s', hc, hsp, -⟩ := h.head
    simp [hc, hsp]

theorem FilterReading.filters {ps : List Piece} {ts : List (Term ν)} (h : FilterReading lib ps ts) :
    ∀ acc s fuel, AtPipe s → (text ps).length < fuel → filters lib fuel acc (text ps ++ s) = .ok (acc ++ ts, s) := by
  induction h with
  | nil =>
    intro acc s fuel hs hf
    obtain ⟨fuel, rfl⟩ : ∃ k, fuel = k + 1 := ⟨fuel - 1, by omega⟩
    cases s with
    | nil => simp [QueryGrammar.filters]
    | cons c s =>
      obtain rfl : c = pipe := hs c rfl
      simp [QueryGrammar.filters]
  | @cons ps qs sp t ts h hb hsp h' ih =>
    intro acc s fuel hs hf
    have hpos := h.length_pos
    simp only [text_append, text_cons, Piece.text, List.length_append] at hf
    obtain ⟨fuel, rfl⟩ : ∃ k, fuel = k + 1 := ⟨fuel - 1, by omega⟩
    have hns := h'.not_space hs
    have hends : Ends (sp ++ (text qs ++ s)) := by
      apply Ends.blank hb
      intro he
      obtain rfl := hsp he
      exact hs.ends
    have hin := h.accepted (sp ++ (text qs ++ s)) (fuel + 1) hends (by omega)
    have hsep : separator lib (sp ++ (text qs ++ s)) = .ok (text qs ++ s) := by
      apply separator_blank hb hns
      intro he
      obtain rfl := hsp he
      cases s with
      | nil => exact Or.inl rfl
      | cons c s => exact Or.inr (Or.inr (by simp [hs c rfl]))
    obtain ⟨c, s', hc, -, hp⟩ := h.head
    simp only [text_append, text_cons, Piece.text, List.append_assoc]
    rw [hc, List.cons_append] at hin ⊢
    rw [QueryGrammar.filters, if_neg hp, hin]
    simp only [bind, Except.bind, hsep]
    rw [ih _ s fuel hs (by omega)]
    simp

theorem filters_reading (fuel : ℕ) : ∀ (acc : List (Term ν)) (s : Bytes) (ts : List (Term ν)) (r : Bytes),
    filters lib fuel acc s = .ok (ts, r) →
      ∃ ps new, FilterReading lib ps new ∧ ts = acc ++ new ∧ s = text ps ++ r ∧ AtPipe r := by
  induction fuel with
  | zero => simp [filters]
  | succ fuel ih =>
    intro acc s ts r h
    cases s with
    | nil =>
      obtain ⟨rfl, rfl⟩ : acc = ts ∧ [] = r := by simpa [filters] using h
      exact ⟨[], [], .nil, by simp, by simp, by simp [AtPipe]⟩
    | cons c s =>
      rw [filters] at h
      by_cases hp : c = pipe
      · rw [if_pos hp] at h
        obtain ⟨rfl, rfl⟩ : acc = ts ∧ c :: s = r := by simpa using h
        exact ⟨[], [], .nil, by simp, by simp, by simp [AtPipe, hp]⟩
      rw [if_neg hp] at h
      obtain ⟨⟨t, r'⟩, ht, h⟩ := bind_eq_ok.mp h
      obtain ⟨r'', hsep, hrest⟩ := bind_eq_ok.mp h
      obtain ⟨ps, hps, he⟩ := (accepted_reading (fuel + 1)).1 _ _ _ ht
      obtain ⟨sp, hb, rfl, hend, hn⟩ := separator_split hsep
      obtain ⟨qs, new, hqs, rfl, rfl, hr⟩ := ih _ _ _ _ hrest
      refine ⟨ps ++ .space sp :: qs, t :: new, .cons hps hb ?_ hqs, by simp, by simp [he, Piece.text], hr⟩
      intro hsp
      cases hqs with
      | nil => rfl
      | cons h' _ _ _ =>
        exfalso
        obtain ⟨d, s', hd, -, hdp⟩ := h'.head
        have hd' := h'.head_ne_rparen d (by simp [hd])
        have := hend hsp
        simp [hd, hdp, hd'] at this

/-! ## The whole query -/

/-- The bytes of a query, its terms, and what follows them. -/
structure QueryReading (lib : Library ν) (q : Bytes) (ps : List Piece) (ts : List (Term ν)) (r : Bytes) : Prop where
  filters : FilterReading lib ps ts
  text : ∃ sp, Blank sp ∧ q = sp ++ text ps ++ r
  atPipe : AtPipe r

theorem QueryReading.space_eq {q r : Bytes} {ps : List Piece} {ts : List (Term ν)} (h : QueryReading lib q ps ts r) :
    space q = GrammarReadings.text ps ++ r := by
  obtain ⟨sp, hb, rfl⟩ := h.text
  rw [List.append_assoc]
  exact space_blank hb (h.filters.not_space h.atPipe)

theorem filters_eq_ok {q r : Bytes} {ts : List (Term ν)} :
    filters lib (2 * q.length + 1) [] (space q) = .ok (ts, r) ↔ ∃ ps, QueryReading lib q ps ts r := by
  constructor
  · intro h
    obtain ⟨ps, new, hps, rfl, he, hr⟩ := filters_reading _ _ _ _ _ h
    obtain ⟨sp, hb, hs, -⟩ := space_split q
    exact ⟨ps, hps, ⟨sp, hb, by rw [List.append_assoc, ← he, ← hs]⟩, hr⟩
  · rintro ⟨ps, h⟩
    obtain ⟨sp, hb, hq⟩ := h.text
    rw [h.space_eq, h.filters.filters [] r _ h.atPipe (by rw [hq]; simp; omega)]
    rfl

/-- A query without a pipe. -/
theorem parse_filters {q : Bytes} {ts : List (Term ν)} :
    (∃ ps, QueryReading lib q ps ts []) → parse lib q = .ok { filters := ts } := by
  intro h
  rw [parse, filters_eq_ok.mpr h]
  rfl

theorem parse_eq_ok {q : Bytes} {ast : AST ν} :
    parse lib q = .ok ast ↔ ∃ ps r, QueryReading lib q ps ast.filters r ∧
      ((r = [] ∧ ast.agg = [] ∧ ast.groupBy = []) ∨
        ∃ s, r = pipe :: s ∧ aggregation lib (q.length + 1) (space s) = .ok (ast.agg, ast.groupBy)) := by
  constructor
  · intro h
    obtain ⟨⟨ts, r⟩, hf, h⟩ := bind_eq_ok.mp h
    obtain ⟨ps, hps⟩ := filters_eq_ok.mp hf
    cases r with
    | nil =>
      obtain rfl : { filters := ts } = ast := by simpa using h
      exact ⟨ps, [], hps, Or.inl ⟨rfl, rfl, rfl⟩⟩
    | cons c s =>
      obtain rfl : c = pipe := hps.atPipe c rfl
      obtain ⟨⟨as, gs⟩, ha, h⟩ := bind_eq_ok.mp h
      obtain rfl : { filters := ts, agg := as, groupBy := gs } = ast := by simpa using h
      exact ⟨ps, pipe :: s, hps, Or.inr ⟨s, rfl, ha⟩⟩
  · rintro ⟨ps, r, hps, ⟨rfl, ha, hg⟩ | ⟨s, rfl, ha⟩⟩
    · rw [parse_filters ⟨ps, hps⟩]
      cases ast
      simp_all
    · rw [parse, filters_eq_ok.mpr ⟨ps, hps⟩]
      simp [bind, Except.bind, ha]

end Upstat.GrammarReadings
