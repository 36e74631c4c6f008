import Upstat.NotifierPrograms
import Upstat.PrintedQueries

/-! # Queries and what `str.strip` leaves of them

Whitespace at the ends of a query is no part of its terms. Python strips more than the grammar
takes for whitespace, and a query that begins or ends with that has other terms when stripped. -/
namespace Upstat.StrippedQueries

open QueryGrammar GrammarReadings PrintedQueries EncodedTexts

variable {ν : Type} {lib : Library ν}

/-- `str.strip` -/
def strip (s : List Char) : List Char :=
  ((s.dropWhile NotifierPrograms.isSpace).reverse.dropWhile NotifierPrograms.isSpace).reverse

variable (lib) in
/-- The text is a query of these terms and no more. -/
def Reads (s : Bytes) (ts : List (Term ν)) : Prop := ∃ ps, QueryReading lib s ps ts []

/-! ## Blanks at the ends -/

theorem blank_append {a b : Bytes} (ha : Blank a) (hb : Blank b) : Blank (a ++ b) := by
  intro c hc
  exact (List.mem_append.mp hc).elim (ha c) (hb c)

theorem Reading.text_ne_nil {ps : List Piece} {n : Node ν} (h : Reading lib ps n) : text ps ≠ [] := by
  obtain ⟨c, s, hc, -⟩ := h.head
  simp [hc]

theorem FilterReading.nil_iff {ps : List Piece} {ts : List (Term ν)} (h : FilterReading lib ps ts) :
    ts = [] ↔ text ps = [] := by
  cases h with
  | nil => simp
  | cons h _ _ _ => simp [Reading.text_ne_nil h]

/-- Blanks after the last term belong to it. -/
theorem FilterReading.snoc_blank {ps : List Piece} {ts : List (Term ν)} (h : FilterReading lib ps ts) (hne : ts ≠ [])
    {b : Bytes} (hb : Blank b) : ∃ ps', FilterReading lib ps' ts ∧ text ps' = text ps ++ b := by
  induction h with
  | nil => exact absurd rfl hne
  | @cons ps qs sp t ts h hsp hnil h' ih =>
    by_cases hts : ts = []
    · subst hts
      cases h'
      exact ⟨ps ++ [.space (sp ++ b)], .cons h (blank_append hsp hb) (fun _ => rfl) .nil, by simp [Piece.text]⟩
    · obtain ⟨rs, hrs, he⟩ := ih hts
      refine ⟨ps ++ .space sp :: rs, .cons h hsp (fun hs => ?_) hrs, by simp [he]⟩
      obtain rfl := hnil hs
      exact absurd ((FilterReading.nil_iff h').mpr rfl) hts

/-- The last byte of a term is no blank. -/
theorem Reading.last {ps : List Piece} {n : Node ν} (h : Reading lib ps n) :
    ∀ c ∈ (text ps).getLast?, isSpace c = false := by
  induction h with
  | leaf h => simpa [Piece.text] using h.last
  | not h ih =>
    rwa [text_cons, List.getLast?_append_of_ne_nil _ (Reading.text_ne_nil h)]
  | group _ h ih =>
    rwa [text_cons, text_cons, ← List.append_assoc, List.getLast?_append_of_ne_nil _ (Reading.text_ne_nil h)]
  | close _ =>
    intro c hc
    obtain rfl : rparen = c := by simpa [Piece.text] using hc
    decide
  | or _ _ _ h ih =>
    rwa [text_cons, text_cons, ← List.append_assoc, List.getLast?_append_of_ne_nil _ (Reading.text_ne_nil h)]
  | item _ _ _ _ h _ ih =>
    rwa [text_append, text_cons, ← List.append_assoc, List.getLast?_append_of_ne_nil _ (Reading.text_ne_nil h)]

/-- Blanks that something ends with are at the end of what follows its last byte that is none. -/
theorem blank_suffix {x y s b : Bytes} (hb : Blank b) (hx : ∀ c ∈ x.getLast?, isSpace c = false) (hne : x ≠ [])
    (h : x ++ y = s ++ b) : ∃ m, s = x ++ m ∧ y = m ++ b := by
  rcases List.append_eq_append_iff.mp h with ⟨m, rfl, rfl⟩ | ⟨m, rfl, rfl⟩
  · exact ⟨m, rfl, rfl⟩
  · by_cases hm : m = []
    · subst hm
      exact ⟨[], by simp, by simp⟩
    · have hlast := hx (m.getLast hm) (by
        rw [List.getLast?_append_of_ne_nil _ hm, List.getLast?_eq_some_getLast hm]
        rfl)
      have := hb (m.getLast hm) (List.mem_append_left _ (List.getLast_mem hm))
      rw [hlast] at this
      exact absurd this (by decide)

/-- Blanks at the end of what begins with none are after its beginning. -/
theorem blank_after {x y s b : Bytes} (hb : Blank b) (hy : ∃ c y', y = c :: y' ∧ isSpace c = false) (h : x ++ y = s ++ b) :
    ∃ m, s = x ++ m ∧ y = m ++ b := by
  obtain ⟨c, y, rfl, hc⟩ := hy
  rcases List.append_eq_append_iff.mp h with ⟨m, rfl, hm⟩ | ⟨m, rfl, rfl⟩
  · exact ⟨m, rfl, hm⟩
  · have := hb c (by simp)
    rw [hc] at this
    exact absurd this (by decide)

theorem FilterReading.head {ps : List Piece} {ts : List (Term ν)} (h : FilterReading lib ps ts) (hne : ts ≠ []) :
    ∃ c s, text ps = c :: s ∧ isSpace c = false := by
  cases h with
  | nil => exact absurd rfl hne
  | cons h _ _ _ =>
    obtain ⟨c, s, hc, hcs, -⟩ := h.head
    exact ⟨c, _, by rw [text_append, hc, List.cons_append], hcs⟩

/-- Blanks at the end of a query do not matter. -/
theorem FilterReading.trim {ps : List Piece} {ts : List (Term ν)} (h : FilterReading lib ps ts) (hne : ts ≠ [])
    {s b : Bytes} (hb : Blank b) (he : text ps = s ++ b) : ∃ ps', FilterReading lib ps' ts ∧ text ps' = s := by
  induction h generalizing s with
  | nil => exact absurd rfl hne
  | @cons ps qs sp t ts h hsp hnil h' ih =>
    rw [text_append, text_cons, Piece.text] at he
    by_cases hts : ts = []
    · subst hts
      cases h'
      rw [text_nil, List.append_nil] at he
      obtain ⟨m, rfl, rfl⟩ := blank_suffix hb (Reading.last h) (Reading.text_ne_nil h) he
      exact ⟨ps ++ [.space m], .cons h (fun c hc => hsp c (by simp [hc])) (fun _ => rfl) .nil, by simp [Piece.text]⟩
    · obtain ⟨m, hs, hm⟩ := blank_suffix hb (Reading.last h) (Reading.text_ne_nil h) he
      obtain ⟨m', rfl, hm'⟩ := blank_after hb (FilterReading.head h' hts) hm
      obtain ⟨rs, hrs, hr⟩ := ih hts hm'
      refine ⟨ps ++ .space sp :: rs, .cons h hsp (fun hsp => ?_) hrs, by simp [hs, hr, Piece.text]⟩
      obtain rfl := hnil hsp
      exact absurd ((FilterReading.nil_iff h').mpr rfl) hts

theorem reads_append_blank {s b : Bytes} {ts : List (Term ν)} (hb : Blank b) : Reads lib (s ++ b) ts ↔ Reads lib s ts := by
  constructor
  · rintro ⟨ps, h⟩
    obtain ⟨sp, hsp, he⟩ := h.text
    rw [List.append_nil] at he
    by_cases hts : ts = []
    · subst hts
      rw [(FilterReading.nil_iff h.filters).mp rfl, List.append_nil] at he
      exact ⟨[], .nil, ⟨s, fun c hc => hsp c (by simp [← he, hc]), by simp⟩, by simp [AtPipe]⟩
    · obtain ⟨m, rfl, hm⟩ := blank_after hb (FilterReading.head h.filters hts) he.symm
      obtain ⟨ps', hps', rfl⟩ := FilterReading.trim h.filters hts hb hm
      exact ⟨ps', hps', ⟨sp, hsp, by simp⟩, by simp [AtPipe]⟩
  · rintro ⟨ps, h⟩
    obtain ⟨sp, hsp, rfl⟩ := h.text
    by_cases hts : ts = []
    · subst hts
      have hps := (FilterReading.nil_iff h.filters).mp rfl
      exact ⟨[], .nil, ⟨sp ++ b, blank_append hsp hb, by simp [hps]⟩, by simp [AtPipe]⟩
    · obtain ⟨ps', hps', he⟩ := FilterReading.snoc_blank h.filters hts hb
      exact ⟨ps', hps', ⟨sp, hsp, by simp [he]⟩, by simp [AtPipe]⟩

/-- Nor do blanks at its beginning. -/
theorem reads_blank_append {s b : Bytes} {ts : List (Term ν)} (hb : Blank b) : Reads lib (b ++ s) ts ↔ Reads lib s ts := by
  constructor
  · rintro ⟨ps, h⟩
    have hs : space (b ++ s) = text ps := by rw [h.space_eq, List.append_nil]
    have hb' : space (b ++ s) = space s := by rw [space, List.dropWhile_append_of_pos hb, space]
    obtain ⟨sp, hsp, he, -⟩ := space_split s
    exact ⟨ps, h.filters, ⟨sp, hsp, by rw [he, ← hb', hs, List.append_nil]⟩, h.atPipe⟩
  · rintro ⟨ps, h⟩
    obtain ⟨sp, hsp, rfl⟩ := h.text
    exact ⟨ps, h.filters, ⟨b ++ sp, blank_append hb hsp, by simp⟩, h.atPipe⟩

/-- What `strip` takes off is whitespace to the grammar too. -/
def Trims (s : List Char) : Prop := ∃ a b, s = a ++ strip s ++ b ∧ Blank (encode a) ∧ Blank (encode b)

theorem reads_strip {s : List Char} (h : Trims s) {ts : List (Term ν)} :
    Reads lib (encode (strip s)) ts ↔ Reads lib (encode s) ts := by
  obtain ⟨a, b, he, ha, hb⟩ := h
  conv_rhs => rw [he, encode_append, encode_append, List.append_assoc]
  rw [reads_blank_append ha, reads_append_blank hb]

/-- What the whole query reads up to its pipe is told by the query. -/
theorem QueryReading.unique {q r r' : Bytes} {ps ps' : List Piece} {ts ts' : List (Term ν)} (h : QueryReading lib q ps ts r)
    (h' : QueryReading lib q ps' ts' r') : ts = ts' ∧ r = r' ∧ text ps = text ps' := by
  obtain ⟨rfl, rfl⟩ := Prod.mk.inj (Except.ok.inj ((filters_eq_ok.mpr ⟨ps, h⟩).symm.trans (filters_eq_ok.mpr ⟨ps', h'⟩)))
  exact ⟨rfl, rfl, List.append_cancel_right (h.space_eq.symm.trans h'.space_eq)⟩

/-! ## What follows the last term -/

/-- A byte that Python strips, or a byte of a character it strips, and no whitespace to the grammar. -/
structure Odd (c : UInt8) : Prop where
  not_space : isSpace c = false
  range : c.toNat < 32 ∨ 128 ≤ c.toNat

theorem Odd.ne {c : UInt8} (h : Odd c) {d : UInt8} (hd : 32 ≤ d.toNat ∧ d.toNat < 128) : c ≠ d := by
  rintro rfl
  have := h.range
  omega

theorem Odd.bare {c : UInt8} (h : Odd c) : bareByte c = true := by
  simp only [bareByte, decide_eq_true_eq, not_or]
  exact ⟨by simp [h.not_space], h.ne (by decide), h.ne (by decide), h.ne (by decide), h.ne (by decide)⟩

theorem Odd.not_ident {c : UInt8} (h : Odd c) {b : Bool} : identByte c b = false := by
  have hr := h.range
  simp only [identByte, decide_eq_false_iff_not, UInt8.le_iff_toNat_le, ← UInt8.toNat_inj]
  have : 'a'.toUInt8.toNat = 97 := rfl
  have : 'z'.toUInt8.toNat = 122 := rfl
  have : '@'.toUInt8.toNat = 64 := rfl
  have : '_'.toUInt8.toNat = 95 := rfl
  have : '0'.toUInt8.toNat = 48 := rfl
  have : '9'.toUInt8.toNat = 57 := rfl
  have : '.'.toUInt8.toNat = 46 := rfl
  have : minus.toNat = 45 := rfl
  have : 'A'.toUInt8.toNat = 65 := rfl
  have : 'Z'.toUInt8.toNat = 90 := rfl
  omega

/-- What reads as a number is printable. -/
def PlainNumbers (lib : Library ν) : Prop := ∀ s x, lib.parseFloat s = some x → ∀ c ∈ s, 32 ≤ c.toNat ∧ c.toNat < 128

theorem PlainNumbers.odd (h : PlainNumbers lib) {s m : Bytes} {c : UInt8} (hc : Odd c) : lib.parseFloat (s ++ c :: m) = none := by
  rw [Option.eq_none_iff_forall_ne_some]
  intro x hx
  have hr := hc.range
  have := h _ x hx c (by simp)
  omega

theorem toLower_append_ne {v : List Char} {m : Bytes} (hm : m ≠ []) : lib.toLower (encode v ++ m) ≠ lib.toLower (encode v) := by
  intro h
  have hmap := encode_injective h
  rw [runes_encode_append, runes_encode] at hmap
  have hlen := congrArg List.length hmap
  exact runes_ne_nil hm (by simpa using hlen)

/-- A longer unquoted value is another value. -/
theorem valueTerm_longer (hnum : PlainNumbers lib) {f m : Bytes} {v : List Char} {cmp : Cmp} {c : UInt8} {t u : Term ν} (hc : Odd c)
    (ht : valueTerm lib f cmp (encode v) false = some t) (hu : valueTerm lib f cmp (encode v ++ c :: m) false = some u) : u ≠ t := by
  unfold valueTerm at ht hu
  rw [if_neg (by simp)] at hu
  by_cases hv : encode v = [] ∧ ¬false = true
  · simp [hv] at ht
  rw [if_neg hv] at ht
  by_cases hcmp : cmp ≠ .eq
  · rw [if_pos hcmp, hnum.odd hc] at hu
    simp at hu
  rw [if_neg hcmp] at ht hu
  obtain rfl := Option.some.inj ht
  obtain rfl := Option.some.inj hu
  by_cases hn : numericFacet f = true
  · have hlevel : f ≠ bytes "level" := by
      rintro rfl
      exact absurd hn (by decide)
    simp only [hlevel, if_false, hn, Bool.false_eq_true, not_false_eq_true, and_self, if_true, hnum.odd hc, Option.elim_none]
    cases lib.parseFloat (encode v) with
    | none => simp
    | some x => simp
  · simp only [hn, false_and, Bool.false_eq_true, if_false]
    split_ifs with hlevel
    · simpa using toLower_append_ne (List.cons_ne_nil c m)
    · simp

/-- What is read as a comparator is of three bytes only. -/
theorem comparator_prefix {s w : Bytes} {cmp : Cmp} (h : comparator s = (cmp, w)) :
    ∃ o, s = o ++ w ∧ ∀ c ∈ o, c.toNat < 128 ∧ bareByte c = true := by
  have hall : ∀ o ∈ comparators, ∀ c ∈ o.1, c.toNat < 128 ∧ bareByte c = true := by decide +kernel
  unfold comparator at h
  split at h
  · rename_i o ho
    obtain ⟨-, rfl⟩ := Prod.mk.inj h
    have hp : o.1.isPrefixOf s = true := by simpa using List.find?_some ho
    obtain ⟨w, rfl⟩ := List.isPrefixOf_iff_prefix.mp hp
    exact ⟨o.1, by rw [List.drop_left], hall o (List.mem_of_find?_eq_some ho)⟩
  · exact ⟨[], (Prod.mk.inj h).2, by simp⟩

/-- What follows a comparator of a text is a text. -/
theorem comparator_text {v : List Char} {cmp : Cmp} {w : Bytes} (h : comparator (encode v) = (cmp, w)) : ∃ v', w = encode v' := by
  obtain ⟨o, ho, hascii⟩ := comparator_prefix h
  rcases List.eq_nil_or_concat o with rfl | ⟨o, c, rfl⟩
  · exact ⟨v, ho.symm⟩
  · exact encode_after (hascii c (by simp)).1 (a := o) (by simpa using ho)

/-- What stands after a colon is a text, as it is at the end of a query. -/
def EndsText (s : Bytes) : Prop := ∀ x w, s = x ++ colon :: w → ∃ v, w = encode v

theorem EndsText.append {a s : Bytes} (h : EndsText (a ++ s)) : EndsText s := by
  rintro x w rfl
  exact h (a ++ x) w (by simp)

theorem endsText_encode (q : List Char) : EndsText (encode q) := by
  intro x w h
  exact encode_after (by decide) h

theorem bare_longer {l : Bytes} (hl : ∀ c ∈ l, bareByte c = true) {c : UInt8} (hc : bareByte c = true) (s : Bytes) :
    ∃ m r, bare (l ++ c :: s) = (l ++ c :: m, r) := by
  rw [bare, List.takeWhile_append_of_pos hl, List.takeWhile_cons_of_pos hc]
  exact ⟨_, _, rfl⟩

/-- No name goes on with such a byte, and none stands where there is no colon. -/
theorem not_name {x s name s' : Bytes} {e : UInt8} (he : Odd e) (hi : IsIdent name) (hx : colon ∉ x) :
    x ++ e :: s ≠ name ++ colon :: s' := by
  intro h
  have hec : e ≠ colon := he.ne (by decide)
  have hmem : e ∉ name := by
    intro hm
    obtain ⟨c, name, rfl⟩ := List.exists_cons_of_ne_nil hi.ne_nil
    rcases List.mem_cons.mp hm with rfl | hm
    · exact absurd (hi.1.symm.trans he.not_ident) (by decide)
    · exact absurd ((hi.2 e hm).symm.trans he.not_ident) (by decide)
  rcases List.append_eq_append_iff.mp h with ⟨k, rfl, hk⟩ | ⟨k, rfl, hk⟩
  · cases k with
    | nil => exact hec (List.cons.inj hk).1
    | cons d k =>
      obtain rfl : e = d := (List.cons.inj hk).1
      exact hmem (by simp)
  · cases k with
    | nil => exact hec (List.cons.inj hk).1.symm
    | cons d k =>
      obtain rfl : colon = d := (List.cons.inj hk).1
      exact hx (by simp)

/-- A facet's value that goes on is left to go on after a quote, or is another value. -/
theorem facetValue_longer (hnum : PlainNumbers lib) {start start' f w s r : Bytes} {t u : Term ν} {e : UInt8} (he : Odd e)
    (hw : ∃ v, w = encode v) (ht : facetValue lib start f w = .ok (t, []))
    (hu : facetValue lib start' f (w ++ e :: s) = .ok (u, r)) : u ≠ t ∨ r = e :: s := by
  obtain ⟨raw, isQuoted, hraw, hv⟩ := facetValue_eq_ok.mp ht
  obtain ⟨raw', isQuoted', hraw', hv'⟩ := facetValue_eq_ok.mp hu
  obtain ⟨cmp, v, hc⟩ : ∃ cmp v, comparator w = (cmp, v) := ⟨_, _, rfl⟩
  rw [hc] at hraw hv
  have hne : v ≠ [] := by
    rintro rfl
    obtain ⟨rfl, rfl⟩ : ([] : Bytes) = raw ∧ false = isQuoted := by simpa [rawValue, bare] using hraw
    simp [valueTerm] at hv
  obtain ⟨o, ho, hcmp⟩ := comparator_split hne (r := []) (by rw [hc, List.append_nil])
  rw [List.append_nil] at ho
  rw [ho, hcmp] at hraw' hv'
  by_cases hq : v.head? = some dquote
  · -- The value is quoted, and what follows its quote is left.
    have hq' : (v ++ e :: s).head? = some dquote := by
      obtain ⟨c, v, rfl⟩ := List.exists_cons_of_ne_nil hne
      simpa using hq
    rw [rawValue, if_pos hq] at hraw
    rw [rawValue, if_pos hq'] at hraw'
    cases hx : quoted v with
    | error _ => simp [hx] at hraw
    | ok p =>
      obtain ⟨x, r'⟩ := p
      obtain ⟨-, rfl⟩ : (x = raw ∧ true = isQuoted) ∧ r' = [] := by simpa [hx] using hraw
      obtain ⟨l, hl, -, -, hread⟩ := quoted_split hq hx
      rw [List.append_nil] at hl
      rw [hl, hread (e :: s)] at hraw'
      obtain ⟨-, rfl⟩ : (x = raw' ∧ true = isQuoted') ∧ e :: s = r := by simpa using hraw'
      exact Or.inr rfl
  · -- The value is a word, which goes on.
    obtain ⟨wv, rfl⟩ := hw
    obtain ⟨v', rfl⟩ := comparator_text hc
    have hq' : (encode v' ++ e :: s).head? ≠ some dquote := by
      obtain ⟨c, v, hcv⟩ := List.exists_cons_of_ne_nil hne
      rw [hcv] at hq ⊢
      simpa using hq
    rw [rawValue, if_neg hq] at hraw
    rw [rawValue, if_neg hq'] at hraw'
    obtain ⟨⟨rfl, rfl⟩, hb⟩ : ((bare (encode v')).1 = raw ∧ false = isQuoted) ∧ (bare (encode v')).2 = [] := by
      simpa using hraw
    obtain ⟨hsplit, hall⟩ := bare_split (encode v')
    rw [hb, List.append_nil] at hsplit
    rw [← hsplit] at hv hall
    obtain ⟨m, r', hm⟩ := bare_longer hall he.bare s
    obtain ⟨⟨rfl, rfl⟩, -⟩ : (encode v' ++ e :: m = raw' ∧ false = isQuoted') ∧ r' = r := by simpa [hm] using hraw'
    exact Or.inl (valueTerm_longer hnum he hv hv')

/-- Where such a byte follows an atomic term, it is left or makes another term. -/
theorem Atomic.longer (hnum : PlainNumbers lib) {l s r : Bytes} {t u : Term ν} {e : UInt8} (he : Odd e) (h : Atomic lib l t)
    (htext : EndsText l) (hu : atom lib (l ++ e :: s) = .ok (u, r)) : u ≠ t ∨ r = e :: s := by
  have ht := h.reads [] Ends.nil
  rw [List.append_nil] at ht
  obtain ⟨c, l, rfl⟩ := List.exists_cons_of_ne_nil h.ne_nil
  by_cases hq : c = dquote
  · rw [atom, if_pos hq] at ht
    rw [List.cons_append, atom, if_pos hq] at hu
    obtain ⟨⟨x, r'⟩, hx, hxt⟩ := bind_eq_ok.mp ht
    obtain ⟨⟨y, r''⟩, hy, hyu⟩ := bind_eq_ok.mp hu
    obtain ⟨-, rfl⟩ : Term.text x = t ∧ r' = [] := by simpa using hxt
    obtain ⟨l', hl', -, -, hread⟩ := quoted_split (by simp [hq]) hx
    rw [List.append_nil] at hl'
    rw [← List.cons_append, hl', hread (e :: s)] at hy
    obtain ⟨-, rfl⟩ := Prod.mk.inj (Except.ok.inj hy)
    exact Or.inr (by simpa using (Prod.mk.inj (Except.ok.inj hyu)).2.symm)
  rw [atom_eq_named hq] at ht
  rw [List.cons_append, atom_eq_named hq] at hu
  obtain ⟨f, w, hl, hi, hk, hf⟩ | ⟨x, hx, -, hcolon, rfl⟩ := named_cases ht
  · rw [← List.cons_append, hl, List.append_assoc, List.cons_append, named_facet hi hk] at hu
    exact facetValue_longer hnum he (htext f w hl) hf hu
  · obtain ⟨hsplit, hall⟩ := bare_split (c :: l)
    rw [hx] at hsplit hall
    rw [List.append_nil] at hsplit
    obtain ⟨name, s', hname, hi, -, -⟩ | ⟨y, hy, -, -, rfl⟩ := named_cases hu
    · rw [← List.cons_append, hsplit] at hname
      exact absurd hname (not_name he hi hcolon)
    · obtain ⟨m, r', hm⟩ := bare_longer hall he.bare s
      rw [← List.cons_append, hsplit, hm] at hy
      obtain rfl := (Prod.mk.inj hy).1
      exact Or.inl (by simp)

/-- What is said of a term followed by such a byte. -/
def Longer (lib : Library ν) (ps : List Piece) : Node ν → Prop
  | .term t => EndsText (text ps) → ∀ e s fuel u r, Odd e → (text ps).length ≤ fuel →
      term lib fuel (text ps ++ e :: s) = .ok (u, r) → u ≠ t ∨ r = e :: s
  | .inside .. => True

theorem Reading.longer (hnum : PlainNumbers lib) {ps : List Piece} {n : Node ν} (h : Reading lib ps n) : Longer lib ps n := by
  induction h with
  | @leaf l t h =>
    intro htext e s fuel u r he hf hu
    simp only [text_cons, Piece.text, text_nil, List.append_nil] at htext hf hu
    obtain ⟨c, l, rfl⟩ := List.exists_cons_of_ne_nil h.ne_nil
    obtain ⟨fuel, rfl⟩ : ∃ k, fuel = k + 1 := ⟨fuel - 1, by simp at hf; omega⟩
    rw [List.cons_append, term_atom _ _ (h.head c rfl), ← List.cons_append] at hu
    exact Atomic.longer hnum he h htext hu
  | @not ps t h ih =>
    intro htext e s fuel u r he hf hu
    simp only [text_cons, Piece.text, List.length_append, List.length_singleton] at hf
    obtain ⟨fuel, rfl⟩ : ∃ k, fuel = k + 1 := ⟨fuel - 1, by omega⟩
    rw [text_cons, Piece.text, List.cons_append, List.cons_append, List.nil_append, term, if_pos rfl] at hu
    split at hu
    · simp [fail] at hu
    obtain ⟨⟨u', r'⟩, hin, hu⟩ := bind_eq_ok.mp hu
    obtain ⟨rfl, rfl⟩ : Term.not u' = u ∧ r' = r := by simpa using hu
    rcases ih htext.append e s fuel u' r' he (by omega) hin with hne | hr
    · exact Or.inl (by simpa using hne)
    · exact Or.inr hr
  | @group sp ps t hb h _ =>
    -- The closing paren ends the group, whatever follows it.
    intro _ e s fuel u r _ hf hu
    simp only [text_cons, Piece.text, List.length_append, List.length_singleton] at hf
    obtain ⟨fuel, rfl⟩ : ∃ k, fuel = k + 1 := ⟨fuel - 1, by omega⟩
    obtain ⟨c, s', hc, hsp, -⟩ := h.head
    have hskip : space (sp ++ (text ps ++ e :: s)) = text ps ++ e :: s := space_blank hb (by simp [hc, hsp])
    have hin := h.accepted (lparen :: (sp ++ (text ps ++ e :: s))) (e :: s) fuel (by omega)
    simp only [text_cons, Piece.text, List.cons_append, List.nil_append, List.append_assoc] at hu
    rw [term, if_neg (by decide), if_pos rfl, hskip, hin] at hu
    exact Or.inr (Prod.mk.inj (Except.ok.inj hu)).2.symm
  | close _ => trivial
  | or _ _ _ _ _ => trivial
  | item _ _ _ _ _ _ _ => trivial

/-! ## Queries that go on -/

/-- A first byte that is no pipe makes one more term. -/
theorem filters_cons {fuel : ℕ} {acc ts : List (Term ν)} {c : UInt8} {s r : Bytes} (hc : c ≠ pipe)
    (h : filters lib fuel acc (c :: s) = .ok (ts, r)) :
    ∃ k t s' new, fuel = k + 1 ∧ term lib fuel (c :: s) = .ok (t, s') ∧ ts = acc ++ t :: new ∧
      ∃ s'', separator lib s' = .ok s'' ∧ filters lib k (acc ++ [t]) s'' = .ok (ts, r) := by
  cases fuel with
  | zero => simp [filters] at h
  | succ fuel =>
    rw [filters, if_neg hc] at h
    obtain ⟨⟨t, s'⟩, ht, h⟩ := bind_eq_ok.mp h
    obtain ⟨s'', hsep, hrest⟩ := bind_eq_ok.mp h
    obtain ⟨-, new, -, rfl, -⟩ := filters_reading _ _ _ _ _ hrest
    exact ⟨fuel, t, s', new, rfl, ht, by simp, s'', hsep, hrest⟩

theorem separator_space {s : Bytes} (h : ∀ c ∈ s.head?, isSpace c = true ∨ c = pipe) : separator lib s = .ok (space s) := by
  cases s with
  | nil => rfl
  | cons c s =>
    have hr : c ≠ rparen := by
      rintro rfl
      exact absurd (h rparen rfl) (by decide)
    rw [separator, if_neg hr, if_neg]
    rintro ⟨h₁, h₂⟩
    exact (h c rfl).elim h₁ h₂

/-- The terms of a text are read first of what it begins, and if what follows them is no pipe,
the whole has other terms. -/
theorem FilterReading.goes_on (hnum : PlainNumbers lib) {ps : List Piece} {ts : List (Term ν)} (h : FilterReading lib ps ts)
    {b z : Bytes} (hb : Blank b) (hz : ∀ c ∈ z.head?, isSpace c = false)
    (hadj : b = [] → AtPipe z ∨ EndsText (text ps) ∧ ∀ c ∈ z.head?, Odd c) :
    ∀ fuel acc ts' r, (text ps ++ (b ++ z)).length < fuel →
      filters lib fuel acc (space (text ps ++ (b ++ z))) = .ok (ts', r) →
      acc.length + ts.length ≤ ts'.length ∧ (¬AtPipe z → ts' ≠ acc ++ ts) := by
  induction h with
  | nil =>
    intro fuel acc ts' r _ h
    rw [text_nil, List.nil_append, space_blank hb hz] at h
    obtain ⟨-, new, -, rfl, -⟩ := filters_reading _ _ _ _ _ h
    refine ⟨by simp, fun hne => ?_⟩
    cases z with
    | nil => exact absurd (by simp [AtPipe]) hne
    | cons c z =>
      have hc : c ≠ pipe := fun hc => hne (by simpa [AtPipe] using hc)
      obtain ⟨-, t, -, new', -, -, he, -⟩ := filters_cons hc h
      rw [List.append_cancel_left he]
      simp
  | @cons ps qs sp t ts h hsp hnil h' ih =>
    intro fuel acc ts' r hf hr
    have hpos := h.length_pos
    simp only [text_append, text_cons, Piece.text, List.append_assoc] at hf hr
    obtain ⟨d, s, hd, hds, hdp⟩ := h.head
    rw [space_of_head (by simp [hd, hds]), hd, List.cons_append] at hr
    obtain ⟨k, u, s', new, rfl, hu, hnew, s'', hsep, hrest⟩ := filters_cons hdp hr
    rw [← List.cons_append, ← hd] at hu
    simp only [List.length_append] at hf hpos
    -- Either the term ends there, or such a byte follows it.
    by_cases hends : ∀ c ∈ (sp ++ (text qs ++ (b ++ z))).head?, isSpace c = true ∨ c = pipe
    · have hin := h.accepted (sp ++ (text qs ++ (b ++ z))) (k + 1)
        (fun c hc => (hends c hc).imp_right Or.inr) (by omega)
      obtain ⟨rfl, rfl⟩ := Prod.mk.inj (Except.ok.inj (hin.symm.trans hu))
      have hskip : space (sp ++ (text qs ++ (b ++ z))) = space (text qs ++ (b ++ z)) := by
        rw [space, List.dropWhile_append_of_pos hsp, space]
      rw [separator_space hends, hskip] at hsep
      obtain rfl := Except.ok.inj hsep
      have hadj' : b = [] → AtPipe z ∨ EndsText (text qs) ∧ ∀ c ∈ z.head?, Odd c := by
        intro hbn
        refine (hadj hbn).imp_right fun h => ⟨?_, h.2⟩
        have := h.1
        rw [text_append, text_cons] at this
        exact this.append.append
      obtain ⟨hlen, hne⟩ := ih hadj' k (acc ++ [t]) ts' r (by simp only [List.length_append]; omega) hrest
      refine ⟨by simp only [List.length_append, List.length_cons] at hlen ⊢; omega, fun hz => ?_⟩
      simpa using hne hz
    · obtain ⟨rfl, hqs⟩ : sp = [] ∧ qs = [] := by
        cases sp with
        | nil => exact ⟨rfl, hnil rfl⟩
        | cons c sp => exact absurd (by simpa using Or.inl (hsp c (by simp))) hends
      subst hqs
      obtain rfl := (FilterReading.nil_iff h').mpr rfl
      simp only [text_nil, List.nil_append] at hends hu
      have hbn : b = [] := by
        cases b with
        | nil => rfl
        | cons c b => exact absurd (by simpa using Or.inl (hb c (by simp))) hends
      subst hbn
      rw [List.nil_append] at hends hu
      obtain ⟨c, z, rfl⟩ := List.exists_cons_of_ne_nil (l := z) (by rintro rfl; simp at hends)
      have hcp : c ≠ pipe := fun hc => hends (by simp [hc])
      obtain ⟨htext, hodd⟩ := (hadj rfl).resolve_left fun hat => hcp (hat c rfl)
      simp only [text_append, text_cons, Piece.text, text_nil, List.append_nil] at htext
      have hc := hodd c rfl
      refine ⟨by simp [hnew], fun _ he => ?_⟩
      rcases Reading.longer hnum h htext c z (k + 1) u s' hc (by omega) hu with hne | rfl
      · rw [hnew] at he
        exact hne (List.cons.inj (List.append_cancel_left he)).1
      · rw [separator, if_neg (hc.ne (by decide)), if_pos ⟨by simp [hc.not_space], hcp⟩] at hsep
        simp [fail] at hsep

/-! ## Queries after what Python strips -/

def Fringe (s : Bytes) : Prop := ∀ c ∈ s, isSpace c = true ∨ Odd c

theorem term_odd {fuel : ℕ} {c : UInt8} {s r : Bytes} {t : Term ν} (hc : Odd c) (h : term lib fuel (c :: s) = .ok (t, r)) :
    bare (c :: s) = ((bare (c :: s)).1, r) ∧ t = .text (bare (c :: s)).1 := by
  cases fuel with
  | zero => simp [term] at h
  | succ fuel =>
    rw [term_atom _ _ ⟨hc.ne (by decide), hc.ne (by decide), hc.ne (by decide)⟩, atom_eq_named (hc.ne (by decide))] at h
    obtain ⟨name, s', hname, hi, -, -⟩ | ⟨x, hx, -, -, rfl⟩ := named_cases h
    · exact absurd hname (not_name (x := []) hc hi (by simp))
    · rw [hx]
      exact ⟨rfl, rfl⟩

/-- What is stripped at the beginning makes terms, up to where a word of it goes on. -/
theorem filters_fringe (n : ℕ) : ∀ (e s : Bytes), e.length ≤ n → Fringe e → (∀ c ∈ s.head?, isSpace c = false) →
    ∀ fuel acc ts r, (e ++ s).length < fuel → filters lib fuel acc (space (e ++ s)) = .ok (ts, r) →
      ∃ acc' o k, acc.length ≤ acc'.length ∧ (∀ c ∈ o, Odd c) ∧ (Blank e ∨ acc.length < acc'.length ∨ o ≠ []) ∧
        (acc'.length ≤ acc.length → acc' = acc) ∧ (o ++ s).length < k ∧ filters lib k acc' (o ++ s) = .ok (ts, r) := by
  induction n with
  | zero =>
    intro e s hn he hs fuel acc ts r hf h
    obtain rfl := List.length_eq_zero_iff.mp (Nat.le_zero.mp hn)
    rw [List.nil_append, space_of_head hs] at h
    exact ⟨acc, [], fuel, Nat.le_refl _, by simp, Or.inl (by simp [Blank]), fun _ => rfl, hf, h⟩
  | succ n ih =>
    intro e s hn he hs fuel acc ts r hf h
    by_cases hblank : Blank e
    · rw [space_blank hblank hs] at h
      exact ⟨acc, [], fuel, Nat.le_refl _, by simp, Or.inl hblank, fun _ => rfl, by simp at hf ⊢; omega, h⟩
    -- The first word of it.
    obtain ⟨sp, hsp, hsplit, hhead⟩ := space_split e
    obtain ⟨c, e', hce⟩ := List.exists_cons_of_ne_nil (l := space e) (by
      intro hnil
      rw [hnil, List.append_nil] at hsplit
      exact hblank (hsplit ▸ hsp))
    have hc : Odd c := by
      refine (he c (by rw [hsplit, hce]; simp)).resolve_left ?_
      rw [hhead c (by rw [hce]; rfl)]
      simp
    have hskip : space (e ++ s) = space e ++ s := by
      conv_lhs => rw [hsplit, List.append_assoc]
      exact space_blank hsp (by rw [hce]; simpa using hc.not_space)
    have hfr : Fringe (c :: e') := fun d hd => he d (by rw [hsplit, hce]; exact List.mem_append_right _ hd)
    have hlen : (c :: e').length ≤ e.length := by
      rw [hsplit, hce, List.length_append]
      omega
    rw [hskip, hce] at h
    by_cases hall : ∀ d ∈ e', Odd d
    · refine ⟨acc, c :: e', fuel, Nat.le_refl _, ?_, Or.inr (Or.inr (by simp)), fun _ => rfl, ?_, h⟩
      · simpa using ⟨hc, hall⟩
      · simp only [List.length_append] at hf ⊢
        omega
    · -- The word ends within it.
      rw [List.cons_append] at h
      obtain ⟨k, t, s', new, rfl, ht, rfl, s'', hsep, hrest⟩ := filters_cons (hc.ne (by decide)) h
      rw [← List.cons_append] at ht
      obtain ⟨hb, -⟩ : bare (c :: e' ++ s) = ((bare (c :: e' ++ s)).1, s') ∧ _ := term_odd hc ht
      obtain ⟨d, hd, hdo⟩ : ∃ d ∈ e', ¬Odd d := by simpa using hall
      have hds : isSpace d = true := (hfr d (List.mem_cons_of_mem _ hd)).resolve_right hdo
      have hrest' : (c :: e').dropWhile bareByte ≠ [] := by
        intro hnil
        have := List.dropWhile_eq_nil_iff.mp hnil d (List.mem_cons_of_mem _ hd)
        rw [not_space_of_bareByte this] at hds
        exact absurd hds (by decide)
      obtain rfl : (c :: e').dropWhile bareByte ++ s = s' := by
        have hs' := (Prod.mk.inj hb).2
        rw [← hs', List.dropWhile_append, if_neg (by simpa [List.isEmpty_iff] using hrest')]
      have hsub : ∀ d ∈ (c :: e').dropWhile bareByte, d ∈ c :: e' := fun d hd => (List.dropWhile_suffix bareByte).subset hd
      have hshort : ((c :: e').dropWhile bareByte).length ≤ e'.length := by
        rw [List.dropWhile_cons_of_pos hc.bare]
        exact (List.dropWhile_suffix bareByte).length_le
      have hat : ∀ d ∈ ((c :: e').dropWhile bareByte ++ s).head?, isSpace d = true ∨ d = pipe := by
        intro d hd
        obtain ⟨f, e'', hf⟩ := List.exists_cons_of_ne_nil hrest'
        have hnot := List.head?_dropWhile_not bareByte (c :: e')
        rw [hf] at hd hnot hsub
        obtain rfl : f = d := by simpa using hd
        refine Or.inl ((hfr f (hsub f (by simp))).resolve_right fun hodd => ?_)
        simp [hodd.bare] at hnot
      rw [separator_space hat] at hsep
      obtain rfl := Except.ok.inj hsep
      simp only [List.length_append, List.length_cons] at hf hlen hn
      obtain ⟨acc', o, j, hle, ho, -, -, hj, hlast⟩ := ih ((c :: e').dropWhile bareByte) s (by omega)
        (fun d hd => hfr d (hsub d hd)) hs k (acc ++ [t]) _ r (by simp only [List.length_append]; omega) hrest
      simp only [List.length_append, List.length_singleton] at hle
      exact ⟨acc', o, j, by omega, ho, Or.inr (Or.inl (by omega)), fun h => by omega, hj, hlast⟩

/-- The bytes of a term make a word, or the first one that no word has is a quote or a paren. -/
def WordOrOpened (ps : List Piece) : Node ν → Prop
  | .term _ => (∀ c ∈ text ps, bareByte c = true) ∨
      ∃ x c y, text ps = x ++ c :: y ∧ (∀ d ∈ x, bareByte d = true) ∧ (c = dquote ∨ c = lparen)
  | .inside .. => True

theorem Atomic.wordOrOpened {l : Bytes} {t : Term ν} (h : Atomic lib l t) :
    (∀ c ∈ l, bareByte c = true) ∨ ∃ x c y, l = x ++ c :: y ∧ (∀ d ∈ x, bareByte d = true) ∧ (c = dquote ∨ c = lparen) := by
  have ht := h.reads [] Ends.nil
  rw [List.append_nil] at ht
  obtain ⟨c, l, rfl⟩ := List.exists_cons_of_ne_nil h.ne_nil
  by_cases hq : c = dquote
  · exact Or.inr ⟨[], c, l, rfl, by simp, Or.inl hq⟩
  rw [atom_eq_named hq] at ht
  obtain ⟨f, w, hl, hi, -, hf⟩ | ⟨x, hx, -, -, -⟩ := named_cases ht
  · obtain ⟨raw, isQuoted, hraw, -⟩ := facetValue_eq_ok.mp hf
    obtain ⟨cmp, v, hc⟩ : ∃ cmp v, comparator w = (cmp, v) := ⟨_, _, rfl⟩
    obtain ⟨o, rfl, ho⟩ := comparator_prefix hc
    rw [hc] at hraw
    have hname : ∀ d ∈ f ++ colon :: o, bareByte d = true := by
      intro d hd
      rcases List.mem_append.mp hd with hd | hd
      · exact hi.bare d hd
      rcases List.mem_cons.mp hd with rfl | hd
      · decide
      · exact (ho d hd).2
    have he : c :: l = f ++ colon :: o ++ v := by rw [hl]; simp
    by_cases hv : v.head? = some dquote
    · cases v with
      | nil => simp at hv
      | cons d v =>
        obtain rfl : d = dquote := by simpa using hv
        exact Or.inr ⟨_, _, v, he, hname, Or.inl rfl⟩
    · rw [rawValue, if_neg hv] at hraw
      obtain ⟨-, hb⟩ : _ ∧ (bare v).2 = [] := by simpa using hraw
      obtain ⟨hsplit, hall⟩ := bare_split v
      rw [hb, List.append_nil] at hsplit
      rw [← hsplit] at hall
      refine Or.inl fun d hd => ?_
      rw [he] at hd
      exact (List.mem_append.mp hd).elim (hname d) (hall d)
  · obtain ⟨hsplit, hall⟩ := bare_split (c :: l)
    rw [hx] at hsplit hall
    rw [List.append_nil] at hsplit
    exact Or.inl (hsplit ▸ hall)

theorem Reading.wordOrOpened {ps : List Piece} {n : Node ν} (h : Reading lib ps n) : WordOrOpened ps n := by
  induction h with
  | leaf h => simpa [WordOrOpened, Piece.text] using Atomic.wordOrOpened h
  | @not ps t h ih =>
    rcases ih with hall | ⟨x, c, y, he, hx, hc⟩
    · refine Or.inl fun c hc => ?_
      rcases List.mem_cons.mp hc with rfl | hc
      · decide
      · exact hall c hc
    · refine Or.inr ⟨QueryGrammar.minus :: x, c, y, by rw [text_cons, he]; rfl, fun d hd => ?_, hc⟩
      rcases List.mem_cons.mp hd with rfl | hd
      · decide
      · exact hx d hd
  | group _ _ _ => exact Or.inr ⟨[], lparen, _, rfl, by simp, Or.inr rfl⟩
  | close _ => trivial
  | or _ _ _ _ _ => trivial
  | item _ _ _ _ _ _ _ => trivial

/-- A term of a word that is read as a text is that word. -/
theorem Reading.eq_word {ps : List Piece} {x : Bytes} (h : Reading lib ps (.term (.text x : Term ν)))
    (hall : ∀ c ∈ text ps, bareByte c = true) : text ps = x := by
  cases h with
  | @leaf l _ h =>
    simp only [text_cons, Piece.text, text_nil, List.append_nil] at hall ⊢
    have ht := h.reads [] Ends.nil
    rw [List.append_nil] at ht
    obtain ⟨c, l, rfl⟩ := List.exists_cons_of_ne_nil h.ne_nil
    have hq : c ≠ dquote := by
      rintro rfl
      exact absurd (hall dquote (by simp)) (by decide)
    rw [atom_eq_named hq] at ht
    obtain ⟨f, w, -, -, -, hf⟩ | ⟨y, hy, -, -, hxy⟩ := named_cases ht
    · obtain ⟨raw, isQuoted, -, hv⟩ := facetValue_eq_ok.mp hf
      obtain ⟨cmp, v, hv⟩ := valueTerm_facet hv
      simp at hv
    · obtain rfl : x = y := by simpa using hxy
      have hsplit := (bare_split (c :: l)).1
      rw [hy, List.append_nil] at hsplit
      exact hsplit
  | group _ _ => exact absurd (hall lparen (by simp [Piece.text])) (by decide)

/-- A word that goes on into a query makes a query of other terms. -/
theorem not_word_before (hnum : PlainNumbers lib) {o : Bytes} (ho : ∀ c ∈ o, Odd c) (hne : o ≠ []) {ps : List Piece}
    {ts : List (Term ν)} (h : FilterReading lib ps ts) (hts : ts ≠ []) {b z : Bytes} (hb : Blank b)
    (hz : ∀ c ∈ z.head?, isSpace c = false) (hadj : b = [] → AtPipe z ∨ EndsText (text ps) ∧ ∀ c ∈ z.head?, Odd c)
    {k : ℕ} {acc : List (Term ν)} {r : Bytes} (hk : (o ++ (text ps ++ (b ++ z))).length < k) :
    filters lib k acc (o ++ (text ps ++ (b ++ z))) ≠ .ok (ts, r) := by
  intro hrun
  obtain ⟨c, o, rfl⟩ := List.exists_cons_of_ne_nil hne
  have hc := ho c (by simp)
  cases h with
  | nil => exact hts rfl
  | @cons ps qs sp t₁ ts h hsp hnil h' =>
  obtain ⟨k, t, s', new, rfl, ht, hnew, s'', hsep, hrest⟩ := filters_cons (hc.ne (by decide)) hrun
  obtain ⟨x, hbare, rfl⟩ : ∃ x, bare (c :: o ++ (text (ps ++ .space sp :: qs) ++ (b ++ z))) = (x, s') ∧ t = .text x :=
    ⟨_, term_odd hc ht⟩
  have hobare : ∀ d ∈ c :: o, bareByte d = true := fun d hd => (ho d hd).bare
  have htext : text (ps ++ .space sp :: qs) ++ (b ++ z) = text ps ++ (sp ++ (text qs ++ (b ++ z))) := by simp [Piece.text]
  rw [htext] at hbare hk
  rcases (Reading.wordOrOpened h : WordOrOpened ps (.term t₁)) with hall | ⟨x', d, y, hx, hxbare, hd⟩
  · by_cases hacc : acc = []
    · -- The first term is that word, which the text's own first term is shorter than.
      subst hacc
      obtain ⟨rfl, rfl⟩ := List.cons.inj hnew
      have hx := (Prod.mk.inj hbare).1
      rw [← Reading.eq_word h hall, List.takeWhile_append_of_pos hobare, List.takeWhile_append_of_pos hall] at hx
      have hlen := congrArg List.length hx
      simp only [List.length_append, List.length_cons] at hlen
      omega
    · -- There are terms before that word, and no fewer after it than in the text.
      have hlen := congrArg List.length hnew
      have hpos := List.length_pos_iff.mpr hacc
      simp only [List.length_cons, List.length_append] at hlen
      have htl : ts ≠ [] := by
        rintro rfl
        simp only [List.length_nil] at hlen
        omega
      obtain ⟨e, sp, rfl⟩ := List.exists_cons_of_ne_nil (l := sp) fun hs =>
        htl ((FilterReading.nil_iff h').mpr (by rw [hnil hs]; rfl))
      have he : isSpace e = true := hsp e (by simp)
      have hstop : bareByte e = false := by simp [bareByte, he]
      have hs' : e :: sp ++ (text qs ++ (b ++ z)) = s' := by
        have := (Prod.mk.inj hbare).2
        rw [List.dropWhile_append_of_pos hobare, List.dropWhile_append_of_pos hall, List.cons_append,
          List.dropWhile_cons_of_neg (by simp [hstop])] at this
        exact this
      subst hs'
      rw [separator_space (by simp [he])] at hsep
      obtain rfl := Except.ok.inj hsep
      have hskip : space (e :: sp ++ (text qs ++ (b ++ z))) = space (text qs ++ (b ++ z)) := by
        rw [space, List.dropWhile_append_of_pos hsp, space]
      rw [hskip] at hrest
      have hadj' : b = [] → AtPipe z ∨ EndsText (text qs) ∧ ∀ c ∈ z.head?, Odd c := by
        intro hbn
        refine (hadj hbn).imp_right fun h => ⟨?_, h.2⟩
        have := h.1
        rw [text_append, text_cons] at this
        exact this.append.append
      simp only [List.length_append, List.length_cons] at hk
      have := (FilterReading.goes_on hnum h' hb hz hadj' k _ _ r (by simp only [List.length_append]; omega) hrest).1
      simp only [List.length_append, List.length_cons, List.length_nil] at this
      omega
  · -- A quote or a paren would follow the word directly.
    have hs' : ∃ y, s' = d :: y := by
      have := (Prod.mk.inj hbare).2
      have hstop : bareByte d = false := by rcases hd with rfl | rfl <;> decide
      rw [hx, List.append_assoc, List.dropWhile_append_of_pos hobare, List.dropWhile_append_of_pos hxbare, List.cons_append,
        List.dropWhile_cons_of_neg (by simp [hstop])] at this
      exact ⟨_, this.symm⟩
    obtain ⟨y', rfl⟩ := hs'
    rw [separator] at hsep
    rcases hd with rfl | rfl
    · rw [if_neg (by decide), if_pos (by decide)] at hsep
      simp [fail] at hsep
    · rw [if_neg (by decide), if_pos (by decide)] at hsep
      simp [fail] at hsep

/-- Where a text is a query of some terms, and the same terms are those of a query with more
around it, what comes before it is whitespace, and a pipe follows the whitespace after it. -/
theorem blank_before (hnum : PlainNumbers lib) {a b s z r : Bytes} {ps : List Piece} {ts : List (Term ν)} (ha : Fringe a)
    (hb : Blank b) (hz : ∀ c ∈ z.head?, isSpace c = false) (hadj : b = [] → AtPipe z ∨ EndsText s ∧ ∀ c ∈ z.head?, Odd c)
    (hs : ∀ c ∈ s.head?, isSpace c = false) (h : Reads lib s ts) (hq : QueryReading lib (a ++ (s ++ (b ++ z))) ps ts r) :
    Blank a ∧ AtPipe z := by
  obtain ⟨ps₀, h₀⟩ := h
  have hrun := filters_eq_ok.mpr ⟨ps, hq⟩
  obtain rfl : s = text ps₀ := by
    obtain ⟨sp, hsp, he⟩ := h₀.text
    rw [List.append_nil] at he
    cases sp with
    | nil => exact he
    | cons c sp =>
      have h₁ := hs c (by rw [he]; rfl)
      rw [hsp c (by simp)] at h₁
      exact absurd h₁ (by decide)
  by_cases hts : ts = []
  · -- There are no terms, so nothing that makes one is around it.
    subst hts
    rw [(FilterReading.nil_iff h₀.filters).mp rfl, List.nil_append, ← List.append_assoc] at hrun
    have hfr : Fringe (a ++ b) := fun c hc => (List.mem_append.mp hc).elim (ha c) fun hc => Or.inl (hb c hc)
    obtain ⟨acc, o, k, -, ho, hor, -, -, hlast⟩ := filters_fringe _ (a ++ b) z (Nat.le_refl _) hfr hz _ _ _ _ (by omega) hrun
    obtain ⟨-, new, -, hnil, -⟩ := filters_reading _ _ _ _ _ hlast
    obtain ⟨rfl, rfl⟩ := List.append_eq_nil_iff.mp hnil.symm
    have hpipe : ∀ c ∈ (o ++ z).head?, c = pipe := by
      intro c hc
      obtain ⟨s, hs⟩ := List.head?_eq_some_iff.mp hc
      by_contra hcp
      rw [hs] at hlast
      obtain ⟨_, _, _, _, -, -, hcons, -⟩ := filters_cons hcp hlast
      simp at hcons
    have hon : o = [] := by
      cases o with
      | nil => rfl
      | cons c o => exact absurd (hpipe c rfl) ((ho c (by simp)).ne (by decide))
    subst hon
    have hblank : Blank (a ++ b) := hor.resolve_right (by simp)
    exact ⟨fun c hc => hblank c (by simp [hc]), hpipe⟩
  · obtain ⟨c, s', hc, hcs⟩ := FilterReading.head h₀.filters hts
    have hhead : ∀ c ∈ (text ps₀ ++ (b ++ z)).head?, isSpace c = false := by
      rw [hc]
      simpa using hcs
    obtain ⟨acc, o, k, -, ho, hor, -, hk, hlast⟩ := filters_fringe _ a _ (Nat.le_refl _) ha hhead _ _ _ _ (by omega) hrun
    by_cases hon : o = []
    · subst hon
      rw [List.nil_append] at hlast hk
      rw [← space_of_head hhead] at hlast
      obtain ⟨hlen, hne⟩ := FilterReading.goes_on hnum h₀.filters hb hz hadj k acc ts r hk hlast
      obtain rfl : acc = [] := List.length_eq_zero_iff.mp (by omega)
      exact ⟨hor.resolve_right (by simp), not_not.mp fun hat => hne hat rfl⟩
    · exact absurd hlast (not_word_before hnum ho hon h₀.filters hts hb hz hadj hk)

/-- The whitespace that what is stripped begins with, and the first byte of the rest. -/
theorem fringe_split {b : Bytes} (hb : Fringe b) :
    ∃ sp o, b = sp ++ o ∧ Blank sp ∧ (o = [] ∨ ∃ c o', o = c :: o' ∧ Odd c) := by
  obtain ⟨sp, hsp, hsplit, hhead⟩ := space_split b
  refine ⟨sp, space b, hsplit, hsp, ?_⟩
  cases hs : space b with
  | nil => exact Or.inl rfl
  | cons c o =>
    rw [hs] at hhead
    refine Or.inr ⟨c, o, rfl, (hb c ?_).resolve_left (by simp [hhead c rfl])⟩
    rw [hsplit, hs]
    simp

/-- With what is stripped around it, a query's text has other terms unless that is whitespace. -/
theorem blank_around (hnum : PlainNumbers lib) {a b s y r : Bytes} {ps : List Piece} {ts : List (Term ν)} (ha : Fringe a)
    (hb : Fringe b) (hy : AtPipe y) (htext : EndsText s) (hs : ∀ c ∈ s.head?, isSpace c = false) (h : Reads lib s ts)
    (hq : QueryReading lib (a ++ (s ++ (b ++ y))) ps ts r) : Blank a ∧ Blank b := by
  obtain ⟨sp, o, rfl, hsp, rfl | ⟨c, o, rfl, hc⟩⟩ := fringe_split hb
  · rw [List.append_nil] at hq ⊢
    exact ⟨(blank_before hnum ha hsp hy.not_space (fun _ => Or.inl hy) hs h hq).1, hsp⟩
  · rw [List.append_assoc, List.cons_append] at hq
    have hz : ∀ d ∈ (c :: (o ++ y)).head?, Odd d := by simpa using hc
    have := (blank_before hnum ha hsp (fun d hd => (hz d hd).not_space) (fun _ => Or.inr ⟨htext, hz⟩) hs h hq).2
    exact absurd (this c rfl) (hc.ne (by decide))

/-- Nor does it have the same terms with more of the query after that. -/
theorem not_reads_more (hnum : PlainNumbers lib) {a b s m r : Bytes} {c d : UInt8} {ps : List Piece} {ts : List (Term ν)}
    (ha : Fringe a) (hb : Fringe b) (hd : isSpace d = true) (hc : isSpace c = false) (hcp : c ≠ pipe) (htext : EndsText s)
    (hs : ∀ c ∈ s.head?, isSpace c = false) (h : Reads lib s ts) :
    ¬QueryReading lib (a ++ (s ++ (b ++ d :: c :: m))) ps ts r := by
  intro hq
  obtain ⟨sp, o, rfl, hsp, rfl | ⟨e, o, rfl, he⟩⟩ := fringe_split hb
  · have hblank : Blank (sp ++ [d]) := blank_append hsp (by simpa [Blank] using hd)
    rw [List.append_nil, ← List.singleton_append, ← List.append_assoc sp] at hq
    have := (blank_before hnum ha hblank (by simpa using hc) (by simp) hs h hq).2
    exact hcp (this c rfl)
  · rw [List.append_assoc, List.cons_append] at hq
    have hz : ∀ f ∈ (e :: (o ++ d :: c :: m)).head?, Odd f := by simpa using he
    have := (blank_before hnum ha hsp (fun f hf => (hz f hf).not_space) (fun _ => Or.inr ⟨htext, hz⟩) hs h hq).2
    exact absurd (this e rfl) (he.ne (by decide))

/-! ## Stripped texts -/

theorem not_space_of_le {b : UInt8} (h : 192 ≤ b.toNat) : isSpace b = false := by
  have h₁ : (9 : UInt8).toNat = 9 := rfl
  have h₂ : (13 : UInt8).toNat = 13 := rfl
  have h₃ : (32 : UInt8).toNat = 32 := rfl
  have h₄ : (0x85 : UInt8).toNat = 133 := rfl
  have h₅ : (0xA0 : UInt8).toNat = 160 := rfl
  simp only [isSpace, decide_eq_false_iff_not, UInt8.le_iff_toNat_le, ← UInt8.toNat_inj]
  omega

/-- A character that is no ASCII one begins with a byte that is no whitespace. -/
theorem utf8EncodeChar_head {c : Char} (hc : 128 ≤ c.toNat) : ∀ b ∈ (String.utf8EncodeChar c).head?, isSpace b = false := by
  have hor : ∀ x y : UInt8, 192 ≤ y.toNat → isSpace (x ||| y) = false := by
    intro x y hy
    exact not_space_of_le (by rw [UInt8.toNat_or]; exact Nat.le_trans hy Nat.right_le_or)
  have hsize : c.utf8Size ≠ 1 := by
    rw [ne_eq, Char.utf8Size_eq_one_iff, UInt32.le_iff_toNat_le]
    have h : c.toNat = c.val.toNat := rfl
    have h' : (127 : UInt32).toNat = 127 := rfl
    omega
  intro b hb
  rcases Char.utf8Size_eq c with h | h | h | h
  · exact absurd h hsize
  · rw [String.utf8EncodeChar_eq_cons_cons h] at hb
    obtain rfl := Option.some.inj hb
    exact hor _ _ (by decide)
  · rw [String.utf8EncodeChar_eq_cons_cons_cons h] at hb
    obtain rfl := Option.some.inj hb
    exact hor _ _ (by decide)
  · rw [String.utf8EncodeChar_eq_cons_cons_cons_cons h] at hb
    obtain rfl := Option.some.inj hb
    exact hor _ _ (by decide)

theorem ascii_space {c : Char} (hc : c.toNat < 128) : NotifierPrograms.isSpace c = true ↔
    (9 ≤ c.toNat ∧ c.toNat ≤ 13) ∨ (28 ≤ c.toNat ∧ c.toNat ≤ 32) := by
  simp only [NotifierPrograms.isSpace, decide_eq_true_eq, List.mem_cons, List.not_mem_nil, or_false]
  omega

theorem isSpace_iff {b : UInt8} (hb : b.toNat < 128) : isSpace b = true ↔ (9 ≤ b.toNat ∧ b.toNat ≤ 13) ∨ b.toNat = 32 := by
  have h₁ : (9 : UInt8).toNat = 9 := rfl
  have h₂ : (13 : UInt8).toNat = 13 := rfl
  have h₃ : (32 : UInt8).toNat = 32 := rfl
  have h₄ : (0x85 : UInt8).toNat = 133 := rfl
  have h₅ : (0xA0 : UInt8).toNat = 160 := rfl
  simp only [isSpace, decide_eq_true_eq, UInt8.le_iff_toNat_le, ← UInt8.toNat_inj]
  omega

theorem fringe_encode {s : List Char} (h : ∀ c ∈ s, NotifierPrograms.isSpace c = true) : Fringe (encode s) := by
  intro b hb
  obtain ⟨c, hc, hbc⟩ := List.mem_flatMap.mp hb
  by_cases hsp : isSpace b = true
  · exact Or.inl hsp
  refine Or.inr ⟨by simpa using hsp, ?_⟩
  by_cases hascii : c.toNat < 128
  · rw [utf8EncodeChar_ascii hascii, List.mem_singleton] at hbc
    subst hbc
    rw [isSpace_iff (by rwa [toNat_toUInt8 hascii]), toNat_toUInt8 hascii] at hsp
    have := (ascii_space hascii).mp (h c hc)
    rw [toNat_toUInt8 hascii]
    omega
  · exact Or.inr (utf8EncodeChar_not_ascii (Nat.le_of_not_lt hascii) b hbc)

/-- A text and what is stripped around it. -/
theorem strip_split (s : List Char) : ∃ a b, s = a ++ strip s ++ b ∧ Fringe (encode a) ∧ Fringe (encode b) ∧
    ∀ c ∈ (encode (strip s)).head?, isSpace c = false := by
  have hsplit := List.takeWhile_append_dropWhile (p := NotifierPrograms.isSpace) (l := s)
  have hsplit' := List.takeWhile_append_dropWhile (p := NotifierPrograms.isSpace)
    (l := (s.dropWhile NotifierPrograms.isSpace).reverse)
  have hlast : s.dropWhile NotifierPrograms.isSpace =
      strip s ++ ((s.dropWhile NotifierPrograms.isSpace).reverse.takeWhile NotifierPrograms.isSpace).reverse := by
    rw [strip, ← List.reverse_append, hsplit', List.reverse_reverse]
  refine ⟨s.takeWhile NotifierPrograms.isSpace,
    ((s.dropWhile NotifierPrograms.isSpace).reverse.takeWhile NotifierPrograms.isSpace).reverse, ?_, ?_, ?_, ?_⟩
  · rw [List.append_assoc, ← hlast, hsplit]
  · exact fringe_encode fun c hc => List.mem_takeWhile_imp hc
  · exact fringe_encode fun c hc => List.mem_takeWhile_imp (List.mem_reverse.mp hc)
  · intro b hb
    cases hs : strip s with
    | nil => simp [hs] at hb
    | cons c t =>
      have hhead := List.head?_dropWhile_not NotifierPrograms.isSpace s
      rw [hlast, hs] at hhead
      have hc : NotifierPrograms.isSpace c = false := by simpa using hhead
      rw [hs, encode_cons] at hb
      by_cases hascii : c.toNat < 128
      · rw [utf8EncodeChar_ascii hascii, List.singleton_append, List.head?_cons] at hb
        obtain rfl := Option.some.inj hb
        rw [← Bool.not_eq_true, isSpace_iff (by rwa [toNat_toUInt8 hascii]), toNat_toUInt8 hascii]
        rw [← Bool.not_eq_true, ascii_space hascii] at hc
        omega
      · obtain ⟨d, e, hd⟩ := utf8EncodeChar_cons c
        rw [hd, List.cons_append, List.head?_cons] at hb
        exact utf8EncodeChar_head (Nat.le_of_not_lt hascii) b (by rw [hd]; exact hb)

/-- A query's text keeps its terms when it is stripped if and only if whitespace is. -/
theorem reads_strip_iff (hnum : PlainNumbers lib) {s : List Char} {y r : Bytes} {ps : List Piece} {ts : List (Term ν)}
    (hy : AtPipe y) (hq : QueryReading lib (encode s ++ y) ps ts r) :
    Reads lib (encode (strip s)) ts ↔ Trims s ∧ Reads lib (encode s) ts := by
  constructor
  · intro h
    obtain ⟨a, b, he, ha, hb, hhead⟩ := strip_split s
    have htrims : Trims s := by
      rw [he, encode_append, encode_append, List.append_assoc, List.append_assoc] at hq
      obtain ⟨hblank, hblank'⟩ := blank_around hnum ha hb hy (endsText_encode _) hhead h hq
      exact ⟨a, b, he, hblank, hblank'⟩
    exact ⟨htrims, (reads_strip htrims).mp h⟩
  · rintro ⟨ht, h⟩
    exact (reads_strip ht).mpr h

end Upstat.StrippedQueries
