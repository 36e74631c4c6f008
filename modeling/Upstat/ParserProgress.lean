import Upstat.TrimmedAggregations

/-! # The parser stops within the query

Every function of the parser leaves a part of the text it was given, or fails at such a part. What a loop reads
gets shorter at each turn, so that the parser ends, and it never reads a byte where there is none. -/
namespace Upstat.ParserProgress

open QueryGrammar GrammarReadings StrippedQueries TrimmedAggregations

/-- The result is as said, or an error told of a place in `s`. -/
def Within {α : Type} (s : Bytes) (P : α → Prop) : Result α → Prop
  | .ok a => P a
  | .error (.error rest _ _) => rest <:+ s
  | .error _ => False

section
variable {α β : Type} {s : Bytes} {P : α → Prop} {Q : β → Prop}

theorem Within.bind {x : Result α} {f : α → Result β} (h : Within s P x) (hf : ∀ a, P a → Within s Q (f a)) : Within s Q (x >>= f) := by
  cases x with
  | ok a => exact hf a h
  | error e =>
    cases e with
    | error rest message hint => exact h
    | outOfRange => exact absurd h id
    | unfinished => exact absurd h id

theorem Within.mono {s' : Bytes} {P' : α → Prop} {x : Result α} (h : Within s P x) (hs : s <:+ s') (hp : ∀ a, P a → P' a) :
    Within s' P' x := by
  cases x with
  | ok a => exact hp a h
  | error e =>
    cases e with
    | error rest message hint => exact List.IsSuffix.trans h hs
    | outOfRange => exact absurd h id
    | unfinished => exact absurd h id

theorem within_fail {rest message : Bytes} {hint : String} (h : rest <:+ s) : Within s P (fail rest message hint) := h

end

/-- What is left is a part of `s`. -/
def Left {α : Type} (s : Bytes) (p : α × Bytes) : Prop := p.2 <:+ s

/-- What is left is a part of `s`, and shorter. -/
def Shorter {α : Type} (s : Bytes) (p : α × Bytes) : Prop := p.2 <:+ s ∧ p.2.length < s.length

theorem Shorter.left {α : Type} {s : Bytes} {p : α × Bytes} (h : Shorter s p) : Left s p := h.1

/-! ## Words and values -/

theorem space_suffix (s : Bytes) : space s <:+ s := List.dropWhile_suffix isSpace

theorem bare_suffix (s : Bytes) : (bare s).2 <:+ s := List.dropWhile_suffix bareByte

theorem ident_suffix (s : Bytes) : (ident s).2 <:+ s := by
  obtain ⟨name, r, h⟩ : ∃ name r, ident s = (name, r) := ⟨_, _, rfl⟩
  rw [h]
  exact ⟨name, (ident_split h).1.symm⟩

theorem word_suffix {kw : String} {s r : Bytes} (h : word kw s = some r) : r <:+ s := ⟨bytes kw, (word_eq_some.mp h).1.symm⟩

theorem shorter_of_cons {c : UInt8} {s r : Bytes} (h : r <:+ s) : r <:+ c :: s ∧ r.length < (c :: s).length :=
  ⟨h.trans (List.suffix_cons c s), Nat.lt_succ_of_le h.length_le⟩

theorem within_quoted (c : UInt8) (s : Bytes) : Within (c :: s) (Shorter (c :: s)) (quoted (c :: s)) := by
  rw [quoted, List.drop_succ_cons, List.drop_zero]
  cases h : quotedBody s with
  | none => exact within_fail List.suffix_rfl
  | some p =>
    obtain ⟨b, he, -, -⟩ := quotedBody_split h
    exact shorter_of_cons ⟨b, he.symm⟩

theorem comparator_suffix (s : Bytes) : (comparator s).2 <:+ s := by
  obtain ⟨o, he, -⟩ := comparator_prefix (s := s) rfl
  exact ⟨o, he.symm⟩

theorem within_rawValue (s : Bytes) : Within s (Left s) (rawValue s) := by
  rw [rawValue]
  split
  · cases s with
    | nil => contradiction
    | cons c s =>
      have h := within_quoted c s
      cases hq : quoted (c :: s) with
      | ok p =>
        rw [hq] at h
        exact h.1
      | error e =>
        rw [hq] at h
        cases e with
        | error rest message hint => exact h
        | outOfRange => exact h
        | unfinished => exact h
  · exact bare_suffix s

section
variable {ν : Type} {lib : Library ν}

theorem within_separator (s : Bytes) : Within s (· <:+ s) (separator lib s) := by
  cases s with
  | nil => exact List.suffix_rfl
  | cons c s =>
    rw [separator]
    split
    · exact List.suffix_rfl
    · split
      · exact within_fail List.suffix_rfl
      · exact space_suffix (c :: s)

theorem within_facetValue {start facet s : Bytes} (hs : s <:+ start) : Within start (Left s) (facetValue lib start facet s) := by
  obtain ⟨cmp, atValue, hcmp⟩ : ∃ cmp atValue, comparator s = (cmp, atValue) := ⟨_, _, rfl⟩
  have hvalue : atValue <:+ s := by
    have h := comparator_suffix s
    rwa [hcmp] at h
  simp only [facetValue, hcmp]
  apply ((within_rawValue atValue).mono (hvalue.trans hs) fun _ h => h).bind
  rintro ⟨⟨raw, isQuoted⟩, r⟩ hr
  have hr' : r <:+ s := List.IsSuffix.trans hr hvalue
  simp only
  split
  · exact within_fail (hvalue.trans hs)
  split
  · split
    · exact within_fail List.suffix_rfl
    · split
      · exact within_fail (hvalue.trans hs)
      · exact hr'
  · exact hr'

theorem within_named (c : UInt8) (s : Bytes) : Within (c :: s) (Shorter (c :: s)) (named lib (c :: s)) := by
  obtain ⟨name, r, hi⟩ : ∃ name r, ident (c :: s) = (name, r) := ⟨_, _, rfl⟩
  obtain ⟨text, r', hb⟩ : ∃ text r', bare (c :: s) = (text, r') := ⟨_, _, rfl⟩
  simp only [named, hi, hb]
  split
  · rename_i hname
    split
    · exact within_fail List.suffix_rfl
    · obtain ⟨d, r, rfl⟩ := List.exists_cons_of_ne_nil (l := r) (by rintro rfl; simp at hname)
      have he := (ident_split hi).1
      have hpos := List.length_pos_iff.mpr hname.1
      have hlen := congrArg List.length he
      rw [List.length_append, List.length_cons] at hlen
      have hr : r <:+ c :: s := ⟨name ++ [d], by rw [he, List.append_assoc]; rfl⟩
      refine (within_facetValue hr).mono List.suffix_rfl fun p hp => ⟨List.IsSuffix.trans hp hr, ?_⟩
      have hle : p.2.length ≤ r.length := List.IsSuffix.length_le hp
      rw [List.length_cons] at hlen ⊢
      omega
  · split
    · exact within_fail List.suffix_rfl
    · split
      · exact within_fail List.suffix_rfl
      · rename_i htext _
        obtain ⟨he, -⟩ := bare_split (c :: s)
        rw [hb] at he
        have hpos := List.length_pos_iff.mpr htext
        have hlen : (c :: s).length = text.length + r'.length := by
          rw [← List.length_append]
          exact congrArg List.length he
        refine ⟨⟨text, he.symm⟩, ?_⟩
        change r'.length < (c :: s).length
        omega

theorem within_flush (s : Bytes) (branches seq : List (Term ν)) : Within s (fun _ => True) (flush s branches seq) := by
  unfold flush
  split
  · exact within_fail List.suffix_rfl
  · exact trivial
  · exact trivial

/-! ## Terms -/

/-- A term takes some of its text. A byte may open a group and be the term within, so that it costs fuel twice. -/
theorem within_term (fuel : ℕ) :
    (∀ c s, 2 * (c :: s).length ≤ fuel → Within (c :: s) (Shorter (c :: s)) (term lib fuel (c :: s))) ∧
    ∀ start branches seq s, s <:+ start → 2 * s.length + 1 ≤ fuel →
      Within start (Left s) (group lib fuel start branches seq s) := by
  induction fuel with
  | zero =>
    constructor
    · intro c s hf
      simp at hf
    · intro start branches seq s hs hf
      omega
  | succ fuel ih =>
    obtain ⟨hterm, hgroup⟩ := ih
    constructor
    · intro c s hf
      rw [List.length_cons] at hf
      rw [term]
      split
      · cases s with
        | nil => exact within_fail (List.nil_suffix)
        | cons d s =>
          rw [List.length_cons] at hf
          split
          · exact within_fail (List.suffix_cons c _)
          · refine ((hterm d s (by rw [List.length_cons]; omega)).mono (List.suffix_cons c _) fun _ h => h).bind ?_
            rintro ⟨inner, r⟩ hr
            exact shorter_of_cons hr.1
      split
      · refine (hgroup (c :: s) [] [] (space s) ?_ ?_).mono List.suffix_rfl fun p hp => ?_
        · exact (space_suffix s).trans (List.suffix_cons c s)
        · have hle := (space_suffix s).length_le
          omega
        · exact shorter_of_cons (List.IsSuffix.trans hp (space_suffix s))
      split
      · exact within_fail List.suffix_rfl
      split
      · apply (within_quoted c s).bind
        rintro ⟨text, r⟩ hr
        exact hr
      · exact within_named c s
    · intro start branches seq s hs hf
      cases s with
      | nil => exact within_fail List.suffix_rfl
      | cons c s =>
        rw [List.length_cons] at hf
        rw [group]
        split
        · apply ((within_flush (c :: s) branches seq).mono hs fun _ h => h).bind
          intro bs _
          exact List.suffix_cons c s
        · cases hw : word "OR" (c :: s) with
          | some r =>
            simp only
            apply ((within_flush (c :: s) branches seq).mono hs fun _ h => h).bind
            intro bs _
            have he := (word_eq_some.mp hw).1
            have hor : (bytes "OR").length = 2 := by decide
            have hlen := congrArg List.length he
            rw [List.length_append, hor, List.length_cons] at hlen
            have hr : space r <:+ c :: s := (space_suffix r).trans (word_suffix hw)
            have hle := (space_suffix r).length_le
            exact (hgroup start bs [] (space r) (hr.trans hs) (by omega)).mono List.suffix_rfl fun p hp => List.IsSuffix.trans hp hr
          | none =>
            simp only
            apply ((hterm c s (by rw [List.length_cons]; omega)).mono hs fun _ h => h).bind
            rintro ⟨t, r⟩ ⟨hr, hlt⟩
            apply ((within_separator r).mono (List.IsSuffix.trans hr hs) fun _ h => h).bind
            intro r' hr'
            have hle := List.IsSuffix.length_le hr'
            rw [List.length_cons] at hlt
            simp only at hlt
            refine (hgroup start branches (seq ++ [t]) r' (hr'.trans (List.IsSuffix.trans hr hs)) (by omega)).mono List.suffix_rfl
              fun p hp => ?_
            exact List.IsSuffix.trans hp (hr'.trans hr)

/-! ## The whole query -/

theorem within_filters (fuel : ℕ) : ∀ (terms : List (Term ν)) (s : Bytes), 2 * s.length + 1 ≤ fuel →
    Within s (Left s) (filters lib fuel terms s) := by
  induction fuel with
  | zero =>
    intro terms s hf
    omega
  | succ fuel ih =>
    intro terms s hf
    cases s with
    | nil => exact List.suffix_rfl
    | cons c s =>
      rw [filters]
      split
      · exact List.suffix_rfl
      · apply ((within_term (fuel + 1)).1 c s (by omega)).bind
        rintro ⟨t, r⟩ ⟨hr, hlt⟩
        apply ((within_separator r).mono hr fun _ h => h).bind
        intro r' hr'
        have hle := List.IsSuffix.length_le hr'
        simp only at hlt
        exact (ih (terms ++ [t]) r' (by omega)).mono (hr'.trans hr) fun p hp => List.IsSuffix.trans hp (hr'.trans hr)

theorem head_cons {s : Bytes} {c : UInt8} (h : s.head? = some c) : ∃ t, s = c :: t := by
  cases s with
  | nil => cases h
  | cons d t => exact ⟨t, by rw [Option.some.inj h]⟩

theorem within_agg (s : Bytes) : Within s (Shorter s) (agg s) := by
  obtain ⟨fn, r₁, hfn⟩ : ∃ fn r₁, ident s = (fn, r₁) := ⟨_, _, rfl⟩
  obtain ⟨field, r₂, hfield⟩ : ∃ field r₂, ident (space (r₁.drop 1)) = (field, r₂) := ⟨_, _, rfl⟩
  have hr₁ : r₁ <:+ s := by
    have h := ident_suffix s
    rwa [hfn] at h
  have hat : space (r₁.drop 1) <:+ s := (space_suffix _).trans ((List.drop_suffix 1 r₁).trans hr₁)
  have hr₂ : space r₂ <:+ space (r₁.drop 1) := by
    have h := ident_suffix (space (r₁.drop 1))
    rw [hfield] at h
    exact (space_suffix r₂).trans h
  simp only [agg, hfn, hfield]
  split
  · exact within_fail hr₁
  split
  · exact within_fail List.suffix_rfl
  split
  · exact within_fail hr₁
  split
  · exact within_fail (hr₂.trans hat)
  split
  · exact within_fail hat
  · rename_i hopen hclose _
    obtain ⟨t, rfl⟩ := head_cons (not_not.mp hopen)
    obtain ⟨u, hu⟩ := head_cons (not_not.mp hclose)
    have hrest : u <:+ s := (List.suffix_cons rparen u).trans (hu ▸ hr₂.trans hat)
    rw [hu, List.drop_succ_cons, List.drop_zero]
    refine ⟨hrest, ?_⟩
    have h₁ := hr₂.length_le
    have h₂ := (space_suffix t).length_le
    have h₃ := hr₁.length_le
    rw [List.drop_succ_cons, List.drop_zero, hu, List.length_cons] at h₁
    rw [List.length_cons] at h₃
    change u.length < s.length
    omega

theorem within_aggs (fuel : ℕ) : ∀ (as : List Agg) (s : Bytes), s.length < fuel → Within s (Left s) (aggs fuel as s) := by
  induction fuel with
  | zero =>
    intro as s hf
    omega
  | succ fuel ih =>
    intro as s hf
    rw [aggs]
    apply (within_agg s).bind
    rintro ⟨a, r⟩ ⟨hr, hlt⟩
    have hspace : space r <:+ s := (space_suffix r).trans hr
    simp only
    split
    · have hnext : space ((space r).drop 1) <:+ s := (space_suffix _).trans ((List.drop_suffix 1 _).trans hspace)
      have h₁ := (space_suffix ((space r).drop 1)).length_le
      have h₂ := (List.drop_suffix 1 (space r)).length_le
      have h₃ := (space_suffix r).length_le
      simp only at hlt
      exact (ih (as ++ [a]) _ (by omega)).mono hnext fun p hp => List.IsSuffix.trans hp hnext
    · exact hspace

theorem within_groupList (fuel : ℕ) : ∀ (gs : List Bytes) (s : Bytes), s.length < fuel → Within s (Left s) (groupList fuel gs s) := by
  induction fuel with
  | zero =>
    intro gs s hf
    omega
  | succ fuel ih =>
    intro gs s hf
    obtain ⟨f, r, hi⟩ : ∃ f r, ident s = (f, r) := ⟨_, _, rfl⟩
    have hr : r <:+ s := by
      have h := ident_suffix s
      rwa [hi] at h
    have hspace : space r <:+ s := (space_suffix r).trans hr
    simp only [groupList, hi]
    split
    · exact within_fail List.suffix_rfl
    split
    · rename_i hcomma
      obtain ⟨t, ht⟩ := head_cons hcomma
      have hnext : space ((space r).drop 1) <:+ s := (space_suffix _).trans ((List.drop_suffix 1 _).trans hspace)
      have h₁ := (space_suffix ((space r).drop 1)).length_le
      have h₂ := hspace.length_le
      rw [ht, List.drop_succ_cons, List.drop_zero] at h₁
      rw [ht, List.length_cons] at h₂
      refine (ih (gs ++ [f]) _ ?_).mono hnext fun p hp => List.IsSuffix.trans hp hnext
      rw [ht, List.drop_succ_cons, List.drop_zero]
      omega
    · exact hspace

theorem within_grouping {fuel : ℕ} {s : Bytes} (hf : s.length < fuel) : Within s (Left s) (grouping fuel s) := by
  rw [grouping]
  cases hw : word "by" s with
  | none => exact List.suffix_rfl
  | some r =>
    have hr : space r <:+ s := (space_suffix r).trans (word_suffix hw)
    have hle := hr.length_le
    exact (within_groupList fuel [] (space r) (by omega)).mono hr fun p hp => List.IsSuffix.trans hp hr

theorem within_aggregation {fuel : ℕ} {s : Bytes} (hf : s.length < fuel) : Within s (fun _ => True) (aggregation lib fuel s) := by
  rw [aggregation]
  split
  · exact within_fail List.suffix_rfl
  · apply (within_aggs fuel [] s hf).bind
    rintro ⟨as, r⟩ hr
    have hle := List.IsSuffix.length_le hr
    apply ((within_grouping (by simp only at hle; omega : r.length < fuel)).mono hr fun _ h => h).bind
    rintro ⟨gs, r'⟩ hr'
    have hend : space r' <:+ s := (space_suffix r').trans (List.IsSuffix.trans hr' hr)
    simp only
    split
    · exact trivial
    · rename_i c t ht
      rw [ht] at hend
      split
      · exact within_fail hend
      · exact within_fail hend

theorem within_parse (q : Bytes) : Within q (fun _ => True) (parse lib q) := by
  have hq := (space_suffix q).length_le
  rw [parse]
  apply ((within_filters (2 * q.length + 1) [] (space q) (by omega)).mono (space_suffix q) fun _ h => h).bind
  rintro ⟨terms, r⟩ hr
  have hr' : r <:+ q := List.IsSuffix.trans hr (space_suffix q)
  cases r with
  | nil => exact trivial
  | cons c r =>
    have hnext : space r <:+ q := (space_suffix r).trans ((List.suffix_cons c r).trans hr')
    have hle := hnext.length_le
    apply ((within_aggregation (by omega : (space r).length < q.length + 1)).mono hnext fun _ h => h).bind
    rintro ⟨as, gs⟩ -
    exact trivial

/-- Every query is read, or has an error at a place from its beginning to its end. -/
theorem parse_total (lib : Library ν) (q : Bytes) :
    (∃ ast, parse lib q = .ok ast) ∨
    ∃ before rest message hint, q = before ++ rest ∧ parse lib q = .error (.error rest message hint) ∧
      (Failure.error rest message hint).position q = some before.length ∧ before.length ≤ q.length := by
  have h : Within q (fun _ => True) (parse lib q) := within_parse q
  cases hparse : parse lib q with
  | ok ast => exact Or.inl ⟨ast, rfl⟩
  | error e =>
    rw [hparse] at h
    cases e with
    | outOfRange => exact absurd h id
    | unfinished => exact absurd h id
    | error rest message hint =>
      obtain ⟨before, hb⟩ : rest <:+ q := h
      have hlen := congrArg List.length hb
      rw [List.length_append] at hlen
      refine Or.inr ⟨before, rest, message, hint, hb.symm, rfl, ?_, by omega⟩
      rw [Failure.position]
      congr 1
      omega

end

end Upstat.ParserProgress
