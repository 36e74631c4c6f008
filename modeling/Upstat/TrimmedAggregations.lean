import Upstat.ClientAddresses
import Upstat.DerivedQueries

/-! # Blanks around an aggregation

What follows the pipe is ASCII, and it is read the same without the whitespace at its ends. -/
namespace Upstat.TrimmedAggregations

open QueryGrammar GrammarReadings PrintedQueries EncodedTexts StrippedQueries DerivedQueries
open ClientAddresses (trim)

variable {ν : Type} {lib : Library ν}

/-! ## Blanks at the end -/

/-- The second text is the first with the blanks after it, or both are at their ends. -/
def Follows (b r r' : Bytes) : Prop := r = [] ∧ r' = [] ∨ r ≠ [] ∧ r' = r ++ b

theorem Follows.of_ne_nil {b r r' : Bytes} (h : Follows b r r') (hne : r' ≠ []) : r ≠ [] ∧ r' = r ++ b := by
  rcases h with ⟨-, hnil⟩ | h
  · exact absurd hnil hne
  · exact h

theorem Follows.of_head {b r r' : Bytes} {c : UInt8} (h : Follows b r r') (hc : r'.head? = some c) : r' = r ++ b ∧ r.head? = some c := by
  have hne' : r' ≠ [] := by
    rintro rfl
    cases hc
  obtain ⟨hne, he⟩ := h.of_ne_nil hne'
  refine ⟨he, ?_⟩
  rwa [he, List.head?_append_of_ne_nil _ hne] at hc

theorem Follows.head_iff {b r r' : Bytes} {c : UInt8} (h : Follows b r r') : r'.head? = some c ↔ r.head? = some c := by
  rcases h with ⟨rfl, rfl⟩ | ⟨hne, rfl⟩
  · rfl
  · rw [List.head?_append_of_ne_nil _ hne]

theorem identByte_blank {c : UInt8} (h : isSpace c = true) (first : Bool) : identByte c first = false := by
  by_contra hc
  rw [Bool.not_eq_false] at hc
  rw [identByte_not_space hc] at h
  cases h

theorem length_space_le (s : Bytes) : (space s).length ≤ s.length := (List.dropWhile_suffix isSpace).length_le

theorem length_ident_le (s : Bytes) : (ident s).2.length ≤ s.length := by
  obtain ⟨name, r, h⟩ : ∃ name r, ident s = (name, r) := ⟨_, _, rfl⟩
  have hs := (ident_split h).1
  have hlen := congrArg List.length hs
  rw [List.length_append] at hlen
  rw [h]
  change r.length ≤ s.length
  omega

theorem aggs_nil (fuel : ℕ) (acc as : List Agg) (r : Bytes) : aggs fuel acc [] ≠ .ok (as, r) := by
  cases fuel with
  | zero => simp [aggs]
  | succ fuel => simp [aggs, agg, ident, fail, bind, Except.bind]

theorem groupList_nil (fuel : ℕ) (acc gs : List Bytes) (r : Bytes) : groupList fuel acc [] ≠ .ok (gs, r) := by
  cases fuel with
  | zero => simp [groupList]
  | succ fuel => simp [groupList, ident, fail]

section
variable {b : Bytes} (hb : Blank b)
include hb

theorem span_blank {p : UInt8 → Bool} (hp : ∀ c, isSpace c = true → p c = false) (s : Bytes) :
    (s ++ b).takeWhile p = s.takeWhile p ∧ (s ++ b).dropWhile p = s.dropWhile p ++ b := by
  induction s with
  | nil =>
    cases b with
    | nil => simp
    | cons c b =>
      have hc := hp c (hb c List.mem_cons_self)
      simp [hc]
  | cons c s ih =>
    by_cases hc : p c = true
    · simp [hc, ih]
    · simp [hc]

theorem ident_blank (s : Bytes) : ident (s ++ b) = ((ident s).1, (ident s).2 ++ b) := by
  cases s with
  | nil =>
    cases b with
    | nil => rfl
    | cons c b =>
      have hc := identByte_blank (hb c List.mem_cons_self) true
      simp [ident, hc]
  | cons c s =>
    obtain ⟨htake, hdrop⟩ := span_blank hb (fun c hc => identByte_blank hc false) s
    rw [List.cons_append, ident, ident]
    split
    · rw [htake, hdrop]
    · rfl

theorem space_follows (s : Bytes) : Follows b (space s) (space (s ++ b)) := by
  obtain ⟨sp, hsp, he, hhead⟩ := space_split s
  by_cases hnil : space s = []
  · left
    rw [hnil, List.append_nil] at he
    refine ⟨hnil, ?_⟩
    have hs : Blank s := by
      rw [he]
      exact hsp
    have hall : space (s ++ b ++ []) = [] := space_blank (blank_append hs hb) (by simp)
    rwa [List.append_nil] at hall
  · right
    refine ⟨hnil, ?_⟩
    conv_lhs => rw [he, List.append_assoc]
    apply space_blank hsp
    rw [List.head?_append_of_ne_nil _ hnil]
    exact hhead

theorem head_blank {s : Bytes} {c : UInt8} (hc : isSpace c = false) (h : (s ++ b).head? = some c) : ∃ t, s = c :: t := by
  cases s with
  | nil =>
    have hmem : c ∈ b := List.mem_of_mem_head? h
    rw [hb c hmem] at hc
    cases hc
  | cons d t =>
    obtain rfl : d = c := by simpa using h
    exact ⟨t, rfl⟩

theorem agg_blank {s r' : Bytes} {a : Agg} (h : agg (s ++ b) = .ok (a, r')) :
    ∃ r, agg s = .ok (a, r) ∧ r' = r ++ b ∧ r.length < s.length := by
  obtain ⟨fn, r₁, hfn⟩ : ∃ fn r₁, ident s = (fn, r₁) := ⟨_, _, rfl⟩
  have hfn' : ident (s ++ b) = (fn, r₁ ++ b) := by rw [ident_blank hb, hfn]
  obtain ⟨field, r₂, hfield⟩ : ∃ field r₂, ident (space ((r₁ ++ b).drop 1)) = (field, r₂) := ⟨_, _, rfl⟩
  simp only [agg, hfn', hfield, fail] at h
  by_cases h₁ : fn = []
  · simp [h₁] at h
  by_cases h₂ : fn ∉ functions
  · simp [h₁, h₂] at h
  by_cases h₃ : (r₁ ++ b).head? ≠ some lparen
  · rw [if_neg h₁, if_neg h₂, if_pos h₃] at h
    cases h
  by_cases h₄ : (space r₂).head? ≠ some rparen
  · rw [if_neg h₁, if_neg h₂, if_neg h₃, if_pos h₄] at h
    cases h
  by_cases h₅ : field ≠ [] ∧ ¬knownFacet field = true ∧ ¬fieldName field = true
  · rw [if_neg h₁, if_neg h₂, if_neg h₃, if_neg h₄, if_pos h₅] at h
    cases h
  rw [if_neg h₁, if_neg h₂, if_neg h₃, if_neg h₄, if_neg h₅] at h
  obtain ⟨rfl, rfl⟩ := Prod.mk.inj (Except.ok.inj h)
  obtain ⟨t, rfl⟩ := head_blank hb (by decide) (not_not.mp h₃)
  rw [List.cons_append, List.drop_succ_cons, List.drop_zero] at hfield
  -- The field is read from a text that goes on at least to its paren.
  have hne : space (t ++ b) ≠ [] := by
    intro hnil
    rw [hnil] at hfield
    obtain rfl : ([] : Bytes) = r₂ := (Prod.mk.inj hfield).2
    exact h₄ (by decide)
  rw [((space_follows hb t).of_ne_nil hne).2, ident_blank hb] at hfield
  obtain ⟨hname, rfl⟩ := Prod.mk.inj hfield
  obtain ⟨he, hhead⟩ := (space_follows hb (ident (space t)).2).of_head (not_not.mp h₄)
  have hpos : space (ident (space t)).2 ≠ [] := by
    intro hnil
    rw [hnil] at hhead
    cases hhead
  refine ⟨(space (ident (space t)).2).drop 1, ?_, ?_, ?_⟩
  · simp only [agg, hfn, List.drop_succ_cons, List.drop_zero]
    rw [if_neg h₁, if_neg h₂, if_neg (by simp), if_neg (not_not.mpr hhead), hname, if_neg h₅]
  · rw [he, List.drop_append_of_le_length (List.length_pos_iff.mpr hpos)]
  · have h₁' := length_ident_le s
    have h₂' := length_space_le t
    have h₃' := length_ident_le (space t)
    have h₄' := length_space_le (ident (space t)).2
    rw [hfn, List.length_cons] at h₁'
    rw [List.length_drop]
    omega

theorem aggs_blank (fuel : ℕ) : ∀ (acc : List Agg) (s : Bytes) (as : List Agg) (r' : Bytes), aggs fuel acc (s ++ b) = .ok (as, r') →
    ∀ m, s.length < m → ∃ r, aggs m acc s = .ok (as, r) ∧ Follows b r r' ∧ r.length ≤ s.length := by
  induction fuel with
  | zero => simp [aggs]
  | succ fuel ih =>
    intro acc s as r' h m hm
    obtain ⟨m, rfl⟩ := Nat.exists_eq_add_one_of_ne_zero (Nat.ne_of_gt (Nat.zero_lt_of_lt hm))
    rw [aggs] at h
    obtain ⟨⟨a, r₁'⟩, ha', h⟩ := bind_eq_ok.mp h
    obtain ⟨r₁, ha, rfl, hlt⟩ := agg_blank hb ha'
    have hfollows := space_follows hb r₁
    have hlen := length_space_le r₁
    simp only at h
    have hread : ∀ out, (if (space r₁).head? = some comma then aggs m (acc ++ [a]) (space ((space r₁).drop 1))
        else .ok (acc ++ [a], space r₁)) = .ok out → aggs (m + 1) acc s = .ok out := by
      intro out hout
      rw [aggs]
      exact bind_eq_ok.mpr ⟨(a, r₁), ha, hout⟩
    by_cases hc : (space (r₁ ++ b)).head? = some comma
    · rw [if_pos hc] at h
      obtain ⟨he, hhead⟩ := hfollows.of_head hc
      rw [if_pos hhead] at hread
      obtain ⟨t, ht⟩ := head_blank blank_nil (s := space r₁) (c := comma) (by decide) (by rwa [List.append_nil])
      rw [he, ht, List.cons_append, List.drop_succ_cons, List.drop_zero] at h
      rw [ht, List.drop_succ_cons, List.drop_zero] at hread
      have hne : space (t ++ b) ≠ [] := by
        intro hnil
        rw [hnil] at h
        exact aggs_nil fuel _ _ _ h
      rw [((space_follows hb t).of_ne_nil hne).2] at h
      have hlt' := length_space_le t
      rw [ht, List.length_cons] at hlen
      obtain ⟨r, hr, hf, hle⟩ := ih _ _ _ _ h m (by omega)
      exact ⟨r, hread _ hr, hf, by omega⟩
    · rw [if_neg hc] at h
      rw [if_neg (mt hfollows.head_iff.mpr hc)] at hread
      obtain ⟨rfl, rfl⟩ := Prod.mk.inj (Except.ok.inj h)
      exact ⟨space r₁, hread _ rfl, hfollows, by omega⟩

theorem groupList_blank (fuel : ℕ) : ∀ (acc : List Bytes) (s : Bytes) (gs : List Bytes) (r' : Bytes),
    groupList fuel acc (s ++ b) = .ok (gs, r') → ∀ m, s.length < m → ∃ r, groupList m acc s = .ok (gs, r) ∧ Follows b r r' := by
  induction fuel with
  | zero => simp [groupList]
  | succ fuel ih =>
    intro acc s gs r' h m hm
    obtain ⟨m, rfl⟩ := Nat.exists_eq_add_one_of_ne_zero (Nat.ne_of_gt (Nat.zero_lt_of_lt hm))
    obtain ⟨f, r₁, hf⟩ : ∃ f r₁, ident s = (f, r₁) := ⟨_, _, rfl⟩
    have hf' : ident (s ++ b) = (f, r₁ ++ b) := by rw [ident_blank hb, hf]
    have hfollows := space_follows hb r₁
    simp only [groupList, hf', fail] at h
    simp only [groupList, hf, fail]
    by_cases hne : f = []
    · rw [if_pos hne] at h
      cases h
    rw [if_neg hne] at h ⊢
    by_cases hc : (space (r₁ ++ b)).head? = some comma
    · rw [if_pos hc] at h
      obtain ⟨he, hhead⟩ := hfollows.of_head hc
      rw [if_pos hhead]
      obtain ⟨t, ht⟩ := head_blank blank_nil (s := space r₁) (c := comma) (by decide) (by rwa [List.append_nil])
      rw [he, ht, List.cons_append, List.drop_succ_cons, List.drop_zero] at h
      rw [ht, List.drop_succ_cons, List.drop_zero]
      have hne : space (t ++ b) ≠ [] := by
        intro hnil
        rw [hnil] at h
        exact groupList_nil fuel _ _ _ h
      rw [((space_follows hb t).of_ne_nil hne).2] at h
      have h₁' := length_ident_le s
      have h₂' := length_space_le r₁
      have h₃' := length_space_le t
      simp only [hf] at h₁'
      rw [ht, List.length_cons] at h₂'
      exact ih _ _ _ _ h m (by omega)
    · rw [if_neg hc] at h
      rw [if_neg (mt hfollows.head_iff.mpr hc)]
      obtain ⟨rfl, rfl⟩ := Prod.mk.inj (Except.ok.inj h)
      exact ⟨space r₁, rfl, hfollows⟩

theorem word_blank {s : Bytes} : (∀ r', word "by" (s ++ b) = some r' → ∃ r, word "by" s = some r ∧ r' = r ++ b) ∧
    (word "by" (s ++ b) = none → word "by" s = none) := by
  have hlast : ∀ c ∈ (bytes "by").getLast?, isSpace c = false := by decide +kernel
  constructor
  · intro r' h
    obtain ⟨he, ha⟩ := word_eq_some.mp h
    obtain ⟨r, rfl, rfl⟩ := blank_suffix hb hlast (by decide +kernel) he.symm
    refine ⟨r, word_eq_some.mpr ⟨rfl, ?_⟩, rfl⟩
    cases r with
    | nil => simp [Alone]
    | cons c r => exact ha
  · intro h
    rw [Option.eq_none_iff_forall_ne_some] at h ⊢
    intro r hr
    obtain ⟨rfl, ha⟩ := word_eq_some.mp hr
    apply h (r ++ b)
    refine word_eq_some.mpr ⟨List.append_assoc _ _ _, ?_⟩
    cases r with
    | nil =>
      intro c hc
      exact Or.inl (hb c (List.mem_of_mem_head? hc))
    | cons c r => exact ha

theorem grouping_blank {fuel m : ℕ} {s s' r' : Bytes} {gs : List Bytes} (hs : Follows b s s') (h : grouping fuel s' = .ok (gs, r'))
    (hm : s.length < m) : ∃ r, grouping m s = .ok (gs, r) ∧ Follows b r r' := by
  rcases hs with ⟨rfl, rfl⟩ | ⟨hne, rfl⟩
  · have hword : word "by" [] = none := by decide +kernel
    rw [grouping, hword] at h
    obtain ⟨rfl, rfl⟩ := Prod.mk.inj (Except.ok.inj h)
    rw [grouping, hword]
    exact ⟨[], rfl, Or.inl ⟨rfl, rfl⟩⟩
  · obtain ⟨hsome, hnone⟩ := word_blank hb (s := s)
    rw [grouping] at h
    cases hw : word "by" (s ++ b) with
    | none =>
      rw [hw] at h
      obtain ⟨rfl, rfl⟩ := Prod.mk.inj (Except.ok.inj h)
      rw [grouping, hnone hw]
      exact ⟨s, rfl, Or.inr ⟨hne, rfl⟩⟩
    | some r₁' =>
      obtain ⟨r₁, hr₁, rfl⟩ := hsome r₁' hw
      simp only [hw] at h
      have hne' : space (r₁ ++ b) ≠ [] := by
        intro hnil
        rw [hnil] at h
        exact groupList_nil fuel _ _ _ h
      rw [((space_follows hb r₁).of_ne_nil hne').2] at h
      have hlen := length_space_le r₁
      have he := (word_eq_some.mp hr₁).1
      rw [he, List.length_append] at hm
      simp only [grouping, hr₁]
      exact groupList_blank hb fuel _ _ _ _ h m (by omega)

/-- Blanks after the aggregation do not matter, and no more fuel is needed than there are bytes. -/
theorem aggregation_blank {fuel m : ℕ} {s : Bytes} {as : List Agg} {gs : List Bytes} (h : aggregation lib fuel (s ++ b) = .ok (as, gs))
    (hm : s.length < m) : aggregation lib m s = .ok (as, gs) := by
  rw [aggregation] at h
  by_cases hs : s ++ b = []
  · rw [if_pos hs] at h
    cases h
  rw [if_neg hs] at h
  obtain ⟨⟨as', r'⟩, ha, h⟩ := bind_eq_ok.mp h
  obtain ⟨⟨gs', r₁'⟩, hg, h⟩ := bind_eq_ok.mp h
  obtain ⟨r, ha, hr, hle⟩ := aggs_blank hb fuel _ _ _ _ ha m hm
  obtain ⟨r₁, hg, hr₁⟩ := grouping_blank hb hr hg (by omega : r.length < m)
  have hne : s ≠ [] := by
    rintro rfl
    exact aggs_nil m _ _ _ ha
  have hend : space r₁ = space r₁' := by
    cases hsp : space r₁' with
    | cons c t =>
      simp only [hsp, fail] at h
      split_ifs at h
    | nil =>
      rcases hr₁ with ⟨rfl, rfl⟩ | ⟨-, rfl⟩
      · exact hsp
      · rcases space_follows hb r₁ with ⟨hnil, -⟩ | ⟨hne', he⟩
        · exact hnil
        · rw [he] at hsp
          exact absurd (List.append_eq_nil_iff.mp hsp).1 hne'
  rw [aggregation, if_neg hne]
  apply bind_eq_ok.mpr
  refine ⟨(as', r), ha, bind_eq_ok.mpr ⟨(gs', r₁), hg, ?_⟩⟩
  simp only [hend]
  exact h

end

/-! ## Trimmed texts -/

theorem Odd.foreign {c : UInt8} (h : Odd c) : Foreign c where
  not_ident := fun _ => h.not_ident
  not_space := h.not_space
  not_lparen := h.ne (by decide)
  not_rparen := h.ne (by decide)
  not_comma := h.ne (by decide)

/-- What follows the pipe is ASCII. -/
theorem aggregation_ascii {fuel : ℕ} {s : List Char} {as : List Agg} {gs : List Bytes}
    (h : aggregation lib fuel (space (encode s)) = .ok (as, gs)) : ∀ c ∈ s, c.toNat < 128 := by
  intro c hc
  by_contra hbig
  obtain ⟨d, e, hd⟩ := utf8EncodeChar_cons c
  have hmem : d ∈ encode s := by
    apply List.mem_flatMap.mpr
    exact ⟨c, hc, by rw [hd]; exact List.mem_cons_self⟩
  have hodd : Odd d := by
    have hspace := utf8EncodeChar_head (Nat.le_of_not_lt hbig) d (by rw [hd]; rfl)
    have hrange := utf8EncodeChar_not_ascii (Nat.le_of_not_lt hbig) d (by rw [hd]; exact List.mem_cons_self)
    exact ⟨hspace, Or.inr hrange⟩
  have hforeign := Odd.foreign hodd
  exact hforeign.not_mem_aggregation h (hforeign.after_space hmem)

theorem isSpace_toUInt8 {c : Char} (hc : c.toNat < 128) : isSpace c.toUInt8 = ClientAddresses.isSpace c := by
  rw [Bool.eq_iff_iff, isSpace_iff (by rwa [toNat_toUInt8 hc]), toNat_toUInt8 hc]
  simp only [ClientAddresses.isSpace, decide_eq_true_eq]
  omega

theorem blank_encode {s : List Char} (h : ∀ c ∈ s, ClientAddresses.isSpace c = true ∧ c.toNat < 128) : Blank (encode s) := by
  intro b hb
  obtain ⟨c, hc, hbc⟩ := List.mem_flatMap.mp hb
  obtain ⟨hspace, hascii⟩ := h c hc
  rw [utf8EncodeChar_ascii hascii, List.mem_singleton] at hbc
  rw [hbc, isSpace_toUInt8 hascii]
  exact hspace

/-- A text and the blanks around what `trim` leaves of it. -/
theorem trim_split (s : List Char) : ∃ a z, s = a ++ (trim s ++ z) ∧ (∀ c ∈ a, ClientAddresses.isSpace c = true) ∧
    (∀ c ∈ z, ClientAddresses.isSpace c = true) ∧ (∀ c ∈ (trim s).head?, ClientAddresses.isSpace c = false) ∧
    ∀ c ∈ (trim s).getLast?, ClientAddresses.isSpace c = false := by
  have hsplit := List.takeWhile_append_dropWhile (p := ClientAddresses.isSpace) (l := s)
  have hrsplit : trim s ++ (s.dropWhile ClientAddresses.isSpace).rtakeWhile ClientAddresses.isSpace = s.dropWhile ClientAddresses.isSpace :=
    List.rdropWhile_append_rtakeWhile
  refine ⟨s.takeWhile ClientAddresses.isSpace, (s.dropWhile ClientAddresses.isSpace).rtakeWhile ClientAddresses.isSpace, ?_, ?_, ?_, ?_, ?_⟩
  · rw [hrsplit, hsplit]
  · intro c hc
    exact List.mem_takeWhile_imp hc
  · intro c hc
    exact List.mem_rtakeWhile_imp hc
  · intro c hc
    have hne : trim s ≠ [] := by
      intro hnil
      rw [hnil] at hc
      cases hc
    have hhead := List.head?_dropWhile_not ClientAddresses.isSpace s
    rw [← hrsplit, List.head?_append_of_ne_nil _ hne, Option.mem_def.mp hc] at hhead
    simpa using hhead
  · intro c hc
    have hne : trim s ≠ [] := by
      intro hnil
      rw [hnil] at hc
      cases hc
    have hlast := List.rdropWhile_last_not ClientAddresses.isSpace (s.dropWhile ClientAddresses.isSpace) hne
    have he : (trim s).getLast hne = c := by
      rw [Option.mem_def, List.getLast?_eq_some_getLast hne] at hc
      exact Option.some.inj hc
    change ¬ClientAddresses.isSpace ((trim s).getLast hne) = true at hlast
    rw [he] at hlast
    simpa using hlast

/-- The aggregation of a text is that of the text trimmed. -/
theorem aggregation_trim {fuel : ℕ} {s : List Char} {as : List Agg} {gs : List Bytes}
    (h : aggregation lib fuel (space (encode s)) = .ok (as, gs)) :
    trim s ≠ [] ∧ space (encode (trim s)) = encode (trim s) ∧
      ∀ m, (encode (trim s)).length < m → aggregation lib m (encode (trim s)) = .ok (as, gs) := by
  have hascii := aggregation_ascii h
  obtain ⟨a, z, hs, ha, hz, hhead, -⟩ := trim_split s
  have ha' : Blank (encode a) := blank_encode fun c hc => ⟨ha c hc, hascii c (by rw [hs]; simp [hc])⟩
  have hz' : Blank (encode z) := blank_encode fun c hc => ⟨hz c hc, hascii c (by rw [hs]; simp [hc])⟩
  have hspace : space (encode s) = space (encode (trim s) ++ encode z) := by
    conv_lhs => rw [hs, encode_append, encode_append, space, List.dropWhile_append_of_pos ha']
    rfl
  rw [hspace] at h
  have hne : trim s ≠ [] := by
    intro hnil
    rw [hnil, encode_nil, List.nil_append] at h
    have hall := space_blank (s := []) hz' (by simp)
    rw [List.append_nil] at hall
    rw [hall] at h
    cases h
  obtain ⟨c, t, hct⟩ := List.exists_cons_of_ne_nil hne
  have hc : c.toNat < 128 := hascii c (by rw [hs, hct]; simp)
  have hfirst : ∀ x, (∀ d ∈ (encode (trim s) ++ x).head?, isSpace d = false) := by
    intro x d hd
    rw [hct, encode_cons_ascii hc, List.cons_append, List.head?_cons] at hd
    rw [← Option.some.inj hd, isSpace_toUInt8 hc]
    exact hhead c (by rw [hct]; rfl)
  rw [space_of_head (hfirst _)] at h
  refine ⟨hne, ?_, fun m hm => aggregation_blank hz' h hm⟩
  have hself := hfirst []
  rw [List.append_nil] at hself
  exact space_of_head hself

end Upstat.TrimmedAggregations
