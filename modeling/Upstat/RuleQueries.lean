import Upstat.NotifierPrograms
import Upstat.PrintedQueries

/-! # The checks of an uptime rule, read twice

The notifier splits a rule's query at whitespace, and the grammar parses it. They agree on the
checks that are written plainly, and on the others only by chance. -/
namespace Upstat.RuleQueries

open QueryGrammar GrammarReadings PrintedQueries EncodedTexts

variable {ν : Type} {lib : Library ν}

/-! ## The words of a text -/

/-- A word between whitespace, as `str.split` finds it. -/
structure Word (q a w b : List Char) : Prop where
  text : q = a ++ w ++ b
  ne_nil : w ≠ []
  inside : ∀ c ∈ w, NotifierPrograms.isSpace c = false
  before : ∀ c ∈ a.getLast?, NotifierPrograms.isSpace c = true
  after : ∀ c ∈ b.head?, NotifierPrograms.isSpace c = true

/-- Something without the property that stands between others with it, in a list whose first
element with it is known, is what comes before that one or stands after it. -/
theorem between_cons {α : Type} {p : α → Bool} {x y a w b : List α} {c : α} (hx : ∀ d ∈ x, p d = false) (hc : p c = true)
    (h : x ++ c :: y = a ++ w ++ b) (hw : ∀ d ∈ w, p d = false) (ha : ∀ d ∈ a.getLast?, p d = true)
    (hb : ∀ d ∈ b.head?, p d = true) :
    w = x ∨ ∃ a', y = a' ++ w ++ b ∧ ∀ d ∈ a'.getLast?, p d = true := by
  have hfirst : ∀ {w b : List α}, x ++ c :: y = w ++ b → (∀ d ∈ w, p d = false) → (∀ d ∈ b.head?, p d = true) → w = x := by
    intro w b h hw hb
    rcases List.append_eq_append_iff.mp h with ⟨m, rfl, hm⟩ | ⟨m, rfl, hm⟩
    · cases m with
      | nil => simp
      | cons d m =>
        obtain rfl : c = d := (List.cons.inj hm).1
        simp [hw c (by simp)] at hc
    · cases m with
      | nil => simp
      | cons d m =>
        have h₁ := hx d (by simp)
        have h₂ := hb d (by simp [hm])
        simp [h₁] at h₂
  rw [List.append_assoc] at h
  rcases List.append_eq_append_iff.mp h with ⟨m, rfl, hm⟩ | ⟨m, rfl, hm⟩
  · cases m with
    | nil =>
      rw [List.append_nil] at ha h
      rcases List.eq_nil_or_concat x with rfl | ⟨x, d, rfl⟩
      · exact Or.inl (hfirst hm hw hb)
      · have h₁ := hx d (by simp)
        have h₂ := ha d (by simp)
        simp [h₁] at h₂
    | cons d m =>
      obtain ⟨rfl, rfl⟩ := List.cons.inj hm
      refine Or.inr ⟨m, by simp, fun d hd => ha d ?_⟩
      cases m with
      | nil => simp at hd
      | cons e m => simpa [List.getLast?_append, List.getLast?_cons] using hd
  · rcases List.eq_nil_or_concat a with rfl | ⟨a, d, rfl⟩
    · exact Or.inl (hfirst (by simpa using h) hw hb)
    · have h₁ := hx d (by simp)
      have h₂ := ha d (by simp)
      simp [h₁] at h₂

/-- The pieces between the elements with a property, by what stands around each. -/
theorem mem_splitOnP {α : Type} {p : α → Bool} {l w : List α} :
    w ∈ l.splitOnP p ↔ ∃ a b, l = a ++ w ++ b ∧ (∀ c ∈ w, p c = false) ∧ (∀ c ∈ a.getLast?, p c = true) ∧
      ∀ c ∈ b.head?, p c = true := by
  induction hn : l.length using Nat.strongRecOn generalizing l with
  | ind n ih =>
    have hsplit := List.takeWhile_append_dropWhile (p := fun c => !p c) (l := l)
    have hx : ∀ d ∈ l.takeWhile fun c => !p c, p d = false := by
      intro d hd
      simpa using List.mem_takeWhile_imp hd
    cases hy : l.dropWhile fun c => !p c with
    | nil =>
      rw [hy, List.append_nil] at hsplit
      rw [hsplit] at hx
      rw [List.splitOnP_eq_singleton hx, List.mem_singleton]
      constructor
      · rintro rfl
        exact ⟨[], [], by simp, hx, by simp, by simp⟩
      · rintro ⟨a, b, h, -, ha, hb⟩
        rcases List.eq_nil_or_concat a with rfl | ⟨a, c, rfl⟩
        · cases b with
          | nil => simpa using h.symm
          | cons c b =>
            have h₁ := hx c (by simp [h])
            have h₂ := hb c (by simp)
            simp [h₁] at h₂
        · have h₁ := hx c (by simp [h])
          have h₂ := ha c (by simp)
          simp [h₁] at h₂
    | cons c y =>
      have hc : p c = true := by
        have := List.head?_dropWhile_not (fun c => !p c) l
        rw [hy] at this
        simpa using this
      rw [hy] at hsplit
      generalize (l.takeWhile fun c => !p c) = x at hsplit hx
      subst hsplit
      rw [List.splitOnP_append_cons_of_forall_mem hx c hc, List.mem_cons, ih y.length (by simp at hn; omega) rfl]
      constructor
      · rintro (rfl | ⟨a, b, rfl, hw, ha, hb⟩)
        · exact ⟨[], c :: y, by simp, hx, by simp, by simpa using hc⟩
        · refine ⟨x ++ c :: a, b, by simp, hw, fun d hd => ?_, hb⟩
          cases a with
          | nil =>
            obtain rfl : c = d := by simpa using hd
            exact hc
          | cons e a => exact ha d (by simpa [List.getLast?_append, List.getLast?_cons] using hd)
      · rintro ⟨a, b, h, hw, ha, hb⟩
        rcases between_cons hx hc h hw ha hb with rfl | ⟨a', rfl, ha'⟩
        · exact Or.inl rfl
        · exact Or.inr ⟨a', b, rfl, hw, ha', hb⟩

theorem mem_split {s : String} {w : List Char} : w ∈ NotifierPrograms.split s ↔ ∃ a b, Word s.toList a w b := by
  rw [NotifierPrograms.split, List.mem_filter, mem_splitOnP]
  constructor
  · rintro ⟨⟨a, b, h, hw, ha, hb⟩, hne⟩
    exact ⟨a, b, h, by simpa using hne, hw, ha, hb⟩
  · rintro ⟨a, b, h⟩
    exact ⟨⟨a, b, h.text, h.inside, h.before, h.after⟩, by simpa using h.ne_nil⟩

/-! ## The checks the grammar reads -/

mutual

/-- The values of a term's `check:` facets, at any depth. -/
def checkValues : Term ν → List (Value ν)
  | .facet f _ v => if f = bytes "check" then [v] else []
  | .op _ ts => allCheckValues ts
  | .not t => checkValues t
  | .text _ => []

def allCheckValues : List (Term ν) → List (Value ν)
  | [] => []
  | t :: ts => checkValues t ++ allCheckValues ts

end

theorem allCheckValues_append (ts us : List (Term ν)) :
    allCheckValues (ts ++ us) = allCheckValues ts ++ allCheckValues us := by
  induction ts with
  | nil => rfl
  | cons t ts ih => simp [allCheckValues, ih]

theorem allCheckValues_flush {s : Bytes} {branches seq bs : List (Term ν)} (h : flush s branches seq = .ok bs) :
    allCheckValues bs = allCheckValues branches ++ allCheckValues seq := by
  cases seq with
  | nil => simp [flush, fail] at h
  | cons t seq =>
    cases seq with
    | nil =>
      obtain rfl : branches ++ [t] = bs := by simpa [flush] using h
      exact allCheckValues_append _ _
    | cons u seq =>
      obtain rfl : branches ++ [.op .and (t :: u :: seq)] = bs := by simpa [flush] using h
      rw [allCheckValues_append]
      simp [allCheckValues, checkValues]

theorem checkValues_collapse (bs : List (Term ν)) : checkValues (collapse bs) = allCheckValues bs := by
  cases bs with
  | nil => rfl
  | cons t bs =>
    cases bs with
    | nil => simp [collapse, allCheckValues]
    | cons u bs => simp [collapse, checkValues]

/-- A leaf that is read as a `check:` facet with the value. -/
def ChecksLeaf (lib : Library ν) (ps : List Piece) (v : Value ν) : Prop :=
  ∃ l cmp, .leaf l ∈ ps ∧ Atomic lib l (.facet (bytes "check") cmp v)

theorem Atomic.unique {l : Bytes} {t u : Term ν} (h : Atomic lib l t) (h' : Atomic lib l u) : t = u := by
  have := (h.reads [] Ends.nil).symm.trans (h'.reads [] Ends.nil)
  exact (Prod.mk.inj (Except.ok.inj this)).1

def NodeChecks (lib : Library ν) (ps : List Piece) (v : Value ν) : Node ν → Prop
  | .term t => v ∈ checkValues t ↔ ChecksLeaf lib ps v
  | .inside branches seq t =>
    v ∈ checkValues t ↔ v ∈ allCheckValues branches ∨ v ∈ allCheckValues seq ∨ ChecksLeaf lib ps v

theorem checksLeaf_cons {p : Piece} (hp : ∀ l, p ≠ .leaf l) (ps : List Piece) (v : Value ν) :
    ChecksLeaf lib (p :: ps) v ↔ ChecksLeaf lib ps v := by
  constructor
  · rintro ⟨l, cmp, hl, h⟩
    rcases List.mem_cons.mp hl with hl | hl
    · exact absurd hl.symm (hp l)
    · exact ⟨l, cmp, hl, h⟩
  · rintro ⟨l, cmp, hl, h⟩
    exact ⟨l, cmp, List.mem_cons_of_mem _ hl, h⟩

theorem checksLeaf_append (ps qs : List Piece) (v : Value ν) :
    ChecksLeaf lib (ps ++ qs) v ↔ ChecksLeaf lib ps v ∨ ChecksLeaf lib qs v := by
  constructor
  · rintro ⟨l, cmp, hl, h⟩
    rcases List.mem_append.mp hl with hl | hl
    · exact Or.inl ⟨l, cmp, hl, h⟩
    · exact Or.inr ⟨l, cmp, hl, h⟩
  · rintro (⟨l, cmp, hl, h⟩ | ⟨l, cmp, hl, h⟩)
    · exact ⟨l, cmp, List.mem_append_left _ hl, h⟩
    · exact ⟨l, cmp, List.mem_append_right _ hl, h⟩

/-- A term's checks are those of its leaves. -/
theorem reading_checks {ps : List Piece} {n : Node ν} (h : Reading lib ps n) (v : Value ν) : NodeChecks lib ps v n := by
  induction h with
  | @leaf l t h =>
    constructor
    · intro hv
      obtain ⟨s, rfl⟩ | ⟨f, cmp, raw, isQuoted, -, -, ht⟩ := h.text_or_facet
      · simp [checkValues] at hv
      · obtain ⟨cmp, w, rfl⟩ := valueTerm_facet ht
        simp only [checkValues] at hv
        split_ifs at hv with hf
        · obtain rfl : v = w := by simpa using hv
          exact ⟨l, cmp, by simp, hf ▸ h⟩
        · simp at hv
    · rintro ⟨l', cmp, hl, h'⟩
      obtain rfl : l' = l := by simpa using hl
      rw [Atomic.unique h h']
      simp [checkValues]
  | not _ ih => exact ih.trans (checksLeaf_cons (by simp) _ _).symm
  | group _ _ ih =>
    simp only [NodeChecks] at ih ⊢
    rw [checksLeaf_cons (by simp), checksLeaf_cons (by simp)]
    simpa [allCheckValues] using ih
  | close hfl =>
    rw [NodeChecks, checkValues_collapse, allCheckValues_flush (hfl []), List.mem_append, checksLeaf_cons (by simp)]
    simp [ChecksLeaf]
  | or hfl _ _ _ ih =>
    simp only [NodeChecks] at ih ⊢
    rw [checksLeaf_cons (by simp), checksLeaf_cons (by simp), ih, allCheckValues_flush (hfl []), List.mem_append]
    simp [allCheckValues, or_assoc]
  | item _ _ _ _ _ ih ih' =>
    simp only [NodeChecks] at ih ih' ⊢
    rw [checksLeaf_append, checksLeaf_cons (by simp), ih', ← ih, allCheckValues_append, List.mem_append]
    simp only [allCheckValues, List.append_nil]
    exact or_congr_right or_assoc

theorem filterReading_checks {ps : List Piece} {ts : List (Term ν)} (h : FilterReading lib ps ts) (v : Value ν) :
    v ∈ allCheckValues ts ↔ ChecksLeaf lib ps v := by
  induction h with
  | nil => simp [allCheckValues, ChecksLeaf]
  | cons h _ _ _ ih =>
    have := reading_checks h v
    simp only [NodeChecks] at this
    rw [allCheckValues, List.mem_append, checksLeaf_append, checksLeaf_cons (by simp), ih, this]

/-- Every leaf is read as some term. -/
theorem reading_leaf {ps : List Piece} {n : Node ν} (h : Reading lib ps n) {l : Bytes} (hl : .leaf l ∈ ps) :
    ∃ t, Atomic lib l t := by
  induction h with
  | @leaf l' t h =>
    obtain rfl : l = l' := by simpa using hl
    exact ⟨t, h⟩
  | not _ ih => exact ih (by simpa using hl)
  | group _ _ ih => exact ih (by simpa using hl)
  | close _ => simp at hl
  | or _ _ _ _ ih => exact ih (by simpa using hl)
  | item _ _ _ _ _ ih ih' =>
    rcases List.mem_append.mp hl with hl | hl
    · exact ih hl
    · exact ih' (by simpa using hl)

theorem filterReading_leaf {ps : List Piece} {ts : List (Term ν)} (h : FilterReading lib ps ts) {l : Bytes}
    (hl : .leaf l ∈ ps) : ∃ t, Atomic lib l t := by
  induction h with
  | nil => simp at hl
  | cons h _ _ _ ih =>
    rcases List.mem_append.mp hl with hl | hl
    · exact reading_leaf h hl
    · exact ih (by simpa using hl)

/-! ## Checks written plainly -/

/-- `check:` and a value, or `check:` and a value in quotes, which says all by its characters. -/
inductive PlainText (v : List Char) : List Char → Prop
  | bare : v ≠ [] → '"' ∉ v → (∀ c ∈ v.head?, c ≠ '=' ∧ c ≠ '<' ∧ c ≠ '>') → PlainText v ("check:".toList ++ v)
  | quoted : v ≠ [] → '"' ∉ v → '\\' ∉ v → PlainText v ("check:\"".toList ++ v ++ ['"'])

theorem dropWhile_quote {v : List Char} (h : '"' ∉ v) (s : List Char) (hne : v ≠ []) :
    (v ++ s).dropWhile (· = '"') = v ++ s := by
  obtain ⟨c, v, rfl⟩ := List.exists_cons_of_ne_nil hne
  have hc : c ≠ '"' := fun hc => h (by simp [hc])
  rw [List.cons_append, List.dropWhile_cons_of_neg (by simpa using hc)]

theorem facetValue_plainText {v w : List Char} (h : PlainText v w) :
    NotifierPrograms.facetValue w = ("check", String.ofList v) := by
  have hrev : ∀ {v : List Char}, v ≠ [] → '"' ∉ v → v.reverse.dropWhile (· = '"') = v.reverse := by
    intro v hne hq
    have := dropWhile_quote (v := v.reverse) (by simpa using hq) [] (by simpa using hne)
    simpa using this
  cases h with
  | bare hne hq _ =>
    have hv := dropWhile_quote hq [] hne
    rw [List.append_nil] at hv
    have hw : "check:".toList ++ v = 'c' :: 'h' :: 'e' :: 'c' :: 'k' :: ':' :: v := rfl
    rw [hw]
    simp [NotifierPrograms.facetValue, hv, hrev hne hq]
  | quoted hne hq _ =>
    have hv := dropWhile_quote hq ['"'] hne
    have hw : "check:\"".toList ++ v ++ ['"'] = 'c' :: 'h' :: 'e' :: 'c' :: 'k' :: ':' :: '"' :: (v ++ ['"']) := rfl
    rw [hw]
    simp [NotifierPrograms.facetValue, hv, hrev hne hq]

theorem quotedBody_plain_text {s : Bytes} (hq : dquote ∉ s) (hb : backslash ∉ s) (rest : Bytes) :
    quotedBody (s ++ dquote :: rest) = some (s, rest) := by
  induction s with
  | nil => exact quotedBody_end rest
  | cons c s ih =>
    have hc : c ≠ backslash := fun h => hb (by simp [h])
    have hd : c ≠ dquote := fun h => hq (by simp [h])
    rw [List.cons_append, quotedBody_plain hc hd, ih (fun h => hq (by simp [h])) fun h => hb (by simp [h])]
    rfl

theorem valueTerm_check {v : Bytes} {isQuoted : Bool} {t : Term ν}
    (h : valueTerm lib (bytes "check") .eq v isQuoted = some t) : t = .facet (bytes "check") .eq (.str v) := by
  have hlevel : bytes "check" ≠ bytes "level" := by decide
  have hnum : numericFacet (bytes "check") = false := by decide
  unfold valueTerm at h
  by_cases h₁ : v = [] ∧ ¬isQuoted
  · simp [h₁] at h
  · rw [if_neg h₁, if_neg (by simp)] at h
    simpa [hlevel, hnum] using (Option.some.inj h).symm

/-- What the grammar reads of a check written plainly. -/
theorem atomic_plainText {v w : List Char} {t : Term ν} (h : PlainText v w) (ha : Atomic lib (encode w) t) :
    t = .facet (bytes "check") .eq (.str (encode v)) := by
  have hr := ha.reads [] Ends.nil
  have hcheck : IsIdent (bytes "check") ∧ knownFacet (bytes "check") = true := by decide +kernel
  have hgt : '>'.toNat < 128 ∧ '<'.toNat < 128 ∧ '='.toNat < 128 ∧ '"'.toNat < 128 ∧ '\\'.toNat < 128 := by decide +kernel
  -- The name and the colon are read, and the value is left.
  have hfacet : ∀ s, atom lib (bytes "check" ++ colon :: s ++ []) = .ok (t, []) →
      facetValue lib (bytes "check" ++ colon :: s) (bytes "check") s = .ok (t, []) := by
    intro s hs
    rw [List.append_nil] at hs
    have hc : bytes "check" ++ colon :: s = 99 :: ([104, 101, 99, 107] ++ colon :: s) := by
      rw [show bytes "check" = 99 :: [104, 101, 99, 107] by decide]
      rfl
    rw [hc, atom_eq_named (by decide), ← hc, named_facet hcheck.1 hcheck.2] at hs
    exact hs
  cases h with
  | bare hne hq hcmp =>
    have he : encode ("check:".toList ++ v) = bytes "check" ++ colon :: encode v := by
      rw [encode_append, show encode "check:".toList = bytes "check" ++ [colon] by decide]
      simp
    rw [he] at hr
    obtain ⟨raw, isQuoted, hraw, ht⟩ := facetValue_eq_ok.mp (hfacet _ hr)
    have hhead : ∀ {c : Char}, c.toNat < 128 → v.head? ≠ some c → (encode v).head? ≠ some c.toUInt8 :=
      fun hc h h' => h ((head?_encode hc).mp h')
    have hv : comparator (encode v) = (.eq, encode v) := by
      have h₁ := hhead hgt.1 fun h => (hcmp _ h).2.2 rfl
      have h₂ := hhead hgt.2.1 fun h => (hcmp _ h).2.1 rfl
      have h₃ := hhead hgt.2.2.1 fun h => (hcmp _ h).1 rfl
      cases hev : encode v with
      | nil => rfl
      | cons c s =>
        rw [hev] at h₁ h₂ h₃
        rw [comparator_cons, if_neg (by simpa using h₁), if_neg (by simpa using h₂), if_neg (by simpa using h₃)]
    rw [hv] at hraw ht
    have hqv : (encode v).head? ≠ some dquote := hhead hgt.2.2.2.1 fun h => hq (List.mem_of_mem_head? h)
    rw [rawValue, if_neg hqv] at hraw
    obtain ⟨⟨rfl, rfl⟩, hb⟩ : ((bare (encode v)).1 = raw ∧ false = isQuoted) ∧ (bare (encode v)).2 = [] := by simpa using hraw
    have hsplit := (bare_split (encode v)).1
    rw [hb, List.append_nil] at hsplit
    rw [valueTerm_check ht, ← hsplit]
  | quoted hne hq hbs =>
    have he : encode ("check:\"".toList ++ v ++ ['"']) = bytes "check" ++ colon :: (dquote :: (encode v ++ [dquote])) := by
      rw [encode_append, encode_append, show encode "check:\"".toList = bytes "check" ++ [colon, dquote] by decide,
        show encode ['"'] = [dquote] by decide]
      simp
    rw [he] at hr
    obtain ⟨raw, isQuoted, hraw, ht⟩ := facetValue_eq_ok.mp (hfacet _ hr)
    have hv : comparator (dquote :: (encode v ++ [dquote])) = (.eq, dquote :: (encode v ++ [dquote])) := by
      rw [comparator_cons, if_neg (by decide), if_neg (by decide), if_neg (by decide)]
    have hbody : quotedBody (encode v ++ [dquote]) = some (encode v, []) :=
      quotedBody_plain_text (fun h => hq ((mem_encode hgt.2.2.2.1).mp h)) (fun h => hbs ((mem_encode hgt.2.2.2.2).mp h)) []
    rw [hv] at hraw ht
    have hraw' : rawValue (dquote :: (encode v ++ [dquote])) = .ok ((encode v, true), []) := by
      simp [rawValue, quoted, hbody]
    rw [hraw'] at hraw
    obtain ⟨⟨rfl, rfl⟩, -⟩ : (encode v = raw ∧ true = isQuoted) ∧ [] = ([] : Bytes) := by simpa using hraw
    exact valueTerm_check ht

/-! ## Where the two readings differ -/

/-- The leaf of the bytes `l` stands after the bytes `x`. -/
def LeafAt (q : Bytes) (ps : List Piece) (r x l : Bytes) : Prop :=
  ∃ sp as bs, Blank sp ∧ ps = as ++ .leaf l :: bs ∧ q = sp ++ text ps ++ r ∧ x = sp ++ text as

/-- The check `v` is written plainly as the word `w` that comes after `a`. -/
structure Plain (q : String) (ps : List Piece) (r : Bytes) (a w v : List Char) : Prop where
  word : ∃ b, Word q.toList a w b
  leaf : LeafAt (bytes q) ps r (encode a) (encode w)
  text : PlainText v w

variable (lib) in
/-- A `check:` term has the value, and is not written plainly. -/
def Missed (q : String) (ps : List Piece) (r : Bytes) (v : Value ν) : Prop :=
  ∃ x l cmp, LeafAt (bytes q) ps r x l ∧ Atomic lib l (.facet (bytes "check") cmp v) ∧
    ¬∃ a w s, Plain q ps r a w s ∧ encode a = x ∧ encode w = l

/-- A word begins like a check with the value, and is no check written plainly. -/
def Stray (q : String) (ps : List Piece) (r : Bytes) (s : String) : Prop :=
  ∃ a w b, Word q.toList a w b ∧ NotifierPrograms.facetValue w = ("check", s) ∧ s ≠ "" ∧ ¬∃ v, Plain q ps r a w v

/-- The checks that the notifier tests are those that the parsed query has. -/
def SameChecks (rule : NotifierPrograms.Rule) (ast : AST ν) : Prop :=
  ∀ v, v ∈ allCheckValues ast.filters ↔ ∃ s ∈ (NotifierPrograms.ruleTerms rule).1, v = .str (bytes s)

theorem mem_ruleTerms {rule : NotifierPrograms.Rule} {s : String} :
    s ∈ (NotifierPrograms.ruleTerms rule).1 ↔
      ∃ a w b, Word rule.queryString.toList a w b ∧ NotifierPrograms.facetValue w = ("check", s) ∧ s ≠ "" := by
  simp only [NotifierPrograms.ruleTerms, List.mem_map, List.mem_filter, decide_eq_true_eq, Prod.exists, mem_split]
  constructor
  · rintro ⟨f, s, ⟨⟨⟨w, ⟨a, b, hw⟩, hf⟩, hs⟩, rfl⟩, rfl⟩
    exact ⟨a, w, b, hw, hf, hs⟩
  · rintro ⟨a, w, b, hw, hf, hs⟩
    exact ⟨"check", s, ⟨⟨⟨w, ⟨a, b, hw⟩, hf⟩, hs⟩, rfl⟩, rfl⟩

theorem leaf_at {q r : Bytes} {ps : List Piece} {ts : List (Term ν)} (h : QueryReading lib q ps ts r) {l : Bytes} :
    .leaf l ∈ ps ↔ ∃ x, LeafAt q ps r x l := by
  constructor
  · intro hl
    obtain ⟨sp, hb, hq⟩ := h.text
    obtain ⟨as, bs, rfl⟩ := List.append_of_mem hl
    exact ⟨_, sp, as, bs, hb, rfl, hq, rfl⟩
  · rintro ⟨x, sp, as, bs, -, rfl, -⟩
    simp

variable {rule : NotifierPrograms.Rule} {ast : AST ν} {ps : List Piece} {r : Bytes}

/-- What the notifier tests: the checks written plainly, and the stray ones. -/
theorem ruleTerms_iff (ps : List Piece) (r : Bytes) (v : Value ν) :
    (∃ s ∈ (NotifierPrograms.ruleTerms rule).1, v = .str (bytes s)) ↔
      (∃ a w s, Plain rule.queryString ps r a w s ∧ v = .str (encode s)) ∨
        ∃ s, Stray rule.queryString ps r s ∧ v = .str (bytes s) := by
  constructor
  · rintro ⟨s, hs, rfl⟩
    obtain ⟨a, w, b, hw, hf, hne⟩ := mem_ruleTerms.mp hs
    by_cases hp : ∃ v, Plain rule.queryString ps r a w v
    · obtain ⟨v, hv⟩ := hp
      have := facetValue_plainText hv.text
      rw [hf] at this
      obtain rfl : s = String.ofList v := (Prod.mk.inj this).2
      exact Or.inl ⟨a, w, v, hv, by simp [bytes]⟩
    · exact Or.inr ⟨s, ⟨a, w, b, hw, hf, hne, hp⟩, rfl⟩
  · rintro (⟨a, w, s, hp, rfl⟩ | ⟨s, ⟨a, w, b, hw, hf, hne, -⟩, rfl⟩)
    · obtain ⟨b, hw⟩ := hp.word
      have hne : String.ofList s ≠ "" := by
        intro h
        have hs : s = [] := by simpa using congrArg String.toList h
        obtain ⟨h, -⟩ | ⟨h, -⟩ := hp.text
        · exact h hs
        · exact h hs
      exact ⟨String.ofList s, mem_ruleTerms.mpr ⟨a, w, b, hw, facetValue_plainText hp.text, hne⟩, by simp [bytes]⟩
    · exact ⟨s, mem_ruleTerms.mpr ⟨a, w, b, hw, hf, hne⟩, rfl⟩

/-- What the parsed query has: the checks written plainly, and the others. -/
theorem checkValues_iff (h : QueryReading lib (bytes rule.queryString) ps ast.filters r) (v : Value ν) :
    v ∈ allCheckValues ast.filters ↔
      (∃ a w s, Plain rule.queryString ps r a w s ∧ v = .str (encode s)) ∨ Missed lib rule.queryString ps r v := by
  -- The leaf of a check written plainly has its value.
  have hplain : ∀ {a w s t}, Plain rule.queryString ps r a w s → Atomic lib (encode w) t →
      t = .facet (bytes "check") .eq (.str (encode s)) := fun hp ha => atomic_plainText hp.text ha
  rw [filterReading_checks h.filters]
  constructor
  · rintro ⟨l, cmp, hl, ha⟩
    obtain ⟨x, hx⟩ := (leaf_at h).mp hl
    by_cases hp : ∃ a w s, Plain rule.queryString ps r a w s ∧ encode a = x ∧ encode w = l
    · obtain ⟨a, w, s, hp, -, rfl⟩ := hp
      have := hplain hp ha
      simp only [Term.facet.injEq, true_and] at this
      exact Or.inl ⟨a, w, s, hp, this.2⟩
    · exact Or.inr ⟨x, l, cmp, hx, ha, hp⟩
  · rintro (⟨a, w, s, hp, rfl⟩ | ⟨x, l, cmp, hx, ha, -⟩)
    · have hl := (leaf_at h).mpr ⟨_, hp.leaf⟩
      obtain ⟨t, ht⟩ := filterReading_leaf h.filters hl
      obtain rfl := hplain hp ht
      exact ⟨_, .eq, hl, ht⟩
    · exact ⟨l, cmp, (leaf_at h).mpr ⟨x, hx⟩, ha⟩

/-- An uptime rule on a query. -/
def ruleOn (query : String) : NotifierPrograms.Rule := ⟨"r", "o", "rule", "uptime", query, {}⟩

end Upstat.RuleQueries
