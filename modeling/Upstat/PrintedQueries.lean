import Upstat.EncodedTexts
import Upstat.GrammarReadings

/-! # Printed queries

The canonical text of a query: texts and string values quoted, groups in parens, a minus before
what is negated, and the aggregations and the grouping after the pipe. It is read as the query
it was printed from. -/
namespace Upstat.PrintedQueries

open QueryGrammar GrammarReadings EncodedTexts

variable {ν : Type} {lib : Library ν}

/-- Numbers print to words that read as the number, and a lower case letter stays itself. -/
structure Lawful (lib : Library ν) : Prop where
  parse_print : ∀ x, lib.parseFloat (lib.sprint x) = some x
  print_bare : ∀ x, lib.sprint x ≠ [] ∧ ∀ c ∈ lib.sprint x, bareByte c = true ∧ c ≠ '='.toUInt8
  lower_lower : ∀ c, lib.lowerRune (lib.lowerRune c) = lib.lowerRune c

/-! ## Printing -/

def escape (c : UInt8) : Bytes := if c = dquote ∨ c = backslash then [backslash, c] else [c]

def printText (s : Bytes) : Bytes := dquote :: s.flatMap escape ++ [dquote]

def printCmp : Cmp → Bytes
  | .eq => bytes "="
  | .gt => bytes ">"
  | .gte => bytes ">="
  | .lt => bytes "<"
  | .lte => bytes "<="

def printValue (lib : Library ν) (cmp : Cmp) : Value ν → Bytes
  | .str s => printText s
  | .num x => printCmp cmp ++ lib.sprint x

mutual

/-- The pieces a term prints to. -/
def pieces (lib : Library ν) : Term ν → List Piece
  | .facet f cmp v => [.leaf (f ++ colon :: printValue lib cmp v)]
  | .op .and ts => .opening :: .space [] :: sequence lib [] ts
  | .op .or ts => .opening :: .space [] :: sequence lib [.or, .space (bytes " ")] ts
  | .not t => .minus :: pieces lib t
  | .text s => [.leaf (printText s)]

/-- Terms up to the closing paren, with a space and `between` between them. -/
def sequence (lib : Library ν) (between : List Piece) : List (Term ν) → List Piece
  | [] => [.closing]
  | [t] => pieces lib t ++ [.space [], .closing]
  | t :: ts => pieces lib t ++ .space (bytes " ") :: (between ++ sequence lib between ts)

end

def print (lib : Library ν) (t : Term ν) : Bytes := text (pieces lib t)

def printAgg (a : Agg) : Bytes := a.fn ++ lparen :: a.field ++ [rparen]

def printList (xs : List Bytes) : Bytes := (bytes ", ").intercalate xs

/-- What is printed after the filters. -/
def printAggregation (as : List Agg) (gs : List Bytes) : Bytes :=
  if as = [] then []
  else bytes " | " ++ printList (as.map printAgg) ++ if gs = [] then [] else bytes " by " ++ printList gs

def printQuery (lib : Library ν) (ast : AST ν) : Bytes :=
  (bytes " ").intercalate (ast.filters.map (print lib)) ++ printAggregation ast.agg ast.groupBy

/-! ## What a query can be parsed to -/

inductive Parsed (lib : Library ν) : Term ν → Prop
  | text (s : Bytes) : Parsed lib (.text s)
  | str {f s : Bytes} :
      IsIdent f → knownFacet f = true → (f = bytes "level" → lib.toLower s = s) → Parsed lib (.facet f .eq (.str s))
  | num {f : Bytes} {x : ν} (cmp : Cmp) :
      IsIdent f → knownFacet f = true → numericFacet f = true → Parsed lib (.facet f cmp (.num x))
  | not {t : Term ν} : Parsed lib t → Parsed lib (.not t)
  | op (op : Op) {t u : Term ν} {ts : List (Term ν)} :
      Parsed lib t → Parsed lib u → (∀ v ∈ ts, Parsed lib v) → Parsed lib (.op op (t :: u :: ts))

/-! ## Lower case -/

theorem Lawful.toLower_toLower (h : Lawful lib) (s : Bytes) : lib.toLower (lib.toLower s) = lib.toLower s := by
  unfold Library.toLower
  rw [runes_encode, List.map_map]
  congr 1
  exact List.map_congr_left fun c _ => h.lower_lower c

/-! ## Printed atoms are read back -/

theorem quotedBody_escape_append (s rest : Bytes) : quotedBody (s.flatMap escape ++ dquote :: rest) = some (s, rest) := by
  induction s with
  | nil => exact quotedBody_end rest
  | cons c s ih =>
    rw [List.flatMap_cons, List.append_assoc]
    by_cases hc : c = dquote ∨ c = backslash
    · rw [escape, if_pos hc, List.cons_append, List.cons_append, List.nil_append, quotedBody_escape, ih]
      rfl
    · rw [escape, if_neg hc, List.cons_append, List.nil_append, quotedBody_plain (fun h => hc (Or.inr h)) fun h => hc (Or.inl h),
        ih]
      rfl

theorem quoted_printText (s rest : Bytes) : quoted (printText s ++ rest) = .ok (s, rest) := by
  have h : quotedBody (s.flatMap escape ++ ([dquote] ++ rest)) = some (s, rest) := quotedBody_escape_append s rest
  rw [printText, List.cons_append, List.cons_append, List.append_assoc, quoted, List.drop_succ_cons, List.drop_zero, h]

theorem rawValue_printText (s rest : Bytes) : rawValue (printText s ++ rest) = .ok ((s, true), rest) := by
  have hq : (printText s ++ rest).head? = some dquote := rfl
  rw [rawValue, if_pos hq, quoted_printText]

theorem comparator_printText (s rest : Bytes) : comparator (printText s ++ rest) = (.eq, printText s ++ rest) := by
  rw [printText, List.cons_append, List.cons_append, comparator_cons, if_neg (by decide), if_neg (by decide),
    if_neg (by decide)]

theorem comparator_printCmp {v : Bytes} (cmp : Cmp) (hv : v.head? ≠ some '='.toUInt8) :
    comparator (printCmp cmp ++ v) = (cmp, v) := by
  have h₁ : bytes ">=" = ['>'.toUInt8, '='.toUInt8] := by decide
  have h₂ : bytes "<=" = ['<'.toUInt8, '='.toUInt8] := by decide
  have h₃ : bytes ">" = ['>'.toUInt8] := by decide
  have h₄ : bytes "<" = ['<'.toUInt8] := by decide
  have h₅ : bytes "=" = ['='.toUInt8] := by decide
  cases cmp <;> simp only [printCmp, h₁, h₂, h₃, h₄, h₅, List.cons_append, List.nil_append, comparator_cons]
  · rfl
  · rw [if_pos trivial, if_neg hv]
  · rfl
  · rw [if_neg (by decide), if_pos trivial, if_neg hv]
  · rfl

theorem facetValue_printText (start f s rest : Bytes) (hlow : f = bytes "level" → lib.toLower s = s) :
    facetValue lib start f (printText s ++ rest) = .ok (.facet f .eq (.str s), rest) := by
  rw [facetValue_eq_ok, comparator_printText]
  refine ⟨s, true, rawValue_printText s rest, ?_⟩
  have hs : (if f = bytes "level" then lib.toLower s else s) = s := by
    split_ifs with hf
    · exact hlow hf
    · rfl
  simp only [valueTerm, not_true_eq_false, and_false, if_false, ne_eq, hs]

theorem facetValue_printNum (hlib : Lawful lib) {start f rest : Bytes} (cmp : Cmp) (x : ν) (hn : numericFacet f = true)
    (hrest : Ends rest) :
    facetValue lib start f (printCmp cmp ++ lib.sprint x ++ rest) = .ok (.facet f cmp (.num x), rest) := by
  obtain ⟨hne, hall⟩ := hlib.print_bare x
  have hbare := bare_append (fun c hc => (hall c hc).1) hrest
  obtain ⟨c, l, hcl⟩ := List.exists_cons_of_ne_nil hne
  have hc := hall c (by rw [hcl]; simp)
  have hd : c ≠ dquote := by
    rintro rfl
    exact absurd hc.1 (by decide)
  rw [facetValue_eq_ok, List.append_assoc, comparator_printCmp _ (by rw [hcl]; simpa using hc.2)]
  refine ⟨lib.sprint x, false, ?_, ?_⟩
  · rw [rawValue, if_neg (by rw [hcl]; simpa using hd), hbare]
  · have hlevel : f ≠ bytes "level" := by
      rintro rfl
      exact absurd hn (by decide)
    by_cases hcmp : cmp = .eq
    · subst hcmp
      simp [valueTerm, hne, hn, hlevel, hlib.parse_print]
    · simp [valueTerm, hne, hn, hcmp, hlib.parse_print]

theorem atomic_text (s : Bytes) : Atomic lib (printText s) (.text s) where
  ne_nil := by simp [printText]
  head c hc := by
    obtain rfl : dquote = c := by simpa [printText] using hc
    decide
  last c hc := by
    obtain rfl : dquote = c := by simpa [printText, List.getLast?_cons] using hc
    decide
  reads rest _ := by
    have h := quoted_printText s rest
    rw [printText, List.cons_append, List.cons_append] at h ⊢
    rw [atom, if_pos rfl, h]
    rfl

theorem not_space_printText (s : Bytes) : ∀ c ∈ (colon :: printText s).getLast?, isSpace c = false := by
  intro c hc
  obtain rfl : dquote = c := by simpa [printText, List.getLast?_cons] using hc
  decide

theorem Lawful.not_space_printNum (hlib : Lawful lib) (cmp : Cmp) (x : ν) :
    ∀ c ∈ (colon :: (printCmp cmp ++ lib.sprint x)).getLast?, isSpace c = false := by
  intro c hc
  obtain ⟨hne, hall⟩ := hlib.print_bare x
  have hlast : (lib.sprint x).getLast? = some ((lib.sprint x).getLast hne) := List.getLast?_eq_some_getLast hne
  rw [← List.cons_append, List.getLast?_append, hlast] at hc
  obtain rfl : (lib.sprint x).getLast hne = c := by simpa using hc
  exact not_space_of_bareByte (hall _ (List.getLast_mem hne)).1

/-- A facet with a value whose text is read as the value. -/
theorem atomic_facet {f v : Bytes} {t : Term ν} (hi : IsIdent f) (hk : knownFacet f = true)
    (hlast : ∀ c ∈ (colon :: v).getLast?, isSpace c = false)
    (hv : ∀ start rest, Ends rest → facetValue lib start f (v ++ rest) = .ok (t, rest)) :
    Atomic lib (f ++ colon :: v) t := by
  obtain ⟨c, f', rfl⟩ := List.exists_cons_of_ne_nil hi.ne_nil
  have hc : ∀ d : UInt8, identByte d true = false → c ≠ d := by
    rintro d hd rfl
    rw [hi.1] at hd
    simp at hd
  have hlast' : (c :: f' ++ colon :: v).getLast? = (colon :: v).getLast? := by
    rw [List.getLast?_append, List.getLast?_eq_some_getLast (List.cons_ne_nil colon v)]
    rfl
  refine ⟨by simp, ?_, by rwa [hlast'], fun rest hrest => ?_⟩
  · intro d hd
    obtain rfl : c = d := by simpa using hd
    exact ⟨hc _ (by decide), hc _ (by decide), hc _ (by decide)⟩
  · have he : c :: f' ++ colon :: v ++ rest = c :: (f' ++ colon :: (v ++ rest)) := by simp
    rw [he, atom_eq_named (hc _ (by decide)), ← List.cons_append, named_facet hi hk]
    exact hv _ _ hrest

/-! ## Printed terms are read back -/

/-- No printed term begins like the keyword. -/
theorem text_pieces_ne_or {t : Term ν} (h : Parsed lib t) : text (pieces lib t) ≠ bytes "OR" := by
  have hor : bytes "OR" = ['O'.toUInt8, 'R'.toUInt8] := by decide
  have hfacet : ∀ {f v : Bytes}, IsIdent f → f ++ colon :: v ≠ ['O'.toUInt8, 'R'.toUInt8] := by
    intro f v hi he
    obtain ⟨c, f, rfl⟩ := List.exists_cons_of_ne_nil hi.ne_nil
    obtain rfl : c = 'O'.toUInt8 := (List.cons.inj he).1
    exact absurd hi.1 (by decide)
  rw [hor]
  cases h with
  | text s => exact fun he => absurd (List.cons.inj he).1 (by decide)
  | str hi _ _ => simpa [pieces, Piece.text] using hfacet hi
  | num _ hi _ _ => simpa [pieces, Piece.text] using hfacet hi
  | not _ => exact fun he => absurd (List.cons.inj he).1 (by decide)
  | op o _ _ _ => cases o <;> exact fun he => absurd (List.cons.inj he).1 (by decide)

theorem blank_nil : Blank [] := by simp [Blank]

theorem blank_space : Blank (bytes " ") := by
  rw [show bytes " " = [32] by decide]
  simp [Blank]
  decide

/-- The terms of an `and` node, read from where those of `seq` have been. -/
theorem reading_and {ts : List (Term ν)} (hr : ∀ t ∈ ts, Reading lib (pieces lib t) (.term t))
    (hp : ∀ t ∈ ts, Parsed lib t) (seq : List (Term ν)) {bs : List (Term ν)}
    (hfl : ∀ s, flush s [] (seq ++ ts) = .ok bs) : Reading lib (sequence lib [] ts) (.inside [] seq (collapse bs)) := by
  induction ts generalizing seq with
  | nil => exact .close (by simpa using hfl)
  | cons t ts ih =>
    have ht := hr t (by simp)
    have hpt := text_pieces_ne_or (hp t (by simp))
    have hrest := ih (fun u hu => hr u (List.mem_cons_of_mem _ hu)) (fun u hu => hp u (List.mem_cons_of_mem _ hu))
      (seq ++ [t]) (by simpa using hfl)
    cases ts with
    | nil => exact .item ht hpt blank_nil (fun _ => rfl) hrest
    | cons u ts => exact .item ht hpt blank_space (fun h => absurd h (by decide)) hrest

/-- The terms of an `or` node, read from where those of `branches` have been. -/
theorem reading_or {ts : List (Term ν)} (hne : ts ≠ []) (hr : ∀ t ∈ ts, Reading lib (pieces lib t) (.term t))
    (hp : ∀ t ∈ ts, Parsed lib t) (branches : List (Term ν)) :
    Reading lib (sequence lib [.or, .space (bytes " ")] ts) (.inside branches [] (collapse (branches ++ ts))) := by
  induction ts generalizing branches with
  | nil => exact absurd rfl hne
  | cons t ts ih =>
    have ht := hr t (by simp)
    have hpt := text_pieces_ne_or (hp t (by simp))
    cases ts with
    | nil => exact .item ht hpt blank_nil (fun _ => rfl) (.close fun _ => rfl)
    | cons u ts =>
      have hrest := ih (by simp) (fun v hv => hr v (List.mem_cons_of_mem _ hv)) (fun v hv => hp v (List.mem_cons_of_mem _ hv))
        (branches ++ [t])
      rw [List.append_assoc, List.singleton_append] at hrest
      exact .item ht hpt blank_space (fun h => absurd h (by decide))
        (.or (fun _ => rfl) blank_space (fun h => absurd h (by decide)) hrest)

theorem Parsed.reading (hlib : Lawful lib) {t : Term ν} (h : Parsed lib t) : Reading lib (pieces lib t) (.term t) := by
  induction h with
  | text s => exact .leaf (atomic_text s)
  | str hi hk hlow =>
    exact .leaf (atomic_facet hi hk (not_space_printText _) fun _ _ _ => facetValue_printText _ _ _ _ hlow)
  | num cmp hi hk hn =>
    exact .leaf (atomic_facet hi hk (hlib.not_space_printNum cmp _) fun _ _ hrest => facetValue_printNum hlib cmp _ hn hrest)
  | not _ ih => exact .not ih
  | @op o t u ts ht hu hts iht ihu ihts =>
    have hr : ∀ v ∈ t :: u :: ts, Reading lib (pieces lib v) (.term v) := by
      intro v hv
      rcases List.mem_cons.mp hv with rfl | hv
      · exact iht
      rcases List.mem_cons.mp hv with rfl | hv
      · exact ihu
      · exact ihts v hv
    have hp : ∀ v ∈ t :: u :: ts, Parsed lib v := by
      intro v hv
      rcases List.mem_cons.mp hv with rfl | hv
      · exact ht
      rcases List.mem_cons.mp hv with rfl | hv
      · exact hu
      · exact hts v hv
    cases o with
    | and =>
      have hfl : ∀ s, flush s [] ([] ++ t :: u :: ts) = .ok [.op .and (t :: u :: ts)] := fun _ => rfl
      exact .group blank_nil (reading_and hr hp [] hfl)
    | or => exact .group blank_nil (reading_or (by simp) hr hp [])

/-! ## Every parsed term is one of those -/

theorem valueTerm_parsed (hlib : Lawful lib) {f raw : Bytes} {cmp : Cmp} {isQuoted : Bool} {t : Term ν} (hi : IsIdent f)
    (hk : knownFacet f = true) (h : valueTerm lib f cmp raw isQuoted = some t) : Parsed lib t := by
  unfold valueTerm at h
  by_cases h₁ : raw = [] ∧ ¬isQuoted
  · simp [h₁] at h
  rw [if_neg h₁] at h
  by_cases h₂ : cmp ≠ .eq
  · rw [if_pos h₂] at h
    by_cases hn : numericFacet f = true
    · simp only [hn, not_true_eq_false, if_false, Option.map_eq_some_iff] at h
      obtain ⟨n, -, rfl⟩ := h
      exact .num cmp hi hk hn
    · simp [hn] at h
  rw [if_neg h₂] at h
  obtain rfl := Option.some.inj h
  have hlow : f = bytes "level" → lib.toLower (if f = bytes "level" then lib.toLower raw else raw) =
      if f = bytes "level" then lib.toLower raw else raw := by
    intro hf
    rw [if_pos hf]
    exact hlib.toLower_toLower raw
  generalize (if f = bytes "level" then lib.toLower raw else raw) = raw' at hlow ⊢
  split_ifs with hn
  · cases lib.parseFloat raw' with
    | none => exact .str hi hk hlow
    | some n => exact .num .eq hi hk hn.1
  · exact .str hi hk hlow

theorem Atomic.parsed (hlib : Lawful lib) {l : Bytes} {t : Term ν} (h : Atomic lib l t) : Parsed lib t := by
  obtain ⟨s, rfl⟩ | ⟨f, cmp, raw, isQuoted, hi, hk, ht⟩ := h.text_or_facet
  · exact .text s
  · exact valueTerm_parsed hlib hi hk ht

def AllParsed (lib : Library ν) (ts : List (Term ν)) : Prop := ∀ t ∈ ts, Parsed lib t

theorem AllParsed.op {t u : Term ν} {ts : List (Term ν)} (h : AllParsed lib (t :: u :: ts)) (o : Op) :
    Parsed lib (.op o (t :: u :: ts)) :=
  .op o (h t (by simp)) (h u (by simp)) fun v hv => h v (by simp [hv])

theorem AllParsed.snoc {ts : List (Term ν)} {t : Term ν} (h : AllParsed lib ts) (ht : Parsed lib t) :
    AllParsed lib (ts ++ [t]) := by
  intro u hu
  rcases List.mem_append.mp hu with hu | hu
  · exact h u hu
  · obtain rfl : u = t := by simpa using hu
    exact ht

theorem AllParsed.flush {s : Bytes} {branches seq bs : List (Term ν)} (hb : AllParsed lib branches) (hs : AllParsed lib seq)
    (h : flush s branches seq = .ok bs) : AllParsed lib bs ∧ bs ≠ [] := by
  cases seq with
  | nil => simp [QueryGrammar.flush, fail] at h
  | cons t seq =>
    cases seq with
    | nil =>
      obtain rfl : branches ++ [t] = bs := by simpa [QueryGrammar.flush] using h
      exact ⟨hb.snoc (hs t (by simp)), by simp⟩
    | cons u seq =>
      obtain rfl : branches ++ [.op .and (t :: u :: seq)] = bs := by simpa [QueryGrammar.flush] using h
      exact ⟨hb.snoc (hs.op .and), by simp⟩

theorem AllParsed.collapse {bs : List (Term ν)} (h : AllParsed lib bs) (hne : bs ≠ []) : Parsed lib (collapse bs) := by
  obtain ⟨t, bs, rfl⟩ := List.exists_cons_of_ne_nil hne
  cases bs with
  | nil => exact h t (by simp)
  | cons u bs => exact h.op .or

def NodeParsed (lib : Library ν) : Node ν → Prop
  | .term t => Parsed lib t
  | .inside branches seq t => AllParsed lib branches → AllParsed lib seq → Parsed lib t

theorem Reading.parsed (hlib : Lawful lib) {ps : List Piece} {n : Node ν} (h : Reading lib ps n) : NodeParsed lib n := by
  induction h with
  | leaf h => exact Atomic.parsed hlib h
  | not _ ih => exact .not ih
  | group _ _ ih => exact ih (by simp [AllParsed]) (by simp [AllParsed])
  | close hfl =>
    intro hb hs
    obtain ⟨hbs, hne⟩ := hb.flush hs (hfl [])
    exact hbs.collapse hne
  | or hfl _ _ _ ih =>
    intro hb hs
    exact ih (hb.flush hs (hfl [])).1 (by simp [AllParsed])
  | item _ _ _ _ _ ih ih' =>
    intro hb hs
    exact ih' hb (hs.snoc ih)

theorem FilterReading.parsed (hlib : Lawful lib) {ps : List Piece} {ts : List (Term ν)} (h : FilterReading lib ps ts) :
    AllParsed lib ts := by
  induction h with
  | nil => simp [AllParsed]
  | cons h _ _ _ ih =>
    intro u hu
    rcases List.mem_cons.mp hu with rfl | hu
    · exact Reading.parsed hlib h
    · exact ih u hu

/-! ## Aggregations -/

/-- An aggregation as `agg` reads it. -/
structure ParsedAgg (a : Agg) : Prop where
  fn : a.fn ∈ functions
  field : a.field ≠ [] → IsIdent a.field ∧ (knownFacet a.field = true ∨ fieldName a.field = true)

theorem isIdent_of_function {f : Bytes} (h : f ∈ functions) : IsIdent f := by
  have hall : ∀ f ∈ functions, IsIdent f := by decide +kernel
  exact hall f h

theorem agg_printAgg {a : Agg} (h : ParsedAgg a) (s : Bytes) : agg (printAgg a ++ s) = .ok (a, s) := by
  have hfn := isIdent_of_function h.fn
  have hi : ident (a.fn ++ lparen :: (a.field ++ rparen :: s)) = (a.fn, lparen :: (a.field ++ rparen :: s)) :=
    ident_append hfn (by simp; decide)
  have hfield : space (a.field ++ rparen :: s) = a.field ++ rparen :: s ∧
      ident (a.field ++ rparen :: s) = (a.field, rparen :: s) := by
    by_cases hf : a.field = []
    · rw [hf]
      exact ⟨space_of_head (by simp; decide), rfl⟩
    · exact ⟨space_of_head (h.field hf).1.head_not_space, ident_append (h.field hf).1 (by simp; decide)⟩
  have hs : space (rparen :: s) = rparen :: s := space_of_head (by simp; decide)
  have hknown : ¬(a.field ≠ [] ∧ ¬knownFacet a.field = true ∧ ¬fieldName a.field = true) := by
    rintro ⟨hf, hk, hn⟩
    exact (h.field hf).2.elim hk hn
  have he : printAgg a ++ s = a.fn ++ lparen :: (a.field ++ rparen :: s) := by simp [printAgg]
  rw [he]
  simp only [agg, hi, hfield.1, hfield.2, hs, List.drop_succ_cons, List.drop_zero, List.head?_cons, if_neg hfn.ne_nil,
    not_true_eq_false, h.fn, if_false, ne_eq, if_neg hknown]

theorem printList_cons (x y : Bytes) (xs : List Bytes) :
    printList (x :: y :: xs) = x ++ comma :: (bytes " " ++ printList (y :: xs)) := by
  have h : bytes ", " = comma :: bytes " " := by decide
  rw [printList, printList, List.intercalate_cons_cons, h]
  simp

theorem printList_singleton (x : Bytes) : printList [x] = x := by simp [printList]

theorem printList_head (x : Bytes) (xs : List Bytes) : ∃ s, printList (x :: xs) = x ++ s := by
  cases xs with
  | nil => exact ⟨[], by rw [printList_singleton, List.append_nil]⟩
  | cons y xs => exact ⟨_, printList_cons x y xs⟩

/-- Blanks before something that begins without one. -/
theorem space_bytes {s : Bytes} (h : ∀ c ∈ s.head?, isSpace c = false) : space (bytes " " ++ s) = s :=
  space_blank blank_space h

theorem printAgg_not_space {a : Agg} (h : ParsedAgg a) (s : Bytes) : ∀ c ∈ (printAgg a ++ s).head?, isSpace c = false := by
  have he : printAgg a ++ s = a.fn ++ lparen :: (a.field ++ rparen :: s) := by simp [printAgg]
  rw [he]
  exact (isIdent_of_function h.fn).head_not_space

theorem printList_aggs_not_space {as : List Agg} (hne : as ≠ []) (h : ∀ a ∈ as, ParsedAgg a) (s : Bytes) :
    ∀ c ∈ (printList (as.map printAgg) ++ s).head?, isSpace c = false := by
  obtain ⟨a, as, rfl⟩ := List.exists_cons_of_ne_nil hne
  obtain ⟨s', hs⟩ := printList_head (printAgg a) (as.map printAgg)
  rw [List.map_cons, hs, List.append_assoc]
  exact printAgg_not_space (h a (by simp)) _

theorem printList_idents_not_space {gs : List Bytes} (hne : gs ≠ []) (h : ∀ g ∈ gs, IsIdent g) :
    ∀ c ∈ (printList gs).head?, isSpace c = false := by
  obtain ⟨g, gs, rfl⟩ := List.exists_cons_of_ne_nil hne
  obtain ⟨s, hs⟩ := printList_head g gs
  rw [hs]
  exact (h g (by simp)).head_not_space

theorem aggs_printList {as : List Agg} (hne : as ≠ []) (h : ∀ a ∈ as, ParsedAgg a) {s : Bytes}
    (hs : (space s).head? ≠ some comma) :
    ∀ fuel acc, as.length ≤ fuel → aggs fuel acc (printList (as.map printAgg) ++ s) = .ok (acc ++ as, space s) := by
  induction as with
  | nil => exact absurd rfl hne
  | cons a as ih =>
    intro fuel acc hf
    obtain ⟨fuel, rfl⟩ : ∃ k, fuel = k + 1 := ⟨fuel - 1, by simp at hf; omega⟩
    have ha := h a (by simp)
    cases as with
    | nil =>
      rw [List.map_singleton, printList_singleton, aggs, agg_printAgg ha]
      simp only [bind, Except.bind, if_neg hs]
    | cons b as =>
      have hrest := ih (by simp) (fun c hc => h c (List.mem_cons_of_mem _ hc)) fuel (acc ++ [a]) (by simpa using hf)
      have hns := printList_aggs_not_space (List.cons_ne_nil b as) (fun c hc => h c (List.mem_cons_of_mem _ hc)) s
      rw [List.map_cons] at hrest hns
      have he : printList ((a :: b :: as).map printAgg) ++ s =
          printAgg a ++ (comma :: (bytes " " ++ (printList (printAgg b :: as.map printAgg) ++ s))) := by
        rw [List.map_cons, List.map_cons, printList_cons]
        simp
      have hcomma : space (comma :: (bytes " " ++ (printList (printAgg b :: as.map printAgg) ++ s))) =
          comma :: (bytes " " ++ (printList (printAgg b :: as.map printAgg) ++ s)) := space_of_head (by simp; decide)
      rw [he, aggs, agg_printAgg ha]
      simp only [bind, Except.bind, hcomma, List.head?_cons, if_true, List.drop_succ_cons, List.drop_zero, space_bytes hns,
        hrest]
      simp

theorem groupList_printList {gs : List Bytes} (hne : gs ≠ []) (h : ∀ g ∈ gs, IsIdent g) :
    ∀ fuel acc, gs.length ≤ fuel → groupList fuel acc (printList gs) = .ok (acc ++ gs, []) := by
  induction gs with
  | nil => exact absurd rfl hne
  | cons g gs ih =>
    intro fuel acc hf
    obtain ⟨fuel, rfl⟩ : ∃ k, fuel = k + 1 := ⟨fuel - 1, by simp at hf; omega⟩
    have hg := h g (by simp)
    cases gs with
    | nil =>
      have hi : ident (g ++ []) = (g, []) := ident_append hg (by simp)
      rw [List.append_nil] at hi
      rw [printList_singleton, groupList, hi]
      simp [hg.ne_nil, space]
    | cons k gs =>
      have hrest := ih (by simp) (fun c hc => h c (List.mem_cons_of_mem _ hc)) fuel (acc ++ [g]) (by simpa using hf)
      have hns := printList_idents_not_space (List.cons_ne_nil k gs) fun c hc => h c (List.mem_cons_of_mem _ hc)
      have hi : ident (g ++ comma :: (bytes " " ++ printList (k :: gs))) = (g, comma :: (bytes " " ++ printList (k :: gs))) :=
        ident_append hg (by simp; decide)
      have hcomma : space (comma :: (bytes " " ++ printList (k :: gs))) = comma :: (bytes " " ++ printList (k :: gs)) :=
        space_of_head (by simp; decide)
      rw [printList_cons, groupList, hi]
      simp only [if_neg hg.ne_nil, hcomma, List.head?_cons, if_true, List.drop_succ_cons, List.drop_zero, space_bytes hns,
        hrest]
      simp

theorem length_printList {xs : List Bytes} (h : ∀ x ∈ xs, x ≠ []) : xs.length ≤ (printList xs).length := by
  induction xs with
  | nil => simp
  | cons x xs ih =>
    have hx := List.length_pos_iff.mpr (h x (by simp))
    cases xs with
    | nil =>
      rw [printList_singleton, List.length_singleton]
      omega
    | cons y xs =>
      have := ih fun z hz => h z (List.mem_cons_of_mem _ hz)
      rw [printList_cons]
      simp only [List.length_cons, List.length_append] at this ⊢
      omega

theorem printAgg_ne_nil (a : Agg) : printAgg a ≠ [] := by simp [printAgg]

theorem aggregation_print {as : List Agg} {gs : List Bytes} (hne : as ≠ []) (has : ∀ a ∈ as, ParsedAgg a)
    (hgs : ∀ g ∈ gs, IsIdent g) {fuel : ℕ} (hf : as.length ≤ fuel) (hf' : gs.length ≤ fuel) :
    aggregation lib fuel (printList (as.map printAgg) ++ if gs = [] then [] else bytes " by " ++ printList gs) =
      .ok (as, gs) := by
  have hlen : (as.map printAgg).length ≤ (printList (as.map printAgg)).length :=
    length_printList (by simp [printAgg_ne_nil])
  have hpos := List.length_pos_iff.mpr hne
  have hnil : ∀ s, printList (as.map printAgg) ++ s ≠ [] := by
    intro s h
    rw [(List.append_eq_nil_iff.mp h).1, List.length_map, List.length_nil] at hlen
    omega
  rw [aggregation, if_neg (hnil _)]
  by_cases hg : gs = []
  · subst hg
    rw [if_pos rfl, aggs_printList hne has (by simp [space]) fuel [] hf]
    rfl
  · have hby : bytes " by " ++ printList gs = bytes " " ++ (bytes "by" ++ (bytes " " ++ printList gs)) := by
      rw [show bytes " by " = bytes " " ++ bytes "by" ++ bytes " " by decide]
      simp
    have hskip : space (bytes " by " ++ printList gs) = bytes "by" ++ (bytes " " ++ printList gs) := by
      rw [hby]
      exact space_bytes (by rw [show bytes "by" = [98, 121] by decide]; simp; decide)
    have hcomma : (space (bytes " by " ++ printList gs)).head? ≠ some comma := by
      rw [hskip, show bytes "by" = [98, 121] by decide]
      simp
      decide
    have hword : word "by" (bytes "by" ++ (bytes " " ++ printList gs)) = some (bytes " " ++ printList gs) := by
      refine word_eq_some.mpr ⟨rfl, Alone.blank blank_space ?_⟩
      intro h
      exact absurd h (by decide)
    have hlist : space (bytes " " ++ printList gs) = printList gs := space_bytes (printList_idents_not_space hg hgs)
    rw [if_neg hg, aggs_printList hne has hcomma fuel [] hf, hskip]
    simp only [bind, Except.bind, grouping, hword, hlist, groupList_printList hg hgs fuel [] hf']
    rfl

/-! ## Every parsed aggregation is one of those -/

theorem agg_parsed {s r : Bytes} {a : Agg} (h : agg s = .ok (a, r)) : ParsedAgg a := by
  obtain ⟨fn, r₁, hfn⟩ : ∃ fn r₁, ident s = (fn, r₁) := ⟨_, _, rfl⟩
  obtain ⟨field, r₂, hfield⟩ : ∃ field r₂, ident (space (r₁.drop 1)) = (field, r₂) := ⟨_, _, rfl⟩
  simp only [agg, hfn, hfield, fail] at h
  by_cases h₁ : fn = []
  · simp [h₁] at h
  by_cases h₂ : fn ∉ functions
  · simp [h₁, h₂] at h
  by_cases h₃ : r₁.head? ≠ some lparen
  · simp [h₁, h₂, h₃] at h
  by_cases h₄ : (space r₂).head? ≠ some rparen
  · simp [h₁, h₂, h₃, h₄] at h
  by_cases h₅ : field ≠ [] ∧ ¬knownFacet field = true ∧ ¬fieldName field = true
  · simp [h₁, h₂, h₃, h₄, h₅] at h
  rw [if_neg h₁, if_neg h₂, if_neg h₃, if_neg h₄, if_neg h₅] at h
  obtain rfl : (⟨fn, field⟩ : Agg) = a := (Prod.mk.inj (Except.ok.inj h)).1
  refine ⟨not_not.mp h₂, fun hne => ⟨(ident_split hfield).2.1.resolve_left hne, ?_⟩⟩
  by_contra hk
  exact h₅ ⟨hne, fun h => hk (Or.inl h), fun h => hk (Or.inr h)⟩

theorem aggs_parsed (fuel : ℕ) : ∀ (acc : List Agg) (s : Bytes) (as : List Agg) (r : Bytes), aggs fuel acc s = .ok (as, r) →
    ∃ new, new ≠ [] ∧ as = acc ++ new ∧ ∀ a ∈ new, ParsedAgg a := by
  induction fuel with
  | zero => simp [aggs]
  | succ fuel ih =>
    intro acc s as r h
    rw [aggs] at h
    obtain ⟨⟨a, r₁⟩, ha, h⟩ := bind_eq_ok.mp h
    simp only at h
    split_ifs at h with hc
    · obtain ⟨new, -, rfl, hnew⟩ := ih _ _ _ _ h
      refine ⟨a :: new, by simp, by simp, fun b hb => ?_⟩
      rcases List.mem_cons.mp hb with rfl | hb
      · exact agg_parsed ha
      · exact hnew b hb
    · obtain ⟨rfl, -⟩ := Prod.mk.inj (Except.ok.inj h)
      exact ⟨[a], by simp, rfl, by simpa using agg_parsed ha⟩

theorem groupList_parsed (fuel : ℕ) : ∀ (acc : List Bytes) (s : Bytes) (gs : List Bytes) (r : Bytes),
    groupList fuel acc s = .ok (gs, r) → ∃ new, gs = acc ++ new ∧ ∀ g ∈ new, IsIdent g := by
  induction fuel with
  | zero => simp [groupList]
  | succ fuel ih =>
    intro acc s gs r h
    obtain ⟨f, r₁, hf⟩ : ∃ f r₁, ident s = (f, r₁) := ⟨_, _, rfl⟩
    simp only [groupList, hf, fail] at h
    by_cases hne : f = []
    · simp [hne] at h
    have hi : IsIdent f := (ident_split hf).2.1.resolve_left hne
    rw [if_neg hne] at h
    split_ifs at h with hc
    · obtain ⟨new, rfl, hnew⟩ := ih _ _ _ _ h
      refine ⟨f :: new, by simp, fun g hg => ?_⟩
      rcases List.mem_cons.mp hg with rfl | hg
      · exact hi
      · exact hnew g hg
    · obtain ⟨rfl, -⟩ := Prod.mk.inj (Except.ok.inj h)
      exact ⟨[f], rfl, by simpa using hi⟩

theorem aggregation_parsed {fuel : ℕ} {s : Bytes} {as : List Agg} {gs : List Bytes}
    (h : aggregation lib fuel s = .ok (as, gs)) : as ≠ [] ∧ (∀ a ∈ as, ParsedAgg a) ∧ ∀ g ∈ gs, IsIdent g := by
  rw [aggregation] at h
  split_ifs at h with hs
  · simp [fail] at h
  obtain ⟨⟨as', r⟩, ha, h⟩ := bind_eq_ok.mp h
  obtain ⟨⟨gs', r'⟩, hg, h⟩ := bind_eq_ok.mp h
  have he : as' = as ∧ gs' = gs := by
    cases hsp : space r' with
    | nil => simpa [hsp] using h
    | cons c r'' =>
      simp only [hsp, fail] at h
      split_ifs at h
  obtain ⟨rfl, rfl⟩ := he
  obtain ⟨new, hne, rfl, hnew⟩ := aggs_parsed _ _ _ _ _ ha
  refine ⟨by simpa using hne, by simpa using hnew, ?_⟩
  rw [grouping] at hg
  cases hw : word "by" r with
  | none =>
    obtain ⟨rfl, -⟩ : [] = gs' ∧ r = r' := by simpa [hw] using hg
    simp
  | some r₁ =>
    simp only [hw] at hg
    obtain ⟨new', rfl, hnew'⟩ := groupList_parsed _ _ _ _ _ hg
    simpa using hnew'

/-! ## The round trip -/

def filterPieces (lib : Library ν) (trail : Bytes) : List (Term ν) → List Piece
  | [] => []
  | [t] => pieces lib t ++ [.space trail]
  | t :: ts => pieces lib t ++ .space (bytes " ") :: filterPieces lib trail ts

theorem AllParsed.filterReading (hlib : Lawful lib) {trail : Bytes} (hb : Blank trail) {ts : List (Term ν)}
    (h : AllParsed lib ts) : FilterReading lib (filterPieces lib trail ts) ts := by
  induction ts with
  | nil => exact .nil
  | cons t ts ih =>
    have ht := (h t (by simp)).reading hlib
    cases ts with
    | nil => exact .cons ht hb (fun _ => rfl) .nil
    | cons u ts =>
      exact .cons ht blank_space (fun h => absurd h (by decide)) (ih fun v hv => h v (List.mem_cons_of_mem _ hv))

theorem text_filterPieces (trail : Bytes) (ts : List (Term ν)) :
    text (filterPieces lib trail ts) = (bytes " ").intercalate (ts.map (print lib)) ++ if ts = [] then [] else trail := by
  induction ts with
  | nil => simp [filterPieces]
  | cons t ts ih =>
    cases ts with
    | nil => simp [filterPieces, print, Piece.text]
    | cons u ts =>
      have ih' : text (filterPieces lib trail (u :: ts)) =
          (bytes " ").intercalate (print lib u :: ts.map (print lib)) ++ trail := by simpa using ih
      rw [List.map_cons, List.map_cons, List.intercalate_cons_cons, filterPieces, text_append, text_cons, ih', Piece.text,
        if_neg (by simp)]
      · simp [print]
      · simp

theorem printAggregation_eq {as : List Agg} (hne : as ≠ []) (gs : List Bytes) :
    printAggregation as gs = bytes " " ++ pipe :: (bytes " " ++
      (printList (as.map printAgg) ++ if gs = [] then [] else bytes " by " ++ printList gs)) := by
  rw [printAggregation, if_neg hne, show bytes " | " = bytes " " ++ pipe :: bytes " " by decide]
  simp

/-- A query printed canonically is parsed as the query it was printed from. -/
theorem parse_printQuery (hlib : Lawful lib) {q : Bytes} {ast : AST ν} (h : parse lib q = .ok ast) :
    parse lib (printQuery lib ast) = .ok ast := by
  obtain ⟨ps, r, hq, hagg⟩ := parse_eq_ok.mp h
  have hts : AllParsed lib ast.filters := FilterReading.parsed hlib hq.filters
  rw [parse_eq_ok]
  obtain ⟨-, has, hgs⟩ | ⟨s, -, hs⟩ := hagg
  · refine ⟨filterPieces lib [] ast.filters, [], ⟨hts.filterReading hlib blank_nil, ⟨[], blank_nil, ?_⟩, by simp [AtPipe]⟩,
      Or.inl ⟨rfl, has, hgs⟩⟩
    rw [printQuery, printAggregation, if_pos has, text_filterPieces]
    simp
  · obtain ⟨hne, has, hgs⟩ := aggregation_parsed hs
    set body := printList (ast.agg.map printAgg) ++ if ast.groupBy = [] then [] else bytes " by " ++ printList ast.groupBy
      with hbody
    have hprint : printQuery lib ast = (bytes " ").intercalate (ast.filters.map (print lib)) ++
        (bytes " " ++ pipe :: (bytes " " ++ body)) := by
      rw [printQuery, printAggregation_eq hne]
    have hlen : (ast.agg.map printAgg).length ≤ (printList (ast.agg.map printAgg)).length :=
      length_printList (by simp [printAgg_ne_nil])
    have hlen' : ast.groupBy.length ≤ (printList ast.groupBy).length := length_printList fun g hg => (hgs g hg).ne_nil
    have hbig : body.length ≤ (printQuery lib ast).length := by
      rw [hprint]
      simp
      omega
    have hfuel : ast.agg.length ≤ (printQuery lib ast).length + 1 ∧ ast.groupBy.length ≤ (printQuery lib ast).length + 1 := by
      rw [List.length_map] at hlen
      rw [hbody, List.length_append] at hbig
      refine ⟨by omega, ?_⟩
      by_cases hg : ast.groupBy = []
      · simp [hg]
      · rw [if_neg hg, List.length_append] at hbig
        omega
    have hread : aggregation lib ((printQuery lib ast).length + 1) (space (bytes " " ++ body)) = .ok (ast.agg, ast.groupBy) := by
      rw [space_bytes]
      · exact aggregation_print hne has hgs hfuel.1 hfuel.2
      · exact printList_aggs_not_space hne has _
    refine ⟨filterPieces lib (bytes " ") ast.filters, pipe :: (bytes " " ++ body),
      ⟨hts.filterReading hlib blank_space, ?_, by simp [AtPipe]⟩, Or.inr ⟨_, rfl, hread⟩⟩
    rw [hprint, text_filterPieces]
    by_cases hf : ast.filters = []
    · exact ⟨bytes " ", blank_space, by simp [hf]⟩
    · exact ⟨[], blank_nil, by simp [hf]⟩

def isNumber (s : Bytes) : Bool := !s.isEmpty && s.all fun c => 48 ≤ c && c ≤ 57

/-- Numbers told by their digits. -/
abbrev Digits := { s : Bytes // isNumber s = true }

theorem isNumber_iff {s : Bytes} : isNumber s = true ↔ s ≠ [] ∧ ∀ c ∈ s, 48 ≤ c ∧ c ≤ 57 := by
  simp [isNumber]

/-- Letters are lower case, and quoted texts without escapes. -/
def digitLibrary : Library Digits where
  parseFloat s := if h : isNumber s = true then some ⟨s, h⟩ else none
  sprint x := x.1
  lowerRune := id
  quote s := dquote :: s ++ [dquote]

theorem digitLibrary_lawful : Lawful digitLibrary where
  parse_print x := dif_pos x.2
  print_bare x := by
    obtain ⟨hne, hdigits⟩ := isNumber_iff.mp x.2
    refine ⟨hne, fun c hc => ⟨?_, ?_⟩⟩
    · have h := hdigits c hc
      apply bareByte_of_identByte (b := false)
      simp only [identByte, decide_eq_true_eq]
      exact Or.inr (Or.inr (Or.inr ⟨trivial, Or.inl h⟩))
    · rintro rfl
      exact absurd (hdigits _ hc) (by decide)
  lower_lower _ := rfl

/-- A nested query: `level:warn -(service:"a \"b\"" OR (c trace.duration_ms:>250)) | p95(trace.duration_ms), count() by env`. -/
theorem parse_printQuery_nested :
    let ast : AST Digits :=
      { filters := [.facet (bytes "level") .eq (.str (bytes "warn")),
          .not (.op .or [.facet (bytes "service") .eq (.str (bytes "a \"b\"")),
            .op .and [.text (bytes "c"), .facet (bytes "trace.duration_ms") .gt (.num ⟨bytes "250", by decide +kernel⟩)]])],
        agg := [⟨bytes "p95", bytes "trace.duration_ms"⟩, ⟨bytes "count", []⟩],
        groupBy := [bytes "env"] }
    parse digitLibrary (printQuery digitLibrary ast) = .ok ast :=
  parse_printQuery digitLibrary_lawful (show parse digitLibrary (bytes
    "level:warn -(service:\"a \\\"b\\\"\" OR (c trace.duration_ms:>250)) | p95(trace.duration_ms), count() by env") = .ok _
    by decide +kernel)

end Upstat.PrintedQueries
