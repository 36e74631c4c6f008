import Mathlib.Tactic.Choose
import Upstat.TrimmedAggregations
import Upstat.WordTexts

/-! # The pills of the explorers (`controllers/explorer.ts`, `controllers/logs.ts`)

They work on the characters of a query, of which the grammar reads the bytes. A word of the filters that has a
colon past its first character becomes a pill, and the pills come first when the query is put together again. -/
namespace Upstat.QueryPills

open QueryGrammar GrammarReadings PrintedQueries EncodedTexts StrippedQueries DerivedQueries TrimmedAggregations WordTexts
open ClientAddresses (trim)

abbrev Text := List Char

/-- `\s` -/
abbrev isBlank (c : Char) : Bool := ClientAddresses.isSpace c

structure QueryFilter where
  facet : Text
  value : Text
  negated : Bool
  deriving DecidableEq

/-- What the explorers keep of a query. -/
structure PillQuery where
  pills : List QueryFilter
  text : Text

def pillFrom (negated : Bool) (term : Text) : Option QueryFilter :=
  let facet := term.takeWhile (· ≠ ':')
  if facet ≠ [] ∧ facet.length < term.length then some ⟨facet, term.drop (facet.length + 1), negated⟩ else none

/-- The pill that a word becomes, if it becomes one. -/
def pillOf (raw : Text) : Option QueryFilter := if raw.head? = some '-' then pillFrom true (raw.drop 1) else pillFrom false raw

def isPill (raw : Text) : Bool := (pillOf raw).isSome

def filterPart (q : Text) : Text := (q.splitOn '|').headD []

def aggParts (q : Text) : List Text := (q.splitOn '|').tail

def tail (q : Text) : Text := if aggParts q ≠ [] then '|' :: ' ' :: trim (join ['|'] (aggParts q)) else []

def splitQuery (q : Text) : PillQuery :=
  let ws := words isBlank (filterPart q)
  let rest := ws.filter fun w => !isPill w
  ⟨ws.filterMap pillOf, trim (join [' '] (nonempty [join [' '] rest, tail q]))⟩

def pillText (p : QueryFilter) : Text := (if p.negated then ['-'] else []) ++ (p.facet ++ ':' :: p.value)

def joinQuery (pills : List QueryFilter) (text : Text) : Text :=
  trim (join [' '] (nonempty [join [' '] (pills.map pillText), trim text]))

def PillQuery.query (s : PillQuery) : Text := joinQuery s.pills s.text

def PillQuery.has (s : PillQuery) (facet value : Text) : Bool := s.pills.any fun p => p.facet = facet ∧ p.value = value

def addPill (s : PillQuery) (facet value : Text) : PillQuery :=
  if s.has facet value then s else { s with pills := s.pills ++ [⟨facet, value, false⟩] }

/-- The query that a click in the logs submits. -/
def pivot (s : PillQuery) (facet value : Text) : Text := joinQuery (s.pills ++ [⟨facet, value, false⟩]) s.text

/-! ## Pills and words -/

theorem takeWhile_ne_colon {t : Text} (h : (t.takeWhile (· ≠ ':')).length < t.length) :
    t.takeWhile (· ≠ ':') ++ ':' :: t.drop ((t.takeWhile (· ≠ ':')).length + 1) = t := by
  induction t with
  | nil => simp at h
  | cons c t ih =>
    by_cases hc : c = ':'
    · simp [hc]
    · have htake : (c :: t).takeWhile (· ≠ ':') = c :: t.takeWhile (· ≠ ':') := by simp [hc]
      rw [htake, List.length_cons, List.length_cons] at h
      rw [htake, List.cons_append, List.length_cons, List.drop_succ_cons, ih (by omega)]

theorem pillFrom_text {negated : Bool} {t : Text} {p : QueryFilter} (h : pillFrom negated t = some p) :
    pillText p = (if negated then ['-'] else []) ++ t := by
  simp only [pillFrom] at h
  split at h
  · rename_i hcolon
    obtain rfl := Option.some.inj h
    simp only [pillText]
    rw [takeWhile_ne_colon hcolon.2]
  · cases h

/-- A pill is written as the word it was made of. -/
theorem pillText_pillOf {w : Text} {p : QueryFilter} (h : pillOf w = some p) : pillText p = w := by
  rw [pillOf] at h
  split at h
  · rename_i hminus
    cases w with
    | nil => cases hminus
    | cons c w =>
      obtain rfl : c = '-' := by simpa using hminus
      rw [pillFrom_text h]
      rfl
  · rw [pillFrom_text h]
    rfl

theorem map_pillText (ws : List Text) : (ws.filterMap pillOf).map pillText = ws.filter isPill := by
  induction ws with
  | nil => rfl
  | cons w ws ih =>
    cases hp : pillOf w with
    | none => rw [List.filterMap_cons_none hp, ih, List.filter_cons_of_neg (by simp [isPill, hp])]
    | some p => rw [List.filterMap_cons_some hp, List.map_cons, ih, List.filter_cons_of_pos (by simp [isPill, hp]), pillText_pillOf hp]

/-- The tail as the one text that it is, if it is one. -/
def tailParts (q : Text) : List Text := if aggParts q ≠ [] then [tail q] else []

theorem join_tailParts (q : Text) : join [' '] (tailParts q) = tail q := by
  rw [tailParts, tail]
  split
  · rw [join_singleton]
  · rfl

/-- A query is put together of its pills, of the other words and of its tail. -/
theorem joinQuery_eq {pills : List QueryFilter} {rest parts : List Text} (hp : ∀ p ∈ pills, Solid isBlank (pillText p))
    (hr : ∀ w ∈ rest, Solid isBlank w) (ht : ∀ w ∈ parts, Solid isBlank w) :
    joinQuery pills (trim (join [' '] (nonempty [join [' '] rest, join [' '] parts]))) =
      join [' '] (pills.map pillText ++ (rest ++ parts)) := by
  have hall : ∀ w ∈ rest ++ parts, Solid isBlank w := by
    intro w hw
    exact (List.mem_append.mp hw).elim (hr w) (ht w)
  have hmap : ∀ w ∈ pills.map pillText, Solid isBlank w := by
    intro w hw
    obtain ⟨p, hmem, rfl⟩ := List.mem_map.mp hw
    exact hp p hmem
  have htrim : ∀ {ws : List Text}, (∀ w ∈ ws, Solid isBlank w) → trim (join [' '] ws) = join [' '] ws := fun h => join_trim h
  rw [joinQuery, join_nonempty hr ht, htrim hall, htrim hall, join_nonempty hmap hall, htrim]
  intro w hw
  exact (List.mem_append.mp hw).elim (hmap w) (hall w)

/-! ## Terms put together -/

variable {ν : Type} {lib : Library ν}

theorem filterReading_append {ps qs : List Piece} {ts us : List (Term ν)} {sp : Bytes} (h : FilterReading lib ps ts) (hne : ts ≠ [])
    (hb : Blank sp) (hsp : sp ≠ []) (h' : FilterReading lib qs us) :
    ∃ rs, FilterReading lib rs (ts ++ us) ∧ text rs = text ps ++ (sp ++ text qs) := by
  induction h with
  | nil => exact absurd rfl hne
  | @cons ps rs sp' t ts h hb' hend hrest ih =>
    by_cases hts : ts = []
    · have hnil := (FilterReading.nil_iff hrest).mp hts
      refine ⟨ps ++ .space (sp' ++ sp) :: qs, ?_, by simp [Piece.text, hnil]⟩
      rw [hts]
      refine .cons h (blank_append hb' hb) ?_ h'
      intro he
      exact absurd (List.append_eq_nil_iff.mp he).2 hsp
    · obtain ⟨rs', hrs, he⟩ := ih hts
      refine ⟨ps ++ .space sp' :: rs', .cons h hb' ?_ hrs, by simp [he, Piece.text]⟩
      intro hnil
      obtain rfl := hend hnil
      exact absurd ((FilterReading.nil_iff hrest).mpr rfl) hts

/-- Two texts with blanks between them have the terms of both. -/
theorem reads_append {a b sp : Bytes} {ts us : List (Term ν)} (ha : Reads lib a ts) (hb : Reads lib b us) (hsp : Blank sp)
    (hne : sp ≠ []) : Reads lib (a ++ (sp ++ b)) (ts ++ us) := by
  obtain ⟨ps, h⟩ := ha
  obtain ⟨sp₁, hsp₁, rfl⟩ := h.text
  by_cases hts : ts = []
  · subst hts
    have hps := (FilterReading.nil_iff h.filters).mp rfl
    rw [hps, List.append_nil, List.append_nil, ← List.append_assoc]
    exact (reads_blank_append (blank_append hsp₁ hsp)).mpr hb
  · obtain ⟨qs, h'⟩ := hb
    obtain ⟨sp₂, hsp₂, rfl⟩ := h'.text
    have hne' : sp ++ sp₂ ≠ [] := by simp [hne]
    obtain ⟨rs, hrs, he⟩ := filterReading_append h.filters hts (blank_append hsp hsp₂) hne' h'.filters
    exact ⟨rs, hrs, ⟨sp₁, hsp₁, by simp [he]⟩, by simp [AtPipe]⟩

theorem reads_nil : Reads lib [] [] := ⟨[], .nil, ⟨[], blank_nil, rfl⟩, by simp [AtPipe]⟩

theorem Reads.eq_nil {ts : List (Term ν)} (h : Reads lib [] ts) : ts = [] := by
  obtain ⟨ps, h⟩ := h
  obtain ⟨ps', h'⟩ : Reads lib [] [] := reads_nil
  exact (QueryReading.unique h h').1

theorem blank_encode_space : Blank (encode [' ']) := by
  rw [show encode [' '] = bytes " " by decide]
  exact blank_space

/-- Texts that are joined have the terms of both. -/
theorem reads_join {xs ys : List Text} {ts us : List (Term ν)} (hx : Reads lib (encode (join [' '] xs)) ts)
    (hy : Reads lib (encode (join [' '] ys)) us) : Reads lib (encode (join [' '] (xs ++ ys))) (ts ++ us) := by
  by_cases hxs : xs = []
  · rw [hxs] at hx
    rw [hxs, Reads.eq_nil hx]
    exact hy
  by_cases hys : ys = []
  · rw [hys] at hy
    rw [hys, Reads.eq_nil hy, List.append_nil, List.append_nil]
    exact hx
  rw [join_append hxs hys, encode_append, encode_append]
  exact reads_append hx hy blank_encode_space (by decide)

theorem reads_pipe {a r : Bytes} {ts : List (Term ν)} (h : Reads lib a ts) (hr : AtPipe r) : ∃ ps, QueryReading lib (a ++ r) ps ts r := by
  obtain ⟨ps, h⟩ := h
  obtain ⟨sp, hsp, he⟩ := h.text
  exact ⟨ps, h.filters, ⟨sp, hsp, by rw [he, List.append_nil]⟩, hr⟩

/-! ## Portions of the filters -/

variable (lib) in
/-- A portion of the filters reads as these terms, also when its blanks are single spaces. -/
structure Portion (u : Text) (ts : List (Term ν)) : Prop where
  reads : Reads lib (encode u) ts
  squeezed : Reads lib (encode (join [' '] (words isBlank u))) ts

/-- A blank that the grammar knows too. -/
def Gap (c : Char) : Prop := isBlank c = true ∧ c.toNat < 128

/-- A text made of portions with blanks between them. -/
inductive Laid : List Text → Text → Prop
  | nil : Laid [] []
  | blank {us : List Text} {s : Text} (c : Char) : Gap c → Laid us s → Laid us (c :: s)
  | piece {us : List Text} {s : Text} (u : Text) : (∀ c ∈ s.head?, Gap c) → Laid us s → Laid (u :: us) (u ++ s)

variable (lib) in
def Portions (us : List Text) (q : Text) : Prop := Laid us (filterPart q) ∧ ∀ u ∈ us, ∃ ts, Portion lib u ts

variable (lib) in
/-- Portions that are only put in another order when the pills come first. -/
def Unbroken (q : Text) : Prop :=
  ∃ us us' : List Text, Portions lib us q ∧ us'.Perm us ∧ us'.flatMap (words isBlank) =
    (words isBlank (filterPart q)).filter isPill ++ (words isBlank (filterPart q)).filter fun w => !isPill w

variable (lib) in
/-- Portions of pills alone and portions without any. -/
def Apart (q : Text) : Prop :=
  ∃ us, Portions lib us q ∧ ∀ u ∈ us, (∀ w ∈ words isBlank u, isPill w = true) ∨ ∀ w ∈ words isBlank u, isPill w = false

theorem Gap.blank {c : Char} (h : Gap c) : Blank (encode [c]) := by
  apply blank_encode
  intro d hd
  obtain rfl := List.mem_singleton.mp hd
  exact h

theorem Laid.words {us : List Text} {s : Text} (h : Laid us s) : words isBlank s = us.flatMap (words isBlank) := by
  induction h with
  | nil => rfl
  | blank c hc _ ih => rw [words_cons_blank hc.1, ih]
  | piece u hs _ ih => rw [words_append (fun c hc => (hs c hc).1), ih, List.flatMap_cons]

theorem Laid.reads {us : List Text} {s : Text} (h : Laid us s) {f : Text → List (Term ν)} (hf : ∀ u ∈ us, Portion lib u (f u)) :
    Reads lib (encode s) (us.flatMap f) := by
  induction h with
  | nil => exact reads_nil
  | @blank us s c hc _ ih =>
    rw [← List.singleton_append, encode_append]
    exact (reads_blank_append hc.blank).mpr (ih hf)
  | @piece us s u hs _ ih =>
    have hu := (hf u List.mem_cons_self).reads
    have hrest := ih fun v hv => hf v (List.mem_cons_of_mem u hv)
    rw [List.flatMap_cons]
    cases s with
    | nil =>
      rw [Reads.eq_nil hrest, List.append_nil, List.append_nil]
      exact hu
    | cons c s =>
      have hc : Gap c := hs c rfl
      rw [← List.singleton_append (l := s), encode_append] at hrest
      rw [← List.singleton_append (l := s), encode_append, encode_append]
      refine reads_append hu ((reads_blank_append hc.blank).mp hrest) hc.blank ?_
      rw [encode_cons_ascii hc.2]
      simp

theorem reads_portions {us : List Text} {f : Text → List (Term ν)} (hf : ∀ u ∈ us, Portion lib u (f u)) :
    Reads lib (encode (join [' '] (us.flatMap (words isBlank)))) (us.flatMap f) := by
  induction us with
  | nil => exact reads_nil
  | cons u us ih =>
    rw [List.flatMap_cons, List.flatMap_cons]
    exact reads_join (hf u List.mem_cons_self).squeezed (ih fun v hv => hf v (List.mem_cons_of_mem u hv))

/-- The portions whose words become pills. -/
def ofPills (u : Text) : Bool := (words isBlank u).all isPill

theorem flatMap_ofPills {us : List Text}
    (h : ∀ u ∈ us, (∀ w ∈ words isBlank u, isPill w = true) ∨ ∀ w ∈ words isBlank u, isPill w = false) :
    (us.filter ofPills).flatMap (words isBlank) = (us.flatMap (words isBlank)).filter isPill ∧
      (us.filter fun u => !ofPills u).flatMap (words isBlank) = (us.flatMap (words isBlank)).filter fun w => !isPill w := by
  induction us with
  | nil => exact ⟨rfl, rfl⟩
  | cons u us ih =>
    obtain ⟨hpills, hrest⟩ := ih fun v hv => h v (List.mem_cons_of_mem u hv)
    rw [List.flatMap_cons, List.filter_append, List.filter_append, ← hpills, ← hrest]
    by_cases hu : ofPills u = true
    · have hall : ∀ w ∈ words isBlank u, isPill w = true := List.all_eq_true.mp hu
      have hkept : (words isBlank u).filter isPill = words isBlank u := List.filter_eq_self.mpr hall
      have hnone : (words isBlank u).filter (fun w => !isPill w) = [] := by
        rw [List.filter_eq_nil_iff]
        intro w hw
        simp [hall w hw]
      rw [List.filter_cons_of_pos hu, List.filter_cons_of_neg (by simp [hu]), hkept, hnone, List.flatMap_cons]
      exact ⟨rfl, rfl⟩
    · have hno : ∀ w ∈ words isBlank u, isPill w = false := by
        rcases h u List.mem_cons_self with hall | hno
        · exact absurd (List.all_eq_true.mpr hall) hu
        · exact hno
      have hkept : (words isBlank u).filter (fun w => !isPill w) = words isBlank u := by
        rw [List.filter_eq_self]
        intro w hw
        simp [hno w hw]
      have hnone : (words isBlank u).filter isPill = [] := by
        rw [List.filter_eq_nil_iff]
        intro w hw
        simp [hno w hw]
      rw [List.filter_cons_of_neg hu, List.filter_cons_of_pos (by simpa using hu), hkept, hnone, List.flatMap_cons]
      exact ⟨rfl, rfl⟩

theorem Apart.unbroken {q : Text} (h : Apart lib q) : Unbroken lib q := by
  obtain ⟨us, hus, hpure⟩ := h
  obtain ⟨hpills, hrest⟩ := flatMap_ofPills hpure
  refine ⟨us, us.filter ofPills ++ us.filter fun u => !ofPills u, hus, List.filter_append_perm ofPills us, ?_⟩
  rw [List.flatMap_append, hpills, hrest, hus.1.words]

/-! ## The query put together again -/

theorem filterPart_append (q : Text) : q = filterPart q ∧ aggParts q = [] ∨
    q = filterPart q ++ '|' :: join ['|'] (aggParts q) ∧ aggParts q ≠ [] := by
  have hq : ['|'].intercalate (q.splitOn '|') = q := List.intercalate_splitOn '|'
  obtain ⟨p, ps, hps⟩ := List.exists_cons_of_ne_nil (List.splitOn_ne_nil '|' q)
  rw [filterPart, aggParts, hps]
  rw [hps] at hq
  by_cases hnil : ps = []
  · left
    rw [hnil, List.intercalate_singleton] at hq
    exact ⟨hq.symm, hnil⟩
  · right
    rw [List.intercalate_cons_of_ne_nil hnil] at hq
    refine ⟨?_, hnil⟩
    rw [← hq]
    simp [join]

/-- Other words before a query's tail give its aggregation to their terms. -/
theorem parse_joined {q : Text} {ast : AST ν} (h : parse lib (encode q) = .ok ast) {ts us : List (Term ν)} {ws : List Text}
    (hq : Reads lib (encode (filterPart q)) ts) (hw : Reads lib (encode (join [' '] ws)) us) :
    ts = ast.filters ∧ (∀ w ∈ tailParts q, Solid isBlank w) ∧
      parse lib (encode (join [' '] (ws ++ tailParts q))) = .ok ⟨us, ast.agg, ast.groupBy⟩ := by
  obtain ⟨ps, r, hread, hagg⟩ := parse_eq_ok.mp h
  rcases filterPart_append q with ⟨he, hnil⟩ | ⟨he, hne⟩
  · rw [← he] at hq
    obtain ⟨ps', hq⟩ := hq
    obtain ⟨hts, rfl, -⟩ := QueryReading.unique hread hq
    have hparts : tailParts q = [] := by rw [tailParts, if_neg (not_not.mpr hnil)]
    obtain ⟨-, ha, hg⟩ : ([] : Bytes) = [] ∧ ast.agg = [] ∧ ast.groupBy = [] := by
      rcases hagg with hnone | ⟨s, hs, -⟩
      · exact hnone
      · cases hs
    refine ⟨hts.symm, by simp [hparts], ?_⟩
    obtain ⟨ps'', hw⟩ := hw
    rw [hparts, List.append_nil]
    exact parse_eq_ok.mpr ⟨ps'', [], hw, Or.inl ⟨rfl, ha, hg⟩⟩
  · have hpipe : encode ('|' :: join ['|'] (aggParts q)) = pipe :: encode (join ['|'] (aggParts q)) := encode_cons_ascii (by decide) _
    obtain ⟨ps', hq'⟩ := reads_pipe hq (r := pipe :: encode (join ['|'] (aggParts q))) (by simp [AtPipe])
    rw [← hpipe, ← encode_append, ← he] at hq'
    obtain ⟨hts, rfl, -⟩ := QueryReading.unique hread hq'
    rcases hagg with ⟨hnil, -⟩ | ⟨s, hs, hagg⟩
    · rw [hpipe] at hnil
      cases hnil
    rw [hpipe] at hs
    obtain rfl := (List.cons.inj hs).2
    obtain ⟨hne', hspace, haggs⟩ := aggregation_trim hagg
    have htail : tail q = '|' :: ' ' :: trim (join ['|'] (aggParts q)) := by rw [tail, if_pos hne]
    have hparts : tailParts q = [tail q] := by rw [tailParts, if_pos hne]
    have hsolid : Solid isBlank (tail q) := by
      obtain ⟨-, -, -, -, -, -, hlast⟩ := trim_split (join ['|'] (aggParts q))
      rw [htail]
      refine ⟨List.cons_ne_nil _ _, ?_, ?_⟩
      · intro c hc
        obtain rfl := Option.some.inj hc
        decide
      · intro c hc
        rw [List.getLast?_cons, List.getLast?_cons, List.getLast?_eq_some_getLast hne'] at hc
        rw [List.getLast?_eq_some_getLast hne'] at hlast
        exact hlast c hc
    refine ⟨hts.symm, by simpa [hparts] using hsolid, ?_⟩
    have hbytes : encode (tail q) = pipe :: 32 :: encode (trim (join ['|'] (aggParts q))) := by
      rw [htail, encode_cons_ascii (by decide), encode_cons_ascii (by decide)]
      rfl
    obtain ⟨x, hx, hjoin⟩ : ∃ x, Reads lib x us ∧ encode (join [' '] (ws ++ tailParts q)) = x ++ encode (tail q) := by
      rw [hparts]
      by_cases hws : ws = []
      · rw [hws] at hw ⊢
        refine ⟨[], hw, ?_⟩
        rw [List.nil_append, join_singleton, List.nil_append]
      · refine ⟨encode (join [' '] ws) ++ encode [' '], (reads_append_blank blank_encode_space).mpr hw, ?_⟩
        rw [join_append hws (by simp), join_singleton, encode_append, encode_append, List.append_assoc]
    obtain ⟨ps'', hx⟩ := reads_pipe hx (r := encode (tail q)) (by rw [hbytes]; simp [AtPipe])
    rw [← hjoin, hbytes] at hx
    refine parse_eq_ok.mpr ⟨ps'', _, hx, Or.inr ⟨_, rfl, ?_⟩⟩
    have hskip : space (32 :: encode (trim (join ['|'] (aggParts q)))) = encode (trim (join ['|'] (aggParts q))) := by
      rw [← hspace]
      conv_lhs => rw [hspace]
      rfl
    rw [hskip]
    apply haggs
    rw [hjoin, hbytes]
    simp only [List.length_append, List.length_cons]
    omega

/-- The same terms in some order with the same aggregation. -/
structure Alike (ast ast' : AST ν) : Prop where
  filters : ast'.filters.Perm ast.filters
  agg : ast'.agg = ast.agg
  groupBy : ast'.groupBy = ast.groupBy

theorem solid_words (s : Text) : ∀ w ∈ words isBlank s, Solid isBlank w := fun _ hw => (isWord_of_mem hw).solid

theorem splitQuery_text (q : Text) : (splitQuery q).text =
    trim (join [' '] (nonempty [join [' '] ((words isBlank (filterPart q)).filter fun w => !isPill w), join [' '] (tailParts q)])) := by
  rw [join_tailParts]
  rfl

theorem splitQuery_pills (q : Text) : (splitQuery q).pills.map pillText = (words isBlank (filterPart q)).filter isPill :=
  map_pillText _

theorem solid_pill {q : Text} {p : QueryFilter} (h : p ∈ (splitQuery q).pills) : Solid isBlank (pillText p) := by
  have hmem : pillText p ∈ (words isBlank (filterPart q)).filter isPill := by
    rw [← splitQuery_pills]
    exact List.mem_map_of_mem h
  exact solid_words _ _ (List.mem_filter.mp hmem).1

theorem query_alike {q : Text} {ast : AST ν} (h : parse lib (encode q) = .ok ast) (hq : Unbroken lib q) :
    ∃ ast', parse lib (encode (splitQuery q).query) = .ok ast' ∧ Alike ast ast' := by
  obtain ⟨us, us', ⟨hlaid, hportions⟩, hperm, hwords⟩ := hq
  choose! f hf using hportions
  have hf' : ∀ u ∈ us', Portion lib u (f u) := fun u hu => hf u (hperm.mem_iff.mp hu)
  have hjoined := reads_portions hf'
  rw [hwords] at hjoined
  obtain ⟨hts, hsolid, hparse⟩ := parse_joined h (hlaid.reads hf) hjoined
  have hquery : (splitQuery q).query = join [' '] ((words isBlank (filterPart q)).filter isPill ++
      ((words isBlank (filterPart q)).filter fun w => !isPill w) ++ tailParts q) := by
    rw [PillQuery.query, splitQuery_text, joinQuery_eq (fun p hp => solid_pill hp), splitQuery_pills, List.append_assoc]
    · intro w hw
      exact solid_words _ w (List.mem_filter.mp hw).1
    · exact hsolid
  rw [hquery]
  refine ⟨_, hparse, ?_, rfl, rfl⟩
  rw [← hts]
  exact hperm.flatMap_right f

/-! ## A pill added -/

variable (lib) in
/-- The term that says a facet has a value, as the grammar has such terms. -/
def equals (facet value : Text) : Term ν :=
  let raw := if encode facet = bytes "level" then lib.toLower (encode value) else encode value
  .facet (encode facet) .eq (if numericFacet (encode facet) then (lib.parseFloat raw).elim (.str raw) .num else .str raw)

/-- A facet of the grammar with a value that is one of its unquoted words and begins like no comparator. -/
structure Pickable (facet value : Text) : Prop where
  name : IsIdent (encode facet)
  known : knownFacet (encode facet) = true
  ne_nil : value ≠ []
  bare : ∀ c ∈ encode value, bareByte c = true
  plain : value.head? ≠ some '>' ∧ value.head? ≠ some '<' ∧ value.head? ≠ some '='
  last : ∀ c ∈ value.getLast?, isBlank c = false

theorem Pickable.reads {facet value : Text} (h : Pickable facet value) :
    Reads lib (encode (pillText ⟨facet, value, false⟩)) [equals lib facet value] := by
  have hbytes : encode (pillText ⟨facet, value, false⟩) = encode facet ++ colon :: encode value := by
    simp only [pillText, Bool.false_eq_true, if_false, List.nil_append]
    rw [encode_append, encode_cons_ascii (by decide)]
  obtain ⟨c, v, hv⟩ := List.exists_cons_of_ne_nil h.ne_nil
  obtain ⟨d, w, hw⟩ : ∃ d w, encode value = d :: w := by
    obtain ⟨d, w, hd⟩ := utf8EncodeChar_cons c
    exact ⟨d, w ++ encode v, by rw [hv, encode_cons, hd, List.cons_append]⟩
  have hcomp : ∀ {e : Char}, e.toNat < 128 → value.head? ≠ some e → d ≠ e.toUInt8 := by
    rintro e he hne rfl
    apply hne
    rw [← head?_encode he, hw]
    rfl
  have hlast : ∀ c ∈ (colon :: encode value).getLast?, isSpace c = false := by
    intro c hc
    have hmem := List.mem_of_mem_getLast? hc
    rcases List.mem_cons.mp hmem with rfl | hmem
    · decide
    · exact not_space_of_bareByte (h.bare c hmem)
  have hterm : valueTerm lib (encode facet) .eq (encode value) false = some (equals lib facet value) := by
    rw [valueTerm, if_neg (by simp [hw]), if_neg (by simp)]
    simp [equals]
  have hatom : Atomic lib (encode facet ++ colon :: encode value) (equals lib facet value) := by
    refine atomic_facet h.name h.known hlast fun start rest hrest => facetValue_eq_ok.mpr ?_
    have hcmp : comparator (encode value ++ rest) = (.eq, encode value ++ rest) := by
      rw [hw, List.cons_append, comparator_cons, if_neg (hcomp (by decide) h.plain.1), if_neg (hcomp (by decide) h.plain.2.1),
        if_neg (hcomp (by decide) h.plain.2.2)]
    have hquote : (encode value ++ rest).head? ≠ some dquote := by
      rw [hw, List.cons_append, List.head?_cons]
      intro hd
      have hbare := h.bare d (by rw [hw]; exact List.mem_cons_self)
      rw [Option.some.inj hd] at hbare
      revert hbare
      decide
    rw [hcmp]
    refine ⟨encode value, false, ?_, hterm⟩
    rw [rawValue, if_neg hquote, bare_append h.bare hrest]
  rw [hbytes]
  refine ⟨[.leaf (encode facet ++ colon :: encode value)] ++ [.space []], .cons (.leaf hatom) blank_nil (fun _ => rfl) .nil,
    ⟨[], blank_nil, by simp [Piece.text]⟩, by simp [AtPipe]⟩

theorem Pickable.solid {facet value : Text} (h : Pickable facet value) : Solid isBlank (pillText ⟨facet, value, false⟩) := by
  have htext : pillText ⟨facet, value, false⟩ = facet ++ ':' :: value := rfl
  rw [htext]
  refine ⟨by simp, ?_, ?_⟩
  · intro c hc
    cases facet with
    | nil => exact absurd h.name id
    | cons e facet =>
      obtain rfl : e = c := Option.some.inj hc
      by_cases hascii : e.toNat < 128
      · have hname := h.name
        rw [encode_cons_ascii hascii] at hname
        rw [isBlank, ← isSpace_toUInt8 hascii]
        exact identByte_not_space hname.1
      · obtain ⟨d, s, hd⟩ := utf8EncodeChar_cons e
        have hname := h.name
        rw [encode_cons, hd, List.cons_append] at hname
        have hodd : Odd d := by
          have hspace := utf8EncodeChar_head (Nat.le_of_not_lt hascii) d (by rw [hd]; rfl)
          have hrange := utf8EncodeChar_not_ascii (Nat.le_of_not_lt hascii) d (by rw [hd]; exact List.mem_cons_self)
          exact ⟨hspace, Or.inr hrange⟩
        have hident := hname.1
        rw [hodd.not_ident] at hident
        cases hident
  · intro c hc
    rw [List.getLast?_append_of_ne_nil _ (List.cons_ne_nil _ _), List.getLast?_cons, List.getLast?_eq_some_getLast h.ne_nil] at hc
    apply h.last
    rw [List.getLast?_eq_some_getLast h.ne_nil]
    exact hc

theorem pivot_alike {q : Text} {ast : AST ν} (h : parse lib (encode q) = .ok ast) (hq : Apart lib q) {facet value : Text}
    (hv : Pickable facet value) : ∃ ast', parse lib (encode (pivot (splitQuery q) facet value)) = .ok ast' ∧
      Alike { ast with filters := ast.filters ++ [equals lib facet value] } ast' := by
  obtain ⟨us, ⟨hlaid, hportions⟩, hpure⟩ := hq
  choose! f hf using hportions
  obtain ⟨hpills, hrest⟩ := flatMap_ofPills hpure
  have hkept : ∀ (keep : Text → Bool), ∀ u ∈ us.filter keep, Portion lib u (f u) := fun _ u hu => hf u (List.mem_filter.mp hu).1
  have hfst := reads_portions (hkept ofPills)
  have hsnd := reads_portions (hkept fun u => !ofPills u)
  rw [hpills, ← hlaid.words] at hfst
  rw [hrest, ← hlaid.words] at hsnd
  have hnew : Reads lib (encode (join [' '] [pillText ⟨facet, value, false⟩])) [equals lib facet value] := by
    rw [join_singleton]
    exact hv.reads
  obtain ⟨hts, hsolid, hparse⟩ := parse_joined h (hlaid.reads hf) (reads_join (reads_join hfst hnew) hsnd)
  have hpivot : pivot (splitQuery q) facet value = join [' '] ((words isBlank (filterPart q)).filter isPill ++
      [pillText ⟨facet, value, false⟩] ++ ((words isBlank (filterPart q)).filter fun w => !isPill w) ++ tailParts q) := by
    rw [pivot, splitQuery_text, joinQuery_eq, List.map_append, splitQuery_pills, List.map_singleton, List.append_assoc, List.append_assoc,
      List.append_assoc]
    · intro p hp
      rcases List.mem_append.mp hp with hp | hp
      · exact solid_pill hp
      · rw [List.mem_singleton.mp hp]
        exact hv.solid
    · intro w hw
      exact solid_words _ w (List.mem_filter.mp hw).1
    · exact hsolid
  rw [hpivot]
  refine ⟨_, hparse, ?_, rfl, rfl⟩
  have hperm := (List.filter_append_perm ofPills us).flatMap_right f
  rw [List.flatMap_append] at hperm
  rw [← hts, List.append_assoc]
  exact (List.perm_append_comm_assoc _ _ _).trans (List.perm_append_comm.trans (List.Perm.append_right _ hperm))

theorem addPill_means {q : Text} {ast : AST ν} (h : parse lib (encode q) = .ok ast) (hq : Apart lib q) {facet value : Text}
    (hv : Pickable facet value) (hhas : (splitQuery q).has facet value = true → equals lib facet value ∈ ast.filters) :
    ∃ ast', parse lib (encode (addPill (splitQuery q) facet value).query) = .ok ast' ∧ ast'.agg = ast.agg ∧
      ast'.groupBy = ast.groupBy ∧ ∀ t, t ∈ ast'.filters ↔ t ∈ ast.filters ∨ t = equals lib facet value := by
  by_cases hpill : (splitQuery q).has facet value = true
  · obtain ⟨ast', hparse, hlike⟩ := query_alike h hq.unbroken
    rw [addPill, if_pos hpill]
    refine ⟨ast', hparse, hlike.agg, hlike.groupBy, fun t => ?_⟩
    rw [hlike.filters.mem_iff]
    constructor
    · intro ht
      exact Or.inl ht
    · rintro (ht | rfl)
      · exact ht
      · exact hhas hpill
  · obtain ⟨ast', hparse, hlike⟩ := pivot_alike h hq hv
    rw [addPill, if_neg hpill]
    refine ⟨ast', hparse, hlike.agg, hlike.groupBy, fun t => ?_⟩
    rw [hlike.filters.mem_iff, List.mem_append, List.mem_singleton]

theorem apart_crash : Apart digitLibrary "service:web crash | count()".toList := by
  have hgap : Gap ' ' := by
    constructor <;> decide
  have hlaid : Laid ["service:web".toList, "crash".toList] "service:web crash ".toList := by
    refine .piece "service:web".toList ?_ (.blank ' ' hgap (.piece "crash".toList ?_ (.blank ' ' hgap .nil)))
    · intro c hc
      obtain rfl := Option.some.inj hc
      exact hgap
    · intro c hc
      obtain rfl := Option.some.inj hc
      exact hgap
  have hportion : ∀ u : Text, join [' '] (words isBlank u) = u → ∀ ast : AST Digits, parse digitLibrary (encode u) = .ok ast →
      ast.agg = [] → ∃ ts, Portion digitLibrary u ts := by
    intro u hu ast hparse hagg
    have hreads := (reads_iff hparse).mpr hagg
    exact ⟨ast.filters, hreads, by rwa [hu]⟩
  refine ⟨["service:web".toList, "crash".toList], ⟨?_, ?_⟩, ?_⟩
  · have hfilter : filterPart "service:web crash | count()".toList = "service:web crash ".toList := by decide
    rw [hfilter]
    exact hlaid
  · intro u hu
    simp only [List.mem_cons, List.not_mem_nil, or_false] at hu
    rcases hu with rfl | rfl
    · exact hportion _ (by decide) { filters := [.facet (bytes "service") .eq (.str (bytes "web"))] } (by decide +kernel) rfl
    · exact hportion _ (by decide) { filters := [.text (bytes "crash")] } (by decide +kernel) rfl
  · intro u hu
    simp only [List.mem_cons, List.not_mem_nil, or_false] at hu
    rcases hu with rfl | rfl
    · left
      decide
    · right
      decide

end Upstat.QueryPills
