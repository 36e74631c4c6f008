import Mathlib.Data.Int.Notation
import Mathlib.Data.List.Basic

/-! # The query grammar (`query/internal/grammar/grammar.go`)

A query is bytes, as the parser reads them. A function of the parser gets what is left of the
query and gives back what it leaves, so that a position is told by what was left there. The
loops take fuel, which `parse` gives more of than any query needs. Left out of the AST are its
version, its step and the operator of the filters, which every parsed query has alike. -/
namespace Upstat.QueryGrammar

abbrev Bytes := List UInt8

/-- The UTF-8 bytes of characters. -/
def encode (s : List Char) : Bytes := s.flatMap String.utf8EncodeChar

def bytes (s : String) : Bytes := encode s.toList

abbrev minus : UInt8 := '-'.toUInt8
abbrev lparen : UInt8 := '('.toUInt8
abbrev rparen : UInt8 := ')'.toUInt8
abbrev dquote : UInt8 := '"'.toUInt8
abbrev backslash : UInt8 := '\\'.toUInt8
abbrev colon : UInt8 := ':'.toUInt8
abbrev pipe : UInt8 := '|'.toUInt8
abbrev comma : UInt8 := ','.toUInt8

/-- What the grammar uses of Go's library: numbers read from text (`strconv.ParseFloat`) and
printed (`fmt.Sprint`), the table of lower case letters (`unicode.ToLower`), and texts quoted
for messages (`%q`). -/
structure Library (ν : Type) where
  parseFloat : Bytes → Option ν
  sprint : ν → Bytes
  lowerRune : Char → Char
  quote : Bytes → Bytes

/-! ## Lower case -/

/-- The runes of a text, one for each byte that begins none. The number is how many bytes of the
last rune are still to be passed over. -/
def runesFrom : ℕ → Bytes → List Char
  | _, [] => []
  | k + 1, _ :: s => runesFrom k s
  | 0, c :: s =>
    match (c :: s).toByteArray.utf8DecodeChar? 0 with
    | some r => r :: runesFrom (r.utf8Size - 1) s
    | none => '\uFFFD' :: runesFrom 0 s

def runes (s : Bytes) : List Char := runesFrom 0 s

/-- `strings.ToLower` -/
def Library.toLower {ν : Type} (lib : Library ν) (s : Bytes) : Bytes := encode ((runes s).map lib.lowerRune)

/-! ## The AST -/

inductive Cmp where
  | eq | gt | gte | lt | lte
  deriving DecidableEq, Repr

inductive Op where
  | and | or
  deriving DecidableEq, Repr

inductive Value (ν : Type) where
  | str (s : Bytes)
  | num (x : ν)
  deriving DecidableEq

/-- One node of the filter tree. -/
inductive Term (ν : Type) where
  | facet (facet : Bytes) (cmp : Cmp) (value : Value ν)
  | op (op : Op) (terms : List (Term ν))
  | not (term : Term ν)
  | text (s : Bytes)

structure Agg where
  fn : Bytes
  field : Bytes
  deriving DecidableEq

structure AST (ν : Type) where
  filters : List (Term ν)
  agg : List Agg := []
  groupBy : List Bytes := []

section
variable {ν : Type} [DecidableEq ν]
mutual

def Term.decEq : (t u : Term ν) → Decidable (t = u)
  | .facet f c v, .facet f' c' v' => decidable_of_iff (f = f' ∧ c = c' ∧ v = v') (by simp)
  | .op o ts, .op o' us =>
    have := termsDecEq ts us
    decidable_of_iff (o = o' ∧ ts = us) (by simp)
  | .not t, .not u =>
    have := t.decEq u
    decidable_of_iff (t = u) (by simp)
  | .text s, .text s' => decidable_of_iff (s = s') (by simp)
  | .facet .., .op .. | .facet .., .not _ | .facet .., .text _ | .op .., .facet .. | .op .., .not _ | .op .., .text _
  | .not _, .facet .. | .not _, .op .. | .not _, .text _ | .text _, .facet .. | .text _, .op .. | .text _, .not _ =>
    isFalse (by simp)

def termsDecEq : (ts us : List (Term ν)) → Decidable (ts = us)
  | [], [] => isTrue rfl
  | t :: ts, u :: us =>
    have := t.decEq u
    have := termsDecEq ts us
    decidable_of_iff (t = u ∧ ts = us) (by simp)
  | [], _ :: _ | _ :: _, [] => isFalse (by simp)

end

instance : DecidableEq (Term ν) := Term.decEq
deriving instance DecidableEq for AST

/-- Results can be compared. -/
instance decEqExcept {ε α : Type} [DecidableEq ε] [DecidableEq α] : DecidableEq (Except ε α)
  | .ok a, .ok b => decidable_of_iff (a = b) (by simp)
  | .error a, .error b => decidable_of_iff (a = b) (by simp)
  | .ok _, .error _ | .error _, .ok _ => isFalse (by simp)

end

/-! ## Names -/

/-- The aggregations. -/
def functions : List Bytes := ["count", "rate", "sum", "avg", "min", "max", "p50", "p95", "p99", "uniq"].map bytes

def coreFacets : List Bytes :=
  ["service", "env", "host", "status", "level", "metric", "check", "region", "on", "name"].map bytes

def hasPrefix (s : Bytes) (t : String) : Bool := (bytes t).isPrefixOf s

/-- Facets that accept comparators. -/
def numericFacet (f : Bytes) : Bool :=
  f = bytes "trace.duration_ms" ∨ f = bytes "response_time_ms" ∨ f = bytes "status_code" ∨
    hasPrefix f "rum.vital." ∨ hasPrefix f "@" ∨ hasPrefix f "metric."

def knownFacet (f : Bytes) : Bool :=
  f ∈ coreFacets ∨ hasPrefix f "trace." ∨ hasPrefix f "rum." ∨ hasPrefix f "metric." ∨
    (hasPrefix f "@" ∧ 1 < f.length)

/-- The numeric fields of a signal that are no facets. -/
def fieldName (f : Bytes) : Bool := f = bytes "response_time_ms" ∨ f = bytes "value" ∨ f = bytes "visitor"

/-! ## Reading bytes -/

/-- `unicode.IsSpace` of a byte taken for a rune -/
def isSpace (c : UInt8) : Bool := (9 ≤ c ∧ c ≤ 13) ∨ c = 32 ∨ c = 0x85 ∨ c = 0xA0

def identByte (c : UInt8) (first : Bool) : Bool :=
  ('a'.toUInt8 ≤ c ∧ c ≤ 'z'.toUInt8) ∨ c = '@'.toUInt8 ∨ c = '_'.toUInt8 ∨
    (first = false ∧ (('0'.toUInt8 ≤ c ∧ c ≤ '9'.toUInt8) ∨ c = '.'.toUInt8 ∨ c = minus ∨
      ('A'.toUInt8 ≤ c ∧ c ≤ 'Z'.toUInt8)))

/-- The bytes of an unquoted word: up to whitespace, a paren, the pipe or a quote. -/
def bareByte (c : UInt8) : Bool := ¬(isSpace c ∨ c = lparen ∨ c = rparen ∨ c = pipe ∨ c = dquote)

/-- Why a query is not accepted: an error where `rest` was left. The other two never come:
a read past the end and fuel that ran out. -/
inductive Failure where
  | error (rest message hint : Bytes)
  | outOfRange
  | unfinished
  deriving DecidableEq

/-- The position an error tells of the query `q`. -/
def Failure.position (q : Bytes) : Failure → Option ℕ
  | .error rest _ _ => some (q.length - rest.length)
  | _ => none

abbrev Result := Except Failure

def fail {α : Type} (rest message : Bytes) (hint : String := "") : Result α :=
  .error (.error rest message (bytes hint))

def space (s : Bytes) : Bytes := s.dropWhile isSpace

/-- What the keyword `kw` leaves when it stands alone. -/
def word (kw : String) (s : Bytes) : Option Bytes :=
  if (bytes kw).isPrefixOf s then
    match s.drop (bytes kw).length with
    | [] => some []
    | c :: r => if ¬isSpace c ∧ c ≠ lparen ∧ c ≠ rparen then none else some (c :: r)
  else none

def ident : Bytes → Bytes × Bytes
  | [] => ([], [])
  | c :: s => if identByte c true then (c :: s.takeWhile (identByte · false), s.dropWhile (identByte · false)) else ([], c :: s)

def bare (s : Bytes) : Bytes × Bytes := (s.takeWhile bareByte, s.dropWhile bareByte)

/-- A quoted text past its first quote, and what its last one leaves. -/
def quotedBody : Bytes → Option (Bytes × Bytes)
  | [] => none
  | c :: s =>
    if c = backslash then
      match s with
      | [] => none
      | d :: s' => (quotedBody s').map fun r => (d :: r.1, r.2)
    else if c = dquote then some ([], s)
    else (quotedBody s).map fun r => (c :: r.1, r.2)

/-- `s` begins with a quote. -/
def quoted (s : Bytes) : Result (Bytes × Bytes) :=
  match quotedBody (s.drop 1) with
  | some r => .ok r
  | none => fail s (bytes "unterminated quote")

section
variable {ν : Type} (lib : Library ν)

/-- Whitespace, a closing paren or the end after a term. -/
def separator (s : Bytes) : Result Bytes :=
  match s with
  | [] => .ok []
  | c :: r =>
    if c = rparen then .ok (c :: r)
    else if ¬isSpace c ∧ c ≠ pipe then fail (c :: r) (bytes "unexpected " ++ lib.quote [c]) "separate terms with a space"
    else .ok (space (c :: r))

/-! ## Terms -/

def comparators : List (Bytes × Cmp) :=
  [(bytes ">=", .gte), (bytes "<=", .lte), (bytes ">", .gt), (bytes "<", .lt), (bytes "=", .eq)]

def comparator (s : Bytes) : Cmp × Bytes :=
  match comparators.find? fun o => o.1.isPrefixOf s with
  | some o => (o.2, s.drop o.1.length)
  | none => (.eq, s)

/-- The value after a facet and its comparator, and whether it was quoted. -/
def rawValue (s : Bytes) : Result ((Bytes × Bool) × Bytes) :=
  if s.head? = some dquote then
    match quoted s with
    | .ok (raw, r) => .ok ((raw, true), r)
    | .error e => .error e
  else .ok (((bare s).1, false), (bare s).2)

/-- `start` is where the facet's name begins, and `s` what follows its colon. -/
def facetValue (start facet s : Bytes) : Result (Term ν × Bytes) := do
  let (cmp, atValue) := comparator s
  let ((raw, isQuoted), r) ← rawValue atValue
  if raw = [] ∧ ¬isQuoted then fail atValue (bytes "value expected for " ++ facet)
  else if cmp ≠ .eq then
    if ¬numericFacet facet then fail start (bytes "numeric comparison on a string facet: " ++ facet)
    else
      match lib.parseFloat raw with
      | none => fail atValue (bytes "number expected after the comparator")
      | some n => .ok (.facet facet cmp (.num n), r)
  else
    let raw := if facet = bytes "level" then lib.toLower raw else raw
    let value := if numericFacet facet ∧ ¬isQuoted then (lib.parseFloat raw).elim (.str raw) .num else .str raw
    .ok (.facet facet .eq value, r)

/-- The terms of one branch of a group as one term. -/
def flush (s : Bytes) (branches seq : List (Term ν)) : Result (List (Term ν)) :=
  match seq with
  | [] => fail s (bytes "term expected")
  | [t] => .ok (branches ++ [t])
  | ts => .ok (branches ++ [.op .and ts])

/-- A group of its branches. -/
def collapse : List (Term ν) → Term ν
  | [t] => t
  | ts => .op .or ts

/-- A term that begins with none of the four special bytes. -/
def named (s : Bytes) : Result (Term ν × Bytes) :=
  let (name, r) := ident s
  if name ≠ [] ∧ r.head? = some colon then
    if ¬knownFacet name then
      fail s (bytes "unknown facet: " ++ name)
        "facets are service, env, host, status, level, metric, check, region, trace.*, rum.*, metric.* or @attribute"
    else facetValue lib s name (r.drop 1)
  else
    let (text, r) := bare s
    match s with
    | [] => .error .outOfRange
    | c :: _ =>
      if text = [] then fail s (bytes "unexpected " ++ lib.quote [c])
      else if colon ∈ text then fail s (bytes "facet names are lowercase: " ++ text)
      else .ok (.text text, r)

mutual

def term : ℕ → Bytes → Result (Term ν × Bytes)
  | 0, _ => .error .unfinished
  | _ + 1, [] => .error .outOfRange
  | fuel + 1, c :: s =>
    if c = minus then
      if s.head?.all isSpace then fail s (bytes "term expected after -")
      else do
        let (inner, r) ← term fuel s
        .ok (.not inner, r)
    else if c = lparen then group fuel (c :: s) [] [] (space s)
    else if c = rparen then fail (c :: s) (bytes "unexpected )")
    else if c = dquote then do
      let (text, r) ← quoted (c :: s)
      .ok (.text text, r)
    else named lib (c :: s)

/-- The loop of a group that begins at `start`, with the branches it has and the terms of the
branch it is in. -/
def group : ℕ → Bytes → List (Term ν) → List (Term ν) → Bytes → Result (Term ν × Bytes)
  | 0, _, _, _, _ => .error .unfinished
  | _ + 1, start, _, _, [] => fail start (bytes "unclosed (")
  | fuel + 1, start, branches, seq, c :: s =>
    if c = rparen then do
      let branches ← flush (c :: s) branches seq
      .ok (collapse branches, s)
    else
      match word "OR" (c :: s) with
      | some r => do
        let branches ← flush (c :: s) branches seq
        group fuel start branches [] (space r)
      | none => do
        let (t, r) ← term fuel (c :: s)
        let r ← separator lib r
        group fuel start branches (seq ++ [t]) r

end

/-! ## The whole query -/

/-- The terms up to the pipe or the end. -/
def filters : ℕ → List (Term ν) → Bytes → Result (List (Term ν) × Bytes)
  | 0, _, _ => .error .unfinished
  | _ + 1, terms, [] => .ok (terms, [])
  | fuel + 1, terms, c :: s =>
    if c = pipe then .ok (terms, c :: s)
    else do
      let (t, r) ← term lib (fuel + 1) (c :: s)
      let r ← separator lib r
      filters fuel (terms ++ [t]) r

def agg (s : Bytes) : Result (Agg × Bytes) :=
  let (fn, r) := ident s
  if fn = [] then fail r (bytes "aggregation expected") "for example count() or p95(trace.duration_ms)"
  else if fn ∉ functions then
    fail s (bytes "unknown function: " ++ fn) "count, rate, sum, avg, min, max, p50, p95, p99 or uniq"
  else if r.head? ≠ some lparen then fail r (bytes "( expected after " ++ fn)
  else
    let atField := space (r.drop 1)
    let (field, r) := ident atField
    let r := space r
    if r.head? ≠ some rparen then fail r (bytes ") expected")
    else if field ≠ [] ∧ ¬knownFacet field ∧ ¬fieldName field then fail atField (bytes "unknown field: " ++ field)
    else .ok (⟨fn, field⟩, r.drop 1)

/-- The aggregations, separated by commas, up to the first byte that is none. -/
def aggs : ℕ → List Agg → Bytes → Result (List Agg × Bytes)
  | 0, _, _ => .error .unfinished
  | fuel + 1, as, s => do
    let (a, r) ← agg s
    let r := space r
    if r.head? = some comma then aggs fuel (as ++ [a]) (space (r.drop 1)) else .ok (as ++ [a], r)

def groupList : ℕ → List Bytes → Bytes → Result (List Bytes × Bytes)
  | 0, _, _ => .error .unfinished
  | fuel + 1, gs, s =>
    let (f, r) := ident s
    if f = [] then fail s (bytes "facet expected after by")
    else
      let r := space r
      if r.head? = some comma then groupList fuel (gs ++ [f]) (space (r.drop 1)) else .ok (gs ++ [f], r)

/-- The grouping after `by`, if there is one. -/
def grouping (fuel : ℕ) (s : Bytes) : Result (List Bytes × Bytes) :=
  match word "by" s with
  | some r => groupList fuel [] (space r)
  | none => .ok ([], s)

/-- What follows the pipe. -/
def aggregation (fuel : ℕ) (s : Bytes) : Result (List Agg × List Bytes) :=
  if s = [] then fail s (bytes "aggregation expected after |") "for example count() or p95(trace.duration_ms)"
  else do
    let (as, r) ← aggs fuel [] s
    let (gs, r) ← grouping fuel r
    match space r with
    | [] => .ok (as, gs)
    | c :: r =>
      if c = pipe then fail (c :: r) (bytes "only one | segment allowed")
      else fail (c :: r) (bytes "unexpected " ++ lib.quote (c :: r)) "aggregations are separated by commas"

/-- `Parse` -/
def parse (q : Bytes) : Result (AST ν) := do
  let (terms, r) ← filters lib (2 * q.length + 1) [] (space q)
  match r with
  | [] => .ok { filters := terms }
  | _ :: r =>
    let (as, gs) ← aggregation lib (q.length + 1) (space r)
    .ok { filters := terms, agg := as, groupBy := gs }

end

/-! ## What needs the whole query -/

section
variable {ν : Type}

mutual

/-- Whether a term uses the facet, or one of the facets in it for `trace.` and `rum.`. -/
def Term.uses (facet : Bytes) : Term ν → Bool
  | .facet f _ _ =>
    f = facet ∨ (facet = bytes "trace." ∧ hasPrefix f "trace.") ∨ (facet = bytes "rum." ∧ hasPrefix f "rum.")
  | .op _ ts => anyUses facet ts
  | .not t => t.uses facet
  | .text _ => false

def anyUses (facet : Bytes) : List (Term ν) → Bool
  | [] => false
  | t :: ts => t.uses facet || anyUses facet ts

end

def hasFacet (ast : AST ν) (facet : Bytes) : Bool :=
  anyUses facet ast.filters ||
    ast.agg.any (fun a => a.field = facet ∨ (facet.isPrefixOf a.field ∧ (bytes ".").isSuffixOf facet)) ||
    ast.groupBy.any (fun g => facet.isPrefixOf g ∧ (bytes ".").isSuffixOf facet)

/-- `strings.Index` -/
def index (q sub : Bytes) : ℤ :=
  match (List.range (q.length + 1)).find? fun i => sub.isPrefixOf (q.drop i) with
  | some i => i
  | none => -1

structure Refusal where
  position : ℤ
  message : Bytes
  hint : Bytes
  deriving DecidableEq

/-- What is wrong with an aggregation, where `isMetric` tells whether the query is about a metric. -/
def refuse (isMetric : Bool) (q : Bytes) (a : Agg) : Option Refusal :=
  if a.fn ∈ ["sum", "avg", "min", "max", "p50", "p95", "p99"].map bytes then
    if a.field = [] ∧ ¬isMetric then
      some ⟨index q (a.fn ++ bytes "("), a.fn ++ bytes "() needs a field here",
        bytes "for example " ++ a.fn ++ bytes "(trace.duration_ms)"⟩
    else none
  else if a.fn = bytes "uniq" then
    if a.field = [] then some ⟨index q (bytes "uniq("), bytes "uniq() needs a field", []⟩ else none
  else none

/-- `Validate` -/
def validate (ast : AST ν) (q : Bytes) : Option Refusal :=
  ast.agg.findSome? (refuse (hasFacet ast (bytes "metric")) q)

end

end Upstat.QueryGrammar
