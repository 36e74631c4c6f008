import Mathlib.Algebra.Order.Ring.Int
import Mathlib.Data.List.Basic
import Mathlib.Data.List.Perm.Basic
import Mathlib.Logic.Function.Basic
import Upstat.GuardedRuns

/-! # Queries in flight and their kept results (`query/internal/handler/handler.go`)

The requests for `query` of one instance, each cut where it waits for a lock or for ClickHouse, over
the gate and the cache that they share. What ClickHouse answers is an input. Times are nanoseconds. -/
namespace Upstat.ResultCache

open GuardedRuns

def perOrg : ℕ := 4
def minute : ℤ := 60 * 1000000000
def cacheTTL : ℤ := minute
def maxEntries : ℕ := 2000

structure QueryRequest where
  q : String
  from_ : String
  to_ : String
  step : String
  signal : String
  deriving DecidableEq

/-! ## The key of a result -/

def hex4 (n : ℕ) : List Char := [Nat.digitChar (n / 4096 % 16), Nat.digitChar (n / 256 % 16), Nat.digitChar (n / 16 % 16), Nat.digitChar (n % 16)]

/-- The characters that `encoding/json` writes by their code. -/
def coded (c : Char) : Bool :=
  c.toNat < 32 ∨ c = '<' ∨ c = '>' ∨ c = '&' ∨ c.toNat = 0x2028 ∨ c.toNat = 0x2029

/-- The letter that a character is written by after a backslash. -/
def short (c : Char) : Option Char :=
  if c = '"' then some '"'
  else if c = '\\' then some '\\'
  else if c = '\x08' then some 'b'
  else if c = '\x0c' then some 'f'
  else if c = '\n' then some 'n'
  else if c = '\r' then some 'r'
  else if c = '\t' then some 't'
  else none

def escaped (c : Char) : List Char :=
  match short c with
  | some d => ['\\', d]
  | none => if coded c then '\\' :: 'u' :: hex4 c.toNat else [c]

/-- A text up to its closing quote, and what comes after it. -/
def quoted (s : List Char) (rest : List Char) : List Char := s.flatMap escaped ++ '"' :: rest

/-- `json.Marshal` -/
def marshal (req : QueryRequest) : List Char :=
  "\x7b\"q\":\"".toList ++ quoted req.q.toList (",\"from\":\"".toList ++ quoted req.from_.toList (",\"to\":\"".toList ++
    quoted req.to_.toList (",\"step\":\"".toList ++ quoted req.step.toList (",\"signal\":\"".toList ++ quoted req.signal.toList ['}']))))

/-- What is hashed to the key of a result. -/
def keyText (orgId : String) (req : QueryRequest) : List Char := orgId.toList ++ '|' :: marshal req

theorem digitChar_inj : ∀ a < 16, ∀ b < 16, Nat.digitChar a = Nat.digitChar b → a = b := by decide

theorem hex4_inj {m n : ℕ} (hm : m < 65536) (hn : n < 65536) (h : hex4 m = hex4 n) : m = n := by
  simp only [hex4, List.cons.injEq, and_true] at h
  obtain ⟨h₁, h₂, h₃, h₄⟩ := h
  have e₁ := digitChar_inj _ (Nat.mod_lt _ (by decide)) _ (Nat.mod_lt _ (by decide)) h₁
  have e₂ := digitChar_inj _ (Nat.mod_lt _ (by decide)) _ (Nat.mod_lt _ (by decide)) h₂
  have e₃ := digitChar_inj _ (Nat.mod_lt _ (by decide)) _ (Nat.mod_lt _ (by decide)) h₃
  have e₄ := digitChar_inj _ (Nat.mod_lt _ (by decide)) _ (Nat.mod_lt _ (by decide)) h₄
  omega

theorem coded_lt {c : Char} (h : coded c = true) : c.toNat < 65536 := by
  simp only [coded, decide_eq_true_eq] at h
  rcases h with h | rfl | rfl | rfl | h | h
  · omega
  · decide
  · decide
  · decide
  · omega
  · omega

/-- The character that a letter stands for. -/
def long (d : Char) : Char :=
  if d = 'b' then '\x08'
  else if d = 'f' then '\x0c'
  else if d = 'n' then '\n'
  else if d = 'r' then '\r'
  else if d = 't' then '\t'
  else d

theorem long_short {c d : Char} (h : short c = some d) : long d = c := by
  unfold short at h
  split_ifs at h with hc hc hc hc hc hc hc
  all_goals
    subst hc
    rw [← Option.some.inj h]
    rfl

theorem short_inj {c d e : Char} (hc : short c = some e) (hd : short d = some e) : c = d := (long_short hc).symm.trans (long_short hd)

theorem short_ne_u {c : Char} : short c ≠ some 'u' := by
  unfold short
  split_ifs <;> decide

/-- A character that stands for itself is no quote and no backslash. -/
theorem plain_ne {c : Char} (h : short c = none) : c ≠ '"' ∧ c ≠ '\\' := by
  constructor <;> rintro rfl <;> simp [short] at h

theorem escaped_short {c d : Char} (h : short c = some d) : escaped c = ['\\', d] := by simp [escaped, h]

theorem escaped_coded {c : Char} (h : short c = none) (hc : coded c = true) : escaped c = '\\' :: 'u' :: hex4 c.toNat := by
  simp [escaped, h, hc]

theorem escaped_plain {c : Char} (h : short c = none) (hc : coded c = false) : escaped c = [c] := by simp [escaped, h, hc]

/-- How a character is written. -/
theorem escaped_cases (c : Char) : (∃ d, short c = some d ∧ escaped c = ['\\', d]) ∨
    (c.toNat < 65536 ∧ escaped c = '\\' :: 'u' :: hex4 c.toNat) ∨ (c ≠ '"' ∧ c ≠ '\\' ∧ escaped c = [c]) := by
  rcases hs : short c with - | d
  · by_cases hc : coded c = true
    · exact .inr (.inl ⟨coded_lt hc, escaped_coded hs hc⟩)
    · exact .inr (.inr ⟨(plain_ne hs).1, (plain_ne hs).2, escaped_plain hs (by simpa using hc)⟩)
  · exact .inl ⟨d, rfl, escaped_short hs⟩

/-- What is written of a character tells it. -/
theorem escaped_append_inj {c d : Char} {r r' : List Char} (h : escaped c ++ r = escaped d ++ r') : c = d ∧ r = r' := by
  rcases escaped_cases c with ⟨a, ha, hc⟩ | ⟨hlt, hc⟩ | ⟨hq, hb, hc⟩ <;> rcases escaped_cases d with ⟨b, hb', hd⟩ | ⟨hlt', hd⟩ | ⟨hq', hb', hd⟩ <;>
    rw [hc, hd] at h
  · obtain ⟨rfl, rfl⟩ : a = b ∧ r = r' := by simpa using h
    exact ⟨short_inj ha hb', rfl⟩
  · obtain ⟨rfl, -⟩ : a = 'u' ∧ r = hex4 d.toNat ++ r' := by simpa using h
    exact absurd ha short_ne_u
  · simp only [List.cons_append, List.nil_append, List.cons.injEq] at h
    exact absurd h.1.symm hb'
  · obtain ⟨rfl, -⟩ : b = 'u' ∧ r' = hex4 c.toNat ++ r := by simpa [eq_comm] using h
    exact absurd hb' short_ne_u
  · simp only [List.cons_append, List.cons.injEq, true_and] at h
    have hlen : (hex4 c.toNat).length = (hex4 d.toNat).length := rfl
    obtain ⟨hhex, hrest⟩ := List.append_inj h hlen
    exact ⟨Char.toNat_inj.mp (hex4_inj hlt hlt' hhex), hrest⟩
  · simp only [List.cons_append, List.nil_append, List.cons.injEq] at h
    exact absurd h.1.symm hb'
  · simp only [List.cons_append, List.nil_append, List.cons.injEq] at h
    exact absurd h.1 hb
  · simp only [List.cons_append, List.nil_append, List.cons.injEq] at h
    exact absurd h.1 hb
  · obtain ⟨rfl, rfl⟩ : c = d ∧ r = r' := by simpa using h
    exact ⟨rfl, rfl⟩

theorem escaped_head {c : Char} {r t : List Char} : escaped c ++ r ≠ '"' :: t := by
  rcases escaped_cases c with ⟨a, -, hc⟩ | ⟨-, hc⟩ | ⟨hq, -, hc⟩ <;> rw [hc]
  · simp
  · simp
  · simp [hq]

theorem quoted_cons (c : Char) (s rest : List Char) : quoted (c :: s) rest = escaped c ++ quoted s rest := by simp [quoted]

/-- A quoted text ends where it says. -/
theorem quoted_inj {s s' r r' : List Char} (h : quoted s r = quoted s' r') : s = s' ∧ r = r' := by
  induction s generalizing s' with
  | nil =>
    rcases s' with - | ⟨d, s'⟩
    · exact ⟨rfl, by simpa [quoted] using h⟩
    · rw [quoted_cons] at h
      exact absurd h.symm escaped_head
  | cons c s ih =>
    rcases s' with - | ⟨d, s'⟩
    · rw [quoted_cons] at h
      exact absurd h escaped_head
    · rw [quoted_cons, quoted_cons] at h
      obtain ⟨rfl, hrest⟩ := escaped_append_inj h
      obtain ⟨rfl, rfl⟩ := ih hrest
      exact ⟨rfl, rfl⟩

theorem digitChar_ne_bar : ∀ a < 16, Nat.digitChar a ≠ '|' := by decide

theorem short_ne_bar {c : Char} : short c ≠ some '|' := by
  unfold short
  split_ifs <;> decide

/-- Only a bar is written with a bar. -/
theorem bar_mem_escaped {c : Char} (h : '|' ∈ escaped c) : escaped c = ['|'] := by
  rcases escaped_cases c with ⟨d, hd, hc⟩ | ⟨-, hc⟩ | ⟨-, -, hc⟩ <;> rw [hc] at h ⊢
  · obtain rfl : '|' = d := by simpa using h
    exact absurd hd short_ne_bar
  · simp only [hex4, List.mem_cons, List.not_mem_nil, or_false] at h
    have hlt (n : ℕ) : n % 16 < 16 := Nat.mod_lt _ (by decide)
    rcases h with h | h | h | h | h | h
    · exact absurd h (by decide)
    · exact absurd h (by decide)
    all_goals exact absurd h.symm (digitChar_ne_bar _ (hlt _))
  · obtain rfl : '|' = c := by simpa using h
    rfl

/-- A bar in a quoted text is one of its characters, or comes after it. -/
theorem quoted_bar {s r a b : List Char} (h : quoted s r = a ++ '|' :: b) : (∃ s', b = quoted s' r) ∨ ∃ a', r = a' ++ '|' :: b := by
  induction s generalizing a with
  | nil =>
    rcases a with - | ⟨c, a⟩
    · simp [quoted] at h
    · exact .inr ⟨a, by simpa [quoted] using (List.cons.inj h).2⟩
  | cons c s ih =>
    rw [quoted_cons] at h
    rcases List.append_eq_append_iff.mp h with ⟨a', -, hrest⟩ | ⟨m, hescaped, hrest⟩
    · exact ih hrest
    · rcases m with - | ⟨d, m⟩
      · have hnone : quoted s r = [] ++ '|' :: b := by simpa using hrest.symm
        exact ih hnone
      · obtain ⟨rfl, rfl⟩ := List.cons.inj hrest
        have hbar := bar_mem_escaped (c := c) (by simp [hescaped])
        rw [hbar] at hescaped
        rcases a with - | ⟨e, a⟩
        · obtain rfl : m = [] := by simpa using hescaped
          exact .inl ⟨s, rfl⟩
        · simp at hescaped

theorem marshal_head (req : QueryRequest) : ∃ t, marshal req = escaped '\x7b' ++ '"' :: 'q' :: t := ⟨_, rfl⟩

/-- A quoted text that is followed by no letter holds no request after a bar. -/
theorem no_request_within {s r a : List Char} {req : QueryRequest} (h : quoted s r = a ++ '|' :: marshal req) (hr : ∀ t, r ≠ 'q' :: t) :
    ∃ a', r = a' ++ '|' :: marshal req := by
  rcases quoted_bar h with ⟨s', hs'⟩ | hafter
  · exfalso
    -- The request begins with a brace and a quote, which would end the text.
    rcases s' with - | ⟨c, s'⟩
    · have hhead : some '\x7b' = some '"' := congrArg List.head? hs'
      exact absurd hhead (by decide)
    · obtain ⟨t, ht⟩ := marshal_head req
      rw [ht, quoted_cons] at hs'
      obtain ⟨-, hrest⟩ := escaped_append_inj hs'
      rcases s' with - | ⟨d, s'⟩
      · simp only [quoted, List.flatMap_nil, List.nil_append] at hrest
        exact hr _ (List.cons.inj hrest).2.symm
      · rw [quoted_cons] at hrest
        exact escaped_head hrest.symm
  · exact hafter

theorem after_literal {l r a b : List Char} (hl : '|' ∉ l) (h : l ++ r = a ++ '|' :: b) : ∃ a', r = a' ++ '|' :: b := by
  rcases List.append_eq_append_iff.mp h with ⟨a', -, hrest⟩ | ⟨m, hm, hrest⟩
  · exact ⟨a', hrest⟩
  · rcases m with - | ⟨c, m⟩
    · exact ⟨[], hrest.symm⟩
    · obtain ⟨rfl, -⟩ := List.cons.inj hrest
      exact absurd (by simp [hm]) hl

/-- A request's text is in no other's after a bar. -/
theorem marshal_bar {req req' : QueryRequest} {a : List Char} : marshal req' ≠ a ++ '|' :: marshal req := by
  intro h
  obtain ⟨_, hq⟩ := after_literal (by decide) h
  obtain ⟨_, hfrom⟩ := no_request_within hq (by simp)
  obtain ⟨_, hfrom⟩ := after_literal (by decide) hfrom
  obtain ⟨_, hto⟩ := no_request_within hfrom (by simp)
  obtain ⟨_, hto⟩ := after_literal (by decide) hto
  obtain ⟨_, hstep⟩ := no_request_within hto (by simp)
  obtain ⟨_, hstep⟩ := after_literal (by decide) hstep
  obtain ⟨_, hsignal⟩ := no_request_within hstep (by simp)
  obtain ⟨_, hsignal⟩ := after_literal (by decide) hsignal
  obtain ⟨b, hend⟩ := no_request_within hsignal (by simp)
  have hbar : '|' ∈ ['}'] := by simp [hend]
  simp at hbar

theorem marshal_inj {req req' : QueryRequest} (h : marshal req = marshal req') : req = req' := by
  obtain ⟨hq, h⟩ := quoted_inj (List.append_cancel_left h)
  obtain ⟨hfrom, h⟩ := quoted_inj (List.append_cancel_left h)
  obtain ⟨hto, h⟩ := quoted_inj (List.append_cancel_left h)
  obtain ⟨hstep, h⟩ := quoted_inj (List.append_cancel_left h)
  obtain ⟨hsignal, -⟩ := quoted_inj (List.append_cancel_left h)
  rw [String.toList_inj] at hq hfrom hto hstep hsignal
  cases req
  cases req'
  simp_all

/-- Keys of different orgs or requests have different texts. -/
theorem keyText_inj {org org' : String} {req req' : QueryRequest} (h : keyText org req = keyText org' req') : org = org' ∧ req = req' := by
  have hafter {a : List Char} {r r' : QueryRequest} (hkey : '|' :: marshal r = a ++ '|' :: marshal r') : a = [] := by
    rcases a with - | ⟨c, a⟩
    · rfl
    · exact absurd (List.cons.inj hkey).2 marshal_bar
  rcases List.append_eq_append_iff.mp h with ⟨a, horg, hrest⟩ | ⟨a, horg, hrest⟩
  · obtain rfl := hafter hrest
    exact ⟨String.toList_inj.mp (by simpa using horg.symm), marshal_inj (List.cons.inj hrest).2⟩
  · obtain rfl := hafter hrest
    exact ⟨String.toList_inj.mp (by simpa using horg), (marshal_inj (List.cons.inj hrest).2).symm⟩

/-! ## Requests -/

inductive Phase (K : Type) where
  | entered
  /-- It waits for ClickHouse since a time, with the key to keep the answer by. -/
  | asking (key : Option K) (since : ℤ)
  | answered

structure Request (K : Type) where
  org : String
  req : QueryRequest
  phase : Phase K

structure Cached (B : Type) where
  at_ : ℤ
  body : B

/-- An answer that was kept, with when it was asked for. -/
structure Kept (B : Type) where
  org : String
  req : QueryRequest
  asked : ℤ
  at_ : ℤ
  body : B

/-- An answer from the cache. -/
structure Served (B : Type) where
  org : String
  req : QueryRequest
  at_ : ℤ
  body : B

structure State (K B : Type) where
  running : List (Request K)
  /-- The counts of the gate. -/
  n : String → ℕ
  entries : List (K × Cached B)
  kept : List (Kept B)
  served : List (Served B)

inductive Event (B : Type) where
  | arrive (org : String) (req : QueryRequest)
  | look (i : ℕ) (now : ℤ)
  /-- `Query` returns, with a body or an error. -/
  | answer (i : ℕ) (now : ℤ) (result : Option B)
  /-- The request ends, wherever it has come to. -/
  | leave (i : ℕ)

def empty {K B : Type} : State K B := ⟨[], fun _ => 0, [], [], []⟩

section
variable {K B : Type} [DecidableEq K] (parse : String → Option ℤ) (sum : List Char → K)

def get (entries : List (K × Cached B)) (key : K) (now : ℤ) : Option (Cached B) :=
  ((entries.find? (·.1 = key)).map Prod.snd).filter fun c => now - c.at_ ≤ cacheTTL

def put (entries : List (K × Cached B)) (key : K) (c : Cached B) : List (K × Cached B) :=
  let entries := if maxEntries < entries.length then [] else entries
  (key, c) :: entries.filter (·.1 ≠ key)

def State.goTo (s : State K B) (i : ℕ) (r : Request K) (p : Phase K) : State K B :=
  { s with running := s.running.set i { r with phase := p } }

/-- The key of a request whose range ended over a minute ago. -/
def keyOf (r : Request K) (now : ℤ) : Option K :=
  match parse r.req.to_ with
  | some to_ => if minute < now - to_ then some (sum (keyText r.org r.req)) else none
  | none => none

def look (s : State K B) (i : ℕ) (r : Request K) (now : ℤ) : State K B :=
  match keyOf parse sum r now with
  | none => s.goTo i r (.asking none now)
  | some key =>
    match get s.entries key now with
    | some c => { s.goTo i r .answered with served := ⟨r.org, r.req, now, c.body⟩ :: s.served }
    | none => s.goTo i r (.asking (some key) now)

def answer (s : State K B) (i : ℕ) (r : Request K) (key : Option K) (since now : ℤ) (result : Option B) : State K B :=
  match key, result with
  | some key, some body =>
    { s.goTo i r .answered with entries := put s.entries key ⟨now, body⟩, kept := ⟨r.org, r.req, since, now, body⟩ :: s.kept }
  | none, _ | some _, none => s.goTo i r .answered

def step (s : State K B) : Event B → State K B
  | .arrive org req =>
    if perOrg ≤ s.n org then s
    else { s with running := ⟨org, req, .entered⟩ :: s.running, n := Function.update s.n org (s.n org + 1) }
  | .look i now =>
    match s.running[i]? with
    | some ⟨org, req, .entered⟩ => look parse sum s i ⟨org, req, .entered⟩ now
    | some ⟨_, _, .asking _ _⟩ | some ⟨_, _, .answered⟩ | none => s
  | .answer i now result =>
    match s.running[i]? with
    | some ⟨org, req, .asking key since⟩ => answer s i ⟨org, req, .asking key since⟩ key since now result
    | some ⟨_, _, .entered⟩ | some ⟨_, _, .answered⟩ | none => s
  | .leave i =>
    match s.running[i]? with
    | some r => { s with running := s.running.eraseIdx i, n := Function.update s.n r.org (s.n r.org - 1) }
    | none => s

/-! ## The gate -/

def inFlight (s : State K B) (org : String) : ℕ := (s.running.map Request.org).count org

/-- The gate counts the requests in flight. -/
def Counts (s : State K B) : Prop := ∀ org, s.n org = inFlight s org ∧ inFlight s org ≤ perOrg

variable {parse : String → Option ℤ} {sum : List Char → K} {s s' : State K B} {i : ℕ} {r : Request K}

omit [DecidableEq K] in
theorem goTo_orgs (hr : s.running[i]? = some r) (p : Phase K) : (s.goTo i r p).running.map Request.org = s.running.map Request.org := by
  have horg : (s.running.map Request.org)[i]? = some r.org := by simp [hr]
  obtain ⟨hlt, hget⟩ := List.getElem?_eq_some_iff.mp horg
  rw [State.goTo, List.map_set, ← hget, List.set_getElem_self]

omit [DecidableEq K] in
theorem Counts.of_orgs (hs : Counts s) (hrunning : s'.running.map Request.org = s.running.map Request.org) (hn : s'.n = s.n) :
    Counts s' := by
  intro org
  rw [hn, inFlight, hrunning]
  exact hs org

omit [DecidableEq K] in
theorem inFlight_eraseIdx (hr : s.running[i]? = some r) (org : String) :
    inFlight s org = ((s.running.eraseIdx i).map Request.org).count org + if r.org = org then 1 else 0 := by
  obtain ⟨hlt, rfl⟩ := List.getElem?_eq_some_iff.mp hr
  have hperm := (List.getElem_cons_eraseIdx_perm hlt).map Request.org
  rw [inFlight, ← hperm.count_eq, List.map_cons, List.count_cons]
  simp

theorem look_running (hr : s.running[i]? = some r) (now : ℤ) :
    (look parse sum s i r now).running.map Request.org = s.running.map Request.org ∧ (look parse sum s i r now).n = s.n := by
  unfold look
  split
  · exact ⟨goTo_orgs hr _, rfl⟩
  · split
    · exact ⟨goTo_orgs hr _, rfl⟩
    · exact ⟨goTo_orgs hr _, rfl⟩

theorem answer_running (hr : s.running[i]? = some r) (key : Option K) (since now : ℤ) (result : Option B) :
    (answer s i r key since now result).running.map Request.org = s.running.map Request.org ∧ (answer s i r key since now result).n = s.n := by
  unfold answer
  split <;> exact ⟨goTo_orgs hr _, rfl⟩

theorem Counts.step (hs : Counts s) (e : Event B) : Counts (step parse sum s e) := by
  cases e with
  | arrive org req =>
    simp only [ResultCache.step]
    split_ifs with hfull
    · exact hs
    · intro other
      obtain ⟨hn, hle⟩ := hs other
      by_cases horg : org = other
      · subst horg
        simp only [inFlight, List.map_cons, List.count_cons, Function.update_self] at hn hle ⊢
        simp only [BEq.rfl, if_true]
        omega
      · simpa [inFlight, horg, Function.update_of_ne (Ne.symm horg)] using ⟨hn, hle⟩
  | look i now =>
    simp only [ResultCache.step]
    split
    · rename_i org req hr
      exact hs.of_orgs (look_running hr now).1 (look_running hr now).2
    all_goals exact hs
  | answer i now result =>
    simp only [ResultCache.step]
    split
    · rename_i org req key since hr
      exact hs.of_orgs (answer_running hr key since now result).1 (answer_running hr key since now result).2
    all_goals exact hs
  | leave i =>
    simp only [ResultCache.step]
    split
    · rename_i r hr
      intro other
      obtain ⟨hn, hle⟩ := hs other
      rw [inFlight_eraseIdx hr other] at hn hle
      by_cases horg : r.org = other
      · subst horg
        simp only [if_true] at hn hle
        simp only [inFlight, Function.update_self]
        omega
      · rw [if_neg horg, Nat.add_zero] at hn hle
        simpa [inFlight, Function.update_of_ne (Ne.symm horg)] using ⟨hn, hle⟩
    · exact hs

/-! ## The cache -/

/-- The range of a request ended over a minute before it was asked. -/
def Settled (parse : String → Option ℤ) (req : QueryRequest) (asked : ℤ) : Prop := ∃ to_, parse req.to_ = some to_ ∧ minute < asked - to_

structure Inv (parse : String → Option ℤ) (sum : List Char → K) (s : State K B) : Prop where
  asking : ∀ r ∈ s.running, ∀ key since, r.phase = .asking (some key) since → key = sum (keyText r.org r.req) ∧ Settled parse r.req since
  entries : ∀ e ∈ s.entries, ∃ k ∈ s.kept, e.1 = sum (keyText k.org k.req) ∧ e.2.at_ = k.at_ ∧ e.2.body = k.body
  kept : ∀ k ∈ s.kept, Settled parse k.req k.asked
  served : ∀ a ∈ s.served, ∃ k ∈ s.kept, k.org = a.org ∧ k.req = a.req ∧ k.body = a.body ∧ a.at_ - k.at_ ≤ cacheTTL

theorem get_some {entries : List (K × Cached B)} {key : K} {now : ℤ} {c : Cached B} (h : get entries key now = some c) :
    (key, c) ∈ entries ∧ now - c.at_ ≤ cacheTTL := by
  obtain ⟨hfound, htime⟩ := Option.filter_eq_some_iff.mp h
  obtain ⟨⟨k, c'⟩, hfind, rfl⟩ := Option.map_eq_some_iff.mp hfound
  obtain rfl : k = key := by simpa using List.find?_some hfind
  exact ⟨List.mem_of_find?_eq_some hfind, by simpa using htime⟩

theorem mem_put {entries : List (K × Cached B)} {key : K} {c : Cached B} {e : K × Cached B} (h : e ∈ put entries key c) :
    e = (key, c) ∨ e ∈ entries := by
  simp only [put] at h
  rcases List.mem_cons.mp h with rfl | h
  · exact .inl rfl
  · have hmem := List.mem_of_mem_filter h
    split_ifs at hmem
    · cases hmem
    · exact .inr hmem

omit [DecidableEq K] in
theorem keyOf_some {now : ℤ} {key : K} (h : keyOf parse sum r now = some key) : key = sum (keyText r.org r.req) ∧ Settled parse r.req now := by
  unfold keyOf at h
  split at h
  · rename_i to_ hto
    split_ifs at h with hlate
    exact ⟨(Option.some.inj h).symm, to_, hto, hlate⟩
  · cases h

omit [DecidableEq K] in
/-- A request that goes on leaves the others' keys as they are. -/
theorem Inv.asking_goTo (hs : Inv parse sum s) {p : Phase K}
    (hp : ∀ key since, p = .asking (some key) since → key = sum (keyText r.org r.req) ∧ Settled parse r.req since) :
    ∀ r' ∈ (s.goTo i r p).running, ∀ key since, r'.phase = .asking (some key) since →
      key = sum (keyText r'.org r'.req) ∧ Settled parse r'.req since := by
  intro r' hr'
  rcases List.mem_or_eq_of_mem_set hr' with hmem | rfl
  · exact hs.asking r' hmem
  · exact hp

theorem Inv.look (hs : Inv parse sum s) (hsum : Function.Injective sum) (now : ℤ) : Inv parse sum (look parse sum s i r now) := by
  unfold ResultCache.look
  split
  · exact ⟨hs.asking_goTo (by simp), hs.entries, hs.kept, hs.served⟩
  · rename_i key hkey
    obtain ⟨rfl, hsettled⟩ := keyOf_some hkey
    split
    · rename_i c hget
      obtain ⟨hmem, hfresh⟩ := get_some hget
      refine ⟨hs.asking_goTo (by simp), hs.entries, hs.kept, fun a ha => ?_⟩
      rcases List.mem_cons.mp ha with rfl | ha
      · obtain ⟨k, hk, hkey, hat, hbody⟩ := hs.entries _ hmem
        obtain ⟨horg, hreq⟩ := keyText_inj (hsum hkey)
        exact ⟨k, hk, horg.symm, hreq.symm, hbody.symm, hat ▸ hfresh⟩
      · exact hs.served a ha
    · refine ⟨hs.asking_goTo fun key since hp => ?_, hs.entries, hs.kept, hs.served⟩
      obtain ⟨hkey, rfl⟩ := Phase.asking.inj hp
      exact ⟨(Option.some.inj hkey).symm, hsettled⟩

theorem Inv.answer (hs : Inv parse sum s) {key : Option K} {since : ℤ}
    (hasking : ∀ k, key = some k → k = sum (keyText r.org r.req) ∧ Settled parse r.req since) (now : ℤ) (result : Option B) :
    Inv parse sum (answer s i r key since now result) := by
  unfold ResultCache.answer
  split
  · rename_i key body
    obtain ⟨rfl, hsettled⟩ := hasking key rfl
    refine ⟨hs.asking_goTo (by simp), fun e he => ?_, fun k hk => ?_, fun a ha => ?_⟩
    · rcases mem_put he with rfl | he
      · exact ⟨_, List.mem_cons_self .., rfl, rfl, rfl⟩
      · obtain ⟨k, hk, hrest⟩ := hs.entries e he
        exact ⟨k, List.mem_cons_of_mem _ hk, hrest⟩
    · rcases List.mem_cons.mp hk with rfl | hk
      · exact hsettled
      · exact hs.kept k hk
    · obtain ⟨k, hk, hrest⟩ := hs.served a ha
      exact ⟨k, List.mem_cons_of_mem _ hk, hrest⟩
  all_goals exact ⟨hs.asking_goTo (by simp), hs.entries, hs.kept, hs.served⟩

theorem Inv.step (hs : Inv parse sum s) (hsum : Function.Injective sum) (e : Event B) : Inv parse sum (step parse sum s e) := by
  cases e with
  | arrive org req =>
    simp only [ResultCache.step]
    split_ifs
    · exact hs
    · refine ⟨fun r hr key since hp => ?_, hs.entries, hs.kept, hs.served⟩
      rcases List.mem_cons.mp hr with rfl | hr
      · cases hp
      · exact hs.asking r hr key since hp
  | look i now =>
    simp only [ResultCache.step]
    split
    · exact hs.look hsum now
    all_goals exact hs
  | answer i now result =>
    simp only [ResultCache.step]
    split
    · rename_i org req key since hr
      refine hs.answer (fun k hk => ?_) now result
      exact hs.asking _ (List.mem_of_getElem? hr) k since (by rw [hk])
    all_goals exact hs
  | leave i =>
    simp only [ResultCache.step]
    split
    · exact ⟨fun r hr => hs.asking r (List.mem_of_mem_eraseIdx hr), hs.entries, hs.kept, hs.served⟩
    · exact hs

theorem run_inv (hs : Inv parse sum s ∧ Counts s) (hsum : Function.Injective sum) (es : List (Event B)) :
    Inv parse sum (run (ResultCache.step parse sum) s es) ∧ Counts (run (ResultCache.step parse sum) s es) := by
  induction es generalizing s with
  | nil => exact hs
  | cons e es ih => exact ih ⟨hs.1.step hsum e, hs.2.step e⟩

end

/-- However requests interleave and end: at most four of an org are in flight, one is turned away only
while four of its own org are, and an answer from the cache is one that the same request of the same
org had at most a minute before, of a range that had ended a minute before it was asked. -/
theorem served_own {K B : Type} [DecidableEq K] (parse : String → Option ℤ) {sum : List Char → K} (hsum : Function.Injective sum)
    (es : List (Event B)) : let s := run (step parse sum) empty es
    (∀ org, inFlight s org ≤ perOrg ∧ (s.n org < perOrg ↔ inFlight s org < perOrg)) ∧
      ∀ a ∈ s.served, ∃ k ∈ s.kept, k.org = a.org ∧ k.req = a.req ∧ k.body = a.body ∧ a.at_ - k.at_ ≤ cacheTTL ∧
        ∃ to_, parse k.req.to_ = some to_ ∧ minute < k.asked - to_ := by
  have hempty : Inv parse sum (empty : State K B) := ⟨by simp [empty], by simp [empty], by simp [empty], by simp [empty]⟩
  obtain ⟨hinv, hcounts⟩ := run_inv ⟨hempty, fun org => by simp [empty, inFlight]⟩ hsum es
  refine ⟨fun org => ?_, fun a ha => ?_⟩
  · obtain ⟨hn, hle⟩ := hcounts org
    exact ⟨hle, by rw [hn]⟩
  · obtain ⟨k, hk, horg, hreq, hbody, hfresh⟩ := hinv.served a ha
    exact ⟨k, hk, horg, hreq, hbody, hfresh, hinv.kept k hk⟩

/-- Whole seconds, and texts as their own keys. -/
def someRun : List (Event String) :=
  let req : QueryRequest := ⟨"count() by service", "0", "60", "", ""⟩
  [.arrive "acme" req, .look 0 (180 * 1000000000), .answer 0 (181 * 1000000000) (some "rows"), .leave 0, .arrive "acme" req,
    .arrive "globex" req, .look 1 (200 * 1000000000), .look 0 (200 * 1000000000)]

def wholeSeconds (s : String) : Option ℤ :=
  if s.toList.all Char.isDigit then some ((s.toList.foldl (fun n c => 10 * n + (c.toNat - 48)) 0 : ℕ) * 1000000000) else none

theorem someRun_served : let s := run (step wholeSeconds id) empty someRun
    s.served.length = 1 ∧ ∀ a ∈ s.served, ∃ k ∈ s.kept, k.org = a.org ∧ k.req = a.req ∧ k.body = a.body ∧ a.at_ - k.at_ ≤ cacheTTL := by
  refine ⟨by decide +kernel, fun a ha => ?_⟩
  obtain ⟨k, hk, horg, hreq, hbody, hfresh, -⟩ := (served_own wholeSeconds Function.injective_id someRun).2 a ha
  exact ⟨k, hk, horg, hreq, hbody, hfresh⟩

end Upstat.ResultCache
