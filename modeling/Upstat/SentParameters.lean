import Upstat.BuiltQueries
import Upstat.CompiledFilters
import Upstat.EscapedTexts
import Upstat.QueryValues

/-! # Query parameters on their way to ClickHouse

The client writes each parameter of a compiled query into the URL. The server reads the URL, and what it finds there as
an escaped text. -/
namespace Upstat.SentParameters

open QueryGrammar ConditionTexts QueryCompiler BuiltQueries CompiledFilters EscapedTexts QueryValues

/-! ## The client -/

structure Client where
  /-- The query of the URL that the client is made with. -/
  query : Values
  maxExecution : ℤ

/-- `"p" + strconv.Itoa(n)` -/
def paramName (n : ℕ) : Bytes := bytes "p" ++ decimal n

def inQuery (name : Bytes) : Bytes := bytes "param_" ++ name

def Client.settings (c : Client) (orgID : Bytes) : List (Bytes × Bytes) :=
  [(bytes "default_format", bytes "JSONEachRow"), (bytes "output_format_json_quote_64bit_integers", bytes "0"),
    (bytes "output_format_json_quote_64bit_floats", bytes "0"), (bytes "max_execution_time", decimal c.maxExecution),
    (bytes "max_memory_usage", decimal 2147483648), (bytes "max_result_rows", bytes "200000"),
    (bytes "result_overflow_mode", bytes "break")] ++
  if orgID ≠ [] then [(bytes "SQL_upstat_org", orgID)] else []

/-- The query of the URL that `Rows` posts to. `params` is the map in the order in which it's gone through. -/
def Client.rawQuery (c : Client) (orgID : Bytes) (params : List (Bytes × Bytes)) : List ℕ :=
  ((c.query.setAll (params.map fun p => (inQuery p.1, p.2))).setAll (c.settings orgID)).encode

/-! ## The server -/

/-- The value of a placeholder of type `String`. -/
def serverValue (E : Escapes) (rawQuery : List ℕ) (name : Bytes) : Option Bytes := (valueOf rawQuery (inQuery name)).bind E.read

theorem inQuery_injective : Function.Injective inQuery := fun _ _ h => List.append_cancel_left h

theorem inQuery_not_setting (c : Client) (orgID name : Bytes) : inQuery name ∉ (c.settings orgID).map Prod.fst := by
  intro h
  obtain ⟨p, hp, hname⟩ := List.mem_map.mp h
  have hfirst : p.1.take 6 = bytes "param_" := by
    rw [hname]
    rfl
  have hnone : ∀ q ∈ c.settings orgID, q.1.take 6 ≠ bytes "param_" := by
    unfold Client.settings
    simp only [List.forall_mem_append, List.forall_mem_cons]
    refine ⟨by decide +kernel, ?_⟩
    split_ifs
    · simp only [List.forall_mem_cons]
      decide +kernel
    · simp
  exact hnone p hp hfirst

/-- What the server reads as an escaped text is the value that the client was given. -/
theorem serverValue_rawQuery (E : Escapes) (c : Client) (orgID : Bytes) {params : List (Bytes × Bytes)}
    (hnames : (params.map Prod.fst).Nodup) {p : Bytes × Bytes} (hp : p ∈ params) :
    serverValue E (c.rawQuery orgID params) p.1 = E.read p.2 := by
  have hsent : ((params.map fun p => (inQuery p.1, p.2)).map Prod.fst).Nodup := by
    rw [List.map_map]
    have := hnames.map inQuery_injective
    rwa [List.map_map] at this
  have hunder : ((c.query.setAll (params.map fun p => (inQuery p.1, p.2))).setAll (c.settings orgID)).under (inQuery p.1) =
      [(inQuery p.1, [p.2])] := by
    rw [under_setAll_of_not_mem (inQuery_not_setting c orgID p.1)]
    exact under_setAll hsent (List.mem_map_of_mem hp) c.query
  rw [serverValue, Client.rawQuery, valueOf_encode hunder, Option.bind_some]

/-! ## Compiled queries -/

section
variable {ν : Type} (lib : Formats ν) (req : Request ν)

/-- What the compiler gives: SQL with placeholders, and the parameters it has bound. -/
def Compiled (e : Expr) (bound : List (ℕ × Bytes)) : Prop :=
  (∃ q, series lib req = .ok q ∧ q.select.expr = e ∧ q.params = bound) ∨
  (∃ q, rows lib req = .ok q ∧ q.select.expr = e ∧ q.params = bound) ∨
  ∃ c, filterClause lib req = .ok (c, bound) ∧ conditionExpr c = e

/-- A map of parameters that has those the compiler bound, and perhaps others. -/
structure Carries (params : List (Bytes × Bytes)) (bound : List (ℕ × Bytes)) : Prop where
  names : (params.map Prod.fst).Nodup
  has : ∀ p ∈ bound, (paramName p.1, p.2) ∈ params

variable {lib req}

theorem Compiled.keyed {e : Expr} {bound : List (ℕ × Bytes)} (h : Compiled lib req e bound) :
    ∃ b, Keyed b ∧ b.params = bound ∧ Within b.n e := by
  rcases h with ⟨q, hq, rfl, rfl⟩ | ⟨q, hq, rfl, rfl⟩ | ⟨c, hc, rfl⟩
  · obtain ⟨b, hb, hp⟩ := series_ok lib req hq
    obtain ⟨hk, -, hw⟩ := numbered_seriesBuild lib req {} _ b rfl (within_nil _) hb
    exact ⟨b, hk, hp.symm, hw⟩
  · obtain ⟨b, hb, hp⟩ := rows_ok lib req hq
    obtain ⟨hk, -, hw⟩ := numbered_rowsBuild lib req {} _ b rfl (within_nil _) hb
    exact ⟨b, hk, hp.symm, hw⟩
  · obtain ⟨b, hb, hp⟩ := filterClause_ok lib req hc
    obtain ⟨hk, -, hw⟩ := numbered_where lib req [] _ {} c b rfl (within_nil _) hb
    exact ⟨b, hk, hp, hw⟩

/-- A placeholder of type `String` stands for the one string bound to it just where nothing in the string ends the value and
every backslash in it begins a sequence that stands for itself. -/
theorem bound_string_iff (E : Escapes) (client : Client) (orgID : Bytes) {e : Expr} {bound : List (ℕ × Bytes)}
    (h : Compiled lib req e bound) {params : List (Bytes × Bytes)} (hparams : Carries params bound) {n : ℕ}
    (hn : .param n "String" ∈ e) :
    ∃ v, (∀ w, (n, w) ∈ bound ↔ w = v) ∧ (serverValue E (client.rawQuery orgID params) (paramName n) = some v ↔ E.Plain v) := by
  obtain ⟨b, hk, rfl, hwithin⟩ := h.keyed
  obtain ⟨hfirst, hlast⟩ := hwithin n _ hn
  obtain ⟨v, hv, hone⟩ := hk.bound hfirst hlast
  refine ⟨v, fun w => ⟨hone w, ?_⟩, ?_⟩
  · rintro rfl
    exact hv
  · rw [serverValue_rawQuery E client orgID hparams.names (hparams.has _ hv)]
    exact read_eq_self_iff

end

/-- A query for a text. -/
def textRequest (v : Bytes) : Request PrintedQueries.Digits := hourRequest .logs { filters := [.text v], agg := [] }

def textBound (v : Bytes) : List (ℕ × Bytes) := baseParams digitFormats (textRequest v) ++ [(4, v)]

def inOrder (bound : List (ℕ × Bytes)) : List (Bytes × Bytes) := bound.map fun p => (paramName p.1, p.2)

/-- Any bytes can be a string that the compiler binds. -/
theorem text_compiled (v : Bytes) : ∃ e, Compiled digitFormats (textRequest v) e (textBound v) ∧ .param 4 "String" ∈ e := by
  refine ⟨_, Or.inr (Or.inl ⟨_, rfl, rfl, rfl⟩), ?_⟩
  simp [Select.expr, conditionExpr, join, parens, tokenExpr, textRequest, hourRequest]

theorem inOrder_carries (v : Bytes) : Carries (inOrder (textBound v)) (textBound v) where
  names := by
    have hnames : ((inOrder (textBound v)).map Prod.fst) = [paramName 1, paramName 2, paramName 3, paramName 4] := rfl
    rw [hnames]
    decide +kernel
  has p hp := List.mem_map_of_mem hp

def queryClient : Client := ⟨[(bytes "database", [bytes "upstat"])], 10⟩

theorem web_kept : ∃ e, Compiled digitFormats (textRequest (bytes "web")) e (textBound (bytes "web")) ∧ .param 4 "String" ∈ e ∧
    serverValue documented (queryClient.rawQuery (bytes "org-1") (inOrder (textBound (bytes "web")))) (paramName 4) = some (bytes "web") := by
  obtain ⟨e, he, hn⟩ := text_compiled (bytes "web")
  obtain ⟨v, hv, hiff⟩ := bound_string_iff documented queryClient (bytes "org-1") he (inOrder_carries _) hn
  obtain rfl := (hv (bytes "web")).mp (List.mem_append_right _ List.mem_cons_self)
  have hplain : documented.Plain (bytes "web") := documented_plain_iff.mpr (by decide +kernel)
  exact ⟨e, he, hn, hiff.mpr hplain⟩

/-- The name of a folder has become one with a tab in it, and a text of two lines is refused. -/
theorem folder_name_altered :
    (∃ e, Compiled digitFormats (textRequest (bytes "C:\\temp")) e (textBound (bytes "C:\\temp")) ∧ .param 4 "String" ∈ e ∧
      serverValue documented (queryClient.rawQuery (bytes "org-1") (inOrder (textBound (bytes "C:\\temp")))) (paramName 4) =
        some (bytes "C:\temp") ∧ bytes "C:\temp" ≠ bytes "C:\\temp") ∧
    ∃ e, Compiled digitFormats (textRequest (bytes "a\nb")) e (textBound (bytes "a\nb")) ∧ .param 4 "String" ∈ e ∧
      serverValue documented (queryClient.rawQuery (bytes "org-1") (inOrder (textBound (bytes "a\nb")))) (paramName 4) = none := by
  have hvalue (v : Bytes) : serverValue documented (queryClient.rawQuery (bytes "org-1") (inOrder (textBound v))) (paramName 4) =
      documented.read v :=
    serverValue_rawQuery documented queryClient (bytes "org-1") (inOrder_carries v).names (p := (paramName 4, v))
      (List.mem_map_of_mem (a := (4, v)) (List.mem_append_right _ List.mem_cons_self))
  have hreads : documented.read (bytes "C:\\temp") = some (bytes "C:\temp") ∧ bytes "C:\temp" ≠ bytes "C:\\temp" ∧
      documented.read (bytes "a\nb") = none := by decide +kernel
  obtain ⟨hfolder, hne, hlines⟩ := hreads
  obtain ⟨e, he, hn⟩ := text_compiled (bytes "C:\\temp")
  obtain ⟨d, hd, hm⟩ := text_compiled (bytes "a\nb")
  exact ⟨⟨e, he, hn, (hvalue _).trans hfolder, hne⟩, d, hd, hm, (hvalue _).trans hlines⟩

end Upstat.SentParameters
