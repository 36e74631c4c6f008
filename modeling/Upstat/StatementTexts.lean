import Upstat.StoredDashboards
import Upstat.TrimmedLists

/-! # Files of statements (`Statements` of `migrations/migrations.go`)

A file is split at the lines that end in a semicolon, and comment lines are left out. -/
namespace Upstat.StatementTexts

open StoredDashboards (Text isSpace trimSpace)
open TrimmedLists

/-- `strings.Split` at line feeds. -/
def lines (sql : Text) : List Text := sql.splitOn '\n'

def comment (line : Text) : Bool := ['-', '-'].isPrefixOf (trimSpace line)

def ended (line : Text) : Bool := [';'].isSuffixOf (trimSpace line)

/-- `strings.TrimSuffix` of a semicolon. -/
def trimSuffix (s : Text) : Text := if [';'].isSuffixOf s then s.dropLast else s

/-- The statements so far and the lines after them. -/
structure Split where
  out : List Text
  cur : Text

def Split.line (s : Split) (line : Text) : Split :=
  if comment line then s
  else
    let cur := s.cur ++ line ++ ['\n']
    if ended line then
      let stmt := trimSuffix (trimSpace cur)
      ⟨if stmt ≠ [] then s.out ++ [stmt] else s.out, []⟩
    else { s with cur }

/-- `Statements` -/
def statements (sql : Text) : List Text :=
  let s := (lines sql).foldl Split.line ⟨[], []⟩
  let rest := trimSpace s.cur
  if rest ≠ [] then s.out ++ [rest] else s.out

/-! ## Lines -/

theorem trimSpace_eq (t : Text) : trimSpace t = trim isSpace t := rfl

theorem lines_ne_nil (t : Text) : lines t ≠ [] := List.splitOn_ne_nil _ _

theorem newline_notMem_lines (t : Text) : ∀ l ∈ lines t, '\n' ∉ l := notMem_of_mem_splitOn t

theorem comment_cons {c : Char} (hc : isSpace c = true) (l : Text) : comment (c :: l) = comment l := by
  rw [comment, trimSpace_eq, trim_cons hc, comment, trimSpace_eq]

theorem comment_concat {c : Char} (hc : isSpace c = true) (l : Text) : comment (l ++ [c]) = comment l := by
  rw [comment, trimSpace_eq, trim_concat hc, comment, trimSpace_eq]

theorem ended_cons {c : Char} (hc : isSpace c = true) (l : Text) : ended (c :: l) = ended l := by
  rw [ended, trimSpace_eq, trim_cons hc, ended, trimSpace_eq]

theorem comment_iff (l : Text) : comment l = true ↔ ['-', '-'] <+: l.dropWhile isSpace := by
  have hprefix : trimSpace l <+: l.dropWhile isSpace := List.rdropWhile_prefix isSpace _
  rw [comment, List.isPrefixOf_iff_prefix]
  constructor
  · exact fun h => h.trans hprefix
  · rintro ⟨rest, hrest⟩
    have hkept := rdropWhile_kept (p := isSpace) (c := '-') (by decide) ['-'] rest
    exact ⟨rest.rdropWhile isSpace, by rw [trimSpace_eq, trim, ← hrest]; exact hkept.symm⟩

theorem dropWhile_semicolon (l : Text) : (l ++ [';']).dropWhile isSpace = l.dropWhile isSpace ++ [';'] := by
  rw [List.dropWhile_append]
  split_ifs with hall
  · rw [List.isEmpty_iff.mp hall]
    rfl
  · rfl

/-- A semicolon makes no comment of a line. -/
theorem comment_semicolon (l : Text) : comment (l ++ [';']) = comment l := by
  rw [Bool.eq_iff_iff, comment_iff, comment_iff, dropWhile_semicolon, List.prefix_concat_iff, or_iff_right]
  intro h
  have hlast := congrArg List.getLast? h
  rw [List.getLast?_concat] at hlast
  exact absurd hlast (by decide)

theorem ended_semicolon (l : Text) : ended (l ++ [';']) = true := by
  rw [ended, trimSpace_eq, trim_end (by decide)]
  exact List.isSuffixOf_iff_suffix.mpr (List.suffix_append _ _)

/-! ## Statements -/

/-- No line is a comment, and none but the last ends a statement. -/
structure Plain (t : Text) : Prop where
  comments : ∀ l ∈ lines t, comment l = false
  open_ : ∀ l ∈ (lines t).dropLast, ended l = false

/-- What is sent as one statement. -/
structure Statement (s : Text) : Prop extends Plain s where
  ne : s ≠ []
  head : ∀ c ∈ s.head?, isSpace c = false

theorem Plain.of_cons {c : Char} {t : Text} (hc : isSpace c = true) (h : Plain (c :: t)) : Plain t := by
  obtain ⟨hcomments, hopen⟩ := h
  by_cases hnl : c = '\n'
  · subst hnl
    have hsplit : lines ('\n' :: t) = [] :: lines t := List.splitOn_append_cons_self [] t
    rw [hsplit] at hcomments hopen
    rw [List.dropLast_cons_of_ne_nil (lines_ne_nil t)] at hopen
    exact ⟨(List.forall_mem_cons.mp hcomments).2, (List.forall_mem_cons.mp hopen).2⟩
  · have hlines : lines (c :: t) = (lines t).modifyHead (List.cons c) := splitOn_cons hnl t
    rw [hlines] at hcomments hopen
    cases hsplit : lines t with
    | nil => exact absurd hsplit (lines_ne_nil t)
    | cons first rest =>
      rw [hsplit, List.modifyHead_cons] at hcomments hopen
      obtain ⟨hfirst, hrest⟩ := List.forall_mem_cons.mp hcomments
      rw [comment_cons hc] at hfirst
      refine ⟨hsplit ▸ List.forall_mem_cons.mpr ⟨hfirst, hrest⟩, ?_⟩
      rw [hsplit]
      cases rest with
      | nil => nofun
      | cons second rest =>
        rw [List.dropLast_cons_of_ne_nil (List.cons_ne_nil _ _)] at hopen ⊢
        obtain ⟨hfirst', hrest'⟩ := List.forall_mem_cons.mp hopen
        rw [ended_cons hc] at hfirst'
        exact List.forall_mem_cons.mpr ⟨hfirst', hrest'⟩

theorem Plain.of_concat {c : Char} {t : Text} (hc : isSpace c = true) (h : Plain (t ++ [c])) : Plain t := by
  obtain ⟨hcomments, hopen⟩ := h
  by_cases hnl : c = '\n'
  · subst hnl
    have hsplit : lines (t ++ ['\n']) = lines t ++ [[]] := List.splitOn_append_cons_self t []
    rw [hsplit] at hcomments hopen
    rw [List.dropLast_concat] at hopen
    exact ⟨fun l hl => hcomments l (List.mem_append_left _ hl), fun l hl => hopen l (List.dropLast_subset _ hl)⟩
  · obtain ⟨first, last, hlines, hlines'⟩ : ∃ first last, lines t = first ++ [last] ∧ lines (t ++ [c]) = first ++ [last ++ [c]] :=
      splitOn_concat hnl t
    rw [hlines'] at hcomments hopen
    rw [List.dropLast_concat] at hopen
    obtain ⟨hfirst, hlast⟩ := List.forall_mem_append.mp hcomments
    rw [List.forall_mem_singleton, comment_concat hc] at hlast
    constructor
    · rw [hlines]
      exact List.forall_mem_append.mpr ⟨hfirst, List.forall_mem_singleton.mpr hlast⟩
    · rw [hlines, List.dropLast_concat]
      exact hopen

theorem Plain.dropWhile {t : Text} (h : Plain t) : Plain (t.dropWhile isSpace) := by
  induction t with
  | nil => exact h
  | cons c t ih =>
    cases hc : isSpace c with
    | true =>
      rw [List.dropWhile_cons_of_pos hc]
      exact ih (h.of_cons hc)
    | false =>
      rw [List.dropWhile_cons_of_neg (by simp [hc])]
      exact h

theorem Plain.rdropWhile {t : Text} (h : Plain t) : Plain (t.rdropWhile isSpace) := by
  induction t using List.reverseRecOn with
  | nil => exact h
  | append_singleton t c ih =>
    cases hc : isSpace c with
    | true =>
      rw [List.rdropWhile_concat_pos _ _ _ hc]
      exact ih (h.of_concat hc)
    | false =>
      rw [List.rdropWhile_concat_neg _ _ _ (by simp [hc])]
      exact h

/-- What is left of a plain text when it is trimmed is a statement. -/
theorem Plain.statement {t : Text} (h : Plain t) (hne : trimSpace t ≠ []) : Statement (trimSpace t) :=
  ⟨h.dropWhile.rdropWhile, hne, trim_head t⟩

/-! ## What a file is split into -/

/-- The lines that wait for a semicolon. -/
def Waiting (cur : Text) : Prop :=
  ∃ ls : List Text, cur = ls.flatMap (· ++ ['\n']) ∧ ∀ l ∈ ls, '\n' ∉ l ∧ comment l = false ∧ ended l = false

theorem Waiting.plain {cur : Text} (h : Waiting cur) {l : Text} (hnl : '\n' ∉ l) (hl : comment l = false) : Plain (cur ++ l) := by
  obtain ⟨ls, rfl, hls⟩ := h
  have hlines : lines (ls.flatMap (· ++ ['\n']) ++ l) = ls ++ [l] := by
    rw [lines, splitOn_closed (fun l hl => (hls l hl).1), List.splitOn_eq_singleton hnl]
  constructor
  · rw [hlines]
    exact List.forall_mem_append.mpr ⟨fun l hl => (hls l hl).2.1, List.forall_mem_singleton.mpr hl⟩
  · rw [hlines, List.dropLast_concat]
    exact fun l hl => (hls l hl).2.2

/-- A line that is ended has its semicolon before the blanks at its end. -/
theorem ended_split {l : Text} (h : ended l = true) : ∃ body blank, l = body ++ ';' :: blank ∧ ∀ c ∈ blank, isSpace c = true := by
  obtain ⟨body, hbody⟩ := List.isSuffixOf_iff_suffix.mp h
  have hsplit : l.dropWhile isSpace = trimSpace l ++ (l.dropWhile isSpace).rtakeWhile isSpace :=
    List.rdropWhile_append_rtakeWhile.symm
  refine ⟨l.takeWhile isSpace ++ body, (l.dropWhile isSpace).rtakeWhile isSpace, ?_, fun c hc => List.mem_rtakeWhile_imp hc⟩
  calc l = l.takeWhile isSpace ++ l.dropWhile isSpace := List.takeWhile_append_dropWhile.symm
    _ = l.takeWhile isSpace ++ (trimSpace l ++ (l.dropWhile isSpace).rtakeWhile isSpace) := by rw [← hsplit]
    _ = _ := by rw [← hbody]; simp

/-- What is cut off at a line that is ended. -/
theorem trimmed_ended (cur body : Text) {blank : Text} (hblank : ∀ c ∈ blank, isSpace c = true) :
    trimSuffix (trimSpace (cur ++ (body ++ ';' :: blank) ++ ['\n'])) = (cur ++ body).dropWhile isSpace := by
  have hassoc : cur ++ (body ++ ';' :: blank) ++ ['\n'] = cur ++ body ++ [';'] ++ (blank ++ ['\n']) := by simp
  have hblank' : ∀ c ∈ blank ++ ['\n'], isSpace c = true :=
    List.forall_mem_append.mpr ⟨hblank, List.forall_mem_singleton.mpr (by decide)⟩
  rw [hassoc, trimSpace_eq, trim_append hblank', trim_end (by decide), trimSuffix,
    if_pos (List.isSuffixOf_iff_suffix.mpr (List.suffix_append _ _)), List.dropLast_concat]

structure Split.Good (s : Split) : Prop where
  out : ∀ stmt ∈ s.out, Statement stmt
  cur : Waiting s.cur

theorem Split.Good.line {s : Split} (h : s.Good) {l : Text} (hnl : '\n' ∉ l) : (s.line l).Good := by
  unfold Split.line
  split_ifs with hcomment hended
  · exact h
  · -- The statement is cut off.
    obtain ⟨body, blank, rfl, hblank⟩ := ended_split hended
    have hplain : Plain ((s.cur ++ body).dropWhile isSpace) := by
      refine (h.cur.plain (fun hmem => hnl (List.mem_append_left _ hmem)) ?_).dropWhile
      rw [← comment_semicolon, comment, trimSpace_eq, ← trim_append hblank, List.append_assoc]
      exact Bool.eq_false_iff.mpr hcomment
    refine ⟨?_, [], rfl, nofun⟩
    dsimp only
    rw [trimmed_ended _ _ hblank]
    split_ifs with hne
    · refine List.forall_mem_append.mpr ⟨h.out, List.forall_mem_singleton.mpr ⟨hplain, hne, dropWhile_head _⟩⟩
    · exact h.out
  · obtain ⟨ls, hcur, hls⟩ := h.cur
    refine ⟨h.out, ls ++ [l], by simp [hcur], ?_⟩
    exact List.forall_mem_append.mpr ⟨hls, List.forall_mem_singleton.mpr ⟨hnl, by simpa using hcomment, by simpa using hended⟩⟩

theorem Split.Good.lines {s : Split} (h : s.Good) {ls : List Text} (hls : ∀ l ∈ ls, '\n' ∉ l) : (ls.foldl Split.line s).Good := by
  induction ls generalizing s with
  | nil => exact h
  | cons l ls ih =>
    obtain ⟨hl, hrest⟩ := List.forall_mem_cons.mp hls
    exact ih (h.line hl) hrest

theorem statement_of_mem {sql stmt : Text} (h : stmt ∈ statements sql) : Statement stmt := by
  have hgood : (Split.mk [] []).Good := ⟨nofun, [], rfl, nofun⟩
  obtain ⟨hout, hcur⟩ := hgood.lines (newline_notMem_lines sql)
  have hplain := hcur.plain (l := []) List.not_mem_nil (by decide)
  rw [List.append_nil] at hplain
  unfold statements at h
  dsimp only at h
  split_ifs at h with hrest
  · rcases List.mem_append.mp h with h | h
    · exact hout stmt h
    · rw [List.mem_singleton.mp h]
      exact hplain.statement hrest
  · exact hout stmt h

/-! ## Statements that are joined again -/

def join (ss : List Text) : Text := ss.flatMap (· ++ [';', '\n'])

/-- Lines that wait for one that is ended. -/
theorem foldl_waiting {ls : List Text} (hls : ∀ l ∈ ls, comment l = false ∧ ended l = false) (s : Split) :
    ls.foldl Split.line s = ⟨s.out, s.cur ++ ls.flatMap (· ++ ['\n'])⟩ := by
  induction ls generalizing s with
  | nil => simp
  | cons l ls ih =>
    obtain ⟨⟨hcomment, hended⟩, hrest⟩ := List.forall_mem_cons.mp hls
    have hline : s.line l = { s with cur := s.cur ++ l ++ ['\n'] } := by
      rw [Split.line, if_neg (by simp [hcomment]), if_neg (by simp [hended])]
    rw [List.foldl_cons, hline, ih hrest, List.flatMap_cons, List.append_assoc, List.append_assoc, List.append_assoc]

theorem foldl_statement {stmt : Text} (h : Statement stmt) (out : List Text) :
    (lines (stmt ++ [';'])).foldl Split.line ⟨out, []⟩ = ⟨out ++ [stmt], []⟩ := by
  obtain ⟨first, last, hlines, hlines'⟩ : ∃ first last, lines stmt = first ++ [last] ∧ lines (stmt ++ [';']) = first ++ [last ++ [';']] :=
    splitOn_concat (by decide) stmt
  have hwaiting : ∀ l ∈ first, comment l = false ∧ ended l = false := fun l hl =>
    ⟨h.comments l (hlines ▸ List.mem_append_left _ hl), h.open_ l (by rw [hlines, List.dropLast_concat]; exact hl)⟩
  have hlast : comment (last ++ [';']) = false := by
    rw [comment_semicolon]
    exact h.comments last (by simp [hlines])
  have hstmt : first.flatMap (· ++ ['\n']) ++ last = stmt := closed_splitOn hlines
  have hhead : stmt.dropWhile isSpace = stmt := by
    cases hstmt : stmt with
    | nil => rfl
    | cons c rest => exact List.dropWhile_cons_of_neg (by simp [h.head c (by simp [hstmt])])
  rw [hlines', List.foldl_append, foldl_waiting hwaiting, List.foldl_cons, List.foldl_nil, Split.line, if_neg (by simp [hlast]),
    if_pos (ended_semicolon last)]
  dsimp only
  have htrim := trimmed_ended (first.flatMap (· ++ ['\n'])) last (List.forall_mem_nil _)
  rw [List.nil_append, htrim, hstmt, hhead, if_pos h.ne]

theorem statements_join {ss : List Text} (h : ∀ stmt ∈ ss, Statement stmt) : statements (join ss) = ss := by
  have hfold : ∀ out, (lines (join ss)).foldl Split.line ⟨out, []⟩ = ⟨out ++ ss, ['\n']⟩ := by
    induction ss with
    | nil =>
      intro out
      have hline : (Split.mk out []).line [] = ⟨out, ['\n']⟩ := rfl
      rw [List.append_nil]
      exact hline
    | cons stmt ss ih =>
      intro out
      obtain ⟨hstmt, hrest⟩ := List.forall_mem_cons.mp h
      have hlines : lines (join (stmt :: ss)) = lines (stmt ++ [';']) ++ lines (join ss) := by
        have hjoin : join (stmt :: ss) = stmt ++ [';'] ++ '\n' :: join ss := by simp [join]
        rw [hjoin]
        exact List.splitOn_append_cons_self _ _
      rw [hlines, List.foldl_append, foldl_statement hstmt, ih hrest, List.append_assoc, List.singleton_append]
  rw [statements, hfold]
  rfl

/-- Whatever the file, its statements are sent as they are when they are written one after the
other: none is empty, begins with a blank, has a comment line or goes on after a line that ends one. -/
theorem statements_statements (sql : Text) :
    (∀ stmt ∈ statements sql, Statement stmt) ∧ statements (join (statements sql)) = statements sql :=
  ⟨fun _ => statement_of_mem, statements_join fun _ => statement_of_mem⟩

end Upstat.StatementTexts
