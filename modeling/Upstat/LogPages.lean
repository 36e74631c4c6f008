import Mathlib.Data.List.Sort

/-! # Pages of the logs explorer (`telemetry/explore.go`)

`Logs` answers with the newest rows before a cursor, which is the last row's timestamp, and a walk follows the
cursors. Instants are nanoseconds, which all texts of them keep. -/
namespace Upstat.LogPages

/-- A stored row, as the query selects it. -/
structure LogEvent where
  id : String
  ts : ℤ
  service : String
  level : String
  host : String
  message : String
  attrs : List (String × String)
  traceId : String
  deriving DecidableEq

/-- A page without its histogram and facets, which other queries fill. -/
structure LogPage where
  events : List LogEvent
  nextCursor : Option ℤ

def pageLimit (limit : ℤ) : ℕ := (min (if limit ≤ 0 then 100 else limit) 10000).toNat

/-- The rows that an answer to the query may begin with: rows of one timestamp come in any order. -/
def Sorted (matching : List LogEvent) (before : ℤ) (full : List LogEvent) : Prop :=
  full.Perm (matching.filter fun e => e.ts < before) ∧ full.Pairwise fun e e' => e'.ts ≤ e.ts

/-- What the database answers under each bound, with this limit. -/
def Answers (matching : List LogEvent) (n : ℕ) (db : ℤ → List LogEvent) : Prop :=
  ∀ before, ∃ full, Sorted matching before full ∧ db before = full.take n

/-- One page, of what the database answers with a limit one higher than the page's. -/
def logs (db : ℤ → List LogEvent) (limit : ℤ) (to_ : ℤ) (cursor : Option ℤ) : LogPage :=
  let rows := db (cursor.getD to_)
  { events := rows.take (pageLimit limit)
    nextCursor := if pageLimit limit < rows.length then rows[pageLimit limit - 1]?.map LogEvent.ts else none }

/-- The events of all pages, from the cursor on, unless there are more pages than that. -/
def walk (db : ℤ → List LogEvent) (limit to_ : ℤ) : ℕ → Option ℤ → Option (List LogEvent)
  | 0, _ => none
  | fuel + 1, cursor =>
    let page := logs db limit to_ cursor
    match page.nextCursor with
    | none => some page.events
    | some next => (walk db limit to_ fuel (some next)).map (page.events ++ ·)

/-- Every one of the rows once, and the newest first. -/
def Whole (rows events : List LogEvent) : Prop := events.Perm rows ∧ events.Pairwise fun e e' => e'.ts ≤ e.ts

/-- The timestamps, newest first. -/
def instants (rows : List LogEvent) : List ℤ := (rows.map LogEvent.ts).insertionSort (· ≥ ·)

/-- Where a page ends that is not the last, the next row is not of the same instant. -/
def Broken (limit : ℕ) (ts : List ℤ) : Prop := ∀ k, 0 < k → limit * k < ts.length → ts[limit * k - 1]? ≠ ts[limit * k]?

def millisecond : ℤ := 1000000

/-- The rows that the filter keeps, within the range in whole milliseconds. -/
def matching (rows : List LogEvent) (keeps : LogEvent → Bool) (from_ to_ : ℤ) : List LogEvent :=
  rows.filter fun e => keeps e ∧ from_ / millisecond * millisecond ≤ e.ts ∧ e.ts < to_ / millisecond * millisecond

/-! ## A page and the rows after it -/

section
variable {rows full : List LogEvent} {before c : ℤ} {n : ℕ}

theorem pageLimit_pos (limit : ℤ) : 0 < pageLimit limit := by
  unfold pageLimit
  split <;> omega

theorem instants_eq (h : Sorted rows before full) : instants (rows.filter fun e => e.ts < before) = full.map LogEvent.ts := by
  have hperm : (instants (rows.filter fun e => e.ts < before)).Perm (full.map LogEvent.ts) :=
    (List.perm_insertionSort _ _).trans (h.1.map LogEvent.ts).symm
  apply hperm.eq_of_pairwise' (r := (· ≥ ·))
  · exact List.pairwise_insertionSort _ _
  · exact List.pairwise_map.mpr h.2

theorem broken_drop {ts : List ℤ} (hpos : 0 < n) (hn : n < ts.length) : Broken n ts ↔ ts[n - 1]? ≠ ts[n]? ∧ Broken n (ts.drop n) := by
  constructor
  · intro h
    constructor
    · simpa using h 1 Nat.one_pos (by omega)
    · intro k hk hlt
      rw [List.length_drop] at hlt
      have hnext := h (k + 1) (Nat.succ_pos k) (by rw [Nat.mul_succ]; omega)
      rw [List.getElem?_drop, List.getElem?_drop]
      have hle : 1 ≤ n * k := Nat.mul_pos hpos hk
      rwa [Nat.mul_succ, Nat.add_comm, Nat.add_sub_assoc hle] at hnext
  · rintro ⟨hfirst, hrest⟩ k hk hlt
    cases k with
    | zero => exact absurd hk (Nat.lt_irrefl 0)
    | succ k =>
      cases k with
      | zero => simpa using hfirst
      | succ k =>
        have hle : 1 ≤ n * (k + 1) := Nat.mul_pos hpos (Nat.succ_pos k)
        rw [Nat.mul_succ] at hlt
        have hnext := hrest (k + 1) (Nat.succ_pos k) (by rw [List.length_drop]; omega)
        rw [List.getElem?_drop, List.getElem?_drop] at hnext
        rwa [Nat.mul_succ, Nat.add_comm (n * (k + 1)), Nat.add_sub_assoc hle]

/-- A page that is not the last, and the rows after it. -/
theorem exists_page (hpos : 0 < n) (hn : n < full.length) :
    ∃ page last later, full = page ++ last :: later ∧ page.length + 1 = n ∧ later ≠ [] := by
  have hlast : n - 1 < full.length := by omega
  refine ⟨full.take (n - 1), full[n - 1], full.drop n, ?_, ?_, ?_⟩
  · have hdrop : full.drop (n - 1) = full[n - 1] :: full.drop (n - 1 + 1) := List.drop_eq_getElem_cons hlast
    rw [Nat.sub_add_cancel hpos] at hdrop
    rw [← hdrop, List.take_append_drop]
  · rw [List.length_take]
    omega
  · intro hnil
    have hlength := congrArg List.length hnil
    rw [List.length_drop] at hlength
    simp only [List.length_nil] at hlength
    omega

variable {page later : List LogEvent} {last : LogEvent}

/-- Under the cursor of the page the query finds what comes after it and is older. -/
theorem sorted_next (h : Sorted rows before (page ++ last :: later)) :
    Sorted rows last.ts (later.filter fun e => e.ts < last.ts) := by
  obtain ⟨hperm, hpairwise⟩ := h
  obtain ⟨-, hrest, hcross⟩ := List.pairwise_append.mp hpairwise
  constructor
  · have hbefore : last.ts < before := by
      have hmem : last ∈ rows.filter fun e => e.ts < before := hperm.subset (by simp)
      simpa using (List.mem_filter.mp hmem).2
    have hnewer : page.filter (fun e => e.ts < last.ts) = [] := by
      rw [List.filter_eq_nil_iff]
      intro e he hlt
      have hle : last.ts ≤ e.ts := hcross e he last List.mem_cons_self
      have hlt' : e.ts < last.ts := of_decide_eq_true hlt
      omega
    have hall : (page ++ last :: later).filter (fun e => e.ts < last.ts) = later.filter fun e => e.ts < last.ts := by
      rw [List.filter_append, hnewer]
      simp
    have hrows : (rows.filter fun e => e.ts < before).filter (fun e => e.ts < last.ts) = rows.filter fun e => e.ts < last.ts := by
      rw [List.filter_filter]
      apply List.filter_congr
      intro e _
      simp only [← Bool.decide_and, decide_eq_decide]
      omega
    rw [← hall, ← hrows]
    exact hperm.filter _
  · exact (List.pairwise_cons.mp hrest).2.filter _

/-- It finds all that comes after it if the next row is older. -/
theorem later_older (h : Sorted rows before (page ++ last :: later)) (hnext : later.head?.map LogEvent.ts ≠ some last.ts) :
    later.filter (fun e => e.ts < last.ts) = later := by
  obtain ⟨-, hpairwise⟩ := h
  obtain ⟨-, hrest, -⟩ := List.pairwise_append.mp hpairwise
  obtain ⟨hle, hlater⟩ := List.pairwise_cons.mp hrest
  rw [List.filter_eq_self]
  intro e he
  cases later with
  | nil => cases he
  | cons next later =>
    have hne : next.ts ≠ last.ts := by simpa using hnext
    have hnextle : next.ts ≤ last.ts := hle next List.mem_cons_self
    have hele : e.ts ≤ next.ts := by
      rcases List.mem_cons.mp he with rfl | he
      · exact Int.le_refl _
      · exact (List.pairwise_cons.mp hlater).1 e he
    apply decide_eq_true
    omega

end

/-! ## The walk -/

section
variable {db : ℤ → List LogEvent} {limit to_ : ℤ} {rows : List LogEvent}

theorem Whole.congr {rows' events : List LogEvent} (h : rows.Perm rows') : Whole rows events ↔ Whole rows' events :=
  and_congr_left fun _ => ⟨fun hperm => hperm.trans h, fun hperm => hperm.trans h.symm⟩

variable {page later : List LogEvent} {last : LogEvent} {before : ℤ}

/-- After a page the rest of a walk is to be the rest of the rows. -/
theorem whole_append (h : Sorted rows before (page ++ last :: later)) (rest : List LogEvent) :
    Whole (page ++ last :: later) (page ++ [last] ++ rest) ↔ Whole later rest := by
  have hsplit : page ++ last :: later = page ++ [last] ++ later := by simp
  obtain ⟨-, hpairwise⟩ := h
  rw [hsplit] at hpairwise ⊢
  obtain ⟨hpage, -, hcross⟩ := List.pairwise_append.mp hpairwise
  constructor
  · rintro ⟨hperm, hordered⟩
    exact ⟨(List.perm_append_left_iff _).mp hperm, (List.pairwise_append.mp hordered).2.1⟩
  · rintro ⟨hperm, hordered⟩
    refine ⟨hperm.append_left _, List.pairwise_append.mpr ⟨hpage, hordered, ?_⟩⟩
    intro e he e' he'
    exact hcross e he e' (hperm.subset he')

/-- If the next row is of the last one's instant, a walk that goes on with the older ones is too short. -/
theorem not_whole_of_tie {rest : List LogEvent} (hlater : later ≠ []) (htie : later.head?.map LogEvent.ts = some last.ts)
    (hlength : rest.length ≤ (later.filter fun e => e.ts < last.ts).length) :
    ¬Whole (page ++ last :: later) (page ++ [last] ++ rest) := by
  rintro ⟨hperm, -⟩
  have hsame := hperm.length_eq
  simp only [List.length_append, List.length_cons, List.length_nil] at hsame
  cases later with
  | nil => exact hlater rfl
  | cons next later =>
    have hts : next.ts = last.ts := by simpa using htie
    have hskip : (next :: later).filter (fun e => e.ts < last.ts) = later.filter fun e => e.ts < last.ts := by
      apply List.filter_cons_of_neg
      simp [hts]
    have hle : (later.filter fun e => e.ts < last.ts).length ≤ later.length := List.length_filter_le _ _
    rw [hskip] at hlength
    rw [List.length_cons] at hsame
    omega

theorem walk_spec (hdb : Answers rows (pageLimit limit + 1) db) (fuel : ℕ) (cursor : Option ℤ) (before : ℤ)
    (hbefore : cursor.getD to_ = before) (hfuel : (rows.filter fun e => e.ts < before).length < fuel) :
    ∃ events, walk db limit to_ fuel cursor = some events ∧ events.length ≤ (rows.filter fun e => e.ts < before).length ∧
      (Whole (rows.filter fun e => e.ts < before) events ↔
        Broken (pageLimit limit) (instants (rows.filter fun e => e.ts < before))) := by
  induction fuel generalizing cursor before with
  | zero => exact absurd hfuel (Nat.not_lt_zero _)
  | succ fuel ih =>
    obtain ⟨full, hfull, hanswer⟩ := hdb before
    have hwhole : ∀ events, Whole (rows.filter fun e => e.ts < before) events ↔ Whole full events :=
      fun _ => Whole.congr hfull.1.symm
    rw [← hfull.1.length_eq] at hfuel
    simp only [instants_eq hfull, hwhole, ← hfull.1.length_eq]
    rcases Nat.lt_or_ge (pageLimit limit) full.length with hmore | hlast
    · obtain ⟨page, last, later, rfl, hpage, hlater⟩ := exists_page (pageLimit_pos limit) hmore
      have hold : Sorted rows last.ts (later.filter fun e => e.ts < last.ts) := sorted_next hfull
      have hfewer : (later.filter fun e => e.ts < last.ts).length ≤ later.length := List.length_filter_le _ _
      have hfuel' : (rows.filter fun e => e.ts < last.ts).length < fuel := by
        rw [← hold.1.length_eq]
        rw [List.length_append, List.length_cons] at hfuel
        omega
      obtain ⟨rest, hwalk, hlength, hrest⟩ := ih (some last.ts) last.ts rfl hfuel'
      rw [← hold.1.length_eq] at hlength
      rw [instants_eq hold, Whole.congr hold.1.symm] at hrest
      have hevents : (logs db limit to_ cursor).events = page ++ [last] := by
        rw [logs, hbefore, hanswer]
        simp only [List.take_take]
        rw [Nat.min_eq_left (Nat.le_succ _), ← hpage, List.take_append, List.take_of_length_le (Nat.le_succ _)]
        simp
      have hcursor : (logs db limit to_ cursor).nextCursor = some last.ts := by
        have hlong : 0 < later.length := List.length_pos_iff.mpr hlater
        rw [logs, hbefore, hanswer]
        simp only [List.length_take, List.length_append, List.length_cons]
        rw [if_pos (by omega), List.getElem?_take_of_lt (by omega)]
        have hindex : pageLimit limit - 1 = page.length := by omega
        rw [hindex]
        simp
      refine ⟨page ++ [last] ++ rest, ?_, ?_, ?_⟩
      · rw [walk]
        simp only [hcursor, hwalk, hevents]
        rfl
      · simp only [List.length_append, List.length_cons, List.length_nil]
        omega
      · have hlastAt : ((page ++ last :: later).map LogEvent.ts)[pageLimit limit - 1]? = some last.ts := by
          have hindex : pageLimit limit - 1 = page.length := by omega
          rw [hindex]
          simp
        have hnextAt : ((page ++ last :: later).map LogEvent.ts)[pageLimit limit]? = later.head?.map LogEvent.ts := by
          rw [← hpage]
          simp [List.getElem?_append_right, List.head?_eq_getElem?]
        have hdrop : ((page ++ last :: later).map LogEvent.ts).drop (pageLimit limit) = later.map LogEvent.ts := by
          rw [← hpage]
          simp [List.drop_append]
        rw [broken_drop (pageLimit_pos limit) (by rwa [List.length_map]), hlastAt, hnextAt, hdrop]
        by_cases htie : later.head?.map LogEvent.ts = some last.ts
        · apply iff_of_false (not_whole_of_tie hlater htie hlength)
          rintro ⟨hne, -⟩
          exact hne htie.symm
        · have holder : later.filter (fun e => e.ts < last.ts) = later := later_older hfull htie
          rw [holder] at hrest
          rw [whole_append hfull, hrest]
          exact (and_iff_right fun heq => htie heq.symm).symm
    · have hall : db before = full := by
        rw [hanswer, List.take_of_length_le]
        omega
      refine ⟨full, ?_, Nat.le_refl _, ?_⟩
      · rw [walk, logs, hbefore, hall]
        simp only
        rw [if_neg (Nat.not_lt.mpr hlast), List.take_of_length_le hlast]
      · refine iff_of_true ⟨List.Perm.refl _, hfull.2⟩ ?_
        intro k hk hlt
        rw [List.length_map] at hlt
        have hle : pageLimit limit ≤ pageLimit limit * k := Nat.le_mul_of_pos_right _ hk
        omega

/-- Every walk ends, and has every matching row once, the newest first, exactly if no page ends between rows of one instant. -/
theorem walk_whole_iff (rows : List LogEvent) (keeps : LogEvent → Bool) (from_ to_ limit : ℤ) (db : ℤ → List LogEvent)
    (hdb : Answers (matching rows keeps from_ to_) (pageLimit limit + 1) db) :
    ∃ events, walk db limit to_ (rows.length + 1) none = some events ∧
      (Whole (matching rows keeps from_ to_) events ↔ Broken (pageLimit limit) (instants (matching rows keeps from_ to_))) := by
  have hbefore : (matching rows keeps from_ to_).filter (fun e => e.ts < to_) = matching rows keeps from_ to_ := by
    rw [List.filter_eq_self]
    intro e he
    have hkept := (List.mem_filter.mp he).2
    simp only [Bool.decide_and, Bool.and_eq_true, decide_eq_true_eq] at hkept
    have hfloor : to_ / millisecond * millisecond ≤ to_ := Int.ediv_mul_le to_ (by decide)
    apply decide_eq_true
    omega
  have hfew : (matching rows keeps from_ to_).length ≤ rows.length := List.length_filter_le _ _
  obtain ⟨events, hwalk, -, hiff⟩ := walk_spec hdb (rows.length + 1) none to_ rfl (by rw [hbefore]; omega)
  rw [hbefore] at hiff
  exact ⟨events, hwalk, hiff⟩

end

/-! ## Two rows on pages of one -/

/-- A database that keeps rows of one instant as they are stored. -/
def dbOf (rows : List LogEvent) (n : ℕ) (before : ℤ) : List LogEvent :=
  ((rows.filter fun e => e.ts < before).insertionSort fun e e' => e'.ts ≤ e.ts).take n

theorem answers_dbOf (rows : List LogEvent) (n : ℕ) : Answers rows n (dbOf rows n) := by
  intro before
  refine ⟨_, ⟨List.perm_insertionSort _ _, ?_⟩, rfl⟩
  have htotal : Std.Total fun e e' : LogEvent => e'.ts ≤ e.ts := ⟨fun e e' => Int.le_total e'.ts e.ts⟩
  have htrans : IsTrans LogEvent fun e e' => e'.ts ≤ e.ts := ⟨fun _ _ _ h h' => Int.le_trans h' h⟩
  exact List.pairwise_insertionSort _ _

/-- An error at that instant. -/
def errorAt (id : String) (ts : ℤ) : LogEvent := ⟨id, ts, "api", "ERROR", "", "timeout", [], ""⟩

def everyRow : LogEvent → Bool := fun _ => true

theorem walk_whole_distinct : ∃ events,
    walk (dbOf (matching [errorAt "1" 0, errorAt "2" 1] everyRow 0 1000000) 2) 1 1000000 3 none = some events ∧
      Whole (matching [errorAt "1" 0, errorAt "2" 1] everyRow 0 1000000) events := by
  obtain ⟨events, hwalk, hiff⟩ :=
    walk_whole_iff [errorAt "1" 0, errorAt "2" 1] everyRow 0 1000000 1 (dbOf (matching [errorAt "1" 0, errorAt "2" 1] everyRow 0 1000000) 2)
      (answers_dbOf _ _)
  refine ⟨events, hwalk, hiff.mpr ?_⟩
  have hinstants : instants (matching [errorAt "1" 0, errorAt "2" 1] everyRow 0 1000000) = [1, 0] := by decide +kernel
  rw [hinstants]
  intro k hk hlt
  have hone : k = 1 := by
    simp [pageLimit] at hlt
    omega
  subst hone
  decide

/-- The second row of the instant is on no page. -/
theorem tie_lost : walk (dbOf (matching [errorAt "1" 0, errorAt "2" 0] everyRow 0 1000000) 2) 1 1000000 3 none = some [errorAt "1" 0] := by
  decide +kernel

end Upstat.LogPages
