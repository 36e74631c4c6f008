import Mathlib.Data.List.Basic
import Mathlib.Data.List.Nodup
import Mathlib.Data.List.Sort
import Mathlib.Data.String.Basic
import Mathlib.Logic.Function.Basic
import Upstat.GuardedRuns

/-! # The migrations of the control plane (`migrations/migrations.go`)

Instances start in any number and order, each with the files of its own version, and any of them
may be cut off between two statements. What a transaction does is done when it commits. -/
namespace Upstat.PostgresMigrations

open GuardedRuns

/-- How far an instance has come, with the files that it has still to look for. -/
inductive Phase where
  | out
  | waiting
  | looking (todo : List String)
  /-- It has found no row of the first. -/
  | applying (name : String) (todo : List String)
  deriving DecidableEq

structure State (σ : Type*) where
  schema : σ
  /-- `schema_migration`, in the order of the inserts. -/
  rows : List String
  /-- Whose session has the advisory lock. -/
  holder : Option ℕ
  phase : ℕ → Phase
  /-- The instances whose call has returned without an error. -/
  returned : List ℕ

inductive Event where
  | start (i : ℕ)
  | lock (i : ℕ)
  | look (i : ℕ)
  | commit (i : ℕ)
  | unlock (i : ℕ)
  /-- The session ends, by a failure of either side. -/
  | lose (i : ℕ)

def sorted (names : List String) : List String := names.insertionSort (· ≤ ·)

section
variable {σ : Type*} (exec : String → σ → Option σ) (files : ℕ → List String)

def State.to (s : State σ) (i : ℕ) (p : Phase) : State σ := { s with phase := Function.update s.phase i p }

/-- The end of the session of an instance. -/
def State.leave (s : State σ) (i : ℕ) : State σ :=
  { s.to i .out with holder := if s.holder = some i then none else s.holder }

/-- The next step of `Apply`. -/
def step (s : State σ) : Event → State σ
  | .start i => if s.phase i = .out then s.to i .waiting else s
  | .lock i => if s.phase i = .waiting ∧ s.holder = none then { s.to i (.looking (sorted (files i))) with holder := some i } else s
  | .look i =>
    match s.phase i with
    | .looking (name :: todo) => if name ∈ s.rows then s.to i (.looking todo) else s.to i (.applying name todo)
    | .out | .waiting | .looking [] | .applying _ _ => s
  | .commit i =>
    match s.phase i with
    | .applying name todo =>
      match exec name s.schema with
      | some schema => if name ∈ s.rows then s.leave i else { s.to i (.looking todo) with schema, rows := s.rows ++ [name] }
      | none => s.leave i
    | .out | .waiting | .looking _ => s
  | .unlock i => if s.phase i = .looking [] then { s.leave i with returned := i :: s.returned } else s
  | .lose i => s.leave i

def start (schema : σ) (rows : List String) : State σ := ⟨schema, rows, none, fun _ => .out, []⟩

end

/-! ## What one instance has found -/

/-- An instance that has the lock has found or applied every file before the one it is at. -/
def At (rows : List String) (names : List String) : Phase → Prop
  | .out | .waiting => True
  | .looking todo => ∃ done, names = done ++ todo ∧ done ⊆ rows
  | .applying name todo => ∃ done, names = done ++ name :: todo ∧ done ⊆ rows ∧ name ∉ rows

def Phase.locked : Phase → Prop
  | .out | .waiting => False
  | .looking _ | .applying _ _ => True

/-- The files that are missing, in their order, as far as they have been applied. -/
def Applied (all rows₀ rows : List String) : Prop := ∃ done, rows = rows₀ ++ done ∧ done <+: all.filter (· ∉ rows₀)

/-- The next missing file of the order is the one to apply. -/
theorem Applied.next {all rows₀ rows before after : List String} {name : String} (h : Applied all rows₀ rows) (hall : all.Nodup)
    (hsplit : all = before ++ name :: after) (hbefore : before ⊆ rows) (hname : name ∉ rows) : Applied all rows₀ (rows ++ [name]) := by
  obtain ⟨done, rfl, hprefix⟩ := h
  rw [List.mem_append, not_or] at hname
  have hfilter : all.filter (· ∉ rows₀) = before.filter (· ∉ rows₀) ++ name :: after.filter (· ∉ rows₀) := by
    simp [hsplit, hname.1]
  have hdone : done = before.filter (· ∉ rows₀) := by
    rw [hfilter] at hprefix
    rcases List.prefix_or_prefix_of_prefix hprefix (List.prefix_append _ _) with ⟨rest, hrest⟩ | ⟨rest, hrest⟩
    · -- What comes before the file is in a row, and no row is there twice.
      have hnodup : (done ++ rest).Nodup := by
        rw [hrest]
        exact (hsplit ▸ hall).of_append_left.filter _
      rcases rest with - | ⟨other, rest⟩
      · simpa using hrest
      · have hother : other ∈ before.filter (· ∉ rows₀) := by
          rw [← hrest]
          simp
        obtain ⟨hmem, hnot⟩ := List.mem_filter.mp hother
        have hrow := List.mem_append.mp (hbefore hmem)
        have hin : other ∈ done := hrow.resolve_left (by simpa using hnot)
        exact absurd rfl ((List.nodup_append.mp hnodup).2.2 other hin other (by simp))
    · rw [← hrest, List.prefix_append_right_inj] at hprefix
      rcases rest with - | ⟨other, rest⟩
      · simpa using hrest.symm
      · obtain ⟨rfl, -⟩ := List.cons_prefix_cons.mp hprefix
        exact absurd (by simp [← hrest]) hname.2
  refine ⟨done ++ [name], by simp, ?_⟩
  rw [hfilter, hdone]
  exact ⟨after.filter (· ∉ rows₀), by simp⟩

section
variable {σ : Type*} {exec : String → σ → Option σ} {files : ℕ → List String} {all rows₀ : List String} {schema₀ : σ}

structure Inv (exec : String → σ → Option σ) (files : ℕ → List String) (all rows₀ : List String) (schema₀ : σ) (s : State σ) : Prop where
  applied : Applied all rows₀ s.rows
  schema : (s.rows.drop rows₀.length).foldlM (fun schema name => exec name schema) schema₀ = some s.schema
  locked : ∀ i, (s.phase i).locked → s.holder = some i
  place : ∀ i, At s.rows (sorted (files i)) (s.phase i)
  returned : ∀ i ∈ s.returned, sorted (files i) ⊆ s.rows

variable {s : State σ} {i : ℕ}

theorem At.mono {rows rows' names : List String} {p : Phase} (h : At rows names p) (hp : ∀ name todo, p ≠ .applying name todo)
    (hsub : rows ⊆ rows') : At rows' names p := by
  cases p with
  | out | waiting => trivial
  | looking todo =>
    obtain ⟨done, hsplit, hdone⟩ := h
    exact ⟨done, hsplit, fun x hx => hsub (hdone hx)⟩
  | applying name todo => exact absurd rfl (hp name todo)

/-- An instance goes on, and the others stay where they are. -/
theorem Inv.to (hs : Inv exec files all rows₀ schema₀ s) {p : Phase} (hlocked : p.locked → s.holder = some i)
    (hplace : At s.rows (sorted (files i)) p) : Inv exec files all rows₀ schema₀ (s.to i p) where
  applied := hs.applied
  schema := hs.schema
  locked j hj := by
    by_cases hji : j = i
    · subst hji
      exact hlocked (by simpa [State.to] using hj)
    · exact hs.locked j (by simpa [State.to, hji] using hj)
  place j := by
    by_cases hji : j = i
    · subst hji
      simpa [State.to] using hplace
    · simpa [State.to, hji] using hs.place j
  returned := hs.returned

theorem Inv.leave (hs : Inv exec files all rows₀ schema₀ s) : Inv exec files all rows₀ schema₀ (s.leave i) where
  applied := hs.applied
  schema := hs.schema
  locked j hj := by
    have hji : j ≠ i := by
      rintro rfl
      simp [State.leave, State.to, Phase.locked] at hj
    have hholder := hs.locked j (by simpa [State.leave, State.to, hji] using hj)
    simp [State.leave, hholder, hji]
  place j := by
    by_cases hji : j = i
    · subst hji
      simp [State.leave, State.to, At]
    · simpa [State.leave, State.to, hji] using hs.place j
  returned := hs.returned

/-- Only one instance is past its lock. -/
theorem Inv.alone (hs : Inv exec files all rows₀ schema₀ s) (hi : (s.phase i).locked) {j : ℕ} (hj : j ≠ i) : ¬(s.phase j).locked := by
  intro hlocked
  have hsame := (hs.locked j hlocked).symm.trans (hs.locked i hi)
  exact hj (Option.some.inj hsame)

/-- The transaction of a file that has no row. -/
theorem Inv.commit (hs : Inv exec files all rows₀ schema₀ s) (hall : all.Nodup) (hforward : ∀ i, sorted (files i) <+: all) {name : String}
    {todo : List String} (hphase : s.phase i = .applying name todo) {schema : σ} (hexec : exec name s.schema = some schema) :
    Inv exec files all rows₀ schema₀ { s.to i (.looking todo) with schema, rows := s.rows ++ [name] } := by
  have hlocked : (s.phase i).locked := by
    rw [hphase]
    trivial
  obtain ⟨before, hsplit, hbefore, hname⟩ : At s.rows (sorted (files i)) (.applying name todo) := hphase ▸ hs.place i
  obtain ⟨after, hafter⟩ := hforward i
  constructor
  · have hall' : all = before ++ name :: (todo ++ after) := by simp [← hafter, hsplit]
    exact hs.applied.next hall hall' hbefore hname
  · obtain ⟨done, hrows, -⟩ := hs.applied
    have hschema := hs.schema
    simp only [hrows, List.drop_left] at hschema
    simp only [hrows, List.append_assoc, List.drop_left, List.foldlM_append, hschema]
    simp [hexec]
  · intro j hj
    by_cases hji : j = i
    · subst hji
      exact hs.locked j hlocked
    · exact hs.locked j (by simpa [State.to, hji] using hj)
  · intro j
    by_cases hji : j = i
    · subst hji
      simp only [State.to, Function.update_self]
      refine ⟨before ++ [name], by simp [hsplit], fun x hx => ?_⟩
      rcases List.mem_append.mp hx with hmem | hmem
      · exact List.mem_append_left _ (hbefore hmem)
      · exact List.mem_append_right _ hmem
    · have hplace : At s.rows (sorted (files j)) (s.phase j) := hs.place j
      simp only [State.to, Function.update_of_ne hji]
      refine hplace.mono (fun name' todo' heq => ?_) (List.subset_append_left _ _)
      exact hs.alone hlocked hji (by simp [heq, Phase.locked])
  · intro j hj x hx
    exact List.mem_append_left _ (hs.returned j hj hx)

theorem Inv.step (hs : Inv exec files all rows₀ schema₀ s) (hall : all.Nodup) (hforward : ∀ i, sorted (files i) <+: all) (e : Event) :
    Inv exec files all rows₀ schema₀ (step exec files s e) := by
  cases e with
  | start i =>
    simp only [PostgresMigrations.step]
    split_ifs
    · exact hs.to (by simp [Phase.locked]) trivial
    · exact hs
  | lock i =>
    simp only [PostgresMigrations.step]
    split_ifs with hfree
    · refine ⟨hs.applied, hs.schema, fun j hj => ?_, fun j => ?_, hs.returned⟩
      · by_cases hji : j = i
        · rw [hji]
        · have hholder := hs.locked j (by simpa [State.to, hji] using hj)
          rw [hfree.2] at hholder
          cases hholder
      · by_cases hji : j = i
        · subst hji
          simp [State.to, At]
        · simpa [State.to, hji] using hs.place j
    · exact hs
  | look i =>
    simp only [PostgresMigrations.step]
    split
    · rename_i name todo hphase
      have hholder : s.holder = some i := hs.locked i (by simp [hphase, Phase.locked])
      obtain ⟨before, hsplit, hbefore⟩ : At s.rows (sorted (files i)) (.looking (name :: todo)) := hphase ▸ hs.place i
      split_ifs with hrow
      · refine hs.to (fun _ => hholder) ⟨before ++ [name], by simp [hsplit], fun x hx => ?_⟩
        rcases List.mem_append.mp hx with hmem | hmem
        · exact hbefore hmem
        · exact List.mem_singleton.mp hmem ▸ hrow
      · exact hs.to (fun _ => hholder) ⟨before, hsplit, hbefore, hrow⟩
    all_goals exact hs
  | commit i =>
    simp only [PostgresMigrations.step]
    split
    · rename_i name todo hphase
      split
      · rename_i schema hexec
        split_ifs
        · exact hs.leave
        · exact hs.commit hall hforward hphase hexec
      · exact hs.leave
    all_goals exact hs
  | unlock i =>
    simp only [PostgresMigrations.step]
    split_ifs with hphase
    · have hleft := hs.leave (i := i)
      refine ⟨hleft.applied, hleft.schema, hleft.locked, hleft.place, fun j hj => ?_⟩
      rcases List.mem_cons.mp hj with rfl | hj
      · obtain ⟨done, hsplit, hdone⟩ : At s.rows (sorted (files j)) (.looking []) := hphase ▸ hs.place j
        rw [hsplit, List.append_nil]
        exact hdone
      · exact hs.returned j hj
    · exact hs
  | lose i => exact hs.leave

theorem Inv.start : Inv exec files all rows₀ schema₀ (start schema₀ rows₀) where
  applied := ⟨[], by simp [PostgresMigrations.start], by simp⟩
  schema := by simp [PostgresMigrations.start]
  locked i hi := by simp [PostgresMigrations.start, Phase.locked] at hi
  place i := trivial
  returned i hi := by simp [PostgresMigrations.start] at hi

theorem Inv.run (hs : Inv exec files all rows₀ schema₀ s) (hall : all.Nodup) (hforward : ∀ i, sorted (files i) <+: all) (es : List Event) :
    Inv exec files all rows₀ schema₀ (run (PostgresMigrations.step exec files) s es) := by
  induction es generalizing s with
  | nil => exact hs
  | cons e es ih => exact ih (hs.step hall hforward e)

end

/-- However many instances start, fail and are cut off, of whatever versions: the files without a row
are applied in the order of their names, each once, none is skipped, the schema is what they make
of it, and an instance that goes on to serve has all of its own. -/
theorem applied_in_order {σ : Type*} (exec : String → σ → Option σ) {files : ℕ → List String} {all : List String} (hall : all.Nodup)
    (hforward : ∀ i, sorted (files i) <+: all) (schema : σ) (rows : List String) (es : List Event) :
    let s := run (step exec files) (start schema rows) es
    ∃ done, s.rows = rows ++ done ∧ done <+: all.filter (· ∉ rows) ∧ done.foldlM (fun schema name => exec name schema) schema = some s.schema ∧
      ∀ i ∈ s.returned, sorted (files i) ⊆ s.rows := by
  have h₀ : Inv exec files all rows schema (start schema rows) := Inv.start
  have hs := h₀.run hall hforward es
  obtain ⟨done, hrows, hprefix⟩ := hs.applied
  have hschema := hs.schema
  rw [hrows, List.drop_left] at hschema
  exact ⟨done, hrows, hprefix, hschema, hs.returned⟩

/-- The tables of the files. -/
def execTables (name : String) (tables : List String) : Option (List String) :=
  if name = "postgres/0001_core.sql" then some (tables ++ ["organisation"])
  else if name = "postgres/0002_reliability.sql" ∧ "organisation" ∈ tables then some (tables ++ ["monitor"])
  else none

/-- An instance of an older version applies its file, is overtaken by one of a newer version that is cut off, and a third finishes. -/
def threeInstances : List Event :=
  [.start 0, .start 1, .lock 0, .lock 1, .look 0, .commit 0, .unlock 0, .lock 1, .look 1, .look 1, .lose 1, .start 2, .lock 2, .look 2, .look 2,
    .commit 2, .unlock 2]

def twoVersions (i : ℕ) : List String :=
  if i = 0 then ["postgres/0001_core.sql"] else ["postgres/0001_core.sql", "postgres/0002_reliability.sql"]

theorem threeInstances_applied : let s := run (step execTables twoVersions) (start [] []) threeInstances
    ∃ done, s.rows = [] ++ done ∧ done <+: (twoVersions 1).filter (· ∉ []) ∧
      done.foldlM (fun tables name => execTables name tables) [] = some s.schema ∧ ∀ i ∈ s.returned, sorted (twoVersions i) ⊆ s.rows :=
  applied_in_order execTables (by decide)
    (fun i => by by_cases hi : i = 0 <;> simp only [twoVersions, hi] <;> decide +kernel) [] [] threeInstances

end Upstat.PostgresMigrations
