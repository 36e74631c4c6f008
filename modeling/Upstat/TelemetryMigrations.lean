import Upstat.PostgresMigrations
import Upstat.StatementTexts

/-! # The migrations of the telemetry plane (`migrations/migrations.go`)

ClickHouse has no lock and no transaction: every instance looks for a file's row, sends the file's
statements one by one and inserts the row. Instances start in any number and order and may stop
after any request. -/
namespace Upstat.TelemetryMigrations

open GuardedRuns
open PostgresMigrations (sorted)
open StatementTexts (statements)
open StoredDashboards (Text)

def queryUserToken : Text := "\x7b\x7bquery_user\x7d\x7d".toList

/-- `userName` -/
def plainName (u : Text) : Bool := u ≠ [] ∧ u.all fun c => c.isAlphanum ∨ c = '_'

def contains (s sub : Text) : Bool := s.tails.any sub.isPrefixOf

/-- `strings.ReplaceAll` of what is not empty. -/
def replaceAll (old new : Text) : Text → Text
  | [] => []
  | c :: rest => if old.isPrefixOf (c :: rest) then new ++ replaceAll old new (rest.drop (old.length - 1)) else c :: replaceAll old new rest
termination_by s => s.length
decreasing_by all_goals simp only [List.length_cons, List.length_drop]; omega

/-! ## Instances -/

/-- How far an instance has come, with the files that it has still to look for. -/
inductive Phase where
  | out
  | looking (todo : List String)
  /-- It has to ask for the query user that the file names. -/
  | asking (name : String) (todo : List String)
  /-- It has sent the first statements of the file. -/
  | sending (name : String) (sent : ℕ) (todo : List String)
  deriving DecidableEq

/-- What ClickHouse was asked to do, and that it has found a user. -/
inductive Request where
  | found (user : Text)
  | statement (name : String) (user : Text) (index : ℕ)
  deriving DecidableEq

structure State where
  log : List Request
  /-- `schema_migration` -/
  rows : List String
  users : List Text
  phase : ℕ → Phase
  /-- The instances whose call has returned without an error. -/
  returned : List ℕ

inductive Event where
  | start (i : ℕ)
  /-- The next request is answered. -/
  | next (i : ℕ)
  /-- The next request fails. -/
  | fail (i : ℕ)
  /-- The instance stops before it hears of its request. -/
  | cut (i : ℕ)
  | createUser (u : Text)
  | dropUser (u : Text)

section
variable (file : String → Text) (files : ℕ → List String) (queryUser : ℕ → Text)

def needsUser (name : String) : Bool := contains (file name) queryUserToken

/-- The statements of a file for a query user. -/
def statementsFor (name : String) (user : Text) : List Text :=
  statements (if needsUser file name then replaceAll queryUserToken user (file name) else file name)

def State.to (s : State) (i : ℕ) (p : Phase) : State := { s with phase := Function.update s.phase i p }

/-- The next request of `Apply`. -/
def request (s : State) (i : ℕ) : State :=
  match s.phase i with
  | .out => s
  | .looking [] => { s.to i .out with returned := i :: s.returned }
  | .looking (name :: todo) =>
    if name ∈ s.rows then s.to i (.looking todo)
    else if needsUser file name then
      if queryUser i = [] then s.to i (.looking todo) else if plainName (queryUser i) then s.to i (.asking name todo) else s.to i .out
    else s.to i (.sending name 0 todo)
  | .asking name todo =>
    if s.users.any (· = queryUser i) then { s.to i (.sending name 0 todo) with log := s.log ++ [.found (queryUser i)] } else s.to i .out
  | .sending name sent todo =>
    if sent < (statementsFor file name (queryUser i)).length then
      { s.to i (.sending name (sent + 1) todo) with log := s.log ++ [.statement name (queryUser i) sent] }
    else { s.to i (.looking todo) with rows := s.rows ++ [name] }

def step (s : State) : Event → State
  | .start i => if s.phase i = .out then s.to i (.looking (sorted (files i))) else s
  | .next i => request file queryUser s i
  | .fail i => s.to i .out
  | .cut i => { (request file queryUser s i).to i .out with returned := s.returned }
  | .createUser u => { s with users := u :: s.users }
  | .dropUser u => { s with users := s.users.filter (· ≠ u) }

def start (rows : List String) (users : List Text) : State := ⟨[], rows, users, fun _ => .out, []⟩

/-! ## What has been executed -/

/-- A file that names the query user is sent for one that was found. -/
def Ready (log : List Request) (name : String) (user : Text) : Prop :=
  needsUser file name = true → plainName user = true ∧ Request.found user ∈ log

/-- All of the file's statements. -/
def Complete (log : List Request) (name : String) : Prop :=
  ∃ user, Ready file log name user ∧ ∀ j < (statementsFor file name user).length, Request.statement name user j ∈ log

variable (all rows₀ : List String)

/-- A statement comes after the earlier ones of its file, and after all of every earlier file but
those that an instance without a query user leaves. -/
def Fits (log : List Request) : Request → Prop
  | .found _ => True
  | .statement name user k => k < (statementsFor file name user).length ∧ Ready file log name user ∧
      (∀ j < k, Request.statement name user j ∈ log) ∧
      ∀ before after, all = before ++ name :: after → ∀ n ∈ before, n ∈ rows₀ ∨ needsUser file n = true ∨ Complete file log n

def InOrder (log : List Request) : Prop := ∀ l r, l ++ [r] <+: log → Fits file all rows₀ l r

/-- A file that the instance leaves for a later start. -/
def Left (i : ℕ) (name : String) : Prop := needsUser file name = true ∧ queryUser i = []

def Done (rows : List String) (i : ℕ) (names : List String) : Prop := ∀ n ∈ names, n ∈ rows ∨ Left file queryUser i n

/-- What an instance knows of the files before the one it is at, and of that one. -/
def At (log : List Request) (rows : List String) (i : ℕ) : Phase → Prop
  | .out => True
  | .looking todo => ∃ done, sorted (files i) = done ++ todo ∧ Done file queryUser rows i done
  | .asking name todo => plainName (queryUser i) = true ∧ ∃ done, sorted (files i) = done ++ name :: todo ∧ Done file queryUser rows i done
  | .sending name sent todo => Ready file log name (queryUser i) ∧ (∀ j < sent, Request.statement name (queryUser i) j ∈ log) ∧
      ∃ done, sorted (files i) = done ++ name :: todo ∧ Done file queryUser rows i done

structure Inv (s : State) : Prop where
  at_ : ∀ i, At file files queryUser s.log s.rows i (s.phase i)
  rows : ∀ n ∈ s.rows, n ∈ rows₀ ∨ Complete file s.log n
  order : InOrder file all rows₀ s.log
  returned : ∀ i ∈ s.returned, Done file queryUser s.rows i (sorted (files i))

end

section
variable {file : String → Text} {files : ℕ → List String} {queryUser : ℕ → Text} {all rows₀ log log' rows rows' : List _}

theorem Ready.mono {name : String} {user : Text} (h : Ready file log name user) (hlog : log ⊆ log') : Ready file log' name user :=
  fun hneeds => ⟨(h hneeds).1, hlog (h hneeds).2⟩

theorem Complete.mono {name : String} (h : Complete file log name) (hlog : log ⊆ log') : Complete file log' name := by
  obtain ⟨user, hready, hall⟩ := h
  exact ⟨user, hready.mono hlog, fun j hj => hlog (hall j hj)⟩

theorem Done.mono {i : ℕ} {names : List String} (h : Done file queryUser rows i names) (hrows : rows ⊆ rows') :
    Done file queryUser rows' i names := fun n hn => (h n hn).imp_left (hrows ·)

theorem At.mono {i : ℕ} {p : Phase} (h : At file files queryUser log rows i p) (hlog : log ⊆ log') (hrows : rows ⊆ rows') :
    At file files queryUser log' rows' i p := by
  cases p with
  | out => trivial
  | looking todo =>
    obtain ⟨done, hsplit, hdone⟩ := h
    exact ⟨done, hsplit, hdone.mono hrows⟩
  | asking name todo =>
    obtain ⟨hplain, done, hsplit, hdone⟩ := h
    exact ⟨hplain, done, hsplit, hdone.mono hrows⟩
  | sending name sent todo =>
    obtain ⟨hready, hsent, done, hsplit, hdone⟩ := h
    exact ⟨hready.mono hlog, fun j hj => hlog (hsent j hj), done, hsplit, hdone.mono hrows⟩

theorem InOrder.snoc {r : Request} (h : InOrder file all rows₀ log) (hr : Fits file all rows₀ log r) : InOrder file all rows₀ (log ++ [r]) := by
  intro l r' hprefix
  rcases List.prefix_concat_iff.mp hprefix with heq | hprefix
  · obtain ⟨rfl, hlast⟩ := List.append_inj' heq rfl
    obtain rfl := List.singleton_inj.mp hlast
    exact hr
  · exact h l r' hprefix

variable {s : State}

/-- An instance moves on, and what it asked for is done. -/
theorem Inv.advance (h : Inv file files queryUser all rows₀ s) {i : ℕ} {p : Phase} {log' : List Request} {rows' : List String}
    (hlog : s.log ⊆ log') (hrows : s.rows ⊆ rows') (hat : At file files queryUser log' rows' i p)
    (hnew : ∀ n ∈ rows', n ∈ s.rows ∨ Complete file log' n) (horder : InOrder file all rows₀ log') :
    Inv file files queryUser all rows₀ { s.to i p with log := log', rows := rows' } where
  at_ j := by
    change At file files queryUser log' rows' j (Function.update s.phase i p j)
    by_cases hj : j = i
    · subst hj
      rw [Function.update_self]
      exact hat
    · rw [Function.update_of_ne hj]
      exact (h.at_ j).mono hlog hrows
  rows n hn := (hnew n hn).elim (fun hold => (h.rows n hold).imp_right (·.mono hlog)) .inr
  order := horder
  returned j hj := (h.returned j hj).mono hrows

theorem Inv.to (h : Inv file files queryUser all rows₀ s) {i : ℕ} {p : Phase} (hat : At file files queryUser s.log s.rows i p) :
    Inv file files queryUser all rows₀ (s.to i p) :=
  h.advance (List.Subset.refl _) (List.Subset.refl _) hat (fun _ hn => .inl hn) h.order

/-- The files before one that is at its turn. -/
theorem Inv.before (h : Inv file files queryUser all rows₀ s) (hall : all.Nodup) {i : ℕ} (hforward : sorted (files i) <+: all) {name : String}
    {done todo : List String} (hsplit : sorted (files i) = done ++ name :: todo) (hdone : Done file queryUser s.rows i done)
    {before after : List String} (hname : all = before ++ name :: after) :
    ∀ n ∈ before, n ∈ rows₀ ∨ needsUser file n = true ∨ Complete file s.log n := by
  obtain ⟨rest, hrest⟩ := hforward
  have hsame : done = before := by
    rw [hsplit, hname, List.append_assoc, List.cons_append] at hrest
    have hnodup : (done ++ name :: (todo ++ rest)).Nodup := by
      rw [hrest, ← hname]
      exact hall
    have hdone' : name ∉ done := fun hmem => (List.nodup_append.mp hnodup).2.2 name hmem name List.mem_cons_self rfl
    have hrest' : name ∉ todo ++ rest := (List.nodup_cons.mp (List.nodup_append.mp hnodup).2.1).1
    exact ((List.append_cons_inj_of_notMem hdone' hrest').mp hrest).1
  subst hsame
  intro n hn
  rcases hdone n hn with hrow | ⟨hneeds, -⟩
  · exact (h.rows n hrow).imp_right .inr
  · exact .inr (.inl hneeds)

theorem Inv.request (h : Inv file files queryUser all rows₀ s) (hall : all.Nodup) (hforward : ∀ i, sorted (files i) <+: all) (i : ℕ) :
    Inv file files queryUser all rows₀ (request file queryUser s i) := by
  have hat := h.at_ i
  unfold TelemetryMigrations.request
  split
  · exact h
  · -- Every file is done.
    next hphase =>
    rw [hphase] at hat
    obtain ⟨done, hsplit, hdone⟩ := hat
    rw [List.append_nil] at hsplit
    have hout := h.to (i := i) (p := .out) trivial
    refine ⟨hout.at_, hout.rows, hout.order, fun j hj => ?_⟩
    rcases List.mem_cons.mp hj with rfl | hj
    · rw [hsplit]
      exact hdone
    · exact h.returned j hj
  · next name todo hphase =>
    rw [hphase] at hat
    obtain ⟨done, hsplit, hdone⟩ := hat
    have hskip : Done file queryUser s.rows i [name] → At file files queryUser s.log s.rows i (.looking todo) := by
      intro hname
      refine ⟨done ++ [name], by simp [hsplit], fun n hn => ?_⟩
      exact (List.mem_append.mp hn).elim (hdone n) (hname n)
    split_ifs with hrow hneeds hempty hplain
    · exact h.to (hskip fun n hn => .inl (List.mem_singleton.mp hn ▸ hrow))
    · exact h.to (hskip fun n hn => .inr (List.mem_singleton.mp hn ▸ ⟨hneeds, hempty⟩))
    · exact h.to ⟨hplain, done, hsplit, hdone⟩
    · exact h.to trivial
    · exact h.to ⟨fun hneeds' => absurd hneeds' hneeds, nofun, done, hsplit, hdone⟩
  · next name todo hphase =>
    rw [hphase] at hat
    obtain ⟨hplain, done, hsplit, hdone⟩ := hat
    split_ifs with huser
    · refine h.advance (List.subset_append_left _ _) (List.Subset.refl _) ?_ (fun _ hn => .inl hn) (h.order.snoc trivial)
      exact ⟨fun _ => ⟨hplain, by simp⟩, nofun, done, hsplit, hdone⟩
    · exact h.to trivial
  · next name sent todo hphase =>
    rw [hphase] at hat
    obtain ⟨hready, hsent, done, hsplit, hdone⟩ := hat
    split_ifs with hmore
    · -- The next statement.
      refine h.advance (List.subset_append_left _ _) (List.Subset.refl _) ?_ (fun _ hn => .inl hn) (h.order.snoc ?_)
      · refine ⟨hready.mono (List.subset_append_left _ _), fun j hj => ?_, done, hsplit, hdone⟩
        rcases Nat.lt_succ_iff_lt_or_eq.mp hj with hj | rfl
        · exact List.mem_append_left _ (hsent j hj)
        · simp
      · exact ⟨hmore, hready, hsent, fun _ _ hname => h.before hall (hforward i) hsplit hdone hname⟩
    · -- The row of the file.
      have hcomplete : Complete file s.log name := ⟨_, hready, fun j hj => hsent j (hj.trans_le (not_lt.mp hmore))⟩
      refine h.advance (List.Subset.refl _) (List.subset_append_left _ _) ?_ (fun n hn => ?_) h.order
      · refine ⟨done ++ [name], by simp [hsplit], fun n hn => ?_⟩
        rcases List.mem_append.mp hn with hn | hn
        · exact (hdone n hn).imp_left (List.mem_append_left _ ·)
        · exact .inl (List.mem_append_right _ hn)
      · rcases List.mem_append.mp hn with hn | hn
        · exact .inl hn
        · exact .inr (List.mem_singleton.mp hn ▸ hcomplete)

theorem returned_request (i : ℕ) : s.returned ⊆ (request file queryUser s i).returned := by
  unfold TelemetryMigrations.request
  split
  · exact List.Subset.refl _
  · exact List.subset_cons_self _ _
  all_goals split_ifs <;> exact List.Subset.refl _

theorem Inv.step (h : Inv file files queryUser all rows₀ s) (hall : all.Nodup) (hforward : ∀ i, sorted (files i) <+: all) (e : Event) :
    Inv file files queryUser all rows₀ (step file files queryUser s e) := by
  cases e with
  | start i =>
    change Inv file files queryUser all rows₀ (if s.phase i = .out then s.to i (.looking (sorted (files i))) else s)
    split_ifs
    · exact h.to ⟨[], rfl, nofun⟩
    · exact h
  | next i => exact h.request hall hforward i
  | fail i => exact h.to trivial
  | cut i =>
    have hout := (h.request hall hforward i).to (i := i) (p := .out) trivial
    refine ⟨hout.at_, hout.rows, hout.order, fun j hj => hout.returned j (returned_request i hj)⟩
  | createUser u => exact ⟨h.at_, h.rows, h.order, h.returned⟩
  | dropUser u => exact ⟨h.at_, h.rows, h.order, h.returned⟩

theorem inv_start (rows : List String) (users : List Text) : Inv file files queryUser all rows (start rows users) where
  at_ _ := trivial
  rows _ hn := .inl hn
  order l r hprefix := absurd (List.prefix_nil.mp hprefix) (by simp)
  returned := nofun

theorem Inv.run (h : Inv file files queryUser all rows₀ s) (hall : all.Nodup) (hforward : ∀ i, sorted (files i) <+: all) (es : List Event) :
    Inv file files queryUser all rows₀ (run (TelemetryMigrations.step file files queryUser) s es) := by
  induction es generalizing s with
  | nil => exact h
  | cons e es ih => exact ih (h.step hall hforward e)

end

/-- However many instances send their statements at once, fail and are cut off, of whatever versions
and with or without a query user: every statement is executed after the earlier ones of its file and
all of the files before, only for a query user that was found, a file gets its row after all of its
statements, and an instance that goes on to serve has a row for all of its files but those that wait
for a query user. -/
theorem executed_in_order (file : String → Text) {files : ℕ → List String} (queryUser : ℕ → Text) {all : List String} (hall : all.Nodup)
    (hforward : ∀ i, sorted (files i) <+: all) (rows : List String) (users : List Text) (es : List Event) :
    let s := run (step file files queryUser) (start rows users) es
    InOrder file all rows s.log ∧ (∀ n ∈ s.rows, n ∈ rows ∨ Complete file s.log n) ∧
      ∀ i ∈ s.returned, ∀ n ∈ files i, n ∈ s.rows ∨ needsUser file n = true ∧ queryUser i = [] := by
  have h₀ : Inv file files queryUser all rows (start rows users) := inv_start rows users
  have hs := h₀.run hall hforward es
  exact ⟨hs.order, hs.rows, fun i hi n hn => hs.returned i hi n ((List.mem_insertionSort _).mpr hn)⟩

def tenancy : String := "clickhouse/0002_tenancy.sql"

def policies : String := "clickhouse/0003_row_policies.sql"

def twoFiles (name : String) : Text :=
  if name = tenancy then "DROP VIEW v;\nCREATE VIEW v;\n".toList else "-- one\nCREATE ROW POLICY TO \x7b\x7bquery_user\x7d\x7d;\n".toList

/-- The first instance has no query user. -/
def users (i : ℕ) : Text := if i = 0 then [] else ['r', 'o']

def twoInstances : List Event :=
  [.start 0, .start 1, .next 0, .next 1, .next 0, .next 1, .next 0, .next 0, .next 0, .next 0] ++ List.replicate 8 (.next 1)

theorem twoInstances_executed :
    let s := run (step twoFiles (fun _ => [policies, tenancy]) users) (start [] [['r', 'o']]) twoInstances
    InOrder twoFiles [tenancy, policies] [] s.log ∧ s.rows = [tenancy, tenancy, policies] ∧ s.returned = [1, 0] := by
  have hsorted : sorted [policies, tenancy] = [tenancy, policies] := by decide +kernel
  have hforward : ∀ _ : ℕ, sorted [policies, tenancy] <+: [tenancy, policies] := fun _ => hsorted ▸ List.prefix_rfl
  obtain ⟨horder, -, -⟩ := executed_in_order twoFiles users (by decide) hforward [] [['r', 'o']] twoInstances
  exact ⟨horder, by decide +kernel, by decide +kernel⟩

/-- A row does not say that a file's statements were the last: the view is dropped again by an
instance that had not seen the row and stops there. -/
example :
    let es : List Event := [.start 0, .start 1, .next 0, .next 1, .next 0, .next 0, .next 0, .cut 1]
    let s := run (step twoFiles (fun _ => [tenancy]) users) (start [] []) es
    s.rows = [tenancy] ∧ s.log.getLast? = some (.statement tenancy ['r', 'o'] 0) := by
  decide +kernel

end Upstat.TelemetryMigrations
