import Mathlib.Data.List.Rotate
import Mathlib.Algebra.Order.Ring.Rat
import Upstat.GuardedRuns

/-! # Whose turn it is among the rules (`evaluation.py`, `settle.py`)

`run` evaluates the objectives when they are due and then the rules, from a cursor on that it writes at the end. A pass ends
early at its deadline, which it looks at between two evaluations, or by being cancelled by the phase that runs it, whose
timer is for the same instant. -/
namespace Upstat.RuleRotation

open GuardedRuns

def sloEverySeconds : ℚ := 300

/-- What comes of an item: no time is left for it, or `_guard` ends with it, or the pass is cancelled while it is evaluated. -/
inductive Choice | cut | done | failed | cancelled
  deriving DecidableEq

inductive Ending | through | cut | cancelled
  deriving DecidableEq

/-- What a loop over items has come to. -/
structure Swept (ι : Type*) where
  attempted : List ι := []
  done : ℕ := 0
  failed : ℕ := 0
  ending : Ending := .through

def sweep {ι : Type*} (choice : ℕ → Choice) : ℕ → List ι → Swept ι
  | _, [] => {}
  | i, x :: xs =>
    match choice i with
    | .cut => { ending := .cut }
    | .cancelled => { attempted := [x], ending := .cancelled }
    | .done =>
      let rest := sweep choice (i + 1) xs
      { rest with attempted := x :: rest.attempted, done := rest.done + 1 }
    | .failed =>
      let rest := sweep choice (i + 1) xs
      { rest with attempted := x :: rest.attempted, failed := rest.failed + 1 }

/-- The state of `slo:last` and of `rules:cursor`, which is not there at first. -/
structure Store where
  sloLast : ℚ := 0
  cursor : Option ℕ := none

/-- When a pass runs and how its evaluations end. It may be cancelled before its rules, and in its last write, which may
be done all the same. -/
structure Pass where
  now : ℚ
  slos : ℕ → Choice
  rules : ℕ → Choice
  reachesRules : Bool := true
  writesCursor : Bool := true

structure Report where
  rules : ℕ
  failed : ℕ
  skipped : ℤ

section
variable {σ ρ : Type*} (slos : List σ) (rules : List ρ)

/-- The evaluations of the objectives, if they are due. -/
def sloSweep (s : Store) (p : Pass) : Swept σ := if sloEverySeconds ≤ p.now - s.sloLast then sweep p.slos 0 slos else {}

/-- Where the rules begin. -/
def cursorOf (s : Store) : ℕ := if rules = [] then 0 else s.cursor.getD 0 % rules.length

def ruleSweep (s : Store) (p : Pass) : Swept ρ :=
  sweep p.rules 0 (rules.drop (cursorOf rules s) ++ rules.take (cursorOf rules s))

/-- A pass: the state it leaves, the rules it attempts, and what it reports if it is not cancelled. -/
def runPass (s : Store) (p : Pass) : Store × List ρ × Option Report :=
  let slo := sloSweep slos s p
  if slo.ending = .cancelled then (s, [], none)
  else
    let s' := if sloEverySeconds ≤ p.now - s.sloLast ∧ slo.ending = .through then { s with sloLast := p.now } else s
    if p.reachesRules = false then (s', [], none)
    else
      let swept := ruleSweep rules s p
      let failed := slo.failed + swept.failed
      if swept.ending = .cancelled then (s', swept.attempted, none)
      else if p.writesCursor = false then (s', swept.attempted, none)
      else
        (if rules = [] then s' else { s' with cursor := some (cursorOf rules s + swept.done + failed) }, swept.attempted,
          some ⟨swept.done, failed, if swept.ending = .cut then rules.length - swept.done - failed else 0⟩)

end

/-! ## One loop -/

section
variable {ι : Type*} (choice : ℕ → Choice)

/-- Of so many items from the `i`-th on, those evaluated before one is cut or cancelled. -/
def evaluated (i n : ℕ) : List ℕ := (List.range' i n).takeWhile fun j => choice j = .done ∨ choice j = .failed

/-- An item is evaluated when the loop is cancelled. -/
def CancelledIn (i n : ℕ) : Prop := (evaluated choice i n).length < n ∧ choice (i + (evaluated choice i n).length) = .cancelled

instance (i n : ℕ) : Decidable (CancelledIn choice i n) := by
  unfold CancelledIn
  infer_instance

def failures (i n : ℕ) : ℕ := (evaluated choice i n).countP fun j => choice j = .failed

def attempts (i n : ℕ) : ℕ := (evaluated choice i n).length + if CancelledIn choice i n then 1 else 0

variable {choice}

theorem evaluated_succ {i n : ℕ} (h : choice i = .done ∨ choice i = .failed) :
    evaluated choice i (n + 1) = i :: evaluated choice (i + 1) n := by
  simp only [evaluated, List.range'_succ]
  exact List.takeWhile_cons_of_pos (by simpa using h)

theorem evaluated_stop {i n : ℕ} (h : ¬(choice i = .done ∨ choice i = .failed)) : evaluated choice i (n + 1) = [] := by
  simp only [evaluated, List.range'_succ]
  exact List.takeWhile_cons_of_neg (by simpa using h)

theorem cancelledIn_succ {i n : ℕ} (h : choice i = .done ∨ choice i = .failed) :
    CancelledIn choice i (n + 1) ↔ CancelledIn choice (i + 1) n := by
  simp only [CancelledIn, evaluated_succ h, List.length_cons]
  rw [Nat.add_lt_add_iff_right, Nat.add_right_comm, ← Nat.add_assoc]

theorem attempts_succ {i n : ℕ} (h : choice i = .done ∨ choice i = .failed) :
    attempts choice i (n + 1) = attempts choice (i + 1) n + 1 := by
  simp only [attempts, evaluated_succ h, cancelledIn_succ h, List.length_cons]
  exact Nat.add_right_comm _ _ _

theorem sweep_ending (i : ℕ) (xs : List ι) : (sweep choice i xs).ending = .cancelled ↔ CancelledIn choice i xs.length := by
  induction xs generalizing i with
  | nil => simp [sweep, CancelledIn]
  | cons x xs ih =>
    simp only [sweep, List.length_cons]
    cases hx : choice i with
    | cut =>
      have hstop : evaluated choice i (xs.length + 1) = [] := evaluated_stop (by simp [hx])
      simp [CancelledIn, hstop, hx]
    | cancelled =>
      have hstop : evaluated choice i (xs.length + 1) = [] := evaluated_stop (by simp [hx])
      simp [CancelledIn, hstop, hx]
    | done =>
      rw [cancelledIn_succ (Or.inl hx)]
      exact ih (i + 1)
    | failed =>
      rw [cancelledIn_succ (Or.inr hx)]
      exact ih (i + 1)

theorem sweep_failed (i : ℕ) (xs : List ι) : (sweep choice i xs).failed = failures choice i xs.length := by
  induction xs generalizing i with
  | nil => rfl
  | cons x xs ih =>
    simp only [sweep, failures, List.length_cons]
    cases hx : choice i with
    | cut =>
      rw [evaluated_stop (by simp [hx])]
      rfl
    | cancelled =>
      rw [evaluated_stop (by simp [hx])]
      rfl
    | done =>
      rw [evaluated_succ (Or.inl hx), List.countP_cons_of_neg (by simp [hx])]
      exact ih (i + 1)
    | failed =>
      rw [evaluated_succ (Or.inr hx), List.countP_cons_of_pos (by simp [hx])]
      exact congrArg (· + 1) (ih (i + 1))

theorem sweep_attempts (i : ℕ) (xs : List ι) : (sweep choice i xs).attempted.length = attempts choice i xs.length := by
  induction xs generalizing i with
  | nil => simp [sweep, attempts, CancelledIn, evaluated]
  | cons x xs ih =>
    simp only [sweep, List.length_cons]
    cases hx : choice i with
    | cut =>
      have hstop : evaluated choice i (xs.length + 1) = [] := evaluated_stop (by simp [hx])
      simp [attempts, CancelledIn, hstop, hx]
    | cancelled =>
      have hstop : evaluated choice i (xs.length + 1) = [] := evaluated_stop (by simp [hx])
      simp [attempts, CancelledIn, hstop, hx]
    | done =>
      rw [attempts_succ (Or.inl hx)]
      exact congrArg (· + 1) (ih (i + 1))
    | failed =>
      rw [attempts_succ (Or.inr hx)]
      exact congrArg (· + 1) (ih (i + 1))

/-- The items attempted are the first ones, and each counts unless the loop is cancelled in it. -/
theorem sweep_spec (i : ℕ) (xs : List ι) : (sweep choice i xs).attempted <+: xs ∧
    ((sweep choice i xs).ending ≠ .cancelled →
      (sweep choice i xs).done + (sweep choice i xs).failed = (sweep choice i xs).attempted.length) := by
  induction xs generalizing i with
  | nil => exact ⟨List.prefix_refl _, fun _ => rfl⟩
  | cons x xs ih =>
    obtain ⟨hfirst, hcount⟩ := ih (i + 1)
    unfold sweep
    cases choice i with
    | cut => exact ⟨List.nil_prefix, fun _ => rfl⟩
    | cancelled => exact ⟨⟨xs, rfl⟩, fun h => absurd rfl h⟩
    | done =>
      refine ⟨List.cons_prefix_cons.mpr ⟨rfl, hfirst⟩, fun h => ?_⟩
      have hrest := hcount h
      simp only [List.length_cons]
      omega
    | failed =>
      refine ⟨List.cons_prefix_cons.mpr ⟨rfl, hfirst⟩, fun h => ?_⟩
      have hrest := hcount h
      simp only [List.length_cons]
      omega

end

/-! ## Rounds -/

section
variable {ρ : Type*} {rules : List ρ}

/-- The rules from the `k`-th turn on, round after round. -/
def turns (rules : List ρ) (k n : ℕ) : List (Option ρ) := (List.range' k n).map fun i => rules[i % rules.length]?

/-- Where a rule is not attempted, none is attempted twice. -/
def Fair (rules attempted : List ρ) : Prop := ∀ part, part <:+: attempted → (∃ r ∈ rules, r ∉ part) → part.Nodup

theorem turns_append (k m n : ℕ) : turns rules k (m + n) = turns rules k m ++ turns rules (k + m) n := by
  rw [turns, turns, turns, ← List.map_append, List.range'_append_1]

theorem turns_congr {k k' : ℕ} (h : k % rules.length = k' % rules.length) (n : ℕ) : turns rules k n = turns rules k' n := by
  induction n generalizing k k' with
  | zero => rfl
  | succ n ih =>
    have hnext : (k + 1) % rules.length = (k' + 1) % rules.length := by rw [Nat.add_mod, h, ← Nat.add_mod]
    simp only [turns, List.range'_succ, List.map_cons, h] at ih ⊢
    rw [ih hnext]

/-- The rules of a pass are those of the turns from the cursor on. -/
theorem take_turns {c : ℕ} (hc : c ≤ rules.length) {n : ℕ} (hn : n ≤ rules.length) :
    ((rules.drop c ++ rules.take c).take n).map some = turns rules c n := by
  apply List.ext_getElem?
  intro i
  rw [← List.rotate_eq_drop_append_take hc, turns, List.getElem?_map, List.getElem?_map, List.getElem?_take]
  by_cases hi : i < n
  · have hlt : (i + c) % rules.length < rules.length := Nat.mod_lt _ (Nat.zero_lt_of_lt (hi.trans_le hn))
    rw [if_pos hi, List.getElem?_rotate (hi.trans_le hn), List.getElem?_range' hi, List.getElem?_eq_getElem hlt, Option.map_some,
      Option.map_some, Nat.one_mul, Nat.add_comm c i, List.getElem?_eq_getElem hlt]
  · have hlong : (List.range' c n)[i]? = none := List.getElem?_eq_none (by simpa using hi)
    rw [if_neg hi, hlong]
    rfl

theorem eq_of_mod_eq {i j k n : ℕ} (hi : k ≤ i ∧ i < k + n) (hj : k ≤ j ∧ j < k + n) (h : i % n = j % n) : i = j := by
  have hle : ∀ {a b : ℕ}, k ≤ a → b < k + n → a ≤ b → a % n = b % n → a = b := by
    intro a b ha hb hab hmod
    have hdvd : n ∣ b - a := Nat.dvd_of_mod_eq_zero (Nat.sub_mod_eq_zero_of_mod_eq hmod.symm)
    have hzero : b - a = 0 := Nat.eq_zero_of_dvd_of_lt hdvd (by omega)
    omega
  rcases Nat.le_total i j with hij | hji
  · exact hle hi.1 hj.2 hij h
  · exact (hle hj.1 hi.2 hji h.symm).symm

/-- A round has every rule. -/
theorem mem_turns {r : ρ} (hr : r ∈ rules) (k : ℕ) {n : ℕ} (hn : rules.length ≤ n) : some r ∈ turns rules k n := by
  obtain ⟨j, hj, rfl⟩ := List.mem_iff_getElem.mp hr
  have hpos : 0 < rules.length := Nat.zero_lt_of_lt hj
  have hoffset : k % rules.length + (j + (rules.length - k % rules.length)) = j + rules.length := by
    have hlt : k % rules.length < rules.length := Nat.mod_lt k hpos
    omega
  apply List.mem_map.mpr
  refine ⟨k + (j + (rules.length - k % rules.length)) % rules.length, ?_, ?_⟩
  · rw [List.mem_range'_1]
    have hlt := Nat.mod_lt (j + (rules.length - k % rules.length)) hpos
    omega
  · rw [Nat.add_mod, Nat.mod_mod, ← Nat.add_mod, ← Nat.mod_add_mod, hoffset, Nat.add_mod_right, Nat.mod_eq_of_lt hj]
    exact List.getElem?_eq_getElem hj

/-- In one round no rule comes twice. -/
theorem nodup_turns (hnodup : rules.Nodup) (k : ℕ) {n : ℕ} (hn : n ≤ rules.length) : (turns rules k n).Nodup := by
  have hrange : (List.range' k n).Nodup := List.nodup_range'
  apply hrange.map_on
  intro i hi j hj h
  rw [List.mem_range'_1] at hi hj
  have hlt : i % rules.length < rules.length := Nat.mod_lt i (by omega)
  have hmod : i % rules.length = j % rules.length := (List.getElem?_inj hlt hnodup).mp h
  exact eq_of_mod_eq (k := k) ⟨hi.1, by omega⟩ ⟨hj.1, by omega⟩ hmod

theorem fair_of_turns (hnodup : rules.Nodup) {k : ℕ} {attempted : List ρ} (h : attempted.map some = turns rules k attempted.length) :
    Fair rules attempted := by
  rintro part ⟨before, after, rfl⟩ ⟨r, hr, hmissing⟩
  rw [List.append_assoc, List.length_append, List.length_append, turns_append, turns_append, List.map_append, List.map_append] at h
  obtain ⟨-, hrest⟩ := List.append_inj h (by simp [turns])
  obtain ⟨hpart, -⟩ := List.append_inj hrest (by simp [turns])
  rcases Nat.lt_or_ge part.length rules.length with hshort | hlong
  · have hnodup' : (part.map some).Nodup := hpart ▸ nodup_turns hnodup _ hshort.le
    exact hnodup'.of_map
  · have hmem : some r ∈ part.map some := hpart ▸ mem_turns hr _ hlong
    exact absurd (by simpa using hmem) hmissing

end

/-! ## Passes -/

section
variable {σ ρ : Type*} {slos : List σ} {rules : List ρ} {s : Store} {p : Pass}

/-- No objective is evaluated when the pass is cancelled. -/
def SlosEnd (slos : List σ) (s : Store) (p : Pass) : Prop := sloEverySeconds ≤ p.now - s.sloLast → ¬CancelledIn p.slos 0 slos.length

/-- The pass comes to the end of its loops and writes where it has stopped. -/
def Written (slos : List σ) (rules : List ρ) (s : Store) (p : Pass) : Prop :=
  SlosEnd slos s p ∧ p.reachesRules = true ∧ ¬CancelledIn p.rules 0 rules.length ∧ p.writesCursor = true

instance : Decidable (SlosEnd slos s p) := by
  unfold SlosEnd
  infer_instance

instance : Decidable (Written slos rules s p) := by
  unfold Written
  infer_instance

def sloFailures (slos : List σ) (s : Store) (p : Pass) : ℕ :=
  if sloEverySeconds ≤ p.now - s.sloLast then failures p.slos 0 slos.length else 0

theorem sloSweep_ending : (sloSweep slos s p).ending = .cancelled ↔ ¬SlosEnd slos s p := by
  unfold sloSweep SlosEnd
  split
  · rename_i hdue
    rw [sweep_ending, Classical.not_imp, not_not]
    exact ⟨fun h => ⟨hdue, h⟩, fun h => h.2⟩
  · rename_i hdue
    exact ⟨nofun, fun h => absurd (fun hdue' => absurd hdue' hdue) h⟩

theorem sloSweep_failed : (sloSweep slos s p).failed = sloFailures slos s p := by
  unfold sloSweep sloFailures
  split
  · exact sweep_failed 0 slos
  · rfl

theorem cursorOf_le : cursorOf rules s ≤ rules.length := by
  unfold cursorOf
  split
  · exact Nat.zero_le _
  · rename_i hne
    exact (Nat.mod_lt _ (List.length_pos_iff.mpr hne)).le

theorem length_cursorOf : (rules.drop (cursorOf rules s) ++ rules.take (cursorOf rules s)).length = rules.length := by
  have hle : cursorOf rules s ≤ rules.length := cursorOf_le
  rw [List.length_append, List.length_drop, List.length_take]
  omega

theorem ruleSweep_ending : (ruleSweep rules s p).ending = .cancelled ↔ CancelledIn p.rules 0 rules.length := by
  rw [ruleSweep, sweep_ending, length_cursorOf]

theorem ruleSweep_attempts : (ruleSweep rules s p).attempted.length = attempts p.rules 0 rules.length := by
  rw [ruleSweep, sweep_attempts, length_cursorOf]

theorem runPass_written (h : Written slos rules s p) : (runPass slos rules s p).2.1 = (ruleSweep rules s p).attempted ∧
    (rules ≠ [] → (runPass slos rules s p).1.cursor =
      some (cursorOf rules s + (ruleSweep rules s p).attempted.length + sloFailures slos s p)) := by
  obtain ⟨hslo, hreaches, hrules, hwrites⟩ := h
  have hsloEnding : (sloSweep slos s p).ending ≠ .cancelled := fun h => sloSweep_ending.mp h hslo
  have hruleEnding : (ruleSweep rules s p).ending ≠ .cancelled := fun h => hrules (ruleSweep_ending.mp h)
  have hcount : (ruleSweep rules s p).done + (ruleSweep rules s p).failed = (ruleSweep rules s p).attempted.length :=
    (sweep_spec _ _).2 hruleEnding
  simp only [runPass, hsloEnding, hreaches, hruleEnding, hwrites, if_false, reduceCtorEq, sloSweep_failed]
  refine ⟨trivial, fun hne => ?_⟩
  rw [if_neg hne]
  simp only [Option.some.injEq]
  omega

/-- A pass that is cancelled leaves the cursor, and has attempted rules if it has come to them. -/
theorem runPass_unwritten (h : ¬Written slos rules s p) : (runPass slos rules s p).1.cursor = s.cursor ∧
    (runPass slos rules s p).2.1 = if SlosEnd slos s p ∧ p.reachesRules = true then (ruleSweep rules s p).attempted else [] := by
  have hstamp : (if sloEverySeconds ≤ p.now - s.sloLast ∧ (sloSweep slos s p).ending = .through then { s with sloLast := p.now }
      else s).cursor = s.cursor := by
    split <;> rfl
  unfold runPass
  dsimp only
  by_cases hslo : SlosEnd slos s p
  · rw [if_neg (fun hending => sloSweep_ending.mp hending hslo)]
    by_cases hreaches : p.reachesRules = true
    · have hcome : (if SlosEnd slos s p ∧ p.reachesRules = true then (ruleSweep rules s p).attempted else []) =
          (ruleSweep rules s p).attempted := if_pos ⟨hslo, hreaches⟩
      rw [hcome, if_neg (by rw [hreaches]; decide)]
      by_cases hrules : CancelledIn p.rules 0 rules.length
      · rw [if_pos (ruleSweep_ending.mpr hrules)]
        exact ⟨hstamp, rfl⟩
      · rw [if_neg (fun hending => hrules (ruleSweep_ending.mp hending))]
        by_cases hwrites : p.writesCursor = true
        · exact absurd ⟨hslo, hreaches, hrules, hwrites⟩ h
        · rw [if_pos (by simpa using hwrites)]
          exact ⟨hstamp, rfl⟩
    · have hcome : (if SlosEnd slos s p ∧ p.reachesRules = true then (ruleSweep rules s p).attempted else []) = [] :=
        if_neg fun h => hreaches h.2
      rw [hcome, if_pos (by simpa using hreaches)]
      exact ⟨hstamp, rfl⟩
  · have hcome : (if SlosEnd slos s p ∧ p.reachesRules = true then (ruleSweep rules s p).attempted else []) = [] :=
      if_neg fun h => hslo h.1
    rw [hcome, if_pos (sloSweep_ending.mpr hslo)]
    exact ⟨rfl, rfl⟩

/-- What a pass attempts are turns from the cursor on, at most a round of them. -/
theorem attempted_turns : (runPass slos rules s p).2.1.map some =
    turns rules (cursorOf rules s) (runPass slos rules s p).2.1.length := by
  have hswept : (ruleSweep rules s p).attempted.map some = turns rules (cursorOf rules s) (ruleSweep rules s p).attempted.length := by
    have hfirst : (ruleSweep rules s p).attempted <+: rules.drop (cursorOf rules s) ++ rules.take (cursorOf rules s) := (sweep_spec _ _).1
    have hlength : (ruleSweep rules s p).attempted.length ≤ rules.length := by
      have hle := hfirst.length_le
      rw [List.length_append, List.length_drop, List.length_take] at hle
      omega
    have hcursor : cursorOf rules s ≤ rules.length := cursorOf_le
    have hturns := take_turns hcursor hlength
    rw [← List.prefix_iff_eq_take.mp hfirst] at hturns
    exact hturns
  by_cases h : Written slos rules s p
  · rw [(runPass_written h).1, hswept]
  · rw [(runPass_unwritten h).2]
    split
    · exact hswept
    · rfl

/-- The passes so far: the state, and the rules attempted, in order. -/
structure World (ρ : Type*) where
  store : Store
  attempted : List ρ := []

def step (slos : List σ) (rules : List ρ) (w : World ρ) (p : Pass) : World ρ where
  store := (runPass slos rules w.store p).1
  attempted := w.attempted ++ (runPass slos rules w.store p).2.1

/-- A pass that writes its cursor has no objective that failed, and one that does not attempts no rule or every rule. (Multiples
of the number of rules do no harm.) -/
def Kept (slos : List σ) (rules : List ρ) (w : World ρ) (p : Pass) : Prop :=
  rules = [] ∨ if Written slos rules w.store p then rules.length ∣ sloFailures slos w.store p
    else SlosEnd slos w.store p ∧ p.reachesRules = true → rules.length ∣ attempts p.rules 0 rules.length

instance [DecidableEq ρ] (w : World ρ) (p : Pass) : Decidable (Kept slos rules w p) := by
  unfold Kept
  infer_instance

/-- The attempts are turns, and the cursor is at the next one. -/
structure InTurn (rules : List ρ) (k : ℕ) (w : World ρ) : Prop where
  turns : w.attempted.map some = turns rules k w.attempted.length
  cursor : w.store.cursor.getD 0 % rules.length = (k + w.attempted.length) % rules.length

theorem InTurn.step {k : ℕ} {w : World ρ} (hne : rules ≠ []) (h : InTurn rules k w) (hp : Kept slos rules w p) :
    InTurn rules k (step slos rules w p) := by
  have hstart : cursorOf rules w.store = (k + w.attempted.length) % rules.length := by
    rw [cursorOf, if_neg hne, h.cursor]
  constructor
  · simp only [RuleRotation.step, List.map_append, List.length_append]
    rw [turns_append, h.turns, attempted_turns, hstart]
    congr 1
    apply turns_congr
    exact Nat.mod_mod _ _
  · simp only [RuleRotation.step, List.length_append]
    have hkept := hp.resolve_left hne
    split at hkept
    · -- the cursor is moved past the rules attempted, and by a number of rounds
      rename_i hwritten
      obtain ⟨rounds, hrounds⟩ := hkept
      obtain ⟨hattempted, hcursor⟩ := runPass_written hwritten
      rw [hcursor hne, hattempted, Option.getD_some, hrounds, Nat.add_mul_mod_self_left, hstart, Nat.mod_add_mod, Nat.add_assoc]
    · rename_i hunwritten
      have hdvd : rules.length ∣ (runPass slos rules w.store p).2.1.length := by
        rw [(runPass_unwritten hunwritten).2]
        split
        · rename_i hcome
          rw [ruleSweep_attempts]
          exact hkept hcome
        · exact Nat.dvd_zero _
      obtain ⟨rounds, hrounds⟩ := hdvd
      rw [(runPass_unwritten hunwritten).1, h.cursor, hrounds, ← Nat.add_assoc, Nat.add_mul_mod_self_left]

/-- In every run of passes that are kept no rule is attempted twice where another is not attempted. -/
theorem attempts_fair (slos : List σ) (rules : List ρ) (hnodup : rules.Nodup) (s : Store) (ps : List Pass)
    (h : Meets (RuleRotation.step slos rules) (Kept slos rules) ⟨s, []⟩ ps) :
    Throughout (RuleRotation.step slos rules) (fun w => Fair rules w.attempted) ⟨s, []⟩ ps := by
  by_cases hnone : rules = []
  · apply throughout_keeps
    · intro w p _ part _ hmissing
      obtain ⟨r, hr, -⟩ := hmissing
      rw [hnone] at hr
      cases hr
    · intro part hpart _
      rw [List.infix_nil.mp hpart]
      exact List.nodup_nil
  · have hstart : InTurn rules (s.cursor.getD 0) (⟨s, []⟩ : World ρ) := ⟨rfl, rfl⟩
    have hturns : Throughout (RuleRotation.step slos rules) (InTurn rules (s.cursor.getD 0)) ⟨s, []⟩ ps :=
      h.throughout (fun _ _ hw hp => hw.step hnone hp) hstart
    exact hturns.imp fun w hw => fair_of_turns hnodup hw.turns

end

/-! ## Two passes over three rules -/

/-- A pass in which so many rules are evaluated, and the next one is cut or cancelled. -/
def passOf (evaluated : ℕ) (then_ : Choice) : Pass where
  now := 0
  slos _ := .done
  rules i := if i < evaluated then .done else then_

/-- The deadline cuts two passes. -/
theorem attempts_fair_cut : Fair [1, 2, 3] (run (step ([] : List ℕ) [1, 2, 3]) ⟨{}, []⟩ [passOf 2 .cut, passOf 2 .cut]).attempted := by
  have hkept : Meets (step ([] : List ℕ) [1, 2, 3]) (Kept ([] : List ℕ) [1, 2, 3]) ⟨{}, []⟩ [passOf 2 .cut, passOf 2 .cut] := by decide +kernel
  exact (attempts_fair ([] : List ℕ) [1, 2, 3] (by decide) {} _ hkept).last

/-- Cancelled while the second rule is evaluated, a pass leaves the cursor where it was: the next one begins with the first rule again,
and the third has not been attempted. -/
theorem cancelled_repeated : (run (step ([] : List ℕ) [1, 2, 3]) ⟨{}, []⟩ [passOf 1 .cancelled, passOf 1 .cut]).attempted = [1, 2, 1] ∧
    ¬Fair [1, 2, 3] [1, 2, 1] := by
  constructor
  · decide +kernel
  · intro h
    exact absurd (h [1, 2, 1] (List.infix_refl _) ⟨3, by decide, by decide⟩) (by decide)

end Upstat.RuleRotation
