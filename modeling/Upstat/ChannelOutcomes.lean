import Mathlib.Data.List.Infix
import Mathlib.Logic.Function.Basic
import Mathlib.Data.Nat.Notation
import Upstat.GuardedRuns

/-! # The badge of a failing channel (`common/internal/repository/alerting.go`, `common/internal/service/consumers.go`)

`OnDelivery` records an outcome once, in the channel's row among others. A verification and another
delivery are counted by different statements there. -/
namespace Upstat.ChannelOutcomes

open GuardedRuns

inductive Health | unverified | verified | degraded
  deriving DecidableEq

/-- What the table of deliveries takes for a state. -/
inductive DeliveryState | delivered | failed | suppressed
  deriving DecidableEq

/-- What deliveries change of a channel's row, as it is when the channel is created. -/
structure Channel where
  health : Health := .unverified
  failureNote : String := ""
  consecutiveFailures : ℕ := 0
  verifiedOnce : Bool := false

def recordChannelOutcome (c : Channel) (kind : String) (state : DeliveryState) (note : String) : Channel :=
  if state = .suppressed then c
  else if kind = "verify" then
    { c with
      health := if state = .delivered then .verified else c.health
      verifiedOnce := c.verifiedOnce || state = .delivered
      failureNote := if state = .delivered then "" else note }
  else
    { c with
      consecutiveFailures := if state = .delivered then 0 else c.consecutiveFailures + 1
      health :=
        if state = .delivered ∧ c.verifiedOnce = true then .verified
        else if state = .failed ∧ 5 ≤ c.consecutiveFailures + 1 then .degraded else c.health
      failureNote := if state = .delivered then "" else note }

/-! ## The consumer -/

structure Rule where
  state : String
  lastTriggeredAt : Option ℤ

structure DeliveryMsg where
  id : String
  orgID : String
  kind : String
  ruleID : Option String
  channelID : Option String
  sev : String
  state : DeliveryState
  attempts : ℕ
  at_ : ℤ

/-- The database, of the deliveries only their ids. -/
structure Store where
  orgs : List String
  deliveries : List String
  channels : String → Option Channel
  rules : String → Option Rule
  configChanges : List String

def markRuleTriggered (r : Rule) (at_ : ℤ) (state : String) : Rule where
  lastTriggeredAt := some (max (r.lastTriggeredAt.getD at_) at_)
  state := state

/-- The delivery is new, and of an organisation that there still is. -/
def Store.fresh (s : Store) (m : DeliveryMsg) : Bool := s.orgs.contains m.orgID && !s.deliveries.contains m.id

def noteOf (rfc3339 : ℤ → String) (m : DeliveryMsg) : String :=
  if m.state = .failed then
    "Last delivery failed " ++ rfc3339 m.at_ ++ " — " ++ toString m.attempts ++ " attempts exhausted"
  else ""

def Store.onChannel (s : Store) (rfc3339 : ℤ → String) (m : DeliveryMsg) : Store :=
  match m.channelID with
  | none => s
  | some id =>
    { s with
      channels := Function.update s.channels id
        ((s.channels id).map fun c => recordChannelOutcome c m.kind m.state (noteOf rfc3339 m))
      configChanges := s.configChanges ++ if m.kind = "verify" then ["channels"] else [] }

def Store.onRule (s : Store) (m : DeliveryMsg) : Store :=
  match m.ruleID with
  | none => s
  | some id =>
    if m.kind ≠ "verify" ∧ m.kind ≠ "rule" ∧ m.state = .delivered then
      { s with
        rules := Function.update s.rules id
          ((s.rules id).map fun r => markRuleTriggered r m.at_ (if m.sev = "resolved" then "ok" else "alert")) }
    else s

def onDelivery (rfc3339 : ℤ → String) (s : Store) (m : DeliveryMsg) : Store :=
  if s.fresh m then (({ s with deliveries := s.deliveries ++ [m.id] }).onChannel rfc3339 m).onRule m else s

/-! ## The outcomes of one channel -/

structure Outcome where
  kind : String
  state : DeliveryState
  note : String := ""

def step (c : Channel) (o : Outcome) : Channel := recordChannelOutcome c o.kind o.state o.note

/-- The outcomes of the channel among the messages: each delivery the first time it comes. -/
def outcomesOf (rfc3339 : ℤ → String) (orgs : List String) (id : String) : List String → List DeliveryMsg → List Outcome
  | _, [] => []
  | seen, m :: ms =>
    if orgs.contains m.orgID && !seen.contains m.id then
      (if m.channelID = some id then [⟨m.kind, m.state, noteOf rfc3339 m⟩] else []) ++
        outcomesOf rfc3339 orgs id (seen ++ [m.id]) ms
    else outcomesOf rfc3339 orgs id seen ms

theorem onRule_rest (s : Store) (m : DeliveryMsg) : (s.onRule m).orgs = s.orgs ∧ (s.onRule m).deliveries = s.deliveries ∧
    (s.onRule m).channels = s.channels := by
  unfold Store.onRule
  split
  · exact ⟨rfl, rfl, rfl⟩
  · split <;> exact ⟨rfl, rfl, rfl⟩

theorem onChannel_rest (rfc3339 : ℤ → String) (s : Store) (m : DeliveryMsg) :
    (s.onChannel rfc3339 m).orgs = s.orgs ∧ (s.onChannel rfc3339 m).deliveries = s.deliveries := by
  unfold Store.onChannel
  split <;> exact ⟨rfl, rfl⟩

theorem onChannel_channels (rfc3339 : ℤ → String) (s : Store) (m : DeliveryMsg) (id : String) :
    (s.onChannel rfc3339 m).channels id =
      if m.channelID = some id then (s.channels id).map fun c => step c ⟨m.kind, m.state, noteOf rfc3339 m⟩ else s.channels id := by
  unfold Store.onChannel
  cases m.channelID with
  | none => rfl
  | some other =>
    simp only [Option.some.injEq]
    by_cases h : other = id
    · subst h
      rw [if_pos rfl, Function.update_self]
      rfl
    · rw [if_neg h, Function.update_of_ne (Ne.symm h)]

/-- A channel's row is what its outcomes make of it, however often the messages come and whatever comes between. -/
theorem onDelivery_channel (rfc3339 : ℤ → String) (id : String) (s : Store) (ms : List DeliveryMsg) :
    (run (onDelivery rfc3339) s ms).channels id =
      (s.channels id).map fun c => run step c (outcomesOf rfc3339 s.orgs id s.deliveries ms) := by
  induction ms generalizing s with
  | nil => simp [outcomesOf]
  | cons m ms ih =>
    rw [run_cons, ih, outcomesOf]
    by_cases hfresh : s.fresh m = true
    · have hstep : onDelivery rfc3339 s m = (({ s with deliveries := s.deliveries ++ [m.id] }).onChannel rfc3339 m).onRule m :=
        if_pos hfresh
      obtain ⟨horgs, hdeliveries, hchannels⟩ := onRule_rest (({ s with deliveries := s.deliveries ++ [m.id] }).onChannel rfc3339 m) m
      obtain ⟨horgs', hdeliveries'⟩ := onChannel_rest rfc3339 { s with deliveries := s.deliveries ++ [m.id] } m
      rw [hstep, horgs, hdeliveries, hchannels, horgs', hdeliveries', onChannel_channels]
      rw [Store.fresh] at hfresh
      rw [if_pos hfresh]
      by_cases hid : m.channelID = some id
      · rw [if_pos hid, if_pos hid, Option.map_map]
        rfl
      · rw [if_neg hid, if_neg hid]
        rfl
    · have hstep : onDelivery rfc3339 s m = s := if_neg hfresh
      rw [hstep]
      rw [Store.fresh] at hfresh
      rw [if_neg hfresh]

/-! ## The law -/

/-- The failed outcomes since the last delivered one. -/
def failures (os : List Outcome) : ℕ := (os.reverse.takeWhile fun o => o.state ≠ .delivered).countP fun o => o.state = .failed

def row (os : List Outcome) : Channel := run step {} os

/-- The channel is degraded from the fifth failure on, and a delivered outcome after that makes it healthy. -/
structure Law (os : List Outcome) : Prop where
  degraded_iff : (row os).health = .degraded ↔ 5 ≤ failures os
  restored : ∀ before o, os = before ++ [o] → o.state = .delivered → (row before).health = .degraded → (row os).health = .verified

/-- A verification fails only while the channel is degraded, and is delivered only where no failure is counted;
another delivery to a degraded channel is delivered only if a verification was before. -/
def Counted (c : Channel) (o : Outcome) : Prop :=
  match o.state with
  | .suppressed => True
  | .failed => o.kind = "verify" → c.health = .degraded
  | .delivered => if o.kind = "verify" then c.consecutiveFailures = 0 else c.health = .degraded → c.verifiedOnce = true

instance (c : Channel) (o : Outcome) : Decidable (Counted c o) := by
  unfold Counted
  cases o.state <;> infer_instance

theorem failures_concat (os : List Outcome) (o : Outcome) : failures (os ++ [o]) =
    if o.state = .delivered then 0 else if o.state = .failed then failures os + 1 else failures os := by
  unfold failures
  rw [List.reverse_concat, List.takeWhile_cons]
  cases h : o.state with
  | delivered => simp
  | failed => simp [h]
  | suppressed => simp [h]

theorem row_concat (os : List Outcome) (o : Outcome) : row (os ++ [o]) = step (row os) o := by
  rw [row, run_append]
  rfl

/-- What the row says of the failures so far. -/
structure Agrees (c : Channel) (n : ℕ) : Prop where
  degraded_iff : c.health = .degraded ↔ 5 ≤ n
  counted : n < 5 → c.consecutiveFailures = n
  reached : 5 ≤ n → 5 ≤ c.consecutiveFailures

theorem agrees_start : Agrees (row []) (failures []) where
  degraded_iff := by simp [row, failures]
  counted _ := rfl
  reached h := absurd h (by simp [failures])

theorem Agrees.concat {os : List Outcome} {o : Outcome} (h : Agrees (row os) (failures os)) (ho : Counted (row os) o) :
    Agrees (row (os ++ [o])) (failures (os ++ [o])) := by
  rw [row_concat, failures_concat]
  obtain ⟨hdegraded, hcounted, hreached⟩ := h
  unfold Counted at ho
  unfold step recordChannelOutcome
  cases hstate : o.state with
  | suppressed =>
    simp only [reduceCtorEq, if_true, if_false]
    exact ⟨hdegraded, hcounted, hreached⟩
  | failed =>
    rw [hstate] at ho
    by_cases hkind : o.kind = "verify"
    · have hfive : 5 ≤ failures os := hdegraded.mp (ho hkind)
      simp only [reduceCtorEq, if_false, if_true, hkind]
      refine ⟨?_, ?_, ?_⟩
      · simp only [ho hkind, true_iff]
        omega
      · omega
      · exact fun _ => hreached hfive
    · simp only [reduceCtorEq, if_false, if_true, hkind, false_and, true_and]
      refine ⟨?_, ?_, ?_⟩
      · split
        · simp only [true_iff]
          by_contra hlt
          have := hcounted (by omega)
          omega
        · rename_i hfew
          rw [hdegraded]
          have := hcounted
          have := hreached
          omega
      · intro hlt
        have hcount : (row os).consecutiveFailures = failures os := hcounted (by omega)
        simp only [hcount]
      · intro hfive
        simp only
        have := hcounted
        have := hreached
        omega
  | delivered =>
    rw [hstate] at ho
    by_cases hkind : o.kind = "verify"
    · simp only [hkind, if_true] at ho
      simp only [reduceCtorEq, if_false, if_true, hkind]
      refine ⟨by simp, fun _ => ho, by omega⟩
    · simp only [hkind, if_false] at ho
      simp only [reduceCtorEq, if_false, if_true, hkind, true_and, false_and]
      refine ⟨?_, fun _ => rfl, by omega⟩
      split
      · simp
      · rename_i hnever
        constructor
        · exact fun hd => absurd (ho hd) hnever
        · omega

theorem agrees_of_meets {os : List Outcome} (h : Meets step Counted {} os) : Agrees (row os) (failures os) := by
  induction os using List.reverseRecOn with
  | nil => exact agrees_start
  | append_singleton os o ih =>
    obtain ⟨hbefore, ho, -⟩ := (meets_append _ _ _).mp h
    exact (ih hbefore).concat ho

theorem law_of_meets {os : List Outcome} (h : Meets step Counted {} os) : Law os where
  degraded_iff := (agrees_of_meets h).degraded_iff
  restored before o hos hstate hdegraded := by
    subst hos
    obtain ⟨-, ho, -⟩ := (meets_append _ _ _).mp h
    have hcounted : Counted (row before) o := ho
    unfold Counted at hcounted
    rw [hstate] at hcounted
    rw [row_concat]
    unfold step recordChannelOutcome
    by_cases hkind : o.kind = "verify"
    · simp [hstate, hkind]
    · simp only [hkind, if_false] at hcounted
      simp [hstate, hkind, hcounted hdegraded]

/-! ## What breaks the condition is seen later -/

/-- Failed deliveries of an alert. -/
def failedAlerts (n : ℕ) : List Outcome := List.replicate n { kind := "alert", state := .failed }

theorem failures_failedAlerts (os : List Outcome) (n : ℕ) : failures (os ++ failedAlerts n) = failures os + n := by
  induction n with
  | zero => simp [failedAlerts]
  | succ n ih =>
    rw [failedAlerts, List.replicate_succ', ← List.append_assoc, failures_concat]
    simp only [reduceCtorEq, if_false, if_true]
    rw [failedAlerts] at ih
    omega

theorem counter_failedAlerts (os : List Outcome) (n : ℕ) :
    (row (os ++ failedAlerts n)).consecutiveFailures = (row os).consecutiveFailures + n := by
  induction n with
  | zero => simp [failedAlerts]
  | succ n ih =>
    rw [failedAlerts, List.replicate_succ', ← List.append_assoc, row_concat]
    rw [failedAlerts] at ih
    simp only [step, recordChannelOutcome, reduceCtorEq, if_false]
    rw [if_neg (by decide)]
    simp only
    omega

/-- After one failed alert or more the channel is degraded if it was, or if the counter has come to five. -/
theorem health_failedAlerts (os : List Outcome) (n : ℕ) : (row (os ++ failedAlerts (n + 1))).health = .degraded ↔
    (row os).health = .degraded ∨ 5 ≤ (row os).consecutiveFailures + (n + 1) := by
  induction n with
  | zero =>
    have hone : os ++ failedAlerts (0 + 1) = os ++ [{ kind := "alert", state := .failed }] := rfl
    rw [hone, row_concat]
    simp only [step, recordChannelOutcome, reduceCtorEq, if_false]
    rw [if_neg (by decide)]
    simp only [false_and, if_false, true_and]
    split
    · rename_i hfive
      simp only [true_iff]
      exact Or.inr hfive
    · rename_i hfew
      constructor
      · exact Or.inl
      · exact fun h => h.resolve_right hfew
  | succ n ih =>
    have hlast : os ++ failedAlerts (n + 1 + 1) = (os ++ failedAlerts (n + 1)) ++ [{ kind := "alert", state := .failed }] := by
      rw [failedAlerts, List.replicate_succ', List.append_assoc]
      rfl
    rw [hlast, row_concat]
    simp only [step, recordChannelOutcome, reduceCtorEq, if_false]
    rw [if_neg (by decide)]
    simp only [false_and, if_false, true_and, counter_failedAlerts]
    split
    · simp only [true_iff]
      right
      omega
    · rw [ih]
      apply or_congr_right
      omega

theorem lawless_of_not_counted {os : List Outcome} {o : Outcome} (h : Agrees (row os) (failures os)) (ho : ¬Counted (row os) o) :
    ∃ n, ¬Law (os ++ [o] ++ failedAlerts n) := by
  unfold Counted at ho
  cases hstate : o.state with
  | suppressed =>
    rw [hstate] at ho
    exact absurd trivial ho
  | failed =>
    rw [hstate] at ho
    push Not at ho
    obtain ⟨hkind, hdegraded⟩ := ho
    have hfew : failures os < 5 := by
      by_contra hmany
      exact hdegraded (h.degraded_iff.mpr (by omega))
    have hrow : row (os ++ [o]) = { row os with failureNote := o.note } := by
      rw [row_concat, step, recordChannelOutcome]
      simp [hstate, hkind]
    have hfailures : failures (os ++ [o]) = failures os + 1 := by
      rw [failures_concat, hstate]
      simp
    -- the fifth failure is the fourth that is counted
    refine ⟨4 - failures os, fun law => ?_⟩
    have hfive : (row (os ++ [o] ++ failedAlerts (4 - failures os))).health = .degraded := by
      rw [law.degraded_iff, failures_failedAlerts]
      omega
    cases hleft : 4 - failures os with
    | zero =>
      rw [hleft] at hfive
      simp only [failedAlerts, List.replicate_zero, List.append_nil, hrow] at hfive
      exact hdegraded hfive
    | succ n =>
      rw [hleft, health_failedAlerts, hrow] at hfive
      simp only [hdegraded, false_or, h.counted hfew] at hfive
      omega
  | delivered =>
    rw [hstate] at ho
    have hfailures : failures (os ++ [o]) = 0 := by
      rw [failures_concat, hstate]
      simp
    by_cases hkind : o.kind = "verify"
    · simp only [hkind, if_true] at ho
      have hcounter : (row (os ++ [o])).consecutiveFailures = (row os).consecutiveFailures := by
        rw [row_concat, step, recordChannelOutcome]
        simp [hstate, hkind]
      -- four failures more, with the old ones still counted
      refine ⟨3 + 1, fun law => ?_⟩
      have hfour : (row (os ++ [o] ++ failedAlerts (3 + 1))).health = .degraded := by
        rw [health_failedAlerts, hcounter]
        omega
      rw [law.degraded_iff, failures_failedAlerts, hfailures] at hfour
      omega
    · simp only [hkind, if_false] at ho
      push Not at ho
      refine ⟨0, fun law => ?_⟩
      have hstill : (row (os ++ [o])).health = .degraded := by
        rw [row_concat, step, recordChannelOutcome]
        simp [hstate, hkind, ho.1, ho.2]
      rw [failedAlerts, List.replicate_zero, List.append_nil] at law
      rw [law.degraded_iff, hfailures] at hstill
      omega

/-- The badge follows the law in every run whose outcomes are counted, and no other outcome can be allowed:
with alerts that fail after it, the law is broken. -/
theorem badge_law (os : List Outcome) : (Meets step Counted {} os → ∀ before, before <+: os → Law before) ∧
    (¬Meets step Counted {} os → ∃ before, before <+: os ∧ ∃ n, ¬Law (before ++ failedAlerts n)) := by
  constructor
  · rintro h before ⟨after, rfl⟩
    exact law_of_meets ((meets_append _ _ _).mp h).1
  · intro h
    obtain ⟨before, o, after, hos, hbefore, ho⟩ := exists_of_not_meets h
    obtain ⟨n, hn⟩ := lawless_of_not_counted (agrees_of_meets hbefore) ho
    refine ⟨before ++ [o], ⟨after, ?_⟩, n, hn⟩
    rw [hos, List.append_assoc, List.singleton_append]

/-- Verified, five times failed and then delivered: the law holds on the way. -/
theorem badge_law_restored : Law ([⟨"verify", .delivered, ""⟩] ++ failedAlerts 5 ++ [⟨"alert", .delivered, ""⟩]) :=
  (badge_law ([⟨"verify", .delivered, ""⟩] ++ failedAlerts 5 ++ [⟨"alert", .delivered, ""⟩])).1 (by decide) _ (List.prefix_refl _)

/-- After a verification the channel is degraded by one failure. -/
theorem reverified_degraded : (row ([⟨"verify", .delivered, ""⟩] ++ failedAlerts 5 ++ [⟨"verify", .delivered, ""⟩] ++ failedAlerts 1)).health = .degraded ∧
    failures ([⟨"verify", .delivered, ""⟩] ++ failedAlerts 5 ++ [⟨"verify", .delivered, ""⟩] ++ failedAlerts 1) = 1 := by
  decide

end Upstat.ChannelOutcomes
