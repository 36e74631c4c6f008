import Upstat.GuardedRuns
import Upstat.NotifierPrograms

/-! # The evaluation of rules

A rule's state, the change of it that is still to be published, and what api/common stores.
A rule is evaluated alone, and what evaluates it may be cut off between any two awaits. -/
namespace Upstat.RuleEvaluation

open GuardedRuns AwaitedPrograms

def pendingTries : ℕ := 10

inductive RuleState where
  | ok | warn | alert | nodata
  deriving DecidableEq

structure Thresholds where
  crit : Option ℚ := none
  warn : Option ℚ := none
  window : String := "5m"

/-- A metric, log, trace or SLO-burn rule of the snapshot. -/
structure Rule extends NotifierPrograms.Rule where
  thresholds : Thresholds
  state : RuleState := .ok

def classify (value : Option ℚ) (thresholds : Thresholds) : RuleState :=
  match value with
  | none => .nodata
  | some value =>
    if thresholds.crit.any (· ≤ value) then .alert
    else if thresholds.warn.any (· ≤ value) then .warn
    else .ok

/-- Times are counted in microseconds. -/
structure Change where
  state : RuleState
  previous : RuleState
  value : Option ℚ
  triggered : Bool
  at_ : ℤ
  tries : ℕ := 0

def Change.tried (change : Change) : Change := { change with tries := change.tries + 1 }

/-- A message of `upstat.rule.evaluated`. Its event id is the rule's id and the time. -/
structure Evaluated where
  ruleId : String
  orgId : String
  state : RuleState
  value : Option ℚ
  triggered : Bool
  at_ : ℤ

/-- The working state under the keys `rulepend:` and `rule:`, and, kept for the statements
only, the changes that were decided on and those that were dropped. -/
structure Store where
  pending : String → Option Change
  rule : String → Option RuleState
  decided : String → List Change
  dropped : String → List Change

/-- `decide` puts a new change under `rulepend:`, and `drop` deletes one that is given up. -/
inductive Write where
  | decide (ruleId : String) (change : Change)
  | putPending (ruleId : String) (change : Change)
  | putRule (ruleId : String) (state : RuleState)
  | deletePending (ruleId : String)
  | drop (ruleId : String) (change : Change)

def write (s : Store) : Write → Store
  | .decide id change => { s with
      pending := Function.update s.pending id (some change)
      decided := Function.update s.decided id (s.decided id ++ [change]) }
  | .putPending id change => { s with pending := Function.update s.pending id (some change) }
  | .putRule id state => { s with rule := Function.update s.rule id (some state) }
  | .deletePending id => { s with pending := Function.update s.pending id none }
  | .drop id change => { s with
      pending := Function.update s.pending id none
      dropped := Function.update s.dropped id (s.dropped id ++ [change]) }

inductive Call where
  | value (rule : Rule) (now : ℤ)
  | publish (message : Evaluated)
  | ruleAlert (rule : Rule) (entered : Bool) (value : Option ℚ) (at_ : ℤ)

/-- A publish that raises may have come through. -/
inductive Published where
  | acknowledged | unacknowledged | failed
  deriving DecidableEq

/-- A rule's value may be missing, or the query raises. The notifier returns or raises. -/
abbrev Reply : Call → Type
  | .value _ _ => Option (Option ℚ)
  | .publish _ => Published
  | .ruleAlert _ _ _ _ => Bool

abbrev Program := Prog Store Write Reply

def value (rule : Rule) (now : ℤ) : Program (Option ℚ) :=
  .call (.value rule now) fun value : Option (Option ℚ) => value.elim .raised .done

def publish (message : Evaluated) : Program Unit :=
  .call (.publish message) fun reply : Published => if reply = .acknowledged then .done () else .raised

def ruleAlert (rule : Rule) (entered : Bool) (value : Option ℚ) (at_ : ℤ) : Program Unit :=
  .call (.ruleAlert rule entered value at_) fun ok : Bool => if ok then .done () else .raised

def evaluated (rule : Rule) (change : Change) : Evaluated :=
  ⟨rule.id, rule.orgId, change.state, change.value, change.triggered, change.at_⟩

/-- Publishes and notifies a stored change, then clears it. -/
def deliverPending (rule : Rule) (change : Change) : Program Unit :=
  if pendingTries < change.tried.tries then .put (.drop rule.id change.tried)
  else do
    .put (.putPending rule.id change.tried)
    publish (evaluated rule change)
    if change.triggered then ruleAlert rule true change.value change.at_
    else .when_ (change.previous = .alert) (ruleAlert rule false change.value change.at_)
    .put (.deletePending rule.id)

def newChange (state previous : RuleState) (value : Option ℚ) (now : ℤ) : Change where
  state := state
  previous := previous
  value := value
  triggered := state = .alert
  at_ := now

/-- `_rule`, at one rule. -/
def evaluateRule (rule : Rule) (now : ℤ) : Program Unit := do
  let s ← .get
  match s.pending rule.id with
  | some change => deliverPending rule change
  | none => do
    let value ← value rule now
    let s ← .get
    let state := classify value rule.thresholds
    let previous := (s.rule rule.id).getD rule.state
    if state = previous ∨ (state = .nodata ∧ previous = .alert) then pure ()
    else do
      .put (.decide rule.id (newChange state previous value now))
      .put (.putRule rule.id state)
      deliverPending rule (newChange state previous value now)

/-! ## What api/common stores -/

structure RuleRow where
  state : RuleState
  lastTriggeredAt : Option ℤ

def setRuleState (rows : String → Option RuleRow) (id : String) (state : RuleState) (triggered : Bool) (at_ : ℤ) :
    String → Option RuleRow :=
  Function.update rows id ((rows id).map fun row =>
    { state := state, lastTriggeredAt := if triggered then some at_ else row.lastTriggeredAt })

def onRuleEvaluated (rows : String → Option RuleRow) (m : Evaluated) : String → Option RuleRow :=
  setRuleState rows m.ruleId m.state m.triggered m.at_

/-! ## Runs -/

abbrev EvaluationWorld := World Store Reply

/-- The rule's messages, in the order of their partition. -/
def published (id : String) (calls : List ((c : Call) × Reply c)) : List Evaluated :=
  calls.filterMap fun
    | ⟨.publish m, reply⟩ => if m.ruleId = id ∧ (reply : Published) ≠ .failed then some m else none
    | _ => none

/-- `next` is the number of the rule's message that api/common handles next. -/
structure System where
  clock : ℤ
  world : EvaluationWorld
  rows : String → Option RuleRow
  next : String → ℕ

/-- A rule is evaluated, and cut off after so many writes and calls if it is not done before.
What is stored about it expires. api/common handles the rule's next message, or goes back to one
it has handled. -/
inductive Event where
  | evaluated (delay : ℕ+) (rule : Rule) (steps : ℕ)
  | forgotten (ruleId : String)
  | handled (ruleId : String)
  | redelivered (ruleId : String) (offset : ℕ)

/-- The working state without what is stored about the rule. -/
def forget (s : Store) (id : String) : Store :=
  { s with pending := Function.update s.pending id none, rule := Function.update s.rule id none }

def step (answer : ℕ → (c : Call) → Reply c) (s : System) : Event → System
  | .evaluated delay rule steps =>
    { s with
      clock := s.clock + delay
      world := (((evaluateRule rule (s.clock + delay)).cut steps).run write answer s.world).2 }
  | .forgotten id => { s with world := { s.world with store := forget s.world.store id } }
  | .handled id =>
    match (published id s.world.calls)[s.next id]? with
    | none => s
    | some m => { s with rows := onRuleEvaluated s.rows m, next := Function.update s.next id (s.next id + 1) }
  | .redelivered id offset => { s with next := Function.update s.next id (min offset (s.next id)) }

def start (clock : ℤ) (rows : String → Option RuleRow) : System :=
  ⟨clock, ⟨⟨fun _ => none, fun _ => none, fun _ => [], fun _ => []⟩, []⟩, rows, fun _ => 0⟩

end Upstat.RuleEvaluation
