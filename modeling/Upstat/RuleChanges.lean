import Mathlib.Data.List.Chain
import Mathlib.Data.List.Induction
import Upstat.RuleEvaluation

/-! # A rule's state changes

What has become of one rule is seen apart from the others: the changes that were decided on,
those that were dropped, its messages, and what is stored about it. -/
namespace Upstat.RuleChanges

open GuardedRuns AwaitedPrograms RuleEvaluation

/-! ## Statement -/

/-- What there is of one rule. -/
structure View where
  pending : Option Change
  rule : Option RuleState
  decided : List Change
  dropped : List Change
  published : List Evaluated

def view (id : String) (w : EvaluationWorld) : View :=
  ⟨w.store.pending id, w.store.rule id, w.store.decided id, w.store.dropped id, published id w.calls⟩

/-- A message of the change is among the published. -/
def said (messages : List Evaluated) (change : Change) : Bool := messages.any (·.at_ = change.at_)

def saidChanges (v : View) : List Change := v.decided.filter (said v.published)

/-- The messages without the redeliveries of one event id. -/
def unrepeated (messages : List Evaluated) : List Evaluated :=
  messages.foldl (fun seen m => if seen.any (·.at_ = m.at_) then seen else seen ++ [m]) []

/-- From this state on none repeats, and no alert ends for want of data. -/
def Unbroken : RuleState → List RuleState → Prop
  | _, [] => True
  | previous, state :: states => state ≠ previous ∧ ¬(previous = .alert ∧ state = .nodata) ∧ Unbroken state states

instance Unbroken.decidable : (previous : RuleState) → (states : List RuleState) → Decidable (Unbroken previous states)
  | _, [] => isTrue trivial
  | previous, state :: states =>
    have := Unbroken.decidable state states
    inferInstanceAs (Decidable (state ≠ previous ∧ ¬(previous = .alert ∧ state = .nodata) ∧ Unbroken state states))

/-- A change follows a state: it starts from it, differs from it, and is no lack of data that
ends an alert. -/
structure Follows (before : RuleState) (change : Change) : Prop where
  starts : change.previous = before
  changed : change.state ≠ before
  data : ¬(before = .alert ∧ change.state = .nodata)
  triggered : change.triggered = decide (change.state = .alert)

/-- Each change follows the state that the last led to. -/
def Following : RuleState → List Change → Prop
  | _, [] => True
  | before, change :: changes => Follows before change ∧ Following change.state changes

/-- The change enters or leaves the alerting state. -/
def edge (change : Change) : Option Bool :=
  if change.triggered then some true else if change.previous = .alert then some false else none

def Alternate (changes : List Change) : Prop := (changes.filterMap edge).IsChain (· ≠ ·)

def latest (first : RuleState) (changes : List Change) : RuleState := (changes.getLast?.map (·.state)).getD first

/-- The published changes are unbroken, entering and leaving the alerting state alternate, and
once all is published and handled api/common's state is the evaluator's. -/
structure InStep (first : RuleState) (v : View) (row : Option RuleRow) (next : ℕ) : Prop where
  unbroken : Unbroken first ((unrepeated v.published).map (·.state))
  alternate : Alternate (saidChanges v)
  agrees : v.pending = none → next = v.published.length → ∀ r ∈ row, ∀ state ∈ v.rule, r.state = state

/-- What becomes of the changes that are decided on, also where some are dropped. -/
structure Kept (first : RuleState) (v : View) (row : Option RuleRow) (next : ℕ) : Prop where
  chain : Following first v.decided
  alternate : Alternate v.decided
  published : (unrepeated v.published).map (fun m => (m.at_, m.state)) = (saidChanges v).map (fun c => (c.at_, c.state))
  accounted : ∀ c ∈ v.decided, said v.published c = true ∨ (∃ p ∈ v.pending, p.at_ = c.at_) ∨
    ∃ p ∈ v.dropped, p.at_ = c.at_ ∧ pendingTries < p.tries
  agrees : v.pending = none → (∀ c ∈ v.decided.getLast?, said v.published c = true) → next = v.published.length →
    ∀ r ∈ row, r.state = latest first v.decided ∧ ∀ state ∈ v.rule, r.state = state
  undropped : (∀ p ∈ v.dropped, said v.published p = true) → InStep first v row next

section Statement
variable (id : String) (rows : String → Option RuleRow)

def firstState : RuleState := ((rows id).map (·.state)).getD .ok

def keptAt (s : System) : Prop := Kept (firstState id rows) (view id s.world) (s.rows id) (s.next id)

def inStepAt (s : System) : Prop := InStep (firstState id rows) (view id s.world) (s.rows id) (s.next id)

/-- No pass dies after it has stored a change as pending and before it stores the rule's state,
nothing expires while a change is pending, and where no state is stored the snapshot has the
latest. -/
def Fits (s : System) : Event → Prop
  | .evaluated _ rule steps => rule.id = id → (s.world.store.pending id).isNone →
      steps ≠ 2 ∧ ((s.world.store.rule id).isNone → rule.state = latest (firstState id rows) (s.world.store.decided id))
  | .forgotten ruleId => ruleId = id → (s.world.store.pending id).isNone
  | .handled _ | .redelivered _ _ => True

instance Fits.decidable (s : System) : (e : Event) → Decidable (Fits id rows s e)
  | .evaluated _ rule steps => inferInstanceAs (Decidable (rule.id = id → (s.world.store.pending id).isNone →
      steps ≠ 2 ∧ ((s.world.store.rule id).isNone → rule.state = latest (firstState id rows) (s.world.store.decided id))))
  | .forgotten ruleId => inferInstanceAs (Decidable (ruleId = id → (s.world.store.pending id).isNone))
  | .handled _ | .redelivered _ _ => isTrue trivial

end Statement

/-- Every publish is acknowledged, and the notifier returns. -/
structure Recovered (reply : ℕ → (c : Call) → Reply c) : Prop where
  publish : ∀ k m, reply k (.publish m) = Published.acknowledged
  ruleAlert : ∀ k rule entered value at_, reply k (.ruleAlert rule entered value at_) = true

/-! ## Chains -/

variable {first : RuleState} {changes : List Change} {c p : Change} {v : View} {messages : List Evaluated} {m : Evaluated}
  {clock now : ℤ} {row : Option RuleRow} {next : ℕ}

@[simp] theorem latest_nil (first : RuleState) : latest first [] = first := rfl

@[simp] theorem latest_append (first : RuleState) (changes : List Change) (c : Change) :
    latest first (changes ++ [c]) = c.state := by
  simp [latest]

theorem latest_cons (first : RuleState) (c : Change) (changes : List Change) :
    latest first (c :: changes) = latest c.state changes := by
  cases changes with
  | nil => rfl
  | cons c' changes => simp [latest, List.getLast?_cons]

theorem Following.unbroken (h : Following first changes) : Unbroken first (changes.map (·.state)) := by
  induction changes generalizing first with
  | nil => trivial
  | cons c changes ih => exact ⟨h.1.changed, h.1.data, ih h.2⟩

theorem following_append : Following first (changes ++ [c]) ↔ Following first changes ∧ Follows (latest first changes) c := by
  induction changes generalizing first with
  | nil => simp [Following]
  | cons c' changes ih => rw [List.cons_append, Following, Following, ih, latest_cons, and_assoc]

theorem Follows.edge_none {before : RuleState} (h : Follows before c) (hedge : edge c = none) :
    c.state ≠ .alert ∧ before ≠ .alert := by
  unfold edge at hedge
  split at hedge
  · cases hedge
  · next htriggered =>
    split at hedge
    · cases hedge
    · next hprevious => exact ⟨by simpa [h.triggered] using htriggered, h.starts ▸ hprevious⟩

/-- The edge enters exactly where the state is alert, and leaves where the last was. -/
theorem Follows.edge_some {before : RuleState} {entered : Bool} (h : Follows before c) (hedge : edge c = some entered) :
    entered = decide (c.state = .alert) ∧ entered = decide (before ≠ .alert) := by
  unfold edge at hedge
  split at hedge
  · next htriggered =>
    have hstate : c.state = .alert := by simpa [h.triggered] using htriggered
    have hbefore : before ≠ .alert := fun heq => h.changed (hstate.trans heq.symm)
    exact ⟨by simpa [hstate] using hedge.symm, by simpa [hbefore] using hedge.symm⟩
  · next htriggered =>
    have hstate : c.state ≠ .alert := by simpa [h.triggered] using htriggered
    split at hedge
    · next hprevious =>
      have hbefore : before = .alert := h.starts ▸ hprevious
      exact ⟨by simpa [hstate] using hedge.symm, by simpa [hbefore] using hedge.symm⟩
    · cases hedge

/-- The first edge after a state leaves alert if the state is alert, and enters it if not. -/
theorem Following.edges (h : Following first changes) : Alternate changes ∧
    ∀ entered ∈ (changes.filterMap edge).head?, entered = decide (first ≠ .alert) := by
  induction changes generalizing first with
  | nil => exact ⟨List.IsChain.nil, by simp⟩
  | cons c changes ih =>
    obtain ⟨hfollows, hrest⟩ := h
    obtain ⟨halternate, hhead⟩ := ih hrest
    cases hedge : edge c with
    | none =>
      obtain ⟨hstate, hfirst⟩ := hfollows.edge_none hedge
      rw [Alternate, List.filterMap_cons_none hedge]
      exact ⟨halternate, fun entered hmem => by simpa [hstate, hfirst] using hhead entered hmem⟩
    | some entered =>
      obtain ⟨hstate, hfirst⟩ := hfollows.edge_some hedge
      rw [Alternate, List.filterMap_cons_some hedge]
      refine ⟨halternate.cons fun other hother heq => ?_, fun other hother => ?_⟩
      · have hnot := hhead other hother
        rw [← heq, hstate] at hnot
        by_cases halert : c.state = .alert <;> simp [halert] at hnot
      · rw [List.head?_cons, Option.mem_some_iff] at hother
        exact hother ▸ hfirst

theorem Following.alternate (h : Following first changes) : Alternate changes := h.edges.1

/-! ## Messages without repetitions -/

theorem unrepeated_append (messages : List Evaluated) (m : Evaluated) : unrepeated (messages ++ [m]) =
    if (unrepeated messages).any (·.at_ = m.at_) then unrepeated messages else unrepeated messages ++ [m] := by
  rw [unrepeated, List.foldl_append]
  rfl

theorem any_unrepeated (messages : List Evaluated) (time : ℤ) :
    (unrepeated messages).any (·.at_ = time) = messages.any (·.at_ = time) := by
  induction messages using List.reverseRecOn with
  | nil => rfl
  | append_singleton messages m ih =>
    rw [unrepeated_append, List.any_append]
    split
    · next hseen =>
      rw [ih, List.any_cons, List.any_nil, Bool.or_false]
      by_cases hsame : m.at_ = time
      · subst hsame
        rw [← ih, hseen, Bool.true_or]
      · simp [hsame]
    · rw [List.any_append, ih]

theorem said_append (messages : List Evaluated) (m : Evaluated) (c : Change) :
    said (messages ++ [m]) c = (said messages c || decide (m.at_ = c.at_)) := by
  simp [said]

/-! ## One rule's invariant -/

/-- Whatever has become of the rule so far. -/
structure Inv (first : RuleState) (clock : ℤ) (v : View) : Prop where
  chain : Following first v.decided
  times : v.decided.Pairwise fun earlier later => earlier.at_ < later.at_
  past : ∀ c ∈ v.decided, c.at_ ≤ clock
  stored : ∀ state ∈ v.rule, state = latest first v.decided
  last : ∀ p ∈ v.pending, ∃ before, v.decided = before ++ [{ p with tries := 0 }]
  sorted : v.published.Pairwise fun earlier later => earlier.at_ ≤ later.at_
  known : ∀ m ∈ v.published, ∃ c ∈ v.decided, m.at_ = c.at_ ∧ m.state = c.state
  published : (unrepeated v.published).map (fun m => (m.at_, m.state)) = (saidChanges v).map (fun c => (c.at_, c.state))
  accounted : ∀ c ∈ v.decided, said v.published c = true ∨ (∃ p ∈ v.pending, p.at_ = c.at_) ∨
    ∃ p ∈ v.dropped, p.at_ = c.at_ ∧ pendingTries < p.tries

/-- A change is decided on when none is pending, and stored together with the state it leads to. -/
theorem Inv.decide (h : Inv first clock v) (hpending : v.pending = none) (hclock : clock < c.at_)
    (hfollows : Follows (latest first v.decided) c) (htries : c.tries = 0) :
    Inv first c.at_ { v with pending := some c, rule := some c.state, decided := v.decided ++ [c] } where
  chain := following_append.mpr ⟨h.chain, hfollows⟩
  times := List.pairwise_append.mpr ⟨h.times, List.pairwise_singleton _ _, fun earlier hearlier later hlater => by
    obtain rfl := List.mem_singleton.mp hlater
    exact (h.past earlier hearlier).trans_lt hclock⟩
  past := fun other hother => by
    rcases List.mem_append.mp hother with hother | hother
    · exact (h.past other hother).trans hclock.le
    · exact (congrArg Change.at_ (List.mem_singleton.mp hother)).le
  stored := fun state hstate => by
    obtain rfl := Option.some.inj hstate
    exact (latest_append ..).symm
  last := fun p hp => by
    obtain rfl := Option.some.inj hp
    exact ⟨v.decided, by rw [← htries]⟩
  sorted := h.sorted
  known := fun m hm => by
    obtain ⟨other, hother, hm⟩ := h.known m hm
    exact ⟨other, List.mem_append_left _ hother, hm⟩
  published := by
    have hnew : said v.published c = false := by
      rw [said, List.any_eq_false]
      intro m hm hsame
      obtain ⟨other, hother, hat, -⟩ := h.known m hm
      exact absurd ((h.past other hother).trans_lt hclock) (by simp [← hat, of_decide_eq_true hsame])
    rw [h.published, saidChanges, saidChanges, List.filter_append, List.filter_cons_of_neg (by simp [hnew]), List.filter_nil,
      List.append_nil]
  accounted := fun other hother => by
    rcases List.mem_append.mp hother with hother | hother
    · rcases h.accounted other hother with hsaid | ⟨p, hp, -⟩ | hdropped
      · exact .inl hsaid
      · rw [hpending] at hp
        cases hp
      · exact .inr (.inr hdropped)
    · exact .inr (.inl ⟨c, rfl, congrArg Change.at_ (List.mem_singleton.mp hother).symm⟩)

/-- What is stored of a change counts its tries. -/
theorem Inv.tried (h : Inv first clock v) (hpending : v.pending = some c) :
    Inv first clock { v with pending := some c.tried } where
  __ := h
  last := fun p hp => by
    obtain rfl := Option.some.inj hp
    exact h.last c hpending
  published := h.published
  accounted := fun other hother => by
    rcases h.accounted other hother with hsaid | ⟨p, hp, hat⟩ | hdropped
    · exact .inl hsaid
    · obtain rfl := Option.some.inj (hpending.symm.trans hp)
      exact .inr (.inl ⟨_, rfl, hat⟩)
    · exact .inr (.inr hdropped)

/-- The last change is later than the others. -/
theorem Inv.before_last (h : Inv first clock v) {before : List Change} (hdecided : v.decided = before ++ [c]) :
    ∀ other ∈ before, other.at_ < c.at_ := by
  have htimes := h.times
  rw [hdecided, List.pairwise_append] at htimes
  exact fun other hother => htimes.2.2 other hother c (List.mem_singleton_self c)

/-- The messages of the last change come after those of the others. -/
theorem Inv.publishes (h : Inv first clock v) (hpending : v.pending = some c) (hat : m.at_ = c.at_) (hstate : m.state = c.state) :
    Inv first clock { v with published := v.published ++ [m] } := by
  obtain ⟨before, hdecided⟩ := h.last c hpending
  have hmem : { c with tries := 0 } ∈ v.decided := by simp [hdecided]
  have hlatest : ∀ other ∈ v.decided, other.at_ ≤ c.at_ := by
    intro other hother
    rw [hdecided] at hother
    rcases List.mem_append.mp hother with hother | hother
    · exact (h.before_last hdecided other hother).le
    · exact (congrArg Change.at_ (List.mem_singleton.mp hother)).le
  refine { h with sorted := ?_, known := ?_, published := ?_, accounted := ?_ }
  · refine List.pairwise_append.mpr ⟨h.sorted, List.pairwise_singleton _ _, fun earlier hearlier later hlater => ?_⟩
    obtain rfl := List.mem_singleton.mp hlater
    obtain ⟨other, hother, hearlier, -⟩ := h.known earlier hearlier
    exact (hearlier.trans_le (hlatest other hother)).trans hat.ge
  · intro m' hm'
    rcases List.mem_append.mp hm' with hm' | hm'
    · exact h.known m' hm'
    · obtain rfl := List.mem_singleton.mp hm'
      exact ⟨_, hmem, hat, hstate⟩
  · -- Only the last change has become a published one, unless it was before.
    have hothers : before.filter (said (v.published ++ [m])) = before.filter (said v.published) := by
      refine List.filter_congr fun other hother => ?_
      rw [said_append, hat, decide_eq_false (h.before_last hdecided other hother).ne', Bool.or_false]
    have hpublished := h.published
    rw [saidChanges, hdecided, List.filter_append] at hpublished
    rw [saidChanges]
    dsimp only
    rw [hdecided, List.filter_append, hothers, unrepeated_append, any_unrepeated, hat]
    rw [List.filter_cons_of_pos (by simp [said_append, hat]), List.filter_nil]
    cases hsaid : v.published.any (·.at_ = c.at_) with
    | true =>
      rw [List.filter_cons_of_pos (by simpa [said] using hsaid), List.filter_nil] at hpublished
      rw [if_pos rfl, hpublished]
    | false =>
      rw [List.filter_cons_of_neg (by simp [said, hsaid]), List.filter_nil, List.append_nil] at hpublished
      rw [if_neg (by simp), List.map_append, List.map_append, hpublished]
      simp [hat, hstate]
  · intro other hother
    rcases h.accounted other hother with hsaid | hrest
    · exact .inl (by rw [said_append, hsaid, Bool.true_or])
    · exact .inr hrest

/-- A change is cleared once it is published. -/
theorem Inv.clears (h : Inv first clock v) (hsaid : ∀ p ∈ v.pending, said v.published p = true) :
    Inv first clock { v with pending := none } where
  __ := h
  last := fun p hp => by cases hp
  published := h.published
  accounted := fun other hother => by
    rcases h.accounted other hother with hother | ⟨p, hp, hat⟩ | hdropped
    · exact .inl hother
    · have hpublished := hsaid p hp
      rw [said, hat] at hpublished
      exact .inl hpublished
    · exact .inr (.inr hdropped)

/-- A change is dropped after its last try. -/
theorem Inv.drops (h : Inv first clock v) (hpending : v.pending = some c) (htries : pendingTries < c.tried.tries) :
    Inv first clock { v with pending := none, dropped := v.dropped ++ [c.tried] } where
  __ := h
  last := fun p hp => by cases hp
  published := h.published
  accounted := fun other hother => by
    rcases h.accounted other hother with hsaid | ⟨p, hp, hat⟩ | ⟨p, hp, hdropped⟩
    · exact .inl hsaid
    · obtain rfl := Option.some.inj (hpending.symm.trans hp)
      exact .inr (.inr ⟨_, List.mem_append_right _ (List.mem_singleton_self _), hat, htries⟩)
    · exact .inr (.inr ⟨p, List.mem_append_left _ hp, hdropped⟩)

theorem Inv.forgotten (h : Inv first clock v) (hpending : v.pending = none) :
    Inv first clock { v with pending := none, rule := none } where
  __ := h.clears (by simp [hpending])
  stored := fun state hstate => by cases hstate
  last := fun p hp => by cases hp
  published := h.published
  accounted := (h.clears (by simp [hpending])).accounted

theorem Inv.later (h : Inv first clock v) (hle : clock ≤ now) : Inv first now v :=
  { h with past := fun c hc => (h.past c hc).trans hle }

/-! ## A rule's pass -/

variable {w : EvaluationWorld} {rule : Rule} {id : String} {answer : ℕ → (c : Call) → Reply c}

theorem view_putPending (rule : Rule) (change : Change) (w : EvaluationWorld) :
    view rule.id (w.put write (.putPending rule.id change)) = { view rule.id w with pending := some change } := by
  simp [view, World.put, write]

theorem view_deletePending (rule : Rule) (w : EvaluationWorld) :
    view rule.id (w.put write (.deletePending rule.id)) = { view rule.id w with pending := none } := by
  simp [view, World.put, write]

theorem view_drop (rule : Rule) (change : Change) (w : EvaluationWorld) :
    view rule.id (w.put write (.drop rule.id change)) =
      { view rule.id w with pending := none, dropped := (view rule.id w).dropped ++ [change] } := by
  simp [view, World.put, write]

theorem view_ruleAlert (id : String) (rule : Rule) (entered : Bool) (value : Option ℚ) (at_ : ℤ) (ok : Bool) (w : EvaluationWorld) :
    view id (w.called (.ruleAlert rule entered value at_) ok) = view id w := by
  simp [view, World.called, published]

theorem view_publish (rule : Rule) (change : Change) (reply : Published) (w : EvaluationWorld) :
    view rule.id (w.called (.publish (evaluated rule change)) reply) =
      if reply = .failed then view rule.id w
      else { view rule.id w with published := (view rule.id w).published ++ [evaluated rule change] } := by
  cases reply <;> simp [view, World.called, published, evaluated]

theorem view_value (id : String) (rule : Rule) (now : ℤ) (value : Option (Option ℚ)) (w : EvaluationWorld) :
    view id (w.called (.value rule now) value) = view id w := by
  simp [view, World.called, published]

theorem view_decide (rule : Rule) (change : Change) (w : EvaluationWorld) :
    view rule.id ((w.put write (.decide rule.id change)).put write (.putRule rule.id change.state)) =
      { view rule.id w with
        pending := some change, rule := some change.state, decided := (view rule.id w).decided ++ [change] } := by
  simp [view, World.put, write]

/-- The notifier's call changes nothing of the rule. -/
theorem through_ruleAlert_bind {entered : Bool} {value : Option ℚ} {at_ : ℤ} {f : Unit → Program Unit} {I : View → Prop}
    (hw : I (view id w)) (hf : ∀ w', view id w' = view id w → (f ()).Through write (fun w' => I (view id w')) w') :
    (ruleAlert rule entered value at_ >>= f).Through write (fun w' => I (view id w')) w := by
  refine ⟨hw, fun ok => ?_⟩
  cases hok : (ok : Bool) with
  | false =>
    change I (view id (w.called (.ruleAlert rule entered value at_) false))
    rwa [view_ruleAlert]
  | true => exact hf _ (view_ruleAlert id rule entered value at_ true w)

/-- A pending change is dropped, or counted, published, notified and cleared. -/
theorem through_deliverPending (h : Inv first clock (view rule.id w)) (hpending : w.store.pending rule.id = some c) :
    (deliverPending rule c).Through write (fun w' => Inv first clock (view rule.id w')) w := by
  unfold deliverPending
  split
  · next htries =>
    refine ⟨h, ?_⟩
    have hdropped := h.drops hpending htries
    rwa [← view_drop] at hdropped
  · have htried := h.tried hpending
    rw [← view_putPending] at htried
    have hpublished : ∀ reply : Published, Inv first clock
        (view rule.id ((w.put write (.putPending rule.id c.tried)).called (.publish (evaluated rule c)) reply)) := by
      intro reply
      rw [view_publish]
      split
      · exact htried
      · exact htried.publishes (c := c.tried) (by rw [view_putPending]) rfl rfl
    refine ⟨h, htried, fun reply => ?_⟩
    cases hreply : (reply : Published) with
    | failed => exact hpublished .failed
    | unacknowledged => exact hpublished .unacknowledged
    | acknowledged =>
      have hsaid : ∀ p ∈ (view rule.id ((w.put write (.putPending rule.id c.tried)).called (.publish (evaluated rule c))
          .acknowledged)).pending, said (view rule.id ((w.put write (.putPending rule.id c.tried)).called
            (.publish (evaluated rule c)) .acknowledged)).published p = true := by
        intro p hp
        rw [view_publish, if_neg (by decide), view_putPending] at hp ⊢
        obtain rfl := Option.some.inj hp
        exact (said_append ..).trans (by simp [evaluated, Change.tried])
      -- Whatever the notifier is told, the change is cleared after that.
      have hclear : ∀ w', view rule.id w' =
          view rule.id ((w.put write (.putPending rule.id c.tried)).called (.publish (evaluated rule c)) .acknowledged) →
          (Prog.put (.deletePending rule.id) : Program Unit).Through write (fun w' => Inv first clock (view rule.id w')) w' := by
        intro w' hsame
        have hbefore : Inv first clock (view rule.id w') := hsame ▸ hpublished .acknowledged
        have hcleared := hbefore.clears (hsame ▸ hsaid)
        rw [← view_deletePending] at hcleared
        exact ⟨hbefore, hcleared⟩
      dsimp only
      change Prog.Through _ _ (ite _ _ _) _
      split
      · exact through_ruleAlert_bind (hpublished .acknowledged) hclear
      · unfold Prog.when_
        split
        · exact through_ruleAlert_bind (hpublished .acknowledged) hclear
        · exact hclear _ rfl

/-- The change that a value leads to follows the state it was decided in. -/
theorem follows_newChange {state previous before : RuleState} {value : Option ℚ} (hprevious : previous = before)
    (hchanges : ¬(state = previous ∨ (state = .nodata ∧ previous = .alert))) :
    Follows before (newChange state previous value now) where
  starts := hprevious
  changed := fun heq => hchanges (.inl (heq.trans hprevious.symm))
  data := fun h => hchanges (.inr ⟨h.2, hprevious.trans h.1⟩)
  triggered := rfl

/-- A pass that is not cut off between its first two writes. -/
theorem wp_evaluateRule {ok : Store → Write → Prop} {steps : ℕ} (h : Inv first clock (view rule.id w)) (hclock : clock < now)
    (hfits : (w.store.pending rule.id).isNone → steps ≠ 2 ∧
      ((w.store.rule rule.id).isNone → rule.state = latest first (w.store.decided rule.id))) :
    ((evaluateRule rule now).cut steps).wp write ok (fun _ w' => Inv first now (view rule.id w')) w := by
  have hlater := h.later hclock.le
  unfold evaluateRule
  rw [wp_cut_get_bind]
  cases hpending : w.store.pending rule.id with
  | some change => exact ((through_deliverPending hlater hpending).cut steps).wp
  | none =>
    rw [hpending] at hfits
    obtain ⟨hsteps, hsnapshot⟩ := hfits rfl
    have hprevious : (w.store.rule rule.id).getD rule.state = latest first (w.store.decided rule.id) := by
      cases hrule : w.store.rule rule.id with
      | some state => exact h.stored state hrule
      | none => exact hsnapshot (by rw [hrule]; rfl)
    rcases steps with - | steps
    · exact hlater
    · intro reply
      have hvalue := view_value rule.id rule now reply w
      have hcalled : Inv first now (view rule.id (w.called (.value rule now) reply)) := by rwa [hvalue]
      cases hreply : (reply : Option (Option ℚ)) with
      | none =>
        rw [hreply] at hcalled
        cases steps <;> exact hcalled
      | some value =>
        rw [hreply] at hcalled hvalue
        refine (wp_cut_get_bind steps).mpr ?_
        dsimp only
        split
        · cases steps <;> exact hcalled
        · next hchanges =>
          rcases steps with - | - | steps
          · exact hcalled
          · exact absurd rfl hsteps
          · intro _ _
            have hdecided := h.decide (c := newChange (classify value rule.thresholds)
              ((w.store.rule rule.id).getD rule.state) value now) hpending hclock (follows_newChange hprevious hchanges) rfl
            rw [← hvalue, ← view_decide] at hdecided
            exact ((through_deliverPending hdecided (by simp [World.put, World.called, write])).cut steps).wp

/-- A pass at one rule leaves what there is of another. -/
theorem guards_evaluateRule_other (hne : id ≠ rule.id) (v : View) (now : ℤ) :
    (evaluateRule rule now).Guards write fun w => view id w = v := by
  have hput : ∀ x : Write, (∀ w, view id (w.put write x) = view id w) →
      (Prog.put x : Program Unit).Guards write fun w => view id w = v := fun x hx w hw => ⟨hw, (hx w).trans hw⟩
  have halert : ∀ entered value at_, (ruleAlert rule entered value at_).Guards write fun w => view id w = v := by
    intro entered value at_ w hw
    refine ⟨hw, fun ok => ?_⟩
    cases hok : (ok : Bool) <;> exact (view_ruleAlert ..).trans hw
  have hdeliver : ∀ change, (deliverPending rule change).Guards write fun w => view id w = v := by
    intro change
    unfold deliverPending
    split
    · exact hput _ fun w => by simp [view, World.put, write, hne]
    · refine compositional_guards.bind (hput _ fun w => by simp [view, World.put, write, hne]) fun _ => ?_
      refine compositional_guards.bind (fun w hw => ⟨hw, fun reply => ?_⟩) fun _ => ?_
      · have hview : ∀ reply : Published, view id (w.called (.publish (evaluated rule change)) reply) = view id w := fun reply => by
          simp [view, World.called, published, evaluated, hne.symm]
        cases hreply : (reply : Published) <;> exact (hview _).trans hw
      · have hclear : (Prog.put (.deletePending rule.id) : Program Unit).Guards write fun w => view id w = v :=
          hput _ fun w => by simp [view, World.put, write, hne]
        dsimp only
        split
        · exact compositional_guards.bind (halert _ _ _) fun _ => hclear
        · exact compositional_guards.bind (compositional_guards.when fun _ => halert _ _ _) fun _ => hclear
  refine compositional_guards.bind compositional_guards.get fun s => ?_
  cases s.pending rule.id with
  | some change => exact hdeliver change
  | none =>
    refine compositional_guards.bind (fun w hw => ⟨hw, fun reply => ?_⟩) fun value => ?_
    · cases hreply : (reply : Option (Option ℚ)) <;> exact (view_value ..).trans hw
    · refine compositional_guards.bind compositional_guards.get fun s => ?_
      dsimp only
      split
      · exact compositional_guards.pure ()
      · refine compositional_guards.bind (hput _ fun w => by simp [view, World.put, write, hne]) fun _ => ?_
        exact compositional_guards.bind (hput _ fun w => by simp [view, World.put, write, hne]) fun _ => hdeliver _

/-! ## What api/common stores -/

/-- Once api/common has handled all of the rule's messages its row is as the last says. -/
def Stored (first : RuleState) (messages : List Evaluated) (row : Option RuleRow) (next : ℕ) : Prop :=
  next ≤ messages.length ∧ (next = messages.length → ∀ r ∈ row, r.state = (messages.getLast?.map (·.state)).getD first)

theorem Stored.append (h : Stored first messages row next) (more : List Evaluated) : Stored first (messages ++ more) row next := by
  refine ⟨h.1.trans (by simp), fun heq => ?_⟩
  obtain rfl : more = [] := by
    have hle := h.1
    rw [heq, List.length_append] at hle
    exact List.eq_nil_of_length_eq_zero (by omega)
  rw [List.append_nil] at heq ⊢
  exact h.2 heq

theorem Stored.handle (hget : messages[next]? = some m) :
    Stored first messages (row.map fun r => ⟨m.state, if m.triggered then some m.at_ else r.lastTriggeredAt⟩) (next + 1) := by
  obtain ⟨hlt, hat⟩ := List.getElem?_eq_some_iff.mp hget
  refine ⟨hlt, fun hlast r hr => ?_⟩
  obtain ⟨old, -, rfl⟩ := Option.mem_map.mp hr
  rw [List.getLast?_eq_getElem?, ← hlast, Nat.add_sub_cancel, hget]
  rfl

theorem Stored.rewind (h : Stored first messages row next) (offset : ℕ) : Stored first messages row (min offset next) := by
  refine ⟨(min_le_right ..).trans h.1, fun heq => h.2 ?_⟩
  have hle := h.1
  omega

/-! ## Runs -/

section Runs
variable {rows : String → Option RuleRow} {s : System}

/-- The invariant of a run, at one rule. -/
structure RunInv (id : String) (rows : String → Option RuleRow) (s : System) : Prop where
  inv : Inv (firstState id rows) s.clock (view id s.world)
  stored : Stored (firstState id rows) (published id s.world.calls) (s.rows id) (s.next id)

theorem runInv_start (id : String) (clock : ℤ) (rows : String → Option RuleRow) : RunInv id rows (start clock rows) where
  inv := by
    refine ⟨trivial, .nil, ?_, ?_, ?_, .nil, ?_, rfl, ?_⟩ <;> intro x hx <;> cases hx
  stored := ⟨le_rfl, fun _ r hr => by
    have hrow : rows id = some r := hr
    simp [firstState, hrow, start, published]⟩

theorem ruleId_of_published {calls : List ((c : Call) × Reply c)} (h : m ∈ published id calls) : m.ruleId = id := by
  obtain ⟨⟨call, reply⟩, -, hm⟩ := List.mem_filterMap.mp h
  cases call with
  | publish message =>
    dsimp only at hm
    split at hm
    · next hid =>
      obtain rfl := Option.some.inj hm
      exact hid.1
    · cases hm
  | _ => cases hm

theorem published_run (id : String) (answer : ℕ → (c : Call) → Reply c) (p : Program Unit) (w : EvaluationWorld) :
    ∃ more, published id (p.run write answer w).2.calls = published id w.calls ++ more := by
  obtain ⟨more, hmore⟩ := calls_run answer p w
  exact ⟨published id more, by rw [hmore]; exact List.filterMap_append⟩

theorem runInv_step (h : RunInv id rows s) {e : Event} (hfits : Fits id rows s e) : RunInv id rows (step answer s e) := by
  cases e with
  | evaluated delay rule steps =>
    obtain ⟨more, hmore⟩ := published_run id answer ((evaluateRule rule (s.clock + delay)).cut steps) s.world
    have hclock : s.clock < s.clock + delay := by simp
    refine ⟨?_, ?_⟩
    · by_cases hid : rule.id = id
      · subst hid
        exact wp_run answer (wp_evaluateRule h.inv hclock (hfits rfl))
      · have hview : view id (((evaluateRule rule (s.clock + delay)).cut steps).run write answer s.world).2 = view id s.world :=
          ((guards_evaluateRule_other (fun heq => hid heq.symm) _ _ s.world rfl).cut steps).run answer
        have hlater := h.inv.later hclock.le
        rwa [← hview] at hlater
    · have hstored := h.stored.append more
      rwa [← hmore] at hstored
  | forgotten ruleId =>
    refine ⟨?_, h.stored⟩
    by_cases hid : ruleId = id
    · subst hid
      have hpending : s.world.store.pending ruleId = none := by simpa using hfits rfl
      have hforgotten := h.inv.forgotten hpending
      simpa [step, view, forget] using hforgotten
    · have hne : id ≠ ruleId := fun heq => hid heq.symm
      have hview : view id { s.world with store := forget s.world.store ruleId } = view id s.world := by
        simp [view, forget, hne]
      have hinv := h.inv
      rwa [← hview] at hinv
  | handled ruleId =>
    cases hget : (published ruleId s.world.calls)[s.next ruleId]? with
    | none =>
      have hstep : step answer s (.handled ruleId) = s := by simp only [step, hget]
      rwa [hstep]
    | some m =>
      have hm := ruleId_of_published (List.mem_of_getElem? hget)
      have hstep : step answer s (.handled ruleId) =
          { s with rows := onRuleEvaluated s.rows m, next := Function.update s.next ruleId (s.next ruleId + 1) } := by
        simp only [step, hget]
      rw [hstep]
      refine ⟨h.inv, ?_⟩
      by_cases hid : ruleId = id
      · subst hid
        have hstored : Stored (firstState ruleId rows) _ ((s.rows ruleId).map _) _ := Stored.handle hget
        simpa [onRuleEvaluated, setRuleState, hm] using hstored
      · have hne : id ≠ ruleId := fun heq => hid heq.symm
        simpa [onRuleEvaluated, setRuleState, hm, hne] using h.stored
  | redelivered ruleId offset =>
    refine ⟨h.inv, ?_⟩
    by_cases hid : ruleId = id
    · subst hid
      simpa [step] using h.stored.rewind offset
    · have hne : id ≠ ruleId := fun heq => hid heq.symm
      simpa [step, hne] using h.stored

/-! ## What follows from the invariant -/

theorem said_of_same {other : Change} (hsame : other.at_ = c.at_) (h : said messages other = true) : said messages c = true := by
  rwa [said, hsame] at h

/-- Among the changes decided on, the time tells one from another. -/
theorem Inv.eq_of_at (h : Inv first clock v) {other : Change} (hc : c ∈ v.decided) (hother : other ∈ v.decided)
    (hat : c.at_ = other.at_) : c = other := by
  have hdistinct : (v.decided.map (·.at_)).Nodup := List.pairwise_map.mpr (h.times.imp fun hlt => hlt.ne)
  exact List.inj_on_of_nodup_map hdistinct hc hother hat

/-- The last message is about the last change, once that is published. -/
theorem Inv.last_message (h : Inv first clock v) (hsaid : ∀ c ∈ v.decided.getLast?, said v.published c = true) :
    (v.published.getLast?.map (·.state)).getD first = latest first v.decided := by
  cases hlast : v.decided.getLast? with
  | none =>
    have hdecided := List.getLast?_eq_none_iff.mp hlast
    have hpublished : v.published = [] := List.eq_nil_iff_forall_not_mem.mpr fun m hm => by
      obtain ⟨c, hc, -⟩ := h.known m hm
      rw [hdecided] at hc
      cases hc
    rw [hdecided, hpublished]
    rfl
  | some c =>
    obtain ⟨before, hdecided⟩ := List.getLast?_eq_some_iff.mp hlast
    obtain ⟨m, hm, hat⟩ := List.any_eq_true.mp (hsaid c hlast)
    obtain ⟨l, hl⟩ : ∃ l, v.published.getLast? = some l :=
      ⟨_, List.getLast?_eq_some_getLast (List.ne_nil_of_mem hm)⟩
    obtain ⟨earlier, hpublished⟩ := List.getLast?_eq_some_iff.mp hl
    obtain ⟨other, hother, hsame, hstate⟩ := h.known l (by simp [hpublished])
    -- No message is later than the last, and no change later than `c`.
    have hle : m.at_ ≤ l.at_ := by
      rw [hpublished] at hm
      have hsorted := h.sorted
      rw [hpublished, List.pairwise_append] at hsorted
      rcases List.mem_append.mp hm with hm | hm
      · exact hsorted.2.2 m hm l (List.mem_singleton_self l)
      · exact (congrArg Evaluated.at_ (List.mem_singleton.mp hm)).le
    have hmost : other.at_ ≤ c.at_ := by
      rw [hdecided] at hother
      rcases List.mem_append.mp hother with hother | hother
      · exact (h.before_last hdecided other hother).le
      · exact (congrArg Change.at_ (List.mem_singleton.mp hother)).le
    have heq : other = c := h.eq_of_at hother (by simp [hdecided])
      (le_antisymm hmost ((of_decide_eq_true hat).symm.trans_le (hle.trans hsame.le)))
    rw [hl, hdecided, latest_append, ← heq, ← hstate]
    rfl

/-- Where nothing is dropped unpublished, the published changes are all but perhaps the last. -/
theorem Inv.following_said (h : Inv first clock v) (hdropped : ∀ p ∈ v.dropped, said v.published p = true) :
    Following first (saidChanges v) := by
  have hsaid : ∀ c ∈ v.decided, (∀ p ∈ v.pending, p.at_ ≠ c.at_) → said v.published c = true := by
    intro c hc hpending
    rcases h.accounted c hc with hc | ⟨p, hp, hat⟩ | ⟨p, hp, hat, -⟩
    · exact hc
    · exact absurd hat (hpending p hp)
    · exact said_of_same hat (hdropped p hp)
  cases hpending : v.pending with
  | none =>
    rw [saidChanges, List.filter_eq_self.mpr fun c hc => hsaid c hc (by simp [hpending])]
    exact h.chain
  | some p =>
    obtain ⟨before, hdecided⟩ := h.last p hpending
    have hbefore : before.filter (said v.published) = before := List.filter_eq_self.mpr fun c hc =>
      hsaid c (by simp [hdecided, hc]) fun p' hp' => by
        obtain rfl := Option.some.inj (hpending.symm.trans hp')
        exact (h.before_last hdecided c hc).ne'
    have hchain := h.chain
    rw [hdecided, following_append] at hchain
    rw [saidChanges, hdecided, List.filter_append, hbefore]
    cases hlast : said v.published { p with tries := 0 } with
    | true =>
      rw [List.filter_cons_of_pos hlast]
      exact following_append.mpr hchain
    | false =>
      rw [List.filter_cons_of_neg (by simp [hlast]), List.filter_nil, List.append_nil]
      exact hchain.1

theorem Inv.kept (h : Inv first clock v) (hstored : Stored first v.published row next) : Kept first v row next := by
  have hagrees : (∀ c ∈ v.decided.getLast?, said v.published c = true) → next = v.published.length →
      ∀ r ∈ row, r.state = latest first v.decided ∧ ∀ state ∈ v.rule, r.state = state := by
    intro hsaid hnext r hr
    have hstate : r.state = latest first v.decided := (hstored.2 hnext r hr).trans (h.last_message hsaid)
    exact ⟨hstate, fun state hrule => hstate.trans (h.stored state hrule).symm⟩
  refine ⟨h.chain, h.chain.alternate, h.published, h.accounted, fun _ => hagrees, fun hdropped => ?_⟩
  have hfollowing := h.following_said hdropped
  refine ⟨?_, hfollowing.alternate, fun hpending hnext r hr state hrule => ?_⟩
  · have hstates : (unrepeated v.published).map (·.state) = (saidChanges v).map (·.state) := by
      have hpairs := congrArg (List.map Prod.snd) h.published
      rwa [List.map_map, List.map_map] at hpairs
    rw [hstates]
    exact hfollowing.unbroken
  · refine (hagrees (fun c hc => ?_) hnext r hr).2 state hrule
    rcases h.accounted c (List.mem_of_getLast? hc) with hsaid | ⟨p, hp, -⟩ | ⟨p, hp, hat, -⟩
    · exact hsaid
    · rw [hpending] at hp
      cases hp
    · exact said_of_same hat (hdropped p hp)

/-- A pass in which all is published and notified leaves nothing pending. -/
theorem pending_recovered {reply : ℕ → (c : Call) → Reply c} (hreply : Recovered reply) (rule : Rule) (now : ℤ) (w : EvaluationWorld) :
    ((evaluateRule rule now).run write reply w).2.store.pending rule.id = none := by
  have hpublish : ∀ (m : Evaluated) (w : EvaluationWorld),
      (publish m).run write reply w = (some (), w.called (.publish m) Published.acknowledged) := by
    intro m w
    rw [publish, Prog.run, hreply.publish]
    rfl
  have halert : ∀ (entered : Bool) (value : Option ℚ) (at_ : ℤ) (w : EvaluationWorld),
      (ruleAlert rule entered value at_).run write reply w = (some (), w.called (.ruleAlert rule entered value at_) true) := by
    intro entered value at_ w
    rw [ruleAlert, Prog.run, hreply.ruleAlert]
    rfl
  have hclear : ∀ w : EvaluationWorld,
      ((Prog.put (.deletePending rule.id) : Program Unit).run write reply w).2.store.pending rule.id = none := fun w => by
    simp [Prog.put, Prog.run, World.put, write]
  have hdeliver : ∀ (change : Change) (w : EvaluationWorld),
      ((deliverPending rule change).run write reply w).2.store.pending rule.id = none := by
    intro change w
    unfold deliverPending
    split
    · simp [Prog.put, Prog.run, World.put, write]
    · rw [run_bind rfl, run_bind (hpublish ..)]
      dsimp only
      split
      · rw [run_bind (halert ..)]
        exact hclear _
      · unfold Prog.when_
        split
        · rw [run_bind (halert ..)]
          exact hclear _
        · exact hclear _
  unfold evaluateRule
  rw [run_bind rfl]
  cases hpending : w.store.pending rule.id with
  | some change => exact hdeliver change w
  | none =>
    cases hvalue : (reply w.calls.length (.value rule now) : Option (Option ℚ)) with
    | none =>
      have hraised : (value rule now).run write reply w = (none, w.called (.value rule now) none) := by
        rw [value, Prog.run, hvalue]
        rfl
      rw [run_bind_raised hraised]
      exact hpending
    | some v =>
      have hdone : (value rule now).run write reply w = (some v, w.called (.value rule now) (some v)) := by
        rw [value, Prog.run, hvalue]
        rfl
      rw [run_bind hdone, run_bind rfl]
      dsimp only
      split
      · exact hpending
      · rw [run_bind rfl, run_bind rfl]
        exact hdeliver _ _

/-- In every such run what becomes of the rule's changes is kept to, and once publishing succeeds
again one complete pass leaves none pending. -/
theorem changes_kept (answer : ℕ → (c : Call) → Reply c) (id : String) (clock : ℤ) (rows : String → Option RuleRow)
    (es : List Event) (h : Meets (step answer) (Fits id rows) (start clock rows) es) :
    Throughout (step answer) (keptAt id rows) (start clock rows) es ∧
      ∀ (reply : ℕ → (c : Call) → Reply c), Recovered reply → ∀ (rule : Rule) (now : ℤ), rule.id = id →
        ((evaluateRule rule now).run write reply (run (step answer) (start clock rows) es).world).2.store.pending id = none := by
  refine ⟨(h.throughout (fun _ _ hs he => runInv_step hs he) (runInv_start id clock rows)).imp fun _ hs => hs.inv.kept hs.stored, ?_⟩
  intro reply hreply rule now hid
  exact hid ▸ pending_recovered hreply rule now _

end Runs

/-! ## A change that is dropped -/

def tooManyErrors : Rule where
  id := "r"
  orgId := "o"
  name := "Too many errors"
  signal := "log"
  queryString := "level:error"
  notify := {}
  thresholds := { crit := some 10 }

def okRow (id : String) : Option RuleRow := if id = "r" then some ⟨.ok, none⟩ else none

/-- A pass every minute. -/
def pass : Event := .evaluated 60000000 tooManyErrors 100

/-- There are twelve errors, and publishing fails up to call `k`. -/
def awayUntil (k n : ℕ) : (c : Call) → Reply c
  | .value _ _ => some (some 12)
  | .publish _ => if n ≤ k then Published.failed else Published.acknowledged
  | .ruleAlert _ _ _ _ => true

/-- The second pass publishes what the first could not, and api/common handles it. -/
def publishedLater : List Event := [pass, pass, .handled "r"]

theorem published_later_kept :
    Meets (step (awayUntil 1)) (Fits "r" okRow) (start 0 okRow) publishedLater ∧
      Throughout (step (awayUntil 1)) (keptAt "r" okRow) (start 0 okRow) publishedLater ∧
        inStepAt "r" okRow (run (step (awayUntil 1)) (start 0 okRow) publishedLater) := by
  have fits : Meets (step (awayUntil 1)) (Fits "r" okRow) (start 0 okRow) publishedLater := by decide +kernel
  have hkept := changes_kept (awayUntil 1) "r" 0 okRow publishedLater fits
  exact ⟨fits, hkept.1, hkept.1.last.undropped (by decide +kernel)⟩

/-- Ten publishes fail, so the change is dropped, and the later passes find nothing to publish. -/
theorem dropped_not_inStep : Meets (step (awayUntil 10)) (Fits "r" okRow) (start 0 okRow) (List.replicate 12 pass) ∧
    ¬Throughout (step (awayUntil 10)) (inStepAt "r" okRow) (start 0 okRow) (List.replicate 12 pass) := by
  refine ⟨by decide +kernel, fun h => ?_⟩
  have hagrees := h.last.agrees (by decide +kernel) (by decide +kernel)
  exact absurd hagrees (by decide +kernel)

end Upstat.RuleChanges
