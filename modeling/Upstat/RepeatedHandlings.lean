import Upstat.CooldownStamps
import Upstat.DurableDeliveries
import Upstat.StillDown

/-! # A transition that is handled again

A handling that fails has sent, stamped, armed and counted what it came to. The one that
completes starts from there, and is compared with one complete handling. -/
namespace Upstat.RepeatedHandlings

open GuardedRuns AwaitedPrograms NotifierPrograms NotifierEffects NotifierOrdering NotifierRuns NotifierJobs CommonDatabase
  MonitorMachine
open StillDown (armed)
open FlappingEdges (unpublished)
open DeliveryOutcomes (dated)

/-- A config whose rules are told apart by their ids, as the keys of a dict. -/
structure Snapshot extends Config where
  distinct : (rules.map (·.id)).Nodup

/-! ## What becomes of a rule's message -/

/-- The rule's message was sent to the channel, or reported as suppressed. -/
inductive Mark where
  | sent (ruleId channelId : String) (direction : Direction)
  | noted (ruleId : String) (direction : Direction) (message : String)
  deriving DecidableEq

def markOf (id : TransitionId) : (c : Call) × Reply c → Option Mark
  | ⟨.deliver _ (.sent msg ruleId channelId direction) _ _ _, _⟩ =>
    if msg = .transition id then some (.sent ruleId channelId direction) else none
  | ⟨.publish _ delivery, reply⟩ =>
    match delivery.record.id with
    | .noted msg ruleId direction _ =>
      if msg = .transition id ∧ (reply : Bool) = true then some (.noted ruleId direction delivery.record.message) else none
    | _ => none
  | _ => none

def Mark.ruleId : Mark → String
  | .sent ruleId _ _ => ruleId
  | .noted ruleId _ _ => ruleId

/-- The mark decides on the rule's message to the channel. -/
def Mark.decides (ruleId channelId : String) : Mark → Bool
  | .sent ruleId' channelId' _ => ruleId' = ruleId ∧ channelId' = channelId
  | .noted ruleId' _ _ => ruleId' = ruleId

def result (id : TransitionId) (ruleId channelId : String) (calls : List ((c : Call) × Reply c)) : List Mark :=
  (calls.filterMap (markOf id)).filter (Mark.decides ruleId channelId)

section Statement
variable (n : Notifier) (answer : ℕ → (c : Call) → Reply c) (c : Config) (t : TransitionMsg)

/-- A handling that is cut off: when, and after how many writes and calls. -/
structure Failure where
  at_ : ℚ
  steps : ℕ

def fail (w : NotifierWorld) (f : Failure) : NotifierWorld :=
  (((onTransition n c t f.at_).cut f.steps).run write answer w).2

/-- In a run the transition's handling fails, or something else happens. -/
inductive Turn where
  | failed (f : Failure)
  | other (e : Event)

def take (w : NotifierWorld) : Turn → NotifierWorld
  | .failed f => fail n answer c t w f
  | .other e => step n answer w e

/-- What happens besides the failures. -/
def Turn.besides : Turn → Option Event
  | .failed _ => none
  | .other e => some e

def handled (now : ℚ) (w : NotifierWorld) : Option Unit × NotifierWorld := (onTransition n c t now).run write answer w

/-- Two handlings, each from one world to another, have the same result for each rule and
channel and leave the same timers armed. -/
structure SameEnd (before after before' after' : NotifierWorld) : Prop where
  results : ∀ rule ∈ c.uptimeRules t.orgId, ∀ channelId ∈ rule.notify.channelIds, (c.channel channelId).isSome = true →
    result t.id rule.id channelId (after.calls.drop before.calls.length) =
      result t.id rule.id channelId (after'.calls.drop before'.calls.length)
  timers : ∀ rule ∈ c.uptimeRules t.orgId, armed after.store (rule.id, t.monitorId) = armed after'.store (rule.id, t.monitorId)

end Statement

/-! ## What decides it -/

/-- What the flapping guard does with a transition. -/
inductive Guard where
  | enters | holds | lets
  deriving DecidableEq

section Decisions
variable (n : Notifier) (c : Config) (t : TransitionMsg) (now : ℚ) (s : Store) (rule : Rule)

def guard : Guard :=
  let edges := recentEdges ((window s t.monitorId).edges ++ edgeOf t now) now
  if ¬(window s t.monitorId).on ∧ flapEdges ≤ edges.length then .enters
  else if (window s t.monitorId).on ∧ 1 < edges.length then .holds
  else .lets

/-- The rule hears of the transition, or of flapping when the transition enters it. -/
def hears : Bool :=
  match guard t now s with
  | .enters => ruleMatches rule (monitorOf c t) .down
  | _ => (directionOf t.from_ t.to_).any (ruleMatches rule (monitorOf c t))

/-- Neither the monitor nor the rule is muted. -/
def unmuted : Bool := ¬(monitorOf c t).muted ∧ ¬mutedNow n rule now

/-- The cooldown suppresses the message. A guard that goes off has cleared its stamp. -/
def held (direction : Direction) : Bool :=
  ¬(window s t.monitorId).on ∧ cooling rule (monitorOf c t) direction now false s

/-- The handling sends the rule a down. -/
def sendsDown : Bool :=
  guard t now s = .lets ∧ directionOf t.from_ t.to_ = some .down ∧ ruleMatches rule (monitorOf c t) .down ∧
    unmuted n c t now rule ∧ ¬held c t now s rule .down

/-- The rule's timer is armed already, or is about to be. -/
def arms : Bool := armed s (rule.id, t.monitorId) ∨ sendsDown n c t now s rule ∧ 0 < rule.notify.renotifyMinutes

/-- Each rule with a channel meets the same guard and the same cooldown in both states, and its
timer is armed from both or from neither. -/
structure SameDecisions (s s' : Store) : Prop where
  guards : ∀ rule ∈ c.uptimeRules t.orgId, (∃ channelId ∈ rule.notify.channelIds, (c.channel channelId).isSome = true) →
    hears c t now s rule = true ∨ hears c t now s' rule = true → guard t now s = guard t now s'
  cooldowns : ∀ rule ∈ c.uptimeRules t.orgId, (∃ channelId ∈ rule.notify.channelIds, (c.channel channelId).isSome = true) →
    hears c t now s rule = true → guard t now s = .lets → guard t now s' = .lets → unmuted n c t now rule = true →
      ∀ direction ∈ directionOf t.from_ t.to_, held c t now s rule direction = held c t now s' rule direction
  timers : t.from_ = .down ∧ t.to_ ≠ .down ∨ ∀ rule ∈ c.uptimeRules t.orgId, arms n c t now s rule = arms n c t now s' rule

end Decisions

/-! ## Decisions and marks -/

/-- Why a mute suppresses the rule's messages, if one does. -/
def quieted (n : Notifier) (monitor : Monitor) (rule : Rule) (now : ℚ) : Option String :=
  if monitor.muted then some "suppressed: monitor muted"
  else if mutedNow n rule now then some "suppressed: mute window" else none

/-- What is decided about a rule: the direction of its message, and why it is suppressed, if it is. -/
abbrev Decision := Option (Direction × Option String)

def decision (n : Notifier) (c : Config) (t : TransitionMsg) (now : ℚ) (s : Store) (rule : Rule) : Decision :=
  if hears c t now s rule then
    match guard t now s with
    | .enters => some (.flapping, quieted n (monitorOf c t) rule now)
    | .holds => (directionOf t.from_ t.to_).map fun direction => (direction, some "suppressed: monitor is flapping")
    | .lets => (directionOf t.from_ t.to_).map fun direction =>
        (direction, (quieted n (monitorOf c t) rule now).or
          (if held c t now s rule direction then some "suppressed: cooldown" else none))
  else none

/-- The marks that a message to the rule leaves. -/
def messageMarks (c : Config) (rule : Rule) (direction : Direction) : Option String → List Mark
  | none => (rule.notify.channelIds.filter fun id => (c.channel id).isSome).map fun id => .sent rule.id id direction
  | some reason => [.noted rule.id direction reason]

def marks (c : Config) (rule : Rule) : Decision → List Mark
  | none => []
  | some (direction, reason) => messageMarks c rule direction reason

variable {n : Notifier} {answer : ℕ → (c : Call) → Reply c} {c : Config} {t : TransitionMsg} {now : ℚ} {s s' : Store} {rule : Rule}
  {monitor : Monitor} {msg : Msg} {direction : Direction} {job : Job} {w : NotifierWorld} {k : ℕ} {ok : Store → Write → Prop}

theorem ruleId_of_mem_marks {decision : Decision} {mark : Mark} (h : mark ∈ marks c rule decision) : mark.ruleId = rule.id := by
  obtain - | ⟨direction, - | reason⟩ := decision
  · cases h
  · obtain ⟨channelId, -, rfl⟩ := List.mem_map.mp h
    rfl
  · obtain rfl := List.mem_singleton.mp h
    rfl

theorem ruleId_of_decides {ruleId channelId : String} {mark : Mark} (h : mark.decides ruleId channelId = true) :
    mark.ruleId = ruleId := by
  cases mark with
  | sent ruleId' channelId' direction => exact (of_decide_eq_true h).1
  | noted ruleId' direction message => exact of_decide_eq_true h

/-- The decision that the marks on a channel come from. -/
def decided : List Mark → Decision
  | [] => none
  | .sent _ _ direction :: _ => some (direction, none)
  | .noted _ direction reason :: _ => some (direction, some reason)

theorem decided_marks {channelId : String} (hmem : channelId ∈ rule.notify.channelIds)
    (hthere : (c.channel channelId).isSome = true) (d : Decision) :
    decided ((marks c rule d).filter (Mark.decides rule.id channelId)) = d := by
  obtain - | ⟨direction, - | reason⟩ := d
  · rfl
  · -- There is a mark on this channel, and every mark is of a message that was sent.
    have hsent : Mark.sent rule.id channelId direction ∈
        (marks c rule (some (direction, none))).filter (Mark.decides rule.id channelId) :=
      List.mem_filter.mpr ⟨List.mem_map.mpr ⟨channelId, List.mem_filter.mpr ⟨hmem, by simpa using hthere⟩, rfl⟩,
        by simp [Mark.decides]⟩
    cases hmarks : (marks c rule (some (direction, none))).filter (Mark.decides rule.id channelId) with
    | nil =>
      rw [hmarks] at hsent
      cases hsent
    | cons mark rest =>
      have hmark : mark ∈ (marks c rule (some (direction, none))).filter (Mark.decides rule.id channelId) := by simp [hmarks]
      obtain ⟨channelId', -, rfl⟩ := List.mem_map.mp (List.mem_filter.mp hmark).1
      rfl
  · simp [marks, messageMarks, Mark.decides, decided]

/-- Of all rules' marks only the rule's own decide on it. -/
theorem filter_flatMap_marks {rules : List Rule} (hdistinct : (rules.map (·.id)).Nodup) (hmem : rule ∈ rules)
    (channelId : String) (f : Rule → Decision) :
    (rules.flatMap fun rule => marks c rule (f rule)).filter (Mark.decides rule.id channelId) =
      (marks c rule (f rule)).filter (Mark.decides rule.id channelId) := by
  have hother : ∀ rules : List Rule, rule.id ∉ rules.map (·.id) →
      (rules.flatMap fun rule => marks c rule (f rule)).filter (Mark.decides rule.id channelId) = [] := by
    intro rules hnot
    refine List.filter_eq_nil_iff.mpr fun mark hmark hdecides => hnot ?_
    obtain ⟨other, hother, hmark⟩ := List.mem_flatMap.mp hmark
    exact List.mem_map.mpr ⟨other, hother, (ruleId_of_mem_marks hmark).symm.trans (ruleId_of_decides hdecides)⟩
  induction rules with
  | nil => cases hmem
  | cons first rest ih =>
    rw [List.map_cons, List.nodup_cons] at hdistinct
    rw [List.flatMap_cons, List.filter_append]
    rcases List.mem_cons.mp hmem with rfl | hrest
    · rw [hother rest hdistinct.1, List.append_nil]
    · have hne : first.id ≠ rule.id := fun heq => hdistinct.1 (heq ▸ List.mem_map.mpr ⟨rule, hrest, rfl⟩)
      have hfirst : (marks c first (f first)).filter (Mark.decides rule.id channelId) = [] :=
        List.filter_eq_nil_iff.mpr fun mark hmark hdecides =>
          hne ((ruleId_of_mem_marks hmark).symm.trans (ruleId_of_decides hdecides))
      rw [hfirst, List.nil_append]
      exact ih hdistinct.2 hrest

theorem hears_of_guard (h : guard t now s = guard t now s') : hears c t now s rule = hears c t now s' rule := by
  rw [hears, hears, h]

theorem quieted_eq_none_iff : quieted n (monitorOf c t) rule now = none ↔ unmuted n c t now rule = true := by
  unfold quieted unmuted
  cases (monitorOf c t).muted <;> cases mutedNow n rule now <;> simp

theorem decision_of_not_hears (h : hears c t now s rule = false) : decision n c t now s rule = none := by
  rw [decision, h, if_neg (by simp)]

theorem decision_enters (hhears : hears c t now s rule = true) (hguard : guard t now s = .enters) :
    decision n c t now s rule = some (.flapping, quieted n (monitorOf c t) rule now) := by
  rw [decision, if_pos hhears, hguard]

/-- Past the guard's entry, who hears hears of the transition's own direction. -/
theorem direction_of_hears (hhears : hears c t now s rule = true) (hguard : guard t now s ≠ .enters) :
    ∃ direction, directionOf t.from_ t.to_ = some direction := by
  unfold hears at hhears
  cases hdirection : directionOf t.from_ t.to_ with
  | some direction => exact ⟨direction, rfl⟩
  | none =>
    rw [hdirection] at hhears
    split at hhears
    · next henters => exact absurd henters hguard
    · cases hhears

theorem decision_holds (hhears : hears c t now s rule = true) (hguard : guard t now s = .holds)
    (hdirection : directionOf t.from_ t.to_ = some direction) :
    decision n c t now s rule = some (direction, some "suppressed: monitor is flapping") := by
  rw [decision, if_pos hhears, hguard, hdirection]
  rfl

theorem decision_lets (hhears : hears c t now s rule = true) (hguard : guard t now s = .lets)
    (hdirection : directionOf t.from_ t.to_ = some direction) :
    decision n c t now s rule = some (direction, (quieted n (monitorOf c t) rule now).or
      (if held c t now s rule direction then some "suppressed: cooldown" else none)) := by
  rw [decision, if_pos hhears, hguard, hdirection]
  rfl

theorem hears_of_decision {d : Direction × Option String} (h : decision n c t now s rule = some d) :
    hears c t now s rule = true := by
  by_contra hnot
  rw [decision_of_not_hears (by simpa using hnot)] at h
  cases h

/-- The guard's hold says so, and nothing else does. -/
theorem reason_ne_flapping (direction : Direction) : (quieted n (monitorOf c t) rule now).or
    (if held c t now s rule direction then some "suppressed: cooldown" else none) ≠ some "suppressed: monitor is flapping" := by
  unfold quieted
  cases (monitorOf c t).muted <;> cases mutedNow n rule now <;> cases held c t now s rule direction <;> decide

theorem exists_decision (hhears : hears c t now s rule = true) : ∃ d, decision n c t now s rule = some d := by
  cases hguard : guard t now s with
  | enters => exact ⟨_, decision_enters hhears hguard⟩
  | holds =>
    obtain ⟨direction, hdirection⟩ := direction_of_hears hhears (by simp [hguard])
    exact ⟨_, decision_holds hhears hguard hdirection⟩
  | lets =>
    obtain ⟨direction, hdirection⟩ := direction_of_hears hhears (by simp [hguard])
    exact ⟨_, decision_lets hhears hguard hdirection⟩

/-- A decision about a rule that hears shows what the guard did. -/
theorem enters_of_decision (hhears : hears c t now s rule = true) (hhears' : hears c t now s' rule = true)
    (h : decision n c t now s rule = decision n c t now s' rule) (henters : guard t now s = .enters) :
    guard t now s' = .enters := by
  by_contra hnot
  obtain ⟨direction, hdirection⟩ := direction_of_hears hhears' hnot
  rw [decision_enters hhears henters] at h
  have hflapping : directionOf t.from_ t.to_ = some .flapping := by
    cases hguard : guard t now s' with
    | enters => exact absurd hguard hnot
    | holds =>
      rw [decision_holds hhears' hguard hdirection] at h
      exact hdirection.trans (congrArg some (Prod.ext_iff.mp (Option.some.inj h)).1).symm
    | lets =>
      rw [decision_lets hhears' hguard hdirection] at h
      exact hdirection.trans (congrArg some (Prod.ext_iff.mp (Option.some.inj h)).1).symm
  exact directionOf_ne_flapping hflapping rfl

theorem holds_of_decision (hhears : hears c t now s rule = true) (hhears' : hears c t now s' rule = true)
    (h : decision n c t now s rule = decision n c t now s' rule) (hholds : guard t now s = .holds) :
    guard t now s' = .holds := by
  obtain ⟨direction, hdirection⟩ := direction_of_hears hhears (by simp [hholds])
  cases hguard : guard t now s' with
  | holds => rfl
  | enters => exact absurd (enters_of_decision hhears' hhears h.symm hguard) (by simp [hholds])
  | lets =>
    rw [decision_holds hhears hholds hdirection, decision_lets hhears' hguard hdirection] at h
    exact absurd (Prod.ext_iff.mp (Option.some.inj h)).2.symm (reason_ne_flapping direction)

/-- The decisions agree where the guard and the cooldown do. -/
theorem decision_eq_iff : decision n c t now s rule = decision n c t now s' rule ↔
    (hears c t now s rule = true ∨ hears c t now s' rule = true → guard t now s = guard t now s') ∧
      (hears c t now s rule = true → guard t now s = .lets → guard t now s' = .lets → unmuted n c t now rule = true →
        ∀ direction ∈ directionOf t.from_ t.to_, held c t now s rule direction = held c t now s' rule direction) := by
  constructor
  · intro h
    constructor
    · intro hhears
      have hboth : hears c t now s rule = true ∧ hears c t now s' rule = true := by
        rcases hhears with hhears | hhears
        · obtain ⟨d, hd⟩ := exists_decision (n := n) hhears
          exact ⟨hhears, hears_of_decision (h ▸ hd)⟩
        · obtain ⟨d, hd⟩ := exists_decision (n := n) hhears
          exact ⟨hears_of_decision (h ▸ hd), hhears⟩
      cases hguard : guard t now s with
      | enters => exact (enters_of_decision hboth.1 hboth.2 h hguard).symm
      | holds => exact (holds_of_decision hboth.1 hboth.2 h hguard).symm
      | lets =>
        cases hguard' : guard t now s' with
        | enters => exact absurd (enters_of_decision hboth.2 hboth.1 h.symm hguard') (by simp [hguard])
        | holds => exact absurd (holds_of_decision hboth.2 hboth.1 h.symm hguard') (by simp [hguard])
        | lets => rfl
    · intro hhears hguard hguard' hunmuted direction hdirection
      have hhears' : hears c t now s' rule = true := hears_of_guard (hguard.trans hguard'.symm) ▸ hhears
      rw [decision_lets hhears hguard hdirection, decision_lets hhears' hguard' hdirection,
        quieted_eq_none_iff.mpr hunmuted] at h
      have hreason := (Prod.ext_iff.mp (Option.some.inj h)).2
      cases hheld : held c t now s rule direction <;> cases hheld' : held c t now s' rule direction <;>
        simp [hheld, hheld'] at hreason ⊢
  · rintro ⟨hguards, hcooldowns⟩
    cases hhears : hears c t now s rule with
    | false =>
      cases hhears' : hears c t now s' rule with
      | false => rw [decision_of_not_hears hhears, decision_of_not_hears hhears']
      | true =>
        rw [hears_of_guard (hguards (.inr hhears')), hhears'] at hhears
        cases hhears
    | true =>
      have hsame := hguards (.inl hhears)
      have hhears' : hears c t now s' rule = true := hears_of_guard hsame ▸ hhears
      cases hguard : guard t now s with
      | enters => rw [decision_enters hhears hguard, decision_enters hhears' (hsame ▸ hguard)]
      | holds =>
        obtain ⟨direction, hdirection⟩ := direction_of_hears hhears (by simp [hguard])
        rw [decision_holds hhears hguard hdirection, decision_holds hhears' (hsame ▸ hguard) hdirection]
      | lets =>
        obtain ⟨direction, hdirection⟩ := direction_of_hears hhears (by simp [hguard])
        rw [decision_lets hhears hguard hdirection, decision_lets hhears' (hsame ▸ hguard) hdirection]
        cases hquieted : quieted n (monitorOf c t) rule now with
        | some reason => rfl
        | none =>
          rw [hcooldowns hhears hguard (hsame ▸ hguard) (quieted_eq_none_iff.mp hquieted) direction hdirection]

/-! ## The marks a program leaves -/

/-- Since the log was `k` calls long it has these marks. -/
def Marks (id : TransitionId) (k : ℕ) (ms : List Mark) (calls : List ((c : Call) × Reply c)) : Prop :=
  k ≤ calls.length ∧ (calls.drop k).filterMap (markOf id) = ms

section Log
variable {id : TransitionId} {ms : List Mark}

theorem Marks.append {calls : List ((c : Call) × Reply c)} (h : Marks id k ms calls) {call : (c : Call) × Reply c}
    {more : List Mark} (hcall : (markOf id call).toList = more) : Marks id k (ms ++ more) (calls ++ [call]) := by
  refine ⟨h.1.trans (by simp), ?_⟩
  rw [List.drop_append_of_le_length h.1, List.filterMap_append, h.2, ← hcall]
  cases hmark : markOf id call <;> simp [hmark]

theorem Marks.append_none {calls : List ((c : Call) × Reply c)} (h : Marks id k ms calls) {call : (c : Call) × Reply c}
    (hcall : markOf id call = none) : Marks id k ms (calls ++ [call]) := by
  have happend : Marks id k (ms ++ []) (calls ++ [call]) := h.append (by rw [hcall]; rfl)
  rwa [List.append_nil] at happend

theorem markOf_message {delivery : Delivery} {channelId : String} (h : channelOf delivery.record.id = some channelId)
    (key : String) (reply : Reply (.publish key delivery)) : markOf id ⟨.publish key delivery, reply⟩ = none := by
  unfold markOf
  dsimp only
  split
  · next heq =>
    rw [heq] at h
    cases h
  · rfl

/-- What a delivery reports leaves no mark. -/
theorem logProperty_marks : LogProperty (fun _ _ => False) (Marks id k ms) where
  deliver := fun _ _ _ _ _ h _ => h.elim
  publish := fun _ key job delivery reply hmade hrecord h =>
    h.append_none (markOf_message (by rw [hrecord, hmade.reported]; exact hmade.channel) key reply)

/-- An attempt leaves the mark of its message, however it ends. -/
theorem wp_attempt_marks {msg : MsgId} {ruleId : String} (hopen : Open job) (hid : job.deliveryId = .sent msg ruleId job.channelId direction)
    (hmsg : msg = .transition id) (hthere : (c.channel job.channelId).isSome = true) (hw : WaitingLog (Marks id k ms) w) :
    (attempt c job now).wp write ok
      (fun _ w' => WaitingLog (Marks id k (ms ++ [.sent ruleId job.channelId direction])) w') w := by
  unfold attempt
  cases hchannel : c.channel job.channelId with
  | none =>
    rw [hchannel] at hthere
    cases hthere
  | some channel =>
    refine wp_sent fun outcome => ?_
    have hmark : markOf id ⟨.deliver channel job.deliveryId job.payload job.subject job.text, outcome⟩ =
        some (.sent ruleId job.channelId direction) := by rw [hid, markOf, if_pos hmsg]
    have hsent : WaitingLog (Marks id k (ms ++ [.sent ruleId job.channelId direction]))
        (w.called (.deliver channel job.deliveryId job.payload job.subject job.text) outcome) :=
      ⟨hw.1, hw.2.append (by rw [hmark]; rfl)⟩
    split
    · exact fun _ => preserves_finish_log logProperty_marks (hopen.tried_closed (by decide) now) _ hsent
    · split
      · next hmore => exact fun _ => ⟨hsent.1.putRetry (hopen.requeued hmore.2 _ _), hsent.2⟩
      · exact fun _ => preserves_finish_log logProperty_marks ((hopen.withError outcome.error).tried_closed (by decide) now) _ hsent

theorem wp_dispatchTo_marks {channelId : String} (hmsg : msg.id = .transition id) (hthere : (c.channel channelId).isSome = true)
    (hw : WaitingLog (Marks id k ms) w) : (dispatchTo n c rule monitor msg direction now channelId).wp write ok
      (fun _ w' => WaitingLog (Marks id k (ms ++ [.sent rule.id channelId direction])) w') w := by
  have hsafe : (recover direction monitor.id channelId now).Safe fun _ _ => True := safe_recover _ _
  have hrecover : (recover direction monitor.id channelId now).Preserves write ok (WaitingLog (Marks id k ms)) := by
    unfold recover
    split
    · refine compositional_preserves.bind (preserves_abandon_log logProperty_marks _ _) fun _ => ?_
      refine compositional_preserves.bind compositional_preserves.get fun s => ?_
      exact compositional_preserves.bind (compositional_preserves.when fun _ => preserves_put_log fun _ hs => hs) fun _ =>
        compositional_preserves.pure _
    · exact compositional_preserves.pure none
  refine wp_bind (wp_mono (fun a w' hw' => ?_) (wp_safe hsafe (hrecover w hw)))
  cases a with
  | none => exact absurd rfl hw'.1
  | some missed => exact fun _ => wp_attempt_marks (open_newJob channelId missed _) rfl hmsg hthere ⟨hw'.2.1, hw'.2.2⟩

/-- A loop whose body leaves marks for each element. -/
theorem wp_forEach_marks {β : Type} {f : β → Program Unit} {g : β → List Mark} {I : List β → NotifierWorld → Prop} (bs : List β)
    (each : ∀ b left ms w, I (b :: left) w → WaitingLog (Marks id k ms) w → (f b).wp write ok
      (fun a w' => a ≠ none → I left w' ∧ WaitingLog (Marks id k (ms ++ g b)) w') w)
    (hI : I bs w) (hw : WaitingLog (Marks id k ms) w) : (Prog.forEach bs f : Program Unit).wp write ok
      (fun a w' => a ≠ none → I [] w' ∧ WaitingLog (Marks id k (ms ++ bs.flatMap g)) w') w := by
  induction bs generalizing w ms with
  | nil => exact fun _ => ⟨hI, by simpa using hw⟩
  | cons b bs ih =>
    refine wp_bind (wp_mono (fun a w' h => ?_) (each b bs ms w hI hw))
    cases a with
    | none => exact fun hne => absurd rfl hne
    | some _ =>
      obtain ⟨hI', hw'⟩ := h (Option.some_ne_none _)
      refine wp_mono (fun a w'' h' hne => ?_) (ih hI' hw')
      rw [List.flatMap_cons, ← List.append_assoc]
      exact h' hne

/-- A write to neither the stamps nor the timers. -/
def Quiet : Write → Prop
  | .putCool _ _ | .deleteCool _ | .putRenotify _ _ | .deleteRenotify _ => False
  | _ => True

theorem quiet_delivery {m : Option String} {x : Write} (hx : OfDelivery m direction x) : Quiet x := by
  cases x <;> trivial

theorem sending_quiet (c : Config) (now : ℚ) :
    Sending Quiet (fun _ _ => True) c now fun _ (p : Program _) => p.Only Quiet where
  toCompositional := compositional_only
  plain := fun _ hx => only_put hx
  attempt := fun job _ _ _ _ => (only_attempt c job now).mono fun _ hx => quiet_delivery hx
  abandon := fun m ch => by
    have honly : (abandonDownRetries m ch now).Only (OfDelivery none .down) := only_abandonDownRetries m ch
    exact honly.mono fun _ hx => quiet_delivery hx

/-- The channels' messages leave their marks, and no timer is touched. -/
theorem wp_channels_marks (hmsg : msg.id = .transition id) (hw : WaitingLog (Marks id k ms) w) :
    (Prog.forEach (rule.notify.channelIds.filter fun id => (c.channel id).isSome)
      (dispatchTo n c rule monitor msg direction now) : Program Unit).wp write ok
      (fun a w' => a ≠ none → w'.store.renotify = w.store.renotify ∧
        WaitingLog (Marks id k (ms ++ messageMarks c rule direction none)) w') w := by
  have hmarks : (Prog.forEach (rule.notify.channelIds.filter fun id => (c.channel id).isSome)
      (dispatchTo n c rule monitor msg direction now) : Program Unit).wp write ok
      (fun a w' => a ≠ none → (∀ channelId ∈ ([] : List String), (c.channel channelId).isSome = true) ∧
        WaitingLog (Marks id k (ms ++ messageMarks c rule direction none)) w') w := by
    unfold messageMarks
    rw [List.map_eq_flatMap]
    refine wp_forEach_marks (I := fun left _ => ∀ channelId ∈ left, (c.channel channelId).isSome = true) _
      (fun channelId left ms w hleft hw => ?_) (fun channelId hmem => by simpa using (List.mem_filter.mp hmem).2) hw
    exact wp_mono (fun a w' hw' _ => ⟨fun ch hch => hleft ch (List.mem_cons_of_mem _ hch), hw'⟩)
      (wp_dispatchTo_marks hmsg (hleft channelId (List.mem_cons_self ..)) hw)
  have hquiet : (Prog.forEach (rule.notify.channelIds.filter fun id => (c.channel id).isSome)
      (dispatchTo n c rule monitor msg direction now) : Program Unit).Only Quiet := only_forEach _ fun channelId _ =>
    (sending_quiet c now).dispatchTo trivial (fun _ _ => trivial) (fun _ => trivial) channelId
  refine wp_mono (fun a w' h hne => ⟨h.2, (h.1 hne).2⟩) (wp_and hmarks (hquiet.keeps (I := fun s => s.renotify = w.store.renotify)
    (fun s x hx hs => ?_) w rfl))
  cases x <;> first | exact hs | exact hx.elim

/-- The timers after a rule's message, unless it is a recovery. -/
def armedAfter (s : Store) (rule : Rule) (monitorId : String) (direction : Direction) (reason : Option String)
    (key : String × String) : Bool :=
  armed s key ∨ key = (rule.id, monitorId) ∧ direction = .down ∧ reason = none ∧ 0 < rule.notify.renotifyMinutes

theorem armed_putRenotify (s : Store) (key key' : String × String) (stamp : Stamp) :
    armed (write s (.putRenotify key stamp)) key' = decide (armed s key' = true ∨ key' = key) := by
  by_cases hkey : key' = key
  · subst hkey
    simp [armed, write]
  · simp [armed, write, AList.lookup_insert_ne hkey, hkey]

/-- A message that nothing suppresses. -/
theorem wp_sends_marks (hmsg : msg.id = .transition id) (hw : WaitingLog (Marks id k ms) w) :
    (sends n c rule monitor msg direction now).wp write ok (fun a w' => a ≠ none →
      (direction ≠ .recovered → ∀ key, armed w'.store key = armedAfter w.store rule monitor.id direction none key) ∧
        WaitingLog (Marks id k (ms ++ messageMarks c rule direction none)) w') w := by
  refine wp_bind (wp_mono (fun a w1 h1 => ?_) (wp_channels_marks hmsg hw))
  cases a with
  | none => exact fun hne => absurd rfl hne
  | some _ =>
    obtain ⟨hrenotify, hlog⟩ := h1 (Option.some_ne_none _)
    have hsame : ∀ key, armed w1.store key = armed w.store key := fun key => by rw [armed, armed, hrenotify]
    -- The stamp leaves the timers, and the last two writes are to the rule's own.
    have htimers : ∀ w2 : NotifierWorld, (∀ key, armed w2.store key = armed w.store key) →
        WaitingLog (Marks id k (ms ++ messageMarks c rule direction none)) w2 →
        (Prog.when_ (direction = .down ∧ 0 < rule.notify.renotifyMinutes)
            (.put (.putRenotify (rule.id, monitor.id) ⟨now, msg.id⟩)) >>= fun _ =>
          Prog.when_ (direction = .recovered) (.put (.deleteRenotify (rule.id, monitor.id))) : Program Unit).wp write ok
          (fun a w' => a ≠ none → (direction ≠ .recovered →
            ∀ key, armed w'.store key = armedAfter w.store rule monitor.id direction none key) ∧
              WaitingLog (Marks id k (ms ++ messageMarks c rule direction none)) w') w2 := by
      intro w2 h2 hlog2
      refine wp_bind (wp_when (fun harms _ => ?_) fun harms => ?_)
      · obtain ⟨hdown, hminutes⟩ := of_decide_eq_true harms
        refine wp_when (fun hrecovered => absurd (of_decide_eq_true hrecovered) (by simp [hdown])) fun _ _ => ⟨fun _ key => ?_, hlog2⟩
        have hput : armed (w2.put write (.putRenotify (rule.id, monitor.id) ⟨now, msg.id⟩)).store key = _ :=
          armed_putRenotify w2.store (rule.id, monitor.id) key ⟨now, msg.id⟩
        rw [hput, h2, armedAfter]
        simp [hdown, hminutes]
      · have hnot := of_decide_eq_false harms
        refine wp_when (fun hrecovered _ _ => ⟨fun hne => absurd (of_decide_eq_true hrecovered) hne, hlog2⟩)
          fun _ _ => ⟨fun _ key => ?_, hlog2⟩
        rw [h2, Bool.eq_iff_iff, armedAfter, decide_eq_true_iff]
        exact ⟨.inl, fun h => h.resolve_right fun harmed => hnot ⟨harmed.2.1, harmed.2.2.2⟩⟩
    exact wp_bind (wp_when (fun _ _ => htimers _ hsame hlog) fun _ => htimers w1 hsame hlog)

/-- A dispatch, and why it is suppressed, if it is. -/
def suppression (n : Notifier) (rule : Rule) (monitor : Monitor) (direction : Direction) (now : ℚ) (bypassCooldown : Bool)
    (s : Store) : Option String :=
  (quieted n monitor rule now).or
    (if cooling rule monitor direction now bypassCooldown s then some "suppressed: cooldown" else none)

theorem wp_record_marks {message : String} (hmsg : msg.id = .transition id)
    (hmessage : String.ofList (message.toList.take 1000) = message) (hw : WaitingLog (Marks id k ms) w) :
    (record rule monitor msg direction now message).wp write ok
      (fun a w' => a ≠ none → w'.store = w.store ∧ WaitingLog (Marks id k (ms ++ [.noted rule.id direction message])) w') w := by
  intro reply
  cases hreply : (reply : Bool) with
  | false => exact fun hne => absurd rfl hne
  | true =>
    refine fun _ => ⟨rfl, hw.1, hw.2.append ?_⟩
    simp [markOf, recordData, hmsg, hmessage]

theorem wp_dispatch_marks (hmsg : msg.id = .transition id) (bypassCooldown : Bool) (hw : WaitingLog (Marks id k ms) w) :
    (dispatch n c rule monitor msg direction now bypassCooldown).wp write ok (fun a w' => a ≠ none →
      (direction ≠ .recovered → ∀ key, armed w'.store key = armedAfter w.store rule monitor.id direction
        (suppression n rule monitor direction now bypassCooldown w.store) key) ∧
      WaitingLog (Marks id k (ms ++ messageMarks c rule direction
        (suppression n rule monitor direction now bypassCooldown w.store))) w') w := by
  rw [dispatch_eq, wp_get_bind]
  have hsuppressed : ∀ message, String.ofList (message.toList.take 1000) = message →
      suppression n rule monitor direction now bypassCooldown w.store = some message →
      (record rule monitor msg direction now message).wp write ok (fun a w' => a ≠ none →
        (direction ≠ .recovered → ∀ key, armed w'.store key = armedAfter w.store rule monitor.id direction
          (suppression n rule monitor direction now bypassCooldown w.store) key) ∧
        WaitingLog (Marks id k (ms ++ messageMarks c rule direction
          (suppression n rule monitor direction now bypassCooldown w.store))) w') w := by
    intro message hmessage hreason
    refine wp_mono (fun a w' h hne => ?_) (wp_record_marks hmsg hmessage hw)
    obtain ⟨hstore, hlog⟩ := h hne
    rw [hreason, hstore]
    exact ⟨fun _ key => by simp [armedAfter], hlog⟩
  split
  · next hmuted => exact hsuppressed _ (by decide) (by simp [suppression, quieted, hmuted])
  · next hmuted =>
    split
    · next hwindow => exact hsuppressed _ (by decide) (by simp [suppression, quieted, hmuted, hwindow])
    · next hwindow =>
      split
      · next hcooling => exact hsuppressed _ (by decide) (by simp [suppression, quieted, hmuted, hwindow, hcooling])
      · next hcooling =>
        have hnone : suppression n rule monitor direction now bypassCooldown w.store = none := by
          simp [suppression, quieted, hmuted, hwindow, hcooling]
        rw [hnone]
        exact wp_sends_marks hmsg hw

/-- The message to the rule arms this timer. -/
def Arms (n : Notifier) (rule : Rule) (monitor : Monitor) (direction : Direction) (now : ℚ) (bypassCooldown : Bool) (s : Store)
    (key : String × String) : Prop :=
  key = (rule.id, monitor.id) ∧ direction = .down ∧ suppression n rule monitor direction now bypassCooldown s = none ∧
    0 < rule.notify.renotifyMinutes

theorem suppression_congr {bypassCooldown : Bool}
    (h : s'.cool (rule.id, monitor.id, direction) = s.cool (rule.id, monitor.id, direction)) :
    suppression n rule monitor direction now bypassCooldown s' = suppression n rule monitor direction now bypassCooldown s := by
  have hcooling : cooling rule monitor direction now bypassCooldown s' ↔ cooling rule monitor direction now bypassCooldown s := by
    rw [cooling, cooling, h]
  simp only [suppression, hcooling]

/-- A dispatch leaves the other rules' stamps. -/
theorem cool_other {other : Rule} {m : String} {x : Write} (hx : OfDispatch rule.id m direction now x) (hne : other.id ≠ rule.id)
    (s : Store) : (write s x).cool (other.id, m, direction) = s.cool (other.id, m, direction) := by
  cases x with
  | putCool key at_ =>
    obtain ⟨rfl, -⟩ := hx
    exact Function.update_of_ne (fun h => hne (congrArg Prod.fst h)) ..
  | deleteCool key => exact hx.elim
  | _ => rfl

/-- Between two rules: the stamps of those that are left are as before, and those that are done
have armed their timers. -/
def Between (n : Notifier) (monitor : Monitor) (direction : Direction) (now : ℚ) (bypassCooldown : Bool) (rules : List Rule)
    (w : NotifierWorld) (left : List Rule) (w' : NotifierWorld) : Prop :=
  ∃ done, rules = done ++ left ∧
    (∀ rule ∈ left, w'.store.cool (rule.id, monitor.id, direction) = w.store.cool (rule.id, monitor.id, direction)) ∧
    (direction ≠ .recovered → ∀ key, armed w'.store key = true ↔
      armed w.store key = true ∨ ∃ rule ∈ done, Arms n rule monitor direction now bypassCooldown w.store key)

theorem wp_dispatch_between {rules left : List Rule} {w' : NotifierWorld} (hmsg : msg.id = .transition id)
    (hdistinct : (rules.map (·.id)).Nodup) (bypassCooldown : Bool)
    (h : Between n monitor direction now bypassCooldown rules w (rule :: left) w') (hlog : WaitingLog (Marks id k ms) w') :
    (dispatch n c rule monitor msg direction now bypassCooldown).wp write ok (fun a w'' => a ≠ none →
      Between n monitor direction now bypassCooldown rules w left w'' ∧
        WaitingLog (Marks id k (ms ++ messageMarks c rule direction
          (suppression n rule monitor direction now bypassCooldown w.store))) w'') w' := by
  obtain ⟨done, hrules, hcool, harmed⟩ := h
  have hsame : suppression n rule monitor direction now bypassCooldown w'.store =
      suppression n rule monitor direction now bypassCooldown w.store := suppression_congr (hcool rule (List.mem_cons_self ..))
  have hkept : (dispatch n c rule monitor msg direction now bypassCooldown).wp write ok (fun _ w'' => ∀ other ∈ left,
      w''.store.cool (other.id, monitor.id, direction) = w.store.cool (other.id, monitor.id, direction)) w' := by
    have hkeep : (dispatch n c rule monitor msg direction now bypassCooldown).Keeps write ok fun s => ∀ other ∈ left,
        s.cool (other.id, monitor.id, direction) = w.store.cool (other.id, monitor.id, direction) := by
      refine (only_dispatch bypassCooldown).keeps fun s x hx hs other hother => ?_
      rw [hrules, List.map_append, List.map_cons] at hdistinct
      have hne : other.id ≠ rule.id := fun heq => by
        have hcons := (List.nodup_append.mp hdistinct).2.1
        exact (List.nodup_cons.mp hcons).1 (heq ▸ List.mem_map_of_mem hother)
      exact (cool_other hx hne s).trans (hs other hother)
    exact hkeep w' fun other hother => hcool other (List.mem_cons_of_mem _ hother)
  refine wp_mono (fun a w'' h hne => ?_) (wp_and hkept (wp_dispatch_marks hmsg bypassCooldown hlog))
  obtain ⟨htimers, hmarks⟩ := h.2 hne
  rw [hsame] at htimers hmarks
  refine ⟨⟨done ++ [rule], by rw [hrules, List.append_assoc, List.singleton_append], h.1, fun hrecovered key => ?_⟩, hmarks⟩
  rw [htimers hrecovered key, armedAfter, decide_eq_true_iff, harmed hrecovered key, or_assoc]
  simp only [List.mem_append, List.mem_singleton, or_and_right, exists_or, exists_eq_left]
  rfl

/-- Each rule is decided on by its own stamp, as the loop finds it. -/
theorem wp_dispatches_marks (hmsg : msg.id = .transition id) (rules : List Rule) (hdistinct : (rules.map (·.id)).Nodup)
    (bypassCooldown : Bool) (hw : WaitingLog (Marks id k ms) w) :
    (Prog.forEach rules fun rule => dispatch n c rule monitor msg direction now bypassCooldown : Program Unit).wp write ok
      (fun a w' => a ≠ none → (direction ≠ .recovered → ∀ key, armed w'.store key = true ↔
          armed w.store key = true ∨ ∃ rule ∈ rules, Arms n rule monitor direction now bypassCooldown w.store key) ∧
        WaitingLog (Marks id k (ms ++ rules.flatMap fun rule => messageMarks c rule direction
          (suppression n rule monitor direction now bypassCooldown w.store))) w') w := by
  refine wp_mono (fun a w' h hne => ?_) (wp_forEach_marks (I := Between n monitor direction now bypassCooldown rules w) rules
    (fun rule left ms w' hI hlog => wp_dispatch_between hmsg hdistinct bypassCooldown hI hlog)
    ⟨[], rfl, fun _ _ => rfl, fun _ _ => by simp⟩ hw)
  obtain ⟨⟨done, hdone, -, harmed⟩, hlog⟩ := h hne
  rw [List.append_nil] at hdone
  exact ⟨hdone ▸ harmed, hlog⟩

/-- The rules that a loop skips have no marks. -/
theorem flatMap_filter_eq {rules : List Rule} {p : Rule → Bool} {f g : Rule → List Mark}
    (hin : ∀ rule ∈ rules, p rule = true → f rule = g rule) (hout : ∀ rule ∈ rules, p rule = false → g rule = []) :
    (rules.filter p).flatMap f = rules.flatMap g := by
  induction rules with
  | nil => rfl
  | cons rule rest ih =>
    have hrest := ih (fun other hother => hin other (List.mem_cons_of_mem _ hother))
      (fun other hother => hout other (List.mem_cons_of_mem _ hother))
    cases hp : p rule with
    | true =>
      rw [List.filter_cons_of_pos hp, List.flatMap_cons, List.flatMap_cons, hrest, hin rule (List.mem_cons_self ..) hp]
    | false =>
      rw [List.filter_cons_of_neg (by simp [hp]), List.flatMap_cons, hrest, hout rule (List.mem_cons_self ..) hp, List.nil_append]

theorem nodup_filter {rules : List Rule} (hdistinct : (rules.map (·.id)).Nodup) (p : Rule → Bool) :
    ((rules.filter p).map (·.id)).Nodup := hdistinct.sublist (List.filter_sublist.map _)

/-- What the guard reports while it holds. -/
theorem wp_recordFlapping_marks (n : Notifier) (hw : WaitingLog (Marks t.id k ms) w) (hguard : guard t now s = .holds) :
    (recordFlapping c t (monitorOf c t) now).wp write ok (fun a w' => a ≠ none → w'.store = w.store ∧
      WaitingLog (Marks t.id k (ms ++ (c.uptimeRules t.orgId).flatMap fun rule => marks c rule (decision n c t now s rule))) w') w := by
  unfold recordFlapping
  cases hdirection : directionOf t.from_ t.to_ with
  | none =>
    refine fun _ => ⟨rfl, ?_⟩
    have hnone : (c.uptimeRules t.orgId).flatMap (fun rule => marks c rule (decision n c t now s rule)) = [] := by
      refine List.flatMap_eq_nil_iff.mpr fun rule _ => ?_
      rw [decision_of_not_hears (by rw [hears, hguard, hdirection]; rfl)]
      rfl
    rwa [hnone, List.append_nil]
  | some direction =>
    have hhears : ∀ rule, hears c t now s rule = ruleMatches rule (monitorOf c t) direction := fun rule => by
      rw [hears, hguard, hdirection]
      rfl
    rw [← flatMap_filter_eq (p := fun rule => ruleMatches rule (monitorOf c t) direction)
      (f := fun rule => [.noted rule.id direction "suppressed: monitor is flapping"])]
    · refine wp_forEach_marks (I := fun _ w' => w'.store = w.store) _ (fun rule left ms w' hI hlog => ?_) rfl hw
      exact wp_mono (fun a w'' h hne => ⟨(h hne).1.trans hI, (h hne).2⟩) (wp_record_marks rfl (by decide) hlog)
    · intro rule _ hmatches
      rw [decision_holds (hhears rule ▸ hmatches) hguard hdirection]
      rfl
    · intro rule _ hmatches
      rw [decision_of_not_hears ((hhears rule).trans hmatches)]
      rfl

/-- The end of flapping is reported under an id of its own, and touches no timer. -/
theorem wp_exitFlapping_marks {orgId : String} {status : Status} (hw : WaitingLog (Marks id k ms) w) :
    (exitFlapping n c monitor orgId now status false).wp write ok
      (fun _ w' => w'.store.renotify = w.store.renotify ∧ WaitingLog (Marks id k ms) w') w := by
  have hput : ∀ key, (Prog.put (.deleteCool key) : Program Unit).Preserves write ok fun w' =>
      w'.store.renotify = w.store.renotify ∧ WaitingLog (Marks id k ms) w' := fun key w' hw' _ => ⟨hw'.1, hw'.2.1, hw'.2.2⟩
  refine compositional_preserves.bind (compositional_preserves.forEach _ fun rule _ =>
    compositional_preserves.bind (hput _) fun _ => hput _) (fun _ => ?_) w ⟨rfl, hw⟩
  refine compositional_preserves.bind (fun w' hw' reply => ?_) fun _ =>
    compositional_preserves.when fun hc => absurd (of_decide_eq_true hc).1 (by simp)
  cases hreply : (reply : Bool) <;> exact ⟨hw'.1, hw'.2.1, hw'.2.2.append_none rfl⟩

/-- What the guard leaves when it suppresses the transition, and when it lets it through. -/
structure Guarded (n : Notifier) (c : Config) (t : TransitionMsg) (now : ℚ) (s : Store) (k : ℕ) (ms : List Mark)
    (suppressed : Bool) (w : NotifierWorld) : Prop where
  timers : ∀ key, armed w.store key = armed s key
  held : suppressed = true → guard t now s ≠ .lets ∧
    WaitingLog (Marks t.id k (ms ++ (c.uptimeRules t.orgId).flatMap fun rule => marks c rule (decision n c t now s rule))) w
  passed : suppressed = false → guard t now s = .lets ∧ WaitingLog (Marks t.id k ms) w ∧
    ∀ rule ∈ c.uptimeRules t.orgId, ∀ direction,
      cooling rule (monitorOf c t) direction now false w.store ↔ RepeatedHandlings.held c t now s rule direction = true

/-- The seventh edge: every rule that hears of downs is sent the flapping message. -/
theorem wp_enters_marks (hw : WaitingLog (Marks t.id k ms) w) (hdistinct : ((c.uptimeRules t.orgId).map (·.id)).Nodup)
    (hguard : guard t now s = .enters) :
    (Prog.forEach ((c.uptimeRules t.orgId).filter fun rule => ruleMatches rule (monitorOf c t) .down) fun rule =>
      dispatch n c rule (monitorOf c t) (msgOf t) .flapping now true : Program Unit).wp write ok
      (fun a w' => a ≠ none → (∀ key, armed w'.store key = armed w.store key) ∧
        WaitingLog (Marks t.id k (ms ++ (c.uptimeRules t.orgId).flatMap fun rule => marks c rule (decision n c t now s rule))) w') w := by
  have hhears : ∀ rule, hears c t now s rule = ruleMatches rule (monitorOf c t) .down := fun rule => by rw [hears, hguard]
  have hsuppression : ∀ rule, suppression n rule (monitorOf c t) .flapping now true w.store = quieted n (monitorOf c t) rule now :=
    fun rule => by simp [suppression, cooling]
  refine wp_mono (fun a w' h hne => ?_) (wp_dispatches_marks rfl _ (nodup_filter hdistinct _) true hw)
  obtain ⟨htimers, hlog⟩ := h hne
  refine ⟨fun key => ?_, ?_⟩
  · rw [Bool.eq_iff_iff, htimers (by decide) key]
    exact ⟨fun harmed => harmed.resolve_right fun ⟨rule, _, harms⟩ => absurd harms.2.1 (by decide), .inl⟩
  · rw [flatMap_filter_eq (g := fun rule => marks c rule (decision n c t now s rule))] at hlog
    · exact hlog
    · intro rule _ hmatches
      rw [hsuppression, decision_enters (hhears rule ▸ hmatches) hguard]
      rfl
    · intro rule _ hmatches
      rw [decision_of_not_hears ((hhears rule).trans hmatches)]
      rfl

theorem wp_flapping_marks (hw : WaitingLog (Marks t.id k ms) w) (hdistinct : ((c.uptimeRules t.orgId).map (·.id)).Nodup)
    (hflap : w.store.flap = s.flap) (hcool : w.store.cool = s.cool) (htimers : ∀ key, armed w.store key = armed s key) :
    (flapping n c t (monitorOf c t) now).wp write ok
      (fun a w' => ∀ suppressed, a = some suppressed → Guarded n c t now s k ms suppressed w') w := by
  have hid := monitorOf_id c t
  have hwindow : (w.store.flap (monitorOf c t).id).getD {} = window s t.monitorId := by rw [hflap, hid, window]
  have hput : ∀ flap, WaitingLog (Marks t.id k ms) (w.put write (.putFlap (monitorOf c t).id flap)) :=
    fun flap => ⟨hw.1.plain trivial, hw.2⟩
  unfold flapping
  rw [wp_get_bind, hwindow]
  dsimp only
  split
  · next henters =>
    have hguard : guard t now s = .enters := by rw [guard, if_pos henters]
    rw [wp_put_bind]
    intro _
    refine wp_bind (wp_mono (fun a w' h => ?_) (wp_enters_marks (hput _) hdistinct hguard))
    cases a with
    | none => exact fun _ hnone => by cases hnone
    | some _ =>
      obtain ⟨harmed, hlog⟩ := h (Option.some_ne_none _)
      intro suppressed hsuppressed
      obtain rfl := Option.some.inj hsuppressed
      exact ⟨fun key => (harmed key).trans (htimers key), fun _ => ⟨by simp [hguard], hlog⟩, fun hfalse => by cases hfalse⟩
  · next henters =>
    split
    · next hleaves =>
      have hguard : guard t now s = .lets := by
        rw [guard, if_neg henters, if_neg fun h => absurd h.2 (Nat.not_lt.mpr hleaves.2)]
      rw [wp_put_bind]
      intro _
      refine wp_bind (wp_mono (fun a w' h => ?_) (wp_and (CooldownStamps.wp_exitFlapping_cleared _) (wp_exitFlapping_marks (hput _))))
      cases a with
      | none => exact fun _ hnone => by cases hnone
      | some _ =>
        obtain ⟨hcleared, hrenotify, hlog⟩ := h
        intro suppressed hsuppressed
        obtain rfl := Option.some.inj hsuppressed
        refine ⟨fun key => ?_, fun htrue => (by cases htrue), fun _ => ⟨hguard, hlog, fun rule hrule direction => ?_⟩⟩
        · rw [armed, hrenotify]
          exact htimers key
        · -- No stamp is left, and the guard was on.
          have hnot : held c t now s rule direction = false := by simp [held, hleaves.1]
          rw [hnot]
          refine ⟨fun hcooling => ?_, fun h => by cases h⟩
          obtain ⟨at_, hat, -⟩ := CooldownStamps.stamp_of_cooling hcooling
          obtain ⟨hdown, hnodata⟩ := hcleared rule hrule
          rcases hcooling.1 with rfl | rfl
          · exact absurd (hdown.symm.trans hat) (by simp)
          · exact absurd (hnodata.symm.trans hat) (by simp)
    · next hleaves =>
      rw [wp_put_bind]
      intro _
      cases hon : (window s t.monitorId).on with
      | false =>
        have hguard : guard t now s = .lets := by rw [guard, if_neg henters, if_neg (by simp [hon])]
        intro suppressed hsuppressed
        obtain rfl := Option.some.inj hsuppressed
        refine ⟨htimers, fun htrue => (by cases htrue), fun _ => ⟨hguard, hput _, fun rule _ direction => ?_⟩⟩
        have hsame : cooling rule (monitorOf c t) direction now false w.store ↔ cooling rule (monitorOf c t) direction now false s := by
          rw [cooling, cooling, hcool]
        rw [held, decide_eq_true_iff]
        exact ⟨fun h => ⟨by simp [hon], hsame.mp h⟩, fun h => hsame.mpr h.2⟩
      | true =>
        have hguard : guard t now s = .holds := by
          rw [guard, if_neg henters, if_pos ⟨hon, Nat.lt_of_not_le fun h => hleaves ⟨hon, h⟩⟩]
        refine wp_bind (wp_mono (fun a w' h => ?_) (wp_recordFlapping_marks n (hput _) hguard))
        cases a with
        | none => exact fun _ hnone => by cases hnone
        | some _ =>
          obtain ⟨hstore, hlog⟩ := h (Option.some_ne_none _)
          intro suppressed hsuppressed
          obtain rfl := Option.some.inj hsuppressed
          refine ⟨fun key => ?_, fun _ => ⟨by simp [hguard], hlog⟩, fun hfalse => by cases hfalse⟩
          rw [hstore]
          exact htimers key

/-- Once the guard lets the transition through, each rule's suppression is what is decided of it. -/
theorem suppression_eq (hcooling : cooling rule (monitorOf c t) direction now false w.store ↔ held c t now s rule direction = true) :
    suppression n rule (monitorOf c t) direction now false w.store = (quieted n (monitorOf c t) rule now).or
      (if held c t now s rule direction then some "suppressed: cooldown" else none) := by
  simp only [suppression, hcooling]

theorem suppression_eq_none_iff (hcooling : cooling rule (monitorOf c t) direction now false w.store ↔
      held c t now s rule direction = true) :
    suppression n rule (monitorOf c t) direction now false w.store = none ↔
      unmuted n c t now rule = true ∧ ¬held c t now s rule direction = true := by
  rw [suppression_eq hcooling, Option.or_eq_none_iff, quieted_eq_none_iff]
  cases held c t now s rule direction <;> simp

/-- A handling that is let through. -/
theorem wp_lets_marks (hdistinct : ((c.uptimeRules t.orgId).map (·.id)).Nodup) (hguard : guard t now s = .lets)
    (htimers : ∀ key, armed w.store key = armed s key) (hw : WaitingLog (Marks t.id k ms) w)
    (hcooling : ∀ rule ∈ c.uptimeRules t.orgId, ∀ direction,
      cooling rule (monitorOf c t) direction now false w.store ↔ held c t now s rule direction = true)
    (hdirection : directionOf t.from_ t.to_ = some direction) :
    (Prog.forEach ((c.uptimeRules t.orgId).filter fun rule => ruleMatches rule (monitorOf c t) direction) fun rule =>
      dispatch n c rule (monitorOf c t) (msgOf t) direction now false : Program Unit).wp write ok (fun a w' => a ≠ none →
        (direction ≠ .recovered → ∀ rule ∈ c.uptimeRules t.orgId,
          armed w'.store (rule.id, t.monitorId) = arms n c t now s rule) ∧
        WaitingLog (Marks t.id k (ms ++ (c.uptimeRules t.orgId).flatMap fun rule => marks c rule (decision n c t now s rule))) w') w := by
  have hid := monitorOf_id c t
  have hhears : ∀ rule, hears c t now s rule = ruleMatches rule (monitorOf c t) direction := fun rule => by
    rw [hears, hguard, hdirection]
    rfl
  refine wp_mono (fun a w' h hne => ?_) (wp_dispatches_marks rfl _ (nodup_filter hdistinct _) false hw)
  obtain ⟨harmed, hlog⟩ := h hne
  constructor
  · intro hrecovered rule hrule
    rw [Bool.eq_iff_iff, harmed hrecovered, htimers, arms, decide_eq_true_iff]
    refine or_congr_right ⟨?_, ?_⟩
    · rintro ⟨other, hother, hkey, rfl, hnone, hminutes⟩
      obtain ⟨hmem, hmatches⟩ := List.mem_filter.mp hother
      obtain rfl : other = rule := List.inj_on_of_nodup_map hdistinct hmem hrule (congrArg Prod.fst hkey).symm
      obtain ⟨hunmuted, hheld⟩ := (suppression_eq_none_iff (hcooling other hmem .down)).mp hnone
      exact ⟨decide_eq_true ⟨hguard, hdirection, hmatches, hunmuted, hheld⟩, hminutes⟩
    · rintro ⟨hsends, hminutes⟩
      obtain ⟨-, hdown, hmatches, hunmuted, hheld⟩ := of_decide_eq_true hsends
      obtain rfl : direction = .down := Option.some.inj (hdirection.symm.trans hdown)
      exact ⟨rule, List.mem_filter.mpr ⟨hrule, hmatches⟩, by rw [hid], rfl,
        (suppression_eq_none_iff (hcooling rule hrule .down)).mpr ⟨hunmuted, hheld⟩, hminutes⟩
  · rw [flatMap_filter_eq (g := fun rule => marks c rule (decision n c t now s rule))] at hlog
    · exact hlog
    · intro rule hrule hmatches
      rw [decision_lets (hhears rule ▸ hmatches) hguard hdirection, suppression_eq (hcooling rule hrule direction)]
      rfl
    · intro rule _ hmatches
      rw [decision_of_not_hears ((hhears rule).trans hmatches)]
      rfl

theorem guard_congr (hflap : s'.flap = s.flap) : guard t now s' = guard t now s := by
  have hwindow : window s' t.monitorId = window s t.monitorId := by rw [window, window, hflap]
  rw [guard, guard, hwindow]

theorem held_congr (hflap : s'.flap = s.flap) (hcool : s'.cool = s.cool) (rule : Rule) (direction : Direction) :
    held c t now s' rule direction = held c t now s rule direction := by
  have hwindow : window s' t.monitorId = window s t.monitorId := by rw [window, window, hflap]
  rw [held, held, decide_eq_decide, hwindow, cooling, cooling, hcool]

theorem decision_congr (hflap : s'.flap = s.flap) (hcool : s'.cool = s.cool) (rule : Rule) :
    decision n c t now s' rule = decision n c t now s rule := by
  rw [decision_eq_iff]
  exact ⟨fun _ => guard_congr hflap, fun _ _ _ _ direction _ => held_congr hflap hcool rule direction⟩

theorem arms_congr (hflap : s'.flap = s.flap) (hcool : s'.cool = s.cool) (htimers : ∀ key, armed s' key = armed s key)
    (rule : Rule) : arms n c t now s' rule = arms n c t now s rule := by
  have hsends : sendsDown n c t now s' rule = sendsDown n c t now s rule := by
    rw [sendsDown, sendsDown, decide_eq_decide, guard_congr hflap, held_congr hflap hcool]
  rw [arms, arms, decide_eq_decide, hsends, htimers]

theorem arms_of_guard (hguard : guard t now s ≠ .lets) : arms n c t now s rule = armed s (rule.id, t.monitorId) := by
  simp [arms, sendsDown, hguard]

theorem arms_of_direction (hdirection : directionOf t.from_ t.to_ ≠ some .down) :
    arms n c t now s rule = armed s (rule.id, t.monitorId) := by
  simp [arms, sendsDown, hdirection]

/-- After the clearing: the guard, then each rule's message. -/
theorem wp_afterClearing_marks (hdistinct : ((c.uptimeRules t.orgId).map (·.id)).Nodup) (hw : WaitingLog (Marks t.id k ms) w) :
    (afterClearing n c t now).wp write ok (fun a w' => a ≠ none →
      (¬(t.to_ ≠ .down ∧ t.from_ = .down) → ∀ rule ∈ c.uptimeRules t.orgId,
        armed w'.store (rule.id, t.monitorId) = arms n c t now w.store rule) ∧
      WaitingLog (Marks t.id k (ms ++ (c.uptimeRules t.orgId).flatMap fun rule => marks c rule (decision n c t now w.store rule))) w') w := by
  refine wp_bind (wp_mono (fun a w1 h1 => ?_) (wp_flapping_marks hw hdistinct rfl rfl fun _ => rfl))
  cases a with
  | none => exact fun hne => absurd rfl hne
  | some suppressed =>
    have hguarded := h1 suppressed rfl
    cases suppressed with
    | true =>
      obtain ⟨hguard, hlog⟩ := hguarded.held rfl
      exact fun _ => ⟨fun _ rule _ => (hguarded.timers _).trans (arms_of_guard hguard).symm, hlog⟩
    | false =>
      obtain ⟨hguard, hlog, hcooling⟩ := hguarded.passed rfl
      cases hdirection : directionOf t.from_ t.to_ with
      | none =>
        refine fun _ => ⟨fun _ rule _ => (hguarded.timers _).trans (arms_of_direction (by simp [hdirection])).symm, ?_⟩
        have hnone : (c.uptimeRules t.orgId).flatMap (fun rule => marks c rule (decision n c t now w.store rule)) = [] := by
          refine List.flatMap_eq_nil_iff.mpr fun rule _ => ?_
          rw [decision_of_not_hears (by rw [hears, hguard, hdirection]; rfl)]
          rfl
        rwa [hnone, List.append_nil]
      | some direction =>
        refine wp_mono (fun a w' h hne => ⟨fun hstays => (h hne).1 fun hrecovered => ?_, (h hne).2⟩)
          (wp_lets_marks hdistinct hguard hguarded.timers hlog hcooling hdirection)
        -- Only a transition out of down is a recovery.
        obtain ⟨hdown, -⟩ | ⟨-, hfrom, hto⟩ | ⟨hnodata, -⟩ := directionOf_cases hdirection
        · exact absurd (hdown.symm.trans hrecovered) (by decide)
        · exact hstays ⟨by simp [hto], hfrom⟩
        · exact absurd (hnodata.symm.trans hrecovered) (by decide)

/-- A complete handling leaves the marks of what is decided about each rule, and its timers. -/
theorem wp_handle_marks (hdistinct : ((c.uptimeRules t.orgId).map (·.id)).Nodup) (hw : WaitingLog (Marks t.id k ms) w) :
    (NotifierPrograms.handle n c t now).wp write ok (fun a w' => a ≠ none →
      (¬(t.to_ ≠ .down ∧ t.from_ = .down) → ∀ rule ∈ c.uptimeRules t.orgId,
        armed w'.store (rule.id, t.monitorId) = arms n c t now w.store rule) ∧
      WaitingLog (Marks t.id k (ms ++ (c.uptimeRules t.orgId).flatMap fun rule => marks c rule (decision n c t now w.store rule))) w') w := by
  have hkept : (clearRenotify (monitorOf c t).id).Keeps write ok fun s => s.flap = w.store.flap ∧ s.cool = w.store.cool := by
    refine (only_clearRenotify (monitorOf c t).id).keeps fun s x hx hs => ?_
    obtain ⟨key, rfl, -⟩ := hx
    exact hs
  have hlogged : (clearRenotify (monitorOf c t).id).Preserves write ok (WaitingLog (Marks t.id k ms)) := by
    have h : Sending Plain _ c now fun _ (p : Program _) => p.Preserves write ok (WaitingLog (Marks t.id k ms)) :=
      sending_log logProperty_marks c now
    exact h.bind h.get fun _ => h.forEach _ fun _ _ => h.plain _ trivial
  refine wp_handle_of (R := fun w1 => (w1.store.flap = w.store.flap ∧ w1.store.cool = w.store.cool) ∧
    WaitingLog (Marks t.id k ms) w1 ∧
      (¬(t.to_ ≠ .down ∧ t.from_ = .down) → ∀ key, armed w1.store key = armed w.store key))
    (fun hleaves => ?_) (fun _ => ⟨⟨rfl, rfl⟩, hw, fun _ _ => rfl⟩) fun w1 ⟨⟨hflap, hcool⟩, hlog, htimers⟩ => ?_
  · exact wp_mono (fun a w1 h1 => ⟨h1.1, h1.2, fun hstays => absurd hleaves hstays⟩)
      (wp_and (hkept w ⟨rfl, rfl⟩) (hlogged w hw))
  · refine wp_mono (fun a w' h hne => ?_) (wp_afterClearing_marks hdistinct hlog)
    obtain ⟨harmed, hmarks⟩ := h hne
    rw [funext fun rule => congrArg (marks c rule) (decision_congr hflap hcool rule)] at hmarks
    exact ⟨fun hstays rule hrule => (harmed hstays rule hrule).trans (arms_congr hflap hcool (htimers hstays) rule), hmarks⟩

/-- The transition that is not yet marked. -/
theorem wp_onTransition_marks (hdistinct : ((c.uptimeRules t.orgId).map (·.id)).Nodup) (htx : w.store.tx t.id = false)
    (hw : WaitingLog (Marks t.id k ms) w) :
    (onTransition n c t now).wp write ok (fun a w' => a ≠ none →
      (¬(t.to_ ≠ .down ∧ t.from_ = .down) → ∀ rule ∈ c.uptimeRules t.orgId,
        armed w'.store (rule.id, t.monitorId) = arms n c t now w.store rule) ∧
      WaitingLog (Marks t.id k (ms ++ (c.uptimeRules t.orgId).flatMap fun rule => marks c rule (decision n c t now w.store rule))) w') w := by
  unfold onTransition
  rw [wp_get_bind, htx, if_neg (by simp)]
  refine wp_bind (wp_mono (fun a w' h => ?_) (wp_handle_marks hdistinct hw))
  cases a with
  | none => exact fun hne => absurd rfl hne
  | some _ =>
    obtain ⟨htimers, hlog⟩ := h (Option.some_ne_none _)
    exact fun _ _ => ⟨htimers, hlog.1.plain trivial, hlog.2⟩

end Log

/-! ## A complete handling -/

section Complete
variable {c : Snapshot}

theorem Snapshot.distinct_uptimeRules (c : Snapshot) (orgId : String) : ((c.uptimeRules orgId).map (·.id)).Nodup :=
  nodup_filter c.distinct _

theorem handled_marks (hwaiting : AllWaiting w.store) (htx : w.store.tx t.id = false)
    (hdone : (handled n answer c.toConfig t now w).1 = some ()) :
    (¬(t.to_ ≠ .down ∧ t.from_ = .down) → ∀ rule ∈ c.uptimeRules t.orgId,
      armed (handled n answer c.toConfig t now w).2.store (rule.id, t.monitorId) = arms n c.toConfig t now w.store rule) ∧
    ((handled n answer c.toConfig t now w).2.calls.drop w.calls.length).filterMap (markOf t.id) =
      (c.uptimeRules t.orgId).flatMap fun rule => marks c.toConfig rule (decision n c.toConfig t now w.store rule) := by
  have hstart : WaitingLog (Marks t.id w.calls.length []) w := ⟨hwaiting, le_rfl, by simp⟩
  have hne : (handled n answer c.toConfig t now w).1 ≠ none := by
    rw [hdone]
    exact Option.some_ne_none _
  obtain ⟨htimers, hlog⟩ := wp_run answer (wp_onTransition_marks (c.distinct_uptimeRules t.orgId) htx hstart) hne
  exact ⟨htimers, hlog.2.2⟩

theorem handled_result (hwaiting : AllWaiting w.store) (htx : w.store.tx t.id = false)
    (hdone : (handled n answer c.toConfig t now w).1 = some ()) (hrule : rule ∈ c.uptimeRules t.orgId) (channelId : String) :
    result t.id rule.id channelId ((handled n answer c.toConfig t now w).2.calls.drop w.calls.length) =
      (marks c.toConfig rule (decision n c.toConfig t now w.store rule)).filter (Mark.decides rule.id channelId) := by
  rw [result, (handled_marks hwaiting htx hdone).2]
  exact filter_flatMap_marks (c.distinct_uptimeRules t.orgId) hrule channelId _

/-- A transition out of down leaves no timer, and any other those that are armed. -/
theorem handled_armed (hwaiting : AllWaiting w.store) (htx : w.store.tx t.id = false)
    (hdone : (handled n answer c.toConfig t now w).1 = some ()) (hrule : rule ∈ c.uptimeRules t.orgId) :
    armed (handled n answer c.toConfig t now w).2.store (rule.id, t.monitorId) =
      decide (¬(t.to_ ≠ .down ∧ t.from_ = .down) ∧ arms n c.toConfig t now w.store rule = true) := by
  by_cases hleaves : t.to_ ≠ .down ∧ t.from_ = .down
  · have hcleared := wp_run answer (StillDown.wp_onTransition_cleared n c.toConfig now htx hleaves.2 hleaves.1)
    rw [decide_eq_false fun h => h.1 hleaves]
    exact hcleared (rule.id, t.monitorId) rfl
  · rw [(handled_marks hwaiting htx hdone).1 hleaves rule hrule]
    simp [hleaves]

/-- Two complete handlings end the same exactly where the same is decided. -/
theorem sameEnd_iff {reply : ℕ → (c : Call) → Reply c} {w w' : NotifierWorld} (hwaiting : AllWaiting w.store)
    (hwaiting' : AllWaiting w'.store) (htx : w.store.tx t.id = false) (htx' : w'.store.tx t.id = false)
    (hdone : (handled n answer c.toConfig t now w).1 = some ()) (hdone' : (handled n reply c.toConfig t now w').1 = some ()) :
    SameEnd c.toConfig t w (handled n answer c.toConfig t now w).2 w' (handled n reply c.toConfig t now w').2 ↔
      SameDecisions n c.toConfig t now w.store w'.store := by
  have hresults : ∀ rule ∈ c.uptimeRules t.orgId, ∀ channelId ∈ rule.notify.channelIds, (c.channel channelId).isSome = true →
      (result t.id rule.id channelId ((handled n answer c.toConfig t now w).2.calls.drop w.calls.length) =
        result t.id rule.id channelId ((handled n reply c.toConfig t now w').2.calls.drop w'.calls.length) ↔
      decision n c.toConfig t now w.store rule = decision n c.toConfig t now w'.store rule) := by
    intro rule hrule channelId hmem hthere
    rw [handled_result hwaiting htx hdone hrule, handled_result hwaiting' htx' hdone' hrule]
    refine ⟨fun h => ?_, fun h => by rw [h]⟩
    rw [← decided_marks hmem hthere (decision n c.toConfig t now w.store rule), h, decided_marks hmem hthere]
  have htimers : ∀ rule ∈ c.uptimeRules t.orgId, (armed (handled n answer c.toConfig t now w).2.store (rule.id, t.monitorId) =
      armed (handled n reply c.toConfig t now w').2.store (rule.id, t.monitorId) ↔
        (t.from_ = .down ∧ t.to_ ≠ .down) ∨ arms n c.toConfig t now w.store rule = arms n c.toConfig t now w'.store rule) := by
    intro rule hrule
    rw [handled_armed hwaiting htx hdone hrule, handled_armed hwaiting' htx' hdone' hrule, decide_eq_decide]
    by_cases hleaves : t.to_ ≠ .down ∧ t.from_ = .down
    · exact ⟨fun _ => .inl hleaves.symm, fun _ => ⟨fun h => absurd hleaves h.1, fun h => absurd hleaves h.1⟩⟩
    · rw [or_iff_right fun h => hleaves h.symm, and_iff_right hleaves, and_iff_right hleaves, ← Bool.eq_iff_iff]
  constructor
  · intro h
    refine ⟨fun rule hrule ⟨channelId, hmem, hthere⟩ => ?_, fun rule hrule ⟨channelId, hmem, hthere⟩ => ?_, ?_⟩
    · exact (decision_eq_iff.mp ((hresults rule hrule channelId hmem hthere).mp (h.results rule hrule channelId hmem hthere))).1
    · exact (decision_eq_iff.mp ((hresults rule hrule channelId hmem hthere).mp (h.results rule hrule channelId hmem hthere))).2
    · by_cases hleaves : t.from_ = .down ∧ t.to_ ≠ .down
      · exact .inl hleaves
      · exact .inr fun rule hrule => ((htimers rule hrule).mp (h.timers rule hrule)).resolve_left hleaves
  · intro h
    refine ⟨fun rule hrule channelId hmem hthere => ?_, fun rule hrule => ?_⟩
    · exact (hresults rule hrule channelId hmem hthere).mpr (decision_eq_iff.mpr
        ⟨h.guards rule hrule ⟨channelId, hmem, hthere⟩, h.cooldowns rule hrule ⟨channelId, hmem, hthere⟩⟩)
    · exact (htimers rule hrule).mpr (h.timers.imp_right fun harms => harms rule hrule)

end Complete

/-! ## Runs with failures -/

/-- Wherever the handling is cut off, the stored jobs are waiting. -/
theorem waiting_fail (f : Failure) (hw : AllWaiting w.store) : AllWaiting (fail n answer c t w f).store := by
  have hheld : (onTransition n c t f.at_).Guards write (DurableDeliveries.Held 0 (DurableDeliveries.Answered 0) fun _ => False) :=
    (DurableDeliveries.atoms_held (DurableDeliveries.settles_answered 0) (fun _ _ hid => hid.elim) f.at_).dispatching.onTransition t
  exact (((hheld w ⟨⟨hw, Nat.zero_le _⟩, fun _ hid => hid.elim⟩).cut f.steps).run answer).1.1

theorem waiting_step (e : Event) (hw : AllWaiting w.store) : AllWaiting (step n answer w e).store :=
  wp_run answer (keeps_program n e w hw)

theorem waiting_take (turn : Turn) (hw : AllWaiting w.store) : AllWaiting (take n answer c t w turn).store := by
  cases turn with
  | failed f => exact waiting_fail f hw
  | other e => exact waiting_step e hw

def twoRulesSnapshot : Snapshot := { DeliveryOutcomes.twoRules with distinct := by decide }

def goesDown : TransitionMsg := ⟨"m", "o", 1, .up, .down, "timeout", 0, [], 3⟩

/-- The first handling, cut off after so many writes and calls. -/
def failedAfter (steps : ℕ) : List Turn := [.failed ⟨1767225600, steps⟩]

end Upstat.RepeatedHandlings
