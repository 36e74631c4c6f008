import Mathlib.Data.List.AList
import Mathlib.Data.Rat.Floor
import Upstat.AwaitedPrograms
import Upstat.CommonDatabase

/-! # The notifier (`notifier/__init__.py`)

Its functions as programs over the working state, which call out to publish and to send.
An id the notifier hashes from a text is that text's parts, which tell ids apart. A pass
over stored keys is one event for each key it comes to, and a transition is handled, and a
key treated, without another event in between. -/
namespace Upstat.NotifierPrograms

open AwaitedPrograms MonitorMachine CommonDatabase

def flapWindowSeconds : ℚ := 30 * 60
def flapEdges : ℕ := 7
def ladder : List ℚ := [1, 5, 25]

/-- `rule` stands for a rule's own alert, which is about no monitor. -/
inductive Direction where
  | down | recovered | nodata | renotify | flapping | rule
  deriving DecidableEq, Repr

def Direction.text : Direction → String
  | .down => "down"
  | .recovered => "recovered"
  | .nodata => "nodata"
  | .renotify => "renotify"
  | .flapping => "flapping"
  | .rule => "rule"

/-- The id of what a message is about: a transition, the end of flapping at a second, or a
slot of the renotify ladder. -/
inductive MsgId where
  | transition (id : TransitionId)
  | flapExit (monitorId : String) (second : ℤ)
  | renotify (of : MsgId) (slot : ℤ)
  deriving DecidableEq

def MsgId.monitorId : MsgId → String
  | .transition id => id.1
  | .flapExit monitorId _ => monitorId
  | .renotify of _ => of.monitorId

inductive DeliveryState where
  | delivered | failed | suppressed
  deriving DecidableEq, Repr

inductive DeliveryId where
  | sent (msg : MsgId) (ruleId channelId : String) (direction : Direction)
  | noted (msg : MsgId) (ruleId : String) (direction : Direction) (state : DeliveryState)
  | flapExit (monitorId : String) (second : ℤ)
  | ruleAlert (ruleId channelId : String) (entered : Bool) (tick : String ⊕ ℤ)
  | verify (request : String)
  deriving DecidableEq

/-- What a dispatch reads of the transition, or of what stands in for one. -/
structure Msg where
  id : MsgId
  from_ : Status
  to_ : Status
  cause : String
  at_ : ℚ
  consecutiveFailures : ℕ

def msgOf (m : TransitionMsg) : Msg := ⟨.transition m.id, m.from_, m.to_, m.cause, m.at_, m.consecutiveFailures⟩

/-! ## The config snapshots -/

structure MuteWindow where
  from_ : Option String
  to_ : Option String

structure Notify where
  channelIds : List String := []
  cooldownMinutes : ℤ := 30
  renotifyMinutes : ℤ := 0
  muteWindows : List MuteWindow := []

structure Rule where
  id : String
  orgId : String
  name : String
  signal : String
  queryString : String
  notify : Notify

structure Monitor where
  id : String
  name : String
  target : String
  orgId : String
  muted : Bool := false
  status : Status := .pending
  consecutiveFailures : ℕ := 0

structure Channel where
  id : String
  health : String

structure Config where
  monitors : List Monitor
  rules : List Rule
  channels : List Channel

def Config.monitor (c : Config) (id : String) : Option Monitor := c.monitors.find? (·.id = id)

def Config.rule (c : Config) (id : String) : Option Rule := c.rules.find? (·.id = id)

def Config.uptimeRules (c : Config) (orgId : String) : List Rule :=
  c.rules.filter fun r => r.orgId = orgId ∧ r.signal = "uptime"

/-- The channel, unless it is gone or not verified. -/
def Config.channel (c : Config) (id : String) : Option Channel :=
  (c.channels.find? (·.id = id)).filter (·.health ≠ "unverified")

/-- The notifier's own settings, and the formatting of times and numbers it relies on. -/
structure Notifier where
  web : String
  iso : ℚ → String
  timestamp : String → Option ℚ
  general : ℚ → String

/-! ## Which rules a transition concerns -/

def directionOf (from_ to_ : Status) : Option Direction :=
  if to_ = .down then some .down
  else if from_ = .down ∧ to_ = .up then some .recovered
  else if to_ = .nodata then some .nodata
  else none

def isSpace (c : Char) : Bool :=
  c.toNat ∈ [9, 10, 11, 12, 13, 28, 29, 30, 31, 32, 133, 160, 5760, 8232, 8233, 8239, 8287, 12288] ∨
    (8192 ≤ c.toNat ∧ c.toNat ≤ 8202)

def split (s : String) : List (List Char) := (s.toList.splitOnP isSpace).filter (· ≠ [])

/-- A token's part before its first colon and the part after it, without quotes at its ends. -/
def facetValue (token : List Char) : String × String :=
  let value := (token.dropWhile (· ≠ ':')).drop 1
  let bare := ((value.dropWhile (· = '"')).reverse.dropWhile (· = '"')).reverse
  (String.ofList (token.takeWhile (· ≠ ':')), String.ofList bare)

def onValues : String → List Direction
  | "down" => [.down]
  | "recovered" => [.recovered]
  | "nodata" => [.nodata]
  | "all" => [.down, .recovered, .nodata]
  | _ => []

/-- The `check:` and `on:` values of an uptime rule's query string. -/
def ruleTerms (rule : Rule) : List String × List Direction :=
  let terms := ((split rule.queryString).map facetValue).filter (·.2 ≠ "")
  let checks := (terms.filter (·.1 = "check")).map (·.2)
  let on := (terms.filter (·.1 = "on")).flatMap fun t => onValues t.2
  (checks, if on = [] then [.down, .recovered] else on)

def checksMatch (rule : Rule) (monitor : Monitor) : Bool :=
  (ruleTerms rule).1 = [] ∨ monitor.id ∈ (ruleTerms rule).1 ∨ monitor.name ∈ (ruleTerms rule).1

def ruleMatches (rule : Rule) (monitor : Monitor) (direction : Direction) : Bool :=
  checksMatch rule monitor ∧ direction ∈ (ruleTerms rule).2

def mutedNow (n : Notifier) (rule : Rule) (now : ℚ) : Bool :=
  rule.notify.muteWindows.any fun window =>
    match window.from_.bind n.timestamp, window.to_.bind n.timestamp with
    | some start, some end_ => start ≤ now ∧ now < end_
    | _, _ => false

/-! ## What is sent and what is stored -/

inductive Payload where
  | monitor (event : String) (id name target : String) (from_ to_ : Status) (at_ : ℚ) (cause : String)
      (consecutiveFailures : ℕ)
  | verify (channelId requestedAt : String)
  | rule (event : String) (id name signal query : String) (value : Option ℚ) (at_ : ℚ)

/-- The part of a delivery's report that is known before it is sent. -/
structure Record where
  id : DeliveryId
  orgId : String
  kind : String
  transitionId : Option MsgId
  ruleId : Option String
  sev : String
  monitorName : String
  message : String
  channelId : Option String

/-- The report of a delivery, as it is published. -/
structure Delivery where
  record : Record
  state : DeliveryState
  attempts : ℕ
  at_ : ℚ

structure Final where
  state : DeliveryState
  at_ : ℚ

/-- A message about a monitor on a channel. `turn` is its number among all dispatched. -/
structure Notice where
  monitorId : Option String
  channelId : String
  direction : Direction
  turn : ℕ
  deriving DecidableEq

/-- One delivery on its way. -/
structure Job where
  deliveryId : DeliveryId
  channelId : String
  payload : Payload
  subject : String
  text : String
  direction : Direction
  monitorId : Option String
  since : ℚ
  key : String
  record : Record
  attempts : ℕ := 0
  nextAt : ℚ
  error : String := ""
  queued : Bool := false
  final : Option Final := none
  /-- Kept for the statements only. -/
  turn : ℕ

def Job.notice (job : Job) : Notice := ⟨job.monitorId, job.channelId, job.direction, job.turn⟩

def Job.tried (job : Job) : Job := { job with attempts := job.attempts + 1 }

def Job.withError (job : Job) (error : String) : Job := { job with error := error }

def Job.queue (job : Job) : Job := { job with queued := true }

def Job.waitUntil (job : Job) (nextAt : ℚ) : Job := { job with nextAt := nextAt }

def Job.close (job : Job) (state : DeliveryState) (now : ℚ) : Job := { job with final := some ⟨state, now⟩ }

structure Flap where
  edges : List ℚ := []
  on : Bool := false

structure Stamp where
  at_ : ℚ
  transitionId : MsgId

/-- The working state under the keys `tx:`, `flap:`, `cool:`, `renotify:`, `retry:` and
`downfail:`, the evaluator's `mon:`, and, kept for the statements only, every message that
was dispatched and every one that was delivered. -/
structure Store where
  tx : TransitionId → Bool
  flap : String → Option Flap
  cool : String × String × Direction → Option ℚ
  renotify : AList fun _ : String × String => Stamp
  retry : AList fun _ : DeliveryId => Job
  downfail : Option String × String → Option ℚ
  mon : String → Option MonitorState
  dispatched : List Notice
  delivered : List Notice

def empty : Store := ⟨fun _ => false, fun _ => none, fun _ => none, ∅, ∅, fun _ => none, fun _ => none, [], []⟩

/-- The evaluator writes `saved`. The last three only mark what the code does: it dispatches
a message, has delivered one, or gives one up after an attempt or for want of its channel. -/
inductive Write where
  | handled (id : TransitionId)
  | putFlap (monitorId : String) (flap : Flap)
  | putCool (key : String × String × Direction) (at_ : ℚ)
  | deleteCool (key : String × String × Direction)
  | putRenotify (key : String × String) (stamp : Stamp)
  | deleteRenotify (key : String × String)
  | putRetry (job : Job)
  | deleteRetry (id : DeliveryId)
  | putDownfail (key : Option String × String) (since : ℚ)
  | deleteDownfail (key : Option String × String)
  | saved (monitorId : String) (st : MonitorState)
  | dispatched (notice : Notice)
  | delivered (notice : Notice)
  | gaveUp (job : Job)

def write (s : Store) : Write → Store
  | .handled id => { s with tx := Function.update s.tx id true }
  | .putFlap monitorId flap => { s with flap := Function.update s.flap monitorId (some flap) }
  | .putCool key at_ => { s with cool := Function.update s.cool key (some at_) }
  | .deleteCool key => { s with cool := Function.update s.cool key none }
  | .putRenotify key stamp => { s with renotify := s.renotify.insert key stamp }
  | .deleteRenotify key => { s with renotify := s.renotify.erase key }
  | .putRetry job => { s with retry := s.retry.insert job.deliveryId job }
  | .deleteRetry id => { s with retry := s.retry.erase id }
  | .putDownfail key since => { s with downfail := Function.update s.downfail key (some since) }
  | .deleteDownfail key => { s with downfail := Function.update s.downfail key none }
  | .saved monitorId st => { s with mon := Function.update s.mon monitorId (some st) }
  | .dispatched notice => { s with dispatched := s.dispatched ++ [notice] }
  | .delivered notice => { s with delivered := s.delivered ++ [notice] }
  | .gaveUp _ => s

/-- The sender's answer to one attempt. -/
structure Outcome where
  delivered : Bool
  attempts : ℕ := 1
  error : String := ""
  /-- False when another attempt cannot succeed. -/
  retry : Bool := true

inductive Call where
  | publish (key : String) (delivery : Delivery)
  | deliver (channel : Channel) (id : DeliveryId) (payload : Payload) (subject text : String)

/-- Publishing succeeds or raises. -/
abbrev Reply : Call → Type
  | .publish _ _ => Bool
  | .deliver _ _ _ _ _ => Outcome

abbrev Program := Prog Store Write Reply

def publish (key : String) (delivery : Delivery) : Program Unit :=
  .call (.publish key delivery) fun ok : Bool => if ok then .done () else .raised

def deliver (channel : Channel) (id : DeliveryId) (payload : Payload) (subject text : String) : Program Outcome :=
  .call (.deliver channel id payload subject text) .done

/-! ## One delivery -/

def publishFinal (job : Job) : Program Unit :=
  match job.final with
  | none => .raised
  | some final => do
    publish job.key ⟨job.record, final.state, job.attempts, final.at_⟩
    .when_ job.queued (.put (.deleteRetry job.deliveryId))

/-- Records the terminal outcome; one that is not published stays stored with the job. -/
def finish (job : Job) (state : DeliveryState) (now : ℚ) : Program Unit := do
  .when_ (state = .failed ∧ job.direction = .down) (.put (.putDownfail (job.monitorId, job.channelId) job.since))
  (publishFinal (job.close state now)).catch_ (.put (.putRetry (job.close state now).queue))

def attempt (c : Config) (job : Job) (now : ℚ) : Program Unit :=
  match c.channel job.channelId with
  | none => do
    .put (.gaveUp job)
    .put (.deleteRetry job.deliveryId)
  | some channel => do
    let outcome ← deliver channel job.deliveryId job.payload job.subject job.text
    if outcome.delivered then
      .put (.delivered job.notice)
      finish job.tried .delivered now
    else if outcome.retry ∧ job.tried.attempts ≤ ladder.length then
      let nextAt := now + ladder.getD (job.tried.attempts - 1) 0
      .put (.putRetry ((job.tried.withError outcome.error).waitUntil nextAt).queue)
    else
      .put (.gaveUp job)
      finish (job.tried.withError outcome.error) .failed now

/-- A queued retry of a down on the monitor's channel. -/
def Job.downRetry (job : Job) (monitorId channelId : String) : Bool :=
  job.final.isNone ∧ job.direction = .down ∧ job.monitorId = some monitorId ∧ job.channelId = channelId

def abandonDownRetries (monitorId channelId : String) (now : ℚ) : Program Unit := do
  let s ← .get
  .forEach s.retry.keys fun key => do
    let s ← .get
    match s.retry.lookup key with
    | none => pure ()
    | some job =>
      .when_ (job.downRetry monitorId channelId)
        (finish (job.withError "abandoned: the monitor recovered") .failed now)

/-- `retry_due` at one stored key. -/
def retryDue (c : Config) (key : DeliveryId) (now : ℚ) : Program Unit := do
  let s ← .get
  match s.retry.lookup key with
  | none => pure ()
  | some job =>
    if job.final.isNone ∧ now < job.nextAt then pure ()
    else (if job.final.isSome then publishFinal job else attempt c job now).catch_ (pure ())

/-! ## Dispatching to a rule's channels -/

def event : Direction → String
  | .down => "monitor.down"
  | .recovered => "monitor.recovered"
  | .nodata => "monitor.nodata"
  | .flapping => "monitor.flapping"
  | .renotify => "monitor.renotify"
  | .rule => ""

def sev : Direction → String
  | .down | .renotify => "sev1"
  | .recovered => "resolved"
  | .nodata | .flapping | .rule => "sev2"

def compose (n : Notifier) (monitor : Monitor) (msg : Msg) (direction : Direction) : String × String × Payload :=
  let name := if monitor.name = "" then monitor.id else monitor.name
  let (subject, text) : String × String := match direction with
    | .recovered => ("[Upstat] " ++ name ++ " RECOVERED", name ++ " is back up.")
    | .nodata => ("[Upstat] " ++ name ++ " has NO DATA", "No check of " ++ name ++ " completed for two intervals.")
    | .renotify => ("[Upstat] " ++ name ++ " is still DOWN", name ++ " is still down.")
    | .flapping => ("[Upstat] " ++ name ++ " is FLAPPING",
        name ++ " keeps switching between up and down; further alerts are held until it settles for 30 minutes.")
    | _ => ("[Upstat] " ++ name ++ " is DOWN",
        name ++ " is down (" ++ (if msg.cause = "" then "failing" else msg.cause) ++ ") after " ++
          toString msg.consecutiveFailures ++ " failed checks.")
  let text := if n.web = "" then text else text ++ "\n" ++ n.web ++ "/dashboard/monitors/" ++ monitor.id
  (subject, text, .monitor (event direction) monitor.id name monitor.target msg.from_ msg.to_ msg.at_ msg.cause
    msg.consecutiveFailures)

def recordData (rule : Rule) (monitor : Monitor) (msg : Msg) (direction : Direction) (message : String)
    (channelId : Option String) (id : DeliveryId) : Record where
  id := id
  orgId := monitor.orgId
  kind := if direction = .flapping then "flapping" else if direction = .renotify then "renotify" else "alert"
  transitionId := some msg.id
  ruleId := some rule.id
  sev := sev direction
  monitorName := monitor.name
  message := String.ofList (message.toList.take 1000)
  channelId := channelId

/-- Reports a message that is suppressed. -/
def record (rule : Rule) (monitor : Monitor) (msg : Msg) (direction : Direction) (now : ℚ) (message : String) :
    Program Unit :=
  publish monitor.id
    ⟨recordData rule monitor msg direction message none (.noted msg.id rule.id direction .suppressed), .suppressed, 0,
      now⟩

def cooldown (rule : Rule) : ℚ := rule.notify.cooldownMinutes * 60

/-- The delivery of a message on one channel, before its first attempt. -/
def newJob (n : Notifier) (rule : Rule) (monitor : Monitor) (msg : Msg) (direction : Direction) (now : ℚ)
    (channelId : String) (missed : Option ℚ) (turn : ℕ) : Job :=
  let (subject, text, payload) := compose n monitor msg direction
  let deliveryId := DeliveryId.sent msg.id rule.id channelId direction
  { deliveryId := deliveryId
    channelId := channelId
    payload := payload
    subject := subject
    text := missed.elim text fun since => "(missed: was down since " ++ n.iso since ++ ") " ++ text
    direction := direction
    monitorId := some monitor.id
    since := now
    key := monitor.id
    record := recordData rule monitor msg direction subject (some channelId) deliveryId
    nextAt := now
    turn := turn }

/-- When the monitor went down, if that message failed on the channel; asked once. -/
def takeMissed (monitorId channelId : String) : Program (Option ℚ) := do
  let s ← .get
  let missed := s.downfail (some monitorId, channelId)
  .when_ missed.isSome (.put (.deleteDownfail (some monitorId, channelId)))
  pure missed

/-- What a recovery does first: it abandons the retries of the down and asks for a missed one. -/
def recover (direction : Direction) (monitorId channelId : String) (now : ℚ) : Program (Option ℚ) :=
  if direction = .recovered then do
    abandonDownRetries monitorId channelId now
    takeMissed monitorId channelId
  else pure none

/-- The loop's body of `_dispatch`, for a channel that is there and verified. -/
def dispatchTo (n : Notifier) (c : Config) (rule : Rule) (monitor : Monitor) (msg : Msg) (direction : Direction)
    (now : ℚ) (channelId : String) : Program Unit := do
  let missed ← recover direction monitor.id channelId now
  let s ← .get
  let job := newJob n rule monitor msg direction now channelId missed s.dispatched.length
  .put (.dispatched job.notice)
  attempt c job now

def dispatch (n : Notifier) (c : Config) (rule : Rule) (monitor : Monitor) (msg : Msg) (direction : Direction)
    (now : ℚ) (bypassCooldown : Bool) : Program Unit := do
  let coolKey := (rule.id, monitor.id, direction)
  let s ← .get
  let cooling := (direction = .down ∨ direction = .nodata) ∧ ¬bypassCooldown ∧ 0 < cooldown rule ∧
    (s.cool coolKey).any fun at_ => now - at_ < cooldown rule
  if monitor.muted then record rule monitor msg direction now "suppressed: monitor muted"
  else if mutedNow n rule now then record rule monitor msg direction now "suppressed: mute window"
  else if cooling then record rule monitor msg direction now "suppressed: cooldown"
  else
    let channelIds := rule.notify.channelIds.filter fun id => (c.channel id).isSome
    .forEach channelIds (dispatchTo n c rule monitor msg direction now)
    .when_ (channelIds ≠ [] ∧ (direction = .down ∨ direction = .nodata)) (.put (.putCool coolKey now))
    .when_ (direction = .down ∧ 0 < rule.notify.renotifyMinutes) (.put (.putRenotify (rule.id, monitor.id) ⟨now, msg.id⟩))
    .when_ (direction = .recovered) (.put (.deleteRenotify (rule.id, monitor.id)))

/-! ## Flapping, and the handling of a transition -/

def recentEdges (edges : List ℚ) (now : ℚ) : List ℚ := edges.filter fun t => now - t ≤ flapWindowSeconds

/-- The edge a transition adds to the window, when it leads from up to down or back. -/
def edgeOf (msg : TransitionMsg) (now : ℚ) : List ℚ :=
  if (msg.from_ = .up ∧ msg.to_ = .down) ∨ (msg.from_ = .down ∧ msg.to_ = .up) then [now] else []

/-- The monitor's current status and failure count: the evaluator's, or the snapshot's. -/
def statusOf (s : Store) (monitor : Monitor) : Status × ℕ :=
  match s.mon monitor.id with
  | some st => (st.status, st.consecutiveFailures)
  | none => (monitor.status, monitor.consecutiveFailures)

def statusText : Status → String
  | .pending => "pending"
  | .up => "up"
  | .down => "down"
  | .nodata => "nodata"
  | .paused => "paused"

def exitFlapping (n : Notifier) (c : Config) (monitor : Monitor) (orgId : String) (now : ℚ) (status : Status)
    (redispatch : Bool) : Program Unit := do
  .forEach (c.uptimeRules orgId) fun rule => do
    .put (.deleteCool (rule.id, monitor.id, .down))
    .put (.deleteCool (rule.id, monitor.id, .nodata))
  let message :=
    if status = .up then monitor.name ++ " stopped flapping; alerts resume"
    else monitor.name ++ " stopped flapping and is " ++ statusText status ++ "; alerts resume"
  let report : Record :=
    { id := .flapExit monitor.id now.floor, orgId := orgId, kind := "flapping", transitionId := none, ruleId := none,
      sev := if status = .up then "resolved" else "sev2", monitorName := monitor.name, message := message,
      channelId := none }
  publish monitor.id ⟨report, .suppressed, 0, now⟩
  .when_ (redispatch ∧ status = .down) do
    let s ← .get
    let msg : Msg := ⟨.flapExit monitor.id now.floor, .down, .down, "", now, (statusOf s monitor).2⟩
    .forEach ((c.uptimeRules orgId).filter fun rule => ruleMatches rule monitor .down) fun rule =>
      dispatch n c rule monitor msg .down now false

/-- Reports the transition of a flapping monitor as suppressed, for each rule it concerns. -/
def recordFlapping (c : Config) (msg : TransitionMsg) (monitor : Monitor) (now : ℚ) : Program Unit :=
  match directionOf msg.from_ msg.to_ with
  | none => pure ()
  | some direction =>
    .forEach ((c.uptimeRules msg.orgId).filter fun rule => ruleMatches rule monitor direction) fun rule =>
      record rule monitor (msgOf msg) direction now "suppressed: monitor is flapping"

/-- Counts the edge; true when the transition is suppressed. -/
def flapping (n : Notifier) (c : Config) (msg : TransitionMsg) (monitor : Monitor) (now : ℚ) : Program Bool := do
  let s ← .get
  let flap := (s.flap monitor.id).getD {}
  let edges := recentEdges (flap.edges ++ edgeOf msg now) now
  if ¬flap.on ∧ flapEdges ≤ edges.length then
    .put (.putFlap monitor.id ⟨edges, true⟩)
    .forEach ((c.uptimeRules msg.orgId).filter fun rule => ruleMatches rule monitor .down) fun rule =>
      dispatch n c rule monitor (msgOf msg) .flapping now true
    pure true
  else if flap.on ∧ edges.length ≤ 1 then
    .put (.putFlap monitor.id ⟨edges, false⟩)
    exitFlapping n c monitor msg.orgId now msg.to_ false
    pure false
  else
    .put (.putFlap monitor.id ⟨edges, flap.on⟩)
    .when_ flap.on (recordFlapping c msg monitor now)
    pure flap.on

def clearRenotify (monitorId : String) : Program Unit := do
  let s ← .get
  .forEach (s.renotify.keys.filter fun key => key.2 = monitorId) fun key => .put (.deleteRenotify key)

/-- The monitor of a transition, or what stands in for one that is not in the snapshot. -/
def monitorOf (c : Config) (msg : TransitionMsg) : Monitor :=
  (c.monitor msg.monitorId).getD { id := msg.monitorId, name := msg.monitorId, target := "", orgId := msg.orgId }

theorem monitor_id {c : Config} {monitor : Monitor} {id : String} (h : c.monitor id = some monitor) :
    monitor.id = id := by
  have := List.find?_some h
  simpa using this

theorem monitorOf_id (c : Config) (t : TransitionMsg) : (monitorOf c t).id = t.monitorId := by
  unfold monitorOf
  cases h : c.monitor t.monitorId with
  | none => rfl
  | some monitor => exact monitor_id h

def handle (n : Notifier) (c : Config) (msg : TransitionMsg) (now : ℚ) : Program Unit := do
  let monitor := monitorOf c msg
  .when_ (msg.to_ ≠ .down ∧ msg.from_ = .down) (clearRenotify monitor.id)
  let suppressed ← flapping n c msg monitor now
  if suppressed then pure ()
  else
    match directionOf msg.from_ msg.to_ with
    | none => pure ()
    | some direction =>
      .forEach ((c.uptimeRules msg.orgId).filter fun rule => ruleMatches rule monitor direction) fun rule =>
        dispatch n c rule monitor (msgOf msg) direction now false

def onTransition (n : Notifier) (c : Config) (msg : TransitionMsg) (now : ℚ) : Program Unit := do
  let s ← .get
  if s.tx msg.id then pure ()
  else
    handle n c msg now
    .put (.handled msg.id)

/-! ## The passes -/

/-- `sweep` at one monitor with a flapping window. -/
def sweep (n : Notifier) (c : Config) (monitorId : String) (now : ℚ) : Program Unit := do
  let s ← .get
  match s.flap monitorId with
  | none => pure ()
  | some flap =>
    let edges := recentEdges flap.edges now
    if flap.on ∧ edges.length ≤ 1 then
      .put (.putFlap monitorId ⟨edges, false⟩)
      match c.monitor monitorId with
      | none => pure ()
      | some monitor =>
        let s ← .get
        exitFlapping n c monitor monitor.orgId now (statusOf s monitor).1 true

/-- `renotify` at one stored key. -/
def renotify (n : Notifier) (c : Config) (key : String × String) (now : ℚ) : Program Unit := do
  let s ← .get
  match s.renotify.lookup key, c.rule key.1, c.monitor key.2 with
  | some stamp, some rule, some monitor =>
    if (s.mon key.2).any fun st => st.status ≠ .down then .put (.deleteRenotify key)
    else
      let every : ℚ := rule.notify.renotifyMinutes * 60
      if every ≤ 0 ∨ now - stamp.at_ < every then pure ()
      else
        let msg : Msg := ⟨.renotify stamp.transitionId (now / every).floor, .down, .down, "", now, 0⟩
        dispatch n c rule monitor msg .renotify now true
        .put (.putRenotify key ⟨now, stamp.transitionId⟩)
  | _, _, _ => .put (.deleteRenotify key)

/-! ## Channel verification and rule alerts -/

def onVerify (c : Config) (channelId orgId requestedAt : String) (requestId : Option String) (now : ℚ) :
    Program Unit :=
  match c.channels.find? (·.id = channelId) with
  | none => pure ()
  | some channel => do
    let id := DeliveryId.verify (requestId.getD requestedAt)
    let outcome ← deliver channel id (.verify channel.id requestedAt) "[Upstat] Verify this alert channel"
      "This is a test from Upstat. If you received it, the channel works."
    let message := if outcome.delivered then "verification sent" else "verification failed: " ++ outcome.error
    let report : Record :=
      { id := id, orgId := orgId, kind := "verify", transitionId := none, ruleId := none, sev := "sev2",
        monitorName := "", message := String.ofList (message.toList.take 1000), channelId := some channelId }
    publish channel.id ⟨report, if outcome.delivered then .delivered else .failed, outcome.attempts, now⟩

/-- A rule's own alert on one of its channels. -/
def ruleAlertTo (n : Notifier) (c : Config) (rule : Rule) (entered : Bool) (value : Option ℚ) (now : ℚ)
    (tick : String ⊕ ℤ) (channelId : String) : Program Unit := do
  let s ← .get
  let verb := if entered then "is alerting" else "recovered"
  let shown := value.elim "" fun v => " (value " ++ n.general v ++ ")"
  let text := rule.name ++ " " ++ verb ++ shown ++ ": " ++ rule.queryString
  let id := DeliveryId.ruleAlert rule.id channelId entered tick
  let report : Record :=
    { id := id, orgId := rule.orgId, kind := "rule", transitionId := none, ruleId := some rule.id,
      sev := if entered then "sev1" else "resolved", monitorName := rule.name,
      message := String.ofList (text.toList.take 1000), channelId := some channelId }
  let job : Job :=
    { deliveryId := id, channelId := channelId,
      payload := .rule (if entered then "rule.alert" else "rule.recovered") rule.id rule.name rule.signal
        rule.queryString value now,
      subject := "[Upstat] Rule " ++ rule.name ++ " " ++ verb, text := text, direction := .rule, monitorId := none,
      since := now, key := rule.id, record := report, nextAt := now, turn := s.dispatched.length }
  attempt c job now

def alertDirection (entered : Bool) : Direction := if entered then .down else .recovered

def ruleAlert (n : Notifier) (c : Config) (rule : Rule) (entered : Bool) (value : Option ℚ) (now : ℚ)
    (transitionId : Option String) : Program Unit := do
  let s ← .get
  let coolKey := (rule.id, "rule", alertDirection entered)
  let cooling := entered ∧ 0 < cooldown rule ∧ (s.cool coolKey).any fun at_ => now - at_ < cooldown rule
  if cooling ∨ mutedNow n rule now then pure ()
  else
    let tick := transitionId.elim (Sum.inr now.floor) Sum.inl
    .forEach (rule.notify.channelIds.filter fun id => (c.channel id).isSome) (ruleAlertTo n c rule entered value now tick)
    .when_ entered (.put (.putCool coolKey now))

end Upstat.NotifierPrograms
