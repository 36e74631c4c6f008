import Mathlib.Algebra.Order.Ring.Int
import Mathlib.Data.List.Basic

/-! # A batch of events (`events/events.service.ts`)

Texts are lists of UTF-16 code units. A JSON value is as `JSON.parse` gives it, the entries of an
object in the order of `Object.entries`. The services behind the gateway are parameters; what is
metered after the events are forwarded changes nothing in the answer and is left out. -/
namespace Upstat.EventBatches

abbrev Text := List ℕ

/-- The code units of a literal, all of them ASCII here. -/
def js (s : String) : Text := s.toList.map Char.toNat

inductive Json (ν : Type) where
  | null
  | bool (b : Bool)
  | num (x : ν)
  | str (s : Text)
  | arr (xs : List (Json ν))
  | obj (entries : List (Text × Json ν))

/-- A property of a value by a name that no built-in object has a member of. -/
def Json.get {ν : Type} : Json ν → Text → Option (Json ν)
  | .obj entries, name => (entries.find? fun e => e.1 = name).map Prod.snd
  | .null, _ | .bool _, _ | .num _, _ | .str _, _ | .arr _, _ => none

inductive Code where
  | unknown_event | unknown_dim | ts_out_of_range | bad_shape
  deriving DecidableEq

structure Rejection where
  index : ℕ
  code : Code
  deriving DecidableEq

structure Accepted where
  accepted : ℕ
  rejected : ℕ
  rejections : List Rejection
  deriving DecidableEq

structure Context where
  origin : Option Text
  ip : Text
  userAgent : Text

structure IngestKey where
  id : Text
  orgId : Text

structure RegistryEvent where
  dims : List Text
  uniqueIneligible : Bool

/-- How a call fails: with the error envelope, or with an exception that nothing catches. -/
inductive Failure where
  | api (status : ℕ) (code message : String) (retryAfter : Option ℤ)
  | typeError (message : String)
  deriving DecidableEq

structure Record where
  time : ℤ
  attributes : List (Text × Text)

/-- Dates and numbers as the platform has them, the registry of the config cache, and what the
quota, the salts and the collector answer. -/
structure Gateway (ν : Type) where
  dateParse : Text → Option ℤ
  isFinite : ν → Bool
  numberText : ν → Text
  utcDay : ℤ → Text
  sha256 : Text → Text → Text
  event : Text → Text → Option RegistryEvent
  /-- The verdict on so many events of a key at a time: `none` allows them. -/
  take : Text → ℕ → ℤ → Except Failure (Option ℤ)
  salt : Text → ℤ → Except Failure Text
  /-- Whether the collector has taken the records of an org. -/
  logs : Text → Text → List Record → Bool

/-! ## One event -/

/-- The closed browser vocabulary every event admits. -/
def browserDims : List Text := [js "path", js "referrer_host", js "device_class", js "country"]

def device : List Text := [js "mobile", js "desktop", js "tablet"]

/-- The members of `Object.prototype`, which every object literal has too. -/
def objectMembers : List Text :=
  [js "constructor", js "__defineGetter__", js "__defineSetter__", js "hasOwnProperty", js "__lookupGetter__",
    js "__lookupSetter__", js "isPrototypeOf", js "propertyIsEnumerable", js "toString", js "valueOf", js "__proto__",
    js "toLocaleString"]

/-- What a lookup in `BUILT_IN` finds: dims of its own, or a member of `Object.prototype`, which is
an object or a function and cannot be spread. -/
inductive BuiltIn where
  | dims (ds : List Text)
  | inherited
  deriving DecidableEq

def builtIn (name : Text) : Option BuiltIn :=
  if name = js "page_view" then some (.dims [])
  else if name = js "web_vital" then some (.dims [js "metric"])
  else if name = js "js_error" then some (.dims [js "fingerprint", js "message"])
  else if name ∈ objectMembers then some .inherited
  else none

def pastMs : ℤ := 48 * 3600 * 1000
def futureMs : ℤ := 5 * 60 * 1000

structure Valid (ν : Type) where
  name : Text
  ts : ℤ
  dims : List (Text × Text)
  value : Option ν
  ineligible : Bool

/-- `/^[A-Z]{2}$/` -/
def countryCode (v : Text) : Bool := v.length = 2 ∧ v.all fun c => 65 ≤ c ∧ c ≤ 90

section
variable {ν : Type} (gw : Gateway ν)

/-- The loop over the event's dims. A dim named `__proto__` would set nothing. -/
def checkDims (allowed : List Text) : List (Text × Json ν) → Except Code (List (Text × Text))
  | [] => .ok []
  | (k, v) :: rest =>
    if k ∉ allowed then .error .unknown_dim
    else
      match v with
      | .str s =>
        if 512 < s.length then .error .bad_shape
        else if k = js "device_class" ∧ s ∉ device then .error .bad_shape
        else if k = js "country" ∧ ¬countryCode s then .error .bad_shape
        else (checkDims allowed rest).map fun ds => if k = js "__proto__" then ds else (k, s) :: ds
      | .null | .bool _ | .num _ | .arr _ | .obj _ => .error .bad_shape

/-- The event's time, `now` where it has none. -/
def checkTs (now : ℤ) : Option (Json ν) → Except Code ℤ
  | none => .ok now
  | some (.str s) =>
    match gw.dateParse s with
    | none => .error .bad_shape
    | some ts => if ts < now - pastMs ∨ now + futureMs < ts then .error .ts_out_of_range else .ok ts
  | some .null | some (.bool _) | some (.num _) | some (.arr _) | some (.obj _) => .error .bad_shape

def checkValue : Option (Json ν) → Except Code (Option ν)
  | none => .ok none
  | some (.num x) => if gw.isFinite x then .ok (some x) else .error .bad_shape
  | some .null | some (.bool _) | some (.str _) | some (.arr _) | some (.obj _) => .error .bad_shape

/-- The checks of an event that has a known name and these dims allowed. -/
def checkEvent (now : ℤ) (raw : Json ν) (name : Text) (allowed : List Text) (ineligible : Bool) : Except Code (Valid ν) := do
  let ts ← checkTs gw now (raw.get (js "ts"))
  let dims ← match raw.get (js "dims") with
    | none => .ok []
    | some (.obj entries) => checkDims allowed entries
    | some _ => .error .bad_shape
  let value ← checkValue gw (raw.get (js "value"))
  pure ⟨name, ts, dims, value, ineligible⟩

/-- The name of an event that is an object with one. -/
def eventName : Json ν → Option Text
  | .obj entries =>
    match (Json.obj entries).get (js "name") with
    | some (.str name) => if name = [] then none else some name
    | _ => none
  | .null | .bool _ | .num _ | .str _ | .arr _ => none

/-- A verdict, unless the dims of a name that is found on `Object.prototype` are spread. -/
def validate (orgId : Text) (raw : Json ν) (now : ℤ) : Except Failure (Except Code (Valid ν)) :=
  match eventName raw with
  | none => .ok (.error .bad_shape)
  | some name =>
    let registered := gw.event orgId name
    let check (own : List Text) := checkEvent gw now raw name (browserDims ++ registered.elim [] RegistryEvent.dims ++ own)
      (registered.any RegistryEvent.uniqueIneligible)
    match builtIn name with
    | some .inherited => .error (.typeError "builtIn is not iterable")
    | some (.dims own) => .ok (check own)
    | none => if registered.isNone then .ok (.error .unknown_event) else .ok (check [])

/-! ## The batch -/

def eventsPerMinute : ℕ := 1200
def maxBatch : ℕ := 100

def unavailable : Failure := .api 503 "unavailable" "Ingest is temporarily unavailable; retry" (some 5)

def valueText : Option ν → Text
  | none => js "0"
  | some x => gw.numberText x

/-- The record that is forwarded. Only an event of a browser has a visitor. -/
def record (key : IngestKey) (ctx : Context) (now : ℤ) (e : Valid ν) : Except Failure Record := do
  let attributes := [(js "upstat.kind", js "event"), (js "property_id", key.id), (js "name", e.name),
    (js "value", valueText gw e.value)] ++ e.dims.map fun (k, v) => (if k ∈ browserDims then k else js "dim." ++ k, v)
  if ctx.origin.any (· ≠ []) ∧ ¬e.ineligible then
    let salt ← gw.salt (gw.utcDay e.ts) now
    pure ⟨e.ts, attributes ++ [(js "visitor_hash", (gw.sha256 salt (key.id ++ ctx.ip ++ ctx.userAgent)).take 32)]⟩
  else pure ⟨e.ts, attributes⟩

/-- The loop over the events from the `i`th on. -/
def collect (key : IngestKey) (ctx : Context) (now : ℤ) (i : ℕ) : List (Json ν) → Except Failure (List Rejection × List Record)
  | [] => .ok ([], [])
  | raw :: raws => do
    match ← validate gw key.orgId raw now with
    | .error code =>
      let (rejections, records) ← collect key ctx now (i + 1) raws
      pure (⟨i, code⟩ :: rejections, records)
    | .ok e =>
      let r ← record gw key ctx now e
      let (rejections, records) ← collect key ctx now (i + 1) raws
      pure (rejections, r :: records)

def acceptBatch (key : IngestKey) (ctx : Context) (now : ℤ) (events : List (Json ν)) : Except Failure Accepted := do
  match ← gw.take (js "events:" ++ key.id) events.length now with
  | some retryAfter => .error (.api 429 "rate_limited" "This property is over its event rate" (some retryAfter))
  | none =>
    let (rejections, records) ← collect gw key ctx now 0 events
    if records ≠ [] ∧ ¬gw.logs key.orgId (js "upstat.events") records then .error unavailable
    else pure ⟨records.length, rejections.length, rejections⟩

def accept (key : IngestKey) (body : Json ν) (ctx : Context) (now : ℤ) : Except Failure Accepted :=
  match body.get (js "events") with
  | some (.arr events) =>
    if events = [] ∨ maxBatch < events.length then .error (.api 400 "bad_shape" "events is an array of 1-100" none)
    else acceptBatch gw key ctx now events
  | _ => .error (.api 400 "bad_shape" "events is an array of 1-100" none)

/-! ## What becomes of each event -/

/-- The services answer: the quota admits the batch, there are salts, and the collector takes what
it is sent. -/
structure Answers (key : IngestKey) (now : ℤ) (n : ℕ) : Prop where
  admits : gw.take (js "events:" ++ key.id) n now = .ok none
  salts : ∀ day, ∃ salt, gw.salt day now = .ok salt
  taken : ∀ records, gw.logs key.orgId (js "upstat.events") records = true

/-- The call returns, with a verdict on each event that is the event's own. -/
def EachByItself (key : IngestKey) (now : ℤ) (events : List (Json ν)) (answer : Except Failure Accepted) : Prop :=
  ∃ a, answer = .ok a ∧ a.accepted + a.rejected = events.length ∧ a.rejected = a.rejections.length ∧
    ∀ i code, ⟨i, code⟩ ∈ a.rejections ↔ ∃ raw, events[i]? = some raw ∧ validate gw key.orgId raw now = .ok (.error code)

/-- The event has the name of a member of `Object.prototype`. -/
def Inherits (raw : Json ν) : Prop := ∃ name ∈ objectMembers, eventName raw = some name

instance (raw : Json ν) : Decidable (Inherits raw) := inferInstanceAs (Decidable (∃ name ∈ objectMembers, _))

theorem builtIn_inherited {name : Text} : builtIn name = some .inherited ↔ name ∈ objectMembers := by
  unfold builtIn
  split_ifs with hview hvital herror hmember
  · subst hview
    exact iff_of_false (by decide) (by decide +kernel)
  · subst hvital
    exact iff_of_false (by decide) (by decide +kernel)
  · subst herror
    exact iff_of_false (by decide) (by decide +kernel)
  · exact iff_of_true rfl hmember
  · exact iff_of_false (by decide) hmember

/-- A lookup that finds an inherited member throws, and nothing else in the checks does. -/
theorem validate_throws_iff (orgId : Text) (raw : Json ν) (now : ℤ) :
    (∀ v, validate gw orgId raw now ≠ .ok v) ↔ Inherits raw := by
  unfold validate Inherits
  cases hname : eventName raw with
  | none => simp
  | some name =>
    have hmember : (∃ n ∈ objectMembers, some name = some n) ↔ builtIn name = some .inherited := by
      rw [builtIn_inherited]
      constructor
      · rintro ⟨n, hn, he⟩
        exact Option.some.inj he ▸ hn
      · exact fun h => ⟨name, h, rfl⟩
    rw [hmember]
    dsimp only
    cases hb : builtIn name with
    | none => cases hr : gw.event orgId name <;> simp
    | some b =>
      cases b with
      | dims own => simp
      | inherited => simp

theorem record_ok (key : IngestKey) (ctx : Context) {now : ℤ} (hsalts : ∀ day, ∃ salt, gw.salt day now = .ok salt) (e : Valid ν) :
    ∃ r, record gw key ctx now e = .ok r := by
  unfold record
  obtain ⟨salt, hsalt⟩ := hsalts (gw.utcDay e.ts)
  by_cases h : ctx.origin.any (· ≠ []) ∧ ¬e.ineligible
  · simp only [if_pos h, hsalt]
    exact ⟨_, rfl⟩
  · simp only [if_neg h]
    exact ⟨_, rfl⟩

/-- Without an event that throws the loop comes to its end, each event's verdict its own. -/
theorem collect_ok (key : IngestKey) (ctx : Context) {now : ℤ} (hsalts : ∀ day, ∃ salt, gw.salt day now = .ok salt)
    (raws : List (Json ν)) : ∀ i, (∀ raw ∈ raws, ¬Inherits raw) → ∃ rejections records,
      collect gw key ctx now i raws = .ok (rejections, records) ∧ records.length + rejections.length = raws.length ∧
      ∀ j code, ⟨j, code⟩ ∈ rejections ↔ ∃ k raw, j = i + k ∧ raws[k]? = some raw ∧ validate gw key.orgId raw now = .ok (.error code) := by
  induction raws with
  | nil => exact fun i _ => ⟨[], [], rfl, rfl, by simp⟩
  | cons raw raws ih =>
    intro i h
    obtain ⟨rejections, records, hrest, hlen, hmem⟩ := ih (i + 1) fun r hr => h r (List.mem_cons_of_mem raw hr)
    obtain ⟨v, hv⟩ : ∃ v, validate gw key.orgId raw now = .ok v := by
      by_contra hn
      exact h raw List.mem_cons_self ((validate_throws_iff gw key.orgId raw now).mp fun v hv => hn ⟨v, hv⟩)
    -- The verdicts on the later events, counted from this one.
    have hlater (j : ℕ) (code : Code) : (∃ k r, j = i + (k + 1) ∧ raws[k]? = some r ∧ validate gw key.orgId r now = .ok (.error code)) ↔
        ⟨j, code⟩ ∈ rejections := by
      rw [hmem]
      simp only [Nat.add_right_comm i 1, Nat.add_assoc i]
    have hsplit (j : ℕ) (code : Code) :
        (∃ k r, j = i + k ∧ (raw :: raws)[k]? = some r ∧ validate gw key.orgId r now = .ok (.error code)) ↔
          j = i ∧ v = .error code ∨ ⟨j, code⟩ ∈ rejections := by
      rw [← hlater]
      constructor
      · rintro ⟨k, r, rfl, hk, hr⟩
        cases k with
        | zero =>
          obtain rfl := Option.some.inj hk
          exact .inl ⟨rfl, Except.ok.inj (hv.symm.trans hr)⟩
        | succ k => exact .inr ⟨k, r, rfl, hk, hr⟩
      · rintro (⟨rfl, rfl⟩ | ⟨k, r, rfl, hk, hr⟩)
        · exact ⟨0, raw, rfl, rfl, hv⟩
        · exact ⟨k + 1, r, rfl, hk, hr⟩
    cases v with
    | error code =>
      refine ⟨⟨i, code⟩ :: rejections, records, ?_, by simp [← hlen]; omega, fun j code' => ?_⟩
      · simp only [collect, hv, hrest, bind, Except.bind, pure, Except.pure]
      · rw [hsplit, List.mem_cons]
        simp [eq_comm]
    | ok e =>
      obtain ⟨r, hr⟩ := record_ok gw key ctx hsalts e
      refine ⟨rejections, r :: records, ?_, by simp [← hlen]; omega, fun j code' => ?_⟩
      · simp only [collect, hv, hr, hrest, bind, Except.bind, pure, Except.pure]
      · rw [hsplit]
        simp

theorem collect_throws {key : IngestKey} {ctx : Context} {now : ℤ} {raws : List (Json ν)} : ∀ i, (∃ raw ∈ raws, Inherits raw) →
    ∀ r, collect gw key ctx now i raws ≠ .ok r := by
  induction raws with
  | nil => simp
  | cons raw raws ih =>
    rintro i ⟨x, hx, hi⟩ r hr
    rw [collect] at hr
    cases hv : validate gw key.orgId raw now with
    | error f => simp [hv, bind, Except.bind] at hr
    | ok v =>
      have hrest : ∃ raw ∈ raws, Inherits raw := by
        obtain rfl | hx := List.mem_cons.mp hx
        · exact absurd hv ((validate_throws_iff gw key.orgId x now).mpr hi v)
        · exact ⟨x, hx, hi⟩
      cases hc : collect gw key ctx now (i + 1) raws with
      | ok p => exact ih (i + 1) hrest p hc
      | error f =>
        cases v with
        | error code => simp [hv, hc, bind, Except.bind] at hr
        | ok e =>
          cases hrec : record gw key ctx now e <;> simp [hv, hc, hrec, bind, Except.bind] at hr

/-- A batch of one to a hundred events whose services answer gets each event's own verdict, and the
call returns, if and only if no event has the name of a member of `Object.prototype`. -/
theorem each_by_itself_iff {key : IngestKey} {ctx : Context} {now : ℤ} {body : Json ν} {events : List (Json ν)}
    (hbody : body.get (js "events") = some (.arr events)) (hne : events ≠ []) (hmax : events.length ≤ maxBatch)
    (ha : Answers gw key now events.length) :
    EachByItself gw key now events (accept gw key body ctx now) ↔ ∀ raw ∈ events, ¬Inherits raw := by
  have haccept : accept gw key body ctx now = acceptBatch gw key ctx now events := by
    simp [accept, hbody, hne, hmax]
  rw [haccept]
  constructor
  · rintro ⟨a, hans, -⟩ raw hraw hi
    simp only [acceptBatch, ha.admits, bind, Except.bind] at hans
    cases hc : collect gw key ctx now 0 events with
    | error f => simp [hc] at hans
    | ok p => exact collect_throws gw 0 ⟨raw, hraw, hi⟩ p hc
  · intro h
    obtain ⟨rejections, records, hc, hlen, hmem⟩ := collect_ok gw key ctx ha.salts events 0 h
    refine ⟨⟨records.length, rejections.length, rejections⟩, ?_, hlen, rfl, fun i code => ?_⟩
    · simp [acceptBatch, ha.admits, hc, ha.taken, bind, Except.bind, pure, Except.pure]
    · rw [hmem]
      simp

end

/-! ## Two batches -/

/-- A gateway whose services answer, with one event in its registry. -/
def answering : Gateway ℤ where
  dateParse _ := none
  isFinite _ := true
  numberText x := js (toString x)
  utcDay _ := js "1970-01-01"
  sha256 salt text := salt ++ text
  event _ name := if name = js "signup" then some ⟨[js "plan"], false⟩ else none
  take _ _ _ := .ok none
  salt _ _ := .ok (js "salt")
  logs _ _ _ := true

def named (name : String) (dims : List (String × String)) : Json ℤ :=
  .obj [(js "name", .str (js name)), (js "dims", .obj (dims.map fun (k, v) => (js k, .str (js v))))]

def batch (events : List (Json ℤ)) : Json ℤ := .obj [(js "events", .arr events)]

def property : IngestKey := ⟨js "key", js "org"⟩

def browser : Context := ⟨some (js "https://example.com"), js "10.0.0.1", js "agent"⟩

def mixed : List (Json ℤ) :=
  [named "page_view" [("path", "/")], named "logout" [], .num 7, named "signup" [("plan", "pro"), ("colour", "red")], named "signup" []]

theorem mixed_by_itself : EachByItself answering property 1000 mixed (accept answering property (batch mixed) browser 1000) :=
  (each_by_itself_iff answering (show (batch mixed).get (js "events") = some (.arr mixed) from rfl) (by decide) (by decide)
    ⟨rfl, fun _ => ⟨_, rfl⟩, fun _ => rfl⟩).mpr (by decide +kernel)

/-- Beside an event named `constructor` a page view is lost. -/
theorem constructor_fails_batch :
    let events := [named "page_view" [], named "constructor" []]
    accept answering property (batch events) browser 1000 = .error (.typeError "builtIn is not iterable") ∧
      ¬EachByItself answering property 1000 events (accept answering property (batch events) browser 1000) := by
  have h : accept answering property (batch [named "page_view" [], named "constructor" []]) browser 1000 =
      .error (.typeError "builtIn is not iterable") := rfl
  refine ⟨h, ?_⟩
  rintro ⟨a, ha, -⟩
  rw [h] at ha
  cases ha

end Upstat.EventBatches
