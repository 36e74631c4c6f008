import Upstat.EvaluationWindows
import Upstat.JsonTexts
import Upstat.SignInHandoffs
import Upstat.StateStores

/-! # Signing in with Google (`handler/auth.go`)

Logins and callbacks of any number of browsers and instances over one store of pending states, up
to the handoff that is redeemed later. Each comes to the store once. What is random, what Google
and the limiter say and the user who is found are inputs. -/
namespace Upstat.SignInStarts

open EvaluationWindows (trimSpace)
open StateStores

def ssoStateTTL : ℤ := 600 * 1000000000

def ssoDescriptionStartFailed := "Google sign-in could not be started. Please try again."
def ssoDescriptionRateLimited := "Too many sign-in attempts. Please wait and try again."
def ssoDescriptionExchangeFailed := "Google sign-in could not be completed. Please try again."
def ssoDescriptionAccessDenied := "Google sign-in was cancelled."
def ssoDescriptionMissingState := "Google sign-in state is missing. Please try again."
def ssoDescriptionInvalidState := "Google sign-in state is invalid. Please try again."
def ssoDescriptionExpiredState := "Google sign-in expired. Please try again."
def ssoDescriptionMissingCode := "Google did not return an authorization code. Please try again."

structure SsoStateRecord where
  codeVerifier : String := ""
  challenge : String := ""
  sourceHash : String := ""
  returnTo : String := ""
  deriving DecidableEq

/-- What the handlers ask of the configuration. -/
structure AuthConfig where
  googleConfigured : Bool
  isAllowedRedirectURL : String → Bool

def ssoStateKey (state : String) : String := "auth:sso:state:" ++ state

def urlTokenChar (c : Char) : Bool :=
  'A' ≤ c ∧ c ≤ 'Z' ∨ 'a' ≤ c ∧ c ≤ 'z' ∨ '0' ≤ c ∧ c ≤ '9' ∨ c = '-' ∨ c = '_'

def isValidURLToken (s : String) : Bool := s.utf8ByteSize = 43 ∧ s.toList.all urlTokenChar

/-- The challenge that is kept of a login. -/
def committed (cv : String) : String := if isValidURLToken cv then cv else ""

def safeOAuthError (providerCode : String) : String × String :=
  if providerCode = "access_denied" then ("access_denied", ssoDescriptionAccessDenied)
  else ("oauth_failed", ssoDescriptionExchangeFailed)

structure User where
  id : String
  email : String
  name : String
  deriving DecidableEq

structure GoogleIdentity where
  subject : String
  email : String
  name : String

inductive Reply where
  /-- `writeSSOStartError` -/
  | startError (status : ℕ) (code description : String)
  /-- The redirect to Google, with the state in the cookie. -/
  | started (state codeChallenge : String)
  /-- `redirectWithErrorTo` -/
  | failed (returnTo code description : String)
  /-- The redirect with the code for the body, and the other code in the cookie. -/
  | handed (returnTo : String) (user : User) (challenge bodyCode cookieCode : String)
  deriving DecidableEq

structure Answer where
  reply : Reply
  /-- The source and the state whose reservation is given back. -/
  released : Option (String × String) := none
  /-- The code and the verifier that Google is asked with. -/
  exchanged : Option (String × String) := none
  deriving DecidableEq

structure LoginRequest where
  returnTo : String
  cv : String
  /-- `requestSourceHash` -/
  sourceHash : String

structure LoginInput where
  state : Option String
  /-- `AllowSSOStart`, nothing if it fails. -/
  allowed : Option Bool
  codeVerifier : Option String
  made : ℤ
  now : ℤ
  fault : Option Bool := none

structure CallbackRequest where
  cookie : Option String
  state : String
  error : String
  code : String

structure CallbackInput where
  now : ℤ
  fault : Option Bool := none
  exchangeCode : String → String → Option GoogleIdentity
  /-- The user of an email before the creation of one, where nothing is an error and no user
  `ErrUserNotFound`. -/
  getUser : String → Option (Option User)
  createUser : String → String → Bool
  getUserAgain : String → Option (Option User)
  create : Option (String × String)

inductive Event where
  | login (req : LoginRequest) (inp : LoginInput)
  | callback (req : CallbackRequest) (inp : CallbackInput)

def resolveUser (inp : CallbackInput) (identity : GoogleIdentity) : Option User :=
  match inp.getUser identity.email with
  | none => none
  | some (some user) => some user
  | some none =>
    let name := if identity.name = "" then identity.email else identity.name
    if inp.createUser name identity.email then (inp.getUserAgain identity.email).join else none

section
variable (cfg : AuthConfig) (challengeS256 : String → String)

/-- A login up to its storing of the state, or how it ends before. -/
def startOf (req : LoginRequest) (inp : LoginInput) : Except Answer (String × SsoStateRecord) :=
  if ¬cfg.googleConfigured then .error { reply := .startError 503 "sso_config_invalid" ssoDescriptionStartFailed }
  else
    let returnTo := trimSpace req.returnTo
    if returnTo ≠ "" ∧ ¬cfg.isAllowedRedirectURL returnTo then
      .error { reply := .startError 400 "return_to_not_allowed" "return_to is not an allowed origin. Add its origin to CORS_ORIGINS." }
    else
      match inp.state, inp.allowed, inp.codeVerifier with
      | none, _, _ => .error { reply := .startError 500 "sso_start_failed" ssoDescriptionStartFailed }
      | some _, none, _ => .error { reply := .startError 503 "sso_unavailable" ssoDescriptionStartFailed }
      | some _, some false, _ => .error { reply := .startError 429 "rate_limited" ssoDescriptionRateLimited }
      | some state, some true, none =>
        .error { reply := .startError 500 "sso_start_failed" ssoDescriptionStartFailed, released := some (req.sourceHash, state) }
      | some state, some true, some codeVerifier => .ok (state, ⟨codeVerifier, committed req.cv, req.sourceHash, returnTo⟩)

/-- A callback that has looked for its state. -/
def callbackOf (req : CallbackRequest) (inp : CallbackInput) (found : Option SsoStateRecord) : Answer :=
  let record := found.getD {}
  let released := found.map fun record => (record.sourceHash, req.state)
  if req.error ≠ "" then
    { reply := .failed record.returnTo (safeOAuthError req.error).1 (safeOAuthError req.error).2, released }
  else if req.code = "" then { reply := .failed record.returnTo "missing_code" ssoDescriptionMissingCode, released }
  else if record.codeVerifier = "" then { reply := .failed "" "expired_state" ssoDescriptionExpiredState }
  else
    let exchanged := some (req.code, record.codeVerifier)
    let failed := { reply := .failed record.returnTo "sso_failed" ssoDescriptionExchangeFailed, released, exchanged }
    match inp.exchangeCode req.code record.codeVerifier with
    | none => failed
    | some identity =>
      match resolveUser inp identity, inp.create with
      | none, _ | some _, none => failed
      | some user, some (bodyCode, cookieCode) =>
        { reply := .handed record.returnTo user record.challenge bodyCode cookieCode, released, exchanged }

/-- The record that was taken. What is stored are records, so what is read is one. -/
def taken : Except Err (Option SsoStateRecord) → Option SsoStateRecord
  | .ok record => record
  | .error _ => none

variable {S : Type} (store : S → ℤ → Call SsoStateRecord → Except Err (Option SsoStateRecord) × S)

/-- `GoogleLogin` -/
def googleLogin (s : S) (req : LoginRequest) (inp : LoginInput) : Answer × S :=
  match startOf cfg req inp with
  | .error answer => (answer, s)
  | .ok (state, record) =>
    match withFault store inp.fault s inp.now (.set inp.made (ssoStateKey state) record ssoStateTTL) with
    | (.error _, s) =>
      ({ reply := .startError 503 "sso_unavailable" ssoDescriptionStartFailed, released := some (req.sourceHash, state) }, s)
    | (.ok _, s) => ({ reply := .started state (challengeS256 record.codeVerifier) }, s)

/-- `GoogleCallback` -/
def googleCallback (s : S) (req : CallbackRequest) (inp : CallbackInput) : Answer × S :=
  if req.cookie = none ∨ req.cookie = some "" then ({ reply := .failed "" "missing_state" ssoDescriptionMissingState }, s)
  else if req.state = "" ∨ req.cookie ≠ some req.state then
    ({ reply := .failed "" "invalid_state" ssoDescriptionInvalidState }, s)
  else
    let (found, s) := withFault store inp.fault s inp.now (.take (ssoStateKey req.state))
    (callbackOf req inp (taken found), s)

def handle (s : S) : Event → Answer × S
  | .login req inp => googleLogin cfg challengeS256 store s req inp
  | .callback req inp => googleCallback store s req inp

/-- What the requests leave in the store. -/
def leave (s : S) (es : List Event) : S := es.foldl (fun s e => (handle cfg challengeS256 store s e).2) s

/-- A login stores the state, or a callback takes it. -/
def Event.reaches (state : String) : Event → Prop
  | .login req inp => (∃ record, startOf cfg req inp = .ok (state, record)) ∧ inp.fault ≠ some false
  | .callback req inp => req.cookie = some state ∧ req.state = state ∧ state ≠ "" ∧ inp.fault ≠ some false

end

/-! ## The store -/

/-- Records are written and read back. -/
def Writes (j : Json SsoStateRecord) : Prop := ∀ record, ∃ b, j.marshal record = .ok b ∧ j.unmarshal b = .ok record

theorem ssoStateKey_inj {state other : String} : ssoStateKey state = ssoStateKey other ↔ state = other :=
  String.append_right_inj _

/-- What is known of a login that comes to store its state. -/
structure Starts (cfg : AuthConfig) (req : LoginRequest) (inp : LoginInput) (state : String) (record : SsoStateRecord) : Prop where
  state_eq : inp.state = some state
  allowed : inp.allowed = some true
  codeVerifier : inp.codeVerifier = some record.codeVerifier
  challenge : record.challenge = committed req.cv
  sourceHash : record.sourceHash = req.sourceHash
  returnTo : record.returnTo = trimSpace req.returnTo
  redirect : record.returnTo = "" ∨ cfg.isAllowedRedirectURL record.returnTo = true

section
variable {cfg : AuthConfig} {challengeS256 : String → String} {j : Json SsoStateRecord}
variable {m : ExpiringMaps.Entries String Bytes ℤ} {state : String}

theorem startOf_ok {req : LoginRequest} {inp : LoginInput} {record : SsoStateRecord} (h : startOf cfg req inp = .ok (state, record)) :
    Starts cfg req inp state record := by
  unfold startOf at h
  split_ifs at h with hconfigured
  simp only at h
  split_ifs at h with hreturn
  split at h <;> try cases h
  rename_i hallowed hverifier hstate
  refine ⟨hstate, hallowed, hverifier, rfl, rfl, rfl, ?_⟩
  by_contra hnot
  exact hreturn (not_or.mp hnot)

/-! ## What a request leaves -/

/-- The store after a call that may be lost. -/
theorem withFault_left (fault : Option Bool) (now : ℤ) (c : Call SsoStateRecord) :
    (withFault (call j) fault m now c).2 = if fault = some false then m else (call j m now c).2 := by
  rcases fault with - | - | - <;> rfl

theorem googleLogin_left (req : LoginRequest) (inp : LoginInput) :
    (googleLogin cfg challengeS256 (call j) m req inp).2 =
      match startOf cfg req inp with
      | .error _ => m
      | .ok (drawn, record) => (withFault (call j) inp.fault m inp.now (.set inp.made (ssoStateKey drawn) record ssoStateTTL)).2 := by
  simp only [googleLogin]
  rcases startOf cfg req inp with answer | ⟨drawn, record⟩
  · rfl
  · simp only
    split <;> rename_i heq <;> rw [heq]

/-- A callback whose cookie has its state. -/
theorem googleCallback_eq {req : CallbackRequest} (hcookie : req.cookie = some req.state) (hne : req.state ≠ "") (inp : CallbackInput) :
    googleCallback (call j) m req inp =
      (callbackOf req inp (taken (withFault (call j) inp.fault m inp.now (.take (ssoStateKey req.state))).1),
        (withFault (call j) inp.fault m inp.now (.take (ssoStateKey req.state))).2) := by
  simp [googleCallback, hcookie, hne]

theorem googleCallback_other {req : CallbackRequest} (h : ¬(req.cookie = some req.state ∧ req.state ≠ "")) (inp : CallbackInput) :
    ∃ code description, googleCallback (call j) m req inp = ({ reply := .failed "" code description }, m) := by
  simp only [googleCallback]
  split_ifs with hmissing hinvalid
  · exact ⟨_, _, rfl⟩
  · exact ⟨_, _, rfl⟩
  · rw [not_or, not_not] at hinvalid
    exact absurd ⟨hinvalid.2, hinvalid.1⟩ h

/-- A request that does not reach a state leaves it as it is. -/
theorem left_of_not_reaches {e : Event} (h : ¬e.reaches cfg state) :
    (handle cfg challengeS256 (call j) m e).2 (ssoStateKey state) = m (ssoStateKey state) := by
  cases e with
  | login req inp =>
    simp only [handle, googleLogin_left, withFault_left]
    rcases hstart : startOf cfg req inp with answer | ⟨drawn, record⟩
    · rfl
    · by_cases hfault : inp.fault = some false
      · simp [hfault]
      · have hne : ssoStateKey state ≠ ssoStateKey drawn := by
          rw [ne_eq, ssoStateKey_inj]
          rintro rfl
          exact h ⟨⟨record, hstart⟩, hfault⟩
        simp only [hfault, if_false, call]
        split
        · rfl
        · simp [ExpiringMaps.Entries.apply, ExpiringMaps.Entries.put, Function.update_of_ne hne]
  | callback req inp =>
    by_cases hown : req.cookie = some req.state ∧ req.state ≠ ""
    · simp only [handle, googleCallback_eq hown.1 hown.2, withFault_left]
      split_ifs with hfault
      · rfl
      · have hne : ssoStateKey state ≠ ssoStateKey req.state := by
          rw [ne_eq, ssoStateKey_inj]
          rintro rfl
          exact h ⟨hown.1, rfl, hown.2, hfault⟩
        simp [call, ExpiringMaps.Entries.apply, ExpiringMaps.Entries.erase, Function.update_of_ne hne]
    · obtain ⟨code, description, heq⟩ := googleCallback_other (j := j) (m := m) hown inp
      rw [handle, heq]

/-- A state that is in the store was stored by a login, and no request has reached it since. -/
theorem stored_of_left (hj : Writes j) {es : List Event} {entry : ExpiringMaps.Entry Bytes ℤ}
    (h : leave cfg challengeS256 (call j) (fun _ => none) es (ssoStateKey state) = some entry) :
    ∃ b1 req inp b2 record b, es = b1 ++ .login req inp :: b2 ∧ startOf cfg req inp = .ok (state, record) ∧ j.marshal record = .ok b ∧
      entry = entryOf b inp.made ssoStateTTL ∧ ∀ e ∈ b2, ¬e.reaches cfg state := by
  induction es using List.reverseRecOn with
  | nil => cases h
  | append_singleton es e ih =>
    rw [leave, List.foldl_append, List.foldl_cons, List.foldl_nil] at h
    by_cases hreaches : e.reaches cfg state
    · cases e with
      | login req inp =>
        obtain ⟨⟨record, hstart⟩, hfault⟩ := hreaches
        obtain ⟨b, hb, -⟩ := hj record
        refine ⟨es, req, inp, [], record, b, rfl, hstart, hb, ?_, by simp⟩
        simp only [handle, googleLogin_left, hstart, withFault_left, hfault, if_false, call, hb] at h
        simpa [ExpiringMaps.Entries.apply, ExpiringMaps.Entries.put] using h.symm
      | callback req inp =>
        obtain ⟨hcookie, rfl, hne, hfault⟩ := hreaches
        simp only [handle, googleCallback_eq hcookie hne, withFault_left, hfault, if_false, call] at h
        simp [ExpiringMaps.Entries.apply, ExpiringMaps.Entries.erase] at h
    · rw [left_of_not_reaches hreaches] at h
      obtain ⟨b1, req, inp, b2, record, b, rfl, hstart, hb, hentry, hrest⟩ := ih h
      refine ⟨b1, req, inp, b2 ++ [e], record, b, by simp, hstart, hb, hentry, fun e' he' => ?_⟩
      rcases List.mem_append.mp he' with hmem | hmem
      · exact hrest e' hmem
      · obtain rfl := List.mem_singleton.mp hmem
        exact hreaches

/-! ## What is handed over -/

/-- A handed answer comes of the record that was found. -/
theorem callbackOf_handed {req : CallbackRequest} {inp : CallbackInput} {found : Option SsoStateRecord} {returnTo : String} {user : User}
    {challenge bodyCode cookieCode : String} (h : (callbackOf req inp found).reply = .handed returnTo user challenge bodyCode cookieCode) :
    ∃ record, found = some record ∧ returnTo = record.returnTo ∧ challenge = record.challenge ∧
      (callbackOf req inp found).exchanged = some (req.code, record.codeVerifier) ∧
      (callbackOf req inp found).released = some (record.sourceHash, req.state) := by
  rcases found with - | record
  · simp only [callbackOf, Option.getD_none] at h
    split_ifs at h
  · refine ⟨record, rfl, ?_⟩
    simp only [callbackOf, Option.getD_some, Option.map_some] at h ⊢
    split_ifs at h ⊢
    split at h
    · cases h
    · split at h
      · cases h
      · cases h
      · obtain ⟨rfl, -, rfl, -, -⟩ := Reply.handed.inj h
        exact ⟨rfl, rfl, rfl, rfl⟩

/-- What is taken is a record that is stored. -/
theorem taken_some {fault : Option Bool} {now : ℤ} {key : String} {record : SsoStateRecord}
    (h : taken (withFault (call j) fault m now (.take key)).1 = some record) :
    ∃ entry, m key = some entry ∧ entry.live now = true ∧ j.unmarshal entry.value = .ok record := by
  rcases fault with - | reached
  · simp only [withFault, call, ExpiringMaps.Entries.apply, ExpiringMaps.Entries.lookup] at h
    rcases hentry : m key with - | entry
    · simp [hentry, decode, taken] at h
    · by_cases hlive : entry.live now
      · refine ⟨entry, rfl, hlive, ?_⟩
        rcases hread : j.unmarshal entry.value with cause | value
        · simp [hentry, Option.filter, hlive, decode, hread, taken] at h
        · simpa [hentry, Option.filter, hlive, decode, hread, taken] using h
      · simp [hentry, Option.filter, hlive, decode, taken] at h
  · simp [withFault, taken] at h

/-- A callback that hands over had its state in the cookie and in the query, stored by a login. -/
theorem handed_started (hj : Writes j) {before : List Event} {req : CallbackRequest} {inp : CallbackInput} {returnTo : String} {user : User}
    {challenge bodyCode cookieCode : String} {answer : Answer}
    (hanswer : (handle cfg challengeS256 (call j) (leave cfg challengeS256 (call j) (fun _ => none) before) (.callback req inp)).1 = answer)
    (h : answer.reply = .handed returnTo user challenge bodyCode cookieCode) :
    req.cookie = some req.state ∧ ∃ b1 lreq linp b2 record, before = b1 ++ .login lreq linp :: b2 ∧
      Starts cfg lreq linp req.state record ∧ inp.now ≤ linp.made + ssoStateTTL ∧ (∀ e ∈ b2, ¬e.reaches cfg req.state) ∧
      returnTo = record.returnTo ∧ challenge = record.challenge ∧ answer.exchanged = some (req.code, record.codeVerifier) ∧
      answer.released = some (record.sourceHash, req.state) := by
  subst hanswer
  by_cases hown : req.cookie = some req.state ∧ req.state ≠ ""
  · simp only [handle, googleCallback_eq hown.1 hown.2] at h ⊢
    obtain ⟨record, hfound, hreturn, hchallenge, hexchanged, hreleased⟩ := callbackOf_handed h
    obtain ⟨entry, hentry, hlive, hread⟩ := taken_some hfound
    obtain ⟨b1, lreq, linp, b2, stored, b, hbefore, hstart, hb, hentryOf, hrest⟩ := stored_of_left hj hentry
    obtain ⟨b', hb', hread'⟩ := hj stored
    obtain rfl := Except.ok.inj (hb.symm.trans hb')
    rw [hentryOf] at hlive hread
    obtain rfl := Except.ok.inj (hread'.symm.trans hread)
    have hnow : inp.now ≤ linp.made + ssoStateTTL := by simpa [ExpiringMaps.Entry.live, entryOf, ssoStateTTL] using hlive
    exact ⟨hown.1, b1, lreq, linp, b2, stored, hbefore, startOf_ok hstart, hnow, hrest, hreturn, hchallenge, hexchanged, hreleased⟩
  · obtain ⟨code, description, heq⟩ :=
      googleCallback_other (j := j) (m := leave cfg challengeS256 (call j) (fun _ => none) before) hown inp
    rw [handle, heq] at h
    cases h

theorem leave_of_not_reaches {es : List Event} (h : ∀ e ∈ es, ¬e.reaches cfg state) :
    leave cfg challengeS256 (call j) m es (ssoStateKey state) = m (ssoStateKey state) := by
  induction es generalizing m with
  | nil => rfl
  | cons e es ih =>
    obtain ⟨he, hes⟩ := List.forall_mem_cons.mp h
    exact (ih hes).trans (left_of_not_reaches he)

/-- The callback that comes in time finds the record of its login. -/
theorem callback_found (hj : Writes j) (b1 b2 : List Event) {lreq : LoginRequest} {linp : LoginInput} {req : CallbackRequest}
    {inp : CallbackInput} {record : SsoStateRecord} (hstart : startOf cfg lreq linp = .ok (req.state, record)) (hset : linp.fault = none)
    (hrest : ∀ e ∈ b2, ¬e.reaches cfg req.state) (hcookie : req.cookie = some req.state) (hne : req.state ≠ "") (htake : inp.fault = none)
    (hnow : inp.now ≤ linp.made + ssoStateTTL) :
    (handle cfg challengeS256 (call j) (leave cfg challengeS256 (call j) (fun _ => none) (b1 ++ .login lreq linp :: b2)) (.callback req inp)).1 =
      callbackOf req inp (some record) := by
  obtain ⟨b, hb, hread⟩ := hj record
  have hentry : leave cfg challengeS256 (call j) (fun _ => none) (b1 ++ .login lreq linp :: b2) (ssoStateKey req.state) =
      some (entryOf b linp.made ssoStateTTL) := by
    rw [leave, List.foldl_append, List.foldl_cons]
    refine (leave_of_not_reaches hrest).trans ?_
    simp [handle, googleLogin_left, hstart, hset, withFault, call, hb, ExpiringMaps.Entries.apply, ExpiringMaps.Entries.put]
  have hlive : (entryOf b linp.made ssoStateTTL).live inp.now = true := by
    simpa [ExpiringMaps.Entry.live, entryOf, ssoStateTTL] using hnow
  have hvalue : (entryOf b linp.made ssoStateTTL).value = b := rfl
  simp [handle, googleCallback_eq hcookie hne, htake, withFault, call, ExpiringMaps.Entries.apply, ExpiringMaps.Entries.lookup, hentry,
    Option.filter, hlive, hvalue, decode, hread, taken]

end

/-! ## In one process -/

section
open ExpiringMaps (Same)

variable {cfg : AuthConfig} {challengeS256 : String → String} {j : Json SsoStateRecord}

def Event.now : Event → ℤ
  | .login _ inp => inp.now
  | .callback _ inp => inp.now

/-- No answer is lost. -/
def Event.Sound : Event → Prop
  | .login _ inp => inp.fault = none
  | .callback _ inp => inp.fault = none

theorem handle_same {m : MemoryStore} {p : ExpiringMaps.Entries String Bytes ℤ} {e : Event} (hsound : e.Sound) (h : Same e.now m.entries p) :
    (handle cfg challengeS256 (fun m => MemoryStore.call j m) m e).1 = (handle cfg challengeS256 (call j) p e).1 ∧
      Same e.now (handle cfg challengeS256 (fun m => MemoryStore.call j m) m e).2.entries (handle cfg challengeS256 (call j) p e).2 := by
  cases e with
  | login req inp =>
    replace hsound : inp.fault = none := hsound
    simp only [handle, googleLogin, hsound, withFault]
    rcases startOf cfg req inp with answer | ⟨state, record⟩
    · exact ⟨rfl, h⟩
    · obtain ⟨hanswer, hleft⟩ := call_same (j := j) h (.set inp.made (ssoStateKey state) record ssoStateTTL)
      simp only [Event.now] at hleft
      rcases hmem : MemoryStore.call j m inp.now (.set inp.made (ssoStateKey state) record ssoStateTTL) with ⟨a | a, m'⟩ <;>
        rcases hshared : call j p inp.now (.set inp.made (ssoStateKey state) record ssoStateTTL) with ⟨b | b, p'⟩ <;>
        simp_all [Event.now]
  | callback req inp =>
    replace hsound : inp.fault = none := hsound
    simp only [handle, googleCallback, hsound, withFault]
    obtain ⟨hanswer, hleft⟩ := call_same (j := j) h (.take (ssoStateKey req.state))
    simp only [Event.now] at hanswer hleft
    split_ifs
    · exact ⟨rfl, h⟩
    · exact ⟨rfl, h⟩
    · exact ⟨by rw [hanswer], hleft⟩

theorem leave_same {es : List Event} {since later : ℤ} {m : MemoryStore} {p : ExpiringMaps.Entries String Bytes ℤ} (h : Same since m.entries p)
    (hle : since ≤ later) (hall : ∀ e ∈ es, e.Sound ∧ since ≤ e.now ∧ e.now ≤ later) (horder : (es.map Event.now).Pairwise (· ≤ ·)) :
    Same later (leave cfg challengeS256 (fun m => MemoryStore.call j m) m es).entries (leave cfg challengeS256 (call j) p es) := by
  induction es generalizing m p since with
  | nil => exact h.later hle
  | cons e es ih =>
    obtain ⟨hfirst, hrest⟩ := List.pairwise_cons.mp horder
    obtain ⟨hsound, hsince, hlater⟩ := hall e (by simp)
    refine ih (handle_same hsound (h.later hsince)).2 hlater (fun e' he' => ?_) hrest
    obtain ⟨hsound', -, hlater'⟩ := hall e' (by simp [he'])
    exact ⟨hsound', hfirst _ (List.mem_map_of_mem he'), hlater'⟩

/-- One instance may keep the states in its memory: its requests are answered as over a shared store. -/
theorem memory_handle {e₀ e : Event} {es : List Event} (hsound : ∀ e' ∈ e₀ :: es ++ [e], e'.Sound)
    (horder : ((e₀ :: es ++ [e]).map Event.now).Pairwise (· ≤ ·)) :
    (handle cfg challengeS256 (fun m => MemoryStore.call j m) (leave cfg challengeS256 (fun m => MemoryStore.call j m) .new (e₀ :: es)) e).1 =
      (handle cfg challengeS256 (call j) (leave cfg challengeS256 (call j) (fun _ => none) (e₀ :: es)) e).1 := by
  rw [List.map_append, List.pairwise_append] at horder
  obtain ⟨hbefore, -, hlast⟩ := horder
  have hlater : ∀ e' ∈ e₀ :: es, e'.now ≤ e.now := fun e' he' => hlast _ (List.mem_map_of_mem he') _ (by simp)
  have hempty : Same e₀.now MemoryStore.new.entries (fun _ => none) := fun _ _ _ => rfl
  refine (handle_same (hsound e (by simp)) (leave_same hempty (hlater e₀ (by simp)) (fun e' he' => ⟨?_, ?_, hlater e' he'⟩) hbefore)).1
  · exact hsound e' (List.mem_append_left _ he')
  · rcases List.mem_cons.mp he' with rfl | hrest
    · exact le_rfl
    · exact (List.pairwise_cons.mp hbefore).1 _ (List.mem_map_of_mem hrest)

end

/-! ## The code that is redeemed -/

section
open SignInHandoffs GuardedRuns

variable {σ : Type} (c : Crypto σ) (g : Grant)

/-- A call that is past its first check on the body channel has the verifier. -/
def Checked (call : SignInHandoffs.Call σ) : Prop :=
  match call.at_ with
  | .finding => True
  | .checking r => r.grant = g
  | .claiming _ _ _ | .findingAgain | .checkingAgain _ => call.channel = body → verifierMatchesChallenge c call.verifier g.challenge = true

structure Verified (s : State σ) : Prop where
  record : ∀ r ∈ s.record, r.grant = g
  calls : ∀ i, ∀ call ∈ s.calls i, Checked c g call
  done : ∀ d ∈ s.done, ∀ t, d.answer = .ok t → d.call.channel = body → verifierMatchesChallenge c d.call.verifier g.challenge = true

variable {c g} {s : State σ} {i : ℕ} {call : SignInHandoffs.Call σ}

theorem Verified.finish (hs : Verified c g s) {smooth : Bool} {answer : Except SignInHandoffs.Err String}
    (h : ∀ t, answer = .ok t → call.channel = body → verifierMatchesChallenge c call.verifier g.challenge = true) :
    Verified c g (s.finish i call smooth answer) where
  record := hs.record
  calls k x hx := by
    have hk : k ≠ i := by
      rintro rfl
      simp [State.finish] at hx
    exact hs.calls k x (by simpa [State.finish, hk] using hx)
  done d hd := by
    obtain rfl | hd := List.mem_cons.mp hd
    · exact h
    · exact hs.done d hd

theorem Verified.put (hs : Verified c g s) {p : Point σ} (h : Checked c g { call with at_ := p }) : Verified c g (s.put i call p) where
  record := hs.record
  calls k x hx := by
    by_cases hk : k = i
    · obtain rfl : { call with at_ := p } = x := by simpa [State.put, hk] using hx
      exact h
    · exact hs.calls k x (by simpa [State.put, hk] using hx)
  done := hs.done

/-- A step of a call passes the first check with the verifier only, and none is passed again. -/
theorem Verified.go (hs : Verified c g s) (hcall : s.calls i = some call) (inp : Input) : Verified c g (go c s i call inp) := by
  have hchecked := hs.calls i call hcall
  rcases hp : call.at_ with - | r | ⟨now, token, sealed⟩ | - | r <;> simp only [Checked, hp] at hchecked <;> simp only [SignInHandoffs.go, hp]
  · split_ifs
    · exact hs.finish (by simp)
    · split
      · exact hs.finish (by simp)
      · rename_i r hfind
        exact hs.put (hs.record r (find_some hfind).1)
  · have hverified (hver : ¬(call.channel = body ∧ verifierMatchesChallenge c call.verifier r.grant.challenge = false)) :
        call.channel = body → verifierMatchesChallenge c call.verifier g.challenge = true := fun hbody => by
      have := not_and.mp hver hbody
      rw [hchecked] at this
      simpa using this
    split_ifs with hexpired hver hsealed hchannel
    · exact hs.finish (by simp)
    · exact hs.finish (by simp)
    · exact hs.finish fun _ _ => hverified hver
    · exact hs.finish (by simp)
    · split
      · exact hs.finish (by simp)
      · exact hs.put (hverified hver)
  · have hclaimed {r : Handoff σ} (hfree : (s.record.filter fun r => r.channel = none) = some r) :
        Verified c g { s with record := some ⟨r.grant, some call.channel, some sealed, now + replayTTL⟩ } := by
      refine ⟨fun x hx => ?_, hs.calls, hs.done⟩
      obtain rfl := Option.some.inj hx
      exact hs.record r (Option.filter_eq_some_iff.mp hfree).1
    split_ifs with hfailed hlost
    · exact hs.finish (by simp)
    · split
      · rename_i r hfree
        exact (hclaimed hfree).finish (by simp)
      · exact hs.finish (by simp)
    · split
      · rename_i r hfree
        exact (hclaimed hfree).finish fun _ _ => hchecked
      · exact hs.put hchecked
  · split_ifs
    · exact hs.finish (by simp)
    · split
      · exact hs.finish (by simp)
      · exact hs.put hchecked
  · split_ifs
    · exact hs.finish (by simp)
    · exact hs.finish fun _ _ => hchecked

theorem Verified.step (hs : Verified c g s) (e : SignInHandoffs.Event) : Verified c g (step c s e) := by
  cases e with
  | make k channel code verifier =>
    simp only [SignInHandoffs.step]
    split_ifs
    · exact hs
    · exact hs.finish (by simp)
    · exact hs.put trivial
  | go k inp =>
    rcases hcall : s.calls k with - | call
    · simpa [SignInHandoffs.step, hcall] using hs
    · simpa [SignInHandoffs.step, hcall] using hs.go hcall inp
  | drop k =>
    refine ⟨hs.record, fun l x hx => hs.calls l x ?_, hs.done⟩
    have hl : l ≠ k := by
      rintro rfl
      simp [SignInHandoffs.step] at hx
    simpa [SignInHandoffs.step, hl] using hx
  | tick d => exact ⟨hs.record, hs.calls, hs.done⟩
  | prune => exact ⟨fun r hr => hs.record r (Option.filter_eq_some_iff.mp hr).1, hs.calls, hs.done⟩

/-- Whoever has a token on the body channel has the verifier, whatever the clock and the store do. -/
theorem verified_run (hs : Verified c g s) (es : List SignInHandoffs.Event) : Verified c g (run (SignInHandoffs.step c) s es) := by
  induction es generalizing s with
  | nil => exact hs
  | cons e es ih => exact ih (hs.step e)

theorem verified_created (now : ℤ) : Verified c g (created g now) where
  record r hr := by
    obtain rfl := Option.some.inj hr
    rfl
  calls i x hx := by simp [created] at hx
  done d hd := by simp [created] at hd

theorem committed_matches {verifier cv : String} (h : verifierMatchesChallenge c verifier (committed cv) = true) :
    isValidURLToken cv = true ∧ c.challengeS256 verifier = cv := by
  simp only [verifierMatchesChallenge, committed] at h
  split_ifs at h with hvalid
  · exact ⟨hvalid, (by simpa using h : _ ∧ _ ∧ _).2.2⟩
  · simp at h

end

section
open SignInHandoffs (Crypto Grant created)

/-- A code is handed to the browser that carries the state of a login within ten minutes, which no
other request has used since, and is sent where this login was allowed to have it sent. On the body
channel it is a token only for who knows the verifier of this login's challenge. -/
theorem token_of_login {σ : Type} (cfg : AuthConfig) (c : Crypto σ) {j : Json SsoStateRecord} (hj : Writes j) {before : List Event}
    {req : CallbackRequest} {inp : CallbackInput} {returnTo : String} {user : User} {challenge bodyCode cookieCode : String}
    (h : (handle cfg c.challengeS256 (call j) (leave cfg c.challengeS256 (call j) (fun _ => none) before) (.callback req inp)).1.reply =
      .handed returnTo user challenge bodyCode cookieCode) :
    req.cookie = some req.state ∧ ∃ b1 lreq linp b2, before = b1 ++ .login lreq linp :: b2 ∧ linp.state = some req.state ∧
      linp.allowed = some true ∧ inp.now ≤ linp.made + ssoStateTTL ∧ (∀ e ∈ b2, ¬e.reaches cfg req.state) ∧
      returnTo = trimSpace lreq.returnTo ∧ (returnTo = "" ∨ cfg.isAllowedRedirectURL returnTo = true) ∧
      ∀ (g : Grant) (now : ℤ) (es : List SignInHandoffs.Event), g.challenge = challenge →
        ∀ d ∈ (GuardedRuns.run (SignInHandoffs.step c) (created g now) es).done, d.call.channel = SignInHandoffs.body → ∀ t, d.answer = .ok t →
          isValidURLToken lreq.cv = true ∧ c.challengeS256 d.call.verifier = lreq.cv := by
  obtain ⟨hcookie, b1, lreq, linp, b2, record, hbefore, hstart, hnow, hrest, hreturn, hchallenge, -, -⟩ := handed_started hj rfl h
  refine ⟨hcookie, b1, lreq, linp, b2, hbefore, hstart.state_eq, hstart.allowed, hnow, hrest, ?_, ?_, ?_⟩
  · rw [hreturn, hstart.returnTo]
  · rw [hreturn]
    exact hstart.redirect
  · intro g now es hg d hd hbody t ht
    have hverified := (verified_run (c := c) (verified_created (g := g) now) es).done d hd t ht hbody
    rw [hg, hchallenge, hstart.challenge] at hverified
    exact committed_matches hverified

end

/-! ## A sign-in -/

/-- A member of an object of texts, and what follows it. -/
def field (label text : String) (rest : List Char) : List Char := label.toList ++ (text.toList.flatMap JsonTexts.escaped ++ '"' :: rest)

def readField (label : String) (s : List Char) : Option (String × List Char) :=
  if label.toList <+: s then (JsonTexts.readString (s.drop label.toList.length)).map fun read => (String.ofList read.1, read.2) else none

theorem readField_field (label text : String) (rest : List Char) : readField label (field label text rest) = some (text, rest) := by
  simp [readField, field, JsonTexts.readString_flatMap]

theorem fromUTF8_toUTF8 (s : String) : String.fromUTF8? s.toUTF8 = some s := by
  have hvalid : s.toUTF8.IsValidUTF8 := s.isValidUTF8
  rw [String.fromUTF8?, dif_pos hvalid]
  rfl

def recordJson : Json SsoStateRecord where
  marshal record := .ok (String.ofList (field "\x7b\"code_verifier\":\"" record.codeVerifier (field ",\"challenge\":\"" record.challenge
    (field ",\"source_hash\":\"" record.sourceHash (field ",\"return_to\":\"" record.returnTo ['}']))))).toUTF8
  unmarshal b :=
    let record : Option SsoStateRecord := do
      let s ← String.fromUTF8? b
      let (codeVerifier, s) ← readField "\x7b\"code_verifier\":\"" s.toList
      let (challenge, s) ← readField ",\"challenge\":\"" s
      let (sourceHash, s) ← readField ",\"source_hash\":\"" s
      let (returnTo, s) ← readField ",\"return_to\":\"" s
      if s = ['}'] then some ⟨codeVerifier, challenge, sourceHash, returnTo⟩ else none
    record.elim (.error "unexpected end of JSON input") .ok

theorem writes_recordJson : Writes recordJson := by
  intro record
  refine ⟨_, rfl, ?_⟩
  simp only [recordJson, fromUTF8_toUTF8, String.toList_ofList, Option.bind_eq_bind, Option.bind_some, readField_field, if_true,
    Option.elim_some]

def someConfig : AuthConfig := ⟨true, fun url => url = "http://localhost:3000"⟩

def someLogin : LoginRequest := ⟨" http://localhost:3000", "E9Melhoa2OwvFrEMTJguCHaoeK1t8URWbuGJSstw-cM", "c5"⟩

def someDraw : LoginInput := { state := some "0f", allowed := some true, codeVerifier := some "verifier", made := 0, now := 1 }

def someCallback : CallbackRequest := ⟨some "0f", "0f", "", "4/code"⟩

def ada : User := ⟨"1", "ada@example.com", "Ada"⟩

def someReturn : CallbackInput where
  now := 9000000000
  exchangeCode _ _ := some ⟨"42", ada.email, ada.name⟩
  getUser _ := some (some ada)
  createUser _ _ := false
  getUserAgain _ := none
  create := some ("body", "jar")

theorem someReturn_handed :
    (handle someConfig SignInHandoffs.plain.challengeS256 (call recordJson)
      (leave someConfig SignInHandoffs.plain.challengeS256 (call recordJson) (fun _ => none) [.login someLogin someDraw])
      (.callback someCallback someReturn)).1.reply =
      .handed "http://localhost:3000" ada someLogin.cv "body" "jar" := by
  have hstart : startOf someConfig someLogin someDraw = .ok ("0f", ⟨"verifier", someLogin.cv, "c5", "http://localhost:3000"⟩) := by
    decide +kernel
  have hcookie : someCallback.cookie = some someCallback.state := rfl
  have hfault : someReturn.fault = none := rfl
  refine congrArg Answer.reply (callback_found writes_recordJson [] [] hstart rfl ?_ hcookie ?_ hfault ?_)
  · simp
  · decide
  · decide

theorem someReturn_of_login : someCallback.cookie = some "0f" ∧ ∃ b1 req inp b2, [Event.login someLogin someDraw] = b1 ++ .login req inp :: b2 ∧
    inp.state = some "0f" ∧ someReturn.now ≤ inp.made + ssoStateTTL := by
  obtain ⟨hcookie, b1, req, inp, b2, hbefore, hstate, -, hnow, -⟩ :=
    token_of_login someConfig SignInHandoffs.plain writes_recordJson someReturn_handed
  exact ⟨hcookie, b1, req, inp, b2, hbefore, hstate, hnow⟩

end Upstat.SignInStarts
