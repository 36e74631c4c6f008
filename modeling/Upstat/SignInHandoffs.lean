import Mathlib.Algebra.Order.Ring.Int
import Mathlib.Data.Option.Basic
import Mathlib.Logic.Function.Basic
import Upstat.GuardedRuns

/-! # Redeeming a sign-in code (`auth/handoff.go`, `repository/accounts.go`)

Calls of `Redeem` for one grant, each one database step or look at the clock at a time. Times are
seconds of one clock that does not go back. -/
namespace Upstat.SignInHandoffs

open GuardedRuns

def body : String := "body"
def cookie : String := "cookie"

def handoffTTL : ℤ := 300
def replayTTL : ℤ := 60

/-- The hashes, and the sealing of a token under a channel and a code's hash, as sealed texts of
some type, none of which is empty. What is sealed opens again. -/
structure Crypto (σ : Type) where
  hashCode : String → String
  challengeS256 : String → String
  sealToken : List UInt8 → String → String → String → σ
  openToken : String → String → σ → Option String
  open_seal (nonce : List UInt8) (channel codeHash token : String) :
    openToken channel codeHash (sealToken nonce channel codeHash token) = some token

/-- What stays as it is of a record. -/
structure Grant where
  bodyCodeHash : String
  cookieCodeHash : String
  userId : String
  email : String
  name : String
  challenge : String
  deriving DecidableEq

structure Handoff (σ : Type) where
  grant : Grant
  channel : Option String
  tokenCiphertext : Option σ
  expiresAt : ℤ
  deriving DecidableEq

def Grant.codeHash (g : Grant) (channel : String) : String := if channel = cookie then g.cookieCodeHash else g.bodyCodeHash

inductive Err where
  | handoffInvalid
  /-- An error of the store or the issuer. -/
  | other
  deriving DecidableEq

/-- Where a call has come to, with what it has read or made. -/
inductive Point (σ : Type) where
  | finding
  | checking (rec : Handoff σ)
  | claiming (now : ℤ) (token : String) (sealed : σ)
  | findingAgain
  | checkingAgain (rec : Handoff σ)
  deriving DecidableEq

def Point.isClaiming {σ : Type} : Point σ → Bool
  | .claiming _ _ _ => true
  | .finding | .checking _ | .findingAgain | .checkingAgain _ => false

/-- A call, with when it was made and the record there was then. -/
structure Call (σ : Type) where
  channel : String
  code : String
  verifier : String
  made : ℤ
  found : Option (Handoff σ)
  at_ : Point σ
  deriving DecidableEq

/-- A call that has returned. It ran smoothly if the store did all it was asked to. -/
structure Done (σ : Type) where
  call : Call σ
  smooth : Bool
  ended : ℤ
  answer : Except Err String

structure State (σ : Type) where
  clock : ℤ
  record : Option (Handoff σ)
  calls : ℕ → Option (Call σ)
  done : List (Done σ)

/-- What a step meets with: the store's failure, before or after it has done what it was asked to,
the issuer's token and the nonce. -/
structure Input where
  failed : Bool := false
  lost : Bool := false
  issued : Option String := none
  nonce : List UInt8 := []

inductive Event where
  | make (i : ℕ) (channel code verifier : String)
  | go (i : ℕ) (inp : Input)
  /-- The call is cut off and answers nobody. -/
  | drop (i : ℕ)
  | tick (d : ℕ)
  /-- `PruneHandoffs` -/
  | prune

section
variable {σ : Type} (c : Crypto σ)

def verifierMatchesChallenge (verifier challenge : String) : Bool :=
  verifier ≠ "" ∧ challenge ≠ "" ∧ c.challengeS256 verifier = challenge

/-- `FindByCodeHash` -/
def find (s : State σ) (channel codeHash : String) : Option (Handoff σ) :=
  s.record.filter fun r => r.grant.codeHash channel = codeHash ∧ s.clock < r.expiresAt

def replay (r : Handoff σ) (channel codeHash : String) : Except Err String :=
  if r.channel ≠ some channel then .error .handoffInvalid
  else
    match r.tokenCiphertext.bind (c.openToken channel codeHash) with
    | some token => .ok token
    | none => .error .handoffInvalid

def State.put (s : State σ) (i : ℕ) (call : Call σ) (p : Point σ) : State σ :=
  { s with calls := Function.update s.calls i (some { call with at_ := p }) }

def State.finish (s : State σ) (i : ℕ) (call : Call σ) (smooth : Bool) (answer : Except Err String) : State σ :=
  { s with calls := Function.update s.calls i none, done := ⟨call, smooth, s.clock, answer⟩ :: s.done }

/-- The next step of `Redeem`. -/
def go (s : State σ) (i : ℕ) (call : Call σ) (inp : Input) : State σ :=
  let codeHash := c.hashCode call.code
  match call.at_ with
  | .finding =>
    if inp.failed then s.finish i call false (.error .handoffInvalid)
    else
      match find s call.channel codeHash with
      | none => s.finish i call true (.error .handoffInvalid)
      | some r => s.put i call (.checking r)
  | .checking r =>
    if r.expiresAt ≤ s.clock then s.finish i call true (.error .handoffInvalid)
    else if call.channel = body ∧ verifierMatchesChallenge c call.verifier r.grant.challenge = false then
      s.finish i call true (.error .handoffInvalid)
    else if r.tokenCiphertext ≠ none then s.finish i call true (replay c r call.channel codeHash)
    else if r.channel ≠ none then s.finish i call true (.error .handoffInvalid)
    else
      match inp.issued with
      | none => s.finish i call false (.error .other)
      | some token => s.put i call (.claiming s.clock token (c.sealToken inp.nonce call.channel codeHash token))
  | .claiming now token sealed =>
    if inp.failed then s.finish i call false (.error .other)
    else
      match s.record.filter fun r => r.channel = none with
      | some r =>
        let s' := { s with record := some { r with channel := some call.channel, tokenCiphertext := some sealed, expiresAt := now + replayTTL } }
        if inp.lost then s'.finish i call false (.error .other) else s'.finish i call true (.ok token)
      | none => if inp.lost then s.finish i call false (.error .other) else s.put i call .findingAgain
  | .findingAgain =>
    if inp.failed then s.finish i call false (.error .handoffInvalid)
    else
      match find s call.channel codeHash with
      | none => s.finish i call true (.error .handoffInvalid)
      | some r => s.put i call (.checkingAgain r)
  | .checkingAgain r =>
    if r.tokenCiphertext = none ∨ r.expiresAt ≤ s.clock then s.finish i call true (.error .handoffInvalid)
    else s.finish i call true (replay c r call.channel codeHash)

def step (s : State σ) : Event → State σ
  | .make i channel code verifier =>
    let call : Call σ := ⟨channel, code, verifier, s.clock, s.record, .finding⟩
    if s.calls i ≠ none then s
    else if channel ≠ body ∧ channel ≠ cookie then s.finish i call true (.error .handoffInvalid)
    else s.put i call .finding
  | .go i inp => (s.calls i).elim s fun call => go c s i call inp
  | .drop i => { s with calls := Function.update s.calls i none }
  | .tick d => { s with clock := s.clock + d }
  | .prune => { s with record := s.record.filter fun r => ¬r.expiresAt < s.clock - 3600 }

/-- The state after `Create`. -/
def created (g : Grant) (now : ℤ) : State σ where
  clock := now
  record := some ⟨g, none, none, now + handoffTTL⟩
  calls := fun _ => none
  done := []

/-! ## What is to hold -/

/-- The code has expired, or is gone. -/
def Expired (r : Option (Handoff σ)) (now : ℤ) : Prop := ∀ h ∈ r, h.expiresAt ≤ now

/-- The call was made on the channel that had already won, with its code and on the body channel
the verifier, and nothing of the store failed it before the record expired. -/
def Repeats (g : Grant) (d : Done σ) : Prop :=
  d.smooth = true ∧ (d.call.channel = body → verifierMatchesChallenge c d.call.verifier g.challenge = true) ∧
    g.codeHash d.call.channel = c.hashCode d.call.code ∧
    ∃ r ∈ d.call.found, r.channel = some d.call.channel ∧ d.ended < r.expiresAt

structure Fair (g : Grant) (s : State σ) : Prop where
  single : ∀ a ∈ s.done, ∀ b ∈ s.done, ∀ t u, a.answer = .ok t → b.answer = .ok u → t = u ∧ a.call.channel = b.call.channel
  replayed : ∀ a ∈ s.done, Repeats c g a → ∃ t, a.answer = .ok t
  expired : ∀ a ∈ s.done, Expired a.call.found a.call.made → ∀ t, a.answer ≠ .ok t
  verified : ∀ a ∈ s.done, a.call.channel = body → ∀ t, a.answer = .ok t → verifierMatchesChallenge c a.call.verifier g.challenge = true

/-- A claim of the record comes before the record expires. -/
def ClaimInTime (s : State σ) : Event → Prop
  | .go i _ => ∀ call ∈ s.calls i, call.at_.isClaiming = true → ∀ r ∈ s.record, r.channel = none → s.clock < r.expiresAt
  | .make _ _ _ _ | .drop _ | .tick _ | .prune => True

instance {σ : Type} (s : State σ) : (e : Event) → Decidable (ClaimInTime s e)
  | .go i _ => inferInstanceAs
      (Decidable (∀ call ∈ s.calls i, call.at_.isClaiming = true → ∀ r ∈ s.record, r.channel = none → s.clock < r.expiresAt))
  | .make _ _ _ _ | .drop _ | .tick _ | .prune => isTrue trivial

end

/-! ## What is known of a call -/

section
variable {σ : Type} (c : Crypto σ) (g : Grant) (won : Option (String × String))

/-- The record as it may be read, where `won` is the channel that has claimed it, if one has, and
its token: as it was created, or as it was claimed. -/
def Read (r : Handoff σ) : Prop :=
  r.grant = g ∧ (r.channel = none ∧ r.tokenCiphertext = none ∨
    ∃ channel token nonce, (channel = body ∨ channel = cookie) ∧ won = some (channel, token) ∧ r.channel = some channel ∧
      r.tokenCiphertext = some (c.sealToken nonce channel (g.codeHash channel) token))

/-- The verifier is the challenge's, where one is needed, and the code the channel's. -/
def Entitled (call : Call σ) : Prop :=
  (call.channel = body → verifierMatchesChallenge c call.verifier g.challenge = true) ∧
    g.codeHash call.channel = c.hashCode call.code

/-- What the call has read and made sure of where it has come to. -/
def AtPoint (call : Call σ) : Point σ → Prop
  | .finding => True
  | .checking r => Read c g won r ∧ g.codeHash call.channel = c.hashCode call.code
  | .claiming _ token sealed => Entitled c g call ∧ ∃ nonce, sealed = c.sealToken nonce call.channel (g.codeHash call.channel) token
  | .findingAgain => Entitled c g call
  | .checkingAgain r => Read c g won r ∧ Entitled c g call

/-- A call that was made when the record had expired or was claimed has seen no other record. -/
structure Seen (record : Option (Handoff σ)) (clock : ℤ) (call : Call σ) : Prop where
  expired : Expired call.found call.made → call.at_ = .finding ∧ Expired record clock
  claimed : ∀ r ∈ call.found, r.channel ≠ none →
    call.at_ = .finding ∧ (record = some r ∨ record = none ∧ r.expiresAt ≤ clock) ∨ call.at_ = .checking r

structure Settled (a : Done σ) : Prop where
  won : ∀ t, a.answer = .ok t → won = some (a.call.channel, t)
  replayed : Repeats c g a → ∃ t, a.answer = .ok t
  expired : Expired a.call.found a.call.made → ∀ t, a.answer ≠ .ok t
  verified : a.call.channel = body → ∀ t, a.answer = .ok t → verifierMatchesChallenge c a.call.verifier g.challenge = true

structure Inv (s : State σ) : Prop where
  record : ∀ r ∈ s.record, Read c g won r ∧ (r.channel = none → won = none)
  calls : ∀ i, ∀ call ∈ s.calls i, AtPoint c g won call call.at_ ∧ Seen s.record s.clock call
  found : ∀ i, ∀ call ∈ s.calls i, (call.channel = body ∨ call.channel = cookie) ∧ ∀ r ∈ call.found, Read c g won r
  done : ∀ a ∈ s.done, Settled c g won a

variable {c : Crypto σ} {g : Grant} {won won' : Option (String × String)} {s : State σ} {i : ℕ} {call : Call σ}

theorem Read.mono {r : Handoff σ} (h : Read c g won r) (hw : ∀ x, won = some x → won' = some x) : Read c g won' r :=
  ⟨h.1, h.2.imp_right fun ⟨channel, token, nonce, hch, hwon, hr⟩ => ⟨channel, token, nonce, hch, hw _ hwon, hr⟩⟩

theorem AtPoint.mono {p : Point σ} (h : AtPoint c g won call p) (hw : ∀ x, won = some x → won' = some x) : AtPoint c g won' call p := by
  cases p with
  | finding | claiming _ _ _ | findingAgain => exact h
  | checking r | checkingAgain r => exact ⟨h.1.mono hw, h.2⟩

theorem Settled.mono {a : Done σ} (h : Settled c g won a) (hw : ∀ x, won = some x → won' = some x) : Settled c g won' a :=
  { h with won := fun t ht => hw _ (h.won t ht) }

/-- A record that is claimed opens for its channel, to the token that won. -/
theorem Read.replay_claimed {r : Handoff σ} (h : Read c g won r) {channel codeHash : String} (hc : r.channel = some channel)
    (hh : g.codeHash channel = codeHash) : ∃ t, replay c r channel codeHash = .ok t ∧ won = some (channel, t) := by
  obtain ⟨-, ⟨hnone, -⟩ | ⟨channel', token, nonce, -, hwon, hr, hsealed⟩⟩ := h
  · rw [hnone] at hc
    cases hc
  · obtain rfl : channel' = channel := Option.some.inj (hr.symm.trans hc)
    refine ⟨token, ?_, hwon⟩
    rw [replay, if_neg (not_not.mpr hc), hsealed, hh, Option.bind_some, c.open_seal]

theorem Read.replay_ok {r : Handoff σ} (h : Read c g won r) {channel codeHash t : String} (hh : g.codeHash channel = codeHash)
    (hr : replay c r channel codeHash = .ok t) : won = some (channel, t) := by
  by_cases hc : r.channel = some channel
  · obtain ⟨t', ht', hwon⟩ := h.replay_claimed hc hh
    obtain rfl := Except.ok.inj (ht'.symm.trans hr)
    exact hwon
  · rw [replay, if_pos hc] at hr
    cases hr

theorem Read.claimed_iff {r : Handoff σ} (h : Read c g won r) : r.tokenCiphertext ≠ none ↔ r.channel ≠ none := by
  obtain ⟨-, ⟨hnone, hempty⟩ | ⟨channel, token, nonce, -, -, hr, hsealed⟩⟩ := h
  · simp [hnone, hempty]
  · simp [hr, hsealed]

/-! ## How calls end -/

theorem Settled.error {smooth : Bool} {e : Err} (h : ¬Repeats c g ⟨call, smooth, s.clock, .error e⟩) :
    Settled c g won ⟨call, smooth, s.clock, .error e⟩ where
  won t ht := by cases ht
  replayed hr := absurd hr h
  expired _ t ht := by cases ht
  verified _ t ht := by cases ht

theorem Settled.ok {smooth : Bool} {t : String} (hseen : Seen s.record s.clock call) (hp : call.at_ ≠ .finding) (hwon : won = some (call.channel, t))
    (hv : call.channel = body → verifierMatchesChallenge c call.verifier g.challenge = true) :
    Settled c g won ⟨call, smooth, s.clock, .ok t⟩ where
  won u hu := by
    obtain rfl := Except.ok.inj hu
    exact hwon
  replayed _ := ⟨t, rfl⟩
  expired he := absurd (hseen.expired he).1 hp
  verified hb _ _ := hv hb

theorem not_repeats_failed {e : Err} : ¬Repeats c g ⟨call, false, s.clock, .error e⟩ := fun h => by simp [Repeats] at h

/-- A call that has gone past the first check found no claimed record when it was made. -/
theorem Seen.not_repeats (h : Seen s.record s.clock call) (hf : call.at_ ≠ .finding) (hc : ∀ r, call.at_ ≠ .checking r) {smooth : Bool}
    {answer : Except Err String} : ¬Repeats c g ⟨call, smooth, s.clock, answer⟩ := by
  rintro ⟨-, -, -, r, hr, hclaimed, -⟩
  obtain ⟨hp, -⟩ | hp := h.claimed r hr (by simp [hclaimed])
  · exact hf hp
  · exact hc r hp

theorem Inv.finish (hi : Inv c g won s) {smooth : Bool} {answer : Except Err String}
    (h : Settled c g won ⟨call, smooth, s.clock, answer⟩) : Inv c g won (s.finish i call smooth answer) where
  record := hi.record
  calls j x hx := by
    have hj : j ≠ i := by
      rintro rfl
      simp [State.finish] at hx
    exact hi.calls j x (by simpa [State.finish, hj] using hx)
  found j x hx := by
    have hj : j ≠ i := by
      rintro rfl
      simp [State.finish] at hx
    exact hi.found j x (by simpa [State.finish, hj] using hx)
  done a ha := by
    obtain rfl | ha := List.mem_cons.mp ha
    · exact h
    · exact hi.done a ha

theorem Inv.put (hi : Inv c g won s) {p : Point σ} (hp : AtPoint c g won call p) (hseen : Seen s.record s.clock { call with at_ := p })
    (hfound : (call.channel = body ∨ call.channel = cookie) ∧ ∀ r ∈ call.found, Read c g won r) : Inv c g won (s.put i call p) where
  record := hi.record
  calls j x hx := by
    by_cases hj : j = i
    · obtain rfl : { call with at_ := p } = x := by simpa [State.put, hj] using hx
      refine ⟨?_, hseen⟩
      cases p <;> exact hp
    · exact hi.calls j x (by simpa [State.put, hj] using hx)
  found j x hx := by
    by_cases hj : j = i
    · obtain rfl : { call with at_ := p } = x := by simpa [State.put, hj] using hx
      exact hfound
    · exact hi.found j x (by simpa [State.put, hj] using hx)
  done := hi.done

/-- A call that goes on past its first read, or from its first check, found the record neither
expired nor claimed. -/
theorem Seen.past (h : Seen s.record s.clock call) (hf : call.at_ ≠ .finding) (hc : ∀ r ∈ call.found, r.channel ≠ none → call.at_ ≠ .checking r)
    (p : Point σ) : Seen s.record s.clock { call with at_ := p } where
  expired he := absurd (h.expired he).1 hf
  claimed r hr hn := by
    obtain ⟨hp, -⟩ | hp := h.claimed r hr hn
    · exact absurd hp hf
    · exact absurd hp (hc r hr hn)

theorem find_some {channel codeHash : String} {r : Handoff σ} (h : find s channel codeHash = some r) :
    s.record = some r ∧ r.grant.codeHash channel = codeHash ∧ s.clock < r.expiresAt := by
  obtain ⟨hr, hp⟩ := Option.filter_eq_some_iff.mp h
  exact ⟨hr, by simpa using hp⟩

theorem Inv.finding (hi : Inv c g won s) (hcall : s.calls i = some call) (hp : call.at_ = .finding) (inp : Input) :
    Inv c g won (go c s i call inp) := by
  obtain ⟨-, hseen⟩ := hi.calls i call hcall
  simp only [go, hp]
  split_ifs
  · exact hi.finish (.error not_repeats_failed)
  cases hfind : find s call.channel (c.hashCode call.code) with
  | none =>
    refine hi.finish (.error ?_)
    rintro ⟨-, -, hcode, r, hr, hclaimed, hended⟩
    obtain ⟨-, hrec⟩ | hcheck := hseen.claimed r hr (by simp [hclaimed])
    · obtain hrec | ⟨-, hexp⟩ := hrec
      · -- The claimed record is still there, so it is found.
        have hgrant : r.grant = g := (hi.record r hrec).1.1
        have : find s call.channel (c.hashCode call.code) = some r :=
          Option.filter_eq_some_iff.mpr ⟨hrec, by simpa [hgrant, hcode] using hended⟩
        simp [this] at hfind
      · exact absurd hended (not_lt.mpr hexp)
    · simp [hp] at hcheck
  | some r =>
    obtain ⟨hrec, hcode, hlive⟩ := find_some hfind
    have hread := (hi.record r hrec).1
    refine hi.put ⟨hread, by rw [← hcode, hread.1]⟩ ⟨fun he => ?_, fun r' hr' hn => ?_⟩ (hi.found i call hcall)
    · exact absurd hlive (not_lt.mpr ((hseen.expired he).2 r hrec))
    · obtain ⟨-, hrec'⟩ | hcheck := hseen.claimed r' hr' hn
      · obtain hrec' | ⟨hgone, -⟩ := hrec'
        · obtain rfl := Option.some.inj (hrec.symm.trans hrec')
          exact .inr rfl
        · simp [hgone] at hrec
      · simp [hp] at hcheck

theorem Inv.checking (hi : Inv c g won s) {r : Handoff σ} (hcall : s.calls i = some call) (hp : call.at_ = .checking r) (inp : Input) :
    Inv c g won (go c s i call inp) := by
  obtain ⟨hat, hseen⟩ := hi.calls i call hcall
  rw [hp] at hat
  obtain ⟨hread, hcode⟩ := hat
  have hf : call.at_ ≠ .finding := by simp [hp]
  -- What the call was made with a claimed record of is this record.
  have hsame {smooth : Bool} {e : Err} (h : Repeats c g ⟨call, smooth, s.clock, .error e⟩) :
      r.channel = some call.channel ∧ s.clock < r.expiresAt := by
    obtain ⟨-, -, -, r', hr', hclaimed, hended⟩ := h
    obtain ⟨hfind, -⟩ | hcheck := hseen.claimed r' hr' (by simp [hclaimed])
    · exact absurd hfind hf
    · obtain rfl : r = r' := by simpa [hp] using hcheck
      exact ⟨hclaimed, hended⟩
  simp only [go, hp]
  split_ifs with hexp hver hsealed hchannel
  · exact hi.finish (.error fun h => absurd (hsame h).2 (not_lt.mpr hexp))
  · refine hi.finish (.error fun h => ?_)
    have := h.2.1 hver.1
    rw [hread.1] at hver
    simp [hver.2] at this
  · have hv : call.channel = body → verifierMatchesChallenge c call.verifier g.challenge = true := fun hb => by
      have := not_and.mp hver hb
      rw [hread.1] at this
      simpa using this
    cases hans : replay c r call.channel (c.hashCode call.code) with
    | ok t => exact hi.finish (.ok hseen hf (hread.replay_ok hcode hans) hv)
    | error e =>
      refine hi.finish (.error fun h => ?_)
      obtain ⟨t, ht, -⟩ := hread.replay_claimed (hsame h).1 hcode
      simp [ht] at hans
  · exact absurd (hread.claimed_iff.mpr hchannel) hsealed
  · cases inp.issued with
    | none => exact hi.finish (.error not_repeats_failed)
    | some token =>
      refine hi.put ⟨⟨fun hb => ?_, hcode⟩, inp.nonce, by rw [hcode]⟩ (hseen.past hf ?_ _) (hi.found i call hcall)
      · have := not_and.mp hver hb
        rw [hread.1] at this
        simpa using this
      · intro r' _ hn hcheck
        obtain rfl : r = r' := by simpa [hp] using hcheck
        exact hn (not_not.mp hchannel)

/-- The claim that wins: whoever else reads the record from now on reads it claimed. -/
theorem Inv.claim (hi : Inv c g won s) (now : ℤ) {r : Handoff σ} {token : String} {sealed : σ} (hrec : s.record = some r)
    (hnone : r.channel = none) (hlive : s.clock < r.expiresAt) (hchannel : call.channel = body ∨ call.channel = cookie)
    (hsealed : ∃ nonce, sealed = c.sealToken nonce call.channel (g.codeHash call.channel) token) :
    Inv c g (some (call.channel, token))
      { s with record := some { r with channel := some call.channel, tokenCiphertext := some sealed, expiresAt := now + replayTTL } } := by
  obtain ⟨hread, hwon⟩ := hi.record r hrec
  have hmono : ∀ x, won = some x → some (call.channel, token) = some x := fun x hx => by simp [hwon hnone] at hx
  obtain ⟨nonce, hsealed⟩ := hsealed
  constructor
  · intro r' hr'
    obtain rfl := Option.some.inj hr'
    exact ⟨⟨hread.1, .inr ⟨call.channel, token, nonce, hchannel, rfl, rfl, by rw [hsealed]⟩⟩, by simp⟩
  · intro j x hx
    obtain ⟨hat, hseen⟩ := hi.calls j x hx
    refine ⟨hat.mono hmono, fun he => ?_, fun r' hr' hn => ?_⟩
    · exact absurd hlive (not_lt.mpr ((hseen.expired he).2 r hrec))
    · obtain ⟨-, hrec' | ⟨hgone, -⟩⟩ | hcheck := hseen.claimed r' hr' hn
      · obtain rfl := Option.some.inj (hrec.symm.trans hrec')
        exact absurd hnone hn
      · simp [hrec] at hgone
      · exact .inr hcheck
  · intro j x hx
    obtain ⟨hch, hfound⟩ := hi.found j x hx
    exact ⟨hch, fun r' hr' => (hfound r' hr').mono hmono⟩
  · intro a ha
    exact (hi.done a ha).mono hmono

theorem Inv.claiming (hi : Inv c g won s) {now : ℤ} {token : String} {sealed : σ} (hcall : s.calls i = some call)
    (hp : call.at_ = .claiming now token sealed) (inp : Input) (hok : ∀ r ∈ s.record, r.channel = none → s.clock < r.expiresAt) :
    ∃ won', Inv c g won' (go c s i call inp) := by
  obtain ⟨hat, hseen⟩ := hi.calls i call hcall
  rw [hp] at hat
  obtain ⟨⟨hv, hcode⟩, hsealed⟩ := hat
  have hf : call.at_ ≠ .finding := by simp [hp]
  simp only [go, hp]
  split_ifs with hfailed hlost
  · exact ⟨won, hi.finish (.error not_repeats_failed)⟩
  · cases hfree : s.record.filter fun r => r.channel = none with
    | none => exact ⟨won, hi.finish (.error not_repeats_failed)⟩
    | some r =>
      obtain ⟨hrec, hnone⟩ := Option.filter_eq_some_iff.mp hfree
      have hnone : r.channel = none := by simpa using hnone
      have hi' := hi.claim now hrec hnone (hok r hrec hnone) (hi.found i call hcall).1 hsealed
      exact ⟨_, hi'.finish (.error not_repeats_failed)⟩
  · cases hfree : s.record.filter fun r => r.channel = none with
    | none =>
      refine ⟨won, hi.put ⟨hv, hcode⟩ (hseen.past hf ?_ _) (hi.found i call hcall)⟩
      simp [hp]
    | some r =>
      obtain ⟨hrec, hnone⟩ := Option.filter_eq_some_iff.mp hfree
      have hnone : r.channel = none := by simpa using hnone
      have hi' := hi.claim now hrec hnone (hok r hrec hnone) (hi.found i call hcall).1 hsealed
      exact ⟨_, hi'.finish (.ok (hi'.calls i call hcall).2 hf rfl hv)⟩

theorem Inv.findingAgain (hi : Inv c g won s) (hcall : s.calls i = some call) (hp : call.at_ = .findingAgain) (inp : Input) :
    Inv c g won (go c s i call inp) := by
  obtain ⟨hat, hseen⟩ := hi.calls i call hcall
  rw [hp] at hat
  have hf : call.at_ ≠ .finding := by simp [hp]
  have hc (r : Handoff σ) : call.at_ ≠ .checking r := by simp [hp]
  simp only [go, hp]
  split_ifs
  · exact hi.finish (.error not_repeats_failed)
  cases hfind : find s call.channel (c.hashCode call.code) with
  | none => exact hi.finish (.error (hseen.not_repeats hf hc))
  | some r =>
    obtain ⟨hrec, -, -⟩ := find_some hfind
    exact hi.put ⟨(hi.record r hrec).1, hat⟩ (hseen.past hf (fun r _ _ => hc r) _) (hi.found i call hcall)

theorem Inv.checkingAgain (hi : Inv c g won s) {r : Handoff σ} (hcall : s.calls i = some call) (hp : call.at_ = .checkingAgain r)
    (inp : Input) : Inv c g won (go c s i call inp) := by
  obtain ⟨hat, hseen⟩ := hi.calls i call hcall
  rw [hp] at hat
  obtain ⟨hread, hv, hcode⟩ := hat
  have hf : call.at_ ≠ .finding := by simp [hp]
  have hc (r : Handoff σ) : call.at_ ≠ .checking r := by simp [hp]
  simp only [go, hp]
  split_ifs
  · exact hi.finish (.error (hseen.not_repeats hf hc))
  · cases hans : replay c r call.channel (c.hashCode call.code) with
    | ok t => exact hi.finish (.ok hseen hf (hread.replay_ok hcode hans) hv)
    | error e => exact hi.finish (.error (hseen.not_repeats hf hc))

/-! ## Runs -/

theorem Inv.make (hi : Inv c g won s) (channel code verifier : String) : Inv c g won (step c s (.make i channel code verifier)) := by
  have hread : ∀ r ∈ s.record, Read c g won r := fun r hr => (hi.record r hr).1
  simp only [step]
  split_ifs with hbusy hchannel
  · exact hi
  · refine hi.finish (.error ?_)
    rintro ⟨-, -, -, r, hr, hclaimed, -⟩
    obtain ⟨-, ⟨hnone, -⟩ | ⟨channel', -, -, hch, -, hr', -⟩⟩ := hread r hr
    · simp [hnone] at hclaimed
    · obtain rfl : channel' = channel := Option.some.inj (hr'.symm.trans hclaimed)
      exact hch.elim hchannel.1 hchannel.2
  · have hvalid : channel = body ∨ channel = cookie := by
      by_contra hn
      exact hchannel (not_or.mp hn)
    exact hi.put trivial ⟨fun he => ⟨rfl, he⟩, fun r hr _ => .inl ⟨rfl, .inl hr⟩⟩ ⟨hvalid, hread⟩

theorem Expired.later {r : Option (Handoff σ)} {now later : ℤ} (h : Expired r now) (hl : now ≤ later) : Expired r later :=
  fun x hx => (h x hx).trans hl

theorem Inv.tick (hi : Inv c g won s) (d : ℕ) : Inv c g won (step c s (.tick d)) := by
  have hl : s.clock ≤ s.clock + d := by omega
  refine ⟨hi.record, fun j x hx => ?_, hi.found, hi.done⟩
  obtain ⟨hat, hseen⟩ := hi.calls j x hx
  refine ⟨hat, fun he => ?_, fun r hr hn => ?_⟩
  · exact (hseen.expired he).imp_right fun h => h.later hl
  · refine (hseen.claimed r hr hn).imp_left fun h => h.imp_right fun h => h.imp_right fun h => ⟨h.1, h.2.trans hl⟩

theorem Inv.prune (hi : Inv c g won s) : Inv c g won (step c s .prune) := by
  have hsub {r : Handoff σ} (h : s.record.filter (fun r => ¬r.expiresAt < s.clock - 3600) = some r) : s.record = some r :=
    (Option.filter_eq_some_iff.mp h).1
  refine ⟨fun r hr => hi.record r (hsub hr), fun j x hx => ?_, hi.found, hi.done⟩
  obtain ⟨hat, hseen⟩ := hi.calls j x hx
  refine ⟨hat, fun he => ?_, fun r hr hn => ?_⟩
  · exact (hseen.expired he).imp_right fun h r hr => h r (hsub hr)
  · obtain ⟨hp, hrec | ⟨hgone, hexp⟩⟩ | hcheck := hseen.claimed r hr hn
    · by_cases hold : r.expiresAt < s.clock - 3600
      · have hexp : r.expiresAt ≤ s.clock := by omega
        refine .inl ⟨hp, .inr ⟨?_, hexp⟩⟩
        change s.record.filter (fun r => ¬r.expiresAt < s.clock - 3600) = none
        rw [hrec, Option.filter_some, if_neg (by simp; omega)]
      · refine .inl ⟨hp, .inl ?_⟩
        exact Option.filter_eq_some_iff.mpr ⟨hrec, by simpa using hold⟩
    · refine .inl ⟨hp, .inr ⟨?_, hexp⟩⟩
      change s.record.filter (fun r => ¬r.expiresAt < s.clock - 3600) = none
      rw [hgone]
      rfl
    · exact .inr hcheck

theorem Inv.step (hi : Inv c g won s) (e : Event) (he : ClaimInTime s e) : ∃ won', Inv c g won' (step c s e) := by
  cases e with
  | make i channel code verifier => exact ⟨won, hi.make channel code verifier⟩
  | go i inp =>
    cases hcall : s.calls i with
    | none => exact ⟨won, by simpa [SignInHandoffs.step, hcall] using hi⟩
    | some call =>
      have hgo : SignInHandoffs.step c s (.go i inp) = go c s i call inp := by simp [SignInHandoffs.step, hcall]
      rw [hgo]
      cases hp : call.at_ with
      | finding => exact ⟨won, hi.finding hcall hp inp⟩
      | checking r => exact ⟨won, hi.checking hcall hp inp⟩
      | claiming now token sealed => exact hi.claiming hcall hp inp (he call hcall (by rw [hp]; rfl))
      | findingAgain => exact ⟨won, hi.findingAgain hcall hp inp⟩
      | checkingAgain r => exact ⟨won, hi.checkingAgain hcall hp inp⟩
  | drop i =>
    refine ⟨won, hi.record, fun j x hx => hi.calls j x ?_, fun j x hx => hi.found j x ?_, hi.done⟩ <;>
    · have hj : j ≠ i := by
        rintro rfl
        simp [SignInHandoffs.step] at hx
      simpa [SignInHandoffs.step, hj] using hx
  | tick d => exact ⟨won, hi.tick d⟩
  | prune => exact ⟨won, hi.prune⟩

theorem Inv.fair (hi : Inv c g won s) : Fair c g s where
  single a ha b hb t u ht hu := by
    have h := ((hi.done a ha).won t ht).symm.trans ((hi.done b hb).won u hu)
    obtain ⟨h1, h2⟩ := Prod.mk.inj (Option.some.inj h)
    exact ⟨h2, h1⟩
  replayed a ha := (hi.done a ha).replayed
  expired a ha := (hi.done a ha).expired
  verified a ha := (hi.done a ha).verified

end

/-- Whatever calls are made for a grant and however they interleave, they issue one token at most,
on one channel, if the record is claimed before it expires: the calls on this channel that come
later have the same token, those that are made after expiry have none, and on the body channel
the verifier is the challenge's. -/
theorem one_token {σ : Type} (c : Crypto σ) (g : Grant) (now : ℤ) (es : List Event) (hm : Meets (step c) ClaimInTime (created g now) es) :
    Throughout (step c) (Fair c g) (created g now) es := by
  have hinit : Inv c g none (created g now) := by
    refine ⟨fun r hr => ?_, fun i x hx => by simp [created] at hx, fun i x hx => by simp [created] at hx, by simp [created]⟩
    obtain rfl := Option.some.inj hr
    exact ⟨⟨rfl, .inl ⟨rfl, rfl⟩⟩, fun _ => rfl⟩
  exact (hm.throughout (P := fun s => ∃ won, Inv c g won s) (fun s e ⟨_, hs⟩ he => hs.step e he) ⟨none, hinit⟩).imp
    fun s ⟨_, hs⟩ => hs.fair

/-- Sealed texts that are told by what is in them. -/
def plain : Crypto (String × String × String) where
  hashCode code := "sha256 of " ++ code
  challengeS256 verifier := "S256 of " ++ verifier
  sealToken _ channel codeHash token := (channel, codeHash, token)
  openToken channel codeHash sealed := if sealed.1 = channel ∧ sealed.2.1 = codeHash then some sealed.2.2 else none
  open_seal := by simp

def ada : Grant := ⟨"sha256 of url", "sha256 of jar", "1", "ada@example.com", "Ada", "S256 of secret"⟩

def makeBody (i : ℕ) : Event := .make i body "url" "secret"

def goes (i n : ℕ) (token : String) : List Event := List.replicate n (.go i { issued := some token })

/-- Two calls on the body channel and one on the cookie channel race, and one more comes later. -/
def race : List Event :=
  [makeBody 0, .make 1 cookie "jar" "", makeBody 2] ++ goes 0 2 "t0" ++ goes 1 2 "t1" ++ goes 2 2 "t2" ++
    goes 1 1 "" ++ goes 0 3 "" ++ goes 2 3 "" ++ [.tick 30, .make 3 cookie "jar" ""] ++ goes 3 2 ""

theorem race_fair : Throughout (step plain) (Fair plain ada) (created ada 0) race :=
  one_token plain ada 0 race (by decide +kernel)

/-- A call that has checked the record a second before it expires claims it ten seconds later. One
that was made in between, after expiry, has the token. -/
def lateClaim : List Event :=
  [makeBody 0, .tick 299] ++ goes 0 2 "t0" ++ [.tick 6, makeBody 1, .tick 4] ++ goes 0 1 "" ++ goes 1 2 ""

theorem late_claim_revives : ¬Fair plain ada (run (step plain) (created ada 0) lateClaim) := by
  intro h
  let late : Done (String × String × String) :=
    ⟨⟨body, "url", "secret", 305, some ⟨ada, none, none, 300⟩, .checking ⟨ada, some body, some (body, "sha256 of url", "t0"), 359⟩⟩,
      true, 309, .ok "t0"⟩
  have hmem : late ∈ (run (step plain) (created ada 0) lateClaim).done := List.mem_of_getElem? (i := 0) rfl
  refine h.expired late hmem (fun r hr => ?_) "t0" rfl
  obtain rfl := Option.some.inj hr
  decide

end Upstat.SignInHandoffs
