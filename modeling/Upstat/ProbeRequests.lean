import Upstat.ProbeAddresses

/-! # Requests of the probe (`probe/ssrf.py`, `probe/check.py`)

`resolve` and the loop of `fetch`. What the network does is given hop by hop: the clock before and
after the resolution, the answer of `getaddrinfo`, and what `_one` gets back. `urlsplit` and
`urljoin` may be any functions, and give nothing where they raise. -/
namespace Upstat.ProbeRequests

open ProbeAddresses

def maxRedirects : ℕ := 5

/-- What `urlsplit` finds in a URL; `port` gives nothing where it raises. -/
structure SplitResult where
  scheme : String
  hostname : Option String
  username : Option String
  password : Option String
  port : Option (Option ℕ)

inductive Error where
  | blocked (message : String)
  | unresolvable (message : String)
  | resolveTimeout (message : String)
  | valueError

/-- The addresses that `getaddrinfo` gives, or how it fails. -/
inductive Answer where
  | infos (ips : List String)
  | timeout
  | error (message : String)

/-- A text is there and not empty. -/
def given (s : Option String) : Bool := s.any (· ≠ "")

/-- `parts.port or` the scheme's own. -/
def portOf (scheme : String) (port : Option ℕ) : ℕ :=
  match port with
  | some (n + 1) => n + 1
  | some 0 | none => if scheme = "https" then 443 else 80

/-- Every address must be allowed. -/
def checkAll (allowPrivate : Bool) (host : String) : List String → Except Error Unit
  | [] => .ok ()
  | ip :: ips =>
    match addressAllowed allowPrivate ip with
    | none => .error .valueError
    | some false => .error (.blocked (host ++ " resolves to a disallowed address"))
    | some true => checkAll allowPrivate host ips

/-- The addresses, each once, and the first of them if all are allowed. -/
def choose (allowPrivate : Bool) (host : String) (ips : List String) : Except Error String :=
  match ips.eraseDups with
  | [] => .error (.unresolvable "no address")
  | ip :: ips =>
    match checkAll allowPrivate host (ip :: ips) with
    | .error e => .error e
    | .ok () => .ok ip

section
variable (allowPrivate : Bool) (urlsplit : String → Option SplitResult)

def resolve (answer : Answer) (url : String) : Except Error (String × ℕ × String) :=
  match urlsplit url with
  | none => .error .valueError
  | some parts =>
    if parts.scheme ∉ ["http", "https"] ∨ given parts.hostname = false then .error (.blocked "only http(s) URLs")
    else if given parts.username ∨ given parts.password then .error (.blocked "credentials in URLs are refused")
    else
      match parts.port with
      | none => .error .valueError
      | some port =>
        let host := parts.hostname.getD ""
        match answer with
        | .timeout => .error (.resolveTimeout host)
        | .error message => .error (.unresolvable message)
        | .infos ips =>
          match choose allowPrivate host ips with
          | .error e => .error e
          | .ok ip => .ok (host, portOf parts.scheme port, ip)

end

/-! ## Fetching -/

/-- A request of `_one`, and the address that it is pinned to. -/
structure Request where
  url : String
  host : String
  port : ℕ
  ip : String
  method : String

/-- The entry that libcurl is given to resolve. -/
def Request.pin (r : Request) : String :=
  r.host ++ ":" ++ toString r.port ++ ":" ++ if ':' ∈ r.ip.toList then "[" ++ r.ip ++ "]" else r.ip

/-- What `_one` gets back; `err` is libcurl's code. -/
structure Reply where
  status : ℕ
  headers : List (String × String)
  body : List UInt8
  err : Option ℕ

structure Response where
  statusCode : ℕ
  headers : List (String × String)
  body : List UInt8
  cause : String

/-- A hop, between the clock's readings when it begins and when its URL is resolved. -/
structure Hop where
  before : ℤ
  answer : Answer
  resolved : ℤ
  reply : Reply

def tlsErrors : List ℕ := [35, 51, 53, 54, 58, 59, 60, 64, 66, 77, 80, 82, 83, 90, 91]

def causeFor (code : ℕ) : String :=
  if code = 28 then "timeout" else if code = 6 then "dns" else if code = 7 then "refused" else if code ∈ tlsErrors then "tls" else "error"

/-- The verdict on a status that is no redirect. -/
def statusCause (status : ℕ) : String := if 500 ≤ status then "http_5xx" else if 400 ≤ status then "http_4xx" else ""

section
variable (allowPrivate : Bool) (urlsplit : String → Option SplitResult) (urljoin : String → String → Option String) (hops : ℕ → Hop) (deadline : ℤ)

/-- The loop from a hop on, with what is left of it: the requests made, and the response, or nothing
where an exception ends it. -/
def fetchFrom : (left hop : ℕ) → (url method : String) → Response → List Request × Option Response
  | 0, _, _, _, out => ([], some out)
  | left + 1, hop, url, method, out =>
    if deadline ≤ (hops hop).before then ([], some { out with cause := "timeout" })
    else
      match resolve allowPrivate urlsplit (hops hop).answer url with
      | .error (.blocked _) => ([], some { out with cause := "blocked" })
      | .error (.resolveTimeout _) => ([], some { out with cause := "timeout" })
      | .error (.unresolvable _) => ([], some { out with cause := "dns" })
      | .error .valueError => ([], none)
      | .ok (host, port, ip) =>
        if deadline ≤ (hops hop).resolved then ([], some { out with cause := "timeout" })
        else
          let request : Request := ⟨url, host, port, ip, method⟩
          let reply := (hops hop).reply
          match reply.err with
          | some code => ([request], some { out with cause := causeFor code })
          | none =>
            let out : Response := ⟨reply.status, reply.headers, reply.body, out.cause⟩
            let location := reply.headers.lookup "location"
            if 300 ≤ reply.status ∧ reply.status < 400 ∧ given location then
              if hop = maxRedirects then ([request], some { out with cause := "too_many_redirects" })
              else
                match urljoin url (location.getD "") with
                | none => ([request], none)
                | some next =>
                  let rest := fetchFrom left (hop + 1) next (if reply.status ∈ [301, 302, 303] then "GET" else method) out
                  (request :: rest.1, rest.2)
            else ([request], some { out with cause := statusCause reply.status })

def fetch (started timeout : ℤ) (url method : String) : List Request × Option Response :=
  fetchFrom allowPrivate urlsplit urljoin hops (started + timeout) (maxRedirects + 1) 0 url method ⟨0, [], [], ""⟩

end

/-! ## Every request is guarded -/

/-- The request goes to an address of its hop's resolution, of which every address is allowed, by the
host and the port of its URL. -/
structure Passed (allowPrivate : Bool) (urlsplit : String → Option SplitResult) (hop : Hop) (r : Request) : Prop where
  allowed : addressAllowed allowPrivate r.ip = some true
  resolution : ∃ ips, hop.answer = .infos ips ∧ r.ip ∈ ips ∧ ∀ ip ∈ ips, addressAllowed allowPrivate ip = some true
  split : ∃ parts port, urlsplit r.url = some parts ∧ parts.hostname = some r.host ∧ parts.port = some port ∧ r.port = portOf parts.scheme port

section
variable {allowPrivate : Bool} {urlsplit : String → Option SplitResult} {urljoin : String → String → Option String} {hops : ℕ → Hop} {deadline : ℤ}

theorem checkAll_ok {host : String} {ips : List String} (h : checkAll allowPrivate host ips = .ok ()) :
    ∀ ip ∈ ips, addressAllowed allowPrivate ip = some true := by
  induction ips with
  | nil => simp
  | cons ip ips ih =>
    simp only [checkAll] at h
    split at h
    · cases h
    · cases h
    · next hip =>
      intro ip' hip'
      rcases List.mem_cons.mp hip' with rfl | hip'
      · exact hip
      · exact ih h ip' hip'

theorem choose_ok {host ip : String} {ips : List String} (h : choose allowPrivate host ips = .ok ip) :
    ip ∈ ips ∧ ∀ ip ∈ ips, addressAllowed allowPrivate ip = some true := by
  simp only [choose] at h
  split at h
  · cases h
  · next first rest heq =>
    split at h
    · cases h
    · next hall =>
      obtain rfl := Except.ok.inj h
      have hmem : ∀ ip, ip ∈ ips ↔ ip ∈ first :: rest := fun ip => by rw [← heq, List.mem_eraseDups]
      exact ⟨(hmem first).mpr List.mem_cons_self, fun ip hip => checkAll_ok hall ip ((hmem ip).mp hip)⟩

/-- What resolves passes. -/
theorem resolve_ok {hop : Hop} {url host ip : String} {port : ℕ} (h : resolve allowPrivate urlsplit hop.answer url = .ok (host, port, ip))
    (method : String) : Passed allowPrivate urlsplit hop ⟨url, host, port, ip, method⟩ := by
  simp only [resolve] at h
  split at h
  · cases h
  · next parts hparts =>
    split_ifs at h with hscheme hcredentials
    split at h
    · cases h
    · next port' hport =>
      split at h
      · cases h
      · cases h
      · next ips hanswer =>
        split at h
        · cases h
        · next ip' hchoose =>
          obtain ⟨hhost, hrest⟩ := Prod.mk.inj (Except.ok.inj h)
          obtain ⟨rfl, rfl⟩ := Prod.mk.inj hrest
          obtain ⟨hmem, hall⟩ := choose_ok hchoose
          have hgiven : given parts.hostname = true := by simpa using (not_or.mp hscheme).2
          obtain ⟨name, hname, -⟩ := (Option.any_eq_true _ _).mp hgiven
          rw [hname, Option.getD_some] at hhost
          subst hhost
          exact ⟨hall ip' hmem, ⟨ips, hanswer, hmem, hall⟩, parts, port', hparts, hname, hport, rfl⟩

/-- At most so many requests, and each passes the guard of its own hop, from this one on. -/
def PassedFrom (allowPrivate : Bool) (urlsplit : String → Option SplitResult) (hops : ℕ → Hop) (left hop : ℕ) (rs : List Request) : Prop :=
  rs.length ≤ left ∧ ∀ i r, rs[i]? = some r → Passed allowPrivate urlsplit (hops (hop + i)) r

theorem passedFrom_nil {left hop : ℕ} : PassedFrom allowPrivate urlsplit hops left hop [] := ⟨Nat.zero_le left, by simp⟩

theorem PassedFrom.cons {left hop : ℕ} {r : Request} {rs : List Request} (hr : Passed allowPrivate urlsplit (hops hop) r)
    (h : PassedFrom allowPrivate urlsplit hops left (hop + 1) rs) : PassedFrom allowPrivate urlsplit hops (left + 1) hop (r :: rs) := by
  refine ⟨Nat.succ_le_succ h.1, fun i r' hr' => ?_⟩
  cases i with
  | zero =>
    obtain rfl := Option.some.inj hr'
    exact hr
  | succ i =>
    have hi : hop + 1 + i = hop + (i + 1) := by omega
    exact hi ▸ h.2 i r' hr'

/-- The loop makes at most one request for each hop. -/
theorem fetchFrom_passed (left hop : ℕ) (url method : String) (out : Response) :
    PassedFrom allowPrivate urlsplit hops left hop (fetchFrom allowPrivate urlsplit urljoin hops deadline left hop url method out).1 := by
  induction left generalizing hop url method out with
  | zero => exact passedFrom_nil
  | succ left ih =>
    rw [fetchFrom]
    by_cases hbefore : deadline ≤ (hops hop).before
    · rw [if_pos hbefore]
      exact passedFrom_nil
    rw [if_neg hbefore]
    cases hresolve : resolve allowPrivate urlsplit (hops hop).answer url with
    | error e => cases e <;> exact passedFrom_nil
    | ok out' =>
      obtain ⟨host, port, ip⟩ := out'
      have hrequest := resolve_ok hresolve method
      simp only
      by_cases hresolved : deadline ≤ (hops hop).resolved
      · rw [if_pos hresolved]
        exact passedFrom_nil
      rw [if_neg hresolved]
      cases (hops hop).reply.err with
      | some code => exact passedFrom_nil.cons hrequest
      | none =>
        simp only
        split
        · split
          · exact passedFrom_nil.cons hrequest
          · split
            · exact passedFrom_nil.cons hrequest
            · exact (ih _ _ _ _).cons hrequest
        · exact passedFrom_nil.cons hrequest

end

/-- Every request passes its own hop's guard, there are six at most, and what an allowed address embeds
is allowed, but for the metadata address under 64:ff9b::/96 where private addresses are allowed. -/
theorem probe_guarded (allowPrivate : Bool) (urlsplit : String → Option SplitResult) (urljoin : String → String → Option String) (hops : ℕ → Hop)
    (started timeout : ℤ) (url method : String) :
    ((fetch allowPrivate urlsplit urljoin hops started timeout url method).1.length ≤ 6 ∧
      ∀ i r, (fetch allowPrivate urlsplit urljoin hops started timeout url method).1[i]? = some r → Passed allowPrivate urlsplit (hops i) r) ∧
      ∀ a : IPv6Address, ∀ e ∈ a.embedded, ((Address.allowed allowPrivate (.v6 a) = true → Address.allowed allowPrivate (.v4 e) = true) ↔
        ¬(allowPrivate = true ∧ a.ip = translatedMetadata)) := by
  have hpassed : PassedFrom allowPrivate urlsplit hops 6 0 (fetch allowPrivate urlsplit urljoin hops started timeout url method).1 :=
    fetchFrom_passed (maxRedirects + 1) 0 url method ⟨0, [], [], ""⟩
  refine ⟨⟨hpassed.1, fun i r hr => ?_⟩, fun a e he => embedded_allowed_iff allowPrivate he⟩
  simpa using hpassed.2 i r hr

/-- Where private addresses are allowed the metadata address is reached through NAT64. -/
theorem translatedMetadata_allowed :
    ipAddress "64:ff9b::a9fe:a9fe" = some (.v6 ⟨translatedMetadata, by decide, none⟩) ∧
      IPv6Address.embedded ⟨translatedMetadata, by decide, none⟩ = some metadataIPv4 ∧
      addressAllowed true "64:ff9b::a9fe:a9fe" = some true ∧ addressAllowed true "169.254.169.254" = some false := by
  decide +kernel

end Upstat.ProbeRequests
