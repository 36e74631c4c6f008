import Mathlib.Data.List.DropRight

/-! # The client's address (`net/client-ip.ts`, `otlp/grpc.server.ts`)

Header lines and peers are lists of characters. Node joins the lines of one name with `", "`, and
the gRPC receiver is given them as a list. `isIP` of `node:net` is a parameter. -/
namespace Upstat.ClientAddresses

abbrev Text := List Char

/-- `setTrustProxy`: whether proxies are trusted, and how many. -/
structure TrustProxy where
  trusted : Bool
  proxies : ℕ

def TrustProxy.hops (p : TrustProxy) : ℕ := max 1 p.proxies

/-- White space and line ends, as `trim` takes them. -/
def isSpace (c : Char) : Bool :=
  let n := c.toNat
  (9 ≤ n ∧ n ≤ 13) ∨ n = 0x20 ∨ n = 0xA0 ∨ n = 0x1680 ∨ (0x2000 ≤ n ∧ n ≤ 0x200A) ∨ n = 0x2028 ∨ n = 0x2029 ∨ n = 0x202F ∨
    n = 0x205F ∨ n = 0x3000 ∨ n = 0xFEFF

def trim (s : Text) : Text := (s.dropWhile isSpace).rdropWhile isSpace

/-! ## The peer -/

def isDigit (c : Char) : Bool := '0' ≤ c ∧ c ≤ '9'

def digits (s : Text) : Bool := s ≠ [] ∧ s.all isDigit

/-- `/^ipv[46]:/` goes. -/
def dropTag (s : Text) : Text :=
  if "ipv4:".toList.isPrefixOf s ∨ "ipv6:".toList.isPrefixOf s then s.drop 5 else s

/-- `/^\[([^\]]+)\](:\d+)?$/` becomes what is between the brackets. -/
def dropBrackets (s : Text) : Text :=
  let inner := s.tail.takeWhile (· ≠ ']')
  let rest := s.tail.drop inner.length
  if s.head? = some '[' ∧ inner ≠ [] ∧ (rest = [']'] ∨ (rest.take 2 = [']', ':'] ∧ digits (rest.drop 2))) then inner else s

/-- `/^(\d+\.\d+\.\d+\.\d+):\d+$/` becomes what is before the colon. -/
def dropPort (s : Text) : Text :=
  let quad := s.takeWhile (· ≠ ':')
  let rest := s.drop quad.length
  if (quad.splitOn '.').length = 4 ∧ (quad.splitOn '.').all digits ∧ rest.head? = some ':' ∧ digits rest.tail then quad else s

/-- `/^::ffff:/` goes. -/
def dropMapped (s : Text) : Text := if "::ffff:".toList.isPrefixOf s then s.drop 7 else s

def peerAddress (peer : Text) : Text := dropMapped (dropPort (dropBrackets (dropTag peer)))

/-! ## The header -/

/-- The entries of a header's value that are not blank. -/
def chain (forwardedFor : Text) : List Text := ((forwardedFor.splitOn ',').map trim).filter (· ≠ [])

section
variable (isIP : Text → Bool) (proxy : TrustProxy)

/-- The entry of the chain so many hops from the right, if it is an address. -/
def candidate (entries : List Text) : Option Text :=
  (if proxy.hops ≤ entries.length then entries[entries.length - proxy.hops]? else none).filter isIP

def resolveClientIp (forwardedFor : Option Text) (peer : Text) : Text :=
  let found := forwardedFor.bind fun v => if proxy.trusted ∧ v ≠ [] then candidate isIP proxy (chain v) else none
  found.getD (peerAddress peer)

/-- The header's value in a request to the HTTP receiver. -/
def joined (lines : List Text) : Option Text := if lines = [] then none else some ([',', ' '].intercalate lines)

/-- `clientIp` -/
def clientIp (lines : List Text) (peer : Text) : Text := resolveClientIp isIP proxy (joined lines) peer

/-- The address of `credentials`, from the lines that `md.get` lists. -/
def credentialsIp (lines : List Text) (peer : Text) : Text :=
  let forwarded := (lines.head?.getD [])
  resolveClientIp isIP proxy (if forwarded = [] then none else some forwarded) peer

end

/-! ## The entries of several lines -/

theorem chain_append (a b : Text) : chain (a ++ ',' :: b) = chain a ++ chain b := by
  have hsplit : (a ++ ',' :: b).splitOn ',' = a.splitOn ',' ++ b.splitOn ',' := by
    simp only [List.splitOn_eq_splitOnP]
    exact List.splitOnP_append_cons a b (by decide)
  simp [chain, hsplit]

/-- A blank before an entry is none of its text. -/
theorem chain_blank (s : Text) : chain (' ' :: s) = chain s := by
  have hne : s.splitOn ',' ≠ [] := by
    rw [List.splitOn_eq_splitOnP]
    exact List.splitOnP_ne_nil _ _
  have hsplit : (' ' :: s).splitOn ',' = (s.splitOn ',').modifyHead (List.cons ' ') := by
    simp only [List.splitOn_eq_splitOnP]
    rw [List.splitOnP_cons_eq_if_modifyHead, if_neg (by decide)]
  obtain ⟨entry, rest, he⟩ := List.exists_cons_of_ne_nil hne
  have htrim : trim (' ' :: entry) = trim entry := by
    rw [trim, List.dropWhile_cons_of_pos (by decide), trim]
  simp [chain, hsplit, he, htrim]

theorem chain_joined (lines : List Text) : ((joined lines).map chain).getD [] = lines.flatMap chain := by
  have hjoin : chain ([',', ' '].intercalate lines) = lines.flatMap chain := by
    induction lines with
    | nil => decide
    | cons line lines ih =>
      cases lines with
      | nil => simp
      | cons next lines =>
        have hcons : [',', ' '].intercalate (line :: next :: lines) = line ++ ',' :: ' ' :: [',', ' '].intercalate (next :: lines) := by
          simp [List.intercalate]
        rw [hcons, chain_append, chain_blank, ih, List.flatMap_cons (x := line)]
  unfold joined
  split_ifs with hl
  · simp [hl]
  · simpa using hjoin

section
variable (isIP : Text → Bool) (proxy : TrustProxy)

theorem hops_pos : 0 < proxy.hops := by
  unfold TrustProxy.hops
  omega

/-- The address that the entries give, if proxies are trusted. -/
def address (entries : List Text) : Option Text := if proxy.trusted then candidate isIP proxy entries else none

theorem address_nil : address isIP proxy [] = none := by
  have := hops_pos proxy
  simp [address, candidate]

theorem resolveClientIp_eq (forwardedFor : Option Text) (peer : Text) :
    resolveClientIp isIP proxy forwardedFor peer =
      (address isIP proxy ((forwardedFor.map chain).getD [])).getD (peerAddress peer) := by
  cases forwardedFor with
  | none => simp [resolveClientIp, address_nil]
  | some v =>
    by_cases hv : v = []
    · have hchain : chain [] = [] := by decide
      simp [resolveClientIp, hv, hchain, address_nil]
    · simp [resolveClientIp, address, hv]

theorem clientIp_eq (lines : List Text) (peer : Text) :
    clientIp isIP proxy lines peer = (address isIP proxy (lines.flatMap chain)).getD (peerAddress peer) := by
  rw [clientIp, resolveClientIp_eq, chain_joined]

theorem credentialsIp_eq (lines : List Text) (peer : Text) :
    credentialsIp isIP proxy lines peer = (address isIP proxy (chain (lines.head?.getD []))).getD (peerAddress peer) := by
  rw [credentialsIp, resolveClientIp_eq]
  by_cases hfirst : lines.head?.getD [] = []
  · have hchain : chain [] = [] := by decide
    rw [if_pos hfirst, hfirst, hchain]
    rfl
  · rw [if_neg hfirst]
    rfl

/-- Of the entries only those appended last count, as many as there are hops. -/
theorem candidate_rtake (entries : List Text) :
    candidate isIP proxy entries = candidate isIP proxy (entries.rtake proxy.hops) := by
  unfold candidate List.rtake
  by_cases h : proxy.hops ≤ entries.length
  · have hlen : (entries.drop (entries.length - proxy.hops)).length = proxy.hops := by
      rw [List.length_drop]
      omega
    rw [if_pos h, if_pos hlen.ge, hlen, Nat.sub_self, List.getElem?_drop, Nat.add_zero]
  · have hlen : ¬proxy.hops ≤ (entries.drop (entries.length - proxy.hops)).length := by
      rw [List.length_drop]
      omega
    rw [if_neg h, if_neg hlen]

/-- Between the first line and all of them nothing is told apart: they give the same address or
none, or one of them gives the peer's own. -/
def Agree (lines : List Text) (peer : Text) : Prop :=
  let first := address isIP proxy (chain (lines.head?.getD []))
  let all := address isIP proxy (lines.flatMap chain)
  first = all ∨ first = none ∧ all = some (peerAddress peer) ∨ first = some (peerAddress peer) ∧ all = none

/-- A request with one line of entries. -/
theorem agree_of_first {line : Text} {lines : List Text} (h : ∀ l ∈ lines, chain l = []) (peer : Text) :
    Agree isIP proxy (line :: lines) peer := by
  have hrest : lines.flatMap chain = [] := List.flatMap_eq_nil_iff.mpr h
  exact .inl (by rw [List.flatMap_cons, hrest, List.append_nil]; rfl)

end

/-- Four numbers below 256 in decimal, which is what `isIP` takes for an IPv4 address. -/
def isIPv4 (s : Text) : Bool :=
  let parts := s.splitOn '.'
  parts.length = 4 ∧ parts.all fun d => digits d ∧ (d.head? ≠ some '0' ∨ d.length = 1) ∧
    d.foldl (fun n c => 10 * n + (c.toNat - '0'.toNat)) 0 < 256

example : peerAddress "ipv6:[::ffff:10.0.0.1]:5555".toList = "10.0.0.1".toList := by decide +kernel

end Upstat.ClientAddresses
