import Mathlib.Data.Option.Basic
import Mathlib.Data.Nat.Notation
import Mathlib.Tactic.NormNum

/-! # Addresses that the probe may reach (`probe/ssrf.py`)

`ipaddress` of the standard library as far as the guard uses it, and `address_allowed`.
`allowPrivate` is whether PROBE_ALLOW_PRIVATE is true. -/
namespace Upstat.ProbeAddresses

structure IPv4Address where
  ip : ℕ
  lt : ip < 2 ^ 32
  deriving DecidableEq

structure IPv6Address where
  ip : ℕ
  lt : ip < 2 ^ 128
  scope_id : Option (List Char)
  deriving DecidableEq

inductive Address where
  | v4 (a : IPv4Address)
  | v6 (a : IPv6Address)
  deriving DecidableEq

/-! ## Addresses from texts -/

/-- A number in digits, with the values of the digits given. -/
def number (base : ℕ) (value : Char → ℕ) (s : List Char) : ℕ := s.foldl (fun n c => n * base + value c) 0

def isDigit (c : Char) : Bool := '0' ≤ c ∧ c ≤ '9'

def isHexDigit (c : Char) : Bool := isDigit c || ('a' ≤ c ∧ c ≤ 'f') || ('A' ≤ c ∧ c ≤ 'F')

def hexValue (c : Char) : ℕ :=
  if isDigit c then c.toNat - '0'.toNat else if 'a' ≤ c then c.toNat - 'a'.toNat + 10 else c.toNat - 'A'.toNat + 10

def parseOctet (s : List Char) : Option ℕ :=
  if s = [] ∨ ¬s.all isDigit ∨ 3 < s.length ∨ (s ≠ ['0'] ∧ s.head? = some '0') then none
  else
    let n := number 10 hexValue s
    if 255 < n then none else some n

def parseIPv4 (s : List Char) : Option IPv4Address := do
  if '/' ∈ s then none
  else
    let octets := s.splitOn '.'
    if octets.length ≠ 4 then none
    else
      let values ← octets.mapM parseOctet
      let n := values.foldl (fun n o => n * 256 + o) 0
      if h : n < 2 ^ 32 then some ⟨n, h⟩ else none

def parseHextet (s : List Char) : Option ℕ :=
  if s = [] ∨ ¬s.all isHexDigit ∨ 4 < s.length then none else some (number 16 hexValue s)

/-- The parts between the colons, with an address at the end in two parts. -/
def ipv6Parts (s : List Char) : Option (List (List Char)) :=
  let parts := s.splitOn ':'
  let last := parts.getLast?.getD []
  if parts.length < 3 then none
  else if '.' ∈ last then (parseIPv4 last).map fun a => parts.dropLast ++ [Nat.toDigits 16 (a.ip / 65536), Nat.toDigits 16 (a.ip % 65536)]
  else some parts

/-- Where there is nothing between two colons, not counting the ends. -/
def skips (parts : List (List Char)) : List ℕ := ((List.range parts.length).drop 1).dropLast.filter fun i => parts.getD i [] = []

def hextets (base : ℕ) (parts : List (List Char)) : Option ℕ := do
  let values ← parts.mapM parseHextet
  some (values.foldl (fun n h => n * 65536 + h) base)

/-- What is written before and after the gap. -/
def ipv6Number (parts : List (List Char)) : Option ℕ := do
  if 9 < parts.length then none
  else
    match skips parts with
    | [] => if parts.length ≠ 8 ∨ parts.head? = some [] ∨ parts.getLast? = some [] then none else hextets 0 parts
    | [i] =>
      let high := if parts.head? = some [] then (parts.take i).tail else parts.take i
      let low := if parts.getLast? = some [] then (parts.drop (i + 1)).dropLast else parts.drop (i + 1)
      if (parts.head? = some [] ∧ high ≠ []) ∨ (parts.getLast? = some [] ∧ low ≠ []) ∨ 8 ≤ high.length + low.length then none
      else
        let n ← hextets 0 high
        hextets (n * 65536 ^ (8 - (high.length + low.length))) low
    | _ => none

def parseIPv6 (s : List Char) : Option IPv6Address := do
  if '/' ∈ s then none
  else
    let addr := s.takeWhile (· ≠ '%')
    let scope := s.drop (addr.length + 1)
    if '%' ∈ s ∧ (scope = [] ∨ '%' ∈ scope) then none
    else
      let parts ← ipv6Parts addr
      let n ← ipv6Number parts
      if h : n < 2 ^ 128 then some ⟨n, h, if '%' ∈ s then some scope else none⟩ else none

/-- `ipaddress.ip_address`, and nothing where it raises. -/
def ipAddress (s : String) : Option Address := ((parseIPv4 s.toList).map .v4).or ((parseIPv6 s.toList).map .v6)

/-! ## Networks -/

structure Network where
  address : ℕ
  length : ℕ

/-- Among addresses of that many bits. -/
def Network.contains (net : Network) (bits ip : ℕ) : Bool := ip / 2 ^ (bits - net.length) = net.address / 2 ^ (bits - net.length)

def quad (a b c d : ℕ) : ℕ := ((a * 256 + b) * 256 + c) * 256 + d

/-- The first groups of an address, and zeros. -/
def groups (gs : List ℕ) : ℕ := gs.foldl (fun n g => n * 65536 + g) 0 * 65536 ^ (8 - gs.length)

namespace IPv4Address

variable (a : IPv4Address)

def isIn (net : Network) : Bool := net.contains 32 a.ip

def privateNetworks : List Network :=
  [⟨quad 0 0 0 0, 8⟩, ⟨quad 10 0 0 0, 8⟩, ⟨quad 127 0 0 0, 8⟩, ⟨quad 169 254 0 0, 16⟩, ⟨quad 172 16 0 0, 12⟩, ⟨quad 192 0 0 0, 24⟩,
    ⟨quad 192 0 0 170, 31⟩, ⟨quad 192 0 2 0, 24⟩, ⟨quad 192 168 0 0, 16⟩, ⟨quad 198 18 0 0, 15⟩, ⟨quad 198 51 100 0, 24⟩,
    ⟨quad 203 0 113 0, 24⟩, ⟨quad 240 0 0 0, 4⟩, ⟨quad 255 255 255 255, 32⟩]

def privateExceptions : List Network := [⟨quad 192 0 0 9, 32⟩, ⟨quad 192 0 0 10, 32⟩]

def isPrivate : Bool := privateNetworks.any a.isIn && !privateExceptions.any a.isIn

def isLoopback : Bool := a.isIn ⟨quad 127 0 0 0, 8⟩

def isLinkLocal : Bool := a.isIn ⟨quad 169 254 0 0, 16⟩

def isMulticast : Bool := a.isIn ⟨quad 224 0 0 0, 4⟩

def isReserved : Bool := a.isIn ⟨quad 240 0 0 0, 4⟩

def isUnspecified : Bool := a.ip = 0

end IPv4Address

namespace IPv6Address

variable (a : IPv6Address)

def isIn (net : Network) : Bool := net.contains 128 a.ip

def ipv4Mapped : Option IPv4Address :=
  if a.ip / 2 ^ 32 = 0xffff then some ⟨a.ip % 2 ^ 32, Nat.mod_lt _ (by decide)⟩ else none

def privateNetworks : List Network :=
  [⟨groups [0, 0, 0, 0, 0, 0, 0, 1], 128⟩, ⟨0, 128⟩, ⟨groups [0, 0, 0, 0, 0, 0xffff], 96⟩, ⟨groups [0x64, 0xff9b, 1], 48⟩, ⟨groups [0x100], 64⟩,
    ⟨groups [0x2001], 23⟩, ⟨groups [0x2001, 0xdb8], 32⟩, ⟨groups [0x2002], 16⟩, ⟨groups [0x3fff], 20⟩, ⟨groups [0xfc00], 7⟩, ⟨groups [0xfe80], 10⟩]

def privateExceptions : List Network :=
  [⟨groups [0x2001, 1, 0, 0, 0, 0, 0, 1], 128⟩, ⟨groups [0x2001, 1, 0, 0, 0, 0, 0, 2], 128⟩, ⟨groups [0x2001, 3], 32⟩,
    ⟨groups [0x2001, 4, 0x112], 48⟩, ⟨groups [0x2001, 0x20], 28⟩, ⟨groups [0x2001, 0x30], 28⟩]

def reservedNetworks : List Network :=
  [⟨0, 8⟩, ⟨groups [0x100], 8⟩, ⟨groups [0x200], 7⟩, ⟨groups [0x400], 6⟩, ⟨groups [0x800], 5⟩, ⟨groups [0x1000], 4⟩, ⟨groups [0x4000], 3⟩,
    ⟨groups [0x6000], 3⟩, ⟨groups [0x8000], 3⟩, ⟨groups [0xa000], 3⟩, ⟨groups [0xc000], 3⟩, ⟨groups [0xe000], 4⟩, ⟨groups [0xf000], 5⟩,
    ⟨groups [0xf800], 6⟩, ⟨groups [0xfe00], 9⟩]

def isPrivate : Bool :=
  match a.ipv4Mapped with
  | some e => e.isPrivate
  | none => privateNetworks.any a.isIn && !privateExceptions.any a.isIn

def isLoopback : Bool := a.ip = 1

def isLinkLocal : Bool := a.isIn ⟨groups [0xfe80], 10⟩

def isMulticast : Bool := a.isIn ⟨groups [0xff00], 8⟩

def isReserved : Bool := reservedNetworks.any a.isIn

def isUnspecified : Bool := a.ip = 0

end IPv6Address

/-! ## The guard -/

def cgnat : Network := ⟨quad 100 64 0 0, 10⟩

def nat64 : Network := ⟨groups [0x64, 0xff9b], 96⟩

def ula : Network := ⟨groups [0xfc00], 7⟩

/-- 169.254.169.254 -/
def metadataIPv4 : IPv4Address := ⟨quad 169 254 169 254, by decide⟩

/-- fd00:ec2::254 -/
def metadataIPv6 : IPv6Address := ⟨groups [0xfd00, 0xec2, 0, 0, 0, 0, 0, 0x254], by decide, none⟩

def metadata : List Address := [.v4 metadataIPv4, .v6 metadataIPv6]

def Address.unmapped : Address → Address
  | .v4 a => .v4 a
  | .v6 a => (a.ipv4Mapped.map .v4).getD (.v6 a)

/-- Not to be reached in the cloud. -/
def Address.inside : Address → Bool
  | .v4 a => a.isPrivate || a.isLoopback || a.isLinkLocal || a.isMulticast || a.isReserved || a.isUnspecified || a.isIn cgnat
  | .v6 a =>
    a.isPrivate || a.isLoopback || a.isLinkLocal || a.isMulticast || a.isReserved || a.isUnspecified || (a.isIn ula || a.isIn nat64)

def Address.allowed (allowPrivate : Bool) (addr : Address) : Bool :=
  if addr.unmapped ∈ metadata then false else if allowPrivate then true else !addr.unmapped.inside

/-- `address_allowed`, and nothing where it raises. -/
def addressAllowed (allowPrivate : Bool) (ip : String) : Option Bool := (ipAddress ip).map (Address.allowed allowPrivate)

/-! ## Addresses that embed an IPv4 address -/

namespace IPv6Address

variable (a : IPv6Address)

/-- The IPv4 address behind one under 64:ff9b::/96. -/
def translated : Option IPv4Address :=
  if a.isIn nat64 then some ⟨a.ip % 2 ^ 32, Nat.mod_lt _ (by decide)⟩ else none

def embedded : Option IPv4Address := a.ipv4Mapped.or a.translated

end IPv6Address

/-- 64:ff9b::a9fe:a9fe -/
def translatedMetadata : ℕ := groups [0x64, 0xff9b, 0, 0, 0, 0, 0xa9fe, 0xa9fe]

theorem isIn_nat64_iff (a : IPv6Address) : a.isIn nat64 = true ↔ a.ip / 2 ^ 32 = 0x64ff9b0000000000000000 := by
  simp [IPv6Address.isIn, Network.contains, nat64, groups]

/-- A mapped address is allowed as the one that it maps. -/
theorem allowed_mapped {allowPrivate : Bool} {a : IPv6Address} {e : IPv4Address} (h : a.ipv4Mapped = some e) :
    Address.allowed allowPrivate (.v6 a) = Address.allowed allowPrivate (.v4 e) := by
  have hunmapped : (Address.v6 a).unmapped = (Address.v4 e).unmapped := by simp [Address.unmapped, h]
  rw [Address.allowed, Address.allowed, hunmapped]

theorem allowed_v4 (e : IPv4Address) : Address.allowed true (.v4 e) = true ↔ e ≠ metadataIPv4 := by
  simp [Address.allowed, Address.unmapped, metadata]

/-- Under 64:ff9b::/96 every address is allowed where private ones are, and none elsewhere. -/
theorem allowed_nat64 {allowPrivate : Bool} {a : IPv6Address} (h : a.isIn nat64 = true) : Address.allowed allowPrivate (.v6 a) = allowPrivate := by
  have hip := (isIn_nat64_iff a).mp h
  have hmapped : a.ipv4Mapped = none := if_neg (by omega)
  have hmetadata : a ≠ metadataIPv6 := by
    rintro rfl
    exact absurd hip (by decide)
  cases allowPrivate with
  | true => simp [Address.allowed, Address.unmapped, hmapped, metadata, hmetadata]
  | false => simp [Address.allowed, Address.unmapped, hmapped, Address.inside, h]

/-- What an allowed address embeds is allowed, but for the metadata address under 64:ff9b::/96 where
private addresses are allowed. -/
theorem embedded_allowed_iff (allowPrivate : Bool) {a : IPv6Address} {e : IPv4Address} (h : a.embedded = some e) :
    (Address.allowed allowPrivate (.v6 a) = true → Address.allowed allowPrivate (.v4 e) = true) ↔
      ¬(allowPrivate = true ∧ a.ip = translatedMetadata) := by
  rcases hmapped : a.ipv4Mapped with _ | e'
  · rw [IPv6Address.embedded, hmapped, Option.none_or, IPv6Address.translated] at h
    split_ifs at h with hnat64
    obtain rfl := Option.some.inj h
    have hip := (isIn_nat64_iff a).mp hnat64
    have hmetadata : a.ip % 2 ^ 32 = quad 169 254 169 254 ↔ a.ip = translatedMetadata := by
      simp only [quad, translatedMetadata, groups]
      norm_num
      omega
    rw [allowed_nat64 hnat64]
    cases allowPrivate with
    | true =>
      rw [allowed_v4, ← hmetadata]
      simp [metadataIPv4, IPv4Address.mk.injEq]
    | false => simp
  · rw [IPv6Address.embedded, hmapped, Option.some_or] at h
    obtain rfl := Option.some.inj h
    have hip : a.ip / 2 ^ 32 = 0xffff := by
      rw [IPv6Address.ipv4Mapped] at hmapped
      split_ifs at hmapped with hip
      exact hip
    have hne : a.ip ≠ translatedMetadata := by
      intro heq
      rw [heq] at hip
      exact absurd hip (by decide)
    rw [allowed_mapped hmapped]
    simp [hne]

end Upstat.ProbeAddresses
