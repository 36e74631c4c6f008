import Mathlib.Data.List.GetD
import Mathlib.Data.List.TakeWhile
import Mathlib.Tactic.NormNum
import Upstat.ProbeAddresses

/-! # Three guards of an address (`service/monitors.go`, `probe/ssrf.py`, `notifier/channels.py`)

`blockedTarget` is asked when a target is saved, the two `address_allowed` before a connection. `netip` is that of the Go library as
far as the first uses it; the texts of addresses are the same in both libraries, but for what a zone may be. -/
namespace Upstat.AddressGuards

open ProbeAddresses

/-! ## `netip` -/

/-- A zone may have any characters, but must have one. -/
def parseIPv6Zone (s : List Char) : Option IPv6Address := do
  let addr := s.takeWhile (· ≠ '%')
  let zone := s.drop (addr.length + 1)
  if '%' ∈ s ∧ zone = [] then none
  else
    let parts ← ipv6Parts addr
    let n ← ipv6Number parts
    if h : n < 2 ^ 128 then some ⟨n, h, if '%' ∈ s then some zone else none⟩ else none

/-- `netip.ParseAddr` -/
def parseAddr (s : List Char) : Option Address := ((parseIPv4 s).map .v4).or ((parseIPv6Zone s).map .v6)

namespace Go

def isLoopback : Address → Bool
  | .v4 a => a.isIn ⟨quad 127 0 0 0, 8⟩
  | .v6 a => a.ip = 1

def isPrivate : Address → Bool
  | .v4 a => a.isIn ⟨quad 10 0 0 0, 8⟩ || a.isIn ⟨quad 172 16 0 0, 12⟩ || a.isIn ⟨quad 192 168 0 0, 16⟩
  | .v6 a => a.isIn ⟨groups [0xfc00], 7⟩

def isLinkLocalUnicast : Address → Bool
  | .v4 a => a.isIn ⟨quad 169 254 0 0, 16⟩
  | .v6 a => a.isIn ⟨groups [0xfe80], 10⟩

def isLinkLocalMulticast : Address → Bool
  | .v4 a => a.isIn ⟨quad 224 0 0 0, 24⟩
  | .v6 a => a.ip / 2 ^ 120 = 0xff ∧ a.ip / 2 ^ 112 % 16 = 2

/-- With a zone it is not. -/
def isUnspecified : Address → Bool
  | .v4 a => a.ip = 0
  | .v6 a => a.ip = 0 ∧ a.scope_id = none

def isMulticast : Address → Bool
  | .v4 a => a.isIn ⟨quad 224 0 0 0, 4⟩
  | .v6 a => a.isIn ⟨groups [0xff00], 8⟩

/-- `cgnat.Contains(addr)` -/
def inCgnat : Address → Bool
  | .v4 a => a.isIn cgnat
  | .v6 _ => false

end Go

/-! ## `blockedTarget` -/

def trimSuffix (s : List Char) : List Char := if s.getLast? = some '.' then s.dropLast else s

def isBracket (c : Char) : Bool := c = '[' ∨ c = ']'

/-- `strings.Trim(h, "[]")` -/
def trimBrackets (s : List Char) : List Char := ((s.dropWhile isBracket).reverse.dropWhile isBracket).reverse

/-- The names of hosts that are inside. -/
def isInternalName (h : List Char) : Bool :=
  h = "localhost".toList ∨ ".localhost".toList <:+ h ∨ h = "metadata.google.internal".toList ∨ ".internal".toList <:+ h

def isBlocked (addr : Address) : Bool :=
  Go.isLoopback addr || Go.isPrivate addr || Go.isLinkLocalUnicast addr || Go.isLinkLocalMulticast addr || Go.isUnspecified addr ||
    Go.isMulticast addr || Go.inCgnat addr

section
variable (toLower : Char → Char)

/-- `strings.ToLower(strings.TrimSuffix(host, "."))` -/
def normalized (host : List Char) : List Char := (trimSuffix host).map toLower

def blockedTarget (host : List Char) : Bool :=
  let h := normalized toLower host
  if isInternalName h then true
  else
    match parseAddr (trimBrackets h) with
    | none => false
    | some addr => isBlocked addr.unmapped

end

/-! ## The notifier's `address_allowed` -/

/-- Not to be reached; the networks of the probe's guard that `is_private` has are not named again. -/
def notifierInside : Address → Bool
  | .v4 a => a.isPrivate || a.isLoopback || a.isLinkLocal || a.isReserved || a.isMulticast || a.isUnspecified || a.isIn cgnat
  | .v6 a => a.isPrivate || a.isLoopback || a.isLinkLocal || a.isReserved || a.isMulticast || a.isUnspecified || a.isIn nat64

def notifierAllowed (ip : List Char) : Bool :=
  match ipAddress (String.ofList (ip.takeWhile (· ≠ '%'))) with
  | none => false
  | some addr => !notifierInside addr.unmapped

/-! ## Addresses inside -/

section
variable {bits ip : ℕ} {inner outer net other : Network}

theorem contains_iff : net.contains bits ip = true ↔ ip / 2 ^ (bits - net.length) = net.address / 2 ^ (bits - net.length) := decide_eq_true_iff

/-- One network is in another one. -/
def Wider (bits : ℕ) (inner outer : Network) : Prop :=
  outer.length ≤ inner.length ∧ inner.length ≤ bits ∧
    inner.address / 2 ^ (bits - outer.length) = outer.address / 2 ^ (bits - outer.length)

instance : Decidable (Wider bits inner outer) := inferInstanceAs (Decidable (_ ∧ _ ∧ _))

theorem Wider.contains (hwider : Wider bits inner outer) (h : inner.contains bits ip = true) : outer.contains bits ip = true := by
  obtain ⟨hlength, hinner, hnet⟩ := hwider
  rw [contains_iff] at h ⊢
  have hsplit : 2 ^ (bits - outer.length) = 2 ^ (bits - inner.length) * 2 ^ (inner.length - outer.length) := by
    rw [← pow_add]
    congr 1
    omega
  rw [hsplit, ← Nat.div_div_eq_div_mul, h, Nat.div_div_eq_div_mul, ← hsplit, hnet]

/-- The networks differ in their first bits. -/
def Apart (bits : ℕ) (net other : Network) : Prop :=
  net.length ≤ bits ∧ other.length ≤ bits ∧
    net.address / 2 ^ (bits - min net.length other.length) ≠ other.address / 2 ^ (bits - min net.length other.length)

instance : Decidable (Apart bits net other) := inferInstanceAs (Decidable (_ ∧ _ ∧ _))

theorem Apart.contains (hapart : Apart bits net other) (h : net.contains bits ip = true) : other.contains bits ip = false := by
  obtain ⟨hnet, hother, hne⟩ := hapart
  cases ho : other.contains bits ip with
  | false => rfl
  | true =>
    have hnetWider : Wider bits net ⟨net.address, min net.length other.length⟩ := ⟨Nat.min_le_left _ _, hnet, rfl⟩
    have hotherWider : Wider bits other ⟨other.address, min net.length other.length⟩ := ⟨Nat.min_le_right _ _, hother, rfl⟩
    have hfirst := hnetWider.contains h
    have hsecond := hotherWider.contains ho
    rw [contains_iff] at hfirst hsecond
    exact absurd (hfirst.symm.trans hsecond) hne

end

namespace V4

variable {a : IPv4Address}

/-- The special blocks that `blockedTarget` does not know: this network, protocol assignments, documentation, benchmarks, class E. -/
def gapNetworks : List Network :=
  [⟨quad 0 0 0 0, 8⟩, ⟨quad 192 0 0 0, 24⟩, ⟨quad 192 0 2 0, 24⟩, ⟨quad 198 18 0 0, 15⟩, ⟨quad 198 51 100 0, 24⟩, ⟨quad 203 0 113 0, 24⟩,
    ⟨quad 240 0 0 0, 4⟩]

def gap (a : IPv4Address) : Bool := gapNetworks.any a.isIn && (a.ip ≠ 0 && !IPv4Address.privateExceptions.any a.isIn)

/-- What `blockedTarget` knows, besides 0.0.0.0. -/
def blockedNetworks : List Network :=
  [⟨quad 127 0 0 0, 8⟩, ⟨quad 10 0 0 0, 8⟩, ⟨quad 172 16 0 0, 12⟩, ⟨quad 192 168 0 0, 16⟩, ⟨quad 169 254 0 0, 16⟩, ⟨quad 224 0 0 0, 24⟩,
    ⟨quad 224 0 0 0, 4⟩, cgnat]

theorem isBlocked_eq : isBlocked (.v4 a) = (blockedNetworks.any a.isIn || a.ip = 0) := by
  simp only [isBlocked, blockedNetworks, Go.isLoopback, Go.isPrivate, Go.isLinkLocalUnicast, Go.isLinkLocalMulticast, Go.isUnspecified,
    Go.isMulticast, Go.inCgnat, List.any_cons, List.any_nil, Bool.or_false]
  grind

/-- The two addresses of protocol assignments that are reached from everywhere. -/
theorem exception_outside (h : IPv4Address.privateExceptions.any a.isIn = true) :
    (Address.v4 a).inside = false ∧ isBlocked (.v4 a) = false ∧ gap a = false := by
  have hip : a.ip = quad 192 0 0 9 ∨ a.ip = quad 192 0 0 10 := by
    simpa [IPv4Address.privateExceptions, IPv4Address.isIn, contains_iff] using h
  obtain ⟨ip, hlt⟩ := a
  rcases hip with rfl | rfl <;> decide +revert

theorem not_blocked (h : gap a = true) : isBlocked (.v4 a) = false := by
  obtain ⟨hgap, hrest⟩ := Bool.and_eq_true_iff.mp h
  obtain ⟨net, hnet, hin⟩ := List.any_eq_true.mp hgap
  have happart : ∀ net ∈ gapNetworks, ∀ other ∈ blockedNetworks, Apart 32 net other := by decide
  have hzero : a.ip ≠ 0 := of_decide_eq_true (Bool.and_eq_true_iff.mp hrest).1
  rw [isBlocked_eq, decide_eq_false hzero, Bool.or_false]
  apply List.any_eq_false.mpr
  intro other hother hin'
  have hout := (happart net hnet other hother).contains hin
  exact Bool.false_ne_true (hout.symm.trans hin')

theorem inside_iff : (Address.v4 a).inside = true ↔ isBlocked (.v4 a) = true ∨ gap a = true := by
  have hpair : a.isIn ⟨quad 192 0 0 170, 31⟩ = true → a.isIn ⟨quad 192 0 0 0, 24⟩ = true := Wider.contains (by decide)
  have hlast : a.isIn ⟨quad 255 255 255 255, 32⟩ = true → a.isIn ⟨quad 240 0 0 0, 4⟩ = true := Wider.contains (by decide)
  have hlocal : a.isIn ⟨quad 224 0 0 0, 24⟩ = true → a.isIn ⟨quad 224 0 0 0, 4⟩ = true := Wider.contains (by decide)
  have hzero : a.ip = 0 → a.isIn ⟨quad 0 0 0 0, 8⟩ = true := by
    intro h
    rw [IPv4Address.isIn, h]
    decide
  cases he : IPv4Address.privateExceptions.any a.isIn with
  | true =>
    obtain ⟨hinside, hblocked, hgap⟩ := exception_outside he
    simp [hinside, hblocked, hgap]
  | false =>
    simp only [Address.inside, isBlocked_eq, blockedNetworks, gap, gapNetworks, IPv4Address.isPrivate, IPv4Address.privateNetworks, he,
      IPv4Address.isLoopback, IPv4Address.isLinkLocal, IPv4Address.isMulticast, IPv4Address.isReserved, IPv4Address.isUnspecified,
      List.any_cons, List.any_nil, Bool.or_eq_true, Bool.and_eq_true, Bool.not_false, and_true, decide_eq_true_eq, Bool.or_false]
    grind

end V4

namespace V6

variable {a : IPv6Address}

/-- In 2000::/3. -/
def specialNetworks : List Network := [⟨groups [0x2001], 23⟩, ⟨groups [0x2001, 0xdb8], 32⟩, ⟨groups [0x2002], 16⟩, ⟨groups [0x3fff], 20⟩]

/-- The blocks that `blockedTarget` does not know: what is reserved, :: with a zone, and the special ones in 2000::/3. -/
def gap (a : IPv6Address) : Bool :=
  (IPv6Address.reservedNetworks.any a.isIn && (a.ip ≠ 1 && !Go.isUnspecified (.v6 a))) ||
    (specialNetworks.any a.isIn && !IPv6Address.privateExceptions.any a.isIn)

/-- The global unicast addresses. -/
def global : Network := ⟨groups [0x2000], 3⟩

theorem special_global {nets : List Network} (hnets : ∀ net ∈ nets, Wider 128 net global) (h : nets.any a.isIn = true) : a.isIn global = true := by
  obtain ⟨net, hnet, hin⟩ := List.any_eq_true.mp h
  exact (hnets net hnet).contains hin

theorem disjoint {nets : List Network} {other : Network} (hnets : ∀ net ∈ nets, Apart 128 net other) (h : nets.any a.isIn = true) :
    a.isIn other = false := by
  obtain ⟨net, hnet, hin⟩ := List.any_eq_true.mp h
  exact (hnets net hnet).contains hin

theorem inside_iff (hmapped : a.ipv4Mapped = none) :
    ((Address.v6 a).inside = true ↔ isBlocked (.v6 a) = true ∨ gap a = true) ∧ (gap a = true → isBlocked (.v6 a) = false) := by
  have hnot : a.isIn ⟨groups [0, 0, 0, 0, 0, 0xffff], 96⟩ = false := by
    unfold IPv6Address.ipv4Mapped at hmapped
    split at hmapped
    · cases hmapped
    · rename_i hip
      exact decide_eq_false hip
  have hone : a.isIn ⟨groups [0, 0, 0, 0, 0, 0, 0, 1], 128⟩ = true ↔ a.ip = 1 := by
    rw [IPv6Address.isIn, contains_iff, Nat.sub_self, pow_zero, Nat.div_one, Nat.div_one]
    exact Iff.rfl
  have hzero : a.isIn ⟨0, 128⟩ = true ↔ a.ip = 0 := by
    rw [IPv6Address.isIn, contains_iff, Nat.sub_self, pow_zero, Nat.div_one]
    exact Iff.rfl
  have hlow : a.isIn ⟨0, 8⟩ = true → IPv6Address.reservedNetworks.any a.isIn = true := fun h =>
    List.any_eq_true.mpr ⟨⟨0, 8⟩, by simp [IPv6Address.reservedNetworks], h⟩
  have hdiscard : a.isIn ⟨groups [0x100], 64⟩ = true → IPv6Address.reservedNetworks.any a.isIn = true := fun h =>
    List.any_eq_true.mpr ⟨⟨groups [0x100], 8⟩, by simp [IPv6Address.reservedNetworks], Wider.contains (by decide) h⟩
  have hlocal : a.isIn ⟨groups [0x64, 0xff9b, 1], 48⟩ = true → a.isIn ⟨0, 8⟩ = true := Wider.contains (by decide)
  have hnat64 : a.isIn nat64 = true → a.isIn ⟨0, 8⟩ = true := Wider.contains (by decide)
  have hone8 : a.ip = 1 → a.isIn ⟨0, 8⟩ = true := fun h => Wider.contains (by decide) (hone.mpr h)
  have hzero8 : a.ip = 0 → a.isIn ⟨0, 8⟩ = true := fun h => Wider.contains (by decide) (hzero.mpr h)
  have hnotGlobal : a.isIn ⟨0, 8⟩ = true → a.isIn global = false := Apart.contains (by decide)
  have hmulticast : a.ip / 2 ^ 120 = 0xff → a.isIn ⟨groups [0xff00], 8⟩ = true := fun h => contains_iff.mpr h
  have hspecial : specialNetworks.any a.isIn = true → a.isIn global = true := special_global (by decide)
  have hexception : IPv6Address.privateExceptions.any a.isIn = true → a.isIn global = true := special_global (by decide)
  have hreserved : IPv6Address.reservedNetworks.any a.isIn = true → a.isIn global = false := disjoint (by decide)
  have hula : IPv6Address.reservedNetworks.any a.isIn = true → a.isIn ⟨groups [0xfc00], 7⟩ = false := disjoint (by decide)
  have hlink : IPv6Address.reservedNetworks.any a.isIn = true → a.isIn ⟨groups [0xfe80], 10⟩ = false := disjoint (by decide)
  have hmulti : IPv6Address.reservedNetworks.any a.isIn = true → a.isIn ⟨groups [0xff00], 8⟩ = false := disjoint (by decide)
  have hglobal : a.isIn global = true → a.isIn ⟨groups [0xfc00], 7⟩ = false ∧ a.isIn ⟨groups [0xfe80], 10⟩ = false ∧
      a.isIn ⟨groups [0xff00], 8⟩ = false := fun h => ⟨Apart.contains (by decide) h, Apart.contains (by decide) h, Apart.contains (by decide) h⟩
  have hnetworks : IPv6Address.privateNetworks.any a.isIn = (a.isIn ⟨groups [0, 0, 0, 0, 0, 0, 0, 1], 128⟩ || a.isIn ⟨0, 128⟩ ||
      a.isIn ⟨groups [0x64, 0xff9b, 1], 48⟩ || a.isIn ⟨groups [0x100], 64⟩ || specialNetworks.any a.isIn || a.isIn ⟨groups [0xfc00], 7⟩ ||
      a.isIn ⟨groups [0xfe80], 10⟩) := by
    simp only [IPv6Address.privateNetworks, specialNetworks, List.any_cons, List.any_nil, hnot, Bool.false_or, Bool.or_false, Bool.or_assoc]
  simp only [Address.inside, isBlocked, gap, IPv6Address.isPrivate, hmapped, hnetworks, Go.isLoopback, Go.isPrivate, Go.isLinkLocalUnicast,
    Go.isLinkLocalMulticast, Go.isUnspecified, Go.isMulticast, Go.inCgnat, IPv6Address.isLoopback, IPv6Address.isLinkLocal,
    IPv6Address.isMulticast, IPv6Address.isReserved, IPv6Address.isUnspecified, Bool.or_eq_true, Bool.and_eq_true, Bool.not_eq_true',
    Bool.or_eq_false_iff, decide_eq_true_eq, decide_eq_false_iff_not, ula, Bool.or_false]
  generalize IPv6Address.reservedNetworks.any a.isIn = r at *
  generalize specialNetworks.any a.isIn = p at *
  generalize IPv6Address.privateExceptions.any a.isIn = e at *
  grind

end V6

theorem unmapped_some {a : IPv6Address} {e : IPv4Address} (h : a.ipv4Mapped = some e) : (Address.v6 a).unmapped = .v4 e := by
  rw [Address.unmapped, h]
  rfl

theorem unmapped_none {a : IPv6Address} (h : a.ipv4Mapped = none) : (Address.v6 a).unmapped = .v6 a := by
  rw [Address.unmapped, h]
  rfl

/-- Known to the guards before a connection, but not to the one that saves. -/
def gap : Address → Bool
  | .v4 a => V4.gap a
  | .v6 a => V6.gap a

theorem inside_unmapped (addr : Address) : (addr.unmapped.inside = true ↔ isBlocked addr.unmapped = true ∨ gap addr.unmapped = true) ∧
    (gap addr.unmapped = true → isBlocked addr.unmapped = false) := by
  cases addr with
  | v4 a => exact ⟨V4.inside_iff, V4.not_blocked⟩
  | v6 a =>
    cases hmapped : a.ipv4Mapped with
    | some e =>
      rw [unmapped_some hmapped]
      exact ⟨V4.inside_iff, V4.not_blocked⟩
    | none =>
      rw [unmapped_none hmapped]
      exact V6.inside_iff hmapped

/-- The probe's guard and the notifier's are of the same addresses. -/
theorem notifierInside_unmapped (addr : Address) : notifierInside addr.unmapped = addr.unmapped.inside := by
  have hv4 : ∀ e : IPv4Address, notifierInside (.v4 e) = (Address.v4 e).inside := by
    intro e
    simp only [notifierInside, Address.inside, Bool.or_assoc, Bool.or_left_comm e.isReserved e.isMulticast]
  cases addr with
  | v4 a => exact hv4 a
  | v6 a =>
    cases hmapped : a.ipv4Mapped with
    | some e =>
      rw [unmapped_some hmapped]
      exact hv4 e
    | none =>
      rw [unmapped_none hmapped]
      have hula : a.isIn ula = true → a.isPrivate = true := by
        intro h
        have hexception : IPv6Address.privateExceptions.any a.isIn = false := by
          apply List.any_eq_false.mpr
          intro net hnet hin
          have happart : ∀ net ∈ IPv6Address.privateExceptions, Apart 128 ula net := by decide
          exact Bool.false_ne_true (((happart net hnet).contains h).symm.trans hin)
        rw [IPv6Address.isPrivate, hmapped]
        dsimp only
        rw [hexception, List.any_eq_true.mpr ⟨ula, by simp [ula, IPv6Address.privateNetworks], h⟩]
        rfl
      simp only [notifierInside, Address.inside]
      generalize a.isPrivate = private_ at *
      generalize a.isIn ula = u at *
      generalize a.isReserved = r
      generalize a.isMulticast = m
      cases u with
      | false => simp only [Bool.or_assoc, Bool.or_left_comm r m, Bool.false_or]
      | true => simp [hula rfl]

theorem allowed_false (addr : Address) : Address.allowed false addr = !addr.unmapped.inside := by
  unfold Address.allowed
  split
  · rename_i hmem
    have hinside : ∀ m ∈ metadata, m.inside = true := by decide
    rw [hinside _ hmem]
    rfl
  · rfl

/-! ## The texts of addresses -/

def AddressChar (c : Char) : Bool := isHexDigit c || c = ':' || c = '.'

/-- What `strings.ToLower` does with the characters of an address. -/
theorem toLower_ascii : ∀ n < 128, AddressChar (Char.ofNat n) = true →
    isHexDigit (Char.ofNat n).toLower = isHexDigit (Char.ofNat n) ∧ hexValue (Char.ofNat n).toLower = hexValue (Char.ofNat n) ∧
      (isDigit (Char.ofNat n) = true → (Char.ofNat n).toLower = Char.ofNat n) ∧ ((Char.ofNat n).toLower = ':' ↔ Char.ofNat n = ':') ∧
      ((Char.ofNat n).toLower = '.' ↔ Char.ofNat n = '.') ∧ (Char.ofNat n).toLower.toLower = (Char.ofNat n).toLower ∧
      AddressChar (Char.ofNat n).toLower = true := by decide +kernel

theorem toNat_lt {c : Char} (h : AddressChar c = true) : c.toNat < 128 := by
  have hle : ∀ d : Char, c ≤ d → c.toNat ≤ d.toNat := fun d hd => UInt32.le_iff_toNat_le.mp hd
  simp only [AddressChar, isHexDigit, isDigit, Bool.or_eq_true, decide_eq_true_eq] at h
  rcases h with (((⟨-, h⟩ | ⟨-, h⟩) | ⟨-, h⟩) | rfl) | rfl
  · exact lt_of_le_of_lt (hle '9' h) (by decide)
  · exact lt_of_le_of_lt (hle 'f' h) (by decide)
  · exact lt_of_le_of_lt (hle 'F' h) (by decide)
  · decide
  · decide

section
variable {sep c : Char} {s l : List Char} {init : List (List Char)}

theorem mem_splitOn (hc : c ∈ s) : c = sep ∨ ∃ p ∈ s.splitOn sep, c ∈ p := by
  induction s with
  | nil => cases hc
  | cons x xs ih =>
    rw [List.splitOn_cons_eq_if_modifyHead]
    split
    · rename_i hx
      rcases List.mem_cons.mp hc with rfl | hc
      · exact Or.inl (beq_iff_eq.mp hx)
      · exact (ih hc).imp_right fun ⟨p, hp, hcp⟩ => ⟨p, List.mem_cons_of_mem _ hp, hcp⟩
    · cases hsplit : xs.splitOn sep with
      | nil => exact absurd hsplit (List.splitOn_ne_nil sep xs)
      | cons p ps =>
        rw [List.modifyHead_cons]
        rcases List.mem_cons.mp hc with rfl | hc
        · exact Or.inr ⟨c :: p, List.mem_cons_self, List.mem_cons_self⟩
        · rcases ih hc with hsep | ⟨q, hq, hcq⟩
          · exact Or.inl hsep
          · rw [hsplit] at hq
            rcases List.mem_cons.mp hq with rfl | hq
            · exact Or.inr ⟨x :: q, List.mem_cons_self, List.mem_cons_of_mem _ hcq⟩
            · exact Or.inr ⟨q, List.mem_cons_of_mem _ hq, hcq⟩

theorem splitOn_map {f : Char → Char} (h : ∀ c ∈ s, f c = sep ↔ c = sep) : (s.map f).splitOn sep = (s.splitOn sep).map (List.map f) := by
  induction s with
  | nil => rfl
  | cons x xs ih =>
    obtain ⟨hx, hxs⟩ := List.forall_mem_cons.mp h
    rw [List.map_cons, List.splitOn_cons_eq_if_modifyHead, List.splitOn_cons_eq_if_modifyHead, ih hxs]
    by_cases hsep : x = sep
    · rw [if_pos (beq_iff_eq.mpr (hx.mpr hsep)), if_pos (beq_iff_eq.mpr hsep)]
      rfl
    · rw [if_neg fun heq => hsep (hx.mp (beq_iff_eq.mp heq)), if_neg fun heq => hsep (beq_iff_eq.mp heq)]
      cases xs.splitOn sep <;> rfl

/-- What is after the last separator is at the end. -/
theorem suffix_intercalate (hne : init ≠ []) : sep :: l <:+ [sep].intercalate (init ++ [l]) := by
  induction init with
  | nil => exact absurd rfl hne
  | cons i init ih =>
    cases init with
    | nil =>
      rw [List.singleton_append, List.intercalate_cons_cons, List.intercalate_singleton]
      exact ⟨i, by simp⟩
    | cons j rest =>
      rw [List.cons_append, List.cons_append, List.intercalate_cons_cons]
      exact (ih (List.cons_ne_nil _ _)).trans (List.suffix_append _ _)

theorem suffix_splitOn (h : s.splitOn sep = init ++ [l]) (hne : init ≠ []) : sep :: l <:+ s := by
  have hjoin : [sep].intercalate (s.splitOn sep) = s := List.intercalate_splitOn sep
  rw [← hjoin, h]
  exact suffix_intercalate hne

end

theorem mapM_some {α β : Type} {f : α → Option β} {l : List α} {vs : List β} (h : l.mapM f = some vs) : ∀ a ∈ l, ∃ b, f a = some b := by
  induction l generalizing vs with
  | nil => exact nofun
  | cons a l ih =>
    rw [List.mapM_cons] at h
    obtain ⟨b, hb, h⟩ := Option.bind_eq_some_iff.mp h
    obtain ⟨bs, hbs, -⟩ := Option.bind_eq_some_iff.mp h
    exact List.forall_mem_cons.mpr ⟨⟨b, hb⟩, ih hbs⟩

theorem parseOctet_digits {p : List Char} {n : ℕ} (h : parseOctet p = some n) : p ≠ [] ∧ p.all isDigit = true := by
  unfold parseOctet at h
  split at h
  · cases h
  · rename_i hnot
    push Not at hnot
    exact ⟨hnot.1, hnot.2.1⟩

theorem parseIPv4_octets {s : List Char} {a : IPv4Address} (h : parseIPv4 s = some a) :
    ∀ p ∈ s.splitOn '.', p ≠ [] ∧ p.all isDigit = true := by
  unfold parseIPv4 at h
  split at h
  · cases h
  · dsimp only at h
    split at h
    · cases h
    · obtain ⟨values, hvalues, -⟩ := Option.bind_eq_some_iff.mp h
      intro p hp
      obtain ⟨n, hn⟩ := mapM_some hvalues p hp
      exact parseOctet_digits hn

theorem parseIPv4_chars {s : List Char} {a : IPv4Address} (h : parseIPv4 s = some a) : ∀ c ∈ s, isDigit c = true ∨ c = '.' := by
  intro c hc
  have hpart : c = '.' ∨ ∃ p ∈ s.splitOn '.', c ∈ p := mem_splitOn hc
  rcases hpart with hsep | ⟨p, hp, hcp⟩
  · exact Or.inr hsep
  · exact Or.inl (List.all_eq_true.mp (parseIPv4_octets h p hp).2 c hcp)

/-- An address does not end in a dot. -/
theorem parseIPv4_last {s : List Char} {a : IPv4Address} (h : parseIPv4 s = some a) : s.getLast? ≠ some '.' := by
  intro hlast
  obtain ⟨t, rfl⟩ := List.getLast?_eq_some_iff.mp hlast
  have hmem : [] ∈ (t ++ ['.']).splitOn '.' := by
    rw [List.splitOn_append_cons_self]
    exact List.mem_append_right _ (by rw [List.splitOn_nil]; exact List.mem_singleton_self _)
  exact (parseIPv4_octets h [] hmem).1 rfl

theorem parseHextet_chars {p : List Char} {n : ℕ} (h : parseHextet p = some n) : p.all isHexDigit = true := by
  unfold parseHextet at h
  split at h
  · cases h
  · rename_i hnot
    push Not at hnot
    exact hnot.2.1

theorem hextets_chars {base n : ℕ} {ps : List (List Char)} (h : hextets base ps = some n) : ∀ p ∈ ps, p.all isHexDigit = true := by
  obtain ⟨values, hvalues, -⟩ := Option.bind_eq_some_iff.mp h
  intro p hp
  obtain ⟨m, hm⟩ := mapM_some hvalues p hp
  exact parseHextet_chars hm

theorem mem_take_or_drop {α : Type} {l : List α} {i : ℕ} {d a : α} (ha : a ∈ l) : a ∈ l.take i ∨ a = l.getD i d ∨ a ∈ l.drop (i + 1) := by
  rcases Nat.lt_or_ge i l.length with hi | hi
  · rw [← List.take_append_drop i l, List.drop_eq_getElem_cons hi] at ha
    rcases List.mem_append.mp ha with ha | ha
    · exact Or.inl ha
    · rcases List.mem_cons.mp ha with rfl | ha
      · rw [List.getD_eq_getElem _ _ hi]
        exact Or.inr (Or.inl rfl)
      · exact Or.inr (Or.inr ha)
  · rw [List.take_of_length_le hi]
    exact Or.inl ha

theorem mem_tail_of_head {α : Type} {l : List α} {d a : α} (hhead : l.head? = some d) (ha : a ∈ l) : a = d ∨ a ∈ l.tail := by
  cases l with
  | nil => cases ha
  | cons b l =>
    cases hhead
    exact List.mem_cons.mp ha

/-- What is written before the empty part, and after it. -/
def high (i : ℕ) (parts : List (List Char)) : List (List Char) := if parts.head? = some [] then (parts.take i).tail else parts.take i

def low (i : ℕ) (parts : List (List Char)) : List (List Char) :=
  if parts.getLast? = some [] then (parts.drop (i + 1)).dropLast else parts.drop (i + 1)

theorem ipv6Number_eq (parts : List (List Char)) : ipv6Number parts =
    if 9 < parts.length then none
    else
      match skips parts with
      | [] => if parts.length ≠ 8 ∨ parts.head? = some [] ∨ parts.getLast? = some [] then none else hextets 0 parts
      | [i] =>
        if (parts.head? = some [] ∧ high i parts ≠ []) ∨ (parts.getLast? = some [] ∧ low i parts ≠ []) ∨
            8 ≤ (high i parts).length + (low i parts).length then none
        else
          (hextets 0 (high i parts)).bind fun n =>
            hextets (n * 65536 ^ (8 - ((high i parts).length + (low i parts).length))) (low i parts)
      | _ => none := rfl

theorem mem_high {i : ℕ} {parts : List (List Char)} {p : List Char} (hp : p ∈ parts.take i) : p = [] ∨ p ∈ high i parts := by
  unfold high
  split
  · rename_i hhead
    apply mem_tail_of_head _ hp
    cases parts with
    | nil => cases hhead
    | cons q qs =>
      cases i with
      | zero => cases hp
      | succ i => exact hhead
  · exact Or.inr hp

theorem mem_low {i : ℕ} {parts : List (List Char)} {p : List Char} (hp : p ∈ parts.drop (i + 1)) : p = [] ∨ p ∈ low i parts := by
  unfold low
  split
  · rename_i hlast
    have hend : (parts.drop (i + 1)).getLast? = some [] := by
      rw [List.getLast?_drop, if_neg, hlast]
      intro hle
      rw [List.drop_eq_nil_of_le hle] at hp
      cases hp
    obtain ⟨init, hinit⟩ := List.getLast?_eq_some_iff.mp hend
    rw [hinit] at hp ⊢
    rw [List.dropLast_concat]
    rcases List.mem_append.mp hp with hp | hp
    · exact Or.inr hp
    · exact Or.inl (List.mem_singleton.mp hp)
  · exact Or.inr hp

/-- The parts of an address are hexadecimal, or empty at its gap. -/
theorem ipv6Number_chars {parts : List (List Char)} {n : ℕ} (h : ipv6Number parts = some n) : ∀ p ∈ parts, p.all isHexDigit = true := by
  rw [ipv6Number_eq] at h
  split at h
  · cases h
  · split at h
    · split at h
      · cases h
      · exact hextets_chars h
    · rename_i i hskip
      split at h
      · cases h
      · obtain ⟨m, hhigh, hlow⟩ := Option.bind_eq_some_iff.mp h
        have hgap : parts.getD i [] = [] := by
          have hmem : i ∈ skips parts := by rw [hskip]; exact List.mem_singleton_self i
          exact of_decide_eq_true (List.mem_filter.mp hmem).2
        intro p hp
        rcases mem_take_or_drop (i := i) (d := []) hp with hp | rfl | hp
        · rcases mem_high hp with rfl | hp
          · rfl
          · exact hextets_chars hhigh p hp
        · rw [hgap]
          rfl
        · rcases mem_low hp with rfl | hp
          · rfl
          · exact hextets_chars hlow p hp
    · cases h

/-! ## Letters of either case -/

section
variable {f : List Char → List Char} {parts : List (List Char)}

theorem hextets_map {base : ℕ} (h : ∀ p ∈ parts, parseHextet (f p) = parseHextet p) : hextets base (parts.map f) = hextets base parts := by
  unfold hextets
  have hvalues : (parts.map f).mapM parseHextet = parts.mapM parseHextet := by
    induction parts with
    | nil => rfl
    | cons p ps ih =>
      obtain ⟨hp, hps⟩ := List.forall_mem_cons.mp h
      rw [List.map_cons, List.mapM_cons, List.mapM_cons, hp, ih hps]
  rw [hvalues]

theorem high_map (hnil : ∀ p, f p = [] ↔ p = []) (i : ℕ) : high i (parts.map f) = (high i parts).map f := by
  have hhead : (parts.map f).head? = some [] ↔ parts.head? = some [] := by
    cases parts with
    | nil => rfl
    | cons p ps => simp [hnil]
  unfold high
  simp only [hhead, ← List.map_take]
  split
  · rw [List.map_tail]
  · rfl

theorem getLast_map (hnil : ∀ p, f p = [] ↔ p = []) : (parts.map f).getLast? = some [] ↔ parts.getLast? = some [] := by
  rw [List.getLast?_map]
  cases parts.getLast? with
  | none => simp
  | some p => simp [hnil]

theorem low_map (hnil : ∀ p, f p = [] ↔ p = []) (i : ℕ) : low i (parts.map f) = (low i parts).map f := by
  unfold low
  simp only [getLast_map hnil, ← List.map_drop]
  split
  · rw [List.map_dropLast]
  · rfl

theorem skips_map (hnil : ∀ p, f p = [] ↔ p = []) : skips (parts.map f) = skips parts := by
  unfold skips
  rw [List.length_map]
  congr 1
  funext i
  have hempty : (parts.map f).getD i [] = [] ↔ parts.getD i [] = [] := by
    simp only [List.getD_eq_getElem?_getD, List.getElem?_map]
    cases parts[i]? with
    | none => simp
    | some p => simp [hnil]
  exact decide_eq_decide.mpr hempty

/-- The number is read from the parts' values. -/
theorem ipv6Number_map (hnil : ∀ p, f p = [] ↔ p = []) (h : ∀ p ∈ parts, parseHextet (f p) = parseHextet p) :
    ipv6Number (parts.map f) = ipv6Number parts := by
  have hhead : (parts.map f).head? = some [] ↔ parts.head? = some [] := by
    cases parts with
    | nil => rfl
    | cons p ps => simp [hnil]
  have hhigh : ∀ i, ∀ p ∈ high i parts, p ∈ parts := by
    intro i p hp
    unfold high at hp
    split at hp
    · exact List.mem_of_mem_take (List.mem_of_mem_tail hp)
    · exact List.mem_of_mem_take hp
  have hlow : ∀ i, ∀ p ∈ low i parts, p ∈ parts := by
    intro i p hp
    unfold low at hp
    split at hp
    · exact List.mem_of_mem_drop ((List.dropLast_sublist _).subset hp)
    · exact List.mem_of_mem_drop hp
  rw [ipv6Number_eq, ipv6Number_eq, List.length_map, skips_map hnil]
  split
  · rfl
  · split
    · simp only [hhead, getLast_map hnil, hextets_map h]
    · rename_i i _
      have hhighMap : ∀ base, hextets base ((high i parts).map f) = hextets base (high i parts) := fun base =>
        hextets_map fun p hp => h p (hhigh i p hp)
      have hlowMap : ∀ base, hextets base ((low i parts).map f) = hextets base (low i parts) := fun base =>
        hextets_map fun p hp => h p (hlow i p hp)
      simp only [hhead, getLast_map hnil, high_map hnil, low_map hnil, List.length_map, hhighMap, hlowMap, ne_eq, List.map_eq_nil_iff]
    · rfl

end

section
variable {toLower : Char → Char} (hlower : ∀ c : Char, c.toNat < 128 → toLower c = c.toLower)
include hlower

theorem lower_facts {c : Char} (h : AddressChar c = true) : isHexDigit (toLower c) = isHexDigit c ∧ hexValue (toLower c) = hexValue c ∧
    (isDigit c = true → toLower c = c) ∧ (toLower c = ':' ↔ c = ':') ∧ (toLower c = '.' ↔ c = '.') ∧ toLower (toLower c) = toLower c ∧
      AddressChar (toLower c) = true := by
  have hlt := toNat_lt h
  have hascii := toLower_ascii c.toNat hlt
  rw [Char.ofNat_toNat] at hascii
  have hfacts := hascii h
  have htwice : toLower c.toLower = c.toLower.toLower := hlower _ (toNat_lt hfacts.2.2.2.2.2.2)
  rw [hlower c hlt, htwice]
  exact hfacts

omit hlower in
theorem hex_addressChar {p : List Char} (h : p.all isHexDigit = true) : ∀ c ∈ p, AddressChar c = true := by
  intro c hc
  rw [AddressChar, List.all_eq_true.mp h c hc]
  rfl

theorem parseHextet_lower {p : List Char} (h : p.all isHexDigit = true) : parseHextet (p.map toLower) = parseHextet p := by
  have hchars := hex_addressChar h
  have hall : (p.map toLower).all isHexDigit = true := by
    rw [List.all_map]
    apply List.all_eq_true.mpr
    intro c hc
    rw [Function.comp_apply, (lower_facts hlower (hchars c hc)).1]
    exact List.all_eq_true.mp h c hc
  have hnumber : ∀ m, (p.map toLower).foldl (fun n c => n * 16 + hexValue c) m = p.foldl (fun n c => n * 16 + hexValue c) m := by
    intro m
    rw [List.foldl_map]
    induction p generalizing m with
    | nil => rfl
    | cons c p ih =>
      obtain ⟨hc, hp⟩ := List.forall_mem_cons.mp hchars
      rw [List.foldl_cons, List.foldl_cons, (lower_facts hlower hc).2.1]
      rw [List.all_cons, Bool.and_eq_true_iff] at h
      rw [List.map_cons, List.all_cons, Bool.and_eq_true_iff] at hall
      exact ih h.2 hp hall.2 _
  unfold parseHextet ProbeAddresses.number
  rw [hall, h, List.length_map, hnumber]
  simp only [List.map_eq_nil_iff]

theorem digits_lower {s : List Char} (h : ∀ c ∈ s, isDigit c = true ∨ c = '.') : s.map toLower = s := by
  have hsame : ∀ c ∈ s, toLower c = c := by
    intro c hc
    rcases h c hc with hdigit | rfl
    · exact (lower_facts hlower (by simp [AddressChar, isHexDigit, hdigit])).2.2.1 hdigit
    · exact hlower '.' (by decide)
  exact (List.map_congr_left hsame).trans (List.map_id' s)

theorem lower_twice {p : List Char} (h : p.all isHexDigit = true) : (p.map toLower).map toLower = p.map toLower := by
  rw [List.map_map]
  exact List.map_congr_left fun c hc => (lower_facts hlower (hex_addressChar h c hc)).2.2.2.2.2.1

theorem hex_lower {p : List Char} (h : p.all isHexDigit = true) : (p.map toLower).all isHexDigit = true := by
  apply List.all_eq_true.mpr
  intro c hc
  obtain ⟨d, hd, rfl⟩ := List.mem_map.mp hc
  rw [(lower_facts hlower (hex_addressChar h d hd)).1]
  exact List.all_eq_true.mp h d hd

/-- The number of a text does not change with its case. -/
theorem ipv6Parts_lower {s : List Char} {parts : List (List Char)} {n : ℕ} (hparts : ipv6Parts s = some parts) (hnumber : ipv6Number parts = some n) :
    (∀ c ∈ s, AddressChar c = true) ∧ s.getLast? ≠ some '.' ∧ (ipv6Parts (s.map toLower)).bind ipv6Number = some n := by
  have hhex := ipv6Number_chars hnumber
  unfold ipv6Parts at hparts
  dsimp only at hparts
  split at hparts
  · cases hparts
  · rename_i hlength
    obtain ⟨last, hlast⟩ : ∃ last, (s.splitOn ':').getLast? = some last :=
      ⟨_, List.getLast?_eq_some_getLast (List.splitOn_ne_nil ':' s)⟩
    obtain ⟨init, hsplit⟩ := List.getLast?_eq_some_iff.mp hlast
    have hinit : init ≠ [] := by
      rintro rfl
      rw [hsplit] at hlength
      exact hlength (by simp)
    have hsuffix := suffix_splitOn hsplit hinit
    rw [hlast, Option.getD_some] at hparts
    -- the characters, from those of the parts
    have hchars : ∀ c ∈ s, AddressChar c = true := by
      intro c hc
      have hpart : c = ':' ∨ ∃ p ∈ s.splitOn ':', c ∈ p := mem_splitOn hc
      rcases hpart with rfl | ⟨p, hp, hcp⟩
      · rfl
      · rw [hsplit] at hp
        split at hparts
        · obtain ⟨a, ha, rfl⟩ := Option.map_eq_some_iff.mp hparts
          rcases List.mem_append.mp hp with hp | hp
          · refine hex_addressChar (hhex p ?_) c hcp
            rw [hsplit, List.dropLast_concat]
            exact List.mem_append_left _ hp
          · rw [List.mem_singleton.mp hp] at hcp
            rcases parseIPv4_chars ha c hcp with hdigit | rfl
            · simp [AddressChar, isHexDigit, hdigit]
            · rfl
        · cases hparts
          exact hex_addressChar (hhex p (hsplit ▸ hp)) c hcp
    have hcolon : ∀ c ∈ s, toLower c = ':' ↔ c = ':' := fun c hc => (lower_facts hlower (hchars c hc)).2.2.2.1
    have hlowered := splitOn_map hcolon
    refine ⟨hchars, ?_, ?_⟩
    · obtain ⟨before, hbefore⟩ := hsuffix
      rw [← hbefore, List.getLast?_append, List.getLast?_cons, Option.some_or]
      intro hdot
      cases hend : last.getLast? with
      | none =>
        rw [hend] at hdot
        exact absurd hdot (by decide)
      | some d =>
        rw [hend] at hdot
        obtain rfl : d = '.' := Option.some.inj hdot
        rw [if_pos (List.mem_of_getLast? hend)] at hparts
        obtain ⟨a, ha, -⟩ := Option.map_eq_some_iff.mp hparts
        exact parseIPv4_last ha hend
    · unfold ipv6Parts
      dsimp only
      rw [hlowered, List.length_map, if_neg hlength, List.getLast?_map, hlast, Option.map_some, Option.getD_some]
      split at hparts
      · rename_i hdot
        obtain ⟨a, ha, rfl⟩ := Option.map_eq_some_iff.mp hparts
        rw [digits_lower hlower (parseIPv4_chars ha), if_pos hdot, ha, Option.map_some, Option.bind_some, ← List.map_dropLast]
        rw [hsplit, List.dropLast_concat] at hhex hnumber ⊢
        generalize [Nat.toDigits 16 (a.ip / 65536), Nat.toDigits 16 (a.ip % 65536)] = ends at *
        have hinitHex : ∀ p ∈ init, p.all isHexDigit = true := fun p hp => hhex p (List.mem_append_left _ hp)
        have hendsHex : ∀ p ∈ ends, p.all isHexDigit = true := fun p hp => hhex p (List.mem_append_right _ hp)
        have hnil : ∀ p : List Char, p.map toLower = [] ↔ p = [] := fun p => List.map_eq_nil_iff
        -- the end is not in lower case by the change, but its value is the same
        have hsame : (init.map (List.map toLower) ++ ends).map (List.map toLower) = (init ++ ends).map (List.map toLower) := by
          rw [List.map_append, List.map_append, List.map_map]
          congr 1
          exact List.map_congr_left fun p hp => lower_twice hlower (hinitHex p hp)
        rw [← ipv6Number_map (f := List.map toLower) hnil, hsame, ipv6Number_map hnil]
        · exact hnumber
        · exact fun p hp => parseHextet_lower hlower (hhex p hp)
        · intro p hp
          rcases List.mem_append.mp hp with hp | hp
          · obtain ⟨q, hq, rfl⟩ := List.mem_map.mp hp
            exact parseHextet_lower hlower (hex_lower hlower (hinitHex q hq))
          · exact parseHextet_lower hlower (hendsHex p hp)
      · rename_i hdot
        cases hparts
        have hnone : '.' ∉ last.map toLower := by
          intro hmem
          obtain ⟨c, hc, heq⟩ := List.mem_map.mp hmem
          have hcs : c ∈ s := hsuffix.subset (List.mem_cons_of_mem _ hc)
          have hdotc := (lower_facts hlower (hchars c hcs)).2.2.2.2.1.mp heq
          exact hdot (hdotc ▸ hc)
        rw [if_neg hnone, Option.bind_some, ipv6Number_map (fun p => List.map_eq_nil_iff) fun p hp => parseHextet_lower hlower (hhex p hp)]
        exact hnumber

end

/-! ## Hosts -/

theorem parseIPv4_colon {s : List Char} (h : ':' ∈ s) : parseIPv4 s = none := by
  cases hs : parseIPv4 s with
  | none => rfl
  | some a =>
    rcases parseIPv4_chars hs ':' h with hdigit | hdot
    · exact absurd hdigit (by decide)
    · exact absurd hdot (by decide)

theorem colon_mem {s : List Char} {parts : List (List Char)} (h : ipv6Parts s = some parts) : ':' ∈ s := by
  by_contra hnot
  unfold ipv6Parts at h
  dsimp only at h
  rw [List.splitOn_eq_singleton hnot, if_pos (by simp)] at h
  cases h

/-- What is read of a text as an IPv6 address. -/
theorem parseIPv6_parts {s : List Char} {a : IPv6Address} (h : parseIPv6 s = some a) :
    ∃ parts, ipv6Parts (s.takeWhile (· ≠ '%')) = some parts ∧ ipv6Number parts = some a.ip ∧ '/' ∉ s ∧
      (a.scope_id.isSome = true ↔ '%' ∈ s) ∧ ('%' ∈ s → s.drop ((s.takeWhile (· ≠ '%')).length + 1) ≠ []) := by
  unfold parseIPv6 at h
  split at h
  · cases h
  · rename_i hslash
    dsimp only at h
    split at h
    · cases h
    · rename_i hscope
      obtain ⟨parts, hparts, h⟩ := Option.bind_eq_some_iff.mp h
      obtain ⟨n, hn, h⟩ := Option.bind_eq_some_iff.mp h
      split at h
      · cases h
        refine ⟨parts, hparts, hn, hslash, ?_, fun hzone hnil => hscope ⟨hzone, Or.inl hnil⟩⟩
        by_cases hzone : '%' ∈ s <;> simp [hzone]
      · cases h

theorem parseIPv6_plain {s : List Char} {parts : List (List Char)} {n : ℕ} (hzone : '%' ∉ s) (hslash : '/' ∉ s)
    (hparts : ipv6Parts s = some parts) (hnumber : ipv6Number parts = some n) (hlt : n < 2 ^ 128) :
    parseIPv6 s = some ⟨n, hlt, none⟩ := by
  have haddr : s.takeWhile (· ≠ '%') = s := List.takeWhile_eq_self_iff.mpr fun c hc => decide_eq_true fun heq => hzone (heq ▸ hc)
  unfold parseIPv6
  rw [if_neg hslash]
  dsimp only
  rw [if_neg fun h => hzone h.1, haddr, hparts]
  change (do let n ← ipv6Number parts; if h : n < 2 ^ 128 then some (⟨n, h, if '%' ∈ s then some _ else none⟩ : IPv6Address) else none) = _
  rw [hnumber, if_neg hzone]
  exact dif_pos hlt

theorem parseIPv6Zone_of {s : List Char} {n : ℕ} (hzone : ¬('%' ∈ s ∧ s.drop ((s.takeWhile (· ≠ '%')).length + 1) = []))
    (hnumber : (ipv6Parts (s.takeWhile (· ≠ '%'))).bind ipv6Number = some n) (hlt : n < 2 ^ 128) :
    ∃ z, parseIPv6Zone s = some ⟨n, hlt, z⟩ ∧ (z.isSome = true ↔ '%' ∈ s) := by
  obtain ⟨parts, hparts, hn⟩ := Option.bind_eq_some_iff.mp hnumber
  refine ⟨if '%' ∈ s then some (s.drop ((s.takeWhile (· ≠ '%')).length + 1)) else none, ?_, ?_⟩
  · unfold parseIPv6Zone
    dsimp only
    rw [if_neg hzone, hparts]
    change (do let n ← ipv6Number parts; if h : n < 2 ^ 128 then some (⟨n, h, if '%' ∈ s then some _ else none⟩ : IPv6Address) else none) = _
    rw [hn]
    exact dif_pos hlt
  · by_cases h : '%' ∈ s <;> simp [h]

/-- The zone matters only in that there is one. -/
theorem isBlocked_zone {n : ℕ} {hlt : n < 2 ^ 128} {z z' : Option (List Char)} (h : z.isSome = true ↔ z'.isSome = true) :
    isBlocked (Address.v6 ⟨n, hlt, z⟩).unmapped = isBlocked (Address.v6 ⟨n, hlt, z'⟩).unmapped := by
  have hnone : z = none ↔ z' = none := by
    rw [← Option.not_isSome_iff_eq_none, ← Option.not_isSome_iff_eq_none, h]
  cases hmapped : (⟨n, hlt, z⟩ : IPv6Address).ipv4Mapped with
  | some e => rw [unmapped_some hmapped, unmapped_some (a := ⟨n, hlt, z'⟩) hmapped]
  | none =>
    have hunspecified : Go.isUnspecified (.v6 ⟨n, hlt, z⟩) = Go.isUnspecified (.v6 ⟨n, hlt, z'⟩) :=
      decide_eq_decide.mpr (and_congr_right fun _ => hnone)
    rw [unmapped_none hmapped, unmapped_none (a := ⟨n, hlt, z'⟩) hmapped, isBlocked, isBlocked, hunspecified]
    rfl

theorem inside_zone {n : ℕ} {hlt : n < 2 ^ 128} {z z' : Option (List Char)} :
    (Address.v6 ⟨n, hlt, z⟩).unmapped.inside = (Address.v6 ⟨n, hlt, z'⟩).unmapped.inside := by
  cases hmapped : (⟨n, hlt, z⟩ : IPv6Address).ipv4Mapped with
  | some e => rw [unmapped_some hmapped, unmapped_some (a := ⟨n, hlt, z'⟩) hmapped]
  | none =>
    rw [unmapped_none hmapped, unmapped_none (a := ⟨n, hlt, z'⟩) hmapped]
    rfl

theorem trimBrackets_self {s : List Char} (h : ∀ c ∈ s, isBracket c = false) : trimBrackets s = s := by
  have hdrop : ∀ l : List Char, (∀ c ∈ l, isBracket c = false) → l.dropWhile isBracket = l := by
    intro l hl
    cases l with
    | nil => rfl
    | cons c l => exact List.dropWhile_cons_of_neg (by simp [hl c List.mem_cons_self])
  unfold trimBrackets
  rw [hdrop s h, hdrop s.reverse fun c hc => h c (List.mem_reverse.mp hc), List.reverse_reverse]

/-- What stands before a zone stays. -/
theorem trimBrackets_zone {x w : List Char} (hx : x ≠ []) (h : ∀ c ∈ x, isBracket c = false) :
    trimBrackets (x ++ '%' :: w) = x ++ '%' :: (w.reverse.dropWhile isBracket).reverse := by
  cases x with
  | nil => exact absurd rfl hx
  | cons c x =>
    unfold trimBrackets
    rw [List.cons_append, List.dropWhile_cons_of_neg (by simp [h c List.mem_cons_self]), ← List.cons_append, List.reverse_append,
      List.reverse_cons, List.append_assoc, List.dropWhile_append]
    cases hw : (w.reverse.dropWhile isBracket) with
    | nil =>
      rw [if_pos List.isEmpty_nil, List.singleton_append, List.dropWhile_cons_of_neg (by decide)]
      simp
    | cons d w' => simp

theorem not_internal {s : List Char} (h : ∀ c ∈ s, AddressChar c = true) : isInternalName s = false := by
  have hnot : ∀ c, AddressChar c = false → c ∉ s := fun c hc hmem => by
    rw [h c hmem] at hc
    cases hc
  unfold isInternalName
  apply decide_eq_false
  rintro (rfl | hsuffix | rfl | hsuffix)
  · exact hnot 'l' (by decide) (by decide)
  · exact hnot 'l' (by decide) (hsuffix.subset (by decide))
  · exact hnot 'm' (by decide) (by decide)
  · exact hnot 'i' (by decide) (hsuffix.subset (by decide))

theorem not_bracket {c : Char} (h : AddressChar c = true) : isBracket c = false := by
  unfold isBracket
  apply decide_eq_false
  rintro (rfl | rfl) <;> exact absurd h (by decide)

/-! ## The guards of a host -/

/-- What is accepted when it is saved is what is accepted before a connection. -/
structure Agree (toLower : Char → Char) (host : String) : Prop where
  probe : blockedTarget toLower host.toList = false ↔ addressAllowed false host = some true
  notifier : blockedTarget toLower host.toList = false ↔ notifierAllowed host.toList = true

/-- The address is not one of the gap; where a zone makes the text a name inside, or what is left of it is no address, it is an address
inside, or outside. -/
def Covered (toLower : Char → Char) (host : List Char) (addr : Address) : Prop :=
  if isInternalName (normalized toLower host) then addr.unmapped.inside = true
  else if (parseAddr (trimBrackets (normalized toLower host))).isNone then addr.unmapped.inside = false
  else gap addr.unmapped = false

section
variable {toLower : Char → Char} {s : List Char}

theorem trimSuffix_self (h : s.getLast? ≠ some '.') : trimSuffix s = s := if_neg h

theorem trimSuffix_zone {x z : List Char} (hz : z ≠ []) : trimSuffix (x ++ '%' :: z) = x ++ '%' :: trimSuffix z := by
  cases z with
  | nil => exact absurd rfl hz
  | cons c z =>
    unfold trimSuffix
    rw [List.getLast?_append, List.getLast?_cons_cons]
    cases hlast : (c :: z).getLast? with
    | none => cases List.getLast?_eq_none_iff.mp hlast
    | some d =>
      rw [Option.some_or]
      split
      · rw [List.dropLast_append_of_ne_nil (List.cons_ne_nil _ _), List.dropLast_cons_of_ne_nil (List.cons_ne_nil _ _)]
      · rfl

/-- What the saving guard makes of an address: the same one, unless its zone is a name or is lost. -/
theorem blockedTarget_v4 (hlower : ∀ c : Char, c.toNat < 128 → toLower c = c.toLower) {a : IPv4Address} (h : parseIPv4 s = some a) :
    isInternalName (normalized toLower s) = false ∧ parseAddr (trimBrackets (normalized toLower s)) = some (.v4 a) := by
  have hchars := parseIPv4_chars h
  have haddress : ∀ c ∈ s, AddressChar c = true := by
    intro c hc
    rcases hchars c hc with hdigit | rfl
    · simp [AddressChar, isHexDigit, hdigit]
    · rfl
  have hsame : normalized toLower s = s := by
    unfold normalized
    rw [trimSuffix_self (parseIPv4_last h), digits_lower hlower hchars]
  rw [hsame, trimBrackets_self fun c hc => not_bracket (haddress c hc)]
  refine ⟨not_internal haddress, ?_⟩
  rw [parseAddr, h]
  rfl

theorem lower_addressChars (hlower : ∀ c : Char, c.toNat < 128 → toLower c = c.toLower) (h : ∀ c ∈ s, AddressChar c = true) :
    ∀ c ∈ s.map toLower, AddressChar c = true := by
  intro c hc
  obtain ⟨d, hd, rfl⟩ := List.mem_map.mp hc
  exact (lower_facts hlower (h d hd)).2.2.2.2.2.2

theorem takeWhile_zone {x w : List Char} (h : '%' ∉ x) : (x ++ '%' :: w).takeWhile (· ≠ '%') = x := by
  have hx : ∀ c ∈ x, decide (c ≠ '%') = true := by
    intro c hc
    refine decide_eq_true fun heq => ?_
    rw [heq] at hc
    exact h hc
  rw [List.takeWhile_append_of_pos hx, List.takeWhile_cons_of_neg (by decide), List.append_nil]

theorem takeWhile_plain {x : List Char} (h : '%' ∉ x) : x.takeWhile (· ≠ '%') = x := by
  refine List.takeWhile_eq_self_iff.mpr fun c hc => decide_eq_true fun heq => ?_
  rw [heq] at hc
  exact h hc

theorem blockedTarget_v6 (hlower : ∀ c : Char, c.toNat < 128 → toLower c = c.toLower) {a : IPv6Address} (h : parseIPv6 s = some a) :
    ('%' ∉ s → isInternalName (normalized toLower s) = false) ∧
      (parseAddr (trimBrackets (normalized toLower s)) = none ∧ '%' ∈ s ∨
        ∃ z, parseAddr (trimBrackets (normalized toLower s)) = some (.v6 ⟨a.ip, a.lt, z⟩) ∧ (z.isSome = true ↔ a.scope_id.isSome = true)) := by
  obtain ⟨parts, hparts, hnumber, -, hscope, hne⟩ := parseIPv6_parts h
  obtain ⟨hchars, hlast, hlowered⟩ := ipv6Parts_lower hlower hparts hnumber
  have hcolon := colon_mem hparts
  have hlowerChars := lower_addressChars hlower hchars
  have hcolonLower : ':' ∈ (s.takeWhile (· ≠ '%')).map toLower := List.mem_map.mpr ⟨':', hcolon, hlower ':' (by decide)⟩
  have hbrackets : ∀ c ∈ (s.takeWhile (· ≠ '%')).map toLower, isBracket c = false := fun c hc => not_bracket (hlowerChars c hc)
  have hpercent : '%' ∉ (s.takeWhile (· ≠ '%')).map toLower := fun hmem => absurd (hlowerChars '%' hmem) (by decide)
  by_cases hzone : '%' ∈ s
  · obtain ⟨x, z, rfl, hx⟩ := List.eq_append_cons_of_mem hzone
    rw [takeWhile_zone hx] at hne hlowered hcolonLower hbrackets hpercent
    have hz : z ≠ [] := by simpa using hne hzone
    have hxne : x.map toLower ≠ [] := List.ne_nil_of_mem hcolonLower
    have hnormal : normalized toLower (x ++ '%' :: z) = x.map toLower ++ '%' :: (trimSuffix z).map toLower := by
      unfold normalized
      rw [trimSuffix_zone hz, List.map_append, List.map_cons, hlower '%' (by decide)]
      rfl
    refine ⟨fun hnot => absurd hzone hnot, ?_⟩
    rw [hnormal, trimBrackets_zone hxne hbrackets]
    generalize (((trimSuffix z).map toLower).reverse.dropWhile isBracket).reverse = w
    have hcolon' : ':' ∈ x.map toLower ++ '%' :: w := List.mem_append_left _ hcolonLower
    have hpercent' : '%' ∈ x.map toLower ++ '%' :: w := List.mem_append_right _ List.mem_cons_self
    have htake := takeWhile_zone (w := w) hpercent
    have hdrop : ∀ l : List Char, (l ++ '%' :: w).drop (l.length + 1) = w := fun l => by simp
    cases w with
    | nil =>
      left
      refine ⟨?_, hzone⟩
      rw [parseAddr, parseIPv4_colon hcolon', parseIPv6Zone, htake, hdrop, if_pos ⟨hpercent', rfl⟩]
      rfl
    | cons c w =>
      right
      obtain ⟨z', hz', hzone'⟩ := parseIPv6Zone_of (s := x.map toLower ++ '%' :: c :: w)
        (by rw [htake, hdrop]; exact fun hboth => List.cons_ne_nil _ _ hboth.2) (by rw [htake]; exact hlowered) a.lt
      refine ⟨z', ?_, ?_⟩
      · rw [parseAddr, parseIPv4_colon hcolon', hz']
        rfl
      · rw [hzone', hscope]
        exact iff_of_true hpercent' hzone
  · rw [takeWhile_plain hzone] at hlowerChars hlast hlowered hcolonLower hbrackets hpercent
    have hnormal : normalized toLower s = s.map toLower := by
      unfold normalized
      rw [trimSuffix_self hlast]
    obtain ⟨z, hz, hzone'⟩ := parseIPv6Zone_of (s := s.map toLower) (fun hboth => hpercent hboth.1)
      (by rw [takeWhile_plain hpercent]; exact hlowered) a.lt
    rw [hnormal, trimBrackets_self hbrackets]
    refine ⟨fun _ => not_internal hlowerChars, Or.inr ⟨z, ?_, ?_⟩⟩
    · rw [parseAddr, parseIPv4_colon hcolonLower, hz]
      rfl
    · rw [hzone', hscope]
      exact iff_of_false hpercent hzone

theorem notifierAllowed_eq (s : List Char) : notifierAllowed s =
    match ((parseIPv4 (s.takeWhile (· ≠ '%'))).map Address.v4).or ((parseIPv6 (s.takeWhile (· ≠ '%'))).map .v6) with
    | none => false
    | some addr => !notifierInside addr.unmapped := by
  unfold notifierAllowed ipAddress
  rw [String.toList_ofList]

/-- The notifier's guard accepts what is not inside. -/
theorem notifierAllowed_of {addr : Address} (h : ((parseIPv4 s).map Address.v4).or ((parseIPv6 s).map .v6) = some addr) :
    notifierAllowed s = !addr.unmapped.inside := by
  rw [notifierAllowed_eq]
  cases hv4 : parseIPv4 s with
  | some a =>
    have hzone : '%' ∉ s := by
      intro hmem
      rcases parseIPv4_chars hv4 '%' hmem with hdigit | hdot
      · exact absurd hdigit (by decide)
      · exact absurd hdot (by decide)
    rw [hv4] at h
    cases h
    rw [takeWhile_plain hzone, hv4]
    exact congrArg Bool.not (notifierInside_unmapped (.v4 a))
  | none =>
    rw [hv4] at h
    obtain ⟨a, ha, rfl⟩ := Option.map_eq_some_iff.mp h
    obtain ⟨parts, hparts, hnumber, hslash, -, -⟩ := parseIPv6_parts ha
    have hpercent : '%' ∉ s.takeWhile (· ≠ '%') := fun hmem => absurd (List.mem_takeWhile_imp hmem) (by decide)
    have hslash' : '/' ∉ s.takeWhile (· ≠ '%') := fun hmem => hslash ((List.takeWhile_sublist _).subset hmem)
    rw [parseIPv4_colon (colon_mem hparts), parseIPv6_plain hpercent hslash' hparts hnumber a.lt]
    refine congrArg Bool.not ((notifierInside_unmapped _).trans ?_)
    exact inside_zone

theorem agree_of_gap {b i g : Bool} (h : i = true ↔ b = true ∨ g = true) (hdisjoint : g = true → b = false) :
    (b = false ↔ i = false) ↔ g = false := by
  revert b i g
  decide

/-- For every host that is the text of an address, whatever it is, the guards agree if and only if it is covered; without a zone, if and only
if it is not in the gap. -/
theorem guards_agree_iff (toLower : Char → Char) (hlower : ∀ c : Char, c.toNat < 128 → toLower c = c.toLower) (host : String) (addr : Address)
    (h : ipAddress host = some addr) :
    (Agree toLower host ↔ Covered toLower host.toList addr) ∧
      ('%' ∉ host.toList → (Covered toLower host.toList addr ↔ gap addr.unmapped = false)) := by
  have hnotifier : notifierAllowed host.toList = true ↔ addr.unmapped.inside = false := by
    rw [notifierAllowed_of h, Bool.not_eq_true']
  have hprobe : addressAllowed false host = some true ↔ addr.unmapped.inside = false := by
    rw [addressAllowed, h, Option.map_some, allowed_false, Option.some_inj, Bool.not_eq_true']
  have hagree : Agree toLower host ↔ (blockedTarget toLower host.toList = false ↔ addr.unmapped.inside = false) := by
    constructor
    · exact fun hboth => hboth.probe.trans hprobe
    · exact fun hiff => ⟨hiff.trans hprobe.symm, hiff.trans hnotifier.symm⟩
  obtain ⟨hinside, hdisjoint⟩ := inside_unmapped addr
  have hparsed : ('%' ∉ host.toList → isInternalName (normalized toLower host.toList) = false) ∧
      (parseAddr (trimBrackets (normalized toLower host.toList)) = none ∧ '%' ∈ host.toList ∨
        ∃ addr', parseAddr (trimBrackets (normalized toLower host.toList)) = some addr' ∧ isBlocked addr'.unmapped = isBlocked addr.unmapped) := by
    unfold ipAddress at h
    cases hv4 : parseIPv4 host.toList with
    | some a =>
      rw [hv4] at h
      cases h
      obtain ⟨hname, hparse⟩ := blockedTarget_v4 hlower hv4
      exact ⟨fun _ => hname, Or.inr ⟨.v4 a, hparse, rfl⟩⟩
    | none =>
      rw [hv4] at h
      obtain ⟨a, ha, rfl⟩ := Option.map_eq_some_iff.mp h
      obtain ⟨hname, hlost | ⟨z, hparse, hzone⟩⟩ := blockedTarget_v6 hlower ha
      · exact ⟨hname, Or.inl hlost⟩
      · exact ⟨hname, Or.inr ⟨_, hparse, isBlocked_zone hzone⟩⟩
  obtain ⟨hname, hparse⟩ := hparsed
  constructor
  · rw [hagree]
    unfold blockedTarget Covered
    dsimp only
    cases isInternalName (normalized toLower host.toList) with
    | true => simp
    | false =>
      rw [if_neg Bool.false_ne_true, if_neg Bool.false_ne_true]
      rcases hparse with ⟨hnone, -⟩ | ⟨addr', hsome, hblocked⟩
      · simp [hnone]
      · simp only [hsome, hblocked, Option.isNone_some, Bool.false_eq_true, if_false]
        exact agree_of_gap hinside hdisjoint
  · intro hzone
    unfold Covered
    rcases hparse with ⟨-, hmem⟩ | ⟨addr', hsome, -⟩
    · exact absurd hmem hzone
    · rw [hname hzone, hsome]
      exact Iff.rfl

end

/-! ## Addresses in the gap and out of it -/

theorem guards_agree_public : Agree Char.toLower "2606:4700:4700::1111" := by
  have haddr : ipAddress "2606:4700:4700::1111" = some (.v6 ⟨groups [0x2606, 0x4700, 0x4700, 0, 0, 0, 0, 0x1111], by decide, none⟩) := by
    decide +kernel
  obtain ⟨hagree, hplain⟩ := guards_agree_iff Char.toLower (fun _ _ => rfl) "2606:4700:4700::1111" _ haddr
  exact hagree.mpr ((hplain (by decide +kernel)).mpr (by decide +kernel))

/-- The metadata address behind NAT64, and an address of class E. -/
theorem gap_accepted : ¬Agree Char.toLower "64:ff9b::a9fe:a9fe" ∧ ¬Agree Char.toLower "240.0.0.1" := by
  constructor
  · intro hagree
    have hblocked : blockedTarget Char.toLower "64:ff9b::a9fe:a9fe".toList = false := by decide +kernel
    have hallowed : addressAllowed false "64:ff9b::a9fe:a9fe" = some false := by decide +kernel
    rw [hagree.probe, hallowed] at hblocked
    cases hblocked
  · intro hagree
    have hblocked : blockedTarget Char.toLower "240.0.0.1".toList = false := by decide +kernel
    have hallowed : addressAllowed false "240.0.0.1" = some false := by decide +kernel
    rw [hagree.probe, hallowed] at hblocked
    cases hblocked

end Upstat.AddressGuards
