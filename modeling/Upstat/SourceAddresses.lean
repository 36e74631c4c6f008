import Mathlib.Data.List.DropRight

/-! # The source of a sign-in request (`handler/source.go`)

Behind proxies a request's source is found in `X-Forwarded-For`, walked from the right while the addresses are those of trusted
proxies, and over a number of hops in any case. Addresses and their texts are those of `net/netip`, a parameter. -/
namespace Upstat.SourceAddresses

/-- A code point of a string, or a byte that is in none. -/
inductive Rune where
  | char (c : Char)
  | stray (b : UInt8)
  deriving DecidableEq

abbrev Text := List Rune

def comma : Rune := .char ','

/-- `unicode.IsSpace` -/
def isSpace : Rune → Bool
  | .char c =>
    let n := c.toNat
    (9 ≤ n ∧ n ≤ 13) ∨ n = 0x20 ∨ n = 0x85 ∨ n = 0xA0 ∨ n = 0x1680 ∨ (0x2000 ≤ n ∧ n ≤ 0x200A) ∨ n = 0x2028 ∨ n = 0x2029 ∨
      n = 0x202F ∨ n = 0x205F ∨ n = 0x3000
  | .stray _ => false

/-- `strings.TrimSpace` -/
def trimSpace (s : Text) : Text := (s.dropWhile isSpace).rdropWhile isSpace

structure Netip (Addr Prefix : Type*) where
  parseAddr : Text → Option Addr
  /-- The address of an address with its port. -/
  parseAddrPort : Text → Option Addr
  unmap : Addr → Addr
  withoutZone : Addr → Addr
  contains : Prefix → Addr → Bool
  string : Addr → Text

structure AuthConfig (Prefix : Type*) where
  trustProxyHeaders : Bool
  trustedProxyCIDRs : List Prefix
  trustedProxyHops : ℕ

/-- The peer and the lines of `X-Forwarded-For`. -/
structure Request where
  remoteAddr : Text
  forwardedFor : List Text

section
variable {Addr Prefix : Type*} (ip : Netip Addr Prefix) (cfg : AuthConfig Prefix)

def canonicalIP (addr : Addr) : Addr := ip.withoutZone (ip.unmap addr)

def parseRequestIP (raw : Text) : Option Addr := ((ip.parseAddrPort raw).or (ip.parseAddr raw)).map (canonicalIP ip)

def prefixContains (prefixes : List Prefix) (addr : Addr) : Bool := prefixes.any fun p => ip.contains p addr

/-- The loop over the entries from the right, with the address it has come to and the number of entries before it. -/
def walk : Addr → ℕ → List Text → Option (Addr × ℕ)
  | current, trustedHops, [] => some (current, trustedHops)
  | current, trustedHops, part :: parts =>
    if !prefixContains ip cfg.trustedProxyCIDRs current ∧ cfg.trustedProxyHops ≤ trustedHops then some (current, trustedHops)
    else (parseRequestIP ip (trimSpace part)).bind fun hop => walk hop (trustedHops + 1) parts

def rawXFF (r : Request) : Text := trimSpace ([comma].intercalate r.forwardedFor)

def requestSourceIP (r : Request) : Option Text :=
  (parseRequestIP ip r.remoteAddr).bind fun peer =>
    if cfg.trustProxyHeaders = false then some (ip.string peer)
    else if rawXFF r = [] then
      if prefixContains ip cfg.trustedProxyCIDRs peer ∨ 0 < cfg.trustedProxyHops then none else some (ip.string peer)
    else (walk ip cfg peer 0 ((rawXFF r).splitOn comma).reverse).bind fun (current, trustedHops) =>
      if trustedHops = 0 then some (ip.string peer)
      else if trustedHops < cfg.trustedProxyHops ∨ prefixContains ip cfg.trustedProxyCIDRs current then none
      else some (ip.string current)

/-- The key of the rate limit's bucket: the hash of the source, as `bucket` makes it, or the one of requests without. -/
def requestSourceHash {κ : Type*} (bucket : Text → κ) (unattributed : κ) (r : Request) : κ :=
  (requestSourceIP ip cfg r).elim unattributed bucket

/-- The entries of the header, from the right. -/
def entries (r : Request) : List Text := if rawXFF r = [] then [] else ((rawXFF r).splitOn comma).reverse

/-- Over entries that are addresses, one that is no proxy's is reached, and so many hops are behind it. -/
def Reached : Addr → ℕ → List Text → Prop
  | current, trustedHops, [] => prefixContains ip cfg.trustedProxyCIDRs current = false ∧ cfg.trustedProxyHops ≤ trustedHops
  | current, trustedHops, part :: parts =>
    prefixContains ip cfg.trustedProxyCIDRs current = false ∧ cfg.trustedProxyHops ≤ trustedHops ∨
      ∃ hop, parseRequestIP ip (trimSpace part) = some hop ∧ Reached hop (trustedHops + 1) parts

def Reaches (r : Request) : Prop := ∃ peer, parseRequestIP ip r.remoteAddr = some peer ∧ Reached ip cfg peer 0 (entries r)

end

/-- A client has sent lines of the header, or what the first line begins with. -/
inductive Prepended : List Text → List Text → Prop
  | lines (front lines : List Text) : Prepended lines (front ++ lines)
  | text (front : List Text) (text line : Text) (lines : List Text) :
    Prepended (line :: lines) (front ++ (text ++ comma :: line) :: lines)

/-! ## Entries and their blanks -/

theorem splitOn_append (a b : Text) : (a ++ comma :: b).splitOn comma = a.splitOn comma ++ b.splitOn comma := by
  simp only [List.splitOn_eq_splitOnP]
  exact List.splitOnP_append_cons a b (by decide)

theorem splitOn_cons {c : Rune} (hc : c ≠ comma) (s : Text) : (c :: s).splitOn comma = (s.splitOn comma).modifyHead (List.cons c) := by
  simp only [List.splitOn_eq_splitOnP]
  rw [List.splitOnP_cons_eq_if_modifyHead, if_neg (by simpa using hc)]

theorem splitOn_ne_nil (s : Text) : s.splitOn comma ≠ [] := by
  rw [List.splitOn_eq_splitOnP]
  exact List.splitOnP_ne_nil _ _

theorem ne_comma {c : Rune} (hc : isSpace c = true) : c ≠ comma := by
  rintro rfl
  exact absurd hc (by decide)

/-- A character at the end is the last entry's. -/
theorem splitOn_concat {c : Rune} (hc : c ≠ comma) (s : Text) : ∃ first last, s.splitOn comma = first ++ [last] ∧
    (s ++ [c]).splitOn comma = first ++ [last ++ [c]] := by
  induction s with
  | nil =>
    refine ⟨[], [], rfl, ?_⟩
    rw [List.nil_append, splitOn_cons hc]
    rfl
  | cons d s ih =>
    obtain ⟨first, last, hs, hsc⟩ := ih
    by_cases hd : d = comma
    · have hsplit (t : Text) : (comma :: t).splitOn comma = [] :: t.splitOn comma := splitOn_append [] t
      refine ⟨[] :: first, last, ?_, ?_⟩
      · rw [hd, hsplit, hs, List.cons_append]
      · rw [hd, List.cons_append, hsplit, hsc, List.cons_append]
    · rw [List.cons_append, splitOn_cons hd, splitOn_cons hd, hs, hsc]
      cases first with
      | nil => exact ⟨[], d :: last, rfl, rfl⟩
      | cons e first => exact ⟨(d :: e) :: first, last, rfl, rfl⟩

theorem trimSpace_cons {c : Rune} (hc : isSpace c = true) (s : Text) : trimSpace (c :: s) = trimSpace s := by
  rw [trimSpace, List.dropWhile_cons_of_pos hc, trimSpace]

theorem trimSpace_concat {c : Rune} (hc : isSpace c = true) (s : Text) : trimSpace (s ++ [c]) = trimSpace s := by
  rw [trimSpace, List.dropWhile_append, trimSpace]
  split
  · rename_i hblank
    rw [List.isEmpty_iff.mp hblank, List.dropWhile_cons_of_pos hc]
    rfl
  · exact List.rdropWhile_concat_pos _ _ _ hc

/-- The blanks around the header are around its first and last entry. -/
theorem trimmed_entries (s : Text) : ((trimSpace s).splitOn comma).map trimSpace = (s.splitOn comma).map trimSpace := by
  have hright (t : Text) : ((t.rdropWhile isSpace).splitOn comma).map trimSpace = (t.splitOn comma).map trimSpace := by
    induction t using List.reverseRecOn with
    | nil => rfl
    | append_singleton t c ih =>
      rw [List.rdropWhile_concat]
      split
      · rename_i hc
        obtain ⟨first, last, ht, htc⟩ := splitOn_concat (ne_comma hc) t
        rw [ih, ht, htc, List.map_append, List.map_append, List.map_singleton, List.map_singleton, trimSpace_concat hc]
      · rfl
  have hleft : ((s.dropWhile isSpace).splitOn comma).map trimSpace = (s.splitOn comma).map trimSpace := by
    induction s with
    | nil => rfl
    | cons c s ih =>
      by_cases hc : isSpace c = true
      · obtain ⟨entry, rest, he⟩ := List.exists_cons_of_ne_nil (splitOn_ne_nil s)
        rw [List.dropWhile_cons_of_pos hc, ih, splitOn_cons (ne_comma hc), he, List.modifyHead_cons, List.map_cons, List.map_cons,
          trimSpace_cons hc]
      · rw [List.dropWhile_cons_of_neg hc]
  rw [trimSpace, hright, hleft]

/-! ## The walk -/

section
variable {Addr Prefix : Type*} {ip : Netip Addr Prefix} {cfg : AuthConfig Prefix}

/-- An address no proxy has, with the hops behind it. -/
def Outside (ip : Netip Addr Prefix) (cfg : AuthConfig Prefix) (current : Addr) (trustedHops : ℕ) : Prop :=
  prefixContains ip cfg.trustedProxyCIDRs current = false ∧ cfg.trustedProxyHops ≤ trustedHops

theorem walk_outside {current : Addr} {trustedHops : ℕ} (h : Outside ip cfg current trustedHops) (parts : List Text) :
    walk ip cfg current trustedHops parts = some (current, trustedHops) := by
  cases parts with
  | nil => rfl
  | cons part parts => exact if_pos ⟨by simp [h.1], h.2⟩

/-- Entries with the same texts between their blanks are walked alike. -/
theorem walk_congr {parts parts' : List Text} (h : parts.map trimSpace = parts'.map trimSpace) (current : Addr) (trustedHops : ℕ) :
    walk ip cfg current trustedHops parts = walk ip cfg current trustedHops parts' := by
  induction parts generalizing parts' current trustedHops with
  | nil => rw [List.map_eq_nil_iff.mp h.symm]
  | cons part parts ih =>
    cases parts' with
    | nil => cases h
    | cons part' parts' =>
      obtain ⟨hpart, hparts⟩ := List.cons.inj h
      simp only [walk, hpart, ih hparts]

/-- Where such an address is reached the walk ends at one, whatever is before. -/
theorem walk_append {current : Addr} {trustedHops : ℕ} {parts : List Text} (h : Reached ip cfg current trustedHops parts) :
    ∃ source hops, Outside ip cfg source hops ∧ trustedHops ≤ hops ∧ (hops = trustedHops → source = current) ∧
      ∀ more, walk ip cfg current trustedHops (parts ++ more) = some (source, hops) := by
  induction parts generalizing current trustedHops with
  | nil => exact ⟨current, trustedHops, h, le_refl _, fun _ => rfl, walk_outside h⟩
  | cons part parts ih =>
    by_cases hout : Outside ip cfg current trustedHops
    · exact ⟨current, trustedHops, hout, le_refl _, fun _ => rfl, fun more => walk_outside hout _⟩
    · obtain ⟨hop, hparse, hrest⟩ := h.resolve_left hout
      obtain ⟨source, hops, hsource, hhops, -, hwalk⟩ := ih hrest
      have hstep (more : List Text) : walk ip cfg current trustedHops (part :: parts ++ more) = walk ip cfg hop (trustedHops + 1) (parts ++ more) := by
        rw [List.cons_append, walk, if_neg (fun hstop => hout ⟨by simpa using hstop.1, hstop.2⟩), hparse, Option.bind_some]
      exact ⟨source, hops, hsource, by omega, by omega, fun more => (hstep more).trans (hwalk more)⟩

/-- The source is where the walk ends, when it ends at such an address. -/
theorem requestSourceIP_walk {r : Request} {peer source : Addr} {hops : ℕ} (hpeer : parseRequestIP ip r.remoteAddr = some peer)
    (htrust : cfg.trustProxyHeaders = true) (hraw : rawXFF r ≠ [])
    (hwalk : walk ip cfg peer 0 ((rawXFF r).splitOn comma).reverse = some (source, hops)) (hsource : Outside ip cfg source hops)
    (hfirst : hops = 0 → source = peer) : requestSourceIP ip cfg r = some (ip.string source) := by
  rw [requestSourceIP, hpeer, Option.bind_some, if_neg (by simp [htrust]), if_neg hraw, hwalk, Option.bind_some]
  dsimp only
  by_cases hzero : hops = 0
  · rw [if_pos hzero, hfirst hzero]
  · rw [if_neg hzero, if_neg]
    rintro (hfew | hproxy)
    · exact absurd hsource.2 (by omega)
    · rw [hsource.1] at hproxy
      cases hproxy

/-- The header with what a client has sent in front: its entries from the right are those without, and more. -/
theorem Prepended.entries {lines lines' : List Text} (h : Prepended lines lines') :
    lines = [] ∨ ∃ more, (([comma].intercalate lines').splitOn comma).reverse = (([comma].intercalate lines).splitOn comma).reverse ++ more := by
  have hfront (front : List Text) (line : Text) (rest : List Text) : ∃ more,
      (([comma].intercalate (front ++ line :: rest)).splitOn comma).reverse =
        (([comma].intercalate (line :: rest)).splitOn comma).reverse ++ more := by
    induction front with
    | nil => exact ⟨[], by simp⟩
    | cons text front ih =>
      obtain ⟨more, hmore⟩ := ih
      obtain ⟨next, rest', hnext⟩ := List.exists_cons_of_ne_nil (l := front ++ line :: rest) (by simp)
      have hjoin : [comma].intercalate (text :: front ++ line :: rest) = text ++ comma :: [comma].intercalate (front ++ line :: rest) := by
        rw [List.cons_append, hnext, List.intercalate_cons_cons]
        simp
      refine ⟨more ++ (text.splitOn comma).reverse, ?_⟩
      rw [hjoin, splitOn_append, List.reverse_append, hmore, List.append_assoc]
  cases h with
  | lines front =>
    cases lines with
    | nil => exact Or.inl rfl
    | cons line rest => exact Or.inr (hfront front line rest)
  | text front text line rest =>
    obtain ⟨more, hmore⟩ := hfront front (text ++ comma :: line) rest
    have hjoin : [comma].intercalate ((text ++ comma :: line) :: rest) = text ++ comma :: [comma].intercalate (line :: rest) := by
      cases rest with
      | nil => simp
      | cons next rest =>
        rw [List.intercalate_cons_cons, List.intercalate_cons_cons]
        simp
    refine Or.inr ⟨(text.splitOn comma).reverse ++ more, ?_⟩
    rw [hmore, hjoin, splitOn_append, List.reverse_append, List.append_assoc]

/-- The header is blank when it has one entry, a blank one. -/
theorem rawXFF_eq_nil_iff {r : Request} :
    rawXFF r = [] ↔ (([comma].intercalate r.forwardedFor).splitOn comma).map trimSpace = [[]] := by
  constructor
  · intro hraw
    rw [← trimmed_entries, ← rawXFF, hraw]
    rfl
  · intro hone
    obtain ⟨entry, hentry, hblank⟩ := List.map_eq_singleton_iff.mp hone
    have hjoin : [comma].intercalate r.forwardedFor = entry := by
      have hall : [comma].intercalate (([comma].intercalate r.forwardedFor).splitOn comma) = [comma].intercalate r.forwardedFor :=
        List.intercalate_splitOn comma
      rw [hentry] at hall
      simpa using hall.symm
    rw [rawXFF, hjoin, hblank]

/-- The entries of the trimmed header from the right, with more before them. -/
theorem walk_prepended {r r' : Request} {more : List Text}
    (hmore : (([comma].intercalate r'.forwardedFor).splitOn comma).reverse = (([comma].intercalate r.forwardedFor).splitOn comma).reverse ++ more)
    (peer : Addr) : walk ip cfg peer 0 ((rawXFF r').splitOn comma).reverse = walk ip cfg peer 0 (((rawXFF r).splitOn comma).reverse ++ more) := by
  apply walk_congr
  have htrimmed (q : Request) : ((rawXFF q).splitOn comma).reverse.map trimSpace =
      (([comma].intercalate q.forwardedFor).splitOn comma).reverse.map trimSpace := by
    rw [List.map_reverse, List.map_reverse, rawXFF, trimmed_entries]
  rw [htrimmed, hmore, List.map_append, List.map_append, htrimmed]

/-- Where the walk reaches an address that no proxy has, with the hops behind it, what a client sends in front changes nothing. -/
theorem requestSourceIP_prepended (ip : Netip Addr Prefix) (cfg : AuthConfig Prefix) (r : Request) (hreaches : Reaches ip cfg r)
    (lines : List Text) (hlines : Prepended r.forwardedFor lines) :
    requestSourceIP ip cfg { r with forwardedFor := lines } = requestSourceIP ip cfg r ∧
      ∀ {κ : Type} (bucket : Text → κ) (unattributed : κ),
        requestSourceHash ip cfg bucket unattributed { r with forwardedFor := lines } = requestSourceHash ip cfg bucket unattributed r := by
  have hsame : requestSourceIP ip cfg { r with forwardedFor := lines } = requestSourceIP ip cfg r := by
    obtain ⟨peer, hpeer, hreached⟩ := hreaches
    cases htrust : cfg.trustProxyHeaders with
    | false =>
      rw [requestSourceIP, requestSourceIP, hpeer, Option.bind_some, Option.bind_some, if_pos htrust, if_pos htrust]
    | true =>
      by_cases hraw : rawXFF r = []
      · -- no proxy has written an entry, and the peer is none
        rw [entries, if_pos hraw] at hreached
        have hpeerOut : Outside ip cfg peer 0 := hreached
        have hblank (q : Request) (hq : parseRequestIP ip q.remoteAddr = some peer) : requestSourceIP ip cfg q = some (ip.string peer) := by
          by_cases hrawq : rawXFF q = []
          · rw [requestSourceIP, hq, Option.bind_some, if_neg (by simp [htrust]), if_pos hrawq, if_neg]
            rintro (hproxy | hhops)
            · rw [hpeerOut.1] at hproxy
              cases hproxy
            · exact absurd hpeerOut.2 (by omega)
          · exact requestSourceIP_walk hq htrust hrawq (walk_outside hpeerOut _) hpeerOut fun _ => rfl
        rw [hblank r hpeer, hblank { r with forwardedFor := lines } hpeer]
      · rw [entries, if_neg hraw] at hreached
        obtain ⟨source, hops, hsource, -, hfirst, hwalk⟩ := walk_append hreached
        have hnone : r.forwardedFor ≠ [] := fun hnil => hraw (by rw [rawXFF, hnil]; rfl)
        obtain ⟨more, hmore⟩ := hlines.entries.resolve_left hnone
        have hraw' : rawXFF { r with forwardedFor := lines } ≠ [] := by
          intro hnil
          have hone := rawXFF_eq_nil_iff.mp hnil
          have hlength := congrArg List.length hmore
          have hpos : 0 < (([comma].intercalate r.forwardedFor).splitOn comma).length := List.length_pos_iff.mpr (splitOn_ne_nil _)
          have hsingle := congrArg List.length hone
          simp only [List.length_reverse, List.length_append, List.length_map, List.length_singleton] at hlength hsingle
          obtain rfl : more = [] := List.length_eq_zero_iff.mp (by omega)
          rw [List.append_nil, List.reverse_inj] at hmore
          dsimp only at hone
          rw [hmore] at hone
          exact hraw (rawXFF_eq_nil_iff.mpr hone)
        have hprepended : walk ip cfg peer 0 ((rawXFF { r with forwardedFor := lines }).splitOn comma).reverse =
            walk ip cfg peer 0 (((rawXFF r).splitOn comma).reverse ++ more) := walk_prepended hmore peer
        have hafter := hprepended.trans (hwalk more)
        have hbefore := hwalk []
        rw [List.append_nil] at hbefore
        rw [requestSourceIP_walk hpeer htrust hraw hbefore hsource hfirst,
          requestSourceIP_walk (r := { r with forwardedFor := lines }) hpeer htrust hraw' hafter hsource hfirst]
  exact ⟨hsame, fun bucket unattributed => by rw [requestSourceHash, hsame, requestSourceHash]⟩

end

/-! ## A request through one proxy -/

def text (s : String) : Text := s.toList.map .char

def digitOf : Rune → Option ℕ
  | .char c => if '0' ≤ c ∧ c ≤ '9' then some (c.toNat - 48) else none
  | .stray _ => none

/-- A number of a dotted address. -/
def octet (s : Text) : Option ℕ :=
  if s = [] ∨ 3 < s.length ∨ (1 < s.length ∧ s.head? = some (.char '0')) then none
  else ((s.mapM digitOf).map fun ds => ds.foldl (fun n d => n * 10 + d) 0).filter (· < 256)

def dotted (s : Text) : Option (List ℕ) := ((s.splitOn (.char '.')).mapM octet).filter fun ns => ns.length = 4

/-- Dotted addresses, with ports, and ranges of whole octets. -/
def dottedNetip : Netip (List ℕ) (List ℕ) where
  parseAddr := dotted
  parseAddrPort s := if (s.splitOn (.char ':')).length = 2 then dotted (s.takeWhile (· ≠ .char ':')) else none
  unmap addr := addr
  withoutZone addr := addr
  contains p addr := p.isPrefixOf addr
  string addr := [Rune.char '.'].intercalate (addr.map fun n => text (toString n))

/-- The load balancer at 10.1.1.1 has written the caller's address. -/
theorem requestSourceIP_prepended_one :
    requestSourceIP dottedNetip ⟨true, [[10]], 1⟩ ⟨text "10.1.1.1:80", [text "x", text "1.2.3.4,198.51.100.1"]⟩ =
      requestSourceIP dottedNetip ⟨true, [[10]], 1⟩ ⟨text "10.1.1.1:80", [text "198.51.100.1"]⟩ :=
  have hreaches : Reaches dottedNetip ⟨true, [[10]], 1⟩ ⟨text "10.1.1.1:80", [text "198.51.100.1"]⟩ :=
    ⟨[10, 1, 1, 1], by decide +kernel, Or.inr ⟨[198, 51, 100, 1], by decide +kernel, ⟨by decide +kernel, by decide⟩⟩⟩
  (requestSourceIP_prepended dottedNetip ⟨true, [[10]], 1⟩ ⟨text "10.1.1.1:80", [text "198.51.100.1"]⟩ hreaches
    [text "x", text "1.2.3.4,198.51.100.1"] (.text [text "x"] (text "1.2.3.4") (text "198.51.100.1") [])).1

end Upstat.SourceAddresses
