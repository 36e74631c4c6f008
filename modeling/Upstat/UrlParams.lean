import Mathlib.Data.List.Basic

/-! # The parameters of a URL's query

`application/x-www-form-urlencoded` texts as lists of names and values, in characters, over UTF-8 bytes. Bytes are natural numbers. -/
namespace Upstat.UrlParams

/-! ## UTF-8 -/

def utf8 (c : Char) : List ℕ :=
  let n := c.toNat
  if n < 0x80 then [n]
  else if n < 0x800 then [0xC0 + n / 64, 0x80 + n % 64]
  else if n < 0x10000 then [0xE0 + n / 4096, 0x80 + n / 64 % 64, 0x80 + n % 64]
  else [0xF0 + n / 262144, 0x80 + n / 4096 % 64, 0x80 + n / 64 % 64, 0x80 + n % 64]

/-- A character that is not complete: how many bytes are needed, what the bytes have come to, and the bounds of the next. -/
structure Pending where
  needed : ℕ
  value : ℕ
  lower : ℕ := 0x80
  upper : ℕ := 0xBF

def replacement : Char := Char.ofNat 0xFFFD

/-- What a first byte is: a character, or the first byte of several. -/
def first (b : ℕ) : Char ⊕ Pending :=
  if b < 0x80 then .inl (Char.ofNat b)
  else if 0xC2 ≤ b ∧ b ≤ 0xDF then .inr ⟨1, b - 0xC0, 0x80, 0xBF⟩
  else if 0xE0 ≤ b ∧ b ≤ 0xEF then .inr ⟨2, b - 0xE0, if b = 0xE0 then 0xA0 else 0x80, if b = 0xED then 0x9F else 0xBF⟩
  else if 0xF0 ≤ b ∧ b ≤ 0xF4 then .inr ⟨3, b - 0xF0, if b = 0xF0 then 0x90 else 0x80, if b = 0xF4 then 0x8F else 0xBF⟩
  else .inl replacement

def decode : Option Pending → List ℕ → List Char
  | none, [] => []
  | some _, [] => [replacement]
  | none, b :: bs =>
    match first b with
    | .inl c => c :: decode none bs
    | .inr p => decode (some p) bs
  | some p, b :: bs =>
    if p.lower ≤ b ∧ b ≤ p.upper then
      if p.needed = 1 then Char.ofNat (64 * p.value + (b - 0x80)) :: decode none bs
      else decode (some { needed := p.needed - 1, value := 64 * p.value + (b - 0x80) }) bs
    else
      -- the byte is looked at again, as a first one
      match first b with
      | .inl c => replacement :: c :: decode none bs
      | .inr p => replacement :: decode (some p) bs

theorem decode_first {b : ℕ} {p : Pending} (h : first b = .inr p) (bs : List ℕ) : decode none (b :: bs) = decode (some p) bs := by
  rw [decode, h]

theorem decode_last {p : Pending} {b : ℕ} (hb : p.lower ≤ b ∧ b ≤ p.upper) (h : p.needed = 1) (bs : List ℕ) :
    decode (some p) (b :: bs) = Char.ofNat (64 * p.value + (b - 0x80)) :: decode none bs := by
  rw [decode, if_pos hb, if_pos h]

theorem decode_next {p : Pending} {b : ℕ} (hb : p.lower ≤ b ∧ b ≤ p.upper) (h : p.needed ≠ 1) (bs : List ℕ) :
    decode (some p) (b :: bs) = decode (some ⟨p.needed - 1, 64 * p.value + (b - 0x80), 0x80, 0xBF⟩) bs := by
  rw [decode, if_pos hb, if_neg h]

theorem ofNat_eq {c : Char} {n : ℕ} (h : n = c.toNat) : Char.ofNat n = c := by
  rw [h, Char.ofNat_toNat]

/-- The numbers of characters: below the surrogates, or above and below 0x110000. -/
theorem toNat_range (c : Char) : c.toNat < 0xD800 ∨ 0xDFFF < c.toNat ∧ c.toNat < 0x110000 := c.valid

theorem decode_utf8 (c : Char) (bs : List ℕ) : decode none (utf8 c ++ bs) = c :: decode none bs := by
  have hrange := toNat_range c
  unfold utf8
  dsimp only
  generalize hn : c.toNat = n at hrange
  split
  · rename_i hlt
    rw [List.singleton_append, decode, first, if_pos hlt, ofNat_eq hn.symm]
  · split
    · have hfirst : first (0xC0 + n / 64) = .inr ⟨1, n / 64, 0x80, 0xBF⟩ := by
        rw [first, if_neg (by omega), if_pos (by omega), Nat.add_sub_cancel_left]
      rw [List.cons_append, List.singleton_append, decode_first hfirst, decode_last (by dsimp only; omega) rfl, ofNat_eq (c := c) (by dsimp only; omega)]
    · split
      · have hfirst : first (0xE0 + n / 4096) =
            .inr ⟨2, n / 4096, if n / 4096 = 0 then 0xA0 else 0x80, if n / 4096 = 13 then 0x9F else 0xBF⟩ := by
          rw [first, if_neg (by omega), if_neg (by omega), if_pos (by omega), Nat.add_sub_cancel_left]
          congr 3 <;> apply propext <;> omega
        rw [List.cons_append, List.cons_append, List.singleton_append, decode_first hfirst,
          decode_next (by dsimp only; split <;> split <;> omega) (by dsimp only; omega), decode_last (by dsimp only; omega) rfl,
          ofNat_eq (c := c) (by dsimp only; omega)]
      · have hfirst : first (0xF0 + n / 262144) =
            .inr ⟨3, n / 262144, if n / 262144 = 0 then 0x90 else 0x80, if n / 262144 = 4 then 0x8F else 0xBF⟩ := by
          rw [first, if_neg (by omega), if_neg (by omega), if_neg (by omega), if_pos (by omega), Nat.add_sub_cancel_left]
          congr 3 <;> apply propext <;> omega
        rw [List.cons_append, List.cons_append, List.cons_append, List.singleton_append, decode_first hfirst,
          decode_next (by dsimp only; split <;> split <;> omega) (by dsimp only; omega), decode_next (by dsimp only; omega) (by dsimp only; omega),
          decode_last (by dsimp only; omega) rfl, ofNat_eq (c := c) (by dsimp only; omega)]

theorem decode_flatMap (s : List Char) : decode none (s.flatMap utf8) = s := by
  induction s with
  | nil => rfl
  | cons c s ih => rw [List.flatMap_cons, decode_utf8, ih]

theorem utf8_lt (c : Char) : ∀ b ∈ utf8 c, b < 256 := by
  have hrange := toNat_range c
  unfold utf8
  dsimp only
  split
  · simp only [List.mem_singleton]
    omega
  · split
    · simp only [List.mem_cons, List.not_mem_nil, or_false]
      omega
    · split <;> (simp only [List.mem_cons, List.not_mem_nil, or_false]; omega)

/-! ## Percent encoding -/

def hexDigit (n : ℕ) : ℕ := if n < 10 then 48 + n else 55 + n

def hexValue (b : ℕ) : Option ℕ :=
  if 48 ≤ b ∧ b ≤ 57 then some (b - 48)
  else if 65 ≤ b ∧ b ≤ 70 then some (b - 55)
  else if 97 ≤ b ∧ b ≤ 102 then some (b - 87)
  else none

/-- The bytes that stand for themselves: letters, digits and `*-._`. -/
def unescaped (b : ℕ) : Bool := 48 ≤ b ∧ b ≤ 57 ∨ 65 ≤ b ∧ b ≤ 90 ∨ 97 ≤ b ∧ b ≤ 122 ∨ b = 42 ∨ b = 45 ∨ b = 46 ∨ b = 95

def encodeByte (b : ℕ) : List ℕ := if b = 32 then [43] else if unescaped b then [b] else [37, hexDigit (b / 16), hexDigit (b % 16)]

def plusToSpace (b : ℕ) : ℕ := if b = 43 then 32 else b

def percentDecode : List ℕ → List ℕ
  | [] => []
  | [b] => [b]
  | [b, h] => [b, h]
  | b :: h :: l :: bs =>
    if b = 37 then
      match hexValue h, hexValue l with
      | some x, some y => (16 * x + y) :: percentDecode bs
      | _, _ => b :: percentDecode (h :: l :: bs)
    else b :: percentDecode (h :: l :: bs)

theorem percentDecode_cons {b : ℕ} (h : b ≠ 37) (bs : List ℕ) : percentDecode (b :: bs) = b :: percentDecode bs := by
  cases bs with
  | nil => rfl
  | cons c bs =>
    cases bs with
    | nil => rfl
    | cons d bs => rw [percentDecode, if_neg h]

theorem hexValue_hexDigit {n : ℕ} (h : n < 16) : hexValue (hexDigit n) = some n := by
  unfold hexDigit hexValue
  split
  · rw [if_pos (by omega), Nat.add_sub_cancel_left]
  · rw [if_neg (by omega), if_pos (by omega), Nat.add_sub_cancel_left]

theorem hexDigit_range {n : ℕ} (h : n < 16) : 48 ≤ hexDigit n ∧ hexDigit n ≤ 57 ∨ 65 ≤ hexDigit n ∧ hexDigit n ≤ 70 := by
  unfold hexDigit
  split <;> omega

theorem unescaped_iff {b : ℕ} : unescaped b = true ↔
    48 ≤ b ∧ b ≤ 57 ∨ 65 ≤ b ∧ b ≤ 90 ∨ 97 ≤ b ∧ b ≤ 122 ∨ b = 42 ∨ b = 45 ∨ b = 46 ∨ b = 95 := decide_eq_true_iff

theorem plusToSpace_of_ne {b : ℕ} (h : b ≠ 43) : plusToSpace b = b := if_neg h

theorem percentDecode_space (bs : List ℕ) : percentDecode ([43].map plusToSpace ++ bs) = 32 :: percentDecode bs :=
  percentDecode_cons (by decide) bs

theorem percentDecode_self {b : ℕ} (hpercent : b ≠ 37) (hplus : b ≠ 43) (bs : List ℕ) :
    percentDecode ([b].map plusToSpace ++ bs) = b :: percentDecode bs := by
  rw [List.map_singleton, List.singleton_append, plusToSpace_of_ne hplus, percentDecode_cons hpercent]

theorem percentDecode_hex {b : ℕ} (h : b < 256) (bs : List ℕ) :
    percentDecode ([37, hexDigit (b / 16), hexDigit (b % 16)].map plusToSpace ++ bs) = b :: percentDecode bs := by
  have hhigh := hexDigit_range (n := b / 16) (by omega)
  have hlow := hexDigit_range (n := b % 16) (by omega)
  rw [List.map_cons, List.map_cons, List.map_singleton, plusToSpace_of_ne (by omega), plusToSpace_of_ne (by omega), plusToSpace_of_ne (by omega)]
  simp only [List.cons_append, List.nil_append]
  rw [percentDecode, if_pos rfl, hexValue_hexDigit (by omega), hexValue_hexDigit (by omega)]
  dsimp only
  rw [Nat.div_add_mod]

theorem percentDecode_encodeByte {b : ℕ} (h : b < 256) (bs : List ℕ) :
    percentDecode ((encodeByte b).map plusToSpace ++ bs) = b :: percentDecode bs := by
  unfold encodeByte
  split
  · rename_i hspace
    rw [hspace]
    exact percentDecode_space bs
  · split
    · rename_i hself
      have hrange := unescaped_iff.mp hself
      exact percentDecode_self (by omega) (by omega) bs
    · exact percentDecode_hex h bs

/-- What is written is none of the separators, nor a question mark. -/
theorem encodeByte_range {b : ℕ} (h : b < 256) : ∀ x ∈ encodeByte b, x < 128 ∧ x ≠ 38 ∧ x ≠ 61 ∧ x ≠ 63 := by
  unfold encodeByte
  split
  · simp only [List.mem_singleton]
    omega
  · split
    · rename_i hself
      have hrange := unescaped_iff.mp hself
      simp only [List.mem_singleton]
      omega
    · have hhigh := hexDigit_range (n := b / 16) (by omega)
      have hlow := hexDigit_range (n := b % 16) (by omega)
      simp only [List.mem_cons, List.not_mem_nil, or_false]
      omega

/-! ## Names and values -/

def encodeText (s : List Char) : List ℕ := (s.flatMap utf8).flatMap encodeByte

def decodeText (bs : List ℕ) : List Char := decode none (percentDecode (bs.map plusToSpace))

theorem decodeText_encodeText (s : List Char) : decodeText (encodeText s) = s := by
  have hbytes : ∀ bs : List ℕ, (∀ b ∈ bs, b < 256) → percentDecode ((bs.flatMap encodeByte).map plusToSpace) = bs := by
    intro bs hbs
    induction bs with
    | nil => rfl
    | cons b bs ih =>
      rw [List.flatMap_cons, List.map_append, percentDecode_encodeByte (hbs b List.mem_cons_self), ih fun x hx => hbs x (List.mem_cons_of_mem _ hx)]
  unfold decodeText encodeText
  rw [hbytes, decode_flatMap]
  intro b hb
  obtain ⟨c, -, hc⟩ := List.mem_flatMap.mp hb
  exact utf8_lt c b hc

theorem encodeText_range {s : List Char} : ∀ x ∈ encodeText s, x < 128 ∧ x ≠ 38 ∧ x ≠ 61 ∧ x ≠ 63 := by
  intro x hx
  obtain ⟨b, hb, hx⟩ := List.mem_flatMap.mp hx
  obtain ⟨c, -, hc⟩ := List.mem_flatMap.mp hb
  exact encodeByte_range (utf8_lt c b hc) x hx

abbrev Params := List (List Char × List Char)

def readPair (bs : List ℕ) : List Char × List Char :=
  (decodeText (bs.takeWhile (· ≠ 61)), decodeText ((bs.dropWhile (· ≠ 61)).drop 1))

def writePair (p : List Char × List Char) : List ℕ := encodeText p.1 ++ 61 :: encodeText p.2

/-- `new URLSearchParams(search)`, of a text that begins with a question mark or is empty. -/
def parse (search : List Char) : Params :=
  let bs := search.flatMap utf8
  let bs := if bs.head? = some 63 then bs.drop 1 else bs
  ((bs.splitOn 38).filter fun piece => !piece.isEmpty).map readPair

def toString (ps : Params) : List Char := (List.intercalate [38] (ps.map writePair)).map Char.ofNat

/-- `location.search` where the query is the text of parameters: nothing in it is escaped further. -/
def searchOf (ps : Params) : List Char := if ps.isEmpty then [] else '?' :: toString ps

theorem readPair_writePair (p : List Char × List Char) : readPair (writePair p) = p := by
  have hname : ∀ b ∈ encodeText p.1, decide (b ≠ 61) = true := fun b hb => decide_eq_true (encodeText_range b hb).2.2.1
  unfold readPair writePair
  rw [List.takeWhile_append_of_pos hname, List.dropWhile_append_of_pos hname, List.takeWhile_cons_of_neg (by decide),
    List.dropWhile_cons_of_neg (by decide), List.append_nil, List.drop_one, List.tail_cons, decodeText_encodeText, decodeText_encodeText]

theorem toNat_ascii : ∀ n < 128, (Char.ofNat n).toNat = n := by decide

theorem utf8_ascii {n : ℕ} (h : n < 128) : utf8 (Char.ofNat n) = [n] := by
  rw [utf8, toNat_ascii n h, if_pos h]

theorem flatMap_ascii {bs : List ℕ} (h : ∀ b ∈ bs, b < 128) : (bs.map Char.ofNat).flatMap utf8 = bs := by
  induction bs with
  | nil => rfl
  | cons b bs ih =>
    rw [List.map_cons, List.flatMap_cons, utf8_ascii (h b List.mem_cons_self), ih fun x hx => h x (List.mem_cons_of_mem _ hx)]
    rfl

theorem writePair_range {p : List Char × List Char} : ∀ x ∈ writePair p, x < 128 ∧ x ≠ 38 ∧ x ≠ 63 := by
  intro x hx
  rcases List.mem_append.mp hx with hx | hx
  · have hrange := encodeText_range x hx
    omega
  · rcases List.mem_cons.mp hx with rfl | hx
    · decide
    · have hrange := encodeText_range x hx
      omega

theorem mem_intercalate {ls : List (List ℕ)} {x : ℕ} (hx : x ∈ List.intercalate [38] ls) : x = 38 ∨ ∃ l ∈ ls, x ∈ l := by
  induction ls with
  | nil => cases hx
  | cons l ls ih =>
    cases ls with
    | nil =>
      rw [List.intercalate_singleton] at hx
      exact Or.inr ⟨l, List.mem_cons_self, hx⟩
    | cons m ls =>
      rw [List.intercalate_cons_cons] at hx
      rcases List.mem_append.mp hx with hx | hx
      · rcases List.mem_append.mp hx with hx | hx
        · exact Or.inr ⟨l, List.mem_cons_self, hx⟩
        · exact Or.inl (List.mem_singleton.mp hx)
      · rcases ih hx with hsep | ⟨k, hk, hx⟩
        · exact Or.inl hsep
        · exact Or.inr ⟨k, List.mem_cons_of_mem _ hk, hx⟩

/-- Parameters are read from their text. -/
theorem parse_searchOf (ps : Params) : parse (searchOf ps) = ps := by
  unfold searchOf
  cases hps : ps with
  | nil => rfl
  | cons p qs =>
    rw [← hps, if_neg (by simp [hps])]
    have hne : ps.map writePair ≠ [] := by simp [hps]
    have hascii : ∀ b ∈ List.intercalate [38] (ps.map writePair), b < 128 := by
      intro b hb
      rcases mem_intercalate hb with rfl | ⟨piece, hpiece, hb⟩
      · decide
      · obtain ⟨p, -, rfl⟩ := List.mem_map.mp hpiece
        exact (writePair_range b hb).1
    have hsplit : (List.intercalate [38] (ps.map writePair)).splitOn 38 = ps.map writePair := by
      apply List.splitOn_intercalate
      · intro piece hpiece hmem
        obtain ⟨p, -, rfl⟩ := List.mem_map.mp hpiece
        exact (writePair_range 38 hmem).2.1 rfl
      · exact hne
    have hpieces : (ps.map writePair).filter (fun piece => !piece.isEmpty) = ps.map writePair := by
      apply List.filter_eq_self.mpr
      intro piece hpiece
      obtain ⟨p, -, rfl⟩ := List.mem_map.mp hpiece
      simp [writePair]
    have hmark : utf8 '?' = [63] := rfl
    unfold parse toString
    rw [List.flatMap_cons, hmark, flatMap_ascii hascii]
    dsimp only
    rw [List.singleton_append, List.head?_cons, if_pos rfl, List.drop_one, List.tail_cons, hsplit, hpieces, List.map_map]
    conv_rhs => rw [← List.map_id ps]
    exact List.map_congr_left fun p _ => readPair_writePair p

/-! ## Looking up and setting -/

def get (n : List Char) (ps : Params) : Option (List Char) := (ps.find? (·.1 = n)).map Prod.snd

def delete (n : List Char) (ps : Params) : Params := ps.filter (·.1 ≠ n)

/-- The first value of the name is replaced, and its others are left out; it is put at the end where there is none. -/
def set (n v : List Char) : Params → Params
  | [] => [(n, v)]
  | p :: ps => if p.1 = n then (n, v) :: delete n ps else p :: set n v ps

theorem get_delete (n m : List Char) (ps : Params) : get m (delete n ps) = if m = n then none else get m ps := by
  unfold get delete
  rw [List.find?_filter]
  split
  · rename_i hname
    rw [hname, List.find?_eq_none.mpr (fun p _ => by simp), Option.map_none]
  · rename_i hname
    congr 2
    funext p
    by_cases hp : p.1 = m
    · simp [hp, hname]
    · simp [hp]

theorem get_set (n m v : List Char) (ps : Params) : get m (set n v ps) = if m = n then some v else get m ps := by
  induction ps with
  | nil =>
    unfold get set
    split
    · rename_i hname
      simp [hname]
    · rename_i hname
      simp [Ne.symm hname]
  | cons p ps ih =>
    unfold set
    split
    · rename_i hp
      split
      · rename_i hname
        simp [get, hname]
      · rename_i hname
        have hrest := get_delete n m ps
        rw [if_neg hname] at hrest
        unfold get at hrest ⊢
        rw [List.find?_cons_of_neg (by simp [Ne.symm hname]), hrest, List.find?_cons_of_neg (by simp [hp, Ne.symm hname])]
    · rename_i hp
      by_cases hm : p.1 = m
      · have hname : m ≠ n := fun h => hp (hm.trans h)
        rw [if_neg hname]
        unfold get
        rw [List.find?_cons_of_pos (by simp [hm]), List.find?_cons_of_pos (by simp [hm])]
      · unfold get at ih ⊢
        rw [List.find?_cons_of_neg (by simp [hm]), List.find?_cons_of_neg (by simp [hm])]
        exact ih

end Upstat.UrlParams
