import Upstat.DoubleNumbers
import Mathlib.Tactic.Ring

/-! # Numbers as decimal texts

A double is written with the fewest digits that still read as it, and a text of the grammar of JSON is read
as the double nearest to it. -/
namespace Upstat.NumberTexts
open DoubleNumbers

/-! ## Writing -/

/-- The digits at the place `10 ^ t` that read as the number, the closest of them to it. -/
def digitsAt (x : ℚ) (t : ℤ) : Option ℕ :=
  let y := x / 10 ^ t
  let below := ⌊y⌋.toNat
  if nearest (below * 10 ^ t) = x then
    if nearest ((below + 1 : ℕ) * 10 ^ t) = x ∧ (1 / 2 < y - below ∨ y - below = 1 / 2 ∧ below % 2 = 1) then some (below + 1)
    else some below
  else if nearest ((below + 1 : ℕ) * 10 ^ t) = x then some (below + 1) else none

/-- The fewest digits, from `k` on, of a number below `10 ^ n`, and the place of the last of them.
Seventeen tell any two doubles apart, so the last resort is never reached. -/
def shortest (x : ℚ) (n : ℤ) : ℕ → ℕ → ℕ × ℤ
  | 0, _ => (⌊x * 10 ^ 1074⌋.toNat, -1074)
  | fuel + 1, k =>
    match digitsAt x (n - k) with
    | some s => if s = 10 ^ k then (10 ^ (k - 1), n - k + 1) else (s, n - k)
    | none => shortest x n fuel (k + 1)

/-- The digits `s` with the last of them at the place `10 ^ t`, written out or with an exponent. -/
def decimalText (s : ℕ) (t : ℤ) : List Char :=
  let digits := Nat.toDigits 10 s
  let k := digits.length
  let n := t + k
  if k ≤ n ∧ n ≤ 21 then digits ++ List.replicate (n - k).toNat '0'
  else if 0 < n ∧ n ≤ 21 then digits.take n.toNat ++ '.' :: digits.drop n.toNat
  else if -6 < n ∧ n ≤ 0 then '0' :: '.' :: (List.replicate (-n).toNat '0' ++ digits)
  else
    digits.take 1 ++ (if digits.drop 1 = [] then [] else '.' :: digits.drop 1) ++
      ['e', if n - 1 < 0 then '-' else '+'] ++ Nat.toDigits 10 (n - 1).natAbs

def positiveText (x : ℚ) : List Char :=
  let d := shortest x (Int.log 10 x + 1) 17 1
  decimalText d.1 d.2

def numberToString (x : Double) : List Char :=
  if x.1 = 0 then ['0'] else if x.1 < 0 then '-' :: positiveText (-x.1) else positiveText x.1

/-! ## Reading -/

def readNatural (s : List Char) : Option ℤ :=
  if s ≠ [] ∧ s.all Char.isDigit then some (Nat.ofDigitChars 10 s 0) else none

def readExponent : List Char → Option ℤ
  | [] => some 0
  | c :: r =>
    if c = 'e' ∨ c = 'E' then
      match r with
      | '-' :: r => (readNatural r).map Neg.neg
      | '+' :: r => readNatural r
      | r => readNatural r
    else none

/-- The digits after a point, if there is one, and what follows. -/
def readFraction : List Char → Option (List Char × List Char)
  | '.' :: r => if r.takeWhile Char.isDigit = [] then none else some (r.takeWhile Char.isDigit, r.dropWhile Char.isDigit)
  | r => some ([], r)

def readMagnitude (s : List Char) : Option ℚ :=
  let whole := s.takeWhile Char.isDigit
  if whole = [] ∨ whole.head? = some '0' ∧ whole ≠ ['0'] then none
  else
    match readFraction (s.dropWhile Char.isDigit) with
    | none => none
    | some (fraction, r) => (readExponent r).map fun e => Nat.ofDigitChars 10 (whole ++ fraction) 0 * (10 : ℚ) ^ (e - (fraction.length : ℤ))

def negate : Number → Number
  | .finite x => .finite x.neg
  | .infinite negative => .infinite !negative

def readNumber : List Char → Option Number
  | '-' :: r => (readMagnitude r).map fun q => negate (toNumber q)
  | s => (readMagnitude s).map toNumber

/-! ## Reading what is written -/

theorem all_isDigit_toDigits (n : ℕ) : (Nat.toDigits 10 n).all Char.isDigit = true := by
  apply List.all_eq_true.mpr
  intro c hc
  exact Nat.isDigit_of_mem_toDigits (by decide) (by decide) hc

theorem readNatural_toDigits (n : ℕ) : readNatural (Nat.toDigits 10 n) = some (n : ℤ) := by
  rw [readNatural, if_pos ⟨Nat.toDigits_ne_nil, all_isDigit_toDigits n⟩, Nat.ofDigitChars_ten_toDigits]

theorem digitChar_ne_zero : ∀ n < 10, 0 < n → n.digitChar ≠ '0' := by decide

theorem head_toDigits {n : ℕ} (h : 0 < n) : (Nat.toDigits 10 n).head? ≠ some '0' := by
  induction n using Nat.strongRecOn with
  | ind n ih =>
    by_cases hsmall : n < 10
    · rw [Nat.toDigits_of_lt_base hsmall, List.head?_cons]
      exact fun heq => digitChar_ne_zero n hsmall h (Option.some.inj heq)
    · rw [Nat.toDigits_of_base_le (by decide) (by omega), List.head?_append_of_ne_nil _ Nat.toDigits_ne_nil]
      exact ih (n / 10) (by omega) (by omega)

theorem takeWhile_digits {ds r : List Char} (hds : ds.all Char.isDigit = true) (hr : ∀ c ∈ r.head?, c.isDigit = false) :
    (ds ++ r).takeWhile Char.isDigit = ds ∧ (ds ++ r).dropWhile Char.isDigit = r := by
  have hall : ∀ c ∈ ds, c.isDigit = true := List.all_eq_true.mp hds
  rw [List.takeWhile_append_of_pos hall, List.dropWhile_append_of_pos hall]
  cases r with
  | nil => simp
  | cons c r =>
    have hc : c.isDigit = false := hr c rfl
    simp [hc]

theorem head_of_readExponent {r : List Char} {e : ℤ} (h : readExponent r = some e) :
    ∀ c ∈ r.head?, c.isDigit = false ∧ c ≠ '.' := by
  cases r with
  | nil => simp
  | cons c r =>
    by_cases hc : c = 'e' ∨ c = 'E'
    · intro d hd
      obtain rfl := Option.some.inj hd
      rcases hc with rfl | rfl <;> decide
    · simp [readExponent, hc] at h

/-- A whole part, a fraction and an exponent are read as they stand. -/
theorem readMagnitude_parts {w f t : List Char} {e : ℤ} (hwhole : w.all Char.isDigit = true) (hne : w ≠ [])
    (hlead : w.head? = some '0' → w = ['0']) (hfraction : f.all Char.isDigit = true) (htail : readExponent t = some e) :
    readMagnitude (w ++ ((if f = [] then [] else '.' :: f) ++ t)) =
      some (Nat.ofDigitChars 10 (w ++ f) 0 * (10 : ℚ) ^ (e - (f.length : ℤ))) := by
  have hhead := head_of_readExponent htail
  have hrest : readFraction ((if f = [] then [] else '.' :: f) ++ t) = some (f, t) := by
    split
    · rename_i hnil
      rw [hnil, List.nil_append]
      cases t with
      | nil => rfl
      | cons c t =>
        have hc : c ≠ '.' := (hhead c rfl).2
        rw [readFraction]
        simpa using hc
    · rename_i hsome
      obtain ⟨htake, hdrop⟩ := takeWhile_digits hfraction fun c hc => (hhead c hc).1
      simp only [List.cons_append, readFraction, htake, hdrop, hsome, if_false]
  have hpoint : ∀ c ∈ ((if f = [] then [] else '.' :: f) ++ t).head?, c.isDigit = false := by
    split
    · intro c hc
      exact (hhead c hc).1
    · intro c hc
      obtain rfl := Option.some.inj hc
      rfl
  obtain ⟨htake, hdrop⟩ := takeWhile_digits hwhole hpoint
  have hgood : ¬(w = [] ∨ w.head? = some '0' ∧ w ≠ ['0']) := by
    rintro (h | ⟨h, h'⟩)
    · exact hne h
    · exact h' (hlead h)
  simp only [readMagnitude, htake, hdrop, hgood, if_false, hrest, htail, Option.map_some]

theorem all_isDigit_zeros (n : ℕ) : (List.replicate n '0').all Char.isDigit = true := by
  induction n with
  | zero => rfl
  | succ n ih => simp [List.replicate_succ]

theorem all_isDigit_part {ds xs : List Char} (h : ds.all Char.isDigit = true) (hsub : ∀ c ∈ xs, c ∈ ds) : xs.all Char.isDigit = true :=
  List.all_eq_true.mpr fun c hc => List.all_eq_true.mp h c (hsub c hc)

theorem readExponent_signed (z : ℤ) :
    readExponent (['e', if z < 0 then '-' else '+'] ++ Nat.toDigits 10 z.natAbs) = some z := by
  have habs := readNatural_toDigits z.natAbs
  split
  · simp only [readExponent, List.cons_append, List.nil_append, true_or, if_true, habs, Option.map_some]
    congr 1
    omega
  · simp only [readExponent, List.cons_append, List.nil_append, true_or, if_true, habs]
    congr 1
    omega

/-! Each way of writing the digits `ds` of a number, the last of them at the place `10 ^ t`. -/

section
variable {ds : List Char} {t : ℤ} (hall : ds.all Char.isDigit = true) (hhead : ds.head? ≠ some '0') (hne : ds ≠ [])
include hall hhead hne

theorem read_integer {z : ℕ} (ht : t = z) :
    readMagnitude (ds ++ List.replicate z '0') = some (Nat.ofDigitChars 10 ds 0 * (10 : ℚ) ^ t) := by
  have hdigits : (ds ++ List.replicate z '0').all Char.isDigit = true := by
    rw [List.all_append, hall, all_isDigit_zeros, Bool.and_self]
  have hlead : (ds ++ List.replicate z '0').head? = some '0' → ds ++ List.replicate z '0' = ['0'] := by
    rw [List.head?_append_of_ne_nil _ hne]
    exact fun h => absurd h hhead
  have hread := readMagnitude_parts (f := []) (t := []) (e := 0) hdigits (by simp [hne]) hlead rfl rfl
  simp only [if_true, List.append_nil, Nat.ofDigitChars_append, Nat.ofDigitChars_replicate_zero] at hread
  rw [hread, ht]
  push_cast
  simp [mul_comm]

theorem read_point {n : ℕ} (hn : 0 < n) (ht : t + ds.length = n) (hlt : n < ds.length) :
    readMagnitude (ds.take n ++ '.' :: ds.drop n) = some (Nat.ofDigitChars 10 ds 0 * (10 : ℚ) ^ t) := by
  have hlead : (ds.take n).head? = some '0' → ds.take n = ['0'] := by
    rw [List.head?_take, if_neg (by omega)]
    exact fun h => absurd h hhead
  have hread := readMagnitude_parts (f := ds.drop n) (t := []) (e := 0) (all_isDigit_part hall fun c hc => List.mem_of_mem_take hc)
    (by simp [hne]; omega) hlead (all_isDigit_part hall fun c hc => List.mem_of_mem_drop hc) rfl
  have hdrop : ds.drop n ≠ [] := by
    intro h
    have hlength := List.drop_eq_nil_iff.mp h
    omega
  simp only [hdrop, if_false, List.append_nil, List.take_append_drop, List.length_drop] at hread
  rw [hread, show 0 - ((ds.length - n : ℕ) : ℤ) = t by omega]

omit hhead in
theorem read_small {z : ℕ} (ht : t + ds.length = -z) :
    readMagnitude ('0' :: '.' :: (List.replicate z '0' ++ ds)) = some (Nat.ofDigitChars 10 ds 0 * (10 : ℚ) ^ t) := by
  have hdigits : (List.replicate z '0' ++ ds).all Char.isDigit = true := by
    rw [List.all_append, hall, all_isDigit_zeros, Bool.and_self]
  have hread := readMagnitude_parts (w := ['0']) (t := []) (e := 0) rfl (by simp) (fun _ => rfl) hdigits rfl
  have hfraction : List.replicate z '0' ++ ds ≠ [] := by simp [hne]
  have hvalue : Nat.ofDigitChars 10 ('0' :: (List.replicate z '0' ++ ds)) 0 = Nat.ofDigitChars 10 ds 0 := by
    rw [Nat.ofDigitChars_cons, Nat.ofDigitChars_append, Nat.ofDigitChars_replicate_zero]
    simp
  simp only [hfraction, if_false, List.append_nil, List.length_append, List.length_replicate, List.cons_append, List.nil_append] at hread
  rw [hread, hvalue, show 0 - ((z + ds.length : ℕ) : ℤ) = t by omega]

theorem read_exponent :
    readMagnitude (ds.take 1 ++ (if ds.drop 1 = [] then [] else '.' :: ds.drop 1) ++ ['e', if t + ds.length - 1 < 0 then '-' else '+'] ++
      Nat.toDigits 10 (t + ds.length - 1).natAbs) = some (Nat.ofDigitChars 10 ds 0 * (10 : ℚ) ^ t) := by
  have hlength : 0 < ds.length := List.length_pos_of_ne_nil hne
  have hlead : (ds.take 1).head? = some '0' → ds.take 1 = ['0'] := by
    rw [List.head?_take, if_neg (by decide)]
    exact fun h => absurd h hhead
  have hread := readMagnitude_parts (f := ds.drop 1) (e := t + ds.length - 1)
    (all_isDigit_part hall fun c hc => List.mem_of_mem_take hc) (by simp [hne]) hlead
    (all_isDigit_part hall fun c hc => List.mem_of_mem_drop hc) (readExponent_signed _)
  rw [List.take_append_drop, List.length_drop] at hread
  rw [List.append_assoc, List.append_assoc, hread, show t + ds.length - 1 - ((ds.length - 1 : ℕ) : ℤ) = t by omega]

end

theorem decimalText_reads {s : ℕ} (hs : 0 < s) (t : ℤ) : readMagnitude (decimalText s t) = some (s * (10 : ℚ) ^ t) := by
  have hall := all_isDigit_toDigits s
  have hhead := head_toDigits hs
  have hne := Nat.toDigits_ne_nil (n := s) (b := 10)
  have hvalue : ((s : ℕ) : ℚ) = (Nat.ofDigitChars 10 (Nat.toDigits 10 s) 0 : ℕ) := by rw [Nat.ofDigitChars_ten_toDigits]
  rw [hvalue]
  simp only [decimalText]
  by_cases hinteger : (Nat.toDigits 10 s).length ≤ t + (Nat.toDigits 10 s).length ∧ t + (Nat.toDigits 10 s).length ≤ 21
  · rw [if_pos hinteger]
    apply read_integer hall hhead hne
    omega
  · rw [if_neg hinteger]
    by_cases hpoint : 0 < t + (Nat.toDigits 10 s).length ∧ t + (Nat.toDigits 10 s).length ≤ 21
    · rw [if_pos hpoint]
      apply read_point hall hhead hne <;> omega
    · rw [if_neg hpoint]
      by_cases hsmall : -6 < t + (Nat.toDigits 10 s).length ∧ t + (Nat.toDigits 10 s).length ≤ 0
      · rw [if_pos hsmall]
        apply read_small hall hne
        omega
      · rw [if_neg hsmall]
        exact read_exponent hall hhead hne

/-! ## The fewest digits -/

/-- The digits found are those of the number. -/
def Names (x : ℚ) (d : ℕ × ℤ) : Prop := nearest (d.1 * 10 ^ d.2) = x

theorem digitsAt_names {x : ℚ} {t : ℤ} {s : ℕ} (h : digitsAt x t = some s) : Names x (s, t) := by
  simp only [digitsAt] at h
  split_ifs at h with hbelow habove habove <;> obtain rfl := Option.some.inj h
  · exact habove.1
  · exact hbelow
  · exact habove

/-- A double is a whole number of places of `2 ^ (-1074)`. -/
theorem nearest_fine (q : ℚ) : ∃ m : ℤ, nearest q * 10 ^ 1074 = m := by
  obtain ⟨m, e, -, he, heq⟩ := nearest_places q
  obtain ⟨d, hd⟩ := Int.le.dest he
  refine ⟨m * 2 ^ d * 5 ^ 1074, ?_⟩
  rw [heq, ← hd, show (10 : ℚ) = 2 * 5 by norm_num, mul_pow, zpow_add₀ two_ne_zero, zpow_natCast]
  push_cast
  have hcancel : (2 : ℚ) ^ (-1074 : ℤ) * 2 ^ 1074 = 1 := by
    rw [← zpow_natCast, ← zpow_add₀ two_ne_zero]
    norm_num
  calc (m * (2 ^ (-1074 : ℤ) * 2 ^ d) * (2 ^ 1074 * 5 ^ 1074) : ℚ) = m * 2 ^ d * 5 ^ 1074 * (2 ^ (-1074 : ℤ) * 2 ^ 1074) := by ring
    _ = m * 2 ^ d * 5 ^ 1074 := by rw [hcancel, mul_one]

theorem shortest_names {x : ℚ} (hx : nearest x = x) (hpos : 0 < x) (n : ℤ) (fuel k : ℕ) (hk : 0 < k) : Names x (shortest x n fuel k) := by
  induction fuel generalizing k with
  | zero =>
    obtain ⟨m, hm⟩ := nearest_fine x
    rw [hx] at hm
    have hnonneg : 0 ≤ m := by
      have hprod : (0 : ℚ) < x * 10 ^ 1074 := by positivity
      rw [hm] at hprod
      exact_mod_cast hprod.le
    have hcast : ((⌊x * 10 ^ 1074⌋.toNat : ℕ) : ℚ) = x * 10 ^ 1074 := by
      rw [hm, Int.floor_intCast]
      exact_mod_cast Int.toNat_of_nonneg hnonneg
    have hback : x * 10 ^ 1074 * (10 : ℚ) ^ (-1074 : ℤ) = x := by
      rw [mul_assoc, ← zpow_natCast, ← zpow_add₀ (by norm_num)]
      simp
    rw [shortest, Names, hcast, hback, hx]
  | succ fuel ih =>
    rw [shortest]
    cases hdigits : digitsAt x (n - k) with
    | none => exact ih (k + 1) k.succ_pos
    | some s =>
      have hnames := digitsAt_names hdigits
      simp only
      split
      · rename_i hs
        have hshift : ((10 ^ (k - 1) : ℕ) : ℚ) * 10 ^ (n - k + 1) = (s : ℚ) * 10 ^ (n - k) := by
          obtain ⟨j, rfl⟩ : ∃ j, k = j + 1 := ⟨k - 1, by omega⟩
          rw [hs, Nat.add_sub_cancel, zpow_add_one₀ (by norm_num)]
          push_cast
          ring
        rw [Names, hshift]
        exact hnames
      · exact hnames

theorem positiveText_reads {x : Double} (hpos : 0 < x.1) : (readMagnitude (positiveText x.1)).map toNumber = some (.finite x) := by
  have hnames := shortest_names x.2.1 hpos (Int.log 10 x.1 + 1) 17 1 one_pos
  rw [positiveText]
  generalize hd : shortest x.1 (Int.log 10 x.1 + 1) 17 1 = d at hnames
  rw [Names] at hnames
  have hs : 0 < d.1 := by
    apply Nat.pos_of_ne_zero
    intro hzero
    rw [hzero, Nat.cast_zero, zero_mul, nearest_zero] at hnames
    exact hpos.ne hnames
  rw [decimalText_reads hs, Option.map_some, toNumber_of_nearest hnames]

/-! ## Every double -/

def NumberChar (c : Char) : Prop := c.isDigit = true ∨ c ∈ ['-', '+', '.', 'e', 'E']

theorem numberChar_decimalText (s : ℕ) (t : ℤ) : ∀ c ∈ decimalText s t, NumberChar c := by
  have hdigits : ∀ n, ∀ c ∈ Nat.toDigits 10 n, NumberChar c :=
    fun n c hc => Or.inl (Nat.isDigit_of_mem_toDigits (by decide) (by decide) hc)
  have hzero : NumberChar '0' := Or.inl rfl
  have hmark : ∀ c ∈ ['-', '+', '.', 'e', 'E'], NumberChar c := fun c hc => Or.inr hc
  intro c hc
  simp only [decimalText] at hc
  split at hc
  · rcases List.mem_append.mp hc with hc | hc
    · exact hdigits s c hc
    · rwa [List.eq_of_mem_replicate hc]
  split at hc
  · rcases List.mem_append.mp hc with hc | hc
    · exact hdigits s c (List.mem_of_mem_take hc)
    · rcases List.mem_cons.mp hc with rfl | hc
      · exact hmark _ (by simp)
      · exact hdigits s c (List.mem_of_mem_drop hc)
  split at hc
  · rcases List.mem_cons.mp hc with rfl | hc
    · exact hzero
    rcases List.mem_cons.mp hc with rfl | hc
    · exact hmark _ (by simp)
    rcases List.mem_append.mp hc with hc | hc
    · rwa [List.eq_of_mem_replicate hc]
    · exact hdigits s c hc
  · rcases List.mem_append.mp hc with hc | hc
    · rcases List.mem_append.mp hc with hc | hc
      · rcases List.mem_append.mp hc with hc | hc
        · exact hdigits s c (List.mem_of_mem_take hc)
        · split at hc
          · cases hc
          · rcases List.mem_cons.mp hc with rfl | hc
            · exact hmark _ (by simp)
            · exact hdigits s c (List.mem_of_mem_drop hc)
      · apply hmark
        rcases List.mem_cons.mp hc with rfl | hc
        · simp
        · rw [List.mem_singleton.mp hc]
          split
          · simp
          · simp
    · exact hdigits _ c hc

theorem numberChar_numberToString (x : Double) : ∀ c ∈ numberToString x, NumberChar c := by
  intro c hc
  rw [numberToString] at hc
  split at hc
  · obtain rfl := List.mem_singleton.mp hc
    exact Or.inl rfl
  split at hc
  · rcases List.mem_cons.mp hc with rfl | hc
    · exact Or.inr (by simp)
    · exact numberChar_decimalText _ _ c hc
  · exact numberChar_decimalText _ _ c hc

theorem readNumber_numberToString (x : Double) : readNumber (numberToString x) = some (.finite x) := by
  rw [numberToString]
  by_cases hzero : x.1 = 0
  · have hread : readMagnitude ['0'] = some 0 := by decide +kernel
    rw [if_pos hzero, readNumber, hread, Option.map_some, toNumber_of_nearest (x := x) (by rw [hzero, nearest_zero])]
    simp
  · rw [if_neg hzero]
    by_cases hneg : x.1 < 0
    · have hread := positiveText_reads (x := x.neg) (neg_pos.mpr hneg)
      rw [if_pos hneg, readNumber]
      change (readMagnitude (positiveText (-x.1))).map toNumber = _ at hread
      cases hmagnitude : readMagnitude (positiveText (-x.1)) with
      | none => simp [hmagnitude] at hread
      | some y =>
        rw [hmagnitude, Option.map_some] at hread
        rw [Option.map_some, Option.some.inj hread, negate]
        exact congrArg (fun x => some (Number.finite x)) (Subtype.ext (neg_neg x.1))
    · have hpos : 0 < x.1 := lt_of_le_of_ne (not_lt.mp hneg) (Ne.symm hzero)
      have hread := positiveText_reads hpos
      rw [if_neg hneg, readNumber]
      · exact hread
      · -- Without its sign a number does not begin with one.
        intro r hr
        rw [hr] at hread
        revert hread
        simp [readMagnitude]

end Upstat.NumberTexts
