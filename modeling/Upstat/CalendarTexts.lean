import Mathlib.Algebra.Order.Ring.Abs
import Mathlib.Data.Int.Order.Basic
import Mathlib.Data.List.Basic
import Mathlib.Tactic.Ring
import Mathlib.Tactic.NormNum

/-! # Times and their calendar texts

Milliseconds from the first of January 1970 in the proleptic Gregorian calendar, and their text in ISO 8601 form with the years
beyond four digits signed and of six. -/
namespace Upstat.CalendarTexts

/-! ## Years, months and days -/

/-- The day that a year begins with. -/
def dayFromYear (y : ℤ) : ℤ := 365 * (y - 1970) + (y - 1969) / 4 - (y - 1901) / 100 + (y - 1601) / 400

/-- From the mean length of a year, and one off where that is. -/
def yearFromDay (d : ℤ) : ℤ :=
  let y := 1970 + 400 * d / 146097
  if d < dayFromYear y then y - 1 else if dayFromYear (y + 1) ≤ d then y + 1 else y

def isLeap (y : ℤ) : Bool := y % 4 = 0 ∧ y % 100 ≠ 0 ∨ y % 400 = 0

def monthLengths (y : ℤ) : List ℕ := [31, if isLeap y then 29 else 28, 31, 30, 31, 30, 31, 31, 30, 31, 30, 31]

theorem yearFromDay_spec (d : ℤ) : dayFromYear (yearFromDay d) ≤ d ∧ d < dayFromYear (yearFromDay d + 1) := by
  unfold yearFromDay
  dsimp only
  split
  · rename_i hbefore
    rw [Int.sub_add_cancel]
    refine ⟨?_, hbefore⟩
    unfold dayFromYear
    omega
  · split
    · rename_i hafter
      refine ⟨hafter, ?_⟩
      unfold dayFromYear
      omega
    · omega

theorem dayFromYear_succ (y : ℤ) : dayFromYear (y + 1) = dayFromYear y + (monthLengths y).sum := by
  unfold dayFromYear monthLengths isLeap
  split
  · rename_i hleap
    have := of_decide_eq_true hleap
    simp only [List.sum_cons, List.sum_nil]
    omega
  · rename_i hleap
    have := of_decide_eq_false (Bool.not_eq_true _ ▸ hleap)
    simp only [List.sum_cons, List.sum_nil]
    omega

/-- The place in consecutive stretches, and in its stretch. -/
def place : List ℕ → ℕ → ℕ × ℕ
  | [], r => (0, r)
  | n :: ns, r => if r < n then (0, r) else ((place ns (r - n)).1 + 1, (place ns (r - n)).2)

theorem place_sum (ns : List ℕ) (r : ℕ) : (ns.take (place ns r).1).sum + (place ns r).2 = r := by
  induction ns generalizing r with
  | nil => exact Nat.zero_add r
  | cons n ns ih =>
    unfold place
    split
    · exact Nat.zero_add r
    · have hrest := ih (r - n)
      rw [List.take_succ_cons, List.sum_cons]
      omega

theorem place_lt {ns : List ℕ} {r : ℕ} (h : r < ns.sum) : ∃ n, ns[(place ns r).1]? = some n ∧ (place ns r).2 < n := by
  induction ns generalizing r with
  | nil => exact absurd h (Nat.not_lt_zero r)
  | cons n ns ih =>
    unfold place
    split
    · rename_i hr
      exact ⟨n, rfl, hr⟩
    · rw [List.sum_cons] at h
      rw [List.getElem?_cons_succ]
      exact ih (by omega)

/-! ## A time and its parts -/

structure Parts where
  year : ℤ
  month : ℕ
  day : ℕ
  hour : ℕ
  minute : ℕ
  second : ℕ
  milli : ℕ
  deriving DecidableEq

def timeOf (p : Parts) : ℤ :=
  (((dayFromYear p.year + ((monthLengths p.year).take (p.month - 1)).sum + (p.day - 1 : ℕ)) * 24 + p.hour) * 60 + p.minute) * 60000 +
    p.second * 1000 + p.milli

def partsOf (t : ℤ) : Parts :=
  let d := t / 86400000
  let y := yearFromDay d
  let m := place (monthLengths y) (d - dayFromYear y).toNat
  let r := (t % 86400000).toNat
  ⟨y, m.1 + 1, m.2 + 1, r / 3600000, r / 60000 % 60, r / 1000 % 60, r % 1000⟩

/-- The parts are those of a date and a time of the day. -/
def Parts.proper (p : Parts) : Bool :=
  1 ≤ p.month ∧ 1 ≤ p.day ∧ (monthLengths p.year)[p.month - 1]?.any (p.day ≤ ·) ∧ p.hour < 24 ∧ p.minute < 60 ∧ p.second < 60

theorem day_in_year (d : ℤ) : (d - dayFromYear (yearFromDay d)).toNat < (monthLengths (yearFromDay d)).sum := by
  obtain ⟨hle, hlt⟩ := yearFromDay_spec d
  rw [dayFromYear_succ] at hlt
  omega

theorem timeOf_partsOf (t : ℤ) : timeOf (partsOf t) = t := by
  have hplace := place_sum (monthLengths (yearFromDay (t / 86400000))) (t / 86400000 - dayFromYear (yearFromDay (t / 86400000))).toNat
  have hyear := (yearFromDay_spec (t / 86400000)).1
  simp only [timeOf, partsOf, Nat.add_sub_cancel]
  generalize ((monthLengths _).take _).sum = a at *
  generalize (place _ _).2 = b at *
  generalize dayFromYear _ = y at *
  omega

theorem proper_partsOf (t : ℤ) : (partsOf t).proper = true := by
  obtain ⟨n, hn, hlt⟩ := place_lt (day_in_year (t / 86400000))
  simp only [Parts.proper, partsOf, Nat.add_sub_cancel, hn, Option.any_some, decide_eq_true_eq]
  refine ⟨by omega, by omega, decide_eq_true hlt, by omega, by omega, by omega⟩

/-! ## Digits -/

/-- So many decimal digits. -/
def padded : ℕ → ℕ → List Char
  | 0, _ => []
  | w + 1, n => padded w (n / 10) ++ [(n % 10).digitChar]

def number (ds : List Char) : ℕ := ds.foldl (fun n c => 10 * n + (c.toNat - 48)) 0

theorem length_padded (w n : ℕ) : (padded w n).length = w := by
  induction w generalizing n with
  | zero => rfl
  | succ w ih => rw [padded, List.length_append, ih, List.length_singleton]

theorem digit_value : ∀ d < 10, d.digitChar.toNat - 48 = d := by decide

theorem digit_isDigit : ∀ d < 10, d.digitChar.isDigit = true := by decide

theorem number_padded {w n : ℕ} (h : n < 10 ^ w) : number (padded w n) = n := by
  induction w generalizing n with
  | zero =>
    have hzero : n = 0 := by simpa using h
    exact hzero.symm
  | succ w ih =>
    have hrest := ih (n := n / 10) (by rw [pow_succ] at h; omega)
    have hlast := digit_value (n % 10) (Nat.mod_lt n (by decide))
    unfold number at hrest ⊢
    rw [padded, List.foldl_append, hrest, List.foldl_cons, List.foldl_nil, hlast]
    omega

theorem isDigit_padded (w n : ℕ) : (padded w n).all Char.isDigit = true := by
  induction w generalizing n with
  | zero => rfl
  | succ w ih => rw [padded, List.all_append, ih, List.all_cons, digit_isDigit _ (Nat.mod_lt n (by decide))]; rfl

/-! ## Texts of a fixed form -/

inductive Piece | literal (c : Char) | digits (w : ℕ)

def write : List Piece → List ℕ → List Char
  | .literal c :: ps, ns => c :: write ps ns
  | .digits w :: ps, n :: ns => padded w n ++ write ps ns
  | _, _ => []

def read : List Piece → List Char → Option (List ℕ)
  | [], s => if s.isEmpty then some [] else none
  | .literal _ :: _, [] => none
  | .literal c :: ps, d :: s => if d = c then read ps s else none
  | .digits w :: ps, s =>
    if (s.take w).length = w ∧ (s.take w).all Char.isDigit then (read ps (s.drop w)).map (number (s.take w) :: ·) else none

/-- The numbers have the digits of their places. -/
def Fits : List Piece → List ℕ → Prop
  | .literal _ :: ps, ns => Fits ps ns
  | .digits w :: ps, n :: ns => n < 10 ^ w ∧ Fits ps ns
  | [], [] => True
  | _, _ => False

theorem read_write {ps : List Piece} {ns : List ℕ} (h : Fits ps ns) : read ps (write ps ns) = some ns := by
  induction ps generalizing ns with
  | nil =>
    cases ns with
    | nil => rfl
    | cons n ns => cases h
  | cons p ps ih =>
    cases p with
    | literal c =>
      rw [write, read, if_pos rfl]
      exact ih h
    | digits w =>
      cases ns with
      | nil => cases h
      | cons n ns =>
        have htake : (padded w n ++ write ps ns).take w = padded w n := List.take_left' (length_padded w n)
        have hdrop : (padded w n ++ write ps ns).drop w = write ps ns := List.drop_left' (length_padded w n)
        rw [write, read, htake, hdrop, if_pos ⟨length_padded w n, isDigit_padded w n⟩, ih h.2, number_padded h.1]
        rfl

/-! ## The text of a time -/

/-- What follows the year. -/
def afterYear : List Piece :=
  [.literal '-', .digits 2, .literal '-', .digits 2, .literal 'T', .digits 2, .literal ':', .digits 2, .literal ':', .digits 2, .literal '.',
    .digits 3, .literal 'Z']

def Parts.rest (p : Parts) : List ℕ := [p.month, p.day, p.hour, p.minute, p.second, p.milli]

def toISOString (t : ℤ) : List Char :=
  let p := partsOf t
  if 0 ≤ p.year ∧ p.year ≤ 9999 then write (.digits 4 :: afterYear) (p.year.toNat :: p.rest)
  else (if p.year < 0 then '-' else '+') :: write (.digits 6 :: afterYear) (p.year.natAbs :: p.rest)

/-- The last time, and the first one's distance. -/
def maxTime : ℤ := 8640000000000000

def readParts (sign : ℤ) : List ℕ → Option ℤ
  | [y, m, d, hour, minute, second, milli] =>
    let p : Parts := ⟨sign * y, m, d, hour, minute, second, milli⟩
    if p.proper ∧ |timeOf p| ≤ maxTime then some (timeOf p) else none
  | _ => none

/-- The time of a text in the form of `toISOString`. A negative year is not zero. -/
def readISOString : List Char → Option ℤ
  | '-' :: s => (read (.digits 6 :: afterYear) s).bind fun ns => if ns.head? = some 0 then none else readParts (-1) ns
  | '+' :: s => (read (.digits 6 :: afterYear) s).bind (readParts 1)
  | s => (read (.digits 4 :: afterYear) s).bind (readParts 1)

theorem readISOString_bound {s : List Char} {t : ℤ} (h : readISOString s = some t) : |t| ≤ maxTime := by
  have hparts : ∀ {sign : ℤ} {ns : List ℕ}, readParts sign ns = some t → |t| ≤ maxTime := by
    intro sign ns hread
    unfold readParts at hread
    split at hread
    · dsimp only at hread
      split at hread
      · rename_i hproper
        cases hread
        exact hproper.2
      · cases hread
    · cases hread
  unfold readISOString at h
  split at h <;> obtain ⟨ns, -, hns⟩ := Option.bind_eq_some_iff.mp h
  · split at hns
    · cases hns
    · exact hparts hns
  · exact hparts hns
  · exact hparts hns

theorem year_bound {t : ℤ} (h : |t| ≤ maxTime) : (partsOf t).year.natAbs < 10 ^ 6 := by
  obtain ⟨hge, hle⟩ := abs_le.mp h
  obtain ⟨hbefore, hafter⟩ := yearFromDay_spec (t / 86400000)
  unfold maxTime at hge hle
  change (yearFromDay (t / 86400000)).natAbs < 10 ^ 6
  generalize yearFromDay (t / 86400000) = y at *
  unfold dayFromYear at hbefore hafter
  norm_num
  omega

theorem month_bound (t : ℤ) : (partsOf t).month ≤ 12 ∧ (partsOf t).day ≤ 31 := by
  obtain ⟨n, hn, hlt⟩ := place_lt (day_in_year (t / 86400000))
  have hmonth : (place (monthLengths (yearFromDay (t / 86400000))) (t / 86400000 - dayFromYear (yearFromDay (t / 86400000))).toNat).1 < 12 :=
    (List.getElem?_eq_some_iff.mp hn).1
  have hlength : n ≤ 31 := by
    have hmem := List.mem_of_getElem? hn
    unfold monthLengths at hmem
    split at hmem <;> simp only [List.mem_cons, List.not_mem_nil, or_false] at hmem <;> omega
  unfold partsOf
  exact ⟨hmonth, by dsimp only; omega⟩

theorem fits_rest (t : ℤ) : Fits afterYear (partsOf t).rest := by
  obtain ⟨hmonth, hday⟩ := month_bound t
  refine ⟨by omega, by omega, ?_, ?_, ?_, ?_, trivial⟩ <;> simp only [partsOf] <;> omega

theorem readParts_partsOf {t : ℤ} (h : |t| ≤ maxTime) {sign : ℤ} {y : ℕ} (hy : sign * y = (partsOf t).year) :
    readParts sign (y :: (partsOf t).rest) = some t := by
  unfold readParts Parts.rest
  dsimp only
  rw [hy]
  change (if (partsOf t).proper ∧ |timeOf (partsOf t)| ≤ maxTime then some (timeOf (partsOf t)) else none) = some t
  rw [timeOf_partsOf, if_pos ⟨proper_partsOf t, h⟩]

theorem write_digits_head (w n : ℕ) (ps : List Piece) (ns : List ℕ) :
    ∀ c ∈ (write (.digits (w + 1) :: ps) (n :: ns)).head?, c.isDigit = true := by
  intro c hc
  have hmem : c ∈ padded (w + 1) n := by
    have hne : padded (w + 1) n ≠ [] := List.ne_nil_of_length_pos (by rw [length_padded]; omega)
    rw [write, List.head?_append_of_ne_nil _ hne] at hc
    exact List.mem_of_mem_head? hc
  exact List.all_eq_true.mp (isDigit_padded _ _) c hmem

/-- A time is read from its text. -/
theorem readISOString_toISOString {t : ℤ} (h : |t| ≤ maxTime) : readISOString (toISOString t) = some t := by
  have hfits := fits_rest t
  unfold toISOString
  dsimp only
  split
  · rename_i hyear
    have hparts : Fits (.digits 4 :: afterYear) ((partsOf t).year.toNat :: (partsOf t).rest) := ⟨by norm_num; omega, hfits⟩
    have hread := read_write hparts
    have hdigit := write_digits_head 3 (partsOf t).year.toNat afterYear (partsOf t).rest
    generalize write _ _ = s at *
    have hsame : readISOString s = (read (.digits 4 :: afterYear) s).bind (readParts 1) := by
      unfold readISOString
      split
      · exact absurd (hdigit '-' rfl) (by decide)
      · exact absurd (hdigit '+' rfl) (by decide)
      · rfl
    rw [hsame, hread]
    exact readParts_partsOf h (by omega)
  · have hparts : Fits (.digits 6 :: afterYear) ((partsOf t).year.natAbs :: (partsOf t).rest) := ⟨year_bound h, hfits⟩
    have hread := read_write hparts
    split
    · rename_i hneg
      rw [readISOString, hread, Option.bind_some, if_neg (by simp; omega)]
      exact readParts_partsOf h (by omega)
    · rw [readISOString, hread]
      exact readParts_partsOf h (by omega)

theorem toISOString_ne_nil (t : ℤ) : toISOString t ≠ [] := by
  unfold toISOString
  dsimp only
  split
  · intro hnil
    have hlength := congrArg List.length hnil
    rw [write, List.length_append, length_padded] at hlength
    simp at hlength
  · exact List.cons_ne_nil _ _

example : toISOString 951782400123 = "2000-02-29T00:00:00.123Z".toList := by decide +kernel

end Upstat.CalendarTexts
