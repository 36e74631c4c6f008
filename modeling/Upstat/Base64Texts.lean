import Mathlib.Data.List.TakeWhile

/-! # Bytes as base64 texts

Three bytes are four digits, and what is left at the end is padded. Reading ends at the padding and passes over
what is no digit. -/
namespace Upstat.Base64Texts

def alphabet : List Char := "ABCDEFGHIJKLMNOPQRSTUVWXYZabcdefghijklmnopqrstuvwxyz0123456789+/".toList

def digit (d : Fin 64) : Char := alphabet.getD d.val 'A'

/-- The digits of the alphabet for URLs are read as well. -/
def value (c : Char) : Option (Fin 64) :=
  if c = '-' then some 62
  else if c = '_' then some 63
  else (List.finRange 64).find? fun d => digit d = c

def encodeDigits : List UInt8 → List (Fin 64)
  | [] => []
  | [a] => [Fin.ofNat 64 (a.toNat / 4), Fin.ofNat 64 (a.toNat * 16)]
  | [a, b] => [Fin.ofNat 64 (a.toNat / 4), Fin.ofNat 64 (a.toNat * 16 + b.toNat / 16), Fin.ofNat 64 (b.toNat * 4)]
  | a :: b :: c :: rest =>
    Fin.ofNat 64 (a.toNat / 4) :: Fin.ofNat 64 (a.toNat * 16 + b.toNat / 16) :: Fin.ofNat 64 (b.toNat * 4 + c.toNat / 64) ::
      Fin.ofNat 64 c.toNat :: encodeDigits rest

def decodeDigits : List (Fin 64) → List UInt8
  | [p, q] => [UInt8.ofNat (p.val * 4 + q.val / 16)]
  | [p, q, r] => [UInt8.ofNat (p.val * 4 + q.val / 16), UInt8.ofNat (q.val * 16 + r.val / 4)]
  | p :: q :: r :: s :: rest =>
    UInt8.ofNat (p.val * 4 + q.val / 16) :: UInt8.ofNat (q.val * 16 + r.val / 4) :: UInt8.ofNat (r.val * 64 + s.val) :: decodeDigits rest
  | _ => []

def encode (bytes : List UInt8) : List Char :=
  (encodeDigits bytes).map digit ++ List.replicate ((3 - bytes.length % 3) % 3) '='

def decode (text : List Char) : List UInt8 := decodeDigits ((text.takeWhile (· ≠ '=')).filterMap value)

theorem value_digit (d : Fin 64) : value (digit d) = some d := by
  revert d
  decide +kernel

theorem digit_ne_padding (d : Fin 64) : digit d ≠ '=' := by
  revert d
  decide +kernel

theorem ofNat_eq {b : UInt8} {n : ℕ} (h : n % 256 = b.toNat) : UInt8.ofNat n = b := by
  apply UInt8.toNat_inj.mp
  rw [UInt8.toNat_ofNat', h]

theorem decodeDigits_encodeDigits (bytes : List UInt8) : decodeDigits (encodeDigits bytes) = bytes := by
  induction bytes using encodeDigits.induct with
  | case1 => rfl
  | case2 a =>
    have ha : a.toNat < 256 := a.toNat_lt
    have hfirst : UInt8.ofNat ((Fin.ofNat 64 (a.toNat / 4)).val * 4 + (Fin.ofNat 64 (a.toNat * 16)).val / 16) = a := by
      apply ofNat_eq
      simp only [Fin.val_ofNat]
      omega
    simp only [encodeDigits, decodeDigits, hfirst]
  | case3 a b =>
    have ha : a.toNat < 256 := a.toNat_lt
    have hb : b.toNat < 256 := b.toNat_lt
    have hfirst : UInt8.ofNat ((Fin.ofNat 64 (a.toNat / 4)).val * 4 + (Fin.ofNat 64 (a.toNat * 16 + b.toNat / 16)).val / 16) = a := by
      apply ofNat_eq
      simp only [Fin.val_ofNat]
      omega
    have hsecond : UInt8.ofNat ((Fin.ofNat 64 (a.toNat * 16 + b.toNat / 16)).val * 16 + (Fin.ofNat 64 (b.toNat * 4)).val / 4) = b := by
      apply ofNat_eq
      simp only [Fin.val_ofNat]
      omega
    simp only [encodeDigits, decodeDigits, hfirst, hsecond]
  | case4 a b c rest ih =>
    have ha : a.toNat < 256 := a.toNat_lt
    have hb : b.toNat < 256 := b.toNat_lt
    have hc : c.toNat < 256 := c.toNat_lt
    have hfirst : UInt8.ofNat ((Fin.ofNat 64 (a.toNat / 4)).val * 4 + (Fin.ofNat 64 (a.toNat * 16 + b.toNat / 16)).val / 16) = a := by
      apply ofNat_eq
      simp only [Fin.val_ofNat]
      omega
    have hsecond : UInt8.ofNat ((Fin.ofNat 64 (a.toNat * 16 + b.toNat / 16)).val * 16 +
        (Fin.ofNat 64 (b.toNat * 4 + c.toNat / 64)).val / 4) = b := by
      apply ofNat_eq
      simp only [Fin.val_ofNat]
      omega
    have hthird : UInt8.ofNat ((Fin.ofNat 64 (b.toNat * 4 + c.toNat / 64)).val * 64 + (Fin.ofNat 64 c.toNat).val) = c := by
      apply ofNat_eq
      simp only [Fin.val_ofNat]
      omega
    simp only [encodeDigits, decodeDigits, hfirst, hsecond, hthird, ih]

/-- What is written is read back. -/
theorem decode_encode (bytes : List UInt8) : decode (encode bytes) = bytes := by
  have hdigits : (encode bytes).takeWhile (· ≠ '=') = (encodeDigits bytes).map digit := by
    rw [encode, List.takeWhile_append_of_pos]
    · cases (3 - bytes.length % 3) % 3 with
      | zero => simp
      | succ n => simp [List.replicate_succ]
    · intro c hc
      obtain ⟨d, -, rfl⟩ := List.mem_map.mp hc
      simpa using digit_ne_padding d
  have hvalues : ((encodeDigits bytes).map digit).filterMap value = encodeDigits bytes := by
    rw [List.filterMap_map]
    have hread : value ∘ digit = some := funext value_digit
    rw [hread, List.filterMap_some]
  rw [decode, hdigits, hvalues, decodeDigits_encodeDigits]

end Upstat.Base64Texts
