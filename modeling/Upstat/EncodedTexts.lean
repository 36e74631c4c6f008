import Upstat.QueryGrammar

/-! # Texts as characters and as bytes

Python reads a query as characters and Go as bytes: the ASCII bytes of a text are its ASCII
characters. -/
namespace Upstat.EncodedTexts

open QueryGrammar

@[simp] theorem encode_nil : encode [] = [] := rfl

@[simp] theorem encode_append (s t : List Char) : encode (s ++ t) = encode s ++ encode t := List.flatMap_append

theorem encode_cons (c : Char) (s : List Char) : encode (c :: s) = String.utf8EncodeChar c ++ encode s := rfl

theorem utf8EncodeChar_cons (c : Char) : ∃ b s, String.utf8EncodeChar c = b :: s := by
  apply List.exists_cons_of_ne_nil
  intro h
  have hlen := String.length_utf8EncodeChar c
  have hpos := c.utf8Size_pos
  rw [h, List.length_nil] at hlen
  omega

theorem utf8EncodeChar_ascii {c : Char} (hc : c.toNat < 128) : String.utf8EncodeChar c = [c.toUInt8] := by
  apply String.utf8EncodeChar_eq_singleton
  rw [Char.utf8Size_eq_one_iff, UInt32.le_iff_toNat_le]
  have h : c.toNat = c.val.toNat := rfl
  have h' : (127 : UInt32).toNat = 127 := rfl
  omega

theorem encode_cons_ascii {c : Char} (hc : c.toNat < 128) (s : List Char) : encode (c :: s) = c.toUInt8 :: encode s := by
  rw [encode_cons, utf8EncodeChar_ascii hc, List.singleton_append]

/-- A byte with its highest bit set. -/
theorem le_or_right (x y : UInt8) (hy : 128 ≤ y.toNat) : 128 ≤ (x ||| y).toNat := by
  rw [UInt8.toNat_or]
  exact Nat.le_trans hy Nat.right_le_or

theorem utf8EncodeChar_not_ascii {c : Char} (hc : 128 ≤ c.toNat) : ∀ b ∈ String.utf8EncodeChar c, 128 ≤ b.toNat := by
  have hsize : c.utf8Size ≠ 1 := by
    rw [ne_eq, Char.utf8Size_eq_one_iff, UInt32.le_iff_toNat_le]
    have h : c.toNat = c.val.toNat := rfl
    have h' : (127 : UInt32).toNat = 127 := rfl
    omega
  intro b hb
  rcases Char.utf8Size_eq c with h | h | h | h
  · exact absurd h hsize
  · rw [String.utf8EncodeChar_eq_cons_cons h] at hb
    simp only [List.mem_cons, List.not_mem_nil, or_false] at hb
    rcases hb with rfl | rfl <;> exact le_or_right _ _ (by decide)
  · rw [String.utf8EncodeChar_eq_cons_cons_cons h] at hb
    simp only [List.mem_cons, List.not_mem_nil, or_false] at hb
    rcases hb with rfl | rfl | rfl <;> exact le_or_right _ _ (by decide)
  · rw [String.utf8EncodeChar_eq_cons_cons_cons_cons h] at hb
    simp only [List.mem_cons, List.not_mem_nil, or_false] at hb
    rcases hb with rfl | rfl | rfl | rfl <;> exact le_or_right _ _ (by decide)

theorem toNat_toUInt8 {c : Char} (hc : c.toNat < 128) : c.toUInt8.toNat = c.toNat := by
  have h : c.toUInt8.toNat = c.toNat % 256 := UInt32.toNat_toUInt8 c.val
  omega

theorem toUInt8_inj {c d : Char} (hc : c.toNat < 128) (hd : d.toNat < 128) : c.toUInt8 = d.toUInt8 ↔ c = d := by
  rw [← UInt8.toNat_inj, toNat_toUInt8 hc, toNat_toUInt8 hd, Char.toNat_inj]

/-- An ASCII byte of a text is one of its characters. -/
theorem mem_encode {c : Char} (hc : c.toNat < 128) {s : List Char} : c.toUInt8 ∈ encode s ↔ c ∈ s := by
  induction s with
  | nil => simp
  | cons d s ih =>
    rw [encode_cons, List.mem_append, ih, List.mem_cons]
    refine or_congr_left ?_
    by_cases hd : d.toNat < 128
    · rw [utf8EncodeChar_ascii hd, List.mem_singleton, toUInt8_inj hc hd]
    · constructor
      · intro h
        have := utf8EncodeChar_not_ascii (Nat.le_of_not_lt hd) _ h
        rw [toNat_toUInt8 hc] at this
        omega
      · rintro rfl
        exact absurd hc hd

/-- An ASCII byte that begins a text is its first character. -/
theorem head?_encode {c : Char} (hc : c.toNat < 128) {s : List Char} :
    (encode s).head? = some c.toUInt8 ↔ s.head? = some c := by
  cases s with
  | nil => simp
  | cons d s =>
    rw [encode_cons, List.head?_cons, Option.some.injEq]
    by_cases hd : d.toNat < 128
    · rw [utf8EncodeChar_ascii hd, List.singleton_append, List.head?_cons, Option.some.injEq, toUInt8_inj hd hc]
    · obtain ⟨b, t, hb⟩ := utf8EncodeChar_cons d
      have hbig := utf8EncodeChar_not_ascii (Nat.le_of_not_lt hd) b (by simp [hb])
      rw [hb, List.cons_append, List.head?_cons, Option.some.injEq]
      constructor
      · rintro rfl
        rw [toNat_toUInt8 hc] at hbig
        omega
      · rintro rfl
        exact absurd hc hd

theorem runesFrom_append {a s : Bytes} : ∀ {k}, a.length = k → runesFrom k (a ++ s) = runesFrom 0 s := by
  induction a with
  | nil =>
    rintro k rfl
    rfl
  | cons c a ih =>
    rintro k rfl
    rw [List.length_cons, List.cons_append, runesFrom]
    exact ih rfl

theorem runes_encode_append (l : List Char) (s : Bytes) : runes (encode l ++ s) = l ++ runes s := by
  induction l with
  | nil => rfl
  | cons c l ih =>
    have hlen := String.length_utf8EncodeChar c
    obtain ⟨d, a, hd⟩ := utf8EncodeChar_cons c
    have hdec : (d :: (a ++ (encode l ++ s))).toByteArray.utf8DecodeChar? 0 = some c := by
      rw [← List.cons_append, ← hd, List.toByteArray_append]
      exact ByteArray.utf8DecodeChar?_utf8EncodeChar_append
    rw [runes, encode, List.flatMap_cons, hd, List.cons_append, List.cons_append, List.append_assoc]
    change runesFrom 0 (d :: (a ++ (encode l ++ s))) = c :: l ++ runes s
    rw [runesFrom, hdec]
    simp only
    rw [runesFrom_append (by rw [hd] at hlen; simp at hlen; omega)]
    exact congrArg (c :: ·) ih

theorem runes_encode (l : List Char) : runes (encode l) = l := by
  have h := runes_encode_append l []
  rwa [List.append_nil, show runes [] = [] from rfl, List.append_nil] at h

theorem encode_injective : Function.Injective encode := Function.LeftInverse.injective runes_encode

theorem runes_ne_nil {s : Bytes} (h : s ≠ []) : runes s ≠ [] := by
  obtain ⟨c, s, rfl⟩ := List.exists_cons_of_ne_nil h
  rw [runes, runesFrom]
  split <;> simp

/-- What follows an ASCII byte of a text is a text. -/
theorem encode_after {c : UInt8} (hc : c.toNat < 128) {l : List Char} {a b : Bytes} (h : encode l = a ++ c :: b) :
    ∃ l', b = encode l' := by
  induction l generalizing a with
  | nil => simp at h
  | cons d l ih =>
    rw [encode_cons] at h
    rcases List.append_eq_append_iff.mp h with ⟨m, -, hm⟩ | ⟨m, hd, hm⟩
    · exact ih hm
    · cases m with
      | nil => exact ih (a := []) (by simpa using hm.symm)
      | cons e m =>
        obtain ⟨rfl, rfl⟩ := List.cons.inj hm
        by_cases hda : d.toNat < 128
        · rw [utf8EncodeChar_ascii hda] at hd
          have hlen := congrArg List.length hd
          simp at hlen
          obtain ⟨rfl, rfl⟩ : a = [] ∧ m = [] := ⟨List.length_eq_zero_iff.mp (by omega), List.length_eq_zero_iff.mp (by omega)⟩
          exact ⟨l, rfl⟩
        · have := utf8EncodeChar_not_ascii (Nat.le_of_not_lt hda) c (by simp [hd])
          omega

end Upstat.EncodedTexts
