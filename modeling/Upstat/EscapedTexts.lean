import Mathlib.Data.List.Basic

/-! # Texts with escape sequences

A reader that copies what it reads, stops at a tab or a newline, and takes a backslash for the start of a sequence.
What the sequences stand for is a parameter. -/
namespace Upstat.EscapedTexts

abbrev Text := List UInt8

def tab : UInt8 := 9
def newline : UInt8 := 10
def backslash : UInt8 := 92

/-- What begins after a backslash: how many bytes belong to the sequence, and the bytes it stands for. -/
structure Escapes where
  sequence : Text → Option (ℕ × Text)
  within : ∀ {s n d}, sequence s = some (n, d) → n ≤ s.length
  /-- A sequence stands for no more than it is written with. -/
  short : ∀ {s n d}, sequence s = some (n, d) → d.length ≤ n + 1

section
variable (E : Escapes)

/-- Nothing where the reader stops before the end of the text, or a sequence is none. -/
def Escapes.readWithin (E : Escapes) : ℕ → Text → Option Text
  | _, [] => some []
  | 0, _ => none
  | fuel + 1, c :: s =>
    if c = tab ∨ c = newline then none
    else if c = backslash then (E.sequence s).bind fun q => (E.readWithin fuel (s.drop q.1)).map (q.2 ++ ·)
    else (E.readWithin fuel s).map (c :: ·)

def Escapes.read (E : Escapes) (s : Text) : Option Text := E.readWithin s.length s

/-- Bytes that stand for themselves, and sequences that do. -/
inductive Escapes.Plain (E : Escapes) : Text → Prop
  | nil : E.Plain []
  | byte {c : UInt8} {s : Text} : c ≠ tab → c ≠ newline → c ≠ backslash → E.Plain s → E.Plain (c :: s)
  | sequence {s : Text} {n : ℕ} : E.sequence s = some (n, backslash :: s.take n) → E.Plain (s.drop n) → E.Plain (backslash :: s)

variable {E}

theorem readWithin_byte {c : UInt8} (ht : c ≠ tab) (hn : c ≠ newline) (hb : c ≠ backslash) (fuel : ℕ) (s : Text) :
    E.readWithin (fuel + 1) (c :: s) = (E.readWithin fuel s).map (c :: ·) := by
  rw [Escapes.readWithin, if_neg (not_or.mpr ⟨ht, hn⟩), if_neg hb]

theorem readWithin_sequence (fuel : ℕ) (s : Text) : E.readWithin (fuel + 1) (backslash :: s) =
    (E.sequence s).bind fun q => (E.readWithin fuel (s.drop q.1)).map (q.2 ++ ·) := by
  rw [Escapes.readWithin, if_neg (by decide), if_pos rfl]

theorem readWithin_stop {c : UInt8} (h : c = tab ∨ c = newline) (fuel : ℕ) (s : Text) : E.readWithin fuel (c :: s) = none := by
  cases fuel with
  | zero => rfl
  | succ fuel => rw [Escapes.readWithin, if_pos h]

/-- What is read is no longer than what is written. -/
theorem readWithin_length {fuel : ℕ} {s t : Text} (h : E.readWithin fuel s = some t) : t.length ≤ s.length := by
  induction fuel generalizing s t with
  | zero =>
    cases s with
    | nil =>
      obtain rfl := Option.some.inj h
      exact Nat.le_refl _
    | cons c s => cases h
  | succ fuel ih =>
    cases s with
    | nil =>
      obtain rfl := Option.some.inj h
      exact Nat.le_refl _
    | cons c s =>
      by_cases hstop : c = tab ∨ c = newline
      · rw [readWithin_stop hstop] at h
        cases h
      · obtain ⟨ht, hn⟩ := not_or.mp hstop
        by_cases hb : c = backslash
        · rw [hb, readWithin_sequence] at h
          obtain ⟨⟨n, d⟩, hq, hrest⟩ := Option.bind_eq_some_iff.mp h
          obtain ⟨w, hw, rfl⟩ := Option.map_eq_some_iff.mp hrest
          have hlen : w.length ≤ (s.drop n).length := ih hw
          have hwithin := E.within hq
          have hshort := E.short hq
          rw [List.length_drop] at hlen
          change (d ++ w).length ≤ _
          rw [List.length_append, List.length_cons]
          omega
        · rw [readWithin_byte ht hn hb] at h
          obtain ⟨w, hw, rfl⟩ := Option.map_eq_some_iff.mp h
          have hlen := ih hw
          rw [List.length_cons, List.length_cons]
          omega

/-- A text is read as it is written where all of it stands for itself. -/
theorem readWithin_eq_self_iff {fuel : ℕ} {s : Text} (hfuel : s.length ≤ fuel) : E.readWithin fuel s = some s ↔ E.Plain s := by
  induction fuel generalizing s with
  | zero =>
    obtain rfl := List.length_eq_zero_iff.mp (Nat.le_zero.mp hfuel)
    exact ⟨fun _ => .nil, fun _ => rfl⟩
  | succ fuel ih =>
    cases s with
    | nil => exact ⟨fun _ => .nil, fun _ => rfl⟩
    | cons c s =>
      rw [List.length_cons] at hfuel
      constructor
      · intro h
        by_cases hstop : c = tab ∨ c = newline
        · rw [readWithin_stop hstop] at h
          cases h
        · obtain ⟨ht, hn⟩ := not_or.mp hstop
          by_cases hb : c = backslash
          · subst hb
            rw [readWithin_sequence] at h
            obtain ⟨⟨n, d⟩, hq, hrest⟩ := Option.bind_eq_some_iff.mp h
            obtain ⟨w, hw, heq⟩ := Option.map_eq_some_iff.mp hrest
            -- neither part is longer than its own text, so both are as long as it
            have hwithin : n ≤ s.length := E.within hq
            have hd : d.length = (backslash :: s.take n).length := by
              have hshort := E.short hq
              have hlen : w.length ≤ (s.drop n).length := readWithin_length hw
              have htotal : (d ++ w).length = (backslash :: s).length := congrArg List.length heq
              rw [List.length_drop] at hlen
              rw [List.length_append, List.length_cons] at htotal
              rw [List.length_cons, List.length_take]
              omega
            have hparts : d = backslash :: s.take n ∧ w = s.drop n := by
              apply List.append_inj _ hd
              rw [heq, List.cons_append, List.take_append_drop]
            obtain ⟨rfl, rfl⟩ := hparts
            refine .sequence hq ((ih ?_).mp hw)
            rw [List.length_drop]
            omega
          · rw [readWithin_byte ht hn hb] at h
            obtain ⟨w, hw, heq⟩ := Option.map_eq_some_iff.mp h
            obtain rfl := (List.cons.inj heq).2
            exact .byte ht hn hb ((ih (by omega)).mp hw)
      · intro h
        cases h with
        | byte ht hn hb hs => rw [readWithin_byte ht hn hb, (ih (by omega)).mpr hs, Option.map_some]
        | sequence hq hs =>
          rename_i n
          have hrest : E.readWithin fuel (s.drop n) = some (s.drop n) := (ih (by rw [List.length_drop]; omega)).mpr hs
          rw [readWithin_sequence, hq, Option.bind_some, hrest, Option.map_some, List.cons_append, List.take_append_drop]

theorem read_eq_self_iff {s : Text} : E.read s = some s ↔ E.Plain s := readWithin_eq_self_iff (Nat.le_refl _)

/-- Where a sequence always stands for less than it is written with, none stands for itself. -/
theorem plain_iff_of_shorter (h : ∀ {s n d}, E.sequence s = some (n, d) → d.length ≤ n) {s : Text} :
    E.Plain s ↔ tab ∉ s ∧ newline ∉ s ∧ backslash ∉ s := by
  constructor
  · intro hs
    induction hs with
    | nil => simp
    | byte ht hn hb _ ih => simp only [List.mem_cons, not_or, ih, and_true, ht.symm, hn.symm, hb.symm, not_false_iff]
    | sequence hq _ =>
      have hwithin := E.within hq
      have hlen := h hq
      rw [List.length_cons, List.length_take, Nat.min_eq_left hwithin] at hlen
      omega
  · rintro ⟨ht, hn, hb⟩
    induction s with
    | nil => exact .nil
    | cons c s ih =>
      simp only [List.mem_cons, not_or] at ht hn hb
      exact .byte (Ne.symm ht.1) (Ne.symm hn.1) (Ne.symm hb.1) (ih ht.2 hn.2 hb.2)

end

/-! ## The sequences of tab-separated texts -/

def hexDigit (b : UInt8) : Option UInt8 :=
  if 48 ≤ b ∧ b ≤ 57 then some (b - 48)
  else if 65 ≤ b ∧ b ≤ 70 then some (b - 55)
  else if 97 ≤ b ∧ b ≤ 102 then some (b - 87)
  else none

def letters : List (UInt8 × UInt8) := [(97, 7), (98, 8), (102, 12), (110, 10), (114, 13), (116, 9), (118, 11), (48, 0)]

def hexSequence : Text → Option (ℕ × Text)
  | h :: l :: _ => (hexDigit h).bind fun x => (hexDigit l).map fun y => (3, [16 * x + y])
  | _ => none

/-- `\xHH` is the byte of two digits, `\N` no byte, a letter of the table its byte, and `\c` otherwise `c`. -/
def documentedSequence : Text → Option (ℕ × Text)
  | [] => none
  | c :: s => if c = 120 then hexSequence s else if c = 78 then some (1, []) else some (1, [(letters.lookup c).getD c])

theorem hexSequence_bounds {s : Text} {n : ℕ} {d : Text} (h : hexSequence s = some (n, d)) : n ≤ s.length + 1 ∧ d.length ≤ n := by
  cases s with
  | nil => cases h
  | cons x s =>
    cases s with
    | nil => cases h
    | cons y s =>
      obtain ⟨a, -, h⟩ := Option.bind_eq_some_iff.mp h
      obtain ⟨b, -, h⟩ := Option.map_eq_some_iff.mp h
      obtain ⟨rfl, rfl⟩ := Prod.mk.inj h
      simp

theorem documentedSequence_bounds {s : Text} {n : ℕ} {d : Text} (h : documentedSequence s = some (n, d)) : n ≤ s.length ∧ d.length ≤ n := by
  cases s with
  | nil => cases h
  | cons c s =>
    rw [documentedSequence] at h
    split_ifs at h
    · exact hexSequence_bounds h
    · obtain ⟨rfl, rfl⟩ := Prod.mk.inj (Option.some.inj h)
      simp
    · obtain ⟨rfl, rfl⟩ := Prod.mk.inj (Option.some.inj h)
      simp

theorem documentedSequence_short {s : Text} {n : ℕ} {d : Text} (h : documentedSequence s = some (n, d)) : d.length ≤ n + 1 :=
  Nat.le_succ_of_le (documentedSequence_bounds h).2

def documented : Escapes where
  sequence := documentedSequence
  within h := (documentedSequence_bounds h).1
  short h := documentedSequence_short h

theorem documented_plain_iff {s : Text} : documented.Plain s ↔ tab ∉ s ∧ newline ∉ s ∧ backslash ∉ s :=
  plain_iff_of_shorter fun h => (documentedSequence_bounds h).2

end Upstat.EscapedTexts
