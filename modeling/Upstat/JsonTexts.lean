import Mathlib.Data.List.Basic
import Mathlib.Data.List.TakeWhile
import Mathlib.Data.Nat.Notation

/-! # JSON values and their texts

A value is printed over lines, each level two blanks in, and read from a text by recursive descent. How a number
is printed, if it can be, and read is given; a text is a list of characters. An object lists the members named by
array indices first, in their order, and then the others as they came. -/
namespace Upstat.JsonTexts

/-- A JSON value, its numbers of some type; an object's members in their order. -/
inductive Json (ν : Type) where
  | null
  | bool (b : Bool)
  | num (n : ν)
  | str (s : List Char)
  | arr (xs : List (Json ν))
  | obj (fs : List (List Char × Json ν))

variable {ν : Type}

/-! ## Printing -/

/-- A character of a text of a string. -/
def escaped (c : Char) : List Char :=
  if c = '"' then ['\\', '"']
  else if c = '\\' then ['\\', '\\']
  else if c = '\x08' then ['\\', 'b']
  else if c = '\x0c' then ['\\', 'f']
  else if c = '\n' then ['\\', 'n']
  else if c = '\r' then ['\\', 'r']
  else if c = '\t' then ['\\', 't']
  else if c.toNat < 32 then ['\\', 'u', '0', '0', Nat.digitChar (c.toNat / 16), Nat.digitChar (c.toNat % 16)]
  else [c]

def quote (s : List Char) : List Char := '"' :: (s.flatMap escaped ++ ['"'])

def newline (indent : ℕ) : List Char := '\n' :: List.replicate (2 * indent) ' '

section
variable (printNumber : ν → Option (List Char))

mutual

def print (indent : ℕ) : Json ν → List Char
  | .null => ['n', 'u', 'l', 'l']
  | .bool true => ['t', 'r', 'u', 'e']
  | .bool false => ['f', 'a', 'l', 's', 'e']
  | .num n => (printNumber n).getD ['n', 'u', 'l', 'l']
  | .str s => quote s
  | .arr [] => ['[', ']']
  | .arr (x :: xs) => '[' :: (newline (indent + 1) ++ (print (indent + 1) x ++ (printItems (indent + 1) xs ++ (newline indent ++ [']']))))
  | .obj [] => ['{', '}']
  | .obj ((k, x) :: fs) =>
    '{' :: (newline (indent + 1) ++ (quote k ++ (':' :: ' ' :: (print (indent + 1) x ++ (printFields (indent + 1) fs ++ (newline indent ++ ['}']))))))

/-- The items after the first. -/
def printItems (indent : ℕ) : List (Json ν) → List Char
  | [] => []
  | x :: xs => ',' :: (newline indent ++ (print indent x ++ printItems indent xs))

/-- The members after the first. -/
def printFields (indent : ℕ) : List (List Char × Json ν) → List Char
  | [] => []
  | (k, x) :: fs => ',' :: (newline indent ++ (quote k ++ (':' :: ' ' :: (print indent x ++ printFields indent fs))))

end

end

/-! ## Reading -/

def isBlank (c : Char) : Bool := c = ' ' || c = '\n' || c = '\r' || c = '\t'

def skip (s : List Char) : List Char := s.dropWhile isBlank

def hexDigit (c : Char) : Option ℕ :=
  if '0' ≤ c ∧ c ≤ '9' then some (c.toNat - '0'.toNat)
  else if 'a' ≤ c ∧ c ≤ 'f' then some (c.toNat - 'a'.toNat + 10)
  else if 'A' ≤ c ∧ c ≤ 'F' then some (c.toNat - 'A'.toNat + 10)
  else none

def hexCode (a b c d : Char) : Option ℕ := do
  let a ← hexDigit a
  let b ← hexDigit b
  let c ← hexDigit c
  let d ← hexDigit d
  some (((a * 16 + b) * 16 + c) * 16 + d)

/-- What stands for itself, or for a control character, after a backslash. -/
def unescaped (c : Char) : Option Char :=
  if c = '"' ∨ c = '\\' ∨ c = '/' then some c
  else if c = 'b' then some '\x08'
  else if c = 'f' then some '\x0c'
  else if c = 'n' then some '\n'
  else if c = 'r' then some '\r'
  else if c = 't' then some '\t'
  else none

/-- A string after its first quote, up to its last. A surrogate that stands alone is not read. -/
def readString : List Char → Option (List Char × List Char)
  | [] => none
  | '"' :: r => some ([], r)
  | '\\' :: 'u' :: a :: b :: c :: d :: r =>
    match hexCode a b c d with
    | none => none
    | some high =>
      if 0xd800 ≤ high ∧ high < 0xdc00 then
        match r with
        | '\\' :: 'u' :: a :: b :: c :: d :: r =>
          match hexCode a b c d with
          | none => none
          | some low =>
            if 0xdc00 ≤ low ∧ low < 0xe000 then
              (readString r).map fun out => (Char.ofNat (0x10000 + (high - 0xd800) * 0x400 + (low - 0xdc00)) :: out.1, out.2)
            else none
        | _ => none
      else if 0xdc00 ≤ high ∧ high < 0xe000 then none
      else (readString r).map fun out => (Char.ofNat high :: out.1, out.2)
  | '\\' :: c :: r =>
    match unescaped c with
    | none => none
    | some c => (readString r).map fun out => (c :: out.1, out.2)
  | c :: r => if c.toNat < 32 then none else (readString r).map fun out => (c :: out.1, out.2)

def isNumberChar (c : Char) : Bool := c.isDigit || ['-', '+', '.', 'e', 'E'].contains c

/-- The array index a key stands for, if it is one. -/
def index (k : List Char) : Option ℕ :=
  let n := Nat.ofDigitChars 10 k 0
  if k = Nat.toDigits 10 n ∧ n < 4294967295 then some n else none

def before (k k' : List Char) : Bool :=
  match index k, index k' with
  | some i, some j => i < j
  | none, some _ => false
  | _, none => true

/-- A member put into an object, where one of the same key is overwritten. -/
def assign (fs : List (List Char × Json ν)) (f : List Char × Json ν) : List (List Char × Json ν) :=
  if f.1 ∈ fs.map Prod.fst then fs.map fun g => if g.1 = f.1 then f else g
  else fs.takeWhile (fun g => before g.1 f.1) ++ f :: fs.dropWhile (fun g => before g.1 f.1)

section
variable (readNumber : List Char → Option ν)

def readLeaf (s : List Char) : Option (Json ν × List Char) :=
  match s with
  | 'n' :: 'u' :: 'l' :: 'l' :: r => some (.null, r)
  | 't' :: 'r' :: 'u' :: 'e' :: r => some (.bool true, r)
  | 'f' :: 'a' :: 'l' :: 's' :: 'e' :: r => some (.bool false, r)
  | s => (readNumber (s.takeWhile isNumberChar)).map fun n => (.num n, s.dropWhile isNumberChar)

mutual

def readValue : ℕ → List Char → Option (Json ν × List Char)
  | 0, _ => none
  | n + 1, s =>
    match skip s with
    | '"' :: r => (readString r).map fun out => (.str out.1, out.2)
    | '[' :: r =>
      match skip r with
      | ']' :: r => some (.arr [], r)
      | r => (readItems n r).map fun out => (.arr out.1, out.2)
    | '{' :: r =>
      match skip r with
      | '}' :: r => some (.obj [], r)
      | r => (readFields n r).map fun out => (.obj (out.1.foldl assign []), out.2)
    | r => readLeaf readNumber r

/-- Items up to the closing bracket, of which there is at least one. -/
def readItems : ℕ → List Char → Option (List (Json ν) × List Char)
  | 0, _ => none
  | n + 1, s =>
    match readValue n s with
    | none => none
    | some (x, r) =>
      match skip r with
      | ']' :: r => some ([x], r)
      | ',' :: r => (readItems n r).map fun out => (x :: out.1, out.2)
      | _ => none

/-- Members up to the closing brace. -/
def readFields : ℕ → List Char → Option (List (List Char × Json ν) × List Char)
  | 0, _ => none
  | n + 1, s =>
    match skip s with
    | '"' :: r =>
      match readString r with
      | none => none
      | some (k, r) =>
        match skip r with
        | ':' :: r =>
          match readValue n r with
          | none => none
          | some (x, r) =>
            match skip r with
            | '}' :: r => some ([(k, x)], r)
            | ',' :: r => (readFields n r).map fun out => ((k, x) :: out.1, out.2)
            | _ => none
        | _ => none
    | _ => none

end

/-- A text of one value. -/
def read (s : List Char) : Option (Json ν) :=
  match readValue readNumber (s.length + 1) s with
  | some (v, r) => if skip r = [] then some v else none
  | none => none

end

/-! ## Strings -/

theorem hexCode_digitChar : ∀ n < 32, hexCode '0' '0' (Nat.digitChar (n / 16)) (Nat.digitChar (n % 16)) = some n := by decide

theorem readString_escaped (c : Char) (r : List Char) : readString (escaped c ++ r) = (readString r).map fun out => (c :: out.1, out.2) := by
  rw [escaped]
  split_ifs with hquote hbackslash hb hf hn hr ht hcontrol
  · subst hquote; rfl
  · subst hbackslash; rfl
  · subst hb; rfl
  · subst hf; rfl
  · subst hn; rfl
  · subst hr; rfl
  · subst ht; rfl
  · have hcode := hexCode_digitChar c.toNat hcontrol
    have hhigh : ¬(0xd800 ≤ c.toNat ∧ c.toNat < 0xdc00) := by omega
    have hlow : ¬(0xdc00 ≤ c.toNat ∧ c.toNat < 0xe000) := by omega
    simp [readString, hcode, hhigh, hlow]
  · rw [List.cons_append, List.nil_append, readString]
    · rw [if_neg hcontrol]
    · exact hquote
    · rintro a b d e r' heq -
      exact hbackslash heq
    · intro d r' heq
      exact absurd heq hbackslash

theorem readString_flatMap (s r : List Char) : readString (s.flatMap escaped ++ '"' :: r) = some (s, r) := by
  induction s with
  | nil => simp [readString]
  | cons c s ih =>
    rw [List.flatMap_cons, List.append_assoc, readString_escaped, ih]
    rfl

/-! ## Members in order -/

/-- Distinct keys, indices first and in their order. -/
def InOrder (fs : List (List Char × Json ν)) : Prop := fs.Pairwise fun f g => f.1 ≠ g.1 ∧ before f.1 g.1 = true

theorem inOrder_keys {fs : List (List Char × Json ν)} :
    InOrder fs ↔ (fs.map Prod.fst).Pairwise fun k k' => k ≠ k' ∧ before k k' = true := by
  rw [List.pairwise_map]
  rfl

theorem index_injective {k k' : List Char} {n : ℕ} (h : index k = some n) (h' : index k' = some n) : k = k' := by
  simp only [index] at h h'
  split_ifs at h h' with hk hk'
  rw [hk.1, hk'.1, Option.some.inj h, Option.some.inj h']

theorem before_total {k k' : List Char} (hne : k ≠ k') (h : before k k' = false) : before k' k = true := by
  simp only [before] at h ⊢
  cases hk : index k with
  | none => cases hk' : index k' <;> simp [hk, hk'] at h ⊢
  | some i =>
    cases hk' : index k' with
    | none => simp [hk, hk'] at h
    | some j =>
      have hij : i ≠ j := by
        rintro rfl
        exact hne (index_injective hk hk')
      simp only [hk, hk', decide_eq_false_iff_not] at h
      simp only [decide_eq_true_eq]
      omega

theorem before_of_not_before {k k' l : List Char} (h : before k k' = false) (h' : before k l = true) : before k' l = true := by
  simp only [before] at h h' ⊢
  cases hk' : index k' with
  | none => cases hk : index k <;> simp [hk, hk'] at h
  | some j =>
    cases hl : index l with
    | none => rfl
    | some m =>
      cases hk : index k with
      | none => simp [hk, hl] at h'
      | some i =>
        simp only [hk, hk', decide_eq_false_iff_not] at h
        simp only [hk, hl, decide_eq_true_eq] at h'
        simp only [decide_eq_true_eq]
        omega

theorem foldl_assign (acc fs : List (List Char × Json ν)) (h : InOrder (acc ++ fs)) : fs.foldl assign acc = acc ++ fs := by
  induction fs generalizing acc with
  | nil => simp
  | cons f fs ih =>
    have hpairs := List.pairwise_append.mp h
    have hnew : f.1 ∉ acc.map Prod.fst := by
      intro hmem
      obtain ⟨g, hg, heq⟩ := List.mem_map.mp hmem
      exact (hpairs.2.2 g hg f List.mem_cons_self).1 heq
    have hbefore : ∀ g ∈ acc, before g.1 f.1 = true := fun g hg => (hpairs.2.2 g hg f List.mem_cons_self).2
    have hassign : assign acc f = acc ++ [f] := by
      rw [assign, if_neg hnew, List.takeWhile_eq_self_iff.mpr hbefore, List.dropWhile_eq_nil_iff.mpr hbefore]
    rw [List.foldl_cons, hassign, ih _ (by rwa [List.append_assoc, List.singleton_append]), List.append_assoc, List.singleton_append]

/-- An object stays in order as members are put into it. -/
theorem InOrder.assign {fs : List (List Char × Json ν)} (h : InOrder fs) (f : List Char × Json ν) : InOrder (assign fs f) := by
  rw [JsonTexts.assign]
  split
  · have hkeys : (fs.map fun g => if g.1 = f.1 then f else g).map Prod.fst = fs.map Prod.fst := by
      rw [List.map_map]
      apply List.map_congr_left
      intro g _
      by_cases heq : g.1 = f.1
      · simp [heq]
      · simp [heq]
    rw [inOrder_keys, hkeys]
    exact inOrder_keys.mp h
  · rename_i hnew
    have hne : ∀ g ∈ fs, g.1 ≠ f.1 := fun g hg heq => hnew (List.mem_map.mpr ⟨g, hg, heq⟩)
    have hsplit := h
    rw [← List.takeWhile_append_dropWhile (p := fun g => before g.1 f.1) (l := fs)] at hsplit
    obtain ⟨hfirst, hlast, hcross⟩ := List.pairwise_append.mp hsplit
    have hafter : ∀ l ∈ fs.dropWhile (fun g => before g.1 f.1), f.1 ≠ l.1 ∧ before f.1 l.1 = true := by
      intro l hl
      have hmem : l ∈ fs := (List.dropWhile_sublist _).mem hl
      refine ⟨(hne l hmem).symm, ?_⟩
      have hstop := List.head?_dropWhile_not (fun g => before g.1 f.1) fs
      cases hdrop : fs.dropWhile (fun g => before g.1 f.1) with
      | nil => simp [hdrop] at hl
      | cons g gs =>
        rw [hdrop, List.head?_cons] at hstop
        rw [hdrop] at hl hlast
        have hg : before g.1 f.1 = false := by simpa using hstop
        rcases List.mem_cons.mp hl with rfl | hl
        · exact before_total (hne l hmem) hg
        · exact before_of_not_before hg ((List.pairwise_cons.mp hlast).1 l hl).2
    apply List.pairwise_append.mpr
    refine ⟨hfirst, List.pairwise_cons.mpr ⟨hafter, hlast⟩, ?_⟩
    intro g hg l hl
    rcases List.mem_cons.mp hl with rfl | hl
    · exact ⟨hne g ((List.takeWhile_sublist _).mem hg), List.mem_takeWhile_imp (p := fun g : List Char × Json ν => before g.1 l.1) hg⟩
    · exact hcross g hg l hl

theorem inOrder_foldl {fs acc : List (List Char × Json ν)} (h : InOrder acc) : InOrder (fs.foldl JsonTexts.assign acc) := by
  induction fs generalizing acc with
  | nil => exact h
  | cons f fs ih => exact ih (h.assign f)

/-! ## What a printed value reads as -/

section
variable (printNumber : ν → Option (List Char))

mutual

/-- A value with its members in order and null for what cannot be printed. -/
def tidy : Json ν → Json ν
  | .null => .null
  | .bool b => .bool b
  | .num n => if (printNumber n).isSome then .num n else .null
  | .str s => .str s
  | .arr xs => .arr (tidyItems xs)
  | .obj fs => .obj ((tidyFields fs).foldl assign [])

def tidyItems : List (Json ν) → List (Json ν)
  | [] => []
  | x :: xs => tidy x :: tidyItems xs

def tidyFields : List (List Char × Json ν) → List (List Char × Json ν)
  | [] => []
  | (k, x) :: fs => (k, tidy x) :: tidyFields fs

end

end

theorem skip_blanks {ws : List Char} (hws : ∀ c ∈ ws, isBlank c = true) (s : List Char) : skip (ws ++ s) = skip s := by
  rw [skip, List.dropWhile_append_of_pos hws, skip]

theorem isBlank_newline (k : ℕ) : ∀ c ∈ newline k, isBlank c = true := by
  intro c hc
  rcases List.mem_cons.mp hc with rfl | hc
  · rfl
  · rw [List.eq_of_mem_replicate hc]
    rfl

theorem skip_newline (k : ℕ) (s : List Char) : skip (newline k ++ s) = skip s := skip_blanks (isBlank_newline k) s

theorem skip_cons {c : Char} (h : isBlank c = false) (s : List Char) : skip (c :: s) = c :: s := by simp [skip, h]

/-- What follows a number does not go on with it. -/
def Ends (r : List Char) : Prop := ∀ c ∈ r.head?, isNumberChar c = false

section
variable {printNumber : ν → Option (List Char)} {readNumber : List Char → Option ν}

/-- A number that can be printed is read as itself. -/
def Reads (printNumber : ν → Option (List Char)) (readNumber : List Char → Option ν) : Prop :=
  ∀ n t, printNumber n = some t → t ≠ [] ∧ (∀ c ∈ t, isNumberChar c = true) ∧ readNumber t = some n

theorem takeWhile_number {t r : List Char} (ht : ∀ c ∈ t, isNumberChar c = true) (hr : Ends r) :
    (t ++ r).takeWhile isNumberChar = t ∧ (t ++ r).dropWhile isNumberChar = r := by
  rw [List.takeWhile_append_of_pos ht, List.dropWhile_append_of_pos ht]
  cases r with
  | nil => simp
  | cons c r =>
    have hc : isNumberChar c = false := hr c rfl
    simp [hc]

/-- The first character of a number is none that begins another value. -/
theorem numberChar_first {c : Char} (h : isNumberChar c = true) :
    isBlank c = false ∧ c ≠ '"' ∧ c ≠ '[' ∧ c ≠ '{' ∧ c ≠ 'n' ∧ c ≠ 't' ∧ c ≠ 'f' := by
  refine ⟨?_, ?_, ?_, ?_, ?_, ?_, ?_⟩
  · by_contra hblank
    rw [Bool.not_eq_false, isBlank] at hblank
    simp only [Bool.or_eq_true, decide_eq_true_eq] at hblank
    rcases hblank with ((rfl | rfl) | rfl) | rfl <;> revert h <;> decide
  all_goals
    rintro rfl
    revert h
    decide

theorem readLeaf_number (hreads : Reads printNumber readNumber) {n : ν} {t r : List Char} (ht : printNumber n = some t) (hr : Ends r) :
    readLeaf readNumber (t ++ r) = some (.num n, r) := by
  obtain ⟨hne, hchars, hread⟩ := hreads n t ht
  obtain ⟨htake, hdrop⟩ := takeWhile_number hchars hr
  obtain ⟨c, t', rfl⟩ := List.exists_cons_of_ne_nil hne
  obtain ⟨-, -, -, -, hn, htrue, hfalse⟩ := numberChar_first (hchars c List.mem_cons_self)
  rw [readLeaf]
  · rw [htake, hdrop, hread, Option.map_some]
  · rintro r' heq
    exact hn (List.cons.inj heq).1
  · rintro r' heq
    exact htrue (List.cons.inj heq).1
  · rintro r' heq
    exact hfalse (List.cons.inj heq).1

theorem readValue_leaf {n : ℕ} {c : Char} {s : List Char} (hblank : isBlank c = false) (hquote : c ≠ '"') (hitems : c ≠ '[')
    (hmembers : c ≠ '{') : readValue readNumber (n + 1) (c :: s) = readLeaf readNumber (c :: s) := by
  rw [readValue, skip_cons hblank]
  split
  · rename_i heq
    exact absurd (List.cons.inj heq).1 hquote
  · rename_i heq
    exact absurd (List.cons.inj heq).1 hitems
  · rename_i heq
    exact absurd (List.cons.inj heq).1 hmembers
  · rfl

/-- Blanks before a value are passed over. -/
theorem readValue_blanks {w : List Char} (hw : ∀ c ∈ w, isBlank c = true) (n : ℕ) (s : List Char) :
    readValue readNumber n (w ++ s) = readValue readNumber n s := by
  cases n with
  | zero => rfl
  | succ n => rw [readValue, readValue, skip_blanks hw]

theorem ends_cons {c : Char} (h : isNumberChar c = false) (r : List Char) : Ends (c :: r) := by
  intro d hd
  obtain rfl := Option.some.inj hd
  exact h

theorem ends_newline (k : ℕ) (s : List Char) : Ends (newline k ++ s) := ends_cons (by decide) _

theorem readItems_blanks {ws : List Char} (hws : ∀ c ∈ ws, isBlank c = true) (n : ℕ) (s : List Char) :
    readItems readNumber n (ws ++ s) = readItems readNumber n s := by
  cases n with
  | zero => rfl
  | succ n => rw [readItems, readItems, readValue_blanks hws]

theorem readFields_blanks {ws : List Char} (hws : ∀ c ∈ ws, isBlank c = true) (n : ℕ) (s : List Char) :
    readFields readNumber n (ws ++ s) = readFields readNumber n s := by
  cases n with
  | zero => rfl
  | succ n => rw [readFields, readFields, skip_blanks hws]

/-- A printed value begins with no blank and no closing bracket. -/
theorem print_first (hreads : Reads printNumber readNumber) (k : ℕ) (v : Json ν) :
    ∃ c t, print printNumber k v = c :: t ∧ isBlank c = false ∧ c ≠ ']' := by
  cases v with
  | null => exact ⟨_, _, rfl, by decide, by decide⟩
  | bool b => cases b <;> exact ⟨_, _, rfl, by decide, by decide⟩
  | num x =>
    cases ht : printNumber x with
    | none => exact ⟨'n', ['u', 'l', 'l'], by simp [print, ht], by decide, by decide⟩
    | some t =>
      obtain ⟨hne, hchars, -⟩ := hreads x t ht
      obtain ⟨c, t', rfl⟩ := List.exists_cons_of_ne_nil hne
      have hc := hchars c List.mem_cons_self
      refine ⟨c, t', by simp [print, ht], (numberChar_first hc).1, ?_⟩
      rintro rfl
      revert hc
      decide
  | str s => exact ⟨'"', _, rfl, by decide, by decide⟩
  | arr xs => cases xs <;> exact ⟨'[', _, rfl, by decide, by decide⟩
  | obj fs => cases fs <;> exact ⟨'{', _, rfl, by decide, by decide⟩

theorem length_quote_pos (s : List Char) : 2 ≤ (quote s).length := by simp [quote]

theorem readString_quote (s r : List Char) : readString ((quote s ++ r).tail) = some (s, r) := by
  rw [quote, List.cons_append, List.tail_cons, List.append_assoc]
  exact readString_flatMap s r

mutual

/-- What is printed is read as the value itself, its members in order; each level of it takes fuel for its text. -/
theorem readValue_print (hreads : Reads printNumber readNumber) : (v : Json ν) → ∀ (k n : ℕ) (r : List Char), Ends r →
    (print printNumber k v).length ≤ n → readValue readNumber n (print printNumber k v ++ r) = some (tidy printNumber v, r)
  | .null => by
    intro k n r _ hn
    obtain ⟨n, rfl⟩ : ∃ m, n = m + 1 := ⟨n - 1, by simp [print] at hn; omega⟩
    rw [print, tidy]
    exact readValue_leaf (by decide) (by decide) (by decide) (by decide)
  | .bool b => by
    intro k n r _ hn
    obtain ⟨n, rfl⟩ : ∃ m, n = m + 1 := ⟨n - 1, by cases b <;> simp [print] at hn <;> omega⟩
    cases b with
    | true =>
      rw [print, tidy]
      exact readValue_leaf (by decide) (by decide) (by decide) (by decide)
    | false =>
      rw [print, tidy]
      exact readValue_leaf (by decide) (by decide) (by decide) (by decide)
  | .num x => by
    intro k n r hr hn
    rw [print] at hn ⊢
    rw [tidy]
    cases ht : printNumber x with
    | none =>
      rw [ht, Option.getD_none] at hn
      obtain ⟨n, rfl⟩ : ∃ m, n = m + 1 := ⟨n - 1, by simp at hn; omega⟩
      exact readValue_leaf (by decide) (by decide) (by decide) (by decide)
    | some t =>
      rw [ht, Option.getD_some] at hn
      rw [Option.getD_some, Option.isSome_some, if_pos rfl]
      have hleaf := readLeaf_number hreads ht hr
      obtain ⟨hne, hchars, -⟩ := hreads x t ht
      obtain ⟨c, t', rfl⟩ := List.exists_cons_of_ne_nil hne
      obtain ⟨n, rfl⟩ : ∃ m, n = m + 1 := ⟨n - 1, by simp at hn; omega⟩
      obtain ⟨hblank, hquote, hitems, hmembers, -⟩ := numberChar_first (hchars c List.mem_cons_self)
      rw [List.cons_append, readValue_leaf hblank hquote hitems hmembers]
      exact hleaf
  | .str s => by
    intro k n r _ hn
    rw [print] at hn ⊢
    have hlength := length_quote_pos s
    obtain ⟨n, rfl⟩ : ∃ m, n = m + 1 := ⟨n - 1, by omega⟩
    have hread := readString_quote s r
    rw [quote, List.cons_append] at hread ⊢
    rw [readValue, skip_cons (by decide)]
    simp only [List.tail_cons] at hread
    simp only [hread, Option.map_some, tidy]
  | .arr xs => by
    have ih := readItems_print hreads xs
    intro k n r _ hn
    cases xs with
    | nil =>
      obtain ⟨n, rfl⟩ : ∃ m, n = m + 1 := ⟨n - 1, by simp [print] at hn; omega⟩
      rw [print, tidy, tidyItems]
      simp [readValue, skip_cons, isBlank]
    | cons x xs =>
      rw [print] at hn ⊢
      simp only [List.length_cons, List.length_append] at hn
      obtain ⟨n, rfl⟩ : ∃ m, n = m + 1 := ⟨n - 1, by omega⟩
      have hitems := ih x xs rfl k (k + 1) n r (by omega)
      rw [List.cons_append, readValue, skip_cons (by decide)]
      obtain ⟨c, t, hprint, hblank, hclose⟩ := print_first hreads (k + 1) x
      simp only [List.append_assoc, List.singleton_append, skip_newline]
      rw [hprint] at hitems ⊢
      rw [List.cons_append, skip_cons hblank]
      split
      · rename_i heq
        exact absurd (List.cons.inj heq).1 hclose
      · rw [List.cons_append] at hitems
        rw [hitems, Option.map_some, tidy]
  | .obj fs => by
    have ih := readFields_print hreads fs
    intro k n r _ hn
    cases fs with
    | nil =>
      obtain ⟨n, rfl⟩ : ∃ m, n = m + 1 := ⟨n - 1, by simp [print] at hn; omega⟩
      rw [print, tidy, tidyFields]
      simp [readValue, skip_cons, isBlank]
    | cons f fs =>
      obtain ⟨key, x⟩ := f
      rw [print] at hn ⊢
      simp only [List.length_cons, List.length_append] at hn
      obtain ⟨n, rfl⟩ : ∃ m, n = m + 1 := ⟨n - 1, by omega⟩
      have hfields := ih key x fs rfl k (k + 1) n r (by omega)
      rw [List.cons_append, readValue, skip_cons (by decide)]
      simp only [List.append_assoc, List.cons_append, List.nil_append, skip_newline]
      rw [quote] at hfields ⊢
      rw [List.cons_append, skip_cons (by decide)]
      rw [List.cons_append] at hfields
      split
      · rename_i heq
        exact absurd (List.cons.inj heq).1 (by decide)
      · rw [hfields, Option.map_some, tidy]

theorem readItems_print (hreads : Reads printNumber readNumber) : (xs : List (Json ν)) → ∀ (x : Json ν) (rest : List (Json ν)),
    xs = x :: rest → ∀ (j k n : ℕ) (r : List Char), (print printNumber k x).length + (printItems printNumber k rest).length + 1 ≤ n →
      readItems readNumber n (print printNumber k x ++ (printItems printNumber k rest ++ (newline j ++ ']' :: r))) =
        some (tidyItems printNumber xs, r)
  | [] => by
    intro x rest heq
    cases heq
  | x :: xs => by
    have ihead := readValue_print hreads x
    have itail := readItems_print hreads xs
    intro x' rest heq
    obtain ⟨rfl, rfl⟩ := List.cons.inj heq
    intro j k n r hn
    obtain ⟨n, rfl⟩ : ∃ m, n = m + 1 := ⟨n - 1, by omega⟩
    rw [readItems, tidyItems]
    cases xs with
    | nil =>
      rw [printItems] at hn ⊢
      rw [List.nil_append, ihead k n _ (ends_newline j _) (by omega)]
      simp only [skip_newline, skip_cons (show isBlank ']' = false by decide), tidyItems]
    | cons y ys =>
      rw [printItems] at hn ⊢
      simp only [List.length_cons, List.length_append] at hn
      have hrest := itail y ys rfl j k n r (by omega)
      rw [List.cons_append, ihead k n _ (ends_cons (by decide) _) (by omega)]
      simp only [skip_cons (show isBlank ',' = false by decide), List.append_assoc]
      rw [readItems_blanks (isBlank_newline k), hrest, Option.map_some]

theorem readFields_print (hreads : Reads printNumber readNumber) : (fs : List (List Char × Json ν)) → ∀ (key : List Char) (x : Json ν)
    (rest : List (List Char × Json ν)), fs = (key, x) :: rest → ∀ (j k n : ℕ) (r : List Char),
      (print printNumber k x).length + (printFields printNumber k rest).length + 1 ≤ n →
        readFields readNumber n (quote key ++ (':' :: ' ' :: (print printNumber k x ++ (printFields printNumber k rest ++ (newline j ++ '}' :: r))))) =
          some (tidyFields printNumber fs, r)
  | [] => by
    intro key x rest heq
    cases heq
  | (key, x) :: fs => by
    have ihead := readValue_print hreads x
    have itail := readFields_print hreads fs
    intro key' x' rest heq
    obtain ⟨hkey, rfl⟩ := List.cons.inj heq
    obtain ⟨rfl, rfl⟩ := Prod.mk.inj hkey
    intro j k n r hn
    obtain ⟨n, rfl⟩ : ∃ m, n = m + 1 := ⟨n - 1, by omega⟩
    have hread := fun r => readString_quote key r
    rw [quote] at hread ⊢
    simp only [List.cons_append, List.tail_cons] at hread
    rw [List.cons_append, readFields, skip_cons (by decide), tidyFields]
    simp only [hread, skip_cons (show isBlank ':' = false by decide)]
    have hspace : ∀ s, readValue readNumber n (' ' :: s) = readValue readNumber n s :=
      readValue_blanks (w := [' ']) (fun c hc => by rw [List.mem_singleton.mp hc]; rfl) n
    rw [hspace]
    cases fs with
    | nil =>
      rw [printFields] at hn ⊢
      rw [List.nil_append, ihead k n _ (ends_newline j _) (by omega)]
      simp only [skip_newline, skip_cons (show isBlank '}' = false by decide), tidyFields]
    | cons f fs =>
      obtain ⟨key', y⟩ := f
      rw [printFields] at hn ⊢
      simp only [List.length_cons, List.length_append] at hn
      have hrest := itail key' y fs rfl j k n r (by omega)
      rw [List.cons_append, ihead k n _ (ends_cons (by decide) _) (by omega)]
      simp only [skip_cons (show isBlank ',' = false by decide), List.append_assoc, List.cons_append]
      rw [readFields_blanks (isBlank_newline k), hrest, Option.map_some]

end

/-- The text of a value reads as the value, its members in order. -/
theorem read_print (hreads : Reads printNumber readNumber) (v : Json ν) :
    read readNumber (print printNumber 0 v) = some (tidy printNumber v) := by
  have hread := readValue_print hreads v 0 ((print printNumber 0 v).length + 1) [] (fun c hc => by cases hc) (by omega)
  rw [List.append_nil] at hread
  simp [read, hread, skip]

end

/-! ## Values that read as they stand -/

theorem assign_perm {fs : List (List Char × Json ν)} {f : List Char × Json ν} (h : f.1 ∉ fs.map Prod.fst) : (assign fs f).Perm (f :: fs) := by
  rw [assign, if_neg h]
  apply List.perm_middle.trans
  rw [List.takeWhile_append_dropWhile]

theorem mem_assign {fs : List (List Char × Json ν)} {f g : List Char × Json ν} (h : g ∈ assign fs f) : g ∈ fs ∨ g = f := by
  by_cases hnew : f.1 ∈ fs.map Prod.fst
  · rw [assign, if_pos hnew] at h
    obtain ⟨m, hm, rfl⟩ := List.mem_map.mp h
    split
    · exact Or.inr rfl
    · exact Or.inl hm
  · rcases List.mem_cons.mp ((assign_perm hnew).mem_iff.mp h) with h | h
    · exact Or.inr h
    · exact Or.inl h

theorem mem_foldl_assign {fs acc : List (List Char × Json ν)} {g : List Char × Json ν} (h : g ∈ fs.foldl assign acc) : g ∈ acc ∨ g ∈ fs := by
  induction fs generalizing acc with
  | nil => exact Or.inl h
  | cons f fs ih =>
    rcases ih h with h | h
    · rcases mem_assign h with h | rfl
      · exact Or.inl h
      · exact Or.inr List.mem_cons_self
    · exact Or.inr (List.mem_cons_of_mem _ h)

/-- Members of distinct keys are all kept. -/
theorem foldl_assign_perm (acc fs : List (List Char × Json ν)) (h : ((acc ++ fs).map Prod.fst).Nodup) :
    (fs.foldl assign acc).Perm (acc ++ fs) := by
  induction fs generalizing acc with
  | nil => rw [List.append_nil, List.foldl_nil]
  | cons f fs ih =>
    have hnew : f.1 ∉ acc.map Prod.fst := by
      rw [List.map_append, List.map_cons] at h
      intro hmem
      exact (List.nodup_append.mp h).2.2 f.1 hmem f.1 List.mem_cons_self rfl
    have hperm : (assign acc f ++ fs).Perm (acc ++ f :: fs) := ((assign_perm hnew).append_right fs).trans List.perm_middle.symm
    exact (ih _ ((hperm.map Prod.fst).nodup_iff.mpr h)).trans hperm

mutual

/-- Every object of the value has its members in order. -/
def Ordered : Json ν → Prop
  | .null => True
  | .bool _ => True
  | .num _ => True
  | .str _ => True
  | .arr xs => OrderedItems xs
  | .obj fs => InOrder fs ∧ OrderedFields fs

def OrderedItems : List (Json ν) → Prop
  | [] => True
  | x :: xs => Ordered x ∧ OrderedItems xs

def OrderedFields : List (List Char × Json ν) → Prop
  | [] => True
  | (_, x) :: fs => Ordered x ∧ OrderedFields fs

end

mutual

/-- Every number of the value meets a condition. -/
def Numbers (p : ν → Prop) : Json ν → Prop
  | .null => True
  | .bool _ => True
  | .num n => p n
  | .str _ => True
  | .arr xs => NumbersItems p xs
  | .obj fs => NumbersFields p fs

def NumbersItems (p : ν → Prop) : List (Json ν) → Prop
  | [] => True
  | x :: xs => Numbers p x ∧ NumbersItems p xs

def NumbersFields (p : ν → Prop) : List (List Char × Json ν) → Prop
  | [] => True
  | (_, x) :: fs => Numbers p x ∧ NumbersFields p fs

end

section
variable {printNumber : ν → Option (List Char)}

theorem tidyFields_keys (fs : List (List Char × Json ν)) : (tidyFields printNumber fs).map Prod.fst = fs.map Prod.fst := by
  induction fs with
  | nil => rfl
  | cons f fs ih => rw [tidyFields, List.map_cons, ih, List.map_cons]

theorem tidy_obj {fs : List (List Char × Json ν)} (h : InOrder fs) : tidy printNumber (.obj fs) = .obj (tidyFields printNumber fs) := by
  have horder : InOrder (tidyFields printNumber fs) := by
    rw [inOrder_keys, tidyFields_keys]
    exact inOrder_keys.mp h
  rw [tidy, foldl_assign [] _ horder, List.nil_append]

mutual

/-- A value in order reads as it stands just when each of its numbers can be printed. -/
theorem tidy_eq_iff : (v : Json ν) → Ordered v → (tidy printNumber v = v ↔ Numbers (fun n => (printNumber n).isSome = true) v)
  | .null => fun _ => by simp [tidy, Numbers]
  | .bool _ => fun _ => by simp [tidy, Numbers]
  | .num n => fun _ => by
    rw [tidy, Numbers]
    split
    · simp [*]
    · simp [*]
  | .str _ => fun _ => by simp [tidy, Numbers]
  | .arr xs => fun h => by
    rw [tidy, Numbers, Json.arr.injEq]
    exact tidyItems_eq_iff xs h
  | .obj fs => fun h => by
    rw [tidy_obj h.1, Numbers, Json.obj.injEq]
    exact tidyFields_eq_iff fs h.2

theorem tidyItems_eq_iff : (xs : List (Json ν)) → OrderedItems xs →
    (tidyItems printNumber xs = xs ↔ NumbersItems (fun n => (printNumber n).isSome = true) xs)
  | [] => fun _ => by simp [tidyItems, NumbersItems]
  | x :: xs => fun h => by
    rw [tidyItems, NumbersItems, List.cons.injEq, tidy_eq_iff x h.1, tidyItems_eq_iff xs h.2]

theorem tidyFields_eq_iff : (fs : List (List Char × Json ν)) → OrderedFields fs →
    (tidyFields printNumber fs = fs ↔ NumbersFields (fun n => (printNumber n).isSome = true) fs)
  | [] => fun _ => by simp [tidyFields, NumbersFields]
  | (k, x) :: fs => fun h => by
    rw [tidyFields, NumbersFields, List.cons.injEq, Prod.mk.injEq, tidy_eq_iff x h.1, tidyFields_eq_iff fs h.2]
    simp

end

end

/-! ## Values read from elsewhere -/

section
variable {μ : Type} (f : ν → μ)

mutual

/-- A value whose numbers are read some way, its members put in order. -/
def convert : Json ν → Json μ
  | .null => .null
  | .bool b => .bool b
  | .num n => .num (f n)
  | .str s => .str s
  | .arr xs => .arr (convertItems xs)
  | .obj fs => .obj ((convertFields fs).foldl assign [])

def convertItems : List (Json ν) → List (Json μ)
  | [] => []
  | x :: xs => convert x :: convertItems xs

def convertFields : List (List Char × Json ν) → List (List Char × Json μ)
  | [] => []
  | (k, x) :: fs => (k, convert x) :: convertFields fs

end

theorem orderedFields_iff {fs : List (List Char × Json ν)} : OrderedFields fs ↔ ∀ g ∈ fs, Ordered g.2 := by
  induction fs with
  | nil => simp [OrderedFields]
  | cons g fs ih => simp [OrderedFields, ih]

mutual

theorem ordered_convert : (v : Json ν) → Ordered (convert f v)
  | .null => trivial
  | .bool _ => trivial
  | .num _ => trivial
  | .str _ => trivial
  | .arr xs => by
    rw [convert]
    exact orderedItems_convert xs
  | .obj fs => by
    have hfields := orderedFields_iff.mp (orderedFields_convert fs)
    rw [convert]
    refine ⟨inOrder_foldl List.Pairwise.nil, orderedFields_iff.mpr fun g hg => ?_⟩
    rcases mem_foldl_assign hg with hg | hg
    · cases hg
    · exact hfields g hg

theorem orderedItems_convert : (xs : List (Json ν)) → OrderedItems (convertItems f xs)
  | [] => trivial
  | x :: xs => ⟨ordered_convert x, orderedItems_convert xs⟩

theorem orderedFields_convert : (fs : List (List Char × Json ν)) → OrderedFields (convertFields f fs)
  | [] => trivial
  | (_, x) :: fs => ⟨ordered_convert x, orderedFields_convert fs⟩

end

end

end Upstat.JsonTexts
