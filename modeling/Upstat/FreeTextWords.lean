import Upstat.StrippedQueries

/-! # Words of free text (`query/internal/grammar/grammar.go`)

The parser asks for every byte of a word whether it is whitespace as a rune. A byte of a
longer encoding can be one that is. -/
namespace Upstat.FreeTextWords

open QueryGrammar GrammarReadings EncodedTexts StrippedQueries

variable {ν : Type} {lib : Library ν}

/-- Unicode's white space. -/
def whiteSpace (c : Char) : Bool :=
  c.toNat ∈ [32, 133, 160, 5760, 8232, 8233, 8239, 8287, 12288] ∨ (9 ≤ c.toNat ∧ c.toNat ≤ 13) ∨
    (8192 ≤ c.toNat ∧ c.toNat ≤ 8202)

/-- A word of free text: no whitespace, paren, quote, pipe or colon in it, and no minus that
begins it. -/
structure IsWord (w : List Char) : Prop where
  ne_nil : w ≠ []
  plain : ∀ c ∈ w, whiteSpace c = false ∧ c ∉ ['(', ')', '"', '|', ':']
  head : w.head? ≠ some '-'

instance (w : List Char) : Decidable (IsWord w) :=
  decidable_of_iff (w ≠ [] ∧ w.all (fun c => whiteSpace c = false ∧ c ∉ ['(', ')', '"', '|', ':']) = true ∧ w.head? ≠ some '-')
    ⟨fun h => ⟨h.1, by simpa using h.2.1, h.2.2⟩, fun h => ⟨h.ne_nil, by simpa using h.plain, h.head⟩⟩

variable {w : List Char}

theorem whiteSpace_ascii {c : Char} (hc : c.toNat < 128) :
    whiteSpace c = true ↔ (9 ≤ c.toNat ∧ c.toNat ≤ 13) ∨ c.toNat = 32 := by
  simp only [whiteSpace, decide_eq_true_eq, List.mem_cons, List.not_mem_nil, or_false]
  omega

/-! ## The bytes of a word -/

/-- The bytes that are whitespace as runes, though no ASCII ones. -/
theorem isSpace_of_not_ascii {b : UInt8} (hb : 128 ≤ b.toNat) : isSpace b = true ↔ b = 0x85 ∨ b = 0xA0 := by
  have h₁ : (9 : UInt8).toNat = 9 := rfl
  have h₂ : (13 : UInt8).toNat = 13 := rfl
  have h₃ : (32 : UInt8).toNat = 32 := rfl
  have h₄ : (0x85 : UInt8).toNat = 133 := rfl
  have h₅ : (0xA0 : UInt8).toNat = 160 := rfl
  simp only [isSpace, decide_eq_true_eq, UInt8.le_iff_toNat_le, ← UInt8.toNat_inj]
  omega

theorem IsWord.ascii_not_space (h : IsWord w) {b : UInt8} (hb : b ∈ encode w) (hascii : b.toNat < 128) :
    isSpace b = false := by
  obtain ⟨c, hc, hbc⟩ := List.mem_flatMap.mp hb
  have hca : c.toNat < 128 := by
    by_contra hge
    have := utf8EncodeChar_not_ascii (Nat.le_of_not_lt hge) b hbc
    omega
  rw [utf8EncodeChar_ascii hca, List.mem_singleton] at hbc
  subst hbc
  have hplain := (h.plain c hc).1
  rw [← Bool.not_eq_true, whiteSpace_ascii hca] at hplain
  rwa [← Bool.not_eq_true, isSpace_iff hascii, toNat_toUInt8 hca]

theorem IsWord.isSpace_iff (h : IsWord w) {b : UInt8} (hb : b ∈ encode w) : isSpace b = true ↔ b = 0x85 ∨ b = 0xA0 := by
  by_cases hascii : b.toNat < 128
  · rw [h.ascii_not_space hb hascii]
    refine iff_of_false (by simp) ?_
    rintro (rfl | rfl) <;> exact absurd hascii (by decide)
  · exact isSpace_of_not_ascii (Nat.le_of_not_lt hascii)

/-- None of the grammar's own characters is a byte of a word. -/
theorem IsWord.not_mem (h : IsWord w) {c : Char} (hc : c ∈ ['(', ')', '"', '|', ':']) : c.toUInt8 ∉ encode w := by
  have hascii : ∀ c ∈ ['(', ')', '"', '|', ':'], c.toNat < 128 := by
    simp only [List.forall_mem_cons, List.not_mem_nil, false_implies, implies_true, and_true]
    decide
  rw [mem_encode (hascii c hc)]
  exact fun hmem => (h.plain c hmem).2 hc

theorem IsWord.bareByte_iff (h : IsWord w) {b : UInt8} (hb : b ∈ encode w) : bareByte b = true ↔ b ≠ 0x85 ∧ b ≠ 0xA0 := by
  have hne : ∀ c ∈ ['(', ')', '"', '|', ':'], b ≠ c.toUInt8 := by
    rintro c hc rfl
    exact h.not_mem hc hb
  simp only [bareByte, decide_eq_true_eq, not_or, hne '(' (by simp), hne ')' (by simp), hne '|' (by simp), hne '"' (by simp),
    not_false_eq_true, and_true, h.isSpace_iff hb]

/-- A word begins with a byte that `term` takes for no special one. -/
theorem IsWord.first (h : IsWord w) : ∃ c s, encode w = c :: s ∧ bareByte c = true ∧ c ≠ minus := by
  obtain ⟨d, w', rfl⟩ := List.exists_cons_of_ne_nil h.ne_nil
  obtain ⟨c, s, hcs⟩ := utf8EncodeChar_cons d
  have hq : encode (d :: w') = c :: (s ++ encode w') := by rw [encode_cons, hcs, List.cons_append]
  have hspace : isSpace c = false := by
    by_cases hascii : d.toNat < 128
    · refine h.ascii_not_space (by simp [hq]) ?_
      rw [utf8EncodeChar_ascii hascii] at hcs
      obtain ⟨rfl, -⟩ := List.cons.inj hcs
      rwa [toNat_toUInt8 hascii]
    · exact utf8EncodeChar_head (Nat.le_of_not_lt hascii) c (by simp [hcs])
  refine ⟨c, _, hq, ?_, ?_⟩
  · rw [h.bareByte_iff (by simp [hq]), ← not_or, ← h.isSpace_iff (by simp [hq]), hspace]
    simp
  · rintro rfl
    exact h.head ((head?_encode (c := '-') (by decide)).mp (by rw [hq]; rfl))

/-! ## What the parser makes of a word -/

theorem bareByte_ne {c d : UInt8} (h : bareByte c = true) (hd : bareByte d = false) : c ≠ d := by
  rintro rfl
  rw [h] at hd
  cases hd

/-- The first term of a word is the text of its first bare bytes. -/
theorem IsWord.term (h : IsWord w) {c : UInt8} {s : Bytes} (hq : encode w = c :: s) (hc : bareByte c = true)
    (hminus : c ≠ minus) (fuel : ℕ) :
    term lib (fuel + 1) (c :: s) = .ok (.text (bare (c :: s)).1, (bare (c :: s)).2) := by
  have hparen : c ≠ lparen := bareByte_ne hc (by decide)
  have hclose : c ≠ rparen := bareByte_ne hc (by decide)
  have hquote : c ≠ dquote := bareByte_ne hc (by decide)
  rw [term_atom s fuel ⟨hminus, hparen, hclose⟩, atom_eq_named hquote]
  refine named_text rfl ?_ ?_
  · simp [bare, List.takeWhile_cons_of_pos hc]
  · intro hcolon
    refine h.not_mem (c := ':') (by simp) ?_
    rw [hq]
    exact (List.takeWhile_sublist _).subset hcolon

theorem IsWord.parse (h : IsWord w) (hb : ∀ b ∈ encode w, bareByte b = true) :
    parse lib (encode w) = .ok { filters := [.text (encode w)] } := by
  obtain ⟨c, s, hq, hc, hminus⟩ := h.first
  have hpipe : c ≠ pipe := bareByte_ne hc (by decide)
  have hspace : space (c :: s) = c :: s := space_of_head (by simpa using not_space_of_bareByte hc)
  have hbare : bare (c :: s) = (c :: s, []) := by
    rw [hq] at hb
    have := bare_append hb Ends.nil
    rwa [List.append_nil] at this
  have hterm : QueryGrammar.term lib (2 * (c :: s).length + 1) (c :: s) = .ok (.text (bare (c :: s)).1, (bare (c :: s)).2) :=
    h.term hq hc hminus (2 * (c :: s).length)
  rw [hbare] at hterm
  rw [hq, QueryGrammar.parse, hspace]
  have hfilters : filters lib (2 * (c :: s).length + 1) [] (c :: s) = .ok ([.text (c :: s)], []) := by
    rw [filters, if_neg hpipe, hterm]
    rfl
  rw [hfilters]
  rfl

/-- A word is read as one text of all its bytes if and only if none of them is 0x85 or 0xA0. -/
theorem parse_word_iff (lib : Library ν) (w : List Char) (h : IsWord w) :
    parse lib (encode w) = .ok { filters := [.text (encode w)] } ↔ ∀ b ∈ encode w, b ≠ 0x85 ∧ b ≠ 0xA0 := by
  constructor
  · intro hparse
    obtain ⟨c, s, hq, hc, hminus⟩ := h.first
    have hpipe : c ≠ pipe := bareByte_ne hc (by decide)
    have hspace : space (c :: s) = c :: s := space_of_head (by simpa using not_space_of_bareByte hc)
    rw [hq, QueryGrammar.parse, hspace] at hparse
    obtain ⟨⟨terms, r⟩, hfilters, hrest⟩ := bind_eq_ok.mp hparse
    have hterms : terms = [.text (c :: s)] := by
      cases r with
      | nil =>
        simp only [Except.ok.injEq, AST.mk.injEq] at hrest
        exact hrest.1
      | cons d r =>
        obtain ⟨p, -, hast⟩ := bind_eq_ok.mp hrest
        simp only [Except.ok.injEq, AST.mk.injEq] at hast
        exact hast.1
    -- The first of the terms is the word's first bare bytes, so these are all of it.
    obtain ⟨k, t, s', new, hk, ht, hnew, -⟩ := filters_cons hpipe hfilters
    rw [h.term hq hc hminus] at ht
    rw [hterms, List.nil_append] at hnew
    have htext : bare (c :: s) = (c :: s, s') := by
      simp only [Except.ok.injEq, Prod.mk.injEq] at ht
      have := (List.cons.inj hnew).1
      rw [← ht.1] at this
      exact Prod.ext (Term.text.inj this).symm ht.2
    intro b hb
    refine (h.bareByte_iff hb).mp ((bare_split (c :: s)).2 b ?_)
    rw [htext]
    rwa [hq] at hb
  · intro hb
    exact h.parse fun b hmem => (h.bareByte_iff hmem).mpr (hb b hmem)

theorem parse_word_umlaut :
    IsWord "größe".toList ∧ parse PrintedQueries.digitLibrary (encode "größe".toList) = .ok { filters := [.text (encode "größe".toList)] } := by
  have hword : IsWord "größe".toList := by decide +kernel
  exact ⟨hword, (parse_word_iff PrintedQueries.digitLibrary _ hword).mpr (by decide +kernel)⟩

/-- The second byte of `à` ends the word, and the text is the first byte alone. -/
theorem parse_a_grave :
    IsWord ['à'] ∧ parse PrintedQueries.digitLibrary (encode ['à']) = .ok { filters := [.text [0xC3]] } ∧
      parse PrintedQueries.digitLibrary (encode ['à']) ≠ .ok { filters := [.text (encode ['à'])] } := by
  decide +kernel

end Upstat.FreeTextWords
