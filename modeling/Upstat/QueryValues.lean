import Mathlib.Data.List.Perm.Basic
import Upstat.UrlParams

/-! # Query values

Names with their values, as a client writes them into the query of a URL and a server reads them there. Names and values
are bytes of any kind. -/
namespace Upstat.QueryValues

open UrlParams

abbrev Text := List UInt8

/-- A map of names to lists of values. -/
abbrev Values := List (Text × List Text)

/-! ## Escaping -/

/-- The bytes that stand for themselves: letters, digits and `-_.~`. -/
def kept (b : ℕ) : Bool := 48 ≤ b ∧ b ≤ 57 ∨ 65 ≤ b ∧ b ≤ 90 ∨ 97 ≤ b ∧ b ≤ 122 ∨ b = 45 ∨ b = 46 ∨ b = 95 ∨ b = 126

def escapeByte (b : ℕ) : List ℕ := if b = 32 then [43] else if kept b then [b] else [37, hexDigit (b / 16), hexDigit (b % 16)]

def queryEscape (s : Text) : List ℕ := (s.map UInt8.toNat).flatMap escapeByte

def queryUnescape (t : List ℕ) : Text := (percentDecode (t.map plusToSpace)).map UInt8.ofNat

theorem kept_iff {b : ℕ} : kept b = true ↔
    48 ≤ b ∧ b ≤ 57 ∨ 65 ≤ b ∧ b ≤ 90 ∨ 97 ≤ b ∧ b ≤ 122 ∨ b = 45 ∨ b = 46 ∨ b = 95 ∨ b = 126 := decide_eq_true_iff

theorem percentDecode_escapeByte {b : ℕ} (h : b < 256) (bs : List ℕ) :
    percentDecode ((escapeByte b).map plusToSpace ++ bs) = b :: percentDecode bs := by
  unfold escapeByte
  split
  · rename_i hspace
    rw [hspace]
    exact percentDecode_space bs
  · split
    · rename_i hself
      have hrange := kept_iff.mp hself
      exact percentDecode_self (by omega) (by omega) bs
    · exact percentDecode_hex h bs

/-- What is written is none of the separators. -/
theorem escapeByte_range {b : ℕ} (h : b < 256) : ∀ x ∈ escapeByte b, x ≠ 38 ∧ x ≠ 61 := by
  unfold escapeByte
  split
  · simp only [List.mem_singleton]
    omega
  · split
    · rename_i hself
      have hrange := kept_iff.mp hself
      simp only [List.mem_singleton]
      omega
    · have hhigh := hexDigit_range (n := b / 16) (by omega)
      have hlow := hexDigit_range (n := b % 16) (by omega)
      simp only [List.mem_cons, List.not_mem_nil, or_false]
      omega

theorem queryUnescape_queryEscape (s : Text) : queryUnescape (queryEscape s) = s := by
  have hbytes : percentDecode (((s.map UInt8.toNat).flatMap escapeByte).map plusToSpace) = s.map UInt8.toNat := by
    induction s with
    | nil => rfl
    | cons c s ih => rw [List.map_cons, List.flatMap_cons, List.map_append, percentDecode_escapeByte c.toNat_lt, ih]
  unfold queryUnescape queryEscape
  rw [hbytes, List.map_map]
  conv_rhs => rw [← List.map_id s]
  exact List.map_congr_left fun c _ => UInt8.ofNat_toNat

theorem queryEscape_range {s : Text} : ∀ x ∈ queryEscape s, x ≠ 38 ∧ x ≠ 61 := by
  intro x hx
  obtain ⟨b, hb, hx⟩ := List.mem_flatMap.mp hx
  obtain ⟨c, -, rfl⟩ := List.mem_map.mp hb
  exact escapeByte_range c.toNat_lt x hx

/-! ## Writing and reading -/

def writePair (p : Text × Text) : List ℕ := queryEscape p.1 ++ 61 :: queryEscape p.2

def readPair (t : List ℕ) : Text × Text :=
  (queryUnescape (t.takeWhile (· ≠ 61)), queryUnescape ((t.dropWhile (· ≠ 61)).drop 1))

/-- Each name with each of its values. -/
def Values.pairs (vs : Values) : List (Text × Text) := vs.flatMap fun e => e.2.map (e.1, ·)

def Values.sorted (vs : Values) : Values := vs.mergeSort fun d e => decide (d.1 ≤ e.1)

/-- `Values.Encode`, which goes through the names in order. -/
def Values.encode (vs : Values) : List ℕ := List.intercalate [38] (vs.sorted.pairs.map writePair)

def readPairs (t : List ℕ) : List (Text × Text) := ((t.splitOn 38).filter fun piece => !piece.isEmpty).map readPair

theorem readPair_writePair (p : Text × Text) : readPair (writePair p) = p := by
  have hname : ∀ b ∈ queryEscape p.1, decide (b ≠ 61) = true := fun b hb => decide_eq_true (queryEscape_range b hb).2
  unfold readPair writePair
  rw [List.takeWhile_append_of_pos hname, List.dropWhile_append_of_pos hname, List.takeWhile_cons_of_neg (by decide),
    List.dropWhile_cons_of_neg (by decide), List.append_nil, List.drop_one, List.tail_cons, queryUnescape_queryEscape,
    queryUnescape_queryEscape]

theorem writePair_range {p : Text × Text} : 38 ∉ writePair p := by
  intro h
  rcases List.mem_append.mp h with h | h
  · exact (queryEscape_range 38 h).1 rfl
  · rcases List.mem_cons.mp h with h | h
    · cases h
    · exact (queryEscape_range 38 h).1 rfl

theorem readPairs_intercalate (ps : List (Text × Text)) : readPairs (List.intercalate [38] (ps.map writePair)) = ps := by
  cases hps : ps with
  | nil => rfl
  | cons p qs =>
    rw [← hps]
    have hne : ps.map writePair ≠ [] := by simp [hps]
    have hsplit : (List.intercalate [38] (ps.map writePair)).splitOn 38 = ps.map writePair := by
      apply List.splitOn_intercalate
      · intro piece hpiece hmem
        obtain ⟨p, -, rfl⟩ := List.mem_map.mp hpiece
        exact writePair_range hmem
      · exact hne
    have hpieces : (ps.map writePair).filter (fun piece => !piece.isEmpty) = ps.map writePair := by
      apply List.filter_eq_self.mpr
      intro piece hpiece
      obtain ⟨p, -, rfl⟩ := List.mem_map.mp hpiece
      simp [writePair]
    rw [readPairs, hsplit, hpieces, List.map_map]
    conv_rhs => rw [← List.map_id ps]
    exact List.map_congr_left fun p _ => readPair_writePair p

/-- What was written is read, in the order of the names. -/
theorem readPairs_encode (vs : Values) : readPairs vs.encode = vs.sorted.pairs := readPairs_intercalate _

/-! ## Setting -/

/-- `Values.Set`: the value takes the place of all that the name had. -/
def Values.set (vs : Values) (name value : Text) : Values := vs.filter (·.1 ≠ name) ++ [(name, [value])]

def Values.setAll (vs : Values) (ps : List (Text × Text)) : Values := ps.foldl (fun vs p => vs.set p.1 p.2) vs

/-- What the map has under a name. -/
def Values.under (vs : Values) (name : Text) : Values := vs.filter (·.1 = name)

theorem under_set_self (vs : Values) (name value : Text) : (vs.set name value).under name = [(name, [value])] := by
  unfold Values.under Values.set
  rw [List.filter_append, List.filter_filter]
  simp

theorem under_set_of_ne {name other : Text} (h : other ≠ name) (vs : Values) (value : Text) :
    (vs.set other value).under name = vs.under name := by
  unfold Values.under Values.set
  rw [List.filter_append, List.filter_filter, List.filter_cons_of_neg (by simpa using h), List.filter_nil, List.append_nil]
  apply List.filter_congr
  intro e _
  by_cases he : e.1 = name
  · simp [he, h.symm]
  · simp [he]

theorem under_setAll_of_not_mem {name : Text} {ps : List (Text × Text)} (h : name ∉ ps.map Prod.fst) (vs : Values) :
    (vs.setAll ps).under name = vs.under name := by
  induction ps generalizing vs with
  | nil => rfl
  | cons p ps ih =>
    rw [List.map_cons, List.mem_cons, not_or] at h
    rw [Values.setAll, List.foldl_cons]
    exact (ih h.2 _).trans (under_set_of_ne (Ne.symm h.1) vs p.2)

/-- Values set under names that differ are all there, in whatever order they were set. -/
theorem under_setAll {ps : List (Text × Text)} (hnames : (ps.map Prod.fst).Nodup) {p : Text × Text} (hp : p ∈ ps) (vs : Values) :
    (vs.setAll ps).under p.1 = [(p.1, [p.2])] := by
  induction ps generalizing vs with
  | nil => cases hp
  | cons q ps ih =>
    rw [List.map_cons, List.nodup_cons] at hnames
    rw [Values.setAll, List.foldl_cons]
    rcases List.mem_cons.mp hp with rfl | hp
    · exact (under_setAll_of_not_mem hnames.1 _).trans (under_set_self vs p.1 p.2)
    · exact ih hnames.2 hp _

/-- The first value of a name in the text a server reads. -/
def valueOf (t : List ℕ) (name : Text) : Option Text := ((readPairs t).find? (·.1 = name)).map Prod.snd

theorem pairs_filter (vs : Values) (name : Text) : vs.pairs.filter (·.1 = name) = (vs.under name).pairs := by
  unfold Values.pairs Values.under
  induction vs with
  | nil => rfl
  | cons e vs ih =>
    rw [List.flatMap_cons, List.filter_append, ih]
    by_cases he : e.1 = name
    · rw [List.filter_cons_of_pos (by simpa using he), List.flatMap_cons]
      congr 1
      apply List.filter_eq_self.mpr
      intro p hp
      obtain ⟨v, -, rfl⟩ := List.mem_map.mp hp
      simpa using he
    · rw [List.filter_cons_of_neg (by simpa using he), List.filter_eq_nil_iff.mpr, List.nil_append]
      intro p hp
      obtain ⟨v, -, rfl⟩ := List.mem_map.mp hp
      simpa using he

/-- A name with one value is read with that value. -/
theorem valueOf_encode {vs : Values} {name value : Text} (h : vs.under name = [(name, [value])]) :
    valueOf vs.encode name = some value := by
  have hsorted : vs.sorted.under name = [(name, [value])] := by
    apply List.perm_singleton.mp
    rw [← h]
    exact (List.mergeSort_perm vs _).filter _
  unfold valueOf
  rw [readPairs_encode, ← List.head?_filter, pairs_filter, hsorted]
  rfl

end Upstat.QueryValues
