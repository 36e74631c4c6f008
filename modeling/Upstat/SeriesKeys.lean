import Mathlib.Data.Finset.Card
import Upstat.MarkedFields
import Upstat.PrintedQueries
import Upstat.EncodedTexts
import Upstat.SeriesAssembly

/-! # One series for each group (`telemetry/query.go`)

`assemble` finds a row's series by a text of its group values. Rows of different groups that
are spelled alike come to one series. -/
namespace Upstat.SeriesKeys

open SeriesAssembly MarkedFields

/-- What stands before each group value in the text: its facet, a space before the later ones. -/
def marks : List String → List (List Char)
  | [] => []
  | g :: gs => (g.toList ++ [':']) :: gs.map fun g => ' ' :: (g.toList ++ [':'])

theorem length_marks (gs : List String) : (marks gs).length = gs.length := by
  cases gs <;> simp [marks]

/-- The values of two groups that turn into each other by moving what a value has after the next
facet's mark to the next value, or back. -/
def Mixed (q : Query) (groups groups' : List String) : Prop :=
  Alike (marks q.groups) (groups.map String.toList) (groups'.map String.toList)

theorem isMark_of_facet {g : String} (h : GrammarReadings.IsIdent (QueryGrammar.bytes g)) :
    IsMark (' ' :: (g.toList ++ [':'])) := by
  intro hmem
  rcases List.mem_append.mp hmem with hg | hc
  · -- A facet is read without whitespace.
    have hb : ' '.toUInt8 ∈ QueryGrammar.bytes g := (EncodedTexts.mem_encode (by decide)).mpr hg
    exact absurd (h.bare _ hb) (by decide)
  · simp at hc

theorem intercalate_eq_spell (s : List Char) (gs vs : List String) (hlen : vs.length = gs.length) :
    spell ((s :: gs.map fun g => ' ' :: (g.toList ++ [':']))) ([] :: vs.map String.toList) =
      s ++ (gs.zip vs).flatMap fun p => ' ' :: (p.1.toList ++ ':' :: p.2.toList) := by
  rw [spell, List.append_nil]
  congr 1
  induction gs generalizing vs with
  | nil => simp [spell]
  | cons g gs ih =>
    obtain ⟨v, vs, rfl⟩ := List.exists_cons_of_length_eq_add_one hlen
    simp only [List.map_cons, spell, List.zip_cons_cons, List.flatMap_cons, ih vs (by simpa using hlen)]
    simp

/-- A row's text is its values after their marks. -/
theorem label_toList (q : Query) {groups : List String} (hlen : groups.length = q.groups.length) :
    (label q groups).toList = spell (marks q.groups) (groups.map String.toList) := by
  unfold label
  rw [String.toList_intercalate]
  generalize q.groups = gs at hlen ⊢
  cases gs with
  | nil =>
    obtain rfl := List.length_eq_zero_iff.mp hlen
    rfl
  | cons g gs =>
    obtain ⟨v, vs, rfl⟩ := List.exists_cons_of_length_eq_add_one hlen
    simp only [List.length_cons, Nat.add_right_cancel_iff] at hlen
    have hrest : ∀ (t : List Char), [' '].intercalate (t :: (gs.zip vs).map fun p => (p.1 ++ ":" ++ p.2).toList) =
        t ++ (gs.zip vs).flatMap fun p => ' ' :: (p.1.toList ++ ':' :: p.2.toList) := by
      generalize gs.zip vs = ps
      induction ps with
      | nil => simp
      | cons p ps ih =>
        intro t
        rw [List.map_cons, List.intercalate_cons_cons, ih]
        simp
    have hspell := intercalate_eq_spell [] gs vs hlen
    simp only [spell, List.nil_append] at hspell
    simp only [List.zip_cons_cons, List.map_cons, List.map_map, marks, spell, hspell]
    have hhead := hrest (g ++ ":" ++ v).toList
    simpa [Function.comp_def] using hhead

theorem label_eq_iff (q : Query) (hfacets : ∀ g ∈ q.groups, GrammarReadings.IsIdent (QueryGrammar.bytes g))
    {groups groups' : List String} (hlen : groups.length = q.groups.length) (hlen' : groups'.length = q.groups.length) :
    label q groups = label q groups' ↔ Mixed q groups groups' := by
  rw [← String.toList_inj, label_toList q hlen, label_toList q hlen']
  refine spell_eq_iff ?_ (by simp [length_marks, hlen]) (by simp [length_marks, hlen'])
  intro k hk
  cases hgs : q.groups with
  | nil => simp [hgs, marks] at hk
  | cons g gs =>
    rw [hgs, marks, List.tail_cons] at hk
    obtain ⟨f, hf, rfl⟩ := List.mem_map.mp hk
    exact isMark_of_facet (hfacets f (by simp [hgs, hf]))

/-! ## The rows' values in the series -/

section
variable {V : Type}

/-- The row's number for the aggregation. -/
def valueAt (q : Query) (row : Row V) (i : ℕ) : Option V := (row.values.take q.aggs.length)[i]?.join

theorem mem_cells_iff (q : Query) (rows : List (Row V)) (c : Cell V) :
    c ∈ cells q rows ↔ ∃ row ∈ rows, ∃ i v, valueAt q row i = some v ∧
      c = ⟨⟨i, label q row.groups⟩, tagsOf q row.groups, row.t, v⟩ := by
  simp only [cells, List.mem_flatMap, List.mem_filterMap, Option.map_eq_some_iff]
  constructor
  · rintro ⟨row, hrow, ⟨v?, i⟩, hmem, v, hv, rfl⟩
    dsimp only at hv
    subst hv
    refine ⟨row, hrow, i, v, ?_, rfl⟩
    rw [valueAt, List.mem_zipIdx_iff_getElem?.mp hmem]
    rfl
  · rintro ⟨row, hrow, i, v, hv, rfl⟩
    refine ⟨row, hrow, (some v, i), ?_, v, rfl, rfl⟩
    rw [List.mem_zipIdx_iff_getElem?]
    rw [valueAt, Option.join_eq_some_iff] at hv
    exact hv

end

variable {V : Type} [Zero V] [Add V]

/-- A point of a series is the value of one of its cells. -/
theorem cell_of_lookup {cs : List (Cell V)} {k : Key} {a : Acc V} {t : ℤ} {v : V}
    (ha : (accumulate cs).lookup k = some a) (hp : a.points t = some v) :
    ∃ c ∈ cs, c.key = k ∧ c.t = t ∧ c.value = v := by
  induction cs using List.reverseRecOn generalizing a with
  | nil => simp [accumulate] at ha
  | append_singleton cs c ih =>
    rw [accumulate_concat, addCell] at ha
    by_cases hk : k = c.key
    · subst hk
      rw [AList.lookup_insert] at ha
      obtain rfl := Option.some.inj ha
      by_cases ht : t = c.t
      · subst ht
        simp only [Function.update_self, Option.some.injEq] at hp
        exact ⟨c, by simp, rfl, rfl, hp⟩
      · simp only [Function.update_of_ne ht] at hp
        cases hold : (accumulate cs).lookup c.key with
        | none => simp [hold] at hp
        | some b =>
          rw [hold, Option.getD_some] at hp
          obtain ⟨d, hd, hdk⟩ := ih hold hp
          exact ⟨d, by simp [hd], hdk⟩
    · rw [AList.lookup_insert_ne hk] at ha
      obtain ⟨d, hd, hdk⟩ := ih ha hp
      exact ⟨d, by simp [hd], hdk⟩

/-- Each aggregation of each group has a series of its own, which holds the group's values at
their buckets and nothing else. -/
def Lossless (q : Query) (rows : List (Row V)) : Prop :=
  ∃ own : ℕ → List String → Key,
    (∀ row ∈ rows, ∀ row' ∈ rows, ∀ i j, valueAt q row i ≠ none → valueAt q row' j ≠ none →
      own i row.groups = own j row'.groups → i = j ∧ row.groups = row'.groups) ∧
    (∀ row ∈ rows, ∀ i v, valueAt q row i = some v →
      ∃ a, (accumulate (cells q rows)).lookup (own i row.groups) = some a ∧ a.points row.t = some v) ∧
    ∀ k a t v, (accumulate (cells q rows)).lookup k = some a → a.points t = some v →
      ∃ row ∈ rows, ∃ i, own i row.groups = k ∧ row.t = t ∧ valueAt q row i = some v

/-- No two groups with numbers of one aggregation are mixed. -/
def Unmixed (q : Query) (rows : List (Row V)) : Prop :=
  ∀ row ∈ rows, ∀ row' ∈ rows, ∀ i, valueAt q row i ≠ none → valueAt q row' i ≠ none →
    Mixed q row.groups row'.groups → row.groups = row'.groups

/-- The aggregations and groups that have a number. -/
def owners (q : Query) (rows : List (Row V)) : List (ℕ × List String) :=
  rows.flatMap fun row => (List.range q.aggs.length).filterMap fun i =>
    (valueAt q row i).map fun _ => (i, row.groups)

omit [Zero V] [Add V] in
theorem mem_owners_iff (q : Query) (rows : List (Row V)) (o : ℕ × List String) :
    o ∈ owners q rows ↔ ∃ row ∈ rows, valueAt q row o.1 ≠ none ∧ o.2 = row.groups := by
  obtain ⟨i, g⟩ := o
  have hlt : ∀ (row : Row V) i v, valueAt q row i = some v → i < q.aggs.length := by
    intro row i v hv
    rw [valueAt, Option.join_eq_some_iff] at hv
    have := (List.getElem?_eq_some_iff.mp hv).1
    rw [List.length_take] at this
    omega
  simp only [owners, List.mem_flatMap, List.mem_filterMap, Option.map_eq_some_iff, List.mem_range, Prod.mk.injEq]
  constructor
  · rintro ⟨row, hrow, j, -, v, hv, rfl, rfl⟩
    exact ⟨row, hrow, by simp [hv], rfl⟩
  · rintro ⟨row, hrow, hv, rfl⟩
    obtain ⟨v, hv⟩ := Option.ne_none_iff_exists'.mp hv
    exact ⟨row, hrow, i, hlt row i v hv, v, hv, rfl, rfl⟩

theorem lossless_of_labels (q : Query) (rows : List (Row V))
    (hdistinct : rows.Pairwise fun a b => (a.groups, a.t) ≠ (b.groups, b.t))
    (h : ∀ row ∈ rows, ∀ row' ∈ rows, ∀ i, valueAt q row i ≠ none → valueAt q row' i ≠ none →
      label q row.groups = label q row'.groups → row.groups = row'.groups) : Lossless q rows := by
  refine ⟨fun i groups => ⟨i, label q groups⟩, ?_, ?_, ?_⟩
  · intro row hrow row' hrow' i j hi hj hkey
    obtain ⟨rfl, hlabel⟩ := Key.mk.inj hkey
    exact ⟨rfl, h row hrow row' hrow' i hi hj hlabel⟩
  · intro row hrow i v hv
    refine lookup_accumulate (c := ⟨⟨i, label q row.groups⟩, tagsOf q row.groups, row.t, v⟩)
      ((mem_cells_iff q rows _).mpr ⟨row, hrow, i, v, hv, rfl⟩) ?_
    intro c hc hkey ht
    obtain ⟨row', hrow', j, v', hv', rfl⟩ := (mem_cells_iff q rows c).mp hc
    obtain ⟨rfl, hlabel⟩ := Key.mk.inj hkey
    have hgroups := h row' hrow' row hrow j (by simp [hv']) (by simp [hv]) hlabel
    -- Rows of one group and one bucket are one row.
    have hrows : row' = row := by
      have hsymm : Std.Symm fun a b : Row V => (a.groups, a.t) ≠ (b.groups, b.t) := ⟨fun _ _ hab heq => hab heq.symm⟩
      by_contra hne
      exact hdistinct.forall hrow' hrow hne (Prod.ext hgroups ht)
    subst hrows
    rw [hv'] at hv
    exact Option.some.inj hv
  · intro k a t v ha hp
    obtain ⟨c, hc, rfl, rfl, rfl⟩ := cell_of_lookup ha hp
    obtain ⟨row, hrow, i, v, hv, rfl⟩ := (mem_cells_iff q rows c).mp hc
    exact ⟨row, hrow, i, rfl, rfl, hv⟩

/-- There are no more series than labels, so two groups under one label leave one of them
without a series of its own. -/
theorem labels_of_lossless {q : Query} {rows : List (Row V)} (h : Lossless q rows) :
    ∀ row ∈ rows, ∀ row' ∈ rows, ∀ i, valueAt q row i ≠ none → valueAt q row' i ≠ none →
      label q row.groups = label q row'.groups → row.groups = row'.groups := by
  obtain ⟨own, hinj, hlookup, -⟩ := h
  have hkeys : ∀ k ∈ accumulate (cells q rows), k ∈ (owners q rows).toFinset.image fun o => (⟨o.1, label q o.2⟩ : Key) := by
    intro k hk
    obtain ⟨c, hc, rfl⟩ := List.mem_map.mp ((mem_accumulate _ _).mp hk)
    obtain ⟨row, hrow, i, v, hv, rfl⟩ := (mem_cells_iff q rows c).mp hc
    refine Finset.mem_image.mpr ⟨(i, row.groups), ?_, rfl⟩
    rw [List.mem_toFinset, mem_owners_iff]
    exact ⟨row, hrow, by simp [hv], rfl⟩
  have hcard : (owners q rows).toFinset.card ≤ ((owners q rows).toFinset.image fun o => (⟨o.1, label q o.2⟩ : Key)).card := by
    refine Finset.card_le_card_of_injOn (fun o => own o.1 o.2) ?_ ?_
    · rintro ⟨i, g⟩ ho
      rw [Finset.mem_coe, List.mem_toFinset, mem_owners_iff] at ho
      obtain ⟨row, hrow, hv, rfl⟩ := ho
      obtain ⟨v, hv⟩ := Option.ne_none_iff_exists'.mp hv
      obtain ⟨a, ha, -⟩ := hlookup row hrow i v hv
      exact hkeys _ (AList.lookup_isSome.mp (by simp [ha]))
    · rintro ⟨i, g⟩ ho ⟨j, g'⟩ ho' heq
      rw [Finset.mem_coe, List.mem_toFinset, mem_owners_iff] at ho ho'
      obtain ⟨row, hrow, hv, rfl⟩ := ho
      obtain ⟨row', hrow', hv', rfl⟩ := ho'
      obtain ⟨rfl, hg⟩ := hinj row hrow row' hrow' i j hv hv' heq
      exact Prod.ext rfl hg
  have hlabels := Finset.card_image_iff.mp (le_antisymm Finset.card_image_le hcard)
  intro row hrow row' hrow' i hi hi' hlabel
  have ho : (i, row.groups) ∈ (owners q rows).toFinset := by
    rw [List.mem_toFinset, mem_owners_iff]
    exact ⟨row, hrow, hi, rfl⟩
  have ho' : (i, row'.groups) ∈ (owners q rows).toFinset := by
    rw [List.mem_toFinset, mem_owners_iff]
    exact ⟨row', hrow', hi', rfl⟩
  have heq := hlabels ho ho' (by simp [hlabel])
  exact (Prod.mk.inj heq).2

/-- Every value of every result set stands in its own group's series if and only if no groups
in it are mixed. -/
theorem lossless_iff (q : Query) (hfacets : ∀ g ∈ q.groups, GrammarReadings.IsIdent (QueryGrammar.bytes g))
    (rows : List (Row V)) (hcolumns : ∀ row ∈ rows, row.groups.length = q.groups.length)
    (hdistinct : rows.Pairwise fun a b => (a.groups, a.t) ≠ (b.groups, b.t)) :
    Lossless q rows ↔ Unmixed q rows := by
  have hlabel : ∀ row ∈ rows, ∀ row' ∈ rows, label q row.groups = label q row'.groups ↔ Mixed q row.groups row'.groups :=
    fun row hrow row' hrow' => label_eq_iff q hfacets (hcolumns row hrow) (hcolumns row' hrow')
  constructor
  · intro h row hrow row' hrow' i hi hi' hmixed
    exact labels_of_lossless h row hrow row' hrow' i hi hi' ((hlabel row hrow row' hrow').mpr hmixed)
  · intro h
    refine lossless_of_labels q rows hdistinct ?_
    intro row hrow row' hrow' i hi hi' heq
    exact h row hrow row' hrow' i hi hi' ((hlabel row hrow row' hrow').mp heq)

def perServiceAndEnv : Query := ⟨["service", "env"], [⟨"count", ""⟩], List.cons_ne_nil _ _⟩

theorem perServiceAndEnv_facets : ∀ g ∈ perServiceAndEnv.groups, GrammarReadings.IsIdent (QueryGrammar.bytes g) := by
  decide +kernel

def twoServices : List (Row ℤ) := [⟨0, ["api", "prod"], [some 3]⟩, ⟨0, ["web", "prod"], [some 5]⟩]

theorem twoServices_lossless : Lossless perServiceAndEnv twoServices := by
  refine (lossless_iff perServiceAndEnv perServiceAndEnv_facets twoServices (by decide) (by decide)).mpr ?_
  intro row hrow row' hrow' i _ _ hmixed
  have hlen : ∀ row ∈ twoServices, row.groups.length = perServiceAndEnv.groups.length := by decide
  have hall : ∀ row ∈ twoServices, ∀ row' ∈ twoServices,
      label perServiceAndEnv row.groups = label perServiceAndEnv row'.groups → row.groups = row'.groups := by decide +kernel
  exact hall row hrow row' hrow' ((label_eq_iff _ perServiceAndEnv_facets (hlen row hrow) (hlen row' hrow')).mpr hmixed)

/-- A service's name may have the next facet in it. -/
def mixedServices : List (Row ℤ) := [⟨0, ["a env:b", "c"], [some 3]⟩, ⟨0, ["a", "b env:c"], [some 5]⟩]

theorem mixedServices_not_lossless :
    perServiceAndEnv.groups.Nodup ∧ (∀ row ∈ mixedServices, row.groups.length = perServiceAndEnv.groups.length) ∧
      (mixedServices.Pairwise fun a b => (a.groups, a.t) ≠ (b.groups, b.t)) ∧ ¬Lossless perServiceAndEnv mixedServices := by
  refine ⟨by decide, by decide, by decide, ?_⟩
  intro h
  have hlabels := labels_of_lossless h ⟨0, ["a env:b", "c"], [some 3]⟩ (by simp [mixedServices])
    ⟨0, ["a", "b env:c"], [some 5]⟩ (by simp [mixedServices]) 0 (by decide) (by decide) (by decide +kernel)
  exact absurd hlabels (by decide)

end Upstat.SeriesKeys
