import Mathlib.Data.List.Basic
import Mathlib.Order.Lattice

/-! # Windows that slide over a list of items

Items come one after another, the newest first in their list. Each is let in for having found
fewer than a limit of earlier ones near it, and a store keeps, oldest first, what has not expired. -/
namespace Upstat.SlidingWindows

variable {α β T : Type*}

section
variable {counts inside : α → Bool} {near : α → α → Bool} {n : ℕ} {l : List α} {x : α}

/-- Each item that counts has found fewer than `n` of those before it near it. -/
def Spaced (counts : α → Bool) (near : α → α → Bool) (n : ℕ) : List α → Prop
  | [] => True
  | x :: l => (counts x = true → (l.countP fun y => counts y && near y x) < n) ∧ Spaced counts near n l

/-- Where any two items inside are near each other, no more than the limit are inside. -/
theorem Spaced.countP_le (h : Spaced counts near n l) (hnear : ∀ x y, inside x = true → inside y = true → near y x = true) :
    (l.countP fun x => counts x && inside x) ≤ n := by
  induction l with
  | nil => exact Nat.zero_le n
  | cons x l ih =>
    rw [List.countP_cons]
    by_cases hx : (counts x && inside x) = true
    · rw [if_pos hx]
      obtain ⟨hcounts, hinside⟩ := (Bool.and_eq_true _ _).mp hx
      have hle : (l.countP fun y => counts y && inside y) ≤ l.countP fun y => counts y && near y x := by
        apply List.countP_mono_left
        intro y _ hy
        obtain ⟨hcy, hiy⟩ := (Bool.and_eq_true _ _).mp hy
        rw [hcy, hnear x y hinside hiy]
        rfl
      exact Nat.succ_le_of_lt (Nat.lt_of_le_of_lt hle (h.1 hcounts))
    · rw [if_neg hx]
      exact ih h.2

/-- Items that come to count no longer take no room. -/
theorem Spaced.map {f : α → α} (hcounts : ∀ x, counts (f x) = true → counts x = true) (hnear : ∀ x y, near (f y) (f x) = near y x)
    (h : Spaced counts near n l) : Spaced counts near n (l.map f) := by
  induction l with
  | nil => trivial
  | cons x l ih =>
    refine ⟨fun hx => ?_, ih h.2⟩
    rw [List.countP_map]
    refine Nat.lt_of_le_of_lt (List.countP_mono_left ?_) (h.1 (hcounts x hx))
    intro y _ hy
    obtain ⟨hcy, hny⟩ := (Bool.and_eq_true _ _).mp hy
    rw [hcounts y hcy, ← hnear x y, hny]
    rfl

end

section
variable [LinearOrder T] {expiry : β → T} {f : α → β} {counts : α → Bool} {clock now : T} {l : List β} {items : List α} {x : α}

/-- What a store is to have of the items at an instant. -/
def live (expiry : β → T) (f : α → β) (counts : α → Bool) (t : T) (items : List α) : List β :=
  ((items.filter fun x => counts x && decide (t < expiry (f x))).map f).reverse

def unexpired (expiry : β → T) (t : T) (l : List β) : List β := l.filter fun y => decide (t < expiry y)

/-- From the clock on, what has not expired in the list is what the store is to have. -/
def Tracks (expiry : β → T) (f : α → β) (counts : α → Bool) (clock : T) (l : List β) (items : List α) : Prop :=
  ∀ t, clock ≤ t → unexpired expiry t l = live expiry f counts t items

theorem unexpired_unexpired {t : T} (h : now ≤ t) (l : List β) : unexpired expiry t (unexpired expiry now l) = unexpired expiry t l := by
  simp only [unexpired, List.filter_filter]
  congr 1
  funext y
  rw [Bool.and_eq_left_iff_imp]
  intro hy
  exact decide_eq_true (h.trans_lt (of_decide_eq_true hy))

theorem length_live (t : T) : (live expiry f counts t items).length = items.countP fun x => counts x && decide (t < expiry (f x)) := by
  rw [live, List.length_reverse, List.length_map, List.countP_eq_length_filter]

theorem mem_live {t : T} {y : β} (h : y ∈ live expiry f counts t items) : ∃ x ∈ items, counts x = true ∧ f x = y := by
  obtain ⟨x, hx, rfl⟩ := List.mem_map.mp (List.mem_reverse.mp h)
  obtain ⟨hmem, hcounts⟩ := List.mem_filter.mp hx
  exact ⟨x, hmem, ((Bool.and_eq_true _ _).mp hcounts).1, rfl⟩

theorem live_cons_of_counts {t : T} (hx : counts x = true) :
    live expiry f counts t (x :: items) = live expiry f counts t items ++ unexpired expiry t [f x] := by
  by_cases ht : t < expiry (f x) <;> simp [live, unexpired, hx, ht]

theorem live_cons_of_not {t : T} (hx : counts x = false) : live expiry f counts t (x :: items) = live expiry f counts t items := by
  simp [live, hx]

namespace Tracks

theorem later (h : Tracks expiry f counts clock l items) (hclock : clock ≤ now) : Tracks expiry f counts now l items :=
  fun t ht => h t (hclock.trans ht)

/-- What has expired may be dropped. -/
theorem prune (h : Tracks expiry f counts clock l items) (hclock : clock ≤ now) :
    Tracks expiry f counts now (unexpired expiry now l) items := by
  intro t ht
  rw [unexpired_unexpired ht]
  exact h t (hclock.trans ht)

theorem length_unexpired (h : Tracks expiry f counts clock l items) (hclock : clock ≤ now) :
    (unexpired expiry now l).length = items.countP fun x => counts x && decide (now < expiry (f x)) := by
  rw [h now hclock, length_live]

theorem mem (h : Tracks expiry f counts clock l items) (hclock : clock ≤ now) {y : β} (hy : y ∈ unexpired expiry now l) :
    ∃ x ∈ items, counts x = true ∧ f x = y :=
  mem_live (h now hclock ▸ hy)

theorem add (h : Tracks expiry f counts clock l items) (hx : counts x = true) : Tracks expiry f counts clock (l ++ [f x]) (x :: items) := by
  intro t ht
  rw [live_cons_of_counts hx, ← h t ht]
  exact List.filter_append _ _

theorem skip (h : Tracks expiry f counts clock l items) (hx : counts x = false) : Tracks expiry f counts clock l (x :: items) := by
  intro t ht
  rw [live_cons_of_not hx]
  exact h t ht

/-- Items that come to count no longer are taken from the list. -/
theorem remove {g : α → α} {p : β → Bool} (h : Tracks expiry f counts clock l items) (hf : ∀ x, f (g x) = f x)
    (hcounts : ∀ x, counts (g x) = (counts x && p (f x))) : Tracks expiry f counts clock (l.filter p) (items.map g) := by
  intro t ht
  have hl : unexpired expiry t (l.filter p) = (unexpired expiry t l).filter p := by
    simp only [unexpired, List.filter_filter]
    congr 1
    funext y
    exact Bool.and_comm _ _
  rw [hl, h t ht, live, live, List.filter_reverse, List.filter_map, List.filter_filter, List.filter_map, List.map_map]
  congr 2
  · funext x
    exact (hf x).symm
  · congr 1
    funext x
    simp only [Function.comp_apply, hf, hcounts]
    ac_rfl

/-- Items of which nothing that matters is changed. -/
theorem map {g : α → α} (h : Tracks expiry f counts clock l items) (hf : ∀ x, f (g x) = f x) (hcounts : ∀ x, counts (g x) = counts x) :
    Tracks expiry f counts clock l (items.map g) := by
  have hfilter := h.remove (p := fun _ => true) hf fun x => by rw [hcounts, Bool.and_true]
  rwa [List.filter_true] at hfilter

/-- A list of which no more is left than was to be. -/
theorem congr {l' : List β} (h : Tracks expiry f counts clock l items) (hl : ∀ t, clock ≤ t → unexpired expiry t l' = unexpired expiry t l) :
    Tracks expiry f counts clock l' items :=
  fun t ht => (hl t ht).trans (h t ht)

end Tracks

theorem tracks_nil : Tracks expiry f counts clock [] [] := fun _ _ => rfl

/-- Where items expire in their order, the expired ones are at the front. -/
theorem dropWhile_eq_unexpired (h : l.Pairwise fun a b => expiry a ≤ expiry b) (now : T) :
    l.dropWhile (fun y => !decide (now < expiry y)) = unexpired expiry now l := by
  induction l with
  | nil => rfl
  | cons y l ih =>
    rw [List.pairwise_cons] at h
    by_cases hy : now < expiry y
    · have hall : ∀ z ∈ y :: l, decide (now < expiry z) = true := by
        intro z hz
        rcases List.mem_cons.mp hz with rfl | hz
        · exact decide_eq_true hy
        · exact decide_eq_true (hy.trans_le (h.1 z hz))
      rw [unexpired, List.filter_eq_self.mpr hall]
      simp [hy]
    · simpa [unexpired, hy] using ih h.2

/-- A list that tracks items, in the order in which they expire. -/
structure InOrder (expiry : β → T) (f : α → β) (counts : α → Bool) (clock : T) (l : List β) (items : List α) : Prop where
  tracks : Tracks expiry f counts clock l items
  sorted : l.Pairwise fun a b => expiry a ≤ expiry b

theorem inOrder_nil : InOrder expiry f counts clock [] [] := ⟨tracks_nil, List.Pairwise.nil⟩

namespace InOrder

theorem prune (h : InOrder expiry f counts clock l items) (hclock : clock ≤ now) :
    InOrder expiry f counts now (l.dropWhile fun y => !decide (now < expiry y)) items := by
  rw [dropWhile_eq_unexpired h.sorted]
  exact ⟨h.tracks.prune hclock, h.sorted.filter _⟩

theorem length_prune (h : InOrder expiry f counts clock l items) (hclock : clock ≤ now) :
    (l.dropWhile fun y => !decide (now < expiry y)).length = items.countP fun x => counts x && decide (now < expiry (f x)) := by
  rw [dropWhile_eq_unexpired h.sorted]
  exact h.tracks.length_unexpired hclock

/-- What is left of a pruned list is of the items. -/
theorem mem_prune (h : InOrder expiry f counts clock l items) (hclock : clock ≤ now) {y : β}
    (hy : y ∈ l.dropWhile fun y => !decide (now < expiry y)) : ∃ x ∈ items, counts x = true ∧ f x = y := by
  rw [dropWhile_eq_unexpired h.sorted] at hy
  exact h.tracks.mem hclock hy

/-- A new item goes to the end of a pruned list. -/
theorem add (h : InOrder expiry f counts clock l items) (hclock : clock ≤ now) (hx : counts x = true)
    (hlast : ∀ y ∈ items, expiry (f y) ≤ expiry (f x)) :
    InOrder expiry f counts now ((l.dropWhile fun y => !decide (now < expiry y)) ++ [f x]) (x :: items) := by
  refine ⟨(h.prune hclock).tracks.add hx, ?_⟩
  rw [List.pairwise_append]
  refine ⟨(h.prune hclock).sorted, List.pairwise_singleton _ _, ?_⟩
  intro y hy z hz
  obtain ⟨x', hx', -, rfl⟩ := h.mem_prune hclock hy
  rw [List.mem_singleton.mp hz]
  exact hlast x' hx'

theorem skip (h : InOrder expiry f counts clock l items) (hx : counts x = false) : InOrder expiry f counts clock l (x :: items) :=
  ⟨h.tracks.skip hx, h.sorted⟩

theorem remove {g : α → α} {p : β → Bool} (h : InOrder expiry f counts clock l items) (hf : ∀ x, f (g x) = f x)
    (hcounts : ∀ x, counts (g x) = (counts x && p (f x))) : InOrder expiry f counts clock (l.filter p) (items.map g) :=
  ⟨h.tracks.remove hf hcounts, h.sorted.filter _⟩

theorem map {g : α → α} (h : InOrder expiry f counts clock l items) (hf : ∀ x, f (g x) = f x) (hcounts : ∀ x, counts (g x) = counts x) :
    InOrder expiry f counts clock l (items.map g) :=
  ⟨h.tracks.map hf hcounts, h.sorted⟩

theorem later (h : InOrder expiry f counts clock l items) (hclock : clock ≤ now) : InOrder expiry f counts now l items :=
  ⟨h.tracks.later hclock, h.sorted⟩

end InOrder

/-- In a list of items that are all different, the first of a kind is all of its kind. -/
theorem eraseP_eq_filter {κ : Type*} [DecidableEq κ] {key : β → κ} (h : (l.map key).Nodup) (k : κ) :
    l.eraseP (fun y => decide (key y = k)) = l.filter fun y => !decide (key y = k) := by
  induction l with
  | nil => rfl
  | cons y l ih =>
    rw [List.map_cons, List.nodup_cons] at h
    by_cases hy : key y = k
    · have hall : ∀ z ∈ l, (!decide (key z = k)) = true := by
        intro z hz
        have hne : key z ≠ k := fun hz' => h.1 (List.mem_map.mpr ⟨z, hz, hz'.trans hy.symm⟩)
        simp [hne]
      simp [hy, List.filter_eq_self.mpr hall]
    · simpa [hy] using ih h.2

end

end Upstat.SlidingWindows
