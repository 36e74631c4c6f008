import Mathlib.Data.Int.Basic
import Mathlib.Order.Basic
import Upstat.LabelClasses

/-! # The sessions of `visitsSQL`

Sessions are numbered by two window functions, each over its own order of a partition's rows. Times are in milliseconds, those
of a request in nanoseconds. -/
namespace Upstat.SessionWindows

open LabelClasses

structure Event where
  orgId : String
  propertyId : String
  name : String
  ts : ℤ
  visitorHash : String
  deriving DecidableEq

abbrev Key := String × String

def Event.key (e : Event) : Key := (e.propertyId, e.visitorHash)

/-- `{f:DateTime64(3)}` -/
def milliseconds (t : ℤ) : ℤ := t / 1000000

/-- `eventScope` -/
def eventScope (orgID property : String) (start stop : ℤ) (e : Event) : Bool :=
  e.orgId = orgID ∧ milliseconds start ≤ e.ts ∧ e.ts < milliseconds stop ∧ (property ≠ "" → e.propertyId = property)

/-- The rows of the innermost query. -/
def browserEvents (orgID property : String) (start stop : ℤ) (stored : List Event) : List Event :=
  stored.filter fun e => eventScope orgID property start stop e ∧ e.visitorHash ≠ ""

/-- `dateDiff('second', a, b)` -/
def dateDiff (a b : ℤ) : ℤ := b / 1000 - a / 1000

/-- The rows of a partition in the first window's order, with 1 where a session begins. -/
def gaps : ℤ → List Event → List (Event × ℕ)
  | _, [] => []
  | previous, e :: es => (e, if 1800 ≤ dateDiff previous e.ts then 1 else 0) :: gaps e.ts es

/-- The rows in the second window's order, with the sum of what is up to them. -/
def sessions : ℕ → List (Event × ℕ) → List (Event × ℕ)
  | _, [] => []
  | sum, x :: xs => (x.1, sum + x.2) :: sessions (sum + x.2) xs

/-- The orders that the database gives each partition, one for each window function. -/
structure Windows (rows : List Event) where
  first : Key → List Event
  first_perm : ∀ k, (first k).Perm (rows.filter (·.key = k))
  first_sorted : ∀ k, (first k).Pairwise (·.ts ≤ ·.ts)
  second : Key → List (Event × ℕ)
  second_perm : ∀ k, (second k).Perm (gaps 0 (first k))
  second_sorted : ∀ k, (second k).Pairwise (·.1.ts ≤ ·.1.ts)

section
variable {rows : List Event}

def Windows.sessionRows (w : Windows rows) : List (Event × ℕ) :=
  (rows.map Event.key).dedup.flatMap fun k => sessions 0 (w.second k)

/-- `GROUP BY visitor_hash, property_id, session` -/
def Windows.groups (w : Windows rows) : List (List Event) :=
  (groupBy (fun x : Event × ℕ => (x.1.key, x.2)) w.sessionRows).map (List.map Prod.fst)

/-! ## The first window -/

theorem gaps_fst (p : ℤ) (l : List Event) : (gaps p l).map Prod.fst = l := by
  induction l generalizing p with
  | nil => rfl
  | cons e l ih => rw [gaps, List.map_cons, ih]

theorem mem_of_mem_gaps {p : ℤ} {l : List Event} {x : Event × ℕ} (h : x ∈ gaps p l) : x.1 ∈ l := by
  rw [← gaps_fst p l]
  exact List.mem_map_of_mem h

theorem gaps_le_one {p : ℤ} {l : List Event} {x : Event × ℕ} (h : x ∈ gaps p l) : x.2 ≤ 1 := by
  induction l generalizing p with
  | nil => cases h
  | cons e l ih =>
    rcases List.mem_cons.mp h with rfl | h
    · dsimp only
      split <;> omega
    · exact ih h

/-- One event follows another, and none is between them. -/
structure Neighbours (l : List Event) (q e : Event) : Prop where
  left : q ∈ l
  right : e ∈ l
  lt : q.ts < e.ts
  between : ∀ d ∈ l, d.ts ≤ q.ts ∨ e.ts ≤ d.ts

theorem dateDiff_lt {a b : ℤ} (h : 1800 ≤ dateDiff a b) : a < b := by
  unfold dateDiff at h
  omega

theorem dateDiff_of_gap {a b : ℤ} (h : 1800000 ≤ b - a) : 1800 ≤ dateDiff a b := by
  unfold dateDiff
  omega

/-- Where a session begins there is nothing before, or there is and the event before it is far. -/
theorem gaps_opening {p : ℤ} {l : List Event} (hl : l.Pairwise (·.ts ≤ ·.ts)) {x : Event × ℕ} (hx : x ∈ gaps p l) (h1 : x.2 = 1) :
    (1800 ≤ dateDiff p x.1.ts ∧ ∀ d ∈ l, x.1.ts ≤ d.ts) ∨ ∃ q, Neighbours l q x.1 ∧ 1800 ≤ dateDiff q.ts x.1.ts := by
  induction l generalizing p with
  | nil => cases hx
  | cons e l ih =>
    obtain ⟨he, hl⟩ := List.pairwise_cons.mp hl
    rw [gaps] at hx
    rcases List.mem_cons.mp hx with rfl | hx
    · left
      constructor
      · by_contra hfar
        rw [if_neg hfar] at h1
        cases h1
      · exact List.forall_mem_cons.mpr ⟨le_rfl, he⟩
    · right
      have hmem := mem_of_mem_gaps hx
      rcases ih hl hx with ⟨hfar, hall⟩ | ⟨q, hq, hfar⟩
      · refine ⟨e, ⟨List.mem_cons_self, List.mem_cons_of_mem _ hmem, dateDiff_lt hfar, ?_⟩, hfar⟩
        exact List.forall_mem_cons.mpr ⟨Or.inl le_rfl, fun d hd => Or.inr (hall d hd)⟩
      · refine ⟨q, ⟨List.mem_cons_of_mem _ hq.left, List.mem_cons_of_mem _ hmem, hq.lt, ?_⟩, hfar⟩
        exact List.forall_mem_cons.mpr ⟨Or.inl (he q hq.left), hq.between⟩

/-- A session begins at the instant of an event that is far from the one before it. -/
theorem gaps_opens (p : ℤ) {l : List Event} (hl : l.Pairwise (·.ts ≤ ·.ts)) {q e : Event} (h : Neighbours l q e)
    (hfar : 1800 ≤ dateDiff q.ts e.ts) : ∃ x ∈ gaps p l, x.2 = 1 ∧ x.1.ts = e.ts := by
  induction l generalizing p q with
  | nil => cases h.left
  | cons a l ih =>
    obtain ⟨ha, hrest⟩ := List.pairwise_cons.mp hl
    have he : e ∈ l := by
      refine (List.mem_cons.mp h.right).resolve_left ?_
      rintro rfl
      rcases List.mem_cons.mp h.left with rfl | hq
      · exact absurd h.lt (lt_irrefl _)
      · exact absurd h.lt (not_lt.mpr (ha q hq))
    by_cases hbefore : ∃ d ∈ l, d.ts = q.ts
    · obtain ⟨d, hd, heq⟩ := hbefore
      have hn : Neighbours l d e := ⟨hd, he, heq ▸ h.lt, fun c hc => heq ▸ h.between c (List.mem_cons_of_mem _ hc)⟩
      obtain ⟨x, hx, hopen⟩ := ih a.ts hrest hn (heq ▸ hfar)
      exact ⟨x, List.mem_cons_of_mem _ hx, hopen⟩
    · -- the first of the others is at the instant of `e`
      have hq : q = a := (List.mem_cons.mp h.left).resolve_right fun hq => hbefore ⟨q, hq, rfl⟩
      subst hq
      cases l with
      | nil => cases he
      | cons b l =>
        have hb : b.ts = e.ts := by
          have hle : b.ts ≤ e.ts := by
            rcases List.mem_cons.mp he with rfl | he
            · exact le_rfl
            · exact (List.pairwise_cons.mp hrest).1 e he
          have hne : ¬b.ts = q.ts := fun heq => hbefore ⟨b, List.mem_cons_self, heq⟩
          have hge := ha b List.mem_cons_self
          have hside := h.between b (List.mem_cons_of_mem _ List.mem_cons_self)
          omega
        refine ⟨(b, if 1800 ≤ dateDiff q.ts b.ts then 1 else 0), List.mem_cons_of_mem _ List.mem_cons_self, ?_, hb⟩
        exact if_pos (hb ▸ hfar)

/-! ## The second window -/

/-- A session begins with the first row of its instant: no row of the partition stands before it and is not earlier. -/
def Windows.OpensFirst (w : Windows rows) : Prop := ∀ k, (w.second k).Pairwise fun x y => y.2 = 1 → x.1.ts < y.1.ts

/-- How many sessions have begun. -/
def opened (m : List (Event × ℕ)) (t : ℤ) : ℕ := m.countP fun x => x.2 = 1 ∧ x.1.ts ≤ t

theorem opened_perm {m m' : List (Event × ℕ)} (h : m.Perm m') (t : ℤ) : opened m t = opened m' t := h.countP_eq _

theorem opened_cons {x : Event × ℕ} (m : List (Event × ℕ)) {t : ℤ} (hx : x.2 ≤ 1) (ht : x.1.ts ≤ t) :
    opened (x :: m) t = x.2 + opened m t := by
  unfold opened
  rw [List.countP_cons]
  by_cases h1 : x.2 = 1
  · rw [if_pos (decide_eq_true ⟨h1, ht⟩), h1, Nat.add_comm]
  · have h0 : x.2 = 0 := by omega
    rw [if_neg (by simp [h1]), h0, Nat.zero_add, Nat.add_zero]

/-- The number of a row's session is that of the sessions begun by its time. -/
theorem sessions_eq (s : ℕ) {m : List (Event × ℕ)} (hsorted : m.Pairwise (·.1.ts ≤ ·.1.ts))
    (hopens : m.Pairwise fun x y => y.2 = 1 → x.1.ts < y.1.ts) (hone : ∀ x ∈ m, x.2 ≤ 1) :
    sessions s m = m.map fun x => (x.1, s + opened m x.1.ts) := by
  induction m generalizing s with
  | nil => rfl
  | cons x m ih =>
    obtain ⟨hx, hsorted⟩ := List.pairwise_cons.mp hsorted
    obtain ⟨hxo, hopens⟩ := List.pairwise_cons.mp hopens
    obtain ⟨hx1, hone⟩ := List.forall_mem_cons.mp hone
    have hnone : opened m x.1.ts = 0 := by
      apply List.countP_eq_zero.mpr
      intro y hy hyo
      obtain ⟨h1, hle⟩ := of_decide_eq_true hyo
      exact absurd (hxo y hy h1) (not_lt.mpr hle)
    rw [sessions, ih _ hsorted hopens hone, List.map_cons, opened_cons m hx1 le_rfl, hnone, Nat.add_zero]
    congr 1
    apply List.map_congr_left
    intro y hy
    rw [opened_cons m hx1 (hx y hy), Nat.add_assoc]

/-- What groups the rows. -/
def Windows.label (w : Windows rows) (e : Event) : Key × ℕ := (e.key, opened (gaps 0 (w.first e.key)) e.ts)

theorem Windows.second_le_one (w : Windows rows) {k : Key} : ∀ x ∈ w.second k, x.2 ≤ 1 := fun _ hx =>
  gaps_le_one ((w.second_perm k).mem_iff.mp hx)

theorem Windows.second_events (w : Windows rows) (k : Key) : ((w.second k).map Prod.fst).Perm (rows.filter (·.key = k)) := by
  have h := (w.second_perm k).map Prod.fst
  rw [gaps_fst] at h
  exact h.trans (w.first_perm k)

theorem Windows.key_of_mem (w : Windows rows) {k : Key} {x : Event × ℕ} (h : x ∈ w.second k) : x.1.key = k := by
  have hx := (w.second_events k).mem_iff.mp (List.mem_map_of_mem h)
  exact of_decide_eq_true (List.mem_filter.mp hx).2

theorem Windows.sessions_label (w : Windows rows) (hw : w.OpensFirst) (k : Key) :
    sessions 0 (w.second k) = ((w.second k).map Prod.fst).map fun e => (e, (w.label e).2) := by
  rw [sessions_eq 0 (w.second_sorted k) (hw k) w.second_le_one, List.map_map]
  apply List.map_congr_left
  intro x hx
  rw [Function.comp_apply, Windows.label, w.key_of_mem hx, opened_perm (w.second_perm k), Nat.zero_add]

theorem Windows.sessionRows_perm (w : Windows rows) (hw : w.OpensFirst) :
    w.sessionRows.Perm (rows.map fun e => (e, (w.label e).2)) := by
  have heach : ∀ k ∈ (rows.map Event.key).dedup,
      (sessions 0 (w.second k)).Perm ((rows.filter (·.key = k)).map fun e => (e, (w.label e).2)) := by
    intro k _
    rw [w.sessions_label hw]
    exact (w.second_events k).map _
  have hall : (groupBy Event.key rows).flatten.Perm rows := groupBy_parts.perm
  have hmap := hall.map fun e => (e, (w.label e).2)
  rw [groupBy, ← List.flatMap_def, List.map_flatMap] at hmap
  exact (List.Perm.flatMap_left _ heach).trans hmap

/-- The groups are the classes of the rows, by visitor, property and the number of sessions begun. -/
theorem Windows.groups_parts (w : Windows rows) (hw : w.OpensFirst) : Parts w.label rows w.groups ∧ Uniform w.label w.groups := by
  have hparts : Parts (fun x : Event × ℕ => (x.1.key, x.2)) w.sessionRows (groupBy (fun x => (x.1.key, x.2)) w.sessionRows) := groupBy_parts
  have huniform : Uniform (fun x : Event × ℕ => (x.1.key, x.2)) (groupBy (fun x => (x.1.key, x.2)) w.sessionRows) := groupBy_uniform
  have hlabel : ∀ x ∈ w.sessionRows, w.label x.1 = (x.1.key, x.2) := by
    intro x hx
    obtain ⟨e, -, rfl⟩ := List.mem_map.mp ((w.sessionRows_perm hw).mem_iff.mp hx)
    rfl
  have hmem {v : List (Event × ℕ)} (hv : v ∈ groupBy (fun x => (x.1.key, x.2)) w.sessionRows) {x : Event × ℕ} (hx : x ∈ v) :
      w.label x.1 = (x.1.key, x.2) := hlabel x (hparts.mem.mpr ⟨v, hv, hx⟩)
  refine ⟨⟨?_, ?_, ?_⟩, ?_⟩
  · have hperm := (hparts.perm.trans (w.sessionRows_perm hw)).map Prod.fst
    rw [List.map_flatten, List.map_map] at hperm
    simpa [Windows.groups, Function.comp_def] using hperm
  · intro v hv
    obtain ⟨u, hu, rfl⟩ := List.mem_map.mp hv
    exact fun h => hparts.nonempty u hu (List.map_eq_nil_iff.mp h)
  · rw [Windows.groups, List.pairwise_map]
    refine hparts.apart.imp_of_mem fun {u v} hu hv h a ha b hb heq => ?_
    obtain ⟨x, hx, rfl⟩ := List.mem_map.mp ha
    obtain ⟨y, hy, rfl⟩ := List.mem_map.mp hb
    exact h x hx y hy ((hmem hu hx).symm.trans (heq.trans (hmem hv hy)))
  · intro v hv a ha b hb
    obtain ⟨u, hu, rfl⟩ := List.mem_map.mp hv
    obtain ⟨x, hx, rfl⟩ := List.mem_map.mp ha
    obtain ⟨y, hy, rfl⟩ := List.mem_map.mp hb
    exact (hmem hu hx).trans ((huniform u hu x hx y hy).trans (hmem hu hy).symm)

/-! ## Sessions and visits -/

theorem opened_mono (m : List (Event × ℕ)) {s t : ℤ} (h : s ≤ t) : opened m s ≤ opened m t := by
  apply List.countP_mono_left
  intro x _ hx
  obtain ⟨h1, hle⟩ := of_decide_eq_true hx
  exact decide_eq_true ⟨h1, hle.trans h⟩

theorem opened_eq_iff {m : List (Event × ℕ)} {s t : ℤ} (h : s ≤ t) :
    opened m s = opened m t ↔ ∀ x ∈ m, x.2 = 1 → s < x.1.ts → t < x.1.ts := by
  induction m with
  | nil => simp [opened]
  | cons x m ih =>
    have hmono := opened_mono m h
    have hcons (u : ℤ) : opened (x :: m) u = opened m u + if x.2 = 1 ∧ x.1.ts ≤ u then 1 else 0 := by
      simp [opened, List.countP_cons]
    rw [List.forall_mem_cons, ← ih, hcons, hcons]
    split_ifs <;> omega

/-- Two events of a visitor are in one session unless one between them is far from the one before it. -/
theorem Windows.label_eq_iff (w : Windows rows) {a b : Event} (ha : a ∈ rows) (hkey : a.key = b.key) (hle : a.ts ≤ b.ts) :
    w.label a = w.label b ↔ ∀ q e, Neighbours (rows.filter (·.key = a.key)) q e → 1800 ≤ dateDiff q.ts e.ts → a.ts ≤ q.ts →
      b.ts < e.ts := by
  have hmem : ∀ {e}, e ∈ w.first a.key ↔ e ∈ rows.filter (·.key = a.key) := (w.first_perm a.key).mem_iff
  have ha : a ∈ w.first a.key := hmem.mpr (List.mem_filter.mpr ⟨ha, decide_eq_true rfl⟩)
  have hnear {q e : Event} : Neighbours (w.first a.key) q e ↔ Neighbours (rows.filter (·.key = a.key)) q e :=
    ⟨fun h => ⟨hmem.mp h.left, hmem.mp h.right, h.lt, fun d hd => h.between d (hmem.mpr hd)⟩,
      fun h => ⟨hmem.mpr h.left, hmem.mpr h.right, h.lt, fun d hd => h.between d (hmem.mp hd)⟩⟩
  rw [Windows.label, Windows.label, ← hkey, Prod.mk.injEq, and_iff_right rfl, opened_eq_iff hle]
  constructor
  · intro h q e hn hfar haq
    obtain ⟨x, hx, h1, hts⟩ := gaps_opens 0 (w.first_sorted a.key) (hnear.mpr hn) hfar
    rw [← hts]
    exact h x hx h1 (hts ▸ haq.trans_lt hn.lt)
  · intro h x hx h1 hax
    rcases gaps_opening (w.first_sorted a.key) hx h1 with ⟨-, hall⟩ | ⟨q, hn, hfar⟩
    · exact absurd (hall a ha) (not_le.mpr hax)
    · exact h q x.1 (hnear.mp hn) hfar ((hn.between a ha).resolve_right (not_le.mpr hax))

/-! ## How many sessions -/

theorem gaps_opensFirst (p : ℤ) {l : List Event} (hl : l.Pairwise (·.ts ≤ ·.ts)) :
    (gaps p l).Pairwise fun x y => y.2 = 1 → x.1.ts < y.1.ts := by
  induction l generalizing p with
  | nil => exact .nil
  | cons e l ih =>
    obtain ⟨he, hl⟩ := List.pairwise_cons.mp hl
    refine List.pairwise_cons.mpr ⟨fun y hy h1 => ?_, ih e.ts hl⟩
    rcases gaps_opening hl hy h1 with ⟨hfar, -⟩ | ⟨q, hn, -⟩
    · exact dateDiff_lt hfar
    · exact (he q hn.left).trans_lt hn.lt

theorem gaps_sorted (p : ℤ) {l : List Event} (h : l.Pairwise (·.ts ≤ ·.ts)) : (gaps p l).Pairwise (·.1.ts ≤ ·.1.ts) := by
  rw [← gaps_fst p l, List.pairwise_map] at h
  exact h

/-- The second window in the order of the first. -/
def Windows.firstOrder (w : Windows rows) : Windows rows where
  first := w.first
  first_perm := w.first_perm
  first_sorted := w.first_sorted
  second k := gaps 0 (w.first k)
  second_perm _ := List.Perm.refl _
  second_sorted k := gaps_sorted 0 (w.first_sorted k)

theorem Windows.firstOrder_opensFirst (w : Windows rows) : w.firstOrder.OpensFirst := fun k => gaps_opensFirst 0 (w.first_sorted k)

/-- How many numbers the sessions of a partition have. -/
def numbers (m : List (Event × ℕ)) : ℕ := ((sessions 0 m).map Prod.snd).toFinset.card

theorem le_sessions {s : ℕ} {m : List (Event × ℕ)} {x : Event × ℕ} (hx : x ∈ sessions s m) : s ≤ x.2 := by
  induction m generalizing s with
  | nil => cases hx
  | cons y m ih =>
    rcases List.mem_cons.mp hx with rfl | hx
    · exact Nat.le_add_right _ _
    · exact (Nat.le_add_right _ _).trans (ih hx)

theorem card_sessions (s : ℕ) (x : Event × ℕ) {m : List (Event × ℕ)} (hone : ∀ y ∈ m, y.2 ≤ 1) :
    ((sessions s (x :: m)).map Prod.snd).toFinset.card = 1 + m.countP (·.2 = 1) := by
  induction m generalizing s x with
  | nil => simp [sessions]
  | cons y m ih =>
    obtain ⟨hy, hone⟩ := List.forall_mem_cons.mp hone
    have hrest := ih (s + x.2) y hone
    have hsplit : sessions s (x :: y :: m) = (x.1, s + x.2) :: sessions (s + x.2) (y :: m) := rfl
    rw [hsplit, List.map_cons, List.toFinset_cons, List.countP_cons]
    by_cases h1 : y.2 = 1
    · rw [Finset.card_insert_of_notMem, hrest, if_pos (decide_eq_true h1)]
      · omega
      · intro hmem
        obtain ⟨z, hz, heq⟩ := List.mem_map.mp (List.mem_toFinset.mp hmem)
        rcases List.mem_cons.mp hz with rfl | hz
        · dsimp only at heq
          omega
        · have hle := le_sessions hz
          omega
    · have h0 : y.2 = 0 := by omega
      rw [Finset.insert_eq_of_mem, hrest, if_neg (by simpa using h1), Nat.add_zero]
      rw [List.mem_toFinset, sessions, List.map_cons, h0]
      exact List.mem_cons_self

/-- A row opens a session, counted for the first row of a partition. -/
def opensHead (m : List (Event × ℕ)) : ℕ := (m.head?.map Prod.snd).getD 0

theorem numbers_add {m : List (Event × ℕ)} (hm : m ≠ []) (hone : ∀ y ∈ m, y.2 ≤ 1) : numbers m + opensHead m = 1 + m.countP (·.2 = 1) := by
  cases m with
  | nil => exact absurd rfl hm
  | cons x m =>
    obtain ⟨hx, hone⟩ := List.forall_mem_cons.mp hone
    have hhead : opensHead (x :: m) = if x.2 = 1 then 1 else 0 := by
      have hx : opensHead (x :: m) = x.2 := rfl
      split <;> omega
    rw [numbers, card_sessions 0 x hone, hhead, List.countP_cons]
    simp only [decide_eq_true_eq]
    omega

theorem sessions_fst (s : ℕ) (m : List (Event × ℕ)) : (sessions s m).map Prod.fst = m.map Prod.fst := by
  induction m generalizing s with
  | nil => rfl
  | cons y m ih => rw [sessions, List.map_cons, List.map_cons, ih]

theorem Windows.key_of_mem_sessions (w : Windows rows) {k : Key} {x : Event × ℕ} (h : x ∈ sessions 0 (w.second k)) : x.1.key = k := by
  have hmem : x.1 ∈ (sessions 0 (w.second k)).map Prod.fst := List.mem_map_of_mem h
  rw [sessions_fst] at hmem
  obtain ⟨y, hy, heq⟩ := List.mem_map.mp hmem
  rw [← heq]
  exact w.key_of_mem hy

/-- The sessions are counted partition by partition. -/
theorem Windows.groups_length (w : Windows rows) :
    w.groups.length = ((rows.map Event.key).dedup.map fun k => numbers (w.second k)).sum := by
  have hcount (k : Key) : count (fun x : Event × ℕ => (x.1.key, x.2)) (sessions 0 (w.second k)) = numbers (w.second k) := by
    have hmap : (sessions 0 (w.second k)).map (fun x => (x.1.key, x.2)) = ((sessions 0 (w.second k)).map Prod.snd).map (Prod.mk k) := by
      rw [List.map_map]
      exact List.map_congr_left fun x hx => by rw [w.key_of_mem_sessions hx, Function.comp_apply]
    have himage : ∀ l : List ℕ, (l.map (Prod.mk k)).toFinset = l.toFinset.image (Prod.mk k) := fun l => by
      ext p
      simp
    rw [count, hmap, himage, Finset.card_image_of_injective _ (Prod.mk_right_injective k), numbers]
  rw [Windows.groups, List.length_map, groupBy, List.length_map, ← List.card_toFinset, ← count, Windows.sessionRows, List.flatMap_def,
    count_flatten, List.map_map]
  · exact congrArg List.sum (List.map_congr_left fun k _ => hcount k)
  · rw [List.pairwise_map]
    refine (List.nodup_dedup _).imp fun {j k} hjk a ha b hb heq => hjk ?_
    rw [← w.key_of_mem_sessions ha, ← w.key_of_mem_sessions hb]
    exact congrArg Prod.fst heq

/-- The second window's order begins with a row that opens a session where the first window's does. -/
def Windows.StartsAlike (w : Windows rows) : Prop := ∀ k, opensHead (gaps 0 (w.first k)) = opensHead (w.second k)

theorem Windows.opensHead_le (w : Windows rows) (k : Key) : opensHead (w.second k) ≤ opensHead (gaps 0 (w.first k)) := by
  cases hm : w.second k with
  | nil => exact Nat.zero_le _
  | cons x m =>
    have hx : x ∈ w.second k := by
      rw [hm]
      exact List.mem_cons_self
    have hsorted := w.second_sorted k
    rw [hm] at hsorted
    have hfirst : ∀ d ∈ w.first k, x.1.ts ≤ d.ts := by
      intro d hd
      obtain ⟨y, hy, rfl⟩ := List.mem_map.mp ((gaps_fst 0 (w.first k)).symm ▸ hd)
      have hy : y ∈ x :: m := hm ▸ (w.second_perm k).mem_iff.mpr hy
      rcases List.mem_cons.mp hy with rfl | hy
      · exact le_rfl
      · exact (List.pairwise_cons.mp hsorted).1 y hy
    have hxgaps := (w.second_perm k).mem_iff.mp hx
    have hone := gaps_le_one hxgaps
    by_cases h1 : x.2 = 1
    · rcases gaps_opening (w.first_sorted k) hxgaps h1 with ⟨hfar, -⟩ | ⟨q, hn, -⟩
      · -- the first row of the other order is of the same instant
        cases hl : w.first k with
        | nil =>
          rw [hl] at hxgaps
          cases hxgaps
        | cons e l =>
          have hl' := w.first_sorted k
          have hmem := mem_of_mem_gaps hxgaps
          rw [hl] at hl' hmem hfirst
          have heq : e.ts = x.1.ts := by
            refine le_antisymm ?_ (hfirst e List.mem_cons_self)
            rcases List.mem_cons.mp hmem with heq | hmem
            · exact (congrArg Event.ts heq).symm.le
            · exact (List.pairwise_cons.mp hl').1 _ hmem
          have hopens : opensHead (gaps 0 (e :: l)) = if 1800 ≤ dateDiff 0 e.ts then 1 else 0 := rfl
          rw [hopens, heq, if_pos hfar]
          exact hone
      · exact absurd hn.lt (not_lt.mpr (hfirst q hn.left))
    · have h0 : opensHead (x :: m) = x.2 := rfl
      omega

/-- There are no fewer sessions than in the first window's order, and as many just where the partitions start alike. -/
theorem Windows.groups_length_iff (w : Windows rows) : w.firstOrder.groups.length ≤ w.groups.length ∧
    (w.firstOrder.groups.length = w.groups.length ↔ w.StartsAlike) := by
  have hadd : ∀ k ∈ (rows.map Event.key).dedup, numbers (gaps 0 (w.first k)) + opensHead (gaps 0 (w.first k)) =
      numbers (w.second k) + opensHead (w.second k) := by
    intro k hk
    obtain ⟨e, he, rfl⟩ := List.mem_map.mp (List.mem_dedup.mp hk)
    have hfirst : e ∈ w.first e.key := (w.first_perm e.key).mem_iff.mpr (List.mem_filter.mpr ⟨he, decide_eq_true rfl⟩)
    have hne : gaps 0 (w.first e.key) ≠ [] := by
      intro h
      rw [← gaps_fst 0 (w.first e.key), h] at hfirst
      cases hfirst
    have hne' : w.second e.key ≠ [] := fun h => hne (List.perm_nil.mp (h ▸ (w.second_perm e.key).symm))
    rw [numbers_add hne fun _ hy => gaps_le_one hy, numbers_add hne' w.second_le_one, (w.second_perm e.key).countP_eq]
  have hle : ∀ k ∈ (rows.map Event.key).dedup, numbers (gaps 0 (w.first k)) ≤ numbers (w.second k) := by
    intro k hk
    have := hadd k hk
    have := w.opensHead_le k
    omega
  rw [Windows.groups_length, Windows.groups_length]
  refine ⟨List.sum_le_sum hle, (sum_eq_sum_iff hle).trans ⟨fun h k => ?_, fun h k hk => ?_⟩⟩
  · by_cases hk : k ∈ (rows.map Event.key).dedup
    · have := hadd k hk
      have := h k hk
      omega
    · have hnone : rows.filter (·.key = k) = [] := by
        apply List.filter_eq_nil_iff.mpr
        intro e he hek
        exact hk (List.mem_dedup.mpr (List.mem_map.mpr ⟨e, he, of_decide_eq_true hek⟩))
      have hnil : w.first k = [] := by
        have h := w.first_perm k
        rw [hnone] at h
        exact List.perm_nil.mp h
      have hsecond : w.second k = [] := by
        have h := w.second_perm k
        rw [hnil] at h
        exact List.perm_nil.mp h
      rw [hnil, hsecond]
      rfl
  · have := hadd k hk
    have := h k
    omega

end

end Upstat.SessionWindows
