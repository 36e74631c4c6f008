import Mathlib.Algebra.Field.Rat
import Mathlib.Data.Finset.Max
import Mathlib.Data.List.Chain
import Mathlib.Data.Rat.Cast.Order
import Mathlib.Tactic.Ring
import Upstat.SessionWindows

/-! # Visits as the RUM summary counts them

What `RumSummary` reports of the sessions, what the contract has of the visits, and when the two are the same. -/
namespace Upstat.VisitReports

open LabelClasses SessionWindows

section
variable {rows : List Event}

/-- `countIf(name = 'page_view')` -/
def pv (v : List Event) : ℕ := v.countP (·.name = "page_view")

def minTs (v : List Event) : ℤ := (v.map Event.ts).min?.getD 0

def maxTs (v : List Event) : ℤ := (v.map Event.ts).max?.getD 0

/-- `dateDiff('second', min(ts), max(ts))` -/
def dur (v : List Event) : ℤ := dateDiff (minTs v) (maxTs v)

structure VisitsRow where
  visits : ℕ
  bounces : ℕ
  engagedSeconds : ℤ
  engaged : ℕ

def visitsSQL (w : Windows rows) : VisitsRow where
  visits := w.groups.length
  bounces := w.groups.countP (pv · = 1)
  engagedSeconds := ((w.groups.filter (1 < pv ·)).map dur).sum
  engaged := w.groups.countP (1 < pv ·)

/-- What is reported of visits, before rounding. -/
@[ext] structure Report where
  visits : ℕ
  bounceRate : Option ℚ
  avgVisitSeconds : Option ℚ

/-- The part of `RumSummary` on visits. -/
def rumSummary (w : Windows rows) : Report :=
  let v := visitsSQL w
  { visits := v.visits
    bounceRate := if 0 < v.visits then some (v.bounces / v.visits) else none
    avgVisitSeconds := if 0 < v.engaged then some (v.engagedSeconds / v.engaged) else none }

/-! ## The contract -/

/-- Maximal runs of one visitor's events on one property with gaps under 30 minutes. -/
structure Visits (rows : List Event) (V : List (List Event)) : Prop where
  perm : V.flatten.Perm rows
  nonempty : ∀ v ∈ V, v ≠ []
  one : ∀ v ∈ V, ∀ a ∈ v, ∀ b ∈ v, a.key = b.key
  run : ∀ v ∈ V, v.IsChain fun a b => a.ts ≤ b.ts ∧ b.ts - a.ts < 1800000
  maximal : V.Pairwise fun v w => ∀ a ∈ v, ∀ b ∈ w, a.key = b.key → 1800000 ≤ |a.ts - b.ts|

def seconds (v : List Event) : ℚ := (maxTs v - minTs v) / 1000

/-- A bounce has exactly one `page_view`, and the average leaves the bounces out. -/
def contract (V : List (List Event)) : Report :=
  let bounces := V.countP (pv · = 1)
  { visits := V.length
    bounceRate := if V.length = 0 then none else some (bounces / V.length)
    avgVisitSeconds := if V.length - bounces = 0 then none
      else some (((V.filter (pv · ≠ 1)).map seconds).sum / (V.length - bounces : ℕ)) }

/-- No two neighbours less than 30 minutes apart are 1800 whole seconds apart. -/
def NoCrossing (rows : List Event) : Prop :=
  ∀ k q e, Neighbours (rows.filter (·.key = k)) q e → 1800 ≤ dateDiff q.ts e.ts → 1800000 ≤ e.ts - q.ts

section
variable {V : List (List Event)} (hV : Visits rows V)
include hV

theorem Visits.mem {a : Event} : a ∈ rows ↔ ∃ v ∈ V, a ∈ v := by
  rw [← hV.perm.mem_iff, List.mem_flatten]

/-- Events of one visitor in two visits are at least 30 minutes apart. -/
theorem Visits.far {v w : List Event} (hv : v ∈ V) (hw : w ∈ V) (hne : v ≠ w) {a b : Event} (ha : a ∈ v) (hb : b ∈ w)
    (hkey : a.key = b.key) : 1800000 ≤ |a.ts - b.ts| := by
  have hsymm : Std.Symm fun v w : List Event => ∀ a ∈ v, ∀ b ∈ w, a.key = b.key → 1800000 ≤ |a.ts - b.ts| :=
    ⟨fun v w h b hb a ha hkey => abs_sub_comm a.ts b.ts ▸ h a ha b hb hkey.symm⟩
  exact hV.maximal.forall hv hw hne a ha b hb hkey

/-- Between events of two visits there are neighbours at least 30 minutes apart. -/
theorem Visits.parted {v w : List Event} (hv : v ∈ V) (hw : w ∈ V) (hne : v ≠ w) {a b : Event} (ha : a ∈ v) (hb : b ∈ w)
    (hkey : a.key = b.key) (hle : a.ts ≤ b.ts) :
    ∃ q e, Neighbours (rows.filter (·.key = a.key)) q e ∧ 1800000 ≤ e.ts - q.ts ∧ a.ts ≤ q.ts ∧ e.ts ≤ b.ts := by
  -- the last event of the visit that is not after `b`, and the first one after that
  obtain ⟨q, hq, hlast⟩ := (v.toFinset.filter (·.ts ≤ b.ts)).exists_max_image Event.ts ⟨a, by simp [ha, hle]⟩
  simp only [Finset.mem_filter, List.mem_toFinset, and_imp] at hq hlast
  have hqa : q.key = a.key := hV.one v hv q hq.1 a ha
  have hqb : q.ts < b.ts := by
    have hfar := hV.far hv hw hne hq.1 hb (hqa.trans hkey)
    rcases abs_cases (q.ts - b.ts) with h | h <;> omega
  obtain ⟨e, he, hfirst⟩ := ((rows.filter (·.key = a.key)).toFinset.filter (q.ts < ·.ts)).exists_min_image Event.ts
    ⟨b, by simp [hV.mem.mpr ⟨w, hw, hb⟩, hkey, hqb]⟩
  simp only [Finset.mem_filter, List.mem_toFinset, List.mem_filter, decide_eq_true_eq, and_imp] at he hfirst
  have heb : e.ts ≤ b.ts := hfirst b (hV.mem.mpr ⟨w, hw, hb⟩) hkey.symm hqb
  obtain ⟨u, hu, heu⟩ := hV.mem.mp he.1.1
  have huv : v ≠ u := by
    rintro rfl
    exact absurd (hlast e heu heb) (not_le.mpr he.2)
  have hfar := hV.far hv hu huv hq.1 heu (hqa.trans he.1.2.symm)
  refine ⟨q, e, ⟨?_, ?_, he.2, ?_⟩, ?_, hlast a ha hle, heb⟩
  · exact List.mem_filter.mpr ⟨hV.mem.mpr ⟨v, hv, hq.1⟩, decide_eq_true hqa⟩
  · exact List.mem_filter.mpr ⟨he.1.1, decide_eq_true he.1.2⟩
  · intro d hd
    obtain ⟨hd, hdk⟩ := List.mem_filter.mp hd
    rcases le_or_gt d.ts q.ts with h | h
    · exact Or.inl h
    · exact Or.inr (hfirst d hd (of_decide_eq_true hdk) h)
  · have hlt := he.2
    rcases abs_cases (q.ts - e.ts) with h | h <;> omega

omit hV in
/-- A run with small gaps is on one side of a large one. -/
theorem one_side {v : List Event} (hrun : v.IsChain fun a b => a.ts ≤ b.ts ∧ b.ts - a.ts < 1800000) {q e : ℤ} (hfar : 1800000 ≤ e - q)
    (hside : ∀ d ∈ v, d.ts ≤ q ∨ e ≤ d.ts) : (∀ d ∈ v, d.ts ≤ q) ∨ ∀ d ∈ v, e ≤ d.ts := by
  induction v with
  | nil => exact Or.inl fun d hd => absurd hd List.not_mem_nil
  | cons a v ih =>
    obtain ⟨ha, hside⟩ := List.forall_mem_cons.mp hside
    cases v with
    | nil =>
      rcases ha with ha | ha
      · exact Or.inl (List.forall_mem_cons.mpr ⟨ha, by simp⟩)
      · exact Or.inr (List.forall_mem_cons.mpr ⟨ha, by simp⟩)
    | cons b v =>
      obtain ⟨hab, hrun⟩ := List.isChain_cons_cons.mp hrun
      rcases ih hrun hside with h | h
      · have hb := h b List.mem_cons_self
        exact Or.inl (List.forall_mem_cons.mpr ⟨by omega, h⟩)
      · have hb := h b List.mem_cons_self
        exact Or.inr (List.forall_mem_cons.mpr ⟨by omega, h⟩)

/-- Visits differ by their labels, whatever the gaps. -/
theorem Visits.parts (w : Windows rows) : Parts w.label rows V := by
  have hforward {v u : List Event} (hv : v ∈ V) (hu : u ∈ V) (hne : v ≠ u) {a b : Event} (ha : a ∈ v) (hb : b ∈ u)
      (hle : a.ts ≤ b.ts) : w.label a ≠ w.label b := by
    intro heq
    have hkey : a.key = b.key := congrArg Prod.fst heq
    obtain ⟨q, e, hn, hfar, haq, heb⟩ := hV.parted hv hu hne ha hb hkey hle
    have hlt := (w.label_eq_iff (hV.mem.mpr ⟨v, hv, ha⟩) hkey hle).mp heq q e hn (dateDiff_of_gap hfar) haq
    omega
  refine ⟨hV.perm, hV.nonempty, hV.maximal.imp_of_mem fun {v u} hv hu h a ha b hb => ?_⟩
  have hne : v ≠ u := by
    rintro rfl
    have hself := h a ha a ha rfl
    rw [sub_self, abs_zero] at hself
    omega
  rcases le_total a.ts b.ts with hle | hle
  · exact hforward hv hu hne ha hb hle
  · exact (hforward hu hv hne.symm hb ha hle).symm

/-- The sessions are the visits just where no gap under 30 minutes is 1800 whole seconds. -/
theorem Visits.uniform_iff (w : Windows rows) : Uniform w.label V ↔ NoCrossing rows := by
  constructor
  · intro hu k q e hn hfar
    obtain ⟨hq, hqk⟩ := List.mem_filter.mp hn.left
    obtain ⟨he, hek⟩ := List.mem_filter.mp hn.right
    have hkey : q.key = e.key := (of_decide_eq_true hqk).trans (of_decide_eq_true hek).symm
    obtain ⟨v, hv, hqv⟩ := hV.mem.mp hq
    obtain ⟨u, hu', heu⟩ := hV.mem.mp he
    by_cases hvu : v = u
    · subst hvu
      have hn : Neighbours (rows.filter (·.key = q.key)) q e := by
        rw [of_decide_eq_true hqk]
        exact hn
      have hlt := (w.label_eq_iff hq hkey hn.lt.le).mp (hu v hv q hqv e heu) q e hn hfar le_rfl
      exact absurd hlt (lt_irrefl _)
    · have hgap := hV.far hv hu' hvu hqv heu hkey
      have hlt := hn.lt
      rcases abs_cases (q.ts - e.ts) with h | h <;> omega
  · intro hcross
    have hforward {v : List Event} (hv : v ∈ V) {a b : Event} (ha : a ∈ v) (hb : b ∈ v) (hle : a.ts ≤ b.ts) : w.label a = w.label b := by
      refine (w.label_eq_iff (hV.mem.mpr ⟨v, hv, ha⟩) (hV.one v hv a ha b hb) hle).mpr fun q e hn hfar haq => ?_
      have hside : ∀ d ∈ v, d.ts ≤ q.ts ∨ e.ts ≤ d.ts := fun d hd =>
        hn.between d (List.mem_filter.mpr ⟨hV.mem.mpr ⟨v, hv, hd⟩, decide_eq_true (hV.one v hv d hd a ha)⟩)
      have hlt := hn.lt
      rcases one_side (hV.run v hv) (hcross _ q e hn hfar) hside with h | h
      · have := h b hb
        omega
      · have := h a ha
        omega
    intro v hv a ha b hb
    rcases le_total a.ts b.ts with hle | hle
    · exact hforward hv ha hb hle
    · exact (hforward hv hb ha hle).symm

end

/-! ## Visits there are -/

/-- An event that is far before the others is a visit of its own. -/
theorem Visits.start {l : List Event} {V : List (List Event)} (hV : Visits l V) {a : Event} (hfar : ∀ d ∈ l, 1800000 ≤ d.ts - a.ts) :
    Visits (a :: l) ([a] :: V) where
  perm := hV.perm.cons a
  nonempty := List.forall_mem_cons.mpr ⟨List.cons_ne_nil _ _, hV.nonempty⟩
  one := List.forall_mem_cons.mpr ⟨by simp, hV.one⟩
  run := List.forall_mem_cons.mpr ⟨List.isChain_singleton a, hV.run⟩
  maximal := by
    refine List.pairwise_cons.mpr ⟨fun w hw c hc d hd _ => ?_, hV.maximal⟩
    obtain rfl := List.mem_singleton.mp hc
    have hgap := hfar d (hV.mem.mpr ⟨w, hw, hd⟩)
    rw [abs_sub_comm, abs_of_nonneg (by omega)]
    exact hgap

/-- An event that is shortly before the first of the others is of its visit. -/
theorem Visits.join {l v : List Event} {V : List (List Event)} {b : Event} (hV : Visits l ((b :: v) :: V)) {a : Event}
    (hkey : b.key = a.key) (hab : a.ts ≤ b.ts) (hnear : b.ts - a.ts < 1800000) (hfirst : ∀ d ∈ l, b.ts ≤ d.ts) :
    Visits (a :: l) ((a :: b :: v) :: V) where
  perm := hV.perm.cons a
  nonempty := List.forall_mem_cons.mpr ⟨List.cons_ne_nil _ _, fun w hw => hV.nonempty w (List.mem_cons_of_mem _ hw)⟩
  one := by
    refine List.forall_mem_cons.mpr ⟨?_, fun w hw => hV.one w (List.mem_cons_of_mem _ hw)⟩
    have hall : ∀ c ∈ a :: b :: v, c.key = b.key :=
      List.forall_mem_cons.mpr ⟨hkey.symm, fun c hc => hV.one _ List.mem_cons_self c hc b List.mem_cons_self⟩
    intro c hc d hd
    rw [hall c hc, hall d hd]
  run := by
    refine List.forall_mem_cons.mpr ⟨?_, fun w hw => hV.run w (List.mem_cons_of_mem _ hw)⟩
    exact List.isChain_cons_cons.mpr ⟨⟨hab, hnear⟩, hV.run _ List.mem_cons_self⟩
  maximal := by
    obtain ⟨hmax, hrest⟩ := List.pairwise_cons.mp hV.maximal
    refine List.pairwise_cons.mpr ⟨fun w hw => List.forall_mem_cons.mpr ⟨fun d hd hk => ?_, hmax w hw⟩, hrest⟩
    have hgap := hmax w hw b List.mem_cons_self d hd (hkey.trans hk)
    have hbd := hfirst d (hV.mem.mpr ⟨w, List.mem_cons_of_mem _ hw, hd⟩)
    rw [abs_sub_comm, abs_of_nonneg (by omega)] at hgap ⊢
    omega

/-- A visitor's events in the order of time fall into runs. -/
theorem exists_runs {l : List Event} (hsorted : l.Pairwise (·.ts ≤ ·.ts)) {k : Key} (hkey : ∀ d ∈ l, d.key = k) :
    ∃ V, Visits l V ∧ V.flatten = l := by
  induction l with
  | nil => exact ⟨[], ⟨List.Perm.refl _, by simp, by simp, by simp, .nil⟩, rfl⟩
  | cons a l ih =>
    obtain ⟨ha, hl⟩ := List.pairwise_cons.mp hsorted
    obtain ⟨hak, hlk⟩ := List.forall_mem_cons.mp hkey
    obtain ⟨V, hV, hflat⟩ := ih hl hlk
    cases l with
    | nil => exact ⟨[a] :: V, hV.start (by simp), by rw [List.flatten_cons, hflat]; rfl⟩
    | cons b l =>
      have hfirst : ∀ d ∈ b :: l, b.ts ≤ d.ts := List.forall_mem_cons.mpr ⟨le_rfl, (List.pairwise_cons.mp hl).1⟩
      by_cases hnear : b.ts - a.ts < 1800000
      · cases V with
        | nil => cases hflat
        | cons u V =>
          cases u with
          | nil => exact absurd rfl (hV.nonempty [] List.mem_cons_self)
          | cons c v =>
            obtain rfl : c = b := (List.cons.inj hflat).1
            have hck : c.key = a.key := (hlk c List.mem_cons_self).trans hak.symm
            refine ⟨_, hV.join hck (ha c List.mem_cons_self) hnear hfirst, ?_⟩
            rw [List.flatten_cons, List.cons_append, ← List.flatten_cons, hflat]
      · refine ⟨[a] :: V, hV.start fun d hd => ?_, ?_⟩
        · have hbd := hfirst d hd
          omega
        · rw [List.flatten_cons, hflat]
          rfl

theorem Visits.of_perm {l l' : List Event} (h : l.Perm l') {V : List (List Event)} (hV : Visits l V) : Visits l' V :=
  ⟨hV.perm.trans h, hV.nonempty, hV.one, hV.run, hV.maximal⟩

theorem Visits.append {l l' : List Event} {V W : List (List Event)} (hV : Visits l V) (hW : Visits l' W)
    (hkeys : ∀ a ∈ l, ∀ b ∈ l', a.key ≠ b.key) : Visits (l ++ l') (V ++ W) where
  perm := by
    rw [List.flatten_append]
    exact hV.perm.append hW.perm
  nonempty := List.forall_mem_append.mpr ⟨hV.nonempty, hW.nonempty⟩
  one := List.forall_mem_append.mpr ⟨hV.one, hW.one⟩
  run := List.forall_mem_append.mpr ⟨hV.run, hW.run⟩
  maximal := List.pairwise_append.mpr ⟨hV.maximal, hW.maximal, fun v hv w hw a ha b hb hk =>
    absurd hk (hkeys a (hV.mem.mpr ⟨v, hv, ha⟩) b (hW.mem.mpr ⟨w, hw, hb⟩))⟩

/-- Any events have their visits. -/
theorem exists_visits (rows : List Event) : ∃ V, Visits rows V := by
  have hkeys : ∀ ks : List Key, ks.Nodup → ∃ V, Visits (ks.map fun k => rows.filter (·.key = k)).flatten V := by
    intro ks
    induction ks with
    | nil => exact fun _ => ⟨[], ⟨List.Perm.refl _, by simp, by simp, by simp, .nil⟩⟩
    | cons k ks ih =>
      intro hnodup
      obtain ⟨hk, hks⟩ := List.nodup_cons.mp hnodup
      have hperm := List.mergeSort_perm (rows.filter (·.key = k)) (·.ts ≤ ·.ts)
      have hkey : ∀ d ∈ (rows.filter (·.key = k)).mergeSort (·.ts ≤ ·.ts), d.key = k := fun d hd =>
        of_decide_eq_true (List.mem_filter.mp (hperm.mem_iff.mp hd)).2
      have hsorted : ((rows.filter (·.key = k)).mergeSort (·.ts ≤ ·.ts)).Pairwise (·.ts ≤ ·.ts) := by
        have h : ((rows.filter (·.key = k)).mergeSort (·.ts ≤ ·.ts)).Pairwise fun a b => decide (a.ts ≤ b.ts) = true :=
          List.pairwise_mergeSort (fun a b c => by simpa using le_trans) (fun a b => by simpa using le_total a.ts b.ts) _
        exact h.imp of_decide_eq_true
      obtain ⟨V, hV, -⟩ := exists_runs hsorted hkey
      obtain ⟨W, hW⟩ := ih hks
      refine ⟨V ++ W, (hV.of_perm hperm).append hW fun a ha b hb heq => hk ?_⟩
      obtain ⟨l, hl, hb⟩ := List.mem_flatten.mp hb
      obtain ⟨j, hj, rfl⟩ := List.mem_map.mp hl
      rw [← of_decide_eq_true (List.mem_filter.mp ha).2, heq, of_decide_eq_true (List.mem_filter.mp hb).2]
      exact hj
  obtain ⟨V, hV⟩ := hkeys (rows.map Event.key).dedup (List.nodup_dedup _)
  have hperm : (groupBy Event.key rows).flatten.Perm rows := groupBy_parts.perm
  exact ⟨V, hV.of_perm hperm⟩

/-! ## What is reported -/

theorem pv_perm {v w : List Event} (h : v.Perm w) : pv v = pv w := h.countP_eq _

theorem min?_perm {l l' : List ℤ} (h : l.Perm l') : l.min? = l'.min? := by
  apply Option.ext
  intro a
  rw [List.min?_eq_some_iff, List.min?_eq_some_iff]
  simp only [h.mem_iff]

theorem max?_perm {l l' : List ℤ} (h : l.Perm l') : l.max? = l'.max? := by
  apply Option.ext
  intro a
  rw [List.max?_eq_some_iff, List.max?_eq_some_iff]
  simp only [h.mem_iff]

theorem dur_perm {v w : List Event} (h : v.Perm w) : dur v = dur w := by
  have hts := h.map Event.ts
  rw [dur, dur, minTs, minTs, maxTs, maxTs, min?_perm hts, max?_perm hts]

/-- The visits that the average is over, by the contract: all but the bounces. -/
def kept (V : List (List Event)) : List (List Event) := V.filter (pv · ≠ 1)

/-- The visits that the query's average is over. -/
def engaged (V : List (List Event)) : List (List Event) := V.filter (1 < pv ·)

def wholeSeconds (V : List (List Event)) : ℤ := (V.map dur).sum

def lasting (V : List (List Event)) : ℤ := (V.map fun v => maxTs v - minTs v).sum

/-- The visits without a `page_view` and the milliseconds that are cut off leave the average as it is. -/
def AverageExact (V : List (List Event)) : Prop :=
  ((engaged V).length = 0 ↔ (kept V).length = 0) ∧
    wholeSeconds (engaged V) * 1000 * (kept V).length = lasting (kept V) * (engaged V).length

theorem length_kept (V : List (List Event)) : V.length - V.countP (pv · = 1) = (kept V).length := by
  have hsplit := List.length_eq_countP_add_countP (fun v : List Event => decide (pv v = 1)) (l := V)
  have hkept : (kept V).length = V.countP fun v => ¬decide (pv v = 1) = true := by
    rw [kept, List.countP_eq_length_filter]
    simp
  omega

theorem sum_seconds (V : List (List Event)) : (V.map seconds).sum = lasting V / 1000 := by
  induction V with
  | nil => simp [lasting]
  | cons v V ih =>
    rw [List.map_cons, List.sum_cons, ih]
    simp only [lasting, List.map_cons, List.sum_cons, seconds]
    push_cast
    ring

/-- The sessions that are visits give the query's row. -/
theorem visitsSQL_eq (w : Windows rows) {V : List (List Event)} (hV : Parts w.label rows V) (hu : Uniform w.label V)
    (hw : w.OpensFirst) : visitsSQL w = ⟨V.length, V.countP (pv · = 1), wholeSeconds (engaged V), (engaged V).length⟩ := by
  have hperm : (w.groups.map fun v => (pv v, dur v)).Perm (V.map fun v => (pv v, dur v)) :=
    (w.groups_parts hw).1.map_perm (w.groups_parts hw).2 hV hu fun v u h => by rw [pv_perm h, dur_perm h]
  have hlength := hperm.length_eq
  have hbounces := hperm.countP_eq (·.1 = 1)
  have hengaged := hperm.countP_eq (1 < ·.1)
  have hseconds := ((hperm.filter (1 < ·.1)).map Prod.snd).sum_eq
  rw [List.length_map, List.length_map] at hlength
  rw [List.countP_map, List.countP_map] at hbounces hengaged
  rw [List.filter_map, List.filter_map, List.map_map, List.map_map] at hseconds
  rw [engaged, ← List.countP_eq_length_filter]
  rw [visitsSQL, VisitsRow.mk.injEq]
  exact ⟨hlength, hbounces, hseconds, hengaged⟩

theorem average_iff (e k : ℕ) (s m : ℤ) :
    (if 0 < e then some ((s : ℚ) / e) else none) = (if k = 0 then none else some ((m : ℚ) / 1000 / k)) ↔
      (e = 0 ↔ k = 0) ∧ s * 1000 * k = m * e := by
  rcases Nat.eq_zero_or_pos e with rfl | he
  · by_cases hk : k = 0
    · simp [hk]
    · simp [hk]
  · by_cases hk : k = 0
    · simp [hk, he, he.ne']
    · have hnonzero : (e : ℚ) ≠ 0 ∧ (1000 * k : ℚ) ≠ 0 :=
        ⟨Nat.cast_ne_zero.mpr he.ne', mul_ne_zero (by norm_num) (Nat.cast_ne_zero.mpr hk)⟩
      rw [if_pos he, if_neg hk, Option.some_inj, div_div, div_eq_div_iff hnonzero.1 hnonzero.2]
      simp only [he.ne', hk, iff_self, true_and]
      rw [← mul_assoc]
      exact_mod_cast Iff.rfl

/-- As many sessions as visits are the visits, and the partitions start alike. -/
theorem Visits.of_length {V : List (List Event)} (hV : Visits rows V) (w : Windows rows) (h : w.groups.length = V.length) :
    Uniform w.label V ∧ w.StartsAlike := by
  have hfirst := w.firstOrder.groups_parts w.firstOrder_opensFirst
  have hcount : w.firstOrder.groups.length = count w.label rows := hfirst.1.length_eq_iff.mpr hfirst.2
  obtain ⟨hle, hiff⟩ := w.groups_length_iff
  have hparts := hV.parts w
  have hmost := hparts.length_le
  exact ⟨hparts.length_eq_iff.mp (by omega), hiff.mp (by omega)⟩

/-- Where a session begins with the first row of its instant, what is reported is what the contract has just where no gap under
30 minutes is 1800 whole seconds and the average is exact. -/
theorem report_iff {V : List (List Event)} (hV : Visits rows V) (w : Windows rows) (hw : w.OpensFirst) :
    rumSummary w = contract V ↔ NoCrossing rows ∧ AverageExact V := by
  have hreport (hu : Uniform w.label V) : rumSummary w = contract V ↔ AverageExact V := by
    have hrate : (if 0 < V.length then some ((V.countP (pv · = 1) : ℚ) / V.length) else none) =
        if V.length = 0 then none else some ((V.countP (pv · = 1) : ℚ) / V.length) := by
      split_ifs <;> first | rfl | omega
    have haverage := average_iff (engaged V).length (kept V).length (wholeSeconds (engaged V)) (lasting (kept V))
    unfold rumSummary contract
    rw [visitsSQL_eq w (hV.parts w) hu hw]
    simp only [Report.mk.injEq, hrate, length_kept, true_and]
    rw [← kept, sum_seconds, haverage, AverageExact]
  rw [← hV.uniform_iff w]
  constructor
  · intro h
    have hu := (hV.of_length w (congrArg Report.visits h)).1
    exact ⟨hu, (hreport hu).mp h⟩
  · rintro ⟨hu, haverage⟩
    exact (hreport hu).mpr haverage

/-- Where no two events of a visitor share an instant, every order has the sessions begin with the first row of it. -/
theorem Windows.opensFirst_of_nodup (w : Windows rows) (h : ∀ k, ((rows.filter (·.key = k)).map Event.ts).Nodup) : w.OpensFirst := by
  intro k
  have hperm := (w.second_events k).map Event.ts
  have hnodup := hperm.nodup_iff.mpr (h k)
  rw [List.map_map, List.nodup_iff_pairwise_ne, List.pairwise_map] at hnodup
  exact (w.second_sorted k).imp₂ (fun _ _ hle hne _ => lt_of_le_of_ne hle hne) hnodup

end

/-- The browser events in a range have their visits. What is reported is what the contract has of them only where no gap under 30
minutes is 1800 whole seconds and the partitions start alike in both orders. Where each session begins with the first row of
its instant, it is just where there is no such gap and the average is exact. -/
theorem rumSummary_iff (stored : List Event) (orgID property : String) (start stop : ℤ)
    (w : Windows (browserEvents orgID property start stop stored)) :
    (∃ V, Visits (browserEvents orgID property start stop stored) V) ∧
      ∀ V, Visits (browserEvents orgID property start stop stored) V →
        (rumSummary w = contract V → NoCrossing (browserEvents orgID property start stop stored) ∧ w.StartsAlike) ∧
        (w.OpensFirst →
          (rumSummary w = contract V ↔ NoCrossing (browserEvents orgID property start stop stored) ∧ AverageExact V)) := by
  refine ⟨exists_visits _, fun V hV => ⟨fun h => ?_, report_iff hV w⟩⟩
  obtain ⟨hu, hstarts⟩ := hV.of_length w (congrArg Report.visits h)
  exact ⟨(hV.uniform_iff w).mp hu, hstarts⟩

/-! ## Two runs -/

/-- The orders of rows that are in the order of time. -/
def Windows.ofSorted (rows : List Event) (h : rows.Pairwise (·.ts ≤ ·.ts)) : Windows rows where
  first k := rows.filter (·.key = k)
  first_perm _ := List.Perm.refl _
  first_sorted _ := h.filter _
  second k := gaps 0 (rows.filter (·.key = k))
  second_perm _ := List.Perm.refl _
  second_sorted _ := gaps_sorted 0 (h.filter _)

theorem sorted_of_equal {l : List Event} {t : ℤ} (h : ∀ e ∈ l, e.ts = t) : l.Pairwise (·.ts ≤ ·.ts) :=
  List.pairwise_of_forall_mem_list fun a ha b hb => ((h a ha).trans (h b hb).symm).le

theorem reverse_sorted {l : List Event} {t : ℤ} (h : ∀ e ∈ l, e.ts = t) : (gaps 0 l).reverse.Pairwise (·.1.ts ≤ ·.1.ts) := by
  refine List.pairwise_of_forall_mem_list fun x hx y hy => ?_
  rw [h x.1 (mem_of_mem_gaps (List.mem_reverse.mp hx)), h y.1 (mem_of_mem_gaps (List.mem_reverse.mp hy))]

/-- The second window goes through the rows of one instant the other way round. -/
def Windows.turned (rows : List Event) (t : ℤ) (h : ∀ e ∈ rows, e.ts = t) : Windows rows where
  first k := rows.filter (·.key = k)
  first_perm _ := List.Perm.refl _
  first_sorted _ := (sorted_of_equal h).filter _
  second k := (gaps 0 (rows.filter (·.key = k))).reverse
  second_perm _ := List.reverse_perm _
  second_sorted _ := reverse_sorted fun e he => h e (List.mem_of_mem_filter he)

def event (name : String) (ts : ℤ) : Event := ⟨"org-1", "prop-1", name, ts, "visitor"⟩

def landing : Event := event "page_view" 1700000000000

def pricing : Event := event "page_view" 1700000060000

def demo : Event := event "demo_start" 1700000000000

/-- The browser events of an org in a range of 2000 seconds. -/
abbrev inRange (stored : List Event) : List Event := browserEvents "org-1" "" 1699999000000000000 1700001000000000000 stored

theorem two_pages_reported : ∃ w : Windows (inRange [landing, pricing]),
    rumSummary w = contract [[landing, pricing]] := by
  have hrows : inRange [landing, pricing] = [landing, pricing] := by decide +kernel
  have hsorted : (inRange [landing, pricing]).Pairwise (·.ts ≤ ·.ts) := by
    rw [hrows]
    decide +kernel
  have hV : Visits (inRange [landing, pricing]) [[landing, pricing]] := by
    rw [hrows]
    exact ⟨List.Perm.refl _, by decide, by decide +kernel, by decide +kernel, List.pairwise_singleton _ _⟩
  have hopens : (Windows.ofSorted _ hsorted).OpensFirst := by
    apply Windows.opensFirst_of_nodup
    intro k
    have hall : ((inRange [landing, pricing]).map Event.ts).Nodup := by
      rw [hrows]
      decide +kernel
    exact hall.sublist (List.filter_sublist.map _)
  refine ⟨Windows.ofSorted _ hsorted, (((rumSummary_iff _ _ _ _ _ _).2 _ hV).2 hopens).mpr ⟨?_, ?_⟩⟩
  · intro k q e hn hfar
    have hq : q ∈ inRange [landing, pricing] := (List.mem_filter.mp hn.left).1
    have he : e ∈ inRange [landing, pricing] := (List.mem_filter.mp hn.right).1
    rw [hrows] at hq he
    have hnear : ∀ a ∈ [landing, pricing], ∀ b ∈ [landing, pricing], ¬1800 ≤ dateDiff a.ts b.ts := by decide +kernel
    exact absurd hfar (hnear q hq e he)
  · unfold AverageExact
    decide +kernel

theorem tied_instant : ∀ e ∈ inRange [landing, demo], e.ts = 1700000000000 := by decide +kernel

/-- A page view and a custom event of the same millisecond, one visit with one page view, are two visits where the second
window has the custom event first. -/
theorem tied_events_split : ∃ w : Windows (inRange [landing, demo]),
    Visits (inRange [landing, demo]) [[landing, demo]] ∧
      (contract [[landing, demo]]).visits = 1 ∧ (rumSummary w).visits = 2 ∧ rumSummary w ≠ contract [[landing, demo]] := by
  have hrows : inRange [landing, demo] = [landing, demo] := by decide +kernel
  have hV : Visits (inRange [landing, demo]) [[landing, demo]] := by
    rw [hrows]
    exact ⟨List.Perm.refl _, by decide, by decide +kernel, by decide +kernel, List.pairwise_singleton _ _⟩
  have htwo : (rumSummary (Windows.turned _ 1700000000000 tied_instant)).visits = 2 := by decide +kernel
  refine ⟨Windows.turned _ 1700000000000 tied_instant, hV, rfl, htwo, fun h => ?_⟩
  have hone : (rumSummary (Windows.turned _ 1700000000000 tied_instant)).visits = 1 := congrArg Report.visits h
  omega

end Upstat.VisitReports
