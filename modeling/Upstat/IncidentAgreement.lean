import Mathlib.Data.List.Induction
import Upstat.GuardedRuns
import Upstat.TransitionConsumer

/-! # The auto-incident against the stored status

The transitions of one monitor reach `onTransition` in any order, more than once, among
those of other monitors. The status follows the highest number, the incident whatever
came last, and this module says exactly when the two end up agreeing. -/
namespace Upstat.IncidentAgreement

open GuardedRuns MonitorMachine CommonDatabase TransitionConsumer

/-- What a message says of the decision behind it. -/
def transitionOf (m : TransitionMsg) : Transition := ⟨m.from_, m.to_, m.cause, m.consecutiveFailures, m.seq⟩

/-- A monitor as it was created, in a database with anything else in it, and all the
transitions the evaluator decided about it, oldest first. -/
structure History where
  monitor : String
  org : String
  db : Db
  row : MonitorRow
  row_eq : db.monitors monitor = some row
  row_org : row.orgId = org
  active : row.active = true
  pending : row.status = .pending
  seq_zero : row.lastTransitionSeq = 0
  unrecorded : ∀ m ∈ db.transitions, m.monitorId ≠ monitor
  none_open : hasOpen db monitor = false
  inputs : List Input
  msgs : List TransitionMsg
  decided : msgs.map transitionOf = decisions {} inputs
  msgs_of : ∀ m ∈ msgs, m.monitorId = monitor ∧ m.orgId = org

/-- Deliveries, each at its time, with every transition of the monitor among them. -/
structure Deliveries (h : History) where
  list : List (ℚ × TransitionMsg)
  sound : ∀ d ∈ list, d.2.monitorId = h.monitor → d.2 ∈ h.msgs
  complete : ∀ m ∈ h.msgs, ∃ d ∈ list, d.2 = m

/-- The monitor's messages, in the order they were delivered. -/
def about (monitor : String) (ds : List (ℚ × TransitionMsg)) : List TransitionMsg :=
  (ds.map Prod.snd).filter (·.monitorId = monitor)

/-- An open auto-incident stands exactly when the stored status is down. -/
def Agrees (monitor : String) (db : Db) : Prop :=
  hasOpen db monitor = true ↔ (db.monitors monitor).map MonitorRow.status = some .down

/-- A transition the status update declines neither opens an incident nor closes one. -/
def DeclinedKeeps (monitor : String) (db : Db) (d : ℚ × TransitionMsg) : Prop :=
  d.2.monitorId = monitor → applies db d.2 = false → hasOpen (deliver db d) monitor = hasOpen db monitor

/-- Of the messages in delivery order: one that comes for the first time, after a higher
number, and opens or closes, does what the last first-time one that opens or closes did.
`seen` were delivered before, `last` is whether that last one opened. -/
def LateAgrees (seen : List TransitionMsg) (last : Bool) : List TransitionMsg → Prop
  | [] => True
  | m :: ms =>
    if m ∈ seen then LateAgrees seen last ms
    else ((∃ m' ∈ seen, m.seq < m'.seq) → ∀ dir, direction m = some dir → dir = last) ∧
      LateAgrees (m :: seen) ((direction m).getD last) ms

/-- What the last of the first-time messages that open or close did. -/
def opened (seen : List TransitionMsg) (last : Bool) : List TransitionMsg → Bool
  | [] => last
  | m :: ms => if m ∈ seen then opened seen last ms else opened (m :: seen) ((direction m).getD last) ms

/-! ## The history in its own order -/

theorem chain_lt {s : Status} {n : ℕ} {ms : List TransitionMsg} (h : Chain s n (ms.map transitionOf)) :
    ∀ m ∈ ms, n < m.seq := by
  induction ms generalizing s n with
  | nil => simp
  | cons m ms ih =>
    obtain ⟨-, hseq, -, -, -, hrest⟩ := h
    intro m' hm'
    have hm : m.seq = n + 1 := hseq
    rcases List.mem_cons.mp hm' with rfl | hm'
    · omega
    · have hlt : m.seq < m'.seq := ih hrest m' hm'
      omega

theorem chain_pairwise {s : Status} {n : ℕ} {ms : List TransitionMsg} (h : Chain s n (ms.map transitionOf)) :
    ms.Pairwise fun a b => a.seq < b.seq := by
  induction ms generalizing s n with
  | nil => exact List.Pairwise.nil
  | cons m ms ih =>
    obtain ⟨-, -, -, -, -, hrest⟩ := h
    exact List.pairwise_cons.mpr ⟨chain_lt hrest, ih hrest⟩

/-- In their own order the openings and closings follow the status. -/
theorem chain_direction {s : Status} {n : ℕ} {ms : List TransitionMsg} (h : Chain s n (ms.map transitionOf)) :
    ms.foldl (fun b m => (direction m).getD b) (decide (s = .down)) =
      decide (ms.foldl (fun _ m => m.to_) s = .down) := by
  induction ms generalizing s n with
  | nil => rfl
  | cons m ms ih =>
    obtain ⟨hfrom, -, hne, hmem, hnodata, hrest⟩ := h
    have hfrom : m.from_ = s := hfrom
    have hstep : (direction m).getD (decide (s = .down)) = decide (m.to_ = .down) := by
      rw [← hfrom]
      simp only [transitionOf, List.mem_cons, List.not_mem_nil, or_false] at hmem hnodata hne
      rcases hmem with hto | hto | hto
      · by_cases hd : m.from_ = .down <;> simp [direction, hto, hd]
      · simp [direction, hto]
      · simp [direction, hto, hnodata hto]
    simp only [List.foldl_cons, hstep]
    exact ih hrest

/-- The last message that opens or closes settles the fold. -/
theorem exists_last_direction (ms : List TransitionMsg) (b : Bool) :
    ((∀ m ∈ ms, direction m = none) ∧ ms.foldl (fun b m => (direction m).getD b) b = b) ∨
      ∃ as k bs dir, ms = as ++ k :: bs ∧ direction k = some dir ∧ (∀ m ∈ bs, direction m = none) ∧
        ms.foldl (fun b m => (direction m).getD b) b = dir := by
  induction ms using List.reverseRecOn with
  | nil => exact .inl ⟨by simp, rfl⟩
  | append_singleton ms m ih =>
    simp only [List.foldl_append, List.foldl_cons, List.foldl_nil]
    cases hm : direction m with
    | some dir => exact .inr ⟨ms, m, [], dir, rfl, hm, by simp, rfl⟩
    | none =>
      rcases ih with ⟨hnone, hfold⟩ | ⟨as, k, bs, dir, rfl, hk, hbs, hfold⟩
      · refine .inl ⟨fun m' hm' => ?_, by simpa using hfold⟩
        rcases List.mem_append.mp hm' with h | h
        · exact hnone m' h
        · exact List.mem_singleton.mp h ▸ hm
      · refine .inr ⟨as, k, bs ++ [m], dir, by simp, hk, fun m' hm' => ?_, by simpa using hfold⟩
        rcases List.mem_append.mp hm' with h | h
        · exact hbs m' h
        · exact List.mem_singleton.mp h ▸ hm

namespace History

variable (h : History)

theorem chain : Chain .pending 0 (h.msgs.map transitionOf) := h.decided ▸ chain_decisions {} h.inputs

theorem eq_of_seq {m m' : TransitionMsg} (hm : m ∈ h.msgs) (hm' : m' ∈ h.msgs) (hseq : m.seq = m'.seq) : m = m' := by
  have hnodup : (h.msgs.map TransitionMsg.seq).Nodup :=
    List.pairwise_map.mpr ((chain_pairwise h.chain).imp fun hlt => hlt.ne)
  exact List.inj_on_of_nodup_map hnodup hm hm' hseq

theorem seq_pos {m : TransitionMsg} (hm : m ∈ h.msgs) : 0 < m.seq := chain_lt h.chain m hm

end History

/-! ## What is left open, of the delivery order alone -/

theorem opened_of_none {ms : List TransitionMsg} (hnone : ∀ m ∈ ms, direction m = none)
    (seen : List TransitionMsg) (last : Bool) : opened seen last ms = last := by
  induction ms generalizing seen with
  | nil => rfl
  | cons m ms ih =>
    have hms : ∀ m' ∈ ms, direction m' = none := fun m' hm' => hnone m' (by simp [hm'])
    simp only [opened, hnone m (by simp), Option.getD_none, ih hms, ite_self]

/-- Once the last number that opens or closes has come, nothing late changes what is open. -/
theorem opened_after {k : TransitionMsg} {ms : List TransitionMsg}
    (htop : ∀ m ∈ ms, direction m ≠ none → m ≠ k → m.seq < k.seq) {seen : List TransitionMsg} (hk : k ∈ seen)
    {last : Bool} (hlate : LateAgrees seen last ms) : opened seen last ms = last := by
  induction ms generalizing seen last with
  | nil => rfl
  | cons m ms ih =>
    have hms : ∀ m' ∈ ms, direction m' ≠ none → m' ≠ k → m'.seq < k.seq := fun m' hm' => htop m' (by simp [hm'])
    unfold LateAgrees at hlate
    unfold opened
    split at hlate
    · next hseen =>
      rw [if_pos hseen]
      exact ih hms hk hlate
    · next hseen =>
      rw [if_neg hseen, ih hms (by simp [hk]) hlate.2]
      cases hdir : direction m with
      | none => rfl
      | some dir =>
        have hne : m ≠ k := fun he => hseen (he ▸ hk)
        exact hlate.1 ⟨k, hk, htop m (by simp) (by simp [hdir]) hne⟩ dir hdir

theorem opened_eq {k : TransitionMsg} {dir : Bool} (hdir : direction k = some dir) {ms : List TransitionMsg}
    (htop : ∀ m ∈ ms, direction m ≠ none → m ≠ k → m.seq < k.seq) (hmem : k ∈ ms) {seen : List TransitionMsg}
    (hk : k ∉ seen) {last : Bool} (hlate : LateAgrees seen last ms) : opened seen last ms = dir := by
  induction ms generalizing seen last with
  | nil => cases hmem
  | cons m ms ih =>
    have hms : ∀ m' ∈ ms, direction m' ≠ none → m' ≠ k → m'.seq < k.seq := fun m' hm' => htop m' (by simp [hm'])
    unfold LateAgrees at hlate
    unfold opened
    split at hlate
    · next hseen =>
      have hne : k ≠ m := fun he => hk (he ▸ hseen)
      rw [if_pos hseen]
      exact ih hms (by simpa [hne] using hmem) hk hlate
    · next hseen =>
      rw [if_neg hseen]
      by_cases he : k = m
      · subst he
        rw [opened_after hms (by simp) hlate.2, hdir]
        rfl
      · exact ih hms (by simpa [he] using hmem) (by simp [he, hk]) hlate.2

/-! ## The database after some deliveries -/

/-- What the database holds of the monitor when `seen` have been handled, `last` opened or
closed. -/
structure Holds (h : History) (db : Db) (seen : List TransitionMsg) (last : Bool) : Prop where
  subset : ∀ m ∈ seen, m ∈ h.msgs
  recorded : ∀ m ∈ h.msgs, (recorded db m = true ↔ m ∈ seen)
  row : ∃ r, db.monitors h.monitor = some r ∧ r.orgId = h.org ∧ r.active = true ∧
    (∀ m ∈ seen, m.seq ≤ r.lastTransitionSeq) ∧
    ((seen = [] ∧ r.lastTransitionSeq = 0 ∧ r.status = .pending) ∨
      ∃ m ∈ seen, m.seq = r.lastTransitionSeq ∧ m.to_ = r.status)
  isOpen : hasOpen db h.monitor = last

theorem holds_start (h : History) : Holds h h.db [] false where
  subset := by simp
  recorded := fun m hm => by
    have hmon := (h.msgs_of m hm).1
    simp only [CommonDatabase.recorded, TransitionMsg.id, Prod.mk.injEq, List.any_eq_true, decide_eq_true_eq,
      List.not_mem_nil, iff_false]
    rintro ⟨r, hr, ⟨hid, -⟩ | ⟨hid, -⟩⟩ <;> exact h.unrecorded r hr (hid.trans hmon)
  row := ⟨h.row, h.row_eq, h.row_org, h.active, by simp, .inl ⟨rfl, h.seq_zero, h.pending⟩⟩
  isOpen := h.none_open

/-- Another monitor's transition leaves all of it alone. -/
theorem holds_other {h : History} {db : Db} {seen : List TransitionMsg} {last : Bool} (hh : Holds h db seen last)
    {d : ℚ × TransitionMsg} (hd : d.2.monitorId ≠ h.monitor) : Holds h (deliver db d) seen last := by
  have hspec := handled_deliver db d
  refine ⟨hh.subset, fun m hm => ?_, ?_, ?_⟩
  · have hmon := (h.msgs_of m hm).1
    rw [← hh.recorded m hm]
    simp only [CommonDatabase.recorded, hspec.transitions]
    split
    · simp [TransitionMsg.id, hmon, hd]
    · simp
  · have hrow : (deliver db d).monitors h.monitor = db.monitors h.monitor := by
      rw [hspec.monitors]
      split
      · exact Function.update_of_ne (Ne.symm hd) _ _
      · rfl
    rw [hrow]
    exact hh.row
  · rw [hspec.hasOpen, if_neg (by simp [Ne.symm hd]), hh.isOpen]

/-- A transition of the monitor that was handled before changes nothing of it. -/
theorem holds_again {h : History} {db : Db} {seen : List TransitionMsg} {last : Bool} (hh : Holds h db seen last)
    {d : ℚ × TransitionMsg} (hd : d.2 ∈ seen) : Holds h (deliver db d) seen last := by
  have hspec := handled_deliver db d
  have hfresh : fresh db d.2 = false := by simp [fresh, (hh.recorded _ (hh.subset _ hd)).mpr hd]
  have hmonitors : (deliver db d).monitors = db.monitors := by simp [hspec.monitors, hfresh]
  have htransitions : (deliver db d).transitions = db.transitions := by simp [hspec.transitions, hfresh]
  refine ⟨hh.subset, fun m hm => ?_, hmonitors ▸ hh.row, ?_⟩
  · simp only [CommonDatabase.recorded, htransitions]
    exact hh.recorded m hm
  · rw [hspec.hasOpen, if_neg (by simp [hfresh]), hh.isOpen]

/-- The first time, the status moves unless a higher number came before, and what is open
moves in any case. -/
theorem holds_first {h : History} {db : Db} {seen : List TransitionMsg} {last : Bool} (hh : Holds h db seen last)
    {d : ℚ × TransitionMsg} (hd : d.2 ∈ h.msgs) (hnew : d.2 ∉ seen) :
    Holds h (deliver db d) (d.2 :: seen) ((direction d.2).getD last) ∧
      (applies db d.2 = false ↔ ∃ m' ∈ seen, d.2.seq < m'.seq) := by
  have hspec := handled_deliver db d
  obtain ⟨hmon, horg⟩ := h.msgs_of _ hd
  obtain ⟨r, hr, hrorg, hractive, htop, hstatus⟩ := hh.row
  have hfresh : fresh db d.2 = true := by
    have hrec : CommonDatabase.recorded db d.2 = false := by simpa [hnew] using hh.recorded _ hd
    simp [fresh, known, hmon, hr, hrorg, horg, hrec]
  have happlies : applies db d.2 = decide (r.lastTransitionSeq < d.2.seq) := by
    simp [applies, hmon, hr, hractive]
  have hlate : applies db d.2 = false ↔ ∃ m' ∈ seen, d.2.seq < m'.seq := by
    rw [happlies, decide_eq_false_iff_not, not_lt]
    constructor
    · intro hle
      rcases hstatus with ⟨rfl, hzero, -⟩ | ⟨m', hm', hseq, -⟩
      · have := h.seq_pos hd
        omega
      · have hne : d.2.seq ≠ m'.seq := fun he => hnew (h.eq_of_seq hd (hh.subset _ hm') he ▸ hm')
        exact ⟨m', hm', by omega⟩
    · rintro ⟨m', hm', hlt⟩
      exact (hlt.le).trans (htop m' hm')
  refine ⟨⟨fun m hm => ?_, fun m hm => ?_, ?_, ?_⟩, hlate⟩
  · rcases List.mem_cons.mp hm with rfl | hm
    · exact hd
    · exact hh.subset m hm
  · have hold := hh.recorded m hm
    simp only [CommonDatabase.recorded] at hold
    have hself : (d.2.id = m.id ∨ d.2.monitorId = m.monitorId ∧ d.2.seq = m.seq) ↔ m = d.2 := by
      constructor
      · rintro (hid | ⟨-, hseq⟩)
        · exact h.eq_of_seq hm hd (Prod.mk.inj hid).2.symm
        · exact h.eq_of_seq hm hd hseq.symm
      · rintro rfl
        exact .inl rfl
    simp only [CommonDatabase.recorded, hspec.transitions, hfresh, if_true, List.any_append, Bool.or_eq_true, hold,
      List.any_cons, List.any_nil, Bool.or_false, decide_eq_true_eq, hself, List.mem_cons]
    exact or_comm
  · by_cases ha : r.lastTransitionSeq < d.2.seq
    · refine ⟨applied d.2 r, ?_, hrorg, hractive, fun m hm => ?_, .inr ⟨d.2, by simp, rfl, rfl⟩⟩
      · rw [hspec.monitors, if_pos ⟨hfresh, by simp [happlies, ha]⟩, applyTo, hmon, Function.update_self, hr]
        rfl
      · rcases List.mem_cons.mp hm with rfl | hm
        · exact le_rfl
        · exact (htop m hm).trans ha.le
    · refine ⟨r, ?_, hrorg, hractive, fun m hm => ?_, ?_⟩
      · rw [hspec.monitors, if_neg (by simp [happlies, ha])]
        exact hr
      · rcases List.mem_cons.mp hm with rfl | hm
        · exact not_lt.mp ha
        · exact htop m hm
      · rcases hstatus with ⟨rfl, hzero, -⟩ | ⟨m', hm', he⟩
        · exact absurd (h.seq_pos hd) (by omega)
        · exact .inr ⟨m', by simp [hm'], he⟩
  · rw [hspec.hasOpen, if_pos ⟨hfresh, hmon.symm⟩, hh.isOpen]

/-! ## Whole deliveries -/

theorem holds_run {h : History} {ds : List (ℚ × TransitionMsg)}
    (hsound : ∀ d ∈ ds, d.2.monitorId = h.monitor → d.2 ∈ h.msgs) {db : Db} {seen : List TransitionMsg} {last : Bool}
    (hh : Holds h db seen last) :
    (∃ seen', Holds h (run deliver db ds) seen' (opened seen last (about h.monitor ds)) ∧
      ∀ m, m ∈ seen ∨ m ∈ about h.monitor ds → m ∈ seen') ∧
    (Meets deliver (DeclinedKeeps h.monitor) db ds ↔ LateAgrees seen last (about h.monitor ds)) := by
  induction ds generalizing db seen last with
  | nil => exact ⟨⟨seen, hh, by simp [about]⟩, by simp [about, LateAgrees]⟩
  | cons d ds ih =>
    have hds : ∀ d' ∈ ds, d'.2.monitorId = h.monitor → d'.2 ∈ h.msgs := fun d' hd' => hsound d' (by simp [hd'])
    rw [run_cons, meets_cons]
    by_cases hmon : d.2.monitorId = h.monitor
    · have habout : about h.monitor (d :: ds) = d.2 :: about h.monitor ds := by simp [about, hmon]
      rw [habout, LateAgrees, opened]
      by_cases hseen : d.2 ∈ seen
      · have hagain := holds_again hh hseen
        obtain ⟨⟨seen', hrun, hall⟩, hmeets⟩ := ih hds hagain
        rw [if_pos hseen, if_pos hseen]
        refine ⟨⟨seen', hrun, fun m hm => ?_⟩, ?_⟩
        · rcases hm with hm | hm
          · exact hall m (.inl hm)
          · rcases List.mem_cons.mp hm with rfl | hm
            · exact hall _ (.inl hseen)
            · exact hall m (.inr hm)
        · rw [← hmeets, and_iff_right]
          intro _ _
          rw [hagain.isOpen, hh.isOpen]
      · obtain ⟨hfirst, hlate⟩ := holds_first hh (hsound d (by simp) hmon) hseen
        obtain ⟨⟨seen', hrun, hall⟩, hmeets⟩ := ih hds hfirst
        rw [if_neg hseen, if_neg hseen]
        refine ⟨⟨seen', hrun, fun m hm => ?_⟩, ?_⟩
        · rcases hm with hm | hm
          · exact hall m (.inl (by simp [hm]))
          · rcases List.mem_cons.mp hm with rfl | hm
            · exact hall _ (.inl (by simp))
            · exact hall m (.inr hm)
        · rw [hmeets]
          refine and_congr_left fun _ => ?_
          -- Declined is late, and what is open stays where the direction is the last one.
          rw [DeclinedKeeps, hlate, hfirst.isOpen, hh.isOpen]
          constructor
          · intro hkeep hm' dir hdir
            simpa [hdir] using hkeep hmon hm'
          · intro hkeep _ hm'
            cases hdir : direction d.2 with
            | none => rfl
            | some dir => exact hkeep hm' dir hdir
    · have habout : about h.monitor (d :: ds) = about h.monitor ds := by simp [about, hmon]
      obtain ⟨hrun, hmeets⟩ := ih hds (holds_other hh hmon)
      rw [habout]
      exact ⟨hrun, by rw [← hmeets]; exact and_iff_right fun he => absurd he hmon⟩

theorem mem_about {h : History} {ds : Deliveries h} {m : TransitionMsg} (hm : m ∈ h.msgs) :
    m ∈ about h.monitor ds.list := by
  obtain ⟨d, hd, rfl⟩ := ds.complete m hm
  simp only [about, List.mem_filter, List.mem_map, decide_eq_true_eq]
  exact ⟨⟨d, hd, rfl⟩, (h.msgs_of _ hm).1⟩

/-- What is left open is what the transitions, in their own order, leave. -/
theorem opened_about {h : History} {ds : Deliveries h} (hlate : LateAgrees [] false (about h.monitor ds.list)) :
    opened [] false (about h.monitor ds.list) = decide (h.msgs.foldl (fun _ m => m.to_) .pending = .down) := by
  have hsub : ∀ m ∈ about h.monitor ds.list, m ∈ h.msgs := fun m hm => by
    simp only [about, List.mem_filter, List.mem_map, decide_eq_true_eq] at hm
    obtain ⟨⟨d, hd, rfl⟩, hmon⟩ := hm
    exact ds.sound d hd hmon
  rw [← chain_direction h.chain]
  rcases exists_last_direction h.msgs (decide (Status.pending = .down)) with
    ⟨hnone, hfold⟩ | ⟨as, k, bs, dir, hmsgs, hk, hbs, hfold⟩
  · rw [hfold, opened_of_none fun m hm => hnone m (hsub m hm)]
    rfl
  · rw [hfold]
    refine opened_eq hk (fun m hm hdir hne => ?_) (mem_about (by simp [hmsgs])) (by simp) hlate
    -- What opens or closes comes no later than `k` in the history.
    have hpair := hmsgs ▸ chain_pairwise h.chain
    have hm := hmsgs ▸ hsub m hm
    simp only [List.mem_append, List.mem_cons] at hm
    rcases hm with hm | hm | hm
    · exact (List.pairwise_append.mp hpair).2.2 m hm k (by simp)
    · exact absurd hm hne
    · exact absurd (hbs m hm) hdir

/-- The status is the last transition's, once all were handled. -/
theorem status_final {h : History} {db : Db} {seen : List TransitionMsg} {last : Bool} (hh : Holds h db seen last)
    (hall : ∀ m ∈ h.msgs, m ∈ seen) :
    (db.monitors h.monitor).map MonitorRow.status = some (h.msgs.foldl (fun _ m => m.to_) .pending) := by
  obtain ⟨r, hr, -, -, htop, hstatus⟩ := hh.row
  rw [hr, Option.map_some]
  congr 1
  rcases hstatus with ⟨hnil, -, hpending⟩ | ⟨m, hm, hseq, hto⟩
  · have : h.msgs = [] := List.eq_nil_iff_forall_not_mem.mpr fun m hm => by simpa [hnil] using hall m hm
    rw [this, hpending]
    rfl
  · rcases List.eq_nil_or_concat h.msgs with hnil | ⟨ms, k, hmsgs⟩
    · simpa [hnil] using hh.subset m hm
    · have hk : k ∈ h.msgs := by simp [hmsgs]
      have hle := htop k (hall k hk)
      have heq : m = k := by
        have hm' := hh.subset m hm
        rw [hmsgs, List.concat_eq_append, List.mem_append, List.mem_singleton] at hm'
        rcases hm' with hm' | hm'
        · have hpair := chain_pairwise h.chain
          rw [hmsgs, List.concat_eq_append] at hpair
          have hlt := (List.pairwise_append.mp hpair).2.2 m hm' k (by simp)
          omega
        · exact hm'
      rw [hmsgs, List.concat_eq_append, List.foldl_append, ← hto, heq]
      rfl

theorem agrees_of_late {h : History} {ds : Deliveries h} (hlate : LateAgrees [] false (about h.monitor ds.list)) :
    Agrees h.monitor (run deliver h.db ds.list) := by
  obtain ⟨⟨seen, hh, hall⟩, -⟩ := holds_run ds.sound (holds_start h)
  rw [Agrees, status_final hh fun m hm => hall m (.inr (mem_about hm)), hh.isOpen, opened_about hlate]
  simp

theorem incidents_agree_iff (h : History) (ds : Deliveries h) :
    Agrees h.monitor (run deliver h.db ds.list) ∧ Meets deliver (DeclinedKeeps h.monitor) h.db ds.list ↔
      LateAgrees [] false (about h.monitor ds.list) := by
  have hmeets := (holds_run ds.sound (holds_start h)).2
  constructor
  · rintro ⟨-, hkeeps⟩
    exact hmeets.mp hkeeps
  · intro hlate
    exact ⟨agrees_of_late hlate, hmeets.mpr hlate⟩

/-! ## A down that comes late -/

def homepage : MonitorRow := ⟨"m", "o", "home", true, .pending, 60, 1, 1, 0, 0⟩

def created : Db where
  monitors := fun id => if id = "m" then some homepage else none
  transitions := []
  incidents := noIncidents
  timeline := []

def wentDown : TransitionMsg := ⟨"m", "o", 1, .pending, .down, "timeout", 60, [("eu", false)], 1⟩

def recovered : TransitionMsg := ⟨"m", "o", 2, .down, .up, "", 120, [("eu", true)], 0⟩

/-- One failed tick at threshold one, then a pass. -/
def downAndUp : History where
  monitor := "m"
  org := "o"
  db := created
  row := homepage
  row_eq := rfl
  row_org := rfl
  active := rfl
  pending := rfl
  seq_zero := rfl
  unrecorded := List.forall_mem_nil _
  none_open := rfl
  inputs := [.tick ⟨[("eu", false)], "timeout", 60⟩ 1 1, .tick ⟨[("eu", true)], "", 120⟩ 1 1]
  msgs := [wentDown, recovered]
  decided := by decide +kernel
  msgs_of := by decide

/-- The recovery first: the publish of the down failed, and the next pass repeats it. -/
def recoveryFirst : Deliveries downAndUp where
  list := [(130, recovered), (140, wentDown)]
  sound := by decide
  complete := by decide +kernel

/-- The monitor ends up, with an incident no transition is left to close. -/
theorem recoveryFirst_leaves_open :
    ¬Agrees "m" (run deliver created recoveryFirst.list) := by
  have hopen : hasOpen (run deliver created recoveryFirst.list) "m" = true := by decide +kernel
  have hup : ((run deliver created recoveryFirst.list).monitors "m").map MonitorRow.status = some .up := by
    decide +kernel
  rw [Agrees, hopen, hup]
  simp

end Upstat.IncidentAgreement
