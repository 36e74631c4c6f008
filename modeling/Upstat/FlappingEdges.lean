import Upstat.NotifierRuns

/-! # The edges of the flapping window

A transition is counted before it is marked, and a report that is not published ends its
handling in between. Handled again, it is counted again. -/
namespace Upstat.FlappingEdges

open GuardedRuns AwaitedPrograms NotifierPrograms NotifierEffects NotifierOrdering NotifierRuns CommonDatabase
  MonitorMachine

/-- One counting of a transition between up and down. It is whole when all reports of
suppressed messages in that handling were published. -/
structure Count where
  id : TransitionId
  at_ : ℚ
  whole : Bool

structure Counted where
  run : Clocked
  counts : List Count

def start (clock : ℚ) : Counted := ⟨⟨clock, init⟩, []⟩

section Statement
variable (n : Notifier) (answer : ℕ → (c : Call) → Reply c)

/-- Every report of a suppressed message in the moment is published. -/
def reported (s : Clocked) (m : Moment) : Bool :=
  decide (∀ call ∈ (tick n answer s m).world.calls.drop s.world.calls.length, Reported call.1 call.2)

def isEdge (t : TransitionMsg) : Bool := (t.from_ = .up ∧ t.to_ = .down) ∨ (t.from_ = .down ∧ t.to_ = .up)

/-- The moment counts a transition that is not marked. -/
def counting (s : Clocked) (m : Moment) : List Count :=
  match m.happening with
  | .transition _ t => if isEdge t ∧ s.store.tx t.id = false then [⟨t.id, s.at m, reported n answer s m⟩] else []
  | _ => []

def handle (s : Counted) (m : Moment) : Counted := ⟨tick n answer s.run m, s.counts ++ counting n answer s.run m⟩

/-- The countings of the monitor's transitions in the thirty minutes before `now`. -/
def recent (monitor : String) (counts : List Count) (now : ℚ) : List Count :=
  counts.filter fun k => k.id.1 = monitor ∧ now - k.at_ ≤ flapWindowSeconds

/-- The edges stored are those of the transitions counted in the window, one for each, and
flapping was entered on seven distinct ones. -/
structure EdgeEach (monitor : String) (s : Counted) : Prop where
  edges : ∀ now, s.run.clock ≤ now →
    recentEdges (window s.run.store monitor).edges now = (recent monitor s.counts now).map Count.at_
  once : ∀ now, s.run.clock ≤ now → ((recent monitor s.counts now).map Count.id).Nodup
  entered : (window s.run.store monitor).on = true → ∃ (entry : ℚ) (ids : List TransitionId), ids.Nodup ∧
    flapEdges ≤ ids.length ∧ ∀ id ∈ ids, ∃ k ∈ recent monitor s.counts entry, k.id = id ∧ k.at_ ≤ entry

/-- No transition of the monitor between up and down is handled again while the edge of a
handling in which some report was not published is in the window. -/
def Fits (monitor : String) (s : Counted) (m : Moment) : Prop :=
  match m.happening with
  | .transition _ t => t.monitorId = monitor → isEdge t = true → s.run.store.tx t.id = false →
    ∀ k ∈ s.counts, k.id = t.id → k.whole = false → flapWindowSeconds < s.run.at m - k.at_
  | _ => True

instance (monitor : String) (s : Counted) : DecidablePred (Fits monitor s)
  | ⟨_, .transition _ t⟩ => inferInstanceAs (Decidable (t.monitorId = monitor → _ → _ → ∀ k ∈ s.counts, _))
  | ⟨_, .retry _ _⟩ | ⟨_, .sweep _ _⟩ | ⟨_, .renotify _ _⟩ | ⟨_, .verify _ _ _ _ _⟩ | ⟨_, .alert _ _ _ _ _⟩
  | ⟨_, .saved _ _⟩ => isTrue trivial

end Statement

variable {n : Notifier} {answer : ℕ → (c : Call) → Reply c} {monitor : String} {s : Counted}

/-! ## Windows of edges -/

theorem edgeOf_eq (t : TransitionMsg) (now : ℚ) : edgeOf t now = if isEdge t then [now] else [] := by
  simp [edgeOf, isEdge]

/-- What an earlier window left out, a later one leaves out as well. -/
theorem recentEdges_recentEdges (edges : List ℚ) {now later : ℚ} (h : now ≤ later) :
    recentEdges (recentEdges edges now) later = recentEdges edges later := by
  simp only [recentEdges, List.filter_filter]
  refine List.filter_congr fun t _ => ?_
  rw [Bool.and_eq_left_iff_imp]
  simp only [decide_eq_true_eq]
  intro hlater
  linarith

theorem recentEdges_append (edges edges' : List ℚ) (now : ℚ) :
    recentEdges (edges ++ edges') now = recentEdges edges now ++ recentEdges edges' now := List.filter_append ..

theorem recent_append (counts counts' : List Count) (now : ℚ) :
    recent monitor (counts ++ counts') now = recent monitor counts now ++ recent monitor counts' now :=
  List.filter_append ..

/-- The new counting is in the window when the transition's edge is. -/
theorem recent_counting (s : Clocked) {m : Moment} {c : Config} {t : TransitionMsg}
    (hm : m.happening = .transition c t) (htx : s.store.tx t.id = false) (now : ℚ) :
    (recent monitor (counting n answer s m) now).map Count.at_ =
      if t.monitorId = monitor then recentEdges (edgeOf t (s.at m)) now else [] := by
  simp only [counting, hm, htx, and_true, edgeOf_eq]
  have hid : t.id.1 = t.monitorId := rfl
  by_cases hedge : isEdge t = true
  · rw [if_pos hedge, if_pos hedge]
    by_cases hmon : t.monitorId = monitor
    · have hwin : (recent monitor [⟨t.id, s.at m, reported n answer s m⟩] now).map Count.at_ =
          if now - s.at m ≤ flapWindowSeconds then [s.at m] else [] := by
        simp only [recent, List.filter_cons, List.filter_nil, hid, hmon, true_and, decide_eq_true_eq]
        split <;> rfl
      rw [hwin, if_pos hmon, recentEdges]
      simp only [List.filter_cons, List.filter_nil, decide_eq_true_eq]
    · simp [recent, hid, hmon]
  · rw [if_neg hedge, if_neg hedge]
    split <;> rfl

/-! ## The invariant -/

structure Inv (monitor : String) (s : Counted) : Prop where
  past : ∀ k ∈ s.counts, k.at_ ≤ s.run.clock
  marked : ∀ k ∈ s.counts, k.whole = true → s.run.store.tx k.id = true
  spaced : s.counts.Pairwise fun k k' => k.id.1 = monitor → k.id = k'.id → flapWindowSeconds < k'.at_ - k.at_
  edges : ∀ now, s.run.clock ≤ now →
    recentEdges (window s.run.store monitor).edges now = (recent monitor s.counts now).map Count.at_
  entered : (window s.run.store monitor).on = true → ∃ (entry : ℚ) (ids : List TransitionId), ids.Nodup ∧
    flapEdges ≤ ids.length ∧ ∀ id ∈ ids, ∃ k ∈ recent monitor s.counts entry, k.id = id ∧ k.at_ ≤ entry

theorem inv_start (clock : ℚ) : Inv monitor (start clock) where
  past := by simp [start]
  marked := by simp [start]
  spaced := List.Pairwise.nil
  edges := fun now _ => rfl
  entered := fun h => by cases h

/-- Two countings of one transition are never in one window. -/
theorem nodup_recent {counts : List Count} {now : ℚ} (hpast : ∀ k ∈ counts, k.at_ ≤ now)
    (hspaced : counts.Pairwise fun k k' => k.id.1 = monitor → k.id = k'.id → flapWindowSeconds < k'.at_ - k.at_) :
    ((recent monitor counts now).map Count.id).Nodup := by
  have hpair : (recent monitor counts now).Pairwise fun k k' => k.id.1 = monitor → k.id = k'.id →
      flapWindowSeconds < k'.at_ - k.at_ := hspaced.filter _
  refine List.pairwise_map.mpr (hpair.imp_of_mem fun {k k'} hk hk' hsp hid => ?_)
  obtain ⟨-, hwindow⟩ := List.mem_filter.mp hk
  obtain ⟨hmem', -⟩ := List.mem_filter.mp hk'
  obtain ⟨hmon, hage⟩ := of_decide_eq_true hwindow
  have hgap := hsp hmon hid
  have hle := hpast k' hmem'
  linarith

theorem Inv.edgeEach (h : Inv monitor s) : EdgeEach monitor s where
  edges := h.edges
  once := fun _ hnow => nodup_recent (fun k hk => (h.past k hk).trans hnow) h.spaced
  entered := h.entered

/-- What a moment without a count leaves of the invariant. -/
theorem Inv.uncounted (h : Inv monitor s) {run : Clocked} (hclock : s.run.clock ≤ run.clock)
    (htx : ∀ id, s.run.store.tx id = true → run.store.tx id = true)
    (hedges : ∀ now, run.clock ≤ now →
      recentEdges (window run.store monitor).edges now = recentEdges (window s.run.store monitor).edges now)
    (hon : (window run.store monitor).on = true → (window s.run.store monitor).on = true) :
    Inv monitor ⟨run, s.counts⟩ where
  past := fun k hk => (h.past k hk).trans hclock
  marked := fun k hk hwhole => htx _ (h.marked k hk hwhole)
  spaced := h.spaced
  edges := fun now hnow => (hedges now hnow).trans (h.edges now (hclock.trans hnow))
  entered := fun h' => h.entered (hon h')

/-- A handling whose reports are all published ends with the mark. -/
theorem marked_of_reported {m : Moment} {c : Config} {t : TransitionMsg} (hm : m.happening = .transition c t)
    (htx : s.run.store.tx t.id = false) (hreported : reported n answer s.run m = true) :
    (tick n answer s.run m).store.tx t.id = true := by
  have hgood := of_decide_eq_true hreported
  have hstep := (transition_step n answer s.run.world c t (s.run.at m) htx).2
  simp only [tick, hm, Happening.at] at hgood ⊢
  have hends : ((onTransition n c t (s.run.at m)).run write answer s.run.world).1 ≠ none :=
    (safe_onTransition t).run_ne_none hgood
  rw [Clocked.store, hstep, if_neg hends, Function.update_self]

/-- A transition that is not marked. -/
theorem Inv.transition (h : Inv monitor s) {m : Moment} {c : Config} {t : TransitionMsg}
    (hm : m.happening = .transition c t) (htx : s.run.store.tx t.id = false) (hfits : Fits monitor s m) :
    Inv monitor (handle n answer s m) := by
  obtain ⟨hwindow, hmark⟩ := transition_step n answer s.run.world c t (s.run.at m) htx
  have hrun : tick n answer s.run m = ⟨s.run.at m, step n answer s.run.world (.transition c t (s.run.at m))⟩ := by
    simp [tick, hm, Happening.at]
  have hle : s.run.clock ≤ s.run.at m := s.run.le_at m
  have hnew : ∀ k ∈ counting n answer s.run m, k = ⟨t.id, s.run.at m, reported n answer s.run m⟩ ∧ isEdge t = true := by
    intro k hk
    simp only [counting, hm] at hk
    split at hk
    · next hedge => exact ⟨List.mem_singleton.mp hk, hedge.1⟩
    · cases hk
  have hmono : ∀ id, s.run.store.tx id = true → (tick n answer s.run m).store.tx id = true := by
    intro id hid
    rw [hrun, Clocked.store, hmark]
    split
    · exact hid
    · by_cases hsame : id = t.id
      · rw [hsame, Function.update_self]
      · rwa [Function.update_of_ne hsame]
  have hwin : window (tick n answer s.run m).store monitor =
      if t.monitorId = monitor then flapAfter (window s.run.store monitor) (edgeOf t (s.run.at m)) (s.run.at m)
      else window s.run.store monitor := by
    rw [hrun, Clocked.store, hwindow]
    split
    · next hid =>
      rw [← hid, Function.update_self]
      rfl
    · next hid => exact Function.update_of_ne (Ne.symm hid) _ _
  have hpast : ∀ k ∈ (handle n answer s m).counts, k.at_ ≤ s.run.at m := by
    intro k hk
    rcases List.mem_append.mp hk with hk | hk
    · exact (h.past k hk).trans hle
    · rw [(hnew k hk).1]
  have hspaced : (handle n answer s m).counts.Pairwise fun k k' =>
      k.id.1 = monitor → k.id = k'.id → flapWindowSeconds < k'.at_ - k.at_ := by
    have hsingle : (counting n answer s.run m).Pairwise fun k k' =>
        k.id.1 = monitor → k.id = k'.id → flapWindowSeconds < k'.at_ - k.at_ := by
      simp only [counting, hm]
      split
      · exact List.pairwise_singleton _ _
      · exact List.Pairwise.nil
    refine List.pairwise_append.mpr ⟨h.spaced, hsingle, fun k hk k' hk' hmon hid => ?_⟩
    obtain ⟨rfl, hedge⟩ := hnew k' hk'
    have hwhole : k.whole = false := by
      by_contra hne
      have := h.marked k hk (by simpa using hne)
      rw [hid, htx] at this
      cases this
    have hmonitor : t.monitorId = monitor := by rw [hid] at hmon; exact hmon
    simp only [Fits, hm] at hfits
    exact hfits hmonitor hedge htx k hk hid hwhole
  have hedges : ∀ now, s.run.at m ≤ now → recentEdges (window (tick n answer s.run m).store monitor).edges now =
      (recent monitor (handle n answer s m).counts now).map Count.at_ := by
    intro now hnow
    rw [hwin, handle, recent_append, List.map_append, ← h.edges now (hle.trans hnow), recent_counting s.run hm htx]
    split
    · rw [flapAfter, recentEdges_recentEdges _ hnow, recentEdges_append]
    · rw [List.append_nil]
  refine ⟨hpast, ?_, hspaced, hedges, fun hon => ?_⟩
  · intro k hk hwhole
    rcases List.mem_append.mp hk with hk | hk
    · exact hmono _ (h.marked k hk hwhole)
    · obtain ⟨rfl, -⟩ := hnew k hk
      exact marked_of_reported hm htx hwhole
  · by_cases hbefore : (window s.run.store monitor).on = true
    · obtain ⟨entry, ids, hnodup, hseven, hids⟩ := h.entered hbefore
      refine ⟨entry, ids, hnodup, hseven, fun id hid => ?_⟩
      obtain ⟨k, hk, hkid⟩ := hids id hid
      exact ⟨k, by rw [handle, recent_append]; exact List.mem_append_left _ hk, hkid⟩
    · -- Flapping is entered here, on the edges in the window of this moment.
      refine ⟨s.run.at m, (recent monitor (handle n answer s m).counts (s.run.at m)).map Count.id,
        nodup_recent hpast hspaced, ?_, fun id hid => ?_⟩
      · have hon' : (window (tick n answer s.run m).store monitor).on = true := hon
        have hlen := congrArg List.length (hedges (s.run.at m) le_rfl)
        rw [List.length_map] at hlen ⊢
        rw [← hlen]
        rw [hwin] at hon' ⊢
        split at hon'
        · next hid =>
          rw [if_pos hid, flapAfter, recentEdges_recentEdges _ le_rfl]
          simpa [flapAfter, hbefore] using hon'
        · exact absurd hon' hbefore
      · obtain ⟨k, hk, rfl⟩ := List.mem_map.mp hid
        exact ⟨k, hk, rfl, hpast k (List.mem_filter.mp hk).1⟩

theorem inv_handle (h : Inv monitor s) {m : Moment} (hfits : Fits monitor s m) : Inv monitor (handle n answer s m) := by
  have hle := s.run.le_at m
  obtain ⟨delay, happening⟩ := m
  -- A moment that counts nothing and keeps both marks and window.
  have aside : ∀ (hnone : counting n answer s.run ⟨delay, happening⟩ = [])
      (hstep : window (tick n answer s.run ⟨delay, happening⟩).store = window s.run.store ∧
        (tick n answer s.run ⟨delay, happening⟩).store.tx = s.run.store.tx),
      Inv monitor (handle n answer s ⟨delay, happening⟩) := by
    intro hnone hstep
    rw [handle, hnone, List.append_nil]
    exact h.uncounted hle (fun id hid => by rwa [hstep.2]) (fun now _ => by rw [hstep.1]) fun hon => by rwa [hstep.1] at hon
  cases happening with
  | transition c t =>
    cases htx : s.run.store.tx t.id with
    | true => exact aside (by simp [counting, htx]) (marked_step n answer s.run.world c t _ htx)
    | false => exact h.transition rfl htx hfits
  | sweep c m =>
    obtain ⟨hwindow, hmark⟩ := sweep_step n answer s.run.world c m (s.run.at ⟨delay, .sweep c m⟩)
    have hwin : window (tick n answer s.run ⟨delay, .sweep c m⟩).store =
        Function.update (window s.run.store) m (flapSwept (window s.run.store m) (s.run.at ⟨delay, .sweep c m⟩)) := hwindow
    have hnone : handle n answer s ⟨delay, .sweep c m⟩ = ⟨tick n answer s.run ⟨delay, .sweep c m⟩, s.counts⟩ := by
      rw [handle, counting, List.append_nil]
    rw [hnone]
    refine h.uncounted hle (fun id hid => hmark ▸ hid) (fun now hnow => ?_) fun hon => ?_
    · rw [hwin]
      by_cases hm : monitor = m
      · subst hm
        rw [Function.update_self, flapSwept]
        split
        · exact recentEdges_recentEdges _ hnow
        · rfl
      · rw [Function.update_of_ne hm]
    · rw [hwin] at hon
      by_cases hm : monitor = m
      · subst hm
        rw [Function.update_self, flapSwept] at hon
        split at hon
        · cases hon
        · exact hon
      · rwa [Function.update_of_ne hm] at hon
  | _ => exact aside rfl (besides_step n answer s.run.world rfl _)

/-- In every run whose moments all fit, each transition contributes at most one edge to the
window, and flapping is entered on seven transitions. -/
theorem each_edge_once (n : Notifier) (answer : ℕ → (c : Call) → Reply c) (monitor : String) (clock : ℚ)
    (ms : List Moment) (h : Meets (handle n answer) (Fits monitor) (start clock) ms) :
    Throughout (handle n answer) (EdgeEach monitor) (start clock) ms :=
  (h.throughout (fun _ _ hs hm => inv_handle hs hm) (inv_start clock)).imp fun _ hs => hs.edgeEach

/-! ## A report that is not published -/

/-- The monitor is muted, so its messages are only reported. -/
def mutedHomepage : Config :=
  { homepage with monitors := [{ id := "m", name := "Homepage", target := "https://example.com", orgId := "o", muted := true }] }

/-- The monitor goes down, or its handling is repeated. -/
def goesDownAfter (delay : ℚ≥0) : Moment :=
  ⟨delay, .transition mutedHomepage ⟨"m", "o", 1, .up, .down, "timeout", 0, [], 3⟩⟩

/-- Every publish succeeds but the one that is call number `k`. -/
def unpublished (k n : ℕ) : (c : Call) → Reply c
  | .publish _ _ => decide (n ≠ k)
  | .deliver _ _ _ _ _ => { delivered := true }

/-- Repeated once the first edge has left the window, the transition has one edge. -/
theorem repeated_later_each_once :
    Meets (handle plain (unpublished 0)) (Fits "m") (start 0) [goesDownAfter 0, goesDownAfter 1860] ∧
      Throughout (handle plain (unpublished 0)) (EdgeEach "m") (start 0) [goesDownAfter 0, goesDownAfter 1860] := by
  have fits : Meets (handle plain (unpublished 0)) (Fits "m") (start 0) [goesDownAfter 0, goesDownAfter 1860] := by
    decide +kernel
  exact ⟨fits, each_edge_once plain (unpublished 0) "m" 0 _ fits⟩

theorem repeated_at_once_twice :
    ¬Throughout (handle plain (unpublished 0)) (EdgeEach "m") (start 0) [goesDownAfter 0, goesDownAfter 1] := by
  intro h
  have honce := h.2.2.once 1 (by decide +kernel)
  have hids : ((recent "m" (handle plain (unpublished 0) (handle plain (unpublished 0) (start 0) (goesDownAfter 0))
      (goesDownAfter 1)).counts 1).map Count.id) = [("m", 1), ("m", 1)] := by decide +kernel
  rw [hids] at honce
  exact absurd honce (by decide)

end Upstat.FlappingEdges
