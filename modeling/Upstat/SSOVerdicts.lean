import Mathlib.Data.Int.Order.Basic
import Mathlib.Data.List.Induction
import Mathlib.Data.List.Nodup
import Upstat.SSOLimiters

/-! # The two limiters answer alike

Both limiters keep of the starts they have allowed what is live by their own clock, so a verdict is
a count of starts. In memory the clock is exact; on Valkey durations are cut to milliseconds. -/
namespace Upstat.SSOLimiters

open GuardedRuns SlidingWindows

/-! ## The verdict as counts of starts -/

/-- None of the limits is reached by the starts that are live. -/
def fits (limits : SSOStartLimits) (rateLive pendingLive : Start → Bool) (source : String) (starts : List Start) : Bool :=
  decide (((starts.countP fun x => decide (x.source = source) && rateLive x : ℕ) : ℤ) < limits.sourceRate) &&
    decide (((starts.countP fun x => (decide (x.source = source) && !x.freed) && pendingLive x : ℕ) : ℤ) < limits.sourcePending) &&
    decide (((starts.countP fun x => true && rateLive x : ℕ) : ℤ) < limits.globalRate) &&
    decide (((starts.countP fun x => !x.freedInAll && pendingLive x : ℕ) : ℤ) < limits.globalPending)

theorem fits_eq_false_iff {limits : SSOStartLimits} {rateLive pendingLive : Start → Bool} {source : String} {starts : List Start} :
    fits limits rateLive pendingLive source starts = false ↔
      limits.sourceRate ≤ (starts.countP fun x => decide (x.source = source) && rateLive x : ℕ) ∨
        limits.globalRate ≤ (starts.countP fun x => true && rateLive x : ℕ) ∨
        limits.sourcePending ≤ (starts.countP fun x => (decide (x.source = source) && !x.freed) && pendingLive x : ℕ) ∨
        limits.globalPending ≤ (starts.countP fun x => !x.freedInAll && pendingLive x : ℕ) := by
  simp only [fits, Bool.and_eq_false_iff, decide_eq_false_iff_not, not_lt]
  tauto

section
variable (limits : SSOStartLimits)

def Start.rateExpiry (x : Start) : ℤ := x.time * millisecond + limits.rateWindow

def Start.reservation (x : Start) : SSOReservation := ⟨x.id, x.time * millisecond + limits.stateTTL⟩

/-- In all, a rate reservation has no id. -/
def Start.rateReservation (x : Start) : SSOReservation := ⟨"", x.rateExpiry limits⟩

/-- What the limiter in memory keeps of the starts. -/
structure MemoryHolds (clock : ℤ) (l : MemorySSOLimiter) (starts : List Start) : Prop where
  rate : ∀ s, InOrder (fun t => t) (Start.rateExpiry limits) (fun x => decide (x.source = s)) clock (l.ofSource s).rateExpires starts
  pending : ∀ s, InOrder SSOReservation.expiresAt (Start.reservation limits) (fun x => decide (x.source = s) && !x.freed) clock
    (l.ofSource s).pending starts
  globalRate : InOrder SSOReservation.expiresAt (Start.rateReservation limits) (fun _ => true) clock l.globalRate starts
  globalPending : InOrder SSOReservation.expiresAt (Start.reservation limits) (fun x => !x.freedInAll) clock l.globalPending starts
  ids : ∀ s, ((l.ofSource s).pending.map SSOReservation.id).Nodup
  globalIds : (l.globalPending.map SSOReservation.id).Nodup

end

section
variable {limits : SSOStartLimits} {l : MemorySSOLimiter} {source id : String} {clock now : ℤ} {starts : List Start}

theorem kept_getD (r : SourceSSOReservations) : r.kept.getD ⟨[], []⟩ = r := by
  obtain ⟨rateExpires, pending⟩ := r
  cases rateExpires <;> cases pending <;> rfl

theorem prune_ofSource (s : String) :
    (l.prune now).ofSource s = ⟨pruneTimes (l.ofSource s).rateExpires now, pruneSSOReservations (l.ofSource s).pending now⟩ := by
  cases hs : l.sources s with
  | none => simp [MemorySSOLimiter.ofSource, MemorySSOLimiter.prune, hs, pruneTimes, pruneSSOReservations]
  | some r => simpa [MemorySSOLimiter.ofSource, MemorySSOLimiter.prune, hs] using kept_getD _

theorem release_ofSource (s : String) : (l.release source id).ofSource s =
    if s = source then ⟨(l.ofSource s).rateExpires, removeSSOReservation (l.ofSource s).pending id⟩ else l.ofSource s := by
  cases hs : l.sources source with
  | none =>
    by_cases h : s = source
    · subst h
      simp [MemorySSOLimiter.ofSource, MemorySSOLimiter.release, hs, removeSSOReservation]
    · simp [MemorySSOLimiter.ofSource, MemorySSOLimiter.release, hs, h]
  | some r =>
    by_cases h : s = source
    · subst h
      simpa [MemorySSOLimiter.ofSource, MemorySSOLimiter.release, hs] using kept_getD _
    · simp [MemorySSOLimiter.ofSource, MemorySSOLimiter.release, hs, h]

theorem reserve_ofSource (s : String) : (l.reserve source id now limits).ofSource s =
    if s = source then ⟨(l.ofSource s).rateExpires ++ [now + limits.rateWindow], (l.ofSource s).pending ++ [⟨id, now + limits.stateTTL⟩]⟩
    else l.ofSource s := by
  by_cases h : s = source
  · subst h
    simp [MemorySSOLimiter.ofSource, MemorySSOLimiter.reserve]
  · simp [MemorySSOLimiter.ofSource, MemorySSOLimiter.reserve, h]

theorem limited_ofSource (s : String) :
    ({ l with sources := Function.update l.sources source (l.ofSource source).kept } : MemorySSOLimiter).ofSource s = l.ofSource s := by
  by_cases h : s = source
  · subst h
    simpa [MemorySSOLimiter.ofSource] using kept_getD _
  · simp [MemorySSOLimiter.ofSource, h]

theorem nodup_reserve {rs : List SSOReservation} {t : ℤ} (h : (rs.map SSOReservation.id).Nodup) (hid : ∀ r ∈ rs, r.id ≠ id) :
    ((rs ++ [(⟨id, t⟩ : SSOReservation)]).map SSOReservation.id).Nodup := by
  rw [List.map_append, List.nodup_append]
  refine ⟨h, List.nodup_singleton _, ?_⟩
  intro a ha b hb
  obtain ⟨r, hr, rfl⟩ := List.mem_map.mp ha
  rw [List.map_singleton] at hb
  rw [List.mem_singleton.mp hb]
  exact hid r hr

theorem holds_empty : MemoryHolds limits clock .empty [] where
  rate _ := inOrder_nil
  pending _ := inOrder_nil
  globalRate := inOrder_nil
  globalPending := inOrder_nil
  ids _ := List.nodup_nil
  globalIds := List.nodup_nil

namespace MemoryHolds

theorem congr {l' : MemorySSOLimiter} (h : MemoryHolds limits clock l starts) (hsource : ∀ s, l'.ofSource s = l.ofSource s)
    (hrate : l'.globalRate = l.globalRate) (hpending : l'.globalPending = l.globalPending) : MemoryHolds limits clock l' starts where
  rate s := by simpa only [hsource s] using h.rate s
  pending s := by simpa only [hsource s] using h.pending s
  globalRate := hrate ▸ h.globalRate
  globalPending := hpending ▸ h.globalPending
  ids s := by simpa only [hsource s] using h.ids s
  globalIds := hpending ▸ h.globalIds

theorem later (h : MemoryHolds limits clock l starts) (hclock : clock ≤ now) : MemoryHolds limits now l starts where
  rate s := (h.rate s).later hclock
  pending s := (h.pending s).later hclock
  globalRate := h.globalRate.later hclock
  globalPending := h.globalPending.later hclock
  ids := h.ids
  globalIds := h.globalIds

theorem prune (h : MemoryHolds limits clock l starts) (hclock : clock ≤ now) : MemoryHolds limits now (l.prune now) starts where
  rate s := by
    rw [prune_ofSource]
    exact (h.rate s).prune hclock
  pending s := by
    rw [prune_ofSource]
    exact (h.pending s).prune hclock
  globalRate := h.globalRate.prune hclock
  globalPending := h.globalPending.prune hclock
  ids s := by
    rw [prune_ofSource]
    exact (h.ids s).sublist ((List.dropWhile_sublist _).map _)
  globalIds := h.globalIds.sublist ((List.dropWhile_sublist _).map _)

/-- The limits are reached as the counts say. -/
theorem limited_prune (h : MemoryHolds limits clock l starts) (hclock : clock ≤ now) :
    (l.prune now).limited source limits = !fits limits (fun x => decide (now < x.rateExpiry limits))
      (fun x => decide (now < (x.reservation limits).expiresAt)) source starts := by
  have hrate := (h.rate source).length_prune hclock
  have hpending := (h.pending source).length_prune hclock
  have hglobalRate := h.globalRate.length_prune hclock
  have hglobalPending := h.globalPending.length_prune hclock
  simp only [MemorySSOLimiter.limited, prune_ofSource, fits]
  simp only [pruneTimes, pruneSSOReservations, MemorySSOLimiter.prune]
  simp only [hrate, hpending, hglobalRate, hglobalPending]
  simp only [Bool.not_and, ← decide_not, not_lt]
  rfl

/-- A start that is let in goes to the end of every list. -/
theorem reserve (h : MemoryHolds limits clock l starts) (hclock : clock ≤ now) {x : Start} (hx : x.freed = false) (hx' : x.freedInAll = false)
    (hnow : x.time * millisecond = now) (hlast : ∀ y ∈ starts, y.time ≤ x.time) (hid : ∀ y ∈ starts, y.id ≠ x.id) :
    MemoryHolds limits now ((l.prune now).reserve x.source x.id now limits) (x :: starts) := by
  have hms : ∀ y ∈ starts, y.time * millisecond ≤ x.time * millisecond :=
    fun y hy => Int.mul_le_mul_of_nonneg_right (hlast y hy) (by decide)
  have hrate : ∀ y ∈ starts, y.rateExpiry limits ≤ x.rateExpiry limits := fun y hy => Int.add_le_add_right (hms y hy) _
  have hpending : ∀ y ∈ starts, (y.reservation limits).expiresAt ≤ (x.reservation limits).expiresAt :=
    fun y hy => Int.add_le_add_right (hms y hy) _
  have hreservation : (⟨x.id, now + limits.stateTTL⟩ : SSOReservation) = x.reservation limits := by rw [← hnow]; rfl
  have hexpiry : now + limits.rateWindow = x.rateExpiry limits := by rw [← hnow]; rfl
  refine ⟨fun s => ?_, fun s => ?_, ?_, ?_, fun s => ?_, ?_⟩
  · rw [reserve_ofSource, prune_ofSource]
    split_ifs with hs
    · rw [hexpiry]
      exact (h.rate s).add hclock (by simp [hs]) hrate
    · exact ((h.rate s).prune hclock).skip (by simp [Ne.symm hs])
  · rw [reserve_ofSource, prune_ofSource]
    split_ifs with hs
    · rw [hreservation]
      exact (h.pending s).add hclock (by simp [hs, hx]) hpending
    · exact ((h.pending s).prune hclock).skip (by simp [Ne.symm hs])
  · simp only [MemorySSOLimiter.reserve, hexpiry]
    exact h.globalRate.add hclock rfl hrate
  · simp only [MemorySSOLimiter.reserve, hreservation]
    exact h.globalPending.add hclock (by simp [hx']) hpending
  · rw [reserve_ofSource]
    split_ifs with hs
    · refine nodup_reserve ((h.prune hclock).ids s) ?_
      rw [prune_ofSource]
      intro r hr
      obtain ⟨y, hy, -, rfl⟩ := (h.pending s).mem_prune hclock hr
      exact hid y hy
    · exact (h.prune hclock).ids s
  · refine nodup_reserve (h.prune hclock).globalIds ?_
    intro r hr
    obtain ⟨y, hy, -, rfl⟩ := h.globalPending.mem_prune hclock hr
    exact hid y hy

theorem release (h : MemoryHolds limits clock l starts) : MemoryHolds limits clock (l.release source id) (starts.map (Start.release source id)) := by
  have hremove (rs : List SSOReservation) (hids : (rs.map SSOReservation.id).Nodup) :
      removeSSOReservation rs id = rs.filter fun r => !decide (r.id = id) := eraseP_eq_filter hids id
  refine ⟨fun s => ?_, fun s => ?_, h.globalRate.map (fun _ => rfl) fun _ => rfl, ?_, fun s => ?_, ?_⟩
  · have hrate := (h.rate s).map (g := Start.release source id) (fun _ => rfl) fun _ => rfl
    rw [release_ofSource]
    split_ifs
    · exact hrate
    · exact hrate
  · rw [release_ofSource]
    split_ifs with hs
    · subst hs
      simp only [hremove _ (h.ids s)]
      refine (h.pending s).remove (fun _ => rfl) fun x => ?_
      change (decide (x.source = s) && !(x.freed || (decide (x.source = s) && decide (x.id = id)))) =
        ((decide (x.source = s) && !x.freed) && !decide (x.id = id))
      cases decide (x.source = s) <;> cases x.freed <;> simp
    · refine (h.pending s).map (fun _ => rfl) fun x => ?_
      by_cases hx : x.source = s <;> simp [Start.release, hx, hs]
  · simp only [MemorySSOLimiter.release, hremove _ h.globalIds]
    refine h.globalPending.remove (fun _ => rfl) fun x => ?_
    change (!(x.freedInAll || decide (x.id = id))) = (!x.freedInAll && !decide (x.id = id))
    exact Bool.not_or _ _
  · rw [release_ofSource]
    split_ifs
    · exact (h.ids s).sublist ((List.eraseP_sublist).map _)
    · exact h.ids s
  · exact h.globalIds.sublist ((List.eraseP_sublist).map _)

/-- A verdict in memory is the count's, and the starts are kept. -/
theorem allow (h : MemoryHolds limits clock l starts) (hclock : clock ≤ now) {x : Start} (hx : x.freed = false) (hx' : x.freedInAll = false)
    (hnow : x.time * millisecond = now) (hlast : ∀ y ∈ starts, y.time ≤ x.time) (hid : ∀ y ∈ starts, y.id ≠ x.id) :
    (l.allow x.source x.id now limits).1 = fits limits (fun x => decide (now < x.rateExpiry limits))
        (fun x => decide (now < (x.reservation limits).expiresAt)) x.source starts ∧
      MemoryHolds limits now (l.allow x.source x.id now limits).2 (if (l.allow x.source x.id now limits).1 = true then x :: starts else starts) := by
  have hlimited := (h.limited_prune hclock : (l.prune now).limited x.source limits = _)
  cases hfits : fits limits (fun x => decide (now < x.rateExpiry limits)) (fun x => decide (now < (x.reservation limits).expiresAt))
      x.source starts with
  | true =>
    rw [hfits, Bool.not_true] at hlimited
    simp only [MemorySSOLimiter.allow, hlimited]
    exact ⟨rfl, h.reserve hclock hx hx' hnow hlast hid⟩
  | false =>
    rw [hfits, Bool.not_false] at hlimited
    simp only [MemorySSOLimiter.allow, hlimited]
    exact ⟨rfl, (h.prune hclock).congr limited_ofSource rfl rfl⟩

end MemoryHolds

end

/-! ## What is at a key -/

namespace SortedSet

variable {now t ttl score clock : ℤ} {z : Option SortedSet} {id : String} {starts : List Start} {x : Start} {f : Start → String × ℤ}
  {counts : Start → Bool}

def members (z : Option SortedSet) : List (String × ℤ) := (z.map entries).getD []

/-- A key expires no sooner than its members do. -/
def Lapses (z : Option SortedSet) : Prop := ∀ s, z = some s → ∃ t, s.expireAt = some t ∧ ∀ e ∈ s.entries, e.2 ≤ t

theorem members_kept (z : Option SortedSet) : members (kept z) = members z := by
  cases z with
  | none => rfl
  | some s =>
    obtain ⟨entries, expireAt⟩ := s
    cases entries <;> rfl

theorem Lapses.kept (h : Lapses z) : Lapses (kept z) := by
  intro s hs
  exact h s (Option.filter_eq_some_iff.mp hs).1

theorem Lapses.found (h : Lapses z) : Lapses (found now z) := by
  intro s hs
  exact h s (Option.filter_eq_some_iff.mp hs).1

theorem Lapses.filter (h : Lapses z) (p : String × ℤ → Bool) : Lapses (z.map fun z => { z with entries := z.entries.filter p }) := by
  intro s hs
  obtain ⟨s', hs', rfl⟩ := Option.map_eq_some_iff.mp hs
  obtain ⟨t, ht, hle⟩ := h s' hs'
  exact ⟨t, ht, fun e he => hle e (List.mem_of_mem_filter he)⟩

theorem members_filter (p : String × ℤ → Bool) :
    members (z.map fun z => { z with entries := z.entries.filter p }) = (members z).filter p := by
  cases z <;> rfl

theorem found_some (s : SortedSet) : found now (some s) = if (s.expireAt.all fun t => decide (now ≤ t)) = true then some s else none :=
  Option.filter_some

theorem kept_some (s : SortedSet) : kept (some s) = if (!s.entries.isEmpty) = true then some s else none := Option.filter_some

/-- By the time that a key has expired there was nothing left in it. -/
theorem unexpired_found (h : Lapses z) (ht : now ≤ t) : unexpired Prod.snd t (members (found now z)) = unexpired Prod.snd t (members z) := by
  cases z with
  | none => rfl
  | some s =>
    obtain ⟨e, he, hle⟩ := h s rfl
    rw [found_some]
    split_ifs with hnow
    · rfl
    · rw [he, Option.all_some, decide_eq_true_eq] at hnow
      symm
      apply List.filter_eq_nil_iff.mpr
      intro y hy hlt
      exact hnow (ht.trans ((of_decide_eq_true hlt).le.trans (hle y hy)))

/-- What a command has left at a key, another finds there at once. -/
theorem found_kept_filter (p : String × ℤ → Bool) :
    found now (kept ((found now z).map fun z => { z with entries := z.entries.filter p })) =
      kept ((found now z).map fun z => { z with entries := z.entries.filter p }) := by
  cases z with
  | none => rfl
  | some s =>
    rw [found_some]
    split_ifs with hnow
    · rw [Option.map_some, kept_some]
      split_ifs
      · rw [found_some, if_pos hnow]
      · rfl
    · rfl

theorem members_zremRangeByScore (h : Lapses z) : members (zremRangeByScore now z now) = unexpired Prod.snd now (members z) := by
  rw [zremRangeByScore, members_kept, members_filter]
  exact unexpired_found h le_rfl

theorem zcard_zremRangeByScore (h : Lapses z) : zcard now (zremRangeByScore now z now) = (unexpired Prod.snd now (members z)).length := by
  have hfound : found now (zremRangeByScore now z now) = zremRangeByScore now z now := found_kept_filter _
  rw [← members_zremRangeByScore h, zcard, hfound]
  cases zremRangeByScore now z now <;> rfl

theorem Lapses.zremRangeByScore (h : Lapses z) (max : ℤ) : Lapses (zremRangeByScore now z max) := (h.found.filter _).kept

theorem Lapses.zrem (h : Lapses z) : Lapses (zrem now z id) := (h.found.filter _).kept

/-- A member added, of a key that is given its time to live again. -/
theorem pexpire_zadd (hfound : found now z = z) (hscores : ∀ e ∈ members z, e.2 ≤ now + ttl) (hscore : score ≤ now + ttl)
    (hid : ∀ e ∈ members z, e.1 ≠ id) :
    Lapses (pexpire now (zadd now z score id) ttl) ∧
      ∀ t, now ≤ t → unexpired Prod.snd t (members (pexpire now (zadd now z score id) ttl)) = unexpired Prod.snd t (members z ++ [(id, score)]) := by
  have hall : ∀ e ∈ members z ++ [(id, score)], e.2 ≤ now + ttl := by
    intro e he
    rcases List.mem_append.mp he with he | he
    · exact hscores e he
    · rw [List.mem_singleton.mp he]
      exact hscore
  have hadd : ∃ s, zadd now z score id = some s ∧ s.entries = members z ++ [(id, score)] ∧ found now (some s) = some s := by
    cases z with
    | none => exact ⟨⟨[(id, score)], none⟩, rfl, rfl, rfl⟩
    | some s =>
      have hfilter : (s.entries.filter fun e => !decide (e.1 = id)) = s.entries := by
        apply List.filter_eq_self.mpr
        intro e he
        simpa using hid e he
      refine ⟨{ s with entries := s.entries ++ [(id, score)] }, ?_, rfl, ?_⟩
      · simp only [zadd, hfound, hfilter]
      · rw [found_some] at hfound ⊢
        split_ifs at hfound with hnow
        exact if_pos hnow
  obtain ⟨s, hs, hentries, hnow⟩ := hadd
  rw [hs, pexpire]
  split_ifs with httl
  · refine ⟨fun _ h => (by cases h), fun t ht => ?_⟩
    symm
    apply List.filter_eq_nil_iff.mpr
    intro e he hlt
    have hle := hall e he
    have hlt' := of_decide_eq_true hlt
    omega
  · rw [hnow]
    refine ⟨?_, fun t _ => ?_⟩
    · intro s' hs'
      obtain rfl := Option.some.inj hs'
      exact ⟨now + ttl, rfl, hentries ▸ hall⟩
    · rw [← hentries]
      rfl

/-- The key of a start that is let in. -/
theorem tracks_reserve (h : Tracks Prod.snd f counts clock (members z) starts) (hz : Lapses z) (hclock : clock ≤ now) (hx : counts x = true)
    (hf : ∀ y, (f y).1 = y.id) (hid : ∀ y ∈ starts, y.id ≠ x.id) (hscore : (f x).2 ≤ now + ttl) (hscores : ∀ y ∈ starts, (f y).2 ≤ (f x).2) :
    Tracks Prod.snd f counts now (members (pexpire now (zadd now (zremRangeByScore now z now) (f x).2 x.id) ttl)) (x :: starts) ∧
      Lapses (pexpire now (zadd now (zremRangeByScore now z now) (f x).2 x.id) ttl) := by
  have hmembers : ∀ e ∈ members (zremRangeByScore now z now), ∃ y ∈ starts, f y = e := by
    intro e he
    rw [members_zremRangeByScore hz] at he
    obtain ⟨y, hy, -, heq⟩ := h.mem hclock he
    exact ⟨y, hy, heq⟩
  obtain ⟨hlapses, hleft⟩ := pexpire_zadd (z := zremRangeByScore now z now) (found_kept_filter _)
    (fun e he => by
      obtain ⟨y, hy, rfl⟩ := hmembers e he
      exact (hscores y hy).trans hscore)
    hscore
    (fun e he => by
      obtain ⟨y, hy, rfl⟩ := hmembers e he
      rw [hf]
      exact hid y hy)
  refine ⟨Tracks.congr ?_ hleft, hlapses⟩
  have hfx : (x.id, (f x).2) = f x := by rw [← hf x]
  rw [hfx, members_zremRangeByScore hz]
  exact (h.prune hclock).add hx

theorem tracks_zrem {g : Start → Start} (h : Tracks Prod.snd f counts clock (members z) starts) (hz : Lapses z) (hclock : clock ≤ now)
    (hf : ∀ x, f (g x) = f x) (hcounts : ∀ x, counts (g x) = (counts x && !decide ((f x).1 = id))) :
    Tracks Prod.snd f counts now (members (zrem now z id)) (starts.map g) := by
  refine ((h.later hclock).remove (p := fun e => !decide (e.1 = id)) hf hcounts).congr fun t ht => ?_
  rw [zrem, members_kept, members_filter]
  have hcomm (l : List (String × ℤ)) : unexpired Prod.snd t (l.filter fun e => !decide (e.1 = id)) =
      (unexpired Prod.snd t l).filter fun e => !decide (e.1 = id) := by
    simp only [unexpired, List.filter_filter, Bool.and_comm]
  rw [hcomm, hcomm, unexpired_found hz ht]

end SortedSet

/-! ## On Valkey -/

section
variable {keyPrefix source : String} {db : Keys} {keys : List String} {key : String}

theorem change_of_ne (f : Option SortedSet → Option SortedSet) {key' : String} (h : key ≠ key') : db.change key' f key = db key :=
  Function.update_of_ne h _ _

theorem change_self (f : Option SortedSet → Option SortedSet) : db.change key f key = f (db key) := Function.update_self _ _ _

theorem foldl_change (hnodup : keys.Nodup) (f : Option SortedSet → Option SortedSet) (db : Keys) (key : String) :
    keys.foldl (fun db key => db.change key f) db key = if key ∈ keys then f (db key) else db key := by
  induction keys generalizing db with
  | nil => rfl
  | cons k keys ih =>
    rw [List.nodup_cons] at hnodup
    rw [List.foldl_cons, ih hnodup.2]
    by_cases hk : key = k
    · subst hk
      rw [if_neg hnodup.1, if_pos List.mem_cons_self, change_self]
    · rw [change_of_ne _ hk]
      simp [hk]

theorem sourceRate_inj {s s' : String} (h : (RedisStore.limiterKeys keyPrefix s).sourceRate = (RedisStore.limiterKeys keyPrefix s').sourceRate) :
    s = s' := by
  simpa [RedisStore.limiterKeys, ← String.toList_inj] using h

theorem sourcePending_inj {s s' : String}
    (h : (RedisStore.limiterKeys keyPrefix s).sourcePending = (RedisStore.limiterKeys keyPrefix s').sourcePending) : s = s' := by
  simpa [RedisStore.limiterKeys, ← String.toList_inj] using h

variable (keyPrefix) in
/-- No key of one kind is of another, whatever the sources. -/
theorem kinds_ne (s s' : String) :
    (RedisStore.limiterKeys keyPrefix s).sourceRate ≠ (RedisStore.limiterKeys keyPrefix s').sourcePending ∧
      (RedisStore.limiterKeys keyPrefix s).sourceRate ≠ (RedisStore.limiterKeys keyPrefix s').globalRate ∧
      (RedisStore.limiterKeys keyPrefix s).sourceRate ≠ (RedisStore.limiterKeys keyPrefix s').globalPending ∧
      (RedisStore.limiterKeys keyPrefix s).sourcePending ≠ (RedisStore.limiterKeys keyPrefix s').globalRate ∧
      (RedisStore.limiterKeys keyPrefix s).sourcePending ≠ (RedisStore.limiterKeys keyPrefix s').globalPending ∧
      (RedisStore.limiterKeys keyPrefix s).globalRate ≠ (RedisStore.limiterKeys keyPrefix s').globalPending := by
  simp [RedisStore.limiterKeys, ← String.toList_inj]

/-- The keys of a source are four. -/
theorem nodup_all (s : String) : (RedisStore.limiterKeys keyPrefix s).all.Nodup := by
  obtain ⟨h₁, h₂, h₃, h₄, h₅, h₆⟩ := kinds_ne keyPrefix s s
  simp [LimiterKeys.all, h₁, h₂, h₃, h₄, h₅, h₆]

theorem sourceRate_mem_all {s s' : String} (h : (RedisStore.limiterKeys keyPrefix s).sourceRate ∈ (RedisStore.limiterKeys keyPrefix s').all) :
    s = s' := by
  obtain ⟨h₁, h₂, h₃, -⟩ := kinds_ne keyPrefix s s'
  simp only [LimiterKeys.all, List.mem_cons, h₁, h₂, h₃, List.not_mem_nil, or_false] at h
  exact sourceRate_inj h

theorem sourcePending_mem_all {s s' : String} (h : (RedisStore.limiterKeys keyPrefix s).sourcePending ∈ (RedisStore.limiterKeys keyPrefix s').all) :
    s = s' := by
  obtain ⟨h₁, -⟩ := kinds_ne keyPrefix s' s
  obtain ⟨-, -, -, h₄, h₅, -⟩ := kinds_ne keyPrefix s s'
  simp only [LimiterKeys.all, List.mem_cons, h₁.symm, h₄, h₅, List.not_mem_nil, or_false, false_or] at h
  exact sourcePending_inj h

end

section
variable (keys : LimiterKeys) (db : Keys) (now rateTTL pendingTTL sourceRate globalRate sourcePending globalPending : ℤ) (id : String)

open SortedSet

/-- The keys as the script has pruned them. -/
def pruned : Keys := keys.all.foldl (fun db key => db.change key fun z => zremRangeByScore now z now) db

/-- The keys as the script leaves them when it reserves. -/
def reserved : Keys :=
  let db := (pruned keys db now).change keys.sourceRate fun z => zadd now z (now + rateTTL) id
  let db := db.change keys.globalRate fun z => zadd now z (now + rateTTL) id
  let db := db.change keys.sourcePending fun z => zadd now z (now + pendingTTL) id
  let db := db.change keys.globalPending fun z => zadd now z (now + pendingTTL) id
  keys.all.foldl (fun db key => db.change key fun z => pexpire now z (max rateTTL pendingTTL)) db

theorem allowScript_eq : allowScript db keys now rateTTL pendingTTL sourceRate globalRate sourcePending globalPending id =
    if sourceRate ≤ zcard now (pruned keys db now keys.sourceRate) ∨ globalRate ≤ zcard now (pruned keys db now keys.globalRate) ∨
        sourcePending ≤ zcard now (pruned keys db now keys.sourcePending) ∨ globalPending ≤ zcard now (pruned keys db now keys.globalPending) then
      (false, pruned keys db now)
    else (true, reserved keys db now rateTTL pendingTTL id) := rfl

variable {keys} {db} {now} {rateTTL pendingTTL} {id}

theorem pruned_mem (hnodup : keys.all.Nodup) {key : String} (h : key ∈ keys.all) : pruned keys db now key = zremRangeByScore now (db key) now := by
  rw [pruned, foldl_change hnodup, if_pos h]

theorem pruned_of_not_mem (hnodup : keys.all.Nodup) {key : String} (h : key ∉ keys.all) : pruned keys db now key = db key := by
  rw [pruned, foldl_change hnodup, if_neg h]

theorem reserved_of_not_mem (hnodup : keys.all.Nodup) {key : String} (h : key ∉ keys.all) :
    reserved keys db now rateTTL pendingTTL id key = db key := by
  have hne := h
  simp only [LimiterKeys.all, List.mem_cons, List.not_mem_nil, or_false, not_or] at hne
  rw [reserved, foldl_change hnodup, if_neg h, change_of_ne _ hne.2.2.2, change_of_ne _ hne.2.1, change_of_ne _ hne.2.2.1, change_of_ne _ hne.1,
    pruned_of_not_mem hnodup h]

variable (db now rateTTL pendingTTL id) in
/-- Each key is pruned, gets the member at its score, and its time to live. -/
theorem reserved_mem (hnodup : keys.all.Nodup) :
    reserved keys db now rateTTL pendingTTL id keys.sourceRate =
        pexpire now (zadd now (zremRangeByScore now (db keys.sourceRate) now) (now + rateTTL) id) (max rateTTL pendingTTL) ∧
      reserved keys db now rateTTL pendingTTL id keys.sourcePending =
        pexpire now (zadd now (zremRangeByScore now (db keys.sourcePending) now) (now + pendingTTL) id) (max rateTTL pendingTTL) ∧
      reserved keys db now rateTTL pendingTTL id keys.globalRate =
        pexpire now (zadd now (zremRangeByScore now (db keys.globalRate) now) (now + rateTTL) id) (max rateTTL pendingTTL) ∧
      reserved keys db now rateTTL pendingTTL id keys.globalPending =
        pexpire now (zadd now (zremRangeByScore now (db keys.globalPending) now) (now + pendingTTL) id) (max rateTTL pendingTTL) := by
  have hne := hnodup
  simp only [LimiterKeys.all, List.nodup_cons, List.mem_cons, List.not_mem_nil, or_false, not_or, List.nodup_nil, not_false_eq_true, and_true] at hne
  obtain ⟨⟨h₁, h₂, h₃⟩, ⟨h₄, h₅⟩, h₆⟩ := hne
  refine ⟨?_, ?_, ?_, ?_⟩
  · rw [reserved, foldl_change hnodup, if_pos (by simp [LimiterKeys.all]), change_of_ne _ h₃, change_of_ne _ h₁, change_of_ne _ h₂, change_self,
      pruned_mem hnodup (by simp [LimiterKeys.all])]
  · rw [reserved, foldl_change hnodup, if_pos (by simp [LimiterKeys.all]), change_of_ne _ h₅, change_self, change_of_ne _ h₄, change_of_ne _ (Ne.symm h₁),
      pruned_mem hnodup (by simp [LimiterKeys.all])]
  · rw [reserved, foldl_change hnodup, if_pos (by simp [LimiterKeys.all]), change_of_ne _ h₆, change_of_ne _ (Ne.symm h₄), change_self,
      change_of_ne _ (Ne.symm h₂), pruned_mem hnodup (by simp [LimiterKeys.all])]
  · rw [reserved, foldl_change hnodup, if_pos (by simp [LimiterKeys.all]), change_self, change_of_ne _ (Ne.symm h₅), change_of_ne _ (Ne.symm h₆),
      change_of_ne _ (Ne.symm h₃), pruned_mem hnodup (by simp [LimiterKeys.all])]

end

section
variable (limits : SSOStartLimits) (keyPrefix : String)

def Start.rateScore (x : Start) : String × ℤ := (x.id, x.time + milliseconds limits.rateWindow)

def Start.pendingScore (x : Start) : String × ℤ := (x.id, x.time + milliseconds limits.stateTTL)

/-- What the keys on Valkey hold of the starts. -/
structure RedisHolds (clock : ℤ) (db : Keys) (starts : List Start) : Prop where
  rate : ∀ s, Tracks Prod.snd (Start.rateScore limits) (fun x => decide (x.source = s)) clock
    (SortedSet.members (db (RedisStore.limiterKeys keyPrefix s).sourceRate)) starts
  pending : ∀ s, Tracks Prod.snd (Start.pendingScore limits) (fun x => decide (x.source = s) && !x.freed) clock
    (SortedSet.members (db (RedisStore.limiterKeys keyPrefix s).sourcePending)) starts
  globalRate : ∀ s, Tracks Prod.snd (Start.rateScore limits) (fun _ => true) clock
    (SortedSet.members (db (RedisStore.limiterKeys keyPrefix s).globalRate)) starts
  globalPending : ∀ s, Tracks Prod.snd (Start.pendingScore limits) (fun x => !x.freedInAll) clock
    (SortedSet.members (db (RedisStore.limiterKeys keyPrefix s).globalPending)) starts
  lapses : ∀ key, SortedSet.Lapses (db key)

end

section
variable {limits : SSOStartLimits} {keyPrefix source id : String} {clock now : ℤ} {db : Keys} {starts : List Start}

theorem redisHolds_empty : RedisHolds limits keyPrefix clock (fun _ => none) [] where
  rate _ := tracks_nil
  pending _ := tracks_nil
  globalRate _ := tracks_nil
  globalPending _ := tracks_nil
  lapses _ _ h := by cases h

theorem tracks_pruned {keys : LimiterKeys} (hnodup : keys.all.Nodup) {f : Start → String × ℤ} {counts : Start → Bool} {key : String}
    (h : Tracks Prod.snd f counts clock (SortedSet.members (db key)) starts) (hz : SortedSet.Lapses (db key)) (hclock : clock ≤ now) :
    Tracks Prod.snd f counts now (SortedSet.members (pruned keys db now key)) starts := by
  by_cases hkey : key ∈ keys.all
  · rw [pruned_mem hnodup hkey, SortedSet.members_zremRangeByScore hz]
    exact h.prune hclock
  · rw [pruned_of_not_mem hnodup hkey]
    exact h.later hclock

theorem zcard_pruned {keys : LimiterKeys} (hnodup : keys.all.Nodup) {f : Start → String × ℤ} {counts : Start → Bool} {key : String}
    (hkey : key ∈ keys.all) (h : Tracks Prod.snd f counts clock (SortedSet.members (db key)) starts) (hz : SortedSet.Lapses (db key))
    (hclock : clock ≤ now) :
    SortedSet.zcard now (pruned keys db now key) = (starts.countP fun x => counts x && decide (now < (f x).2) : ℕ) := by
  rw [pruned_mem hnodup hkey, SortedSet.zcard_zremRangeByScore hz, h.length_unexpired hclock]

namespace RedisHolds

theorem later (h : RedisHolds limits keyPrefix clock db starts) (hclock : clock ≤ now) : RedisHolds limits keyPrefix now db starts where
  rate s := (h.rate s).later hclock
  pending s := (h.pending s).later hclock
  globalRate s := (h.globalRate s).later hclock
  globalPending s := (h.globalPending s).later hclock
  lapses := h.lapses

theorem prune (h : RedisHolds limits keyPrefix clock db starts) (hclock : clock ≤ now) :
    RedisHolds limits keyPrefix now (pruned (RedisStore.limiterKeys keyPrefix source) db now) starts where
  rate s := tracks_pruned (nodup_all source) (h.rate s) (h.lapses _) hclock
  pending s := tracks_pruned (nodup_all source) (h.pending s) (h.lapses _) hclock
  globalRate s := tracks_pruned (nodup_all source) (h.globalRate s) (h.lapses _) hclock
  globalPending s := tracks_pruned (nodup_all source) (h.globalPending s) (h.lapses _) hclock
  lapses key := by
    by_cases hkey : key ∈ (RedisStore.limiterKeys keyPrefix source).all
    · rw [pruned_mem (nodup_all source) hkey]
      exact (h.lapses key).zremRangeByScore now
    · rw [pruned_of_not_mem (nodup_all source) hkey]
      exact h.lapses key

theorem reserve (h : RedisHolds limits keyPrefix clock db starts) (hclock : clock ≤ now) {x : Start} (hx : x.freed = false)
    (hx' : x.freedInAll = false) (hnow : x.time = now) (hlast : ∀ y ∈ starts, y.time ≤ x.time) (hid : ∀ y ∈ starts, y.id ≠ x.id) :
    RedisHolds limits keyPrefix now (reserved (RedisStore.limiterKeys keyPrefix x.source) db now (milliseconds limits.rateWindow)
      (milliseconds limits.stateTTL) x.id) (x :: starts) := by
  subst hnow
  obtain ⟨hsourceRate, hsourcePending, hglobalRate, hglobalPending⟩ := reserved_mem db x.time (milliseconds limits.rateWindow)
    (milliseconds limits.stateTTL) x.id (nodup_all x.source : (RedisStore.limiterKeys keyPrefix x.source).all.Nodup)
  have hrate : (x.rateScore limits).2 ≤ x.time + max (milliseconds limits.rateWindow) (milliseconds limits.stateTTL) :=
    Int.add_le_add_left (le_max_left _ _) _
  have hpending : (x.pendingScore limits).2 ≤ x.time + max (milliseconds limits.rateWindow) (milliseconds limits.stateTTL) :=
    Int.add_le_add_left (le_max_right _ _) _
  have hrates : ∀ y ∈ starts, (y.rateScore limits).2 ≤ (x.rateScore limits).2 := fun y hy => Int.add_le_add_right (hlast y hy) _
  have hpendings : ∀ y ∈ starts, (y.pendingScore limits).2 ≤ (x.pendingScore limits).2 := fun y hy => Int.add_le_add_right (hlast y hy) _
  have hsourceRate' := SortedSet.tracks_reserve (h.rate x.source) (h.lapses _) hclock (x := x) (by simp) (fun _ => rfl) hid hrate hrates
  have hsourcePending' := SortedSet.tracks_reserve (h.pending x.source) (h.lapses _) hclock (x := x) (by simp [hx]) (fun _ => rfl) hid hpending hpendings
  have hglobalRate' := SortedSet.tracks_reserve (h.globalRate x.source) (h.lapses _) hclock (x := x) rfl (fun _ => rfl) hid hrate hrates
  have hglobalPending' := SortedSet.tracks_reserve (h.globalPending x.source) (h.lapses _) hclock (x := x) (by simp [hx']) (fun _ => rfl) hid
    hpending hpendings
  refine ⟨fun s => ?_, fun s => ?_, fun s => ?_, fun s => ?_, fun key => ?_⟩
  · by_cases hs : s = x.source
    · subst hs
      rw [hsourceRate]
      exact hsourceRate'.1
    · rw [reserved_of_not_mem (nodup_all x.source) fun hmem => hs (sourceRate_mem_all hmem)]
      exact ((h.rate s).later hclock).skip (by simp [Ne.symm hs])
  · by_cases hs : s = x.source
    · subst hs
      rw [hsourcePending]
      exact hsourcePending'.1
    · rw [reserved_of_not_mem (nodup_all x.source) fun hmem => hs (sourcePending_mem_all hmem)]
      exact ((h.pending s).later hclock).skip (by simp [Ne.symm hs])
  · change Tracks _ _ _ _ (SortedSet.members (reserved _ _ _ _ _ _ (RedisStore.limiterKeys keyPrefix x.source).globalRate)) _
    rw [hglobalRate]
    exact hglobalRate'.1
  · change Tracks _ _ _ _ (SortedSet.members (reserved _ _ _ _ _ _ (RedisStore.limiterKeys keyPrefix x.source).globalPending)) _
    rw [hglobalPending]
    exact hglobalPending'.1
  · by_cases hkey : key ∈ (RedisStore.limiterKeys keyPrefix x.source).all
    · simp only [LimiterKeys.all, List.mem_cons, List.not_mem_nil, or_false] at hkey
      rcases hkey with rfl | rfl | rfl | rfl
      · exact hsourceRate ▸ hsourceRate'.2
      · exact hsourcePending ▸ hsourcePending'.2
      · exact hglobalRate ▸ hglobalRate'.2
      · exact hglobalPending ▸ hglobalPending'.2
    · rw [reserved_of_not_mem (nodup_all x.source) hkey]
      exact h.lapses key

/-- A verdict on Valkey is the count's, with durations cut to milliseconds, and the starts are kept. -/
theorem allow (h : RedisHolds limits keyPrefix clock db starts) (hclock : clock ≤ now) {x : Start} (hx : x.freed = false)
    (hx' : x.freedInAll = false) (hnow : x.time = now) (hlast : ∀ y ∈ starts, y.time ≤ x.time) (hid : ∀ y ∈ starts, y.id ≠ x.id)
    {out : Bool × Keys} (hout : allowScript db (RedisStore.limiterKeys keyPrefix x.source) now (milliseconds limits.rateWindow)
      (milliseconds limits.stateTTL) limits.sourceRate limits.globalRate limits.sourcePending limits.globalPending x.id = out) :
    out.1 = fits limits (fun x => decide (now < (x.rateScore limits).2)) (fun x => decide (now < (x.pendingScore limits).2)) x.source starts ∧
      RedisHolds limits keyPrefix now out.2 (if out.1 = true then x :: starts else starts) := by
  have hnodup : (RedisStore.limiterKeys keyPrefix x.source).all.Nodup := nodup_all x.source
  have hrate := zcard_pruned hnodup (by simp [LimiterKeys.all]) (h.rate x.source) (h.lapses _) hclock
  have hpending := zcard_pruned hnodup (by simp [LimiterKeys.all]) (h.pending x.source) (h.lapses _) hclock
  have hglobalRate := zcard_pruned hnodup (by simp [LimiterKeys.all]) (h.globalRate x.source) (h.lapses _) hclock
  have hglobalPending := zcard_pruned hnodup (by simp [LimiterKeys.all]) (h.globalPending x.source) (h.lapses _) hclock
  subst hout
  rw [allowScript_eq, hrate, hpending, hglobalRate, hglobalPending]
  simp only [← fits_eq_false_iff]
  cases fits limits (fun x => decide (now < (x.rateScore limits).2)) (fun x => decide (now < (x.pendingScore limits).2)) x.source starts with
  | true => exact ⟨rfl, h.reserve hclock hx hx' hnow hlast hid⟩
  | false => exact ⟨rfl, h.prune hclock⟩

theorem release (h : RedisHolds limits keyPrefix clock db starts) (hclock : clock ≤ now) :
    RedisHolds limits keyPrefix now
      ((db.change (RedisStore.limiterKeys keyPrefix source).sourcePending fun z => SortedSet.zrem now z id).change
        (RedisStore.limiterKeys keyPrefix source).globalPending fun z => SortedSet.zrem now z id)
      (starts.map (Start.release source id)) := by
  have hrate (s : String) := kinds_ne keyPrefix s source
  have hkinds := kinds_ne keyPrefix source
  refine ⟨fun s => ?_, fun s => ?_, fun s => ?_, fun s => ?_, fun key => ?_⟩
  · rw [change_of_ne _ (hrate s).2.2.1, change_of_ne _ (hrate s).1]
    exact ((h.rate s).later hclock).map (fun _ => rfl) fun _ => rfl
  · rw [change_of_ne _ (hrate s).2.2.2.2.1]
    by_cases hs : s = source
    · subst hs
      rw [change_self]
      refine SortedSet.tracks_zrem (h.pending s) (h.lapses _) hclock (fun _ => rfl) fun x => ?_
      change (decide (x.source = s) && !(x.freed || (decide (x.source = s) && decide (x.id = id)))) =
        ((decide (x.source = s) && !x.freed) && !decide (x.id = id))
      cases decide (x.source = s) <;> cases x.freed <;> simp
    · rw [change_of_ne _ fun heq => hs (sourcePending_inj heq)]
      refine ((h.pending s).later hclock).map (fun _ => rfl) fun x => ?_
      by_cases hx : x.source = s <;> simp [Start.release, hx, hs]
  · rw [change_of_ne _ (hrate s).2.2.2.2.2, change_of_ne _ (Ne.symm (hkinds s).2.2.2.1)]
    exact ((h.globalRate s).later hclock).map (fun _ => rfl) fun _ => rfl
  · change Tracks _ _ _ _ (SortedSet.members (Keys.change _ (RedisStore.limiterKeys keyPrefix source).globalPending _
      (RedisStore.limiterKeys keyPrefix source).globalPending)) _
    rw [change_self, change_of_ne _ (Ne.symm (hkinds source).2.2.2.2.1)]
    refine SortedSet.tracks_zrem (h.globalPending source) (h.lapses _) hclock (fun _ => rfl) fun x => ?_
    change (!(x.freedInAll || decide (x.id = id))) = (!x.freedInAll && !decide (x.id = id))
    exact Bool.not_or _ _
  · simp only [Keys.change, Function.update_apply]
    split_ifs
    · exact (h.lapses _).zrem.zrem
    · exact (h.lapses _).zrem
    · exact (h.lapses _).zrem
    · exact h.lapses key

end RedisHolds

end

/-! ## Starts let in are spaced -/

section
variable {limits : SSOStartLimits} {starts : List Start} {now : ℤ}

/-- The earlier start's window has not ended at the later one. -/
def rateNear (limits : SSOStartLimits) (y x : Start) : Bool := decide (x.time * millisecond < y.rateExpiry limits)

def pendingNear (limits : SSOStartLimits) (y x : Start) : Bool := decide (x.time * millisecond < (y.reservation limits).expiresAt)

structure SpacedStarts (limits : SSOStartLimits) (starts : List Start) : Prop where
  sourceRate : ∀ s, Spaced (fun x => decide (x.source = s)) (rateNear limits) limits.sourceRate.toNat starts
  sourcePending : ∀ s, Spaced (fun x => decide (x.source = s) && !x.freed) (pendingNear limits) limits.sourcePending.toNat starts
  globalRate : Spaced (fun _ => true) (rateNear limits) limits.globalRate.toNat starts
  globalPending : Spaced (fun x => !x.freedInAll) (pendingNear limits) limits.globalPending.toNat starts

theorem spaced_nil : SpacedStarts limits [] where
  sourceRate _ := trivial
  sourcePending _ := trivial
  globalRate := trivial
  globalPending := trivial

theorem SpacedStarts.cons (h : SpacedStarts limits starts) {x : Start}
    (hfits : fits limits (fun y => decide (x.time * millisecond < y.rateExpiry limits))
      (fun y => decide (x.time * millisecond < (y.reservation limits).expiresAt)) x.source starts = true) : SpacedStarts limits (x :: starts) := by
  simp only [fits, Bool.and_eq_true, decide_eq_true_eq] at hfits
  obtain ⟨⟨⟨hsourceRate, hsourcePending⟩, hglobalRate⟩, hglobalPending⟩ := hfits
  refine ⟨fun s => ⟨fun hs => ?_, h.sourceRate s⟩, fun s => ⟨fun hs => ?_, h.sourcePending s⟩, ⟨fun _ => Int.lt_toNat.mpr hglobalRate, h.globalRate⟩,
    ⟨fun _ => Int.lt_toNat.mpr hglobalPending, h.globalPending⟩⟩
  · obtain rfl := of_decide_eq_true hs
    exact Int.lt_toNat.mpr hsourceRate
  · obtain rfl := of_decide_eq_true ((Bool.and_eq_true _ _).mp hs).1
    exact Int.lt_toNat.mpr hsourcePending

theorem SpacedStarts.release (h : SpacedStarts limits starts) (source id : String) : SpacedStarts limits (starts.map (Start.release source id)) where
  sourceRate s := (h.sourceRate s).map (fun _ hx => hx) fun _ _ => rfl
  sourcePending s := (h.sourcePending s).map (fun x hx => by
    change (decide (x.source = s) && !(x.freed || _)) = true at hx
    simp only [Bool.and_eq_true, Bool.not_eq_true', Bool.or_eq_false_iff] at hx
    simp only [hx.1, hx.2.1]
    rfl) fun _ _ => rfl
  globalRate := h.globalRate.map (fun _ hx => hx) fun _ _ => rfl
  globalPending := h.globalPending.map (fun x hx => by
    change (!(x.freedInAll || _)) = true at hx
    simp only [Bool.not_eq_true', Bool.or_eq_false_iff] at hx
    simp only [hx.1]
    rfl) fun _ _ => rfl

theorem rateNear_of_inWindow {u : ℤ} (x y : Start) (hx : x.inWindow limits u = true) (hy : y.inWindow limits u = true) : rateNear limits y x = true := by
  simp only [Start.inWindow, Bool.and_eq_true, decide_eq_true_eq] at hx hy
  refine decide_eq_true ?_
  simp only [Start.rateExpiry]
  omega

theorem pendingNear_of_pendingAt {t : ℤ} (x y : Start) (hx : x.pendingAt limits t = true) (hy : y.pendingAt limits t = true) :
    pendingNear limits y x = true := by
  simp only [Start.pendingAt, Bool.and_eq_true, decide_eq_true_eq] at hx hy
  refine decide_eq_true ?_
  simp only [Start.reservation]
  omega

theorem SpacedStarts.bounded (h : SpacedStarts limits starts) (hvalid : limits.validate = none) : Bounded limits starts := by
  simp only [SSOStartLimits.validate, ite_eq_right_iff, reduceCtorEq, imp_false, not_or, not_le] at hvalid
  obtain ⟨-, -, hsourceRate, hglobalRate, hsourcePending, hglobalPending⟩ := hvalid
  refine ⟨fun s u => ?_, fun u => ?_, fun s t => ?_, fun t => ?_⟩
  · have hle := (h.sourceRate s).countP_le (rateNear_of_inWindow (u := u))
    omega
  · have hle := h.globalRate.countP_le (rateNear_of_inWindow (u := u))
    simp only [Bool.true_and] at hle
    omega
  · have hle := (h.sourcePending s).countP_le (pendingNear_of_pendingAt (t := t))
    omega
  · have hle := h.globalPending.countP_le (pendingNear_of_pendingAt (t := t))
    omega

end

/-! ## Both stores over the same calls -/

section
variable {limits : SSOStartLimits} {calls : List Call} {keyPrefix : String}

/-- At a whole millisecond in which no window ends, cutting it to milliseconds makes no difference. -/
theorem window_iff {w a now : ℤ} (hw : 0 < w) (h : ¬millisecond ∣ w → now ≠ a + w / millisecond) :
    now * millisecond < a * millisecond + w ↔ now < a + milliseconds w := by
  rw [milliseconds, Int.tdiv_eq_ediv_of_nonneg hw.le]
  simp only [millisecond] at h ⊢
  omega

theorem memoryRun_concat (c : Call) : memoryRun limits (calls ++ [c]) = memoryStep limits (memoryRun limits calls) c := by
  simp [memoryRun]

theorem redisRun_concat (c : Call) : redisRun keyPrefix limits (calls ++ [c]) = redisStep limits (redisRun keyPrefix limits calls) c := by
  simp [redisRun]

theorem Proper.concat {c : Call} (h : Proper (calls ++ [c])) :
    Proper calls ∧ (∀ c' ∈ calls, c'.now ≤ c.now) ∧ ∀ id ∈ c.reserves, id ∉ calls.filterMap Call.reserves := by
  obtain ⟨htimes, -, hlast⟩ := List.pairwise_append.mp h.times
  have hids := h.ids
  rw [List.filterMap_append, List.nodup_append] at hids
  refine ⟨⟨htimes, hids.1⟩, fun c' hc' => hlast c' hc' c List.mem_cons_self, fun id hid hmem => ?_⟩
  exact hids.2.2 id hmem id (by simp [Option.mem_def.mp hid]) rfl

/-- What holds in memory after the calls. -/
structure MemoryInv (limits : SSOStartLimits) (calls : List Call) (r : Recorded MemoryStore) : Prop where
  holds : ∀ now, (∀ c ∈ calls, c.now ≤ now) → MemoryHolds limits (now * millisecond) r.store.ssoLimiter r.starts
  times : ∀ now, (∀ c ∈ calls, c.now ≤ now) → ∀ x ∈ r.starts, x.time ≤ now
  ids : ∀ x ∈ r.starts, x.id ∈ calls.filterMap Call.reserves
  spaced : SpacedStarts limits r.starts

theorem scaled_le {a b : ℤ} (h : a ≤ b) : a * millisecond ≤ b * millisecond := Int.mul_le_mul_of_nonneg_right h (by decide)

theorem withStart_ok (x : Start) (allowed : Bool) (starts : List Start) :
    withStart x (.ok allowed) starts = if allowed = true then x :: starts else starts := by
  cases allowed <;> rfl

theorem memoryStep_allow (hvalid : limits.validate = none) (r : Recorded MemoryStore) (sourceHash id : String) (now : ℤ) :
    memoryStep limits r (.allow sourceHash id now) =
      ⟨⟨(r.store.ssoLimiter.allow (sourceBucket sourceHash) id (now * millisecond) limits).2⟩,
        if (r.store.ssoLimiter.allow (sourceBucket sourceHash) id (now * millisecond) limits).1 = true then
          ⟨sourceBucket sourceHash, id, now, false, false⟩ :: r.starts else r.starts,
        r.verdicts ++ [.ok (r.store.ssoLimiter.allow (sourceBucket sourceHash) id (now * millisecond) limits).1]⟩ := by
  simp only [memoryStep, record, MemoryStore.allowSSOStart, hvalid, withStart_ok]

/-- The verdict that the exact clock gives. -/
def verdict (limits : SSOStartLimits) (source : String) (now : ℤ) (starts : List Start) : Bool :=
  fits limits (fun x => decide (now * millisecond < x.rateExpiry limits)) (fun x => decide (now * millisecond < (x.reservation limits).expiresAt))
    source starts

namespace MemoryInv

variable {r : Recorded MemoryStore} {sourceHash id : String} {now : ℤ}

theorem allow (h : MemoryInv limits calls r) (hvalid : limits.validate = none) (hlast : ∀ c ∈ calls, c.now ≤ now)
    (hid : id ∉ calls.filterMap Call.reserves) :
    (r.store.ssoLimiter.allow (sourceBucket sourceHash) id (now * millisecond) limits).1 = verdict limits (sourceBucket sourceHash) now r.starts ∧
      MemoryInv limits (calls ++ [.allow sourceHash id now]) (memoryStep limits r (.allow sourceHash id now)) := by
  have hids : ∀ y ∈ r.starts, y.id ≠ id := fun y hy heq => hid (heq ▸ h.ids y hy)
  obtain ⟨hverdict, hholds⟩ := (h.holds now hlast).allow le_rfl (x := ⟨sourceBucket sourceHash, id, now, false, false⟩) rfl rfl rfl
    (h.times now hlast) hids
  refine ⟨hverdict, ?_⟩
  have hold (now' : ℤ) (hlater : ∀ c ∈ calls ++ [Call.allow sourceHash id now], c.now ≤ now') : now ≤ now' ∧ ∀ c ∈ calls, c.now ≤ now' :=
    ⟨hlater (Call.allow sourceHash id now) (by simp), fun c hc => hlater c (List.mem_append_left _ hc)⟩
  have hids' (y : Start) (hy : y ∈ r.starts) : y.id ∈ (calls ++ [Call.allow sourceHash id now]).filterMap Call.reserves := by
    rw [List.filterMap_append]
    exact List.mem_append_left _ (h.ids y hy)
  rw [memoryStep_allow hvalid]
  refine ⟨fun now' hlater => hholds.later (scaled_le (hold now' hlater).1), fun now' hlater y hy => ?_, fun y hy => ?_, ?_⟩
  · simp only at hy
    split_ifs at hy
    · rcases List.mem_cons.mp hy with rfl | hy
      · exact (hold now' hlater).1
      · exact h.times now' (hold now' hlater).2 y hy
    · exact h.times now' (hold now' hlater).2 y hy
  · simp only at hy
    split_ifs at hy
    · rcases List.mem_cons.mp hy with rfl | hy
      · simp [Call.reserves]
      · exact hids' y hy
    · exact hids' y hy
  · simp only
    split_ifs with hallowed
    · exact h.spaced.cons (hverdict.symm.trans hallowed)
    · exact h.spaced

theorem release (h : MemoryInv limits calls r) : MemoryInv limits (calls ++ [.release sourceHash id now]) (memoryStep limits r (.release sourceHash id now)) := by
  have hold (now' : ℤ) (hlater : ∀ c ∈ calls ++ [Call.release sourceHash id now], c.now ≤ now') (c : Call) (hc : c ∈ calls) : c.now ≤ now' :=
    hlater c (List.mem_append_left _ hc)
  refine ⟨fun now' hlater => (h.holds now' (hold now' hlater)).release, fun now' hlater y hy => ?_, fun y hy => ?_, h.spaced.release _ _⟩
  · obtain ⟨x, hx, rfl⟩ := List.mem_map.mp hy
    exact h.times now' (hold now' hlater) x hx
  · obtain ⟨x, hx, rfl⟩ := List.mem_map.mp hy
    rw [List.filterMap_append]
    exact List.mem_append_left _ (h.ids x hx)

end MemoryInv

theorem memoryInv (hvalid : limits.validate = none) (h : Proper calls) : MemoryInv limits calls (memoryRun limits calls) := by
  induction calls using List.reverseRecOn with
  | nil => exact ⟨fun _ _ => holds_empty, fun _ _ x hx => (by cases hx), fun x hx => (by cases hx), spaced_nil⟩
  | append_singleton calls c ih =>
    obtain ⟨hcalls, hlast, hid⟩ := h.concat
    rw [memoryRun_concat]
    cases c with
    | allow sourceHash id now => exact ((ih hcalls).allow hvalid hlast (hid id rfl)).2
    | release sourceHash id now => exact (ih hcalls).release

/-- What holds of both stores after calls between which no window ends. -/
structure BothInv (limits : SSOStartLimits) (keyPrefix : String) (calls : List Call) (m : Recorded MemoryStore) (r : Recorded RedisStore) : Prop where
  starts : r.starts = m.starts
  verdicts : r.verdicts = m.verdicts
  keys : r.store.keyPrefix = keyPrefix
  holds : ∀ now, (∀ c ∈ calls, c.now ≤ now) → RedisHolds limits keyPrefix now r.store.db m.starts

theorem fits_congr {rateLive rateLive' pendingLive pendingLive' : Start → Bool} {source : String} {starts : List Start}
    (hrate : ∀ x ∈ starts, rateLive x = rateLive' x) (hpending : ∀ x ∈ starts, pendingLive x = pendingLive' x) :
    fits limits rateLive pendingLive source starts = fits limits rateLive' pendingLive' source starts := by
  have hcount (counts live live' : Start → Bool) (h : ∀ x ∈ starts, live x = live' x) :
      (starts.countP fun x => counts x && live x) = starts.countP fun x => counts x && live' x := by
    apply List.countP_congr
    intro x hx
    rw [h x hx]
  simp only [fits]
  rw [hcount (fun x => decide (x.source = source)) _ _ hrate, hcount (fun x => decide (x.source = source) && !x.freed) _ _ hpending,
    hcount (fun _ => true) _ _ hrate, hcount (fun x => !x.freedInAll) _ _ hpending]

/-- Cut to milliseconds, the verdict is the same. -/
theorem verdict_of_apart (hvalid : limits.validate = none) {m : Recorded MemoryStore} {sourceHash id source : String} {now : ℤ}
    (h : Apart limits m (.allow sourceHash id now)) :
    fits limits (fun x => decide (now < (x.rateScore limits).2)) (fun x => decide (now < (x.pendingScore limits).2)) source m.starts =
      verdict limits source now m.starts := by
  simp only [SSOStartLimits.validate, ite_eq_right_iff, reduceCtorEq, imp_false, not_or, not_le] at hvalid
  refine fits_congr (fun x hx => ?_) fun x hx => ?_
  · exact decide_eq_decide.mpr (window_iff hvalid.1 (h x hx).1).symm
  · exact decide_eq_decide.mpr (window_iff hvalid.2.1 (h x hx).2).symm

namespace BothInv

variable {m : Recorded MemoryStore} {r : Recorded RedisStore} {sourceHash id : String} {now : ℤ}

theorem allow (h : BothInv limits keyPrefix calls m r) (hm : MemoryInv limits calls m) (hvalid : limits.validate = none)
    (hlast : ∀ c ∈ calls, c.now ≤ now) (hid : id ∉ calls.filterMap Call.reserves) (hapart : Apart limits m (.allow sourceHash id now)) :
    BothInv limits keyPrefix (calls ++ [.allow sourceHash id now]) (memoryStep limits m (.allow sourceHash id now))
      (redisStep limits r (.allow sourceHash id now)) := by
  have hids : ∀ y ∈ m.starts, y.id ≠ id := fun y hy heq => hid (heq ▸ hm.ids y hy)
  have hverdict : (m.store.ssoLimiter.allow (sourceBucket sourceHash) id (now * millisecond) limits).1 =
      verdict limits (sourceBucket sourceHash) now m.starts := (hm.allow hvalid hlast hid).1
  obtain ⟨hredis, hholds⟩ := (h.holds now hlast).allow le_rfl (x := ⟨sourceBucket sourceHash, id, now, false, false⟩) rfl rfl rfl
    (hm.times now hlast) hids rfl
  rw [verdict_of_apart hvalid hapart, ← hverdict] at hredis
  simp only [redisStep, record, RedisStore.allowSSOStart, hvalid, withStart_ok, h.keys, memoryStep_allow hvalid, h.starts, h.verdicts]
  refine ⟨?_, ?_, rfl, fun now' hlater => ?_⟩
  · simp only [hredis]
  · simp only [hredis]
  · rw [hredis] at hholds
    exact hholds.later (hlater (Call.allow sourceHash id now) (by simp))

theorem release (h : BothInv limits keyPrefix calls m r) (hlast : ∀ c ∈ calls, c.now ≤ now) :
    BothInv limits keyPrefix (calls ++ [.release sourceHash id now]) (memoryStep limits m (.release sourceHash id now))
      (redisStep limits r (.release sourceHash id now)) := by
  refine ⟨?_, h.verdicts, h.keys, fun now' hlater => ?_⟩
  · simp only [redisStep, memoryStep, record, h.starts]
  · simp only [redisStep, memoryStep, record, RedisStore.releaseSSOStart, h.keys]
    exact ((h.holds now hlast).release le_rfl).later (hlater (Call.release sourceHash id now) (by simp))

end BothInv

theorem bothInv (hvalid : limits.validate = none) (h : Proper calls)
    (hapart : Meets (memoryStep limits) (Apart limits) ⟨⟨.empty⟩, [], []⟩ calls) :
    BothInv limits keyPrefix calls (memoryRun limits calls) (redisRun keyPrefix limits calls) := by
  induction calls using List.reverseRecOn with
  | nil => exact ⟨rfl, rfl, rfl, fun _ _ => redisHolds_empty⟩
  | append_singleton calls c ih =>
    obtain ⟨hcalls, hlast, hid⟩ := h.concat
    rw [meets_append, meets_cons] at hapart
    have hboth := ih hcalls hapart.1
    have hmemory := memoryInv hvalid hcalls
    rw [memoryRun_concat, redisRun_concat]
    cases c with
    | allow sourceHash id now => exact hboth.allow hmemory hvalid hlast (hid id rfl) hapart.2.1
    | release sourceHash id now => exact hboth.release hlast

/-- In memory the limits are kept in every run, and Valkey gives the same verdicts, and keeps them too,
where no start is asked for in a millisecond within which a window ends. -/
theorem limiters_agree (hvalid : limits.validate = none) (hcalls : Proper calls) (keyPrefix : String) :
    Bounded limits (memoryRun limits calls).starts ∧
      (Meets (memoryStep limits) (Apart limits) ⟨⟨.empty⟩, [], []⟩ calls →
        (redisRun keyPrefix limits calls).verdicts = (memoryRun limits calls).verdicts ∧ Bounded limits (redisRun keyPrefix limits calls).starts) := by
  have hbounded := (memoryInv hvalid hcalls).spaced.bounded hvalid
  refine ⟨hbounded, fun hapart => ?_⟩
  have hboth : BothInv limits keyPrefix calls _ _ := bothInv hvalid hcalls hapart
  exact ⟨hboth.verdicts, hboth.starts ▸ hbounded⟩

end

/-- Where both durations are whole milliseconds, no window ends within one. -/
theorem apart_of_whole {limits : SSOStartLimits} (hrate : millisecond ∣ limits.rateWindow) (hpending : millisecond ∣ limits.stateTTL)
    (m : Recorded MemoryStore) (c : Call) : Apart limits m c := by
  cases c with
  | allow sourceHash id now => exact fun _ _ => ⟨fun h => absurd hrate h, fun h => absurd hpending h⟩
  | release sourceHash id now => trivial

instance (limits : SSOStartLimits) (m : Recorded MemoryStore) (c : Call) : Decidable (Apart limits m c) :=
  match c with
  | .allow _ _ now => inferInstanceAs (Decidable (∀ x ∈ m.starts, (¬millisecond ∣ limits.rateWindow → now ≠ x.time + limits.rateWindow / millisecond) ∧
      (¬millisecond ∣ limits.stateTTL → now ≠ x.time + limits.stateTTL / millisecond)))
  | .release _ _ _ => .isTrue trivial

theorem proper_iff (calls : List Call) :
    Proper calls ↔ (calls.Pairwise fun c c' => c.now ≤ c'.now) ∧ (calls.filterMap Call.reserves).Nodup :=
  ⟨fun h => ⟨h.times, h.ids⟩, fun h => ⟨h.1, h.2⟩⟩

instance (calls : List Call) : Decidable (Proper calls) := decidable_of_iff _ (proper_iff calls).symm

/-- A minute and ten minutes, two starts a source and ten in all, three pending a source and in all. -/
def signInLimits : SSOStartLimits := ⟨60000000000, 600000000000, 2, 10, 3, 3⟩

def signIns : List Call :=
  [.allow "source-a" "a" 0, .allow "source-a" "b" 0, .allow "source-a" "c" 0, .allow "source-b" "d" 5, .release "source-a" "a" 7,
    .allow "source-c" "e" 60000]

theorem signIns_agree :
    (redisRun "" signInLimits signIns).verdicts = (memoryRun signInLimits signIns).verdicts ∧ Bounded signInLimits (redisRun "" signInLimits signIns).starts :=
  (limiters_agree (by decide) (by decide) "").2 (by decide +kernel)

/-- A rate window of half a millisecond. -/
def shortLimits : SSOStartLimits := ⟨500000, 600000000000, 1, 10, 3, 3⟩

theorem shortLimits_disagree :
    shortLimits.validate = none ∧ Proper [.allow "source-a" "a" 0, .allow "source-a" "b" 0] ∧
      (redisRun "" shortLimits [.allow "source-a" "a" 0, .allow "source-a" "b" 0]).verdicts = [.ok true, .ok true] ∧
      (memoryRun shortLimits [.allow "source-a" "a" 0, .allow "source-a" "b" 0]).verdicts = [.ok true, .ok false] ∧
      ¬Bounded shortLimits (redisRun "" shortLimits [.allow "source-a" "a" 0, .allow "source-a" "b" 0]).starts := by
  refine ⟨by decide, by decide, by rfl, by rfl, fun h => ?_⟩
  exact absurd (h.sourceRate "source-a" 0) (by decide +kernel)

end Upstat.SSOLimiters
