import Mathlib.Data.List.Nodup
import Upstat.GuardedRuns

/-! # The live tail of the logs explorer (`controllers/logs.ts`)

A session polls every two seconds; its first response replaces the lists, each later one goes before what is shown, or before what
is buffered while the tail is paused. `pausedRef` follows `paused` when the effects run, and `resume` has the `buffered` of the last
render. -/
namespace Upstat.LiveTails

open GuardedRuns

def tailMax : ℕ := 400

/-- The state of the controller, with what the session's polls have returned and which of it the cap has pushed out. -/
structure Tail (ε ι : Type*) where
  tail : List ε
  buffered : List ε
  paused : Bool
  pausedRef : Bool
  captured : List ε
  seen : List ι := []
  returned : List ι := []
  pushedOut : List ι := []

inductive Event (ε : Type*)
  | response (first : Bool) (page : List ε)
  | pause
  | resume
  | render
  | effect

section
variable {ε ι : Type*} [DecidableEq ι] (id : ε → ι)

def ids (events : List ε) : List ι := events.map id

/-- The list that is shown is cut; what is pushed out is noted where the session has returned it. -/
def showing (s : Tail ε ι) (events : List ε) : Tail ε ι :=
  { s with
    tail := events.take tailMax
    pushedOut := s.pushedOut ++ (ids id (events.drop tailMax)).filter (· ∈ s.seen) }

def fresh (s : Tail ε ι) (page : List ε) : List ε := page.filter fun e => id e ∉ s.seen

def poll (s : Tail ε ι) (first : Bool) (page : List ε) : Tail ε ι :=
  let new := fresh id s page
  let s := { s with seen := s.seen ++ ids id new, returned := s.returned ++ ids id page }
  if first then { showing id s new with buffered := [], paused := false }
  else if new.isEmpty then s
  else if s.pausedRef then { s with buffered := new ++ s.buffered }
  else showing id s (new ++ s.tail)

def resume (s : Tail ε ι) : Tail ε ι := { showing id s (s.captured ++ s.tail) with buffered := [], paused := false }

def step (s : Tail ε ι) : Event ε → Tail ε ι
  | .response first page => poll id s first page
  | .pause => { s with paused := true }
  | .resume => resume id s
  | .render => { s with captured := s.buffered }
  | .effect => { s with pausedRef := s.paused }

/-- What is returned is in the lists once, or it was pushed out. -/
def Law (s : Tail ε ι) : Prop :=
  ∀ i ∈ s.returned, (ids id (s.buffered ++ s.tail)).count i = if i ∈ s.pushedOut then 0 else 1

/-- A first response comes before the others have brought anything; a page has no event twice, nor one that an earlier session left;
and nothing is buffered since the render that `resume` is of. -/
def Fit (s : Tail ε ι) : Event ε → Prop
  | .response first page => (ids id (fresh id s page)).Nodup ∧
      if first then s.seen = [] else ∀ e ∈ fresh id s page, id e ∉ ids id (s.buffered ++ s.tail)
  | .resume => s.captured = s.buffered
  | _ => True

instance [DecidableEq ε] (s : Tail ε ι) (x : Event ε) : Decidable (Fit id s x) := by
  unfold Fit
  cases x with
  | response first page => cases first <;> infer_instance
  | resume => infer_instance
  | _ => exact isTrue trivial

instance (s : Tail ε ι) : Decidable (Law id s) := by
  unfold Law
  infer_instance

end

/-! ## What is kept -/

section
variable {ε ι : Type*} [DecidableEq ι] {id : ε → ι} {s : Tail ε ι}

omit [DecidableEq ι] in
@[simp] theorem ids_append (l m : List ε) : ids id (l ++ m) = ids id l ++ ids id m := List.map_append

/-- What the session has returned is in the lists or pushed out, once in all. -/
structure Sound (id : ε → ι) (s : Tail ε ι) : Prop where
  once : ∀ i ∈ s.seen, (ids id s.buffered).count i + (ids id s.tail).count i + s.pushedOut.count i = 1
  pushed : ∀ i ∈ s.pushedOut, i ∈ s.seen
  seen : ∀ i ∈ s.returned, i ∈ s.seen

theorem Sound.law (h : Sound id s) : Law id s := by
  intro i hi
  have honce := h.once i (h.seen i hi)
  rw [ids_append, List.count_append]
  split
  · rename_i hpushed
    have hpos := List.count_pos_iff.mpr hpushed
    omega
  · rename_i hpushed
    have hzero := List.count_eq_zero.mpr hpushed
    omega

theorem showing_count (events : List ε) {i : ι} (hi : i ∈ s.seen) :
    (ids id (showing id s events).tail).count i + (showing id s events).pushedOut.count i = (ids id events).count i + s.pushedOut.count i := by
  have hdrop : ((ids id (events.drop tailMax)).filter (· ∈ s.seen)).count i = (ids id (events.drop tailMax)).count i :=
    List.count_filter (by simpa using hi)
  have hcut : (ids id events).count i = (ids id (events.take tailMax)).count i + (ids id (events.drop tailMax)).count i := by
    rw [← List.count_append, ← ids_append, List.take_append_drop]
  simp only [showing, List.count_append, hdrop, hcut]
  omega

/-- What is in the new lists, or was pushed out before, is there once in all. -/
theorem Sound.of_showing {events b : List ε} {p : Bool} (hpushed : ∀ i ∈ s.pushedOut, i ∈ s.seen)
    (hreturned : ∀ i ∈ s.returned, i ∈ s.seen)
    (honce : ∀ i ∈ s.seen, (ids id b).count i + ((ids id events).count i + s.pushedOut.count i) = 1) :
    Sound id { showing id s events with buffered := b, paused := p } := by
  refine ⟨fun i hi => ?_, fun i hi => ?_, hreturned⟩
  · have hseen : i ∈ s.seen := hi
    have hcount := honce i hseen
    rw [← showing_count events hseen, ← Nat.add_assoc] at hcount
    exact hcount
  · rcases List.mem_append.mp hi with hi | hi
    · exact hpushed i hi
    · exact of_decide_eq_true (List.mem_filter.mp hi).2

theorem fresh_not_seen {page : List ε} {i : ι} (hi : i ∈ ids id (fresh id s page)) : i ∉ s.seen := by
  obtain ⟨e, he, rfl⟩ := List.mem_map.mp hi
  simpa using (List.mem_filter.mp he).2

theorem seen_of_page {page : List ε} {i : ι} (hi : i ∈ ids id page) : i ∈ s.seen ++ ids id (fresh id s page) := by
  obtain ⟨e, he, rfl⟩ := List.mem_map.mp hi
  by_cases hseen : id e ∈ s.seen
  · exact List.mem_append_left _ hseen
  · exact List.mem_append_right _ (List.mem_map_of_mem (List.mem_filter.mpr ⟨he, by simpa using hseen⟩))

/-- A new event is nowhere yet, and comes once. -/
theorem Sound.added (h : Sound id s) {page : List ε} (honce : (ids id (fresh id s page)).Nodup)
    (hleft : ∀ e ∈ fresh id s page, id e ∉ ids id (s.buffered ++ s.tail)) :
    ∀ i ∈ s.seen ++ ids id (fresh id s page), (ids id (fresh id s page)).count i +
      ((ids id s.buffered).count i + (ids id s.tail).count i + s.pushedOut.count i) = 1 := by
  intro i hi
  rcases List.mem_append.mp hi with hseen | hnew
  · have hnot : (ids id (fresh id s page)).count i = 0 := List.count_eq_zero.mpr fun hnew => fresh_not_seen hnew hseen
    have hold := h.once i hseen
    omega
  · have hone : (ids id (fresh id s page)).count i = 1 := List.count_eq_one_of_mem honce hnew
    have hpushed : s.pushedOut.count i = 0 := List.count_eq_zero.mpr fun hp => fresh_not_seen hnew (h.pushed i hp)
    obtain ⟨e, he, rfl⟩ := List.mem_map.mp hnew
    have hnone : (ids id (s.buffered ++ s.tail)).count (id e) = 0 := List.count_eq_zero.mpr (hleft e he)
    rw [ids_append, List.count_append] at hnone
    omega

theorem Sound.poll (h : Sound id s) {first : Bool} {page : List ε} (hfit : Fit id s (.response first page)) :
    Sound id (poll id s first page) := by
  obtain ⟨honce, hleft⟩ := hfit
  have hpage : ∀ i ∈ s.returned ++ ids id page, i ∈ s.seen ++ ids id (fresh id s page) := by
    intro i hi
    rcases List.mem_append.mp hi with hi | hi
    · exact List.mem_append_left _ (h.seen i hi)
    · exact seen_of_page hi
  have hpushed : ∀ i ∈ s.pushedOut, i ∈ s.seen ++ ids id (fresh id s page) := fun i hi => List.mem_append_left _ (h.pushed i hi)
  unfold LiveTails.poll
  dsimp only
  cases first with
  | true =>
    rw [if_pos rfl] at hleft ⊢
    refine Sound.of_showing hpushed hpage fun i hi => ?_
    have hnone : s.pushedOut.count i = 0 := by
      apply List.count_eq_zero.mpr
      intro hp
      have hseen := h.pushed i hp
      rw [hleft] at hseen
      cases hseen
    have hnew : i ∈ ids id (fresh id s page) := by
      rcases List.mem_append.mp hi with hseen | hnew
      · rw [hleft] at hseen
        cases hseen
      · exact hnew
    have hone := List.count_eq_one_of_mem honce hnew
    dsimp only
    rw [hone, hnone]
    rfl
  | false =>
    rw [if_neg Bool.false_ne_true] at hleft ⊢
    have hadded := h.added honce hleft
    split
    · rename_i hempty
      have hnil : fresh id s page = [] := List.isEmpty_iff.mp hempty
      refine ⟨fun i hi => ?_, hpushed, hpage⟩
      have hcount := hadded i hi
      rw [hnil] at hcount
      simpa [ids] using hcount
    · split
      · refine ⟨fun i hi => ?_, hpushed, hpage⟩
        have hcount := hadded i hi
        simp only [ids_append, List.count_append]
        omega
      · refine Sound.of_showing (s := { s with seen := s.seen ++ ids id (fresh id s page), returned := s.returned ++ ids id page })
          (b := s.buffered) (p := s.paused) hpushed hpage fun i hi => ?_
        have hcount := hadded i hi
        rw [ids_append, List.count_append]
        dsimp only
        omega

theorem Sound.resume (h : Sound id s) (hfit : s.captured = s.buffered) : Sound id (resume id s) := by
  refine Sound.of_showing h.pushed h.seen fun i hi => ?_
  have hold := h.once i hi
  rw [hfit, ids_append, List.count_append, hold]
  rfl

theorem Sound.step (h : Sound id s) {x : Event ε} (hfit : Fit id s x) : Sound id (step id s x) := by
  cases x with
  | response first page => exact h.poll hfit
  | pause => exact ⟨h.once, h.pushed, h.seen⟩
  | resume => exact h.resume hfit
  | render => exact ⟨h.once, h.pushed, h.seen⟩
  | effect => exact ⟨h.once, h.pushed, h.seen⟩

/-- In every session whose events are fit, whatever an earlier one has left. -/
theorem shown_once (id : ε → ι) (tail buffered captured : List ε) (paused pausedRef : Bool) (xs : List (Event ε))
    (h : Meets (LiveTails.step id) (Fit id) ⟨tail, buffered, paused, pausedRef, captured, [], [], []⟩ xs) :
    Throughout (LiveTails.step id) (Law id) ⟨tail, buffered, paused, pausedRef, captured, [], [], []⟩ xs := by
  have hstart : Sound id (⟨tail, buffered, paused, pausedRef, captured, [], [], []⟩ : Tail ε ι) := ⟨nofun, nofun, nofun⟩
  have hsound := h.throughout (fun _ _ hs hx => hs.step hx) hstart
  exact hsound.imp fun s hs => hs.law

end

/-! ## A session -/

/-- Events that are their own ids. -/
def entered : Tail ℕ ℕ := ⟨[], [], false, false, [], [], [], []⟩

/-- A pause in which two responses are buffered, the second with an event of the first. -/
def pausedSession : List (Event ℕ) :=
  [.response true [2, 1], .pause, .effect, .response false [4, 3], .render, .response false [5, 4], .render, .resume]

theorem shown_once_paused : Law (fun i => i) (run (step fun i => i) entered pausedSession) := by
  have hfit : Meets (step fun i => i) (Fit fun i => i) entered pausedSession := by decide +kernel
  exact (shown_once (fun i => i) [] [] [] false false pausedSession hfit).last

/-- The second poll is answered before the first; and a response comes between the last render and the click. -/
theorem overtaken_lost : ¬Law (fun i => i) (run (step fun i => i) entered [.response false [1], .response true [2, 1]]) ∧
    ¬Law (fun i => i) (run (step fun i => i) entered
      [.response true [1], .pause, .effect, .response false [2], .render, .response false [3, 2], .resume]) := by
  constructor <;> decide +kernel

end Upstat.LiveTails
