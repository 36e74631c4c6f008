import Mathlib.Data.List.Basic

/-! # Runs of a deterministic system under a condition on its steps

A run is a list of events folded into a state. `Meets` says that every event meets
its condition in the state it is handled in, `Throughout` that a property holds in
every state the run passes through. -/
namespace Upstat.GuardedRuns

variable {S E : Type*} {step : S → E → S} {ok : S → E → Prop} {P Q : S → Prop}

/-- The state after the events, in order. -/
def run (step : S → E → S) (s : S) (es : List E) : S := es.foldl step s

@[simp] theorem run_nil (s : S) : run step s [] = s := rfl

@[simp] theorem run_cons (s : S) (e : E) (es : List E) :
    run step s (e :: es) = run step (step s e) es := rfl

@[simp] theorem run_append (s : S) (es fs : List E) :
    run step s (es ++ fs) = run step (run step s es) fs := List.foldl_append

/-- Every event meets its condition in the state it finds. -/
def Meets (step : S → E → S) (ok : S → E → Prop) : S → List E → Prop
  | _, [] => True
  | s, e :: es => ok s e ∧ Meets step ok (step s e) es

/-- The property holds in every state the run passes through, the first and the last included. -/
def Throughout (step : S → E → S) (P : S → Prop) : S → List E → Prop
  | s, [] => P s
  | s, e :: es => P s ∧ Throughout step P (step s e) es

@[simp] theorem meets_nil (s : S) : Meets step ok s [] := trivial

@[simp] theorem meets_cons (s : S) (e : E) (es : List E) :
    Meets step ok s (e :: es) ↔ ok s e ∧ Meets step ok (step s e) es := Iff.rfl

instance Meets.decidable [∀ s e, Decidable (ok s e)] : (s : S) → (es : List E) → Decidable (Meets step ok s es)
  | _, [] => isTrue trivial
  | s, e :: es =>
    have := Meets.decidable (step s e) es
    inferInstanceAs (Decidable (_ ∧ _))

instance Throughout.decidable [DecidablePred P] : (s : S) → (es : List E) → Decidable (Throughout step P s es)
  | s, [] => inferInstanceAs (Decidable (P s))
  | s, e :: es =>
    have := Throughout.decidable (step s e) es
    inferInstanceAs (Decidable (_ ∧ _))

theorem meets_append (s : S) (es fs : List E) :
    Meets step ok s (es ++ fs) ↔ Meets step ok s es ∧ Meets step ok (run step s es) fs := by
  induction es generalizing s with
  | nil => simp
  | cons e es ih => simp [ih, and_assoc]

/-- The first event of a run that does not meet its condition. -/
theorem exists_of_not_meets {s : S} {es : List E} (h : ¬Meets step ok s es) :
    ∃ before e after, es = before ++ e :: after ∧ Meets step ok s before ∧ ¬ok (run step s before) e := by
  induction es generalizing s with
  | nil => exact absurd (meets_nil s) h
  | cons e es ih =>
    by_cases he : ok s e
    · have hes : ¬Meets step ok (step s e) es := fun hes => h ⟨he, hes⟩
      obtain ⟨before, e', after, rfl, hbefore, he'⟩ := ih hes
      exact ⟨e :: before, e', after, rfl, ⟨he, hbefore⟩, he'⟩
    · exact ⟨[], e, es, rfl, meets_nil s, he⟩

theorem Throughout.first {s : S} {es : List E} (h : Throughout step P s es) : P s := by
  cases es with
  | nil => exact h
  | cons e es => exact h.1

theorem Throughout.last {s : S} {es : List E} (h : Throughout step P s es) : P (run step s es) := by
  induction es generalizing s with
  | nil => exact h
  | cons e es ih => exact ih h.2

theorem Throughout.imp {Q : S → Prop} (h : ∀ s, P s → Q s) {s : S} {es : List E} (hP : Throughout step P s es) :
    Throughout step Q s es := by
  induction es generalizing s with
  | nil => exact h s hP
  | cons e es ih => exact ⟨h s hP.1, ih hP.2⟩

/-- A property every step keeps holds after any run. -/
theorem run_keeps (keep : ∀ s e, P s → P (step s e)) {s : S} (hs : P s) (es : List E) :
    P (run step s es) := by
  induction es generalizing s with
  | nil => exact hs
  | cons e es ih => exact ih (keep s e hs)

theorem throughout_keeps (keep : ∀ s e, P s → P (step s e)) {s : S} (hs : P s) (es : List E) : Throughout step P s es := by
  induction es generalizing s with
  | nil => exact hs
  | cons e es ih => exact ⟨hs, ih (keep s e hs)⟩

/-- A property kept by the steps that meet the condition holds throughout a run of such steps. -/
theorem Meets.throughout (keep : ∀ s e, P s → ok s e → P (step s e)) {s : S} {es : List E}
    (h : Meets step ok s es) (hs : P s) : Throughout step P s es := by
  induction es generalizing s with
  | nil => exact hs
  | cons e es ih => exact ⟨hs, ih h.2 (keep s e hs h.1)⟩

/-- Steps that meet one condition meet another, where that follows from what they keep. -/
theorem Meets.imp_of {ok' : S → E → Prop} (h' : ∀ s e, P s → ok s e → ok' s e) (keep : ∀ s e, P s → ok s e → P (step s e))
    {s : S} {es : List E} (hs : P s) (h : Meets step ok s es) : Meets step ok' s es := by
  induction es generalizing s with
  | nil => trivial
  | cons e es ih => exact ⟨h' s e hs h.1, ih (keep s e hs h.1) h.2⟩

/-- Where a step keeps the property exactly when it meets the condition, a run keeps it
throughout exactly when all its steps do. `Q` is what holds besides, in any case. -/
theorem throughout_iff_meets (keepQ : ∀ s e, Q s → P s → Q (step s e))
    (keep : ∀ s e, Q s → P s → (P (step s e) ↔ ok s e)) {s : S} (hQ : Q s) (hP : P s) (es : List E) :
    Throughout step P s es ↔ Meets step ok s es := by
  induction es generalizing s with
  | nil => simp [Throughout, hP]
  | cons e es ih =>
    constructor
    · intro h
      have he : P (step s e) := h.2.first
      exact ⟨(keep s e hQ hP).mp he, (ih (keepQ s e hQ hP) he).mp h.2⟩
    · intro h
      have he : P (step s e) := (keep s e hQ hP).mpr h.1
      exact ⟨hP, (ih (keepQ s e hQ hP) he).mpr h.2⟩

end Upstat.GuardedRuns
