import Upstat.AwaitedPrograms

/-! # What a program calls right after a write

`Follows` says of every write an execution makes that it is right for the store it finds and
for the call that comes right after it, if one does. `grants` is the weakest precondition that
asks for this besides the end: a bind leaves what follows the writes of its first part, and
may let a call follow the last one where nothing did. -/
namespace Upstat.AwaitedPrograms

variable {Store Write Call : Type} {Reply : Call → Type} {α β : Type}

/-- The call a program begins with. -/
def Prog.firstCall : Prog Store Write Reply α → Option Call
  | .call c _ => some c
  | _ => none

variable (apply : Store → Write → Store)

/-- Every write of the execution is right where it is made. -/
def Prog.Follows (right : Store → Write → Option Call → Prop) (answer : ℕ → (c : Call) → Reply c) :
    Prog Store Write Reply α → World Store Reply → Prop
  | .done _, _ => True
  | .raised, _ => True
  | .read next, w => (next w.store).Follows right answer w
  | .write x next, w => right w.store x next.firstCall ∧ next.Follows right answer (w.put apply x)
  | .call c next, w => (next (answer w.calls.length c)).Follows right answer (w.called c (answer w.calls.length c))

instance Prog.Follows.decidable (right : Store → Write → Option Call → Prop) [∀ s x c, Decidable (right s x c)]
    (answer : ℕ → (c : Call) → Reply c) :
    (p : Prog Store Write Reply α) → (w : World Store Reply) → Decidable (p.Follows apply right answer w)
  | .done _, _ => isTrue trivial
  | .raised, _ => isTrue trivial
  | .read next, w => Follows.decidable right answer (next w.store) w
  | .write x next, w =>
    have := Follows.decidable right answer next (w.put apply x)
    inferInstanceAs (Decidable (_ ∧ _))
  | .call c next, w =>
    Follows.decidable right answer (next (answer w.calls.length c)) (w.called c (answer w.calls.length c))

/-- The worlds from which the program's writes are right, whatever the replies, and it ends as
`Q` says, if its writes meet the condition `ok`. -/
def Prog.grants (ok : Store → Write → Prop) (right : Store → Write → Option Call → Prop) :
    Prog Store Write Reply α → (Option α → World Store Reply → Prop) → World Store Reply → Prop
  | .done a, Q, w => Q (some a) w
  | .raised, Q, w => Q none w
  | .read next, Q, w => (next w.store).grants ok right Q w
  | .write x next, Q, w => ok w.store x → right w.store x next.firstCall ∧ next.grants ok right Q (w.put apply x)
  | .call c next, Q, w => ∀ r, (next r).grants ok right Q (w.called c r)

section Rules
variable {apply} {ok : Store → Write → Prop} {right : Store → Write → Option Call → Prop}

theorem grants_sound {answer : ℕ → (c : Call) → Reply c} {p : Prog Store Write Reply α}
    {Q : Option α → World Store Reply → Prop} {w : World Store Reply} (h : p.grants apply ok right Q w)
    (hp : p.Meets apply ok answer w) :
    p.Follows apply right answer w ∧ Q (p.run apply answer w).1 (p.run apply answer w).2 := by
  induction p generalizing w with
  | done a => exact ⟨trivial, h⟩
  | raised => exact ⟨trivial, h⟩
  | read next ih => exact ih _ h hp
  | write x next ih =>
    obtain ⟨hright, hrest⟩ := h hp.1
    obtain ⟨hfollows, hQ⟩ := ih hrest hp.2
    exact ⟨⟨hright, hfollows⟩, hQ⟩
  | call c next ih => exact ih _ (h _) hp

theorem grants_mono {p : Prog Store Write Reply α} {Q R : Option α → World Store Reply → Prop} {w : World Store Reply}
    (hQR : ∀ a w, Q a w → R a w) (h : p.grants apply ok right Q w) : p.grants apply ok right R w := by
  induction p generalizing w with
  | done a => exact hQR _ _ h
  | raised => exact hQR _ _ h
  | read next ih => exact ih _ h
  | write x next ih => exact fun hx => ⟨(h hx).1, ih (h hx).2⟩
  | call c next ih => exact fun r => ih r (h r)

theorem grants_get_bind {f : Store → Prog Store Write Reply α} {Q : Option α → World Store Reply → Prop}
    {w : World Store Reply} : (Prog.get >>= f).grants apply ok right Q w ↔ (f w.store).grants apply ok right Q w := Iff.rfl

theorem grants_put_bind {x : Write} {f : Unit → Prog Store Write Reply α} {Q : Option α → World Store Reply → Prop}
    {w : World Store Reply} :
    (Prog.put x >>= f).grants apply ok right Q w ↔
      (ok w.store x → right w.store x (f ()).firstCall ∧ (f ()).grants apply ok right Q (w.put apply x)) := Iff.rfl

/-- Where only writes that are right everywhere are made, the end is all there is to show. -/
theorem grants_of_only {A : Write → Prop} (hA : ∀ s x c, A x → right s x c) {p : Prog Store Write Reply α}
    (hp : p.Only A) {Q : Option α → World Store Reply → Prop} {w : World Store Reply} (h : p.wp apply ok Q w) :
    p.grants apply ok right Q w := by
  induction p generalizing w with
  | done a => exact h
  | raised => exact h
  | read next ih => exact ih w.store (hp _) h
  | write x next ih => exact fun hx => ⟨hA _ x _ hp.1, ih hp.2 (h hx)⟩
  | call c next ih => exact fun r => ih r (hp r) (h r)

variable (hright : ∀ s x c, right s x none → right s x c)
include hright

theorem grants_bind {p : Prog Store Write Reply α} {f : α → Prog Store Write Reply β}
    {Q : Option β → World Store Reply → Prop} {w : World Store Reply}
    (h : p.grants apply ok right (fun a w => a.elim (Q none w) fun a => (f a).grants apply ok right Q w) w) :
    (p >>= f).grants apply ok right Q w := by
  change (p.bind f).grants apply ok right Q w
  induction p generalizing w with
  | done a => exact h
  | raised => exact h
  | read next ih => exact ih _ h
  | write x next ih =>
    intro hx
    obtain ⟨hfirst, hrest⟩ := h hx
    refine ⟨?_, ih hrest⟩
    cases next with
    | call c next => exact hfirst
    | done a => exact hright _ _ _ hfirst
    | raised => exact hfirst
    | read next => exact hfirst
    | write y next => exact hfirst
  | call c next ih => exact fun r => ih r (h r)

/-- The program's writes are right and it keeps a property of the store, however it ends. -/
theorem compositional_grants {I : Store → Prop} : Compositional fun _ (p : Prog Store Write Reply _) =>
    ∀ w, I w.store → p.grants apply ok right (fun _ w' => I w'.store) w where
  pure := fun _ _ hw => hw
  get := fun _ hw => hw
  bind := by
    intro α β p f hp hf w hw
    refine grants_bind hright (grants_mono (fun a w' hw' => ?_) (hp w hw))
    cases a with
    | none => exact hw'
    | some a => exact hf a w' hw'

end Rules

end Upstat.AwaitedPrograms
