import Mathlib.Data.List.Basic

/-! # Programs of awaited operations

A program reads a store, writes to it, calls out and goes on with the reply, or raises.
`run` executes it against given replies, and `wp` is its weakest precondition over all
replies, where every write may be assumed to meet a condition in the store it finds. -/
namespace Upstat.AwaitedPrograms

/-- `Reply c` is what call `c` comes back with. -/
inductive Prog (Store Write : Type) {Call : Type} (Reply : Call → Type) (α : Type) where
  | done (a : α)
  | raised
  | read (next : Store → Prog Store Write Reply α)
  | write (x : Write) (next : Prog Store Write Reply α)
  | call (c : Call) (next : Reply c → Prog Store Write Reply α)

variable {Store Write Call : Type} {Reply : Call → Type} {α β : Type}

namespace Prog

def bind : Prog Store Write Reply α → (α → Prog Store Write Reply β) → Prog Store Write Reply β
  | done a, f => f a
  | raised, _ => raised
  | read next, f => read fun s => (next s).bind f
  | write x next, f => write x (next.bind f)
  | call c next, f => call c fun r => (next r).bind f

instance : Monad (Prog Store Write Reply) where
  pure := done
  bind := bind

/-- Runs the handler where the program raises. -/
def catch_ : Prog Store Write Reply α → Prog Store Write Reply α → Prog Store Write Reply α
  | done a, _ => done a
  | raised, handler => handler
  | read next, handler => read fun s => (next s).catch_ handler
  | write x next, handler => write x (next.catch_ handler)
  | call c next, handler => call c fun r => (next r).catch_ handler

def forEach : List β → (β → Prog Store Write Reply Unit) → Prog Store Write Reply Unit
  | [], _ => done ()
  | b :: bs, f => (f b).bind fun _ => forEach bs f

def when_ (c : Bool) (p : Prog Store Write Reply Unit) : Prog Store Write Reply Unit := if c then p else done ()

def get : Prog Store Write Reply Store := read done

def put (x : Write) : Prog Store Write Reply Unit := write x (done ())

end Prog

/-- The store, and the calls made so far with their replies. -/
structure World (Store : Type) {Call : Type} (Reply : Call → Type) where
  store : Store
  calls : List ((c : Call) × Reply c)

variable (apply : Store → Write → Store)

def World.put (w : World Store Reply) (x : Write) : World Store Reply := { w with store := apply w.store x }

def World.called (w : World Store Reply) (c : Call) (r : Reply c) : World Store Reply :=
  { w with calls := w.calls ++ [⟨c, r⟩] }

/-- Execution; `answer n` is what call number `n` of the world comes back with. -/
def Prog.run (answer : ℕ → (c : Call) → Reply c) :
    Prog Store Write Reply α → World Store Reply → Option α × World Store Reply
  | .done a, w => (some a, w)
  | .raised, w => (none, w)
  | .read next, w => (next w.store).run answer w
  | .write x next, w => next.run answer (w.put apply x)
  | .call c next, w => (next (answer w.calls.length c)).run answer (w.called c (answer w.calls.length c))

/-- Every write of the execution meets its condition in the store it finds. -/
def Prog.Meets (ok : Store → Write → Prop) (answer : ℕ → (c : Call) → Reply c) :
    Prog Store Write Reply α → World Store Reply → Prop
  | .done _, _ => True
  | .raised, _ => True
  | .read next, w => (next w.store).Meets ok answer w
  | .write x next, w => ok w.store x ∧ next.Meets ok answer (w.put apply x)
  | .call c next, w => (next (answer w.calls.length c)).Meets ok answer (w.called c (answer w.calls.length c))

instance Prog.Meets.decidable (ok : Store → Write → Prop) [∀ s x, Decidable (ok s x)]
    (answer : ℕ → (c : Call) → Reply c) :
    (p : Prog Store Write Reply α) → (w : World Store Reply) → Decidable (p.Meets apply ok answer w)
  | .done _, _ => isTrue trivial
  | .raised, _ => isTrue trivial
  | .read next, w => Meets.decidable ok answer (next w.store) w
  | .write x next, w =>
    have := Meets.decidable ok answer next (w.put apply x)
    inferInstanceAs (Decidable (_ ∧ _))
  | .call c next, w =>
    Meets.decidable ok answer (next (answer w.calls.length c)) (w.called c (answer w.calls.length c))

/-- The worlds from which the program, whatever the replies, ends as `Q` says, if its writes
meet the condition; `none` stands for an exception. -/
def Prog.wp (ok : Store → Write → Prop) :
    Prog Store Write Reply α → (Option α → World Store Reply → Prop) → World Store Reply → Prop
  | .done a, Q, w => Q (some a) w
  | .raised, Q, w => Q none w
  | .read next, Q, w => (next w.store).wp ok Q w
  | .write x next, Q, w => ok w.store x → next.wp ok Q (w.put apply x)
  | .call c next, Q, w => ∀ r, (next r).wp ok Q (w.called c r)

section Rules
variable {apply} {ok : Store → Write → Prop}

theorem wp_get_bind {f : Store → Prog Store Write Reply α} {Q : Option α → World Store Reply → Prop}
    {w : World Store Reply} : (Prog.get >>= f).wp apply ok Q w ↔ (f w.store).wp apply ok Q w := Iff.rfl

theorem wp_put_bind {x : Write} {f : Unit → Prog Store Write Reply α} {Q : Option α → World Store Reply → Prop}
    {w : World Store Reply} :
    (Prog.put x >>= f).wp apply ok Q w ↔ (ok w.store x → (f ()).wp apply ok Q (w.put apply x)) := Iff.rfl

theorem wp_sound {answer : ℕ → (c : Call) → Reply c} {p : Prog Store Write Reply α}
    {Q : Option α → World Store Reply → Prop} {w : World Store Reply} (h : p.wp apply ok Q w)
    (hp : p.Meets apply ok answer w) : Q (p.run apply answer w).1 (p.run apply answer w).2 := by
  induction p generalizing w with
  | done a => exact h
  | raised => exact h
  | read next ih => exact ih _ h hp
  | write x next ih => exact ih (h hp.1) hp.2
  | call c next ih => exact ih _ (h _) hp

theorem wp_mono {p : Prog Store Write Reply α} {Q R : Option α → World Store Reply → Prop} {w : World Store Reply}
    (hQR : ∀ a w, Q a w → R a w) (h : p.wp apply ok Q w) : p.wp apply ok R w := by
  induction p generalizing w with
  | done a => exact hQR _ _ h
  | raised => exact hQR _ _ h
  | read next ih => exact ih _ h
  | write x next ih => exact fun hx => ih (h hx)
  | call c next ih => exact fun r => ih r (h r)

theorem wp_true (p : Prog Store Write Reply α) (w : World Store Reply) : p.wp apply ok (fun _ _ => True) w := by
  induction p generalizing w with
  | done a => trivial
  | raised => trivial
  | read next ih => exact ih w.store w
  | write x next ih => exact fun _ => ih _
  | call c next ih => exact fun r => ih r _

theorem wp_and {p : Prog Store Write Reply α} {Q R : Option α → World Store Reply → Prop} {w : World Store Reply}
    (hQ : p.wp apply ok Q w) (hR : p.wp apply ok R w) : p.wp apply ok (fun a w => Q a w ∧ R a w) w := by
  induction p generalizing w with
  | done a => exact ⟨hQ, hR⟩
  | raised => exact ⟨hQ, hR⟩
  | read next ih => exact ih _ hQ hR
  | write x next ih => exact fun hx => ih (hQ hx) (hR hx)
  | call c next ih => exact fun r => ih r (hQ r) (hR r)

theorem wp_bind {p : Prog Store Write Reply α} {f : α → Prog Store Write Reply β}
    {Q : Option β → World Store Reply → Prop} {w : World Store Reply}
    (h : p.wp apply ok (fun a w => a.elim (Q none w) fun a => (f a).wp apply ok Q w) w) :
    (p >>= f).wp apply ok Q w := by
  change (p.bind f).wp apply ok Q w
  induction p generalizing w with
  | done a => exact h
  | raised => exact h
  | read next ih => exact ih _ h
  | write x next ih => exact fun hx => ih (h hx)
  | call c next ih => exact fun r => ih r (h r)

theorem wp_catch {p handler : Prog Store Write Reply α} {Q : Option α → World Store Reply → Prop}
    {w : World Store Reply}
    (h : p.wp apply ok (fun a w => a.elim (handler.wp apply ok Q w) fun a => Q (some a) w) w) :
    (p.catch_ handler).wp apply ok Q w := by
  induction p generalizing w with
  | done a => exact h
  | raised => exact h
  | read next ih => exact ih _ h
  | write x next ih => exact fun hx => ih (h hx)
  | call c next ih => exact fun r => ih r (h r)

/-- A loop, with an invariant over what is left of its list; `R` holds where the body raises. -/
theorem wp_forEach {f : β → Prog Store Write Reply Unit} {I : List β → World Store Reply → Prop}
    {R : World Store Reply → Prop}
    (body : ∀ b bs w, I (b :: bs) w →
      (f b).wp apply ok (fun a w => a.elim (R w) fun _ => I bs w) w)
    {bs : List β} {w : World Store Reply} (h : I bs w) :
    (Prog.forEach bs f).wp apply ok (fun a w => a.elim (R w) fun _ => I [] w) w := by
  induction bs generalizing w with
  | nil => exact h
  | cons b bs ih =>
    refine wp_bind (wp_mono (fun a w' hw' => ?_) (body b bs w h))
    cases a with
    | none => exact hw'
    | some _ => exact ih hw'

theorem wp_when {c : Bool} {p : Prog Store Write Reply Unit} {Q : Option Unit → World Store Reply → Prop}
    {w : World Store Reply} (hthen : c = true → p.wp apply ok Q w) (helse : c = false → Q (some ()) w) :
    (Prog.when_ c p).wp apply ok Q w := by
  cases c with
  | true => exact hthen rfl
  | false => exact helse rfl

/-! ### Invariants -/

variable {I : Store → Prop}

/-- The program keeps a property of the store, however it ends. -/
def Prog.Keeps (apply : Store → Write → Store) (ok : Store → Write → Prop) (I : Store → Prop)
    (p : Prog Store Write Reply α) : Prop :=
  ∀ w : World Store Reply, I w.store → p.wp apply ok (fun _ w' => I w'.store) w

theorem keeps_pure (a : α) : (pure a : Prog Store Write Reply α).Keeps apply ok I := fun _ h => h

theorem keeps_put {x : Write} (h : ∀ s, I s → ok s x → I (apply s x)) :
    (Prog.put x : Prog Store Write Reply Unit).Keeps apply ok I := fun w hw hx => h w.store hw hx

theorem keeps_bind {p : Prog Store Write Reply α} {f : α → Prog Store Write Reply β}
    (hp : p.Keeps apply ok I) (hf : ∀ a, (f a).Keeps apply ok I) : (p >>= f).Keeps apply ok I := by
  intro w hw
  refine wp_bind (wp_mono (fun a w' hw' => ?_) (hp w hw))
  cases a with
  | none => exact hw'
  | some a => exact hf a w' hw'

theorem keeps_get_bind {f : Store → Prog Store Write Reply α} (hf : ∀ s, I s → (f s).Keeps apply ok I) :
    (Prog.get >>= f).Keeps apply ok I := fun w hw => hf w.store hw w hw

theorem keeps_when {c : Bool} {p : Prog Store Write Reply Unit} (hp : c = true → p.Keeps apply ok I) :
    (Prog.when_ c p).Keeps apply ok I := fun w hw => wp_when (fun hc => hp hc w hw) fun _ => hw

theorem keeps_forEach {f : β → Prog Store Write Reply Unit} (bs : List β)
    (hf : ∀ b ∈ bs, (f b).Keeps apply ok I) : (Prog.forEach bs f).Keeps apply ok I := by
  induction bs with
  | nil => exact fun _ hw => hw
  | cons b bs ih =>
    refine keeps_bind (hf b (List.mem_cons_self ..)) fun _ => ih fun b' hb' => hf b' (List.mem_cons_of_mem _ hb')

end Rules

/-! ### Which writes a program makes, and when it does not raise -/

/-- Every write the program can make is one of these. -/
def Prog.Only (A : Write → Prop) : Prog Store Write Reply α → Prop
  | .done _ => True
  | .raised => True
  | .read next => ∀ s, (next s).Only A
  | .write x next => A x ∧ next.Only A
  | .call _ next => ∀ r, (next r).Only A

/-- The program does not raise where every call comes back as it should. -/
def Prog.Safe (good : (c : Call) → Reply c → Prop) : Prog Store Write Reply α → Prop
  | .done _ => True
  | .raised => False
  | .read next => ∀ s, (next s).Safe good
  | .write _ next => next.Safe good
  | .call c next => ∀ r, good c r → (next r).Safe good

section Structure
variable {apply} {A B : Write → Prop} {good : (c : Call) → Reply c → Prop}

theorem only_pure (a : α) : (pure a : Prog Store Write Reply α).Only A := trivial

theorem only_put {x : Write} (h : A x) : (Prog.put x : Prog Store Write Reply Unit).Only A := ⟨h, trivial⟩

theorem Prog.Only.mono {p : Prog Store Write Reply α} (hp : p.Only A) (hAB : ∀ x, A x → B x) : p.Only B := by
  induction p with
  | done a => trivial
  | raised => trivial
  | read next ih => exact fun s => ih s (hp s)
  | write x next ih => exact ⟨hAB x hp.1, ih hp.2⟩
  | call c next ih => exact fun r => ih r (hp r)

theorem only_bind {p : Prog Store Write Reply α} {f : α → Prog Store Write Reply β} (hp : p.Only A)
    (hf : ∀ a, (f a).Only A) : (p >>= f).Only A := by
  change (p.bind f).Only A
  induction p with
  | done a => exact hf a
  | raised => trivial
  | read next ih => exact fun s => ih s (hp s)
  | write x next ih => exact ⟨hp.1, ih hp.2⟩
  | call c next ih => exact fun r => ih r (hp r)

theorem only_get_bind {f : Store → Prog Store Write Reply α} (hf : ∀ s, (f s).Only A) :
    (Prog.get >>= f).Only A := hf

theorem only_catch {p handler : Prog Store Write Reply α} (hp : p.Only A) (hh : handler.Only A) :
    (p.catch_ handler).Only A := by
  induction p with
  | done a => trivial
  | raised => exact hh
  | read next ih => exact fun s => ih s (hp s)
  | write x next ih => exact ⟨hp.1, ih hp.2⟩
  | call c next ih => exact fun r => ih r (hp r)

theorem only_when {c : Bool} {p : Prog Store Write Reply Unit} (hp : c = true → p.Only A) :
    (Prog.when_ c p).Only A := by
  cases c with
  | true => exact hp rfl
  | false => trivial

theorem only_forEach {f : β → Prog Store Write Reply Unit} (bs : List β) (hf : ∀ b ∈ bs, (f b).Only A) :
    (Prog.forEach bs f).Only A := by
  induction bs with
  | nil => trivial
  | cons b bs ih =>
    exact only_bind (hf b (List.mem_cons_self ..)) fun _ => ih fun b' hb' => hf b' (List.mem_cons_of_mem _ hb')

/-- What every such write keeps, the program keeps. -/
theorem Prog.Only.keeps {ok : Store → Write → Prop} {I : Store → Prop} {p : Prog Store Write Reply α} (hp : p.Only A)
    (hA : ∀ s x, A x → I s → I (apply s x)) : p.Keeps apply ok I := by
  intro w hw
  induction p generalizing w with
  | done a => exact hw
  | raised => exact hw
  | read next ih => exact ih w.store (hp _) w hw
  | write x next ih => exact fun _ => ih hp.2 _ (hA _ x hp.1 hw)
  | call c next ih => exact fun r => ih r (hp r) _ hw

theorem safe_bind {p : Prog Store Write Reply α} {f : α → Prog Store Write Reply β} (hp : p.Safe good)
    (hf : ∀ a, (f a).Safe good) : (p >>= f).Safe good := by
  change (p.bind f).Safe good
  induction p with
  | done a => exact hf a
  | raised => exact hp.elim
  | read next ih => exact fun s => ih s (hp s)
  | write x next ih => exact ih hp
  | call c next ih => exact fun r hr => ih r (hp r hr)

theorem safe_get_bind {f : Store → Prog Store Write Reply α} (hf : ∀ s, (f s).Safe good) :
    (Prog.get >>= f).Safe good := hf

theorem safe_catch {p handler : Prog Store Write Reply α} (hh : handler.Safe good) :
    (p.catch_ handler).Safe good := by
  induction p with
  | done a => trivial
  | raised => exact hh
  | read next ih => exact fun s => ih s
  | write x next ih => exact ih
  | call c next ih => exact fun r _ => ih r

theorem safe_when {c : Bool} {p : Prog Store Write Reply Unit} (hp : c = true → p.Safe good) :
    (Prog.when_ c p).Safe good := by
  cases c with
  | true => exact hp rfl
  | false => trivial

theorem safe_forEach {f : β → Prog Store Write Reply Unit} (bs : List β) (hf : ∀ b ∈ bs, (f b).Safe good) :
    (Prog.forEach bs f).Safe good := by
  induction bs with
  | nil => trivial
  | cons b bs ih =>
    exact safe_bind (hf b (List.mem_cons_self ..)) fun _ => ih fun b' hb' => hf b' (List.mem_cons_of_mem _ hb')

/-- A program that is safe whatever the replies ends without raising. -/
theorem wp_safe {ok : Store → Write → Prop} {p : Prog Store Write Reply α} (hp : p.Safe fun _ _ => True)
    {Q : Option α → World Store Reply → Prop} {w : World Store Reply} (h : p.wp apply ok Q w) :
    p.wp apply ok (fun a w' => a ≠ none ∧ Q a w') w := by
  induction p generalizing w with
  | done a => exact ⟨Option.some_ne_none a, h⟩
  | raised => exact hp.elim
  | read next ih => exact ih w.store (hp _) h
  | write x next ih => exact fun hx => ih hp (h hx)
  | call c next ih => exact fun r => ih r (hp r trivial) (h r)

/-- A composition goes on from where its first part ends. -/
theorem run_bind {answer : ℕ → (c : Call) → Reply c} {p : Prog Store Write Reply α} {f : α → Prog Store Write Reply β}
    {w w' : World Store Reply} {a : α} (h : p.run apply answer w = (some a, w')) :
    (p >>= f).run apply answer w = (f a).run apply answer w' := by
  change (p.bind f).run apply answer w = _
  induction p generalizing w with
  | done a' =>
    obtain rfl := Option.some.inj (Prod.ext_iff.mp h).1
    obtain rfl := (Prod.ext_iff.mp h).2
    rfl
  | raised => cases h
  | read next ih => exact ih w.store h
  | write x next ih => exact ih h
  | call c next ih => exact ih _ h

theorem run_bind_raised {answer : ℕ → (c : Call) → Reply c} {p : Prog Store Write Reply α} {f : α → Prog Store Write Reply β}
    {w w' : World Store Reply} (h : p.run apply answer w = (none, w')) : (p >>= f).run apply answer w = (none, w') := by
  change (p.bind f).run apply answer w = _
  induction p generalizing w with
  | done a => cases h
  | raised =>
    obtain rfl := (Prod.ext_iff.mp h).2
    rfl
  | read next ih => exact ih w.store h
  | write x next ih => exact ih h
  | call c next ih => exact ih _ h

/-- Execution only adds calls to the log. -/
theorem calls_run (answer : ℕ → (c : Call) → Reply c) (p : Prog Store Write Reply α) (w : World Store Reply) :
    ∃ more, (p.run apply answer w).2.calls = w.calls ++ more := by
  induction p generalizing w with
  | done a => exact ⟨[], by simp [Prog.run]⟩
  | raised => exact ⟨[], by simp [Prog.run]⟩
  | read next ih => exact ih w.store w
  | write x next ih => exact ih (w.put apply x)
  | call c next ih =>
    obtain ⟨more, hmore⟩ := ih (answer w.calls.length c) (w.called c (answer w.calls.length c))
    exact ⟨_, by rw [Prog.run, hmore, World.called, List.append_assoc]⟩

theorem meets_true (answer : ℕ → (c : Call) → Reply c) (p : Prog Store Write Reply α) (w : World Store Reply) :
    p.Meets apply (fun _ _ => True) answer w := by
  induction p generalizing w with
  | done a => trivial
  | raised => trivial
  | read next ih => exact ih w.store w
  | write x next ih => exact ⟨trivial, ih _⟩
  | call c next ih => exact ih _ _

/-- A weakest precondition without a condition on the writes holds of every execution. -/
theorem wp_run (answer : ℕ → (c : Call) → Reply c) {p : Prog Store Write Reply α}
    {Q : Option α → World Store Reply → Prop} {w : World Store Reply} (h : p.wp apply (fun _ _ => True) Q w) :
    Q (p.run apply answer w).1 (p.run apply answer w).2 := wp_sound h (meets_true answer p w)

/-- A safe program ends without raising when the calls it makes come back as they should. -/
theorem Prog.Safe.run_ne_none {answer : ℕ → (c : Call) → Reply c} {p : Prog Store Write Reply α} (hp : p.Safe good)
    {w : World Store Reply}
    (hgood : ∀ call ∈ (p.run apply answer w).2.calls.drop w.calls.length, good call.1 call.2) :
    (p.run apply answer w).1 ≠ none := by
  induction p generalizing w with
  | done a => exact Option.some_ne_none a
  | raised => exact hp.elim
  | read next ih => exact ih w.store (hp _) hgood
  | write x next ih => exact ih (w := w.put apply x) hp hgood
  | call c next ih =>
    -- The log starts with this call, and goes on with those of the rest.
    obtain ⟨more, hmore⟩ : ∃ more, ((next (answer w.calls.length c)).run apply answer
        (w.called c (answer w.calls.length c))).2.calls = (w.called c (answer w.calls.length c)).calls ++ more :=
      calls_run answer _ _
    have hcalls : ((Prog.call c next).run apply answer w).2.calls =
        w.calls ++ ⟨c, answer w.calls.length c⟩ :: more := by
      rw [Prog.run, hmore, World.called, List.append_assoc, List.singleton_append]
    rw [hcalls, List.drop_left] at hgood
    refine ih _ (hp _ (hgood ⟨c, answer w.calls.length c⟩ (by simp))) (w := w.called c _) fun call hcall => ?_
    rw [hmore] at hcall
    simp only [World.called, List.drop_left] at hcall
    exact hgood call (List.mem_cons_of_mem _ hcall)

end Structure

/-! ### Properties that composition keeps -/

/-- A property of programs that the programs made up of such ones have as well. -/
structure Compositional (K : (α : Type) → Prog Store Write Reply α → Prop) : Prop where
  pure : ∀ {α : Type} (a : α), K α (.done a)
  get : K Store Prog.get
  bind : ∀ {α β : Type} {p : Prog Store Write Reply α} {f : α → Prog Store Write Reply β},
    K α p → (∀ a, K β (f a)) → K β (p >>= f)

section Composition
variable {K : (α : Type) → Prog Store Write Reply α → Prop}

theorem Compositional.when (hK : Compositional K) {c : Bool} {p : Prog Store Write Reply Unit} (hp : c = true → K Unit p) :
    K Unit (Prog.when_ c p) := by
  cases c with
  | true => exact hp rfl
  | false => exact hK.pure ()

theorem Compositional.forEach (hK : Compositional K) {f : β → Prog Store Write Reply Unit} (bs : List β)
    (hf : ∀ b ∈ bs, K Unit (f b)) : K Unit (Prog.forEach bs f) := by
  induction bs with
  | nil => exact hK.pure ()
  | cons b bs ih =>
    exact hK.bind (hf b (List.mem_cons_self ..)) fun _ => ih fun b' hb' => hf b' (List.mem_cons_of_mem _ hb')

/-- The program keeps a property of the world, however it ends. -/
def Prog.Preserves (apply : Store → Write → Store) (ok : Store → Write → Prop) (I : World Store Reply → Prop)
    (p : Prog Store Write Reply α) : Prop :=
  ∀ w : World Store Reply, I w → p.wp apply ok (fun _ w' => I w') w

theorem compositional_preserves {apply : Store → Write → Store} {ok : Store → Write → Prop}
    {I : World Store Reply → Prop} : Compositional fun _ (p : Prog Store Write Reply _) => p.Preserves apply ok I where
  pure := fun _ _ hw => hw
  get := fun _ hw => hw
  bind := by
    intro α β p f hp hf w hw
    refine wp_bind (wp_mono (fun a w' hw' => ?_) (hp w hw))
    cases a with
    | none => exact hw'
    | some a => exact hf a w' hw'

theorem compositional_keeps {apply : Store → Write → Store} {ok : Store → Write → Prop} {I : Store → Prop} :
    Compositional fun _ (p : Prog Store Write Reply _) => p.Keeps apply ok I where
  pure := keeps_pure
  get := fun _ hw => hw
  bind := keeps_bind

/-- A loop that does its part for every element and undoes it for none. -/
theorem wp_forEach_each {apply : Store → Write → Store} {ok : Store → Write → Prop} {f : β → Prog Store Write Reply Unit}
    {I : World Store Reply → Prop} {P : β → World Store Reply → Prop} (bs : List β)
    (each : ∀ b ∈ bs, ∀ w, I w → (f b).wp apply ok (fun a w' => a ≠ none → I w' ∧ P b w') w)
    (keep : ∀ b ∈ bs, ∀ b' ∈ bs, (f b).Preserves apply ok fun w => I w ∧ P b' w) {w : World Store Reply} (hw : I w) :
    (Prog.forEach bs f).wp apply ok (fun a w' => a ≠ none → I w' ∧ ∀ b ∈ bs, P b w') w := by
  induction bs generalizing w with
  | nil => exact fun _ => ⟨hw, by simp⟩
  | cons b bs ih =>
    refine wp_bind (wp_mono (fun a w1 h1 => ?_) (each b (List.mem_cons_self ..) w hw))
    cases a with
    | none => exact fun h => absurd rfl h
    | some _ =>
      obtain ⟨hI, hP⟩ := h1 (Option.some_ne_none _)
      have hrest := ih (fun b' hb' => each b' (List.mem_cons_of_mem _ hb'))
        (fun b' hb' b'' hb'' => keep b' (List.mem_cons_of_mem _ hb') b'' (List.mem_cons_of_mem _ hb'')) hI
      have hkept : (Prog.forEach bs f).Preserves apply ok fun w => I w ∧ P b w :=
        compositional_preserves.forEach bs fun b' hb' => keep b' (List.mem_cons_of_mem _ hb') b (List.mem_cons_self ..)
      refine wp_mono (fun a w2 h2 hne => ?_) (wp_and hrest (hkept w1 ⟨hI, hP⟩))
      obtain ⟨hI2, hall⟩ := h2.1 hne
      refine ⟨hI2, fun b' hb' => ?_⟩
      rcases List.mem_cons.mp hb' with rfl | hb'
      · exact h2.2.2
      · exact hall b' hb'

theorem compositional_only {A : Write → Prop} : Compositional fun _ (p : Prog Store Write Reply _) => p.Only A where
  pure := only_pure
  get := fun _ => trivial
  bind := only_bind

end Composition

/-! ### Executions that are cut off -/

/-- The program up to its first `k` writes and calls. -/
def Prog.cut : ℕ → Prog Store Write Reply α → Prog Store Write Reply α
  | _, .done a => .done a
  | _, .raised => .raised
  | k, .read next => .read fun s => (next s).cut k
  | 0, .write _ _ => .raised
  | k + 1, .write x next => .write x (next.cut k)
  | 0, .call _ _ => .raised
  | k + 1, .call c next => .call c fun r => (next r).cut k

/-- The property holds in every world the execution passes through, whatever the replies. -/
def Prog.Through (apply : Store → Write → Store) (I : World Store Reply → Prop) :
    Prog Store Write Reply α → World Store Reply → Prop
  | .done _, w => I w
  | .raised, w => I w
  | .read next, w => (next w.store).Through apply I w
  | .write x next, w => I w ∧ next.Through apply I (w.put apply x)
  | .call c next, w => I w ∧ ∀ r, (next r).Through apply I (w.called c r)

/-- Started where the property holds, the program has it hold in every world. -/
def Prog.Guards (apply : Store → Write → Store) (I : World Store Reply → Prop) (p : Prog Store Write Reply α) : Prop :=
  ∀ w, I w → p.Through apply I w

section Cut
variable {apply} {I J : World Store Reply → Prop}

theorem through_get_bind {f : Store → Prog Store Write Reply α} {w : World Store Reply} :
    (Prog.get >>= f).Through apply I w ↔ (f w.store).Through apply I w := Iff.rfl

theorem Prog.Through.first {p : Prog Store Write Reply α} {w : World Store Reply} (h : p.Through apply I w) : I w := by
  induction p with
  | done a => exact h
  | raised => exact h
  | read next ih => exact ih w.store h
  | write x next ih => exact h.1
  | call c next ih => exact h.1

/-- What holds throughout holds wherever the program is cut off. -/
theorem Prog.Through.cut {p : Prog Store Write Reply α} {w : World Store Reply} (h : p.Through apply I w) (k : ℕ) :
    (p.cut k).Through apply I w := by
  induction p generalizing w k with
  | done a => cases k <;> exact h
  | raised => cases k <;> exact h
  | read next ih => cases k <;> exact ih w.store h _
  | write x next ih =>
    cases k with
    | zero => exact h.1
    | succ k => exact ⟨h.1, ih h.2 k⟩
  | call c next ih =>
    cases k with
    | zero => exact h.1
    | succ k => exact ⟨h.1, fun r => ih r (h.2 r) k⟩

/-- What holds throughout holds at the end of every execution. -/
theorem Prog.Through.run {p : Prog Store Write Reply α} {w : World Store Reply} (h : p.Through apply I w)
    (answer : ℕ → (c : Call) → Reply c) : I (p.run apply answer w).2 := by
  induction p generalizing w with
  | done a => exact h
  | raised => exact h
  | read next ih => exact ih w.store h
  | write x next ih => exact ih h.2
  | call c next ih => exact ih _ (h.2 _)

theorem guards_bind {p : Prog Store Write Reply α} {f : α → Prog Store Write Reply β} (hp : p.Guards apply I)
    (hf : ∀ a, (f a).Guards apply I) : (p >>= f).Guards apply I := by
  intro w hw
  have hthrough := hp w hw
  clear hp hw
  change (p.bind f).Through apply I w
  induction p generalizing w with
  | done a => exact hf a w hthrough
  | raised => exact hthrough
  | read next ih => exact ih w.store w hthrough
  | write x next ih => exact ⟨hthrough.1, ih _ hthrough.2⟩
  | call c next ih => exact ⟨hthrough.1, fun r => ih r _ (hthrough.2 r)⟩

theorem compositional_guards : Compositional fun _ (p : Prog Store Write Reply _) => p.Guards apply I where
  pure := fun _ _ hw => hw
  get := fun _ hw => hw
  bind := guards_bind

/-- What every write of the program keeps holds in every world. -/
theorem Prog.Only.guards {A : Write → Prop} {I : Store → Prop} {p : Prog Store Write Reply α} (hp : p.Only A)
    (hA : ∀ s x, A x → I s → I (apply s x)) : p.Guards apply fun w : World Store Reply => I w.store := by
  intro w hw
  induction p generalizing w with
  | done a => exact hw
  | raised => exact hw
  | read next ih => exact ih w.store (hp _) w hw
  | write x next ih => exact ⟨hw, ih hp.2 _ (hA _ x hp.1 hw)⟩
  | call c next ih => exact ⟨hw, fun r => ih r (hp r) _ hw⟩

theorem guards_catch {p handler : Prog Store Write Reply α} (hp : p.Guards apply I) (hh : handler.Guards apply I) :
    (p.catch_ handler).Guards apply I := by
  intro w hw
  have hthrough := hp w hw
  clear hp hw
  induction p generalizing w with
  | done a => exact hthrough
  | raised => exact hh w hthrough
  | read next ih => exact ih w.store w hthrough
  | write x next ih => exact ⟨hthrough.1, ih _ hthrough.2⟩
  | call c next ih => exact ⟨hthrough.1, fun r => ih r _ (hthrough.2 r)⟩

theorem Prog.Through.wp {ok : Store → Write → Prop} {p : Prog Store Write Reply α} {w : World Store Reply}
    (h : p.Through apply I w) : p.wp apply ok (fun _ w' => I w') w := by
  induction p generalizing w with
  | done a => exact h
  | raised => exact h
  | read next ih => exact ih w.store h
  | write x next ih => exact fun _ => ih h.2
  | call c next ih => exact fun r => ih r (h.2 r)

theorem Prog.Guards.preserves {ok : Store → Write → Prop} {p : Prog Store Write Reply α} (hp : p.Guards apply I) :
    p.Preserves apply ok I := fun w hw => (hp w hw).wp

theorem wp_cut_get_bind {ok : Store → Write → Prop} {f : Store → Prog Store Write Reply α}
    {Q : Option α → World Store Reply → Prop} {w : World Store Reply} (k : ℕ) :
    ((Prog.get >>= f).cut k).wp apply ok Q w ↔ ((f w.store).cut k).wp apply ok Q w := by
  cases k <;> rfl

/-- A program that is cut off ends as it would have, or in a world it passes through. -/
theorem wp_cut {ok : Store → Write → Prop} {p : Prog Store Write Reply α} {Q : Option α → World Store Reply → Prop}
    {w : World Store Reply} (hwp : p.wp apply ok Q w) (h : p.Through apply I w) (k : ℕ) :
    (p.cut k).wp apply ok (fun a w' => Q a w' ∨ a = none ∧ I w') w := by
  induction p generalizing w k with
  | done a => cases k <;> exact .inl hwp
  | raised => cases k <;> exact .inl hwp
  | read next ih => cases k <;> exact ih w.store hwp h _
  | write x next ih =>
    cases k with
    | zero => exact .inr ⟨rfl, h.1⟩
    | succ k => exact fun hx => ih (hwp hx) h.2 k
  | call c next ih =>
    cases k with
    | zero => exact .inr ⟨rfl, h.1⟩
    | succ k => exact fun r => ih r (hwp r) (h.2 r) k

/-- A composition is cut off in its first part, or after it. -/
theorem wp_cut_bind {ok : Store → Write → Prop} {p : Prog Store Write Reply α} {f : α → Prog Store Write Reply β}
    {Q : Option β → World Store Reply → Prop} {w : World Store Reply}
    (h : ∀ k, (p.cut k).wp apply ok (fun a w' => a.elim (Q none w') fun a => ∀ k, ((f a).cut k).wp apply ok Q w') w) (k : ℕ) :
    ((p >>= f).cut k).wp apply ok Q w := by
  change ((p.bind f).cut k).wp apply ok Q w
  induction p generalizing w k with
  | done a => exact h 0 k
  | raised => cases k <;> exact h 0
  | read next ih =>
    have h' : ∀ k, ((next w.store).cut k).wp apply ok
        (fun a w' => a.elim (Q none w') fun a => ∀ k, ((f a).cut k).wp apply ok Q w') w := fun k => by
      have hk := h k
      cases k <;> exact hk
    cases k <;> exact ih w.store h' _
  | write x next ih =>
    cases k with
    | zero => exact h 0
    | succ k => exact fun hx => ih (fun k => h (k + 1) hx) k
  | call c next ih =>
    cases k with
    | zero => exact h 0
    | succ k => exact fun r => ih r (fun k => h (k + 1) r) k

end Cut

end Upstat.AwaitedPrograms
