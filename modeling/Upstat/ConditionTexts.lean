import Mathlib.Data.List.Nodup
import Mathlib.Data.List.Pairwise
import Mathlib.Logic.Function.Basic

/-! # Conditions as text, and conditions with neutral parts

The text of a condition is evaluated with the usual precedence, over the truth values of its
atoms. A condition may also have parts that are to be passed over; if they are written as what
is true, that is harmless only where they stand among the terms of a conjunction. -/
namespace Upstat.ConditionTexts

/-! ## Texts -/

inductive Token (α : Type) where
  | and | or | not | opening | closing
  | one
  | atom (a : α)
  deriving DecidableEq

variable {α β : Type}

/-- A part between parens: whether a disjunct before holds, whether the conjuncts of this one
do, whether NOT stands before an operand, and whether an operand is awaited. -/
structure Frame where
  any : Bool := false
  all : Bool := true
  negated : Bool := false
  awaits : Bool := true

def Frame.put (f : Frame) (b : Bool) : Frame := { f with all := f.all && (b != f.negated), negated := false, awaits := false }

def Frame.value (f : Frame) : Bool := f.any || f.all

/-- The value of a text within the open parens of `outer`, if it is well formed. -/
def evalFrom (v : α → Bool) : List Frame → Frame → List (Token α) → Option Bool
  | [], f, [] => if f.awaits then none else some f.value
  | _ :: _, _, [] => none
  | outer, f, .atom a :: ts => if f.awaits then evalFrom v outer (f.put (v a)) ts else none
  | outer, f, .one :: ts => if f.awaits then evalFrom v outer (f.put true) ts else none
  | outer, f, .not :: ts => if f.awaits then evalFrom v outer { f with negated := !f.negated } ts else none
  | outer, f, .and :: ts => if f.awaits then none else evalFrom v outer { f with awaits := true } ts
  | outer, f, .or :: ts => if f.awaits then none else evalFrom v outer { any := f.value } ts
  | outer, f, .opening :: ts => if f.awaits then evalFrom v (f :: outer) {} ts else none
  | [], _, .closing :: _ => none
  | g :: outer, f, .closing :: ts => if f.awaits then none else evalFrom v outer (g.put f.value) ts

def eval (v : α → Bool) (ts : List (Token α)) : Option Bool := evalFrom v [] {} ts

/-- The text takes the evaluation from one frame to another, whatever stands around it. -/
def Takes (v : α → Bool) (f : Frame) (ts : List (Token α)) (g : Frame) : Prop :=
  ∀ outer rest, evalFrom v outer f (ts ++ rest) = evalFrom v outer g rest

variable {v : α → Bool} {f g h : Frame} {ts us : List (Token α)}

theorem Takes.nil : Takes v f [] f := fun _ _ => rfl

theorem Takes.append (hts : Takes v f ts g) (hus : Takes v g us h) : Takes v f (ts ++ us) h := by
  intro outer rest
  rw [List.append_assoc, hts, hus]

theorem Takes.atom (hf : f.awaits = true) (a : α) : Takes v f [.atom a] (f.put (v a)) := by
  intro outer rest
  cases outer <;> exact if_pos hf

theorem Takes.one (hf : f.awaits = true) : Takes v f [.one] (f.put true) := by
  intro outer rest
  cases outer <;> exact if_pos hf

theorem Takes.and (hf : f.awaits = false) : Takes v f [.and] { f with awaits := true } := by
  intro outer rest
  have hne : ¬f.awaits = true := by simp [hf]
  cases outer <;> exact if_neg hne

theorem Takes.or (hf : f.awaits = false) : Takes v f [.or] { any := f.value } := by
  intro outer rest
  have hne : ¬f.awaits = true := by simp [hf]
  cases outer <;> exact if_neg hne

theorem Takes.not (hf : f.awaits = true) : Takes v f [.not] { f with negated := !f.negated } := by
  intro outer rest
  cases outer <;> exact if_pos hf

/-- What a text means on its own, it means between parens. -/
theorem Takes.parens (hf : f.awaits = true) (hts : Takes v {} ts g) (hg : g.awaits = false) :
    Takes v f (.opening :: ts ++ [.closing]) (f.put g.value) := by
  intro outer rest
  have hopen : evalFrom v outer f (.opening :: ts ++ [.closing] ++ rest) = evalFrom v (f :: outer) {} (ts ++ ([.closing] ++ rest)) := by
    rw [List.append_assoc]
    cases outer <;> exact if_pos hf
  have hne : ¬g.awaits = true := by simp [hg]
  have hclose : evalFrom v (f :: outer) g ([.closing] ++ rest) = evalFrom v outer (f.put g.value) rest := if_neg hne
  rw [hopen, hts, hclose]

theorem Takes.eval (hts : Takes v {} ts g) (hg : g.awaits = false) : eval v ts = some g.value := by
  have hrest : evalFrom v [] {} ts = evalFrom v [] g [] := by
    rw [← hts [] [], List.append_nil]
  have hne : ¬g.awaits = true := by simp [hg]
  have hend : evalFrom v [] g [] = some g.value := if_neg hne
  exact hrest.trans hend

/-! ## Operands and what joins them -/

/-- A text that stands as one operand of a value. -/
def Operand (v : α → Bool) (p : List (Token α)) (b : Bool) : Prop := ∀ f : Frame, f.awaits = true → Takes v f p (f.put b)

theorem Operand.atom (a : α) : Operand v [.atom a] (v a) := fun _ hf => .atom hf a

theorem Operand.one : Operand v [.one] true := fun _ hf => .one hf

def parens (p : List (Token α)) : List (Token α) := .opening :: p ++ [.closing]

theorem Operand.parens (hts : Takes v {} ts g) (hg : g.awaits = false) : Operand v (parens ts) g.value :=
  fun _ hf => .parens hf hts hg

theorem Operand.not {b : Bool} (h : Operand v ts b) : Operand v (.not :: ts) (!b) := by
  intro f hf
  have hput : ({ f with negated := !f.negated } : Frame).put b = f.put !b := by
    cases f with
    | mk any all negated awaits => cases negated <;> cases b <;> rfl
  rw [← List.singleton_append, ← hput]
  exact (Takes.not hf).append (h _ hf)

/-- Values joined by AND, or else by OR. -/
def combine (conj : Bool) (bs : List Bool) : Bool := if ∀ b ∈ bs, b = conj then conj else !conj

theorem combine_eq_iff {conj : Bool} {bs : List Bool} : combine conj bs = conj ↔ ∀ b ∈ bs, b = conj := by
  rw [combine]
  split_ifs with h
  · exact ⟨fun _ => h, fun _ => rfl⟩
  · exact ⟨fun hc => absurd hc (by simp), fun hall => absurd hall h⟩

theorem combine_cons (conj b : Bool) (bs : List Bool) :
    combine conj (b :: bs) = bif conj then b && combine conj bs else b || combine conj bs := by
  rw [combine, combine]
  by_cases h : ∀ b ∈ bs, b = conj
  · cases conj <;> cases b <;> simp
  · have hcons : ¬∀ c ∈ b :: bs, c = conj := fun hall => h fun c hc => hall c (List.mem_cons_of_mem _ hc)
    rw [if_neg h, if_neg hcons]
    cases conj <;> cases b <;> rfl

/-- Parts with the operator between them. -/
def join (conj : Bool) : List (List (Token α)) → List (Token α)
  | [] => []
  | [p] => p
  | p :: q :: ps => p ++ (if conj then .and else .or) :: join conj (q :: ps)

/-- The values of the operands. -/
inductive Operands (v : α → Bool) : List (List (Token α)) → List Bool → Prop
  | nil : Operands v [] []
  | cons {p : List (Token α)} {b : Bool} {ps : List (List (Token α))} {bs : List Bool} :
      Operand v p b → Operands v ps bs → Operands v (p :: ps) (b :: bs)

theorem Operands.append {ps qs : List (List (Token α))} {bs cs : List Bool} (h : Operands v ps bs) (h' : Operands v qs cs) :
    Operands v (ps ++ qs) (bs ++ cs) := by
  induction h with
  | nil => exact h'
  | cons hp _ ih => exact .cons hp ih

theorem Operands.conjunction {ps : List (List (Token α))} {bs : List Bool} (h : Operands v ps bs) (hne : ps ≠ []) :
    ∀ x y, Takes v ⟨x, y, false, true⟩ (join true ps) ⟨x, y && combine true bs, false, false⟩ := by
  induction h with
  | nil => exact absurd rfl hne
  | @cons p b ps bs hp hps ih =>
    intro x y
    have hput : Frame.put ⟨x, y, false, true⟩ b = ⟨x, y && b, false, false⟩ := by simp [Frame.put]
    have hfirst := hp ⟨x, y, false, true⟩ rfl
    rw [hput] at hfirst
    rw [combine_cons, cond_true, ← Bool.and_assoc]
    cases hps with
    | nil => simpa [join, combine] using hfirst
    | cons hq hqs =>
      have hop : Takes v ⟨x, y && b, false, false⟩ [.and] ⟨x, y && b, false, true⟩ := .and rfl
      exact hfirst.append (hop.append (ih (by simp) x (y && b)))

theorem Operands.disjunction {ps : List (List (Token α))} {bs : List Bool} (h : Operands v ps bs) (hne : ps ≠ []) :
    ∀ x, ∃ x' y', Takes v ⟨x, true, false, true⟩ (join false ps) ⟨x', y', false, false⟩ ∧
      (x' || y') = (x || combine false bs) := by
  induction h with
  | nil => exact absurd rfl hne
  | @cons p b ps bs hp hps ih =>
    intro x
    have hput : Frame.put ⟨x, true, false, true⟩ b = ⟨x, b, false, false⟩ := by simp [Frame.put]
    have hfirst := hp ⟨x, true, false, true⟩ rfl
    rw [hput] at hfirst
    rw [combine_cons, cond_false, ← Bool.or_assoc]
    cases hps with
    | nil => exact ⟨x, b, by simpa [join] using hfirst, by simp [combine]⟩
    | cons hq hqs =>
      have hop : Takes v ⟨x, b, false, false⟩ [.or] ⟨x || b, true, false, true⟩ := .or rfl
      obtain ⟨x', y', hrest, hv⟩ := ih (by simp) (x || b)
      exact ⟨x', y', hfirst.append (hop.append hrest), hv⟩

/-- Operands joined with an operator have the value of their values joined. -/
theorem Operands.join {ps : List (List (Token α))} {bs : List Bool} (h : Operands v ps bs) (hne : ps ≠ []) (conj : Bool) :
    ∃ g, Takes v {} (join conj ps) g ∧ g.awaits = false ∧ g.value = combine conj bs := by
  cases conj with
  | true => exact ⟨_, h.conjunction hne false true, rfl, by simp [Frame.value]⟩
  | false =>
    obtain ⟨x, y, ht, hv⟩ := h.disjunction hne false
    exact ⟨_, ht, rfl, by simpa [Frame.value] using hv⟩

/-! ## Atoms told by their positions -/

@[grind] def atoms : List (Token α) → List α
  | [] => []
  | .atom a :: ts => a :: atoms ts
  | .and :: ts | .or :: ts | .not :: ts | .opening :: ts | .closing :: ts | .one :: ts => atoms ts

/-- The text with its atoms numbered from `k` on. -/
@[grind] def number (k : ℕ) : List (Token α) → List (Token ℕ)
  | [] => []
  | .atom _ :: ts => .atom k :: number (k + 1) ts
  | .and :: ts => .and :: number k ts
  | .or :: ts => .or :: number k ts
  | .not :: ts => .not :: number k ts
  | .opening :: ts => .opening :: number k ts
  | .closing :: ts => .closing :: number k ts
  | .one :: ts => .one :: number k ts

theorem atoms_append (ts us : List (Token α)) : atoms (ts ++ us) = atoms ts ++ atoms us := by
  induction ts with
  | nil => rfl
  | cons t ts ih => cases t <;> simp [atoms, ih]

theorem number_append (ts us : List (Token α)) :
    ∀ k, number k (ts ++ us) = number k ts ++ number (k + (atoms ts).length) us := by
  induction ts with
  | nil => exact fun k => rfl
  | cons t ts ih =>
    intro k
    cases t with
    | atom a =>
      rw [List.cons_append, number, number, ih, atoms, List.length_cons, List.cons_append]
      congr 3
      omega
    | _ => rw [List.cons_append, number, number, ih, atoms, List.cons_append]

theorem atoms_parens (p : List (Token α)) : atoms (parens p) = atoms p := by
  rw [parens, atoms_append, atoms, atoms, atoms, List.append_nil]

theorem number_parens (k : ℕ) (p : List (Token α)) : number k (parens p) = parens (number k p) := by
  rw [parens, number_append, number, number, number, parens]

/-- Parts with their atoms numbered one after the other. -/
def numberParts (k : ℕ) : List (List (Token α)) → List (List (Token ℕ))
  | [] => []
  | p :: ps => number k p :: numberParts (k + (atoms p).length) ps

theorem atoms_join (conj : Bool) (ps : List (List (Token α))) : atoms (join conj ps) = ps.flatMap atoms := by
  induction ps with
  | nil => rfl
  | cons p ps ih =>
    cases ps with
    | nil => simp [join]
    | cons q ps =>
      rw [join, atoms_append, List.flatMap_cons, ← ih]
      cases conj <;> rfl

theorem number_join (conj : Bool) (ps : List (List (Token α))) :
    ∀ k, number k (join conj ps) = join conj (numberParts k ps) := by
  induction ps with
  | nil => exact fun k => rfl
  | cons p ps ih =>
    intro k
    cases ps with
    | nil => rfl
    | cons q ps =>
      have hrest := ih (k + (atoms p).length)
      rw [numberParts] at hrest
      rw [join, number_append, numberParts, numberParts, join, ← hrest]
      cases conj <;> rfl

theorem numberParts_append (ps qs : List (List (Token α))) :
    ∀ k, numberParts k (ps ++ qs) = numberParts k ps ++ numberParts (k + (ps.flatMap atoms).length) qs := by
  induction ps with
  | nil => exact fun k => rfl
  | cons p ps ih =>
    intro k
    rw [List.cons_append, numberParts, numberParts, ih, List.cons_append, List.flatMap_cons, List.length_append, Nat.add_assoc]

/-- A text has the value that it has with its atoms told by their positions. -/
theorem evalFrom_number (v : α → Bool) (w : ℕ → Bool) (ts : List (Token α)) : ∀ k outer f,
    (∀ i a, (atoms ts)[i]? = some a → w (k + i) = v a) → evalFrom w outer f (number k ts) = evalFrom v outer f ts := by
  induction ts with
  | nil => exact fun k outer f _ => by cases outer <;> rfl
  | cons t ts ih =>
    intro k outer f h
    cases t with
    | atom a =>
      have ha : w k = v a := h 0 a rfl
      have hrest := ih (k + 1) outer (f.put (v a)) fun i b hb => by
        rw [Nat.add_right_comm, Nat.add_assoc]
        exact h (i + 1) b hb
      cases outer <;> rw [number, evalFrom, evalFrom, ha, hrest]
    | closing =>
      cases outer with
      | nil => rfl
      | cons g outer => rw [number, evalFrom, evalFrom, ih k outer _ h]
    | and | or | not | one => cases outer <;> rw [number, evalFrom, evalFrom, ih k _ _ h]
    | opening => cases outer <;> rw [number, evalFrom, evalFrom, ih k _ _ h]

theorem eval_number (v : α → Bool) (ts : List (Token α)) :
    eval v ts = eval (fun k => (atoms ts)[k]?.elim false v) (number 0 ts) := by
  refine (evalFrom_number v _ ts 0 [] {} fun i a ha => ?_).symm
  rw [Nat.zero_add, ha, Option.elim_some]

/-! ## Conditions with neutral parts -/

inductive Formula (α : Type) where
  | leaf (a : α)
  | neutral
  | not (f : Formula α)
  | join (conj : Bool) (fs : List (Formula α))

namespace Formula

mutual

/-- The value when what is neutral is written as what is true. -/
def value (v : α → Bool) : Formula α → Bool
  | leaf a => v a
  | neutral => true
  | not f => !value v f
  | join conj fs => combine conj (values v fs)

def values (v : α → Bool) : List (Formula α) → List Bool
  | [] => []
  | f :: fs => value v f :: values v fs

end

mutual

/-- What is said of `v`, if anything, when what is neutral is passed over. -/
def meaning (v : α → Bool) : Formula α → Option Bool
  | leaf a => some (v a)
  | neutral => none
  | not f => (meaning v f).map (!·)
  | join conj fs => if meanings v fs = [] then none else some (combine conj (meanings v fs))

def meanings (v : α → Bool) : List (Formula α) → List Bool
  | [] => []
  | f :: fs => (meaning v f).toList ++ meanings v fs

end

mutual

/-- The atoms from left to right. -/
def leaves : Formula α → List α
  | leaf a => [a]
  | neutral => []
  | not f => leaves f
  | join _ fs => allLeaves fs

def allLeaves : List (Formula α) → List α
  | [] => []
  | f :: fs => leaves f ++ allLeaves fs

end

mutual

/-- No atom is in it. -/
def isNeutral : Formula α → Bool
  | leaf _ => false
  | neutral => true
  | not f => isNeutral f
  | join _ fs => allNeutral fs

def allNeutral : List (Formula α) → Bool
  | [] => true
  | f :: fs => isNeutral f && allNeutral fs

end

mutual

/-- Beside other terms, what is neutral is true in a conjunction and false in a disjunction. -/
def harmless : Formula α → Bool
  | leaf _ => true
  | neutral => true
  | not f => harmless f
  | join conj fs => allNeutral fs || harmlessIn conj fs

def harmlessIn (conj : Bool) : List (Formula α) → Bool
  | [] => true
  | f :: fs => (if isNeutral f then value (fun _ => true) f == conj else harmless f) && harmlessIn conj fs

end

theorem values_eq (v : α → Bool) (fs : List (Formula α)) : values v fs = fs.map (value v) := by
  induction fs with
  | nil => rfl
  | cons f fs ih => rw [values, ih, List.map_cons]

theorem meanings_eq (v : α → Bool) (fs : List (Formula α)) : meanings v fs = fs.filterMap (meaning v) := by
  induction fs with
  | nil => rfl
  | cons f fs ih =>
    rw [meanings, ih, List.filterMap_cons]
    cases meaning v f <;> rfl

theorem mem_allLeaves {fs : List (Formula α)} {a : α} : a ∈ allLeaves fs ↔ ∃ f ∈ fs, a ∈ leaves f := by
  induction fs with
  | nil => simp [allLeaves]
  | cons f fs ih => simp [allLeaves, ih]

theorem allNeutral_iff {fs : List (Formula α)} : allNeutral fs = true ↔ ∀ f ∈ fs, isNeutral f = true := by
  induction fs with
  | nil => simp [allNeutral]
  | cons f fs ih => simp [allNeutral, ih]

theorem harmlessIn_iff {conj : Bool} {fs : List (Formula α)} : harmlessIn conj fs = true ↔
    ∀ f ∈ fs, (isNeutral f = true → value (fun _ => true) f = conj) ∧ (isNeutral f = false → harmless f = true) := by
  induction fs with
  | nil => simp [harmlessIn]
  | cons f fs ih =>
    rw [harmlessIn, Bool.and_eq_true, ih, List.forall_mem_cons]
    cases h : isNeutral f <;> simp

/-- For an induction over conditions, with what holds of all terms of a join. -/
theorem induct {P : Formula α → Prop} (hleaf : ∀ a, P (leaf a)) (hneutral : P neutral) (hnot : ∀ f, P f → P (not f))
    (hjoin : ∀ conj fs, (∀ f ∈ fs, P f) → P (join conj fs)) : ∀ f, P f
  | leaf a => hleaf a
  | neutral => hneutral
  | not f => hnot f (induct hleaf hneutral hnot hjoin f)
  | join conj fs => hjoin conj fs fun f _ => induct hleaf hneutral hnot hjoin f

/-! ## What the values depend on -/

theorem isNeutral_iff {f : Formula α} : isNeutral f = true ↔ leaves f = [] := by
  induction f using induct with
  | hleaf a => simp [isNeutral, leaves]
  | hneutral => simp [isNeutral, leaves]
  | hnot f ih => exact ih
  | hjoin conj fs ih =>
    rw [isNeutral, allNeutral_iff, leaves, List.eq_nil_iff_forall_not_mem]
    constructor
    · intro h a ha
      obtain ⟨f, hf, ha⟩ := mem_allLeaves.mp ha
      rw [(ih f hf).mp (h f hf)] at ha
      simp at ha
    · intro h f hf
      exact (ih f hf).mpr (List.eq_nil_iff_forall_not_mem.mpr fun a ha => h a (mem_allLeaves.mpr ⟨f, hf, ha⟩))

theorem value_congr {v w : α → Bool} {f : Formula α} (h : ∀ a ∈ leaves f, v a = w a) : value v f = value w f := by
  induction f using induct with
  | hleaf a => exact h a (by simp [leaves])
  | hneutral => rfl
  | hnot f ih => rw [value, value, ih h]
  | hjoin conj fs ih =>
    rw [value, value, values_eq, values_eq]
    congr 1
    exact List.map_congr_left fun f hf => ih f hf fun a ha => h a (mem_allLeaves.mpr ⟨f, hf, ha⟩)

theorem meaning_congr {v w : α → Bool} {f : Formula α} (h : ∀ a ∈ leaves f, v a = w a) : meaning v f = meaning w f := by
  induction f using induct with
  | hleaf a => rw [meaning, meaning, h a (by simp [leaves])]
  | hneutral => rfl
  | hnot f ih => rw [meaning, meaning, ih h]
  | hjoin conj fs ih =>
    have hfs : meanings v fs = meanings w fs := by
      rw [meanings_eq, meanings_eq]
      exact List.filterMap_congr fun f hf => ih f hf fun a ha => h a (mem_allLeaves.mpr ⟨f, hf, ha⟩)
    rw [meaning, meaning, hfs]

theorem values_congr {v w : α → Bool} {fs : List (Formula α)} (h : ∀ a ∈ allLeaves fs, v a = w a) : values v fs = values w fs := by
  rw [values_eq, values_eq]
  exact List.map_congr_left fun f hf => value_congr fun a ha => h a (mem_allLeaves.mpr ⟨f, hf, ha⟩)

theorem meanings_congr {v w : α → Bool} {fs : List (Formula α)} (h : ∀ a ∈ allLeaves fs, v a = w a) :
    meanings v fs = meanings w fs := by
  rw [meanings_eq, meanings_eq]
  exact List.filterMap_congr fun f hf => meaning_congr fun a ha => h a (mem_allLeaves.mpr ⟨f, hf, ha⟩)

theorem value_of_neutral {f : Formula α} (h : isNeutral f = true) (v w : α → Bool) : value v f = value w f :=
  value_congr (by simp [isNeutral_iff.mp h])

/-- Something is said unless all is neutral. -/
theorem meaning_eq_none {v : α → Bool} {f : Formula α} : meaning v f = none ↔ isNeutral f = true := by
  induction f using induct with
  | hleaf a => simp [meaning, isNeutral]
  | hneutral => simp [meaning, isNeutral]
  | hnot f ih => simpa [meaning, isNeutral] using ih
  | hjoin conj fs ih =>
    have hnil : meanings v fs = [] ↔ isNeutral (join conj fs) = true := by
      rw [meanings_eq, List.filterMap_eq_nil_iff, isNeutral, allNeutral_iff]
      exact forall₂_congr fun f hf => ih f hf
    rw [← hnil, meaning]
    split_ifs with h <;> simp [h]

/-! ## Where the neutral parts do no harm -/

/-- The values joined are those of what is not neutral, but for values that change nothing. -/
theorem combine_meanings {v : α → Bool} {conj : Bool} {fs : List (Formula α)}
    (hneutral : ∀ f ∈ fs, isNeutral f = true → value v f = conj)
    (hmeaning : ∀ f ∈ fs, isNeutral f = false → meaning v f = some (value v f)) :
    combine conj (values v fs) = combine conj (meanings v fs) := by
  rw [values_eq, meanings_eq]
  have hiff : (∀ b ∈ fs.map (value v), b = conj) ↔ ∀ b ∈ fs.filterMap (meaning v), b = conj := by
    constructor
    · intro h b hb
      obtain ⟨f, hf, hfb⟩ := List.mem_filterMap.mp hb
      have hn : isNeutral f = false := by
        rw [← Bool.not_eq_true, ← meaning_eq_none (v := v), hfb]
        simp
      rw [hmeaning f hf hn] at hfb
      obtain rfl := Option.some.inj hfb
      exact h _ (List.mem_map_of_mem hf)
    · intro h b hb
      obtain ⟨f, hf, rfl⟩ := List.mem_map.mp hb
      cases hn : isNeutral f with
      | true => exact hneutral f hf hn
      | false => exact h _ (List.mem_filterMap.mpr ⟨f, hf, hmeaning f hf hn⟩)
  rw [combine, combine, if_congr hiff rfl rfl]

theorem meaning_of_harmless {v : α → Bool} {f : Formula α} (h : harmless f = true) (hn : isNeutral f = false) :
    meaning v f = some (value v f) := by
  induction f using induct with
  | hleaf a => rfl
  | hneutral => simp [isNeutral] at hn
  | hnot f ih => rw [meaning, ih h hn, value, Option.map_some]
  | hjoin conj fs ih =>
    rw [isNeutral] at hn
    rw [harmless, hn, Bool.false_or, harmlessIn_iff] at h
    have hne : meanings v fs ≠ [] := by
      intro hnil
      have : meaning v (join conj fs) = none := by rw [meaning, if_pos hnil]
      rw [meaning_eq_none, isNeutral, hn] at this
      exact absurd this (by decide)
    rw [meaning, if_neg hne, value]
    exact congrArg some (combine_meanings (fun f hf hfn => by rw [← (h f hf).1 hfn]; exact value_of_neutral hfn v _)
      fun f hf hfn => ih f hf ((h f hf).2 hfn) hfn).symm

/-! ## Where they do harm -/

theorem allLeaves_eq (fs : List (Formula α)) : allLeaves fs = fs.flatMap leaves := by
  induction fs with
  | nil => rfl
  | cons f fs ih => rw [allLeaves, ih, List.flatMap_cons]

theorem disjoint_leaves {fs : List (Formula α)} (hnd : (allLeaves fs).Nodup) {f g : Formula α} (hf : f ∈ fs) (hg : g ∈ fs)
    (hne : g ≠ f) : ∀ a ∈ leaves g, a ∉ leaves f := by
  rw [allLeaves_eq, List.nodup_flatMap] at hnd
  have : Std.Symm (Function.onFun List.Disjoint (leaves (α := α))) := ⟨fun _ _ h _ ha hb => h hb ha⟩
  exact fun a ha haf => hnd.2.forall hg hf hne ha haf

theorem nodup_leaves {fs : List (Formula α)} (hnd : (allLeaves fs).Nodup) {f : Formula α} (hf : f ∈ fs) :
    (leaves f).Nodup := by
  rw [allLeaves_eq, List.nodup_flatMap] at hnd
  exact hnd.1 f hf

theorem combine_const {conj b : Bool} {bs : List Bool} (hne : bs ≠ []) (h : ∀ c ∈ bs, c = b) : combine conj bs = b := by
  by_cases hb : b = conj
  · subst hb
    exact combine_eq_iff.mpr h
  · obtain ⟨c, bs, rfl⟩ := List.exists_cons_of_ne_nil hne
    have hnot : ¬combine conj (c :: bs) = conj := fun hall => hb ((h c (by simp)).symm.trans (combine_eq_iff.mp hall c (by simp)))
    exact (Bool.eq_not.mpr hnot).trans (Bool.eq_not.mpr hb).symm

theorem meanings_ne_nil {v : α → Bool} {fs : List (Formula α)} (h : allNeutral fs = false) : meanings v fs ≠ [] := by
  intro hnil
  have : meaning v (join true fs) = none := by rw [meaning, if_pos hnil]
  rw [meaning_eq_none, isNeutral, h] at this
  exact absurd this (by decide)

/-- Terms without common atoms can be made to say the same. -/
theorem meanings_attained [DecidableEq α] {b : Bool} {fs : List (Formula α)} (hnd : (allLeaves fs).Nodup)
    (h : ∀ f ∈ fs, isNeutral f = false → ∃ v, meaning v f = some b) :
    ∃ v, ∀ f ∈ fs, isNeutral f = false → meaning v f = some b := by
  induction fs with
  | nil => exact ⟨fun _ => b, by simp⟩
  | cons f fs ih =>
    rw [allLeaves, List.nodup_append'] at hnd
    obtain ⟨w, hw⟩ := ih hnd.2.1 fun g hg => h g (List.mem_cons_of_mem _ hg)
    obtain ⟨u, hu⟩ : ∃ u, isNeutral f = false → meaning u f = some b := by
      cases hn : isNeutral f with
      | true => exact ⟨w, by simp⟩
      | false =>
        obtain ⟨u, hu⟩ := h f (by simp) hn
        exact ⟨u, fun _ => hu⟩
    refine ⟨fun a => if a ∈ leaves f then u a else w a, fun g hg hn => ?_⟩
    rcases List.mem_cons.mp hg with rfl | hg
    · rw [meaning_congr (w := u) fun a ha => if_pos ha]
      exact hu hn
    · have hg' : ∀ a ∈ leaves g, a ∉ leaves f := fun a ha haf => hnd.2.2 haf (mem_allLeaves.mpr ⟨g, hg, ha⟩)
      rw [meaning_congr (w := w) fun a ha => if_neg (hg' a ha)]
      exact hw g hg hn

/-- What is not neutral can be made to say either. -/
theorem meaning_attained [DecidableEq α] {f : Formula α} (hnd : (leaves f).Nodup) (hn : isNeutral f = false) (b : Bool) :
    ∃ v, meaning v f = some b := by
  induction f using induct generalizing b with
  | hleaf a => exact ⟨fun _ => b, rfl⟩
  | hneutral => simp [isNeutral] at hn
  | hnot f ih =>
    obtain ⟨v, hv⟩ := ih hnd hn (!b)
    exact ⟨v, by rw [meaning, hv]; simp⟩
  | hjoin conj fs ih =>
    rw [leaves] at hnd
    rw [isNeutral] at hn
    obtain ⟨v, hv⟩ := meanings_attained hnd fun f hf hfn => ih f hf (nodup_leaves hnd hf) hfn b
    refine ⟨v, ?_⟩
    have hne := meanings_ne_nil (v := v) hn
    rw [meaning, if_neg hne, combine_const hne]
    intro c hc
    rw [meanings_eq] at hc
    obtain ⟨f, hf, hfc⟩ := List.mem_filterMap.mp hc
    have hfn : isNeutral f = false := by
      rw [← Bool.not_eq_true, ← meaning_eq_none (v := v), hfc]
      simp
    rw [hv f hf hfn] at hfc
    exact (Option.some.inj hfc).symm

/-- Where the joined values are what is meant for all atoms, each term does no harm in its place. -/
theorem harmlessIn_of_agree [DecidableEq α] {conj : Bool} {fs : List (Formula α)} (hnd : (allLeaves fs).Nodup)
    (hterm : ∀ f ∈ fs, (∀ v b, meaning v f = some b → value v f = b) → harmless f = true)
    (h : ∀ v, combine conj (values v fs) = combine conj (meanings v fs)) : harmlessIn conj fs = true := by
  -- There are atoms for which all that is said is what changes nothing.
  obtain ⟨u, hu⟩ := meanings_attained (b := conj) hnd fun f hf hfn => meaning_attained (nodup_leaves hnd hf) hfn conj
  have hmean : ∀ (v : α → Bool) (P : Bool → Prop), (∀ f ∈ fs, ∀ b, meaning v f = some b → P b) → ∀ b ∈ meanings v fs, P b := by
    intro v P hP b hb
    rw [meanings_eq] at hb
    obtain ⟨f, hf, hfb⟩ := List.mem_filterMap.mp hb
    exact hP f hf b hfb
  have hnot : ∀ {v : α → Bool} {f : Formula α} {b : Bool}, meaning v f = some b → isNeutral f = false := by
    intro v f b hfb
    rw [← Bool.not_eq_true, ← meaning_eq_none (v := v), hfb]
    simp
  have hall : ∀ f ∈ fs, value u f = conj := by
    have hc : combine conj (meanings u fs) = conj := combine_eq_iff.mpr (hmean u _ fun f hf b hfb => by
      rw [hu f hf (hnot hfb)] at hfb
      exact (Option.some.inj hfb).symm)
    rw [← h u, combine_eq_iff, values_eq] at hc
    exact fun f hf => hc _ (List.mem_map_of_mem hf)
  refine harmlessIn_iff.mpr fun f hf => ⟨fun hfn => ?_, fun hfn => hterm f hf fun v b hb => ?_⟩
  · rw [← hall f hf]
    exact value_of_neutral hfn _ _
  · -- Only this term's atoms are changed.
    have hw : ∀ g ∈ fs, g ≠ f → ∀ a ∈ leaves g, (if a ∈ leaves f then v a else u a) = u a := fun g hg hne a ha =>
      if_neg (disjoint_leaves hnd hf hg hne a ha)
    have hwf : ∀ a ∈ leaves f, (if a ∈ leaves f then v a else u a) = v a := fun a ha => if_pos ha
    have hv := h fun a => if a ∈ leaves f then v a else u a
    have hval : combine conj (values (fun a => if a ∈ leaves f then v a else u a) fs) = conj ↔ value v f = conj := by
      rw [combine_eq_iff, values_eq]
      constructor
      · intro hc
        rw [← value_congr hwf]
        exact hc _ (List.mem_map_of_mem hf)
      · intro hc c hcm
        obtain ⟨g, hg, rfl⟩ := List.mem_map.mp hcm
        by_cases hgf : g = f
        · rw [hgf, value_congr hwf, hc]
        · rw [value_congr (hw g hg hgf), hall g hg]
    have hmeant : combine conj (meanings (fun a => if a ∈ leaves f then v a else u a) fs) = conj ↔ b = conj := by
      rw [combine_eq_iff]
      constructor
      · intro hc
        refine hc b ?_
        rw [meanings_eq]
        exact List.mem_filterMap.mpr ⟨f, hf, by rw [meaning_congr hwf, hb]⟩
      · intro hc
        refine hmean _ _ fun g hg c hgc => ?_
        by_cases hgf : g = f
        · rw [hgf, meaning_congr hwf, hb] at hgc
          exact (Option.some.inj hgc).symm.trans hc
        · have hgn := hnot hgc
          rw [meaning_congr (hw g hg hgf), hu g hg hgn] at hgc
          exact (Option.some.inj hgc).symm
    rw [hv, hmeant] at hval
    by_cases hbc : b = conj
    · rw [hval.mp hbc, hbc]
    · exact (Bool.eq_not.mpr (mt hval.mpr hbc)).trans (Bool.eq_not.mpr hbc).symm

theorem harmless_of_agree [DecidableEq α] {f : Formula α} (hnd : (leaves f).Nodup)
    (h : ∀ v b, meaning v f = some b → value v f = b) : harmless f = true := by
  induction f using induct with
  | hleaf a => rfl
  | hneutral => rfl
  | hnot f ih =>
    refine ih hnd fun v b hb => ?_
    have := h v (!b) (by rw [meaning, hb, Option.map_some])
    simpa [value] using this
  | hjoin conj fs ih =>
    rw [leaves] at hnd
    rw [harmless]
    cases hn : allNeutral fs with
    | true => rfl
    | false =>
      refine harmlessIn_of_agree hnd (fun f hf => ih f hf (nodup_leaves hnd hf)) fun v => ?_
      exact h v _ (by rw [meaning, if_neg (meanings_ne_nil hn)])

/-- A conjunction at the top has the value of what is meant, for all atoms, if and only if
nothing neutral does harm in it. -/
theorem conjunction_agrees_iff [DecidableEq α] {fs : List (Formula α)} (hnd : (allLeaves fs).Nodup) :
    (∀ v, combine true (values v fs) = combine true (meanings v fs)) ↔ harmlessIn true fs = true := by
  constructor
  · intro h
    exact harmlessIn_of_agree hnd (fun f hf => harmless_of_agree (nodup_leaves hnd hf)) h
  · intro h v
    rw [harmlessIn_iff] at h
    exact combine_meanings (fun f hf hfn => by rw [← (h f hf).1 hfn]; exact value_of_neutral hfn v _)
      fun f hf hfn => meaning_of_harmless ((h f hf).2 hfn) hfn

end Formula

end Upstat.ConditionTexts
