import Mathlib.Algebra.BigOperators.Group.Finset.Basic
import Mathlib.Algebra.Order.BigOperators.Group.Finset
import Mathlib.Algebra.Ring.Nat
import Mathlib.Logic.Function.Basic
import Upstat.FilteredCounts
import Upstat.GuardedRuns

/-! # The bodies that the gateway reads (`net/ingress.service.ts`)

`receive` and `readBody` of one process, whose requests take turns: a request is resumed some time
after the reading of its body has come to an end, and has its slot until then. -/
namespace Upstat.IngressBodies

open FilteredCounts GuardedRuns

abbrev Bytes := List UInt8

def smallBodyBytes : ℕ := 64 * 1024

structure ApiError where
  status : ℕ
  code : String
  message : String
  retryAfter : Option ℕ := none
  deriving DecidableEq

inductive Refusal where
  /-- What the check throws. -/
  | check (e : ApiError)
  | tooLarge
  | busy
  | unreadable
  | cutShort
  deriving DecidableEq

def Refusal.error (max : ℕ) : Refusal → ApiError
  | .check e => e
  | .tooLarge => { status := 413, code := "payload_too_large", message := s!"The body is over {max} bytes" }
  | .busy => { status := 503, code := "unavailable", message := "Ingest is busy; retry", retryAfter := some 1 }
  | .unreadable => { status := 400, code := "bad_request", message := "The body could not be read" }
  | .cutShort => { status := 400, code := "bad_request", message := "The request was cut short" }

abbrev Result := Except Refusal Bytes

inductive Phase where
  | checking
  | reading (chunks : List Bytes) (size : ℕ)
  /-- The body's promise is settled, and the request is still to be resumed. -/
  | settled (r : Result)
  | answered (r : Result)

def Phase.isReading : Phase → Bool
  | .reading _ _ => true
  | _ => false

structure Request where
  /-- `declaredLength` -/
  declared : Option ℕ
  max : ℕ
  held : Bool
  phase : Phase

inductive Act where
  /-- The check's promise, with what it throws. -/
  | checked (e : Option ApiError)
  | data (chunk : Bytes)
  | end_
  | error
  | close (complete : Bool)
  | resume

/-- `Buffer.concat` -/
def concat (chunks : List Bytes) (size : ℕ) : Bytes := chunks.flatten.take size ++ List.replicate (size - chunks.flatten.length) 0

/-- A body that counts against the cap. -/
def Request.large (q : Request) : Bool := q.declared.all (smallBodyBytes < ·)

def Request.refused (q : Request) (r : Refusal) : Request := { q with phase := .answered (.error r) }

section
variable (cap : ℕ)

/-- What a request does, and how many slots are taken then. -/
def Request.handle (inflight : ℕ) (q : Request) (a : Act) : Request × ℕ :=
  match q.phase, a with
  | .checking, .checked (some e) => (q.refused (.check e), inflight)
  | .checking, .checked none =>
    if q.declared.any (q.max < ·) then (q.refused .tooLarge, inflight)
    else if q.large then
      if cap ≤ inflight then (q.refused .busy, inflight) else ({ q with held := true, phase := .reading [] 0 }, inflight + 1)
    else ({ q with phase := .reading [] 0 }, inflight)
  | .reading chunks size, .data chunk =>
    if q.max < size + chunk.length then ({ q with phase := .settled (.error .tooLarge) }, inflight)
    else ({ q with phase := .reading (chunks ++ [chunk]) (size + chunk.length) }, inflight)
  | .reading chunks size, .end_ => ({ q with phase := .settled (.ok (concat chunks size)) }, inflight)
  | .reading _ _, .error => ({ q with phase := .settled (.error .unreadable) }, inflight)
  | .reading _ _, .close false => ({ q with phase := .settled (.error .cutShort) }, inflight)
  | .settled r, .resume => ({ q with held := false, phase := .answered r }, if q.held then inflight - 1 else inflight)
  | _, _ => (q, inflight)

structure State where
  requests : ℕ → Option Request
  ids : Finset ℕ
  inflight : ℕ

inductive Event where
  | arrive (i : ℕ) (declared : Option ℕ) (max : ℕ)
  | act (i : ℕ) (a : Act)

def step (s : State) : Event → State
  | .arrive i declared max =>
    if i ∈ s.ids then s
    else { s with requests := Function.update s.requests i (some ⟨declared, max, false, .checking⟩), ids := insert i s.ids }
  | .act i a =>
    match s.requests i with
    | none => s
    | some q => { s with requests := Function.update s.requests i (some (q.handle cap s.inflight a).1), inflight := (q.handle cap s.inflight a).2 }

end

def empty : State := ⟨fun _ => none, ∅, 0⟩

/-- How many requests have a slot. -/
def State.holding (s : State) : ℕ := (s.ids.filter fun i => (s.requests i).any Request.held).card

/-! ## One request -/

/-- What a request can do. -/
inductive Handles (cap inflight : ℕ) (q : Request) : Act → Request × ℕ → Prop where
  | idle (a : Act) (unread : q.phase.isReading = true → ∀ chunk, a ≠ .data chunk) : Handles cap inflight q a (q, inflight)
  | refused (e : ApiError) (phase : q.phase = .checking) : Handles cap inflight q (.checked (some e)) (q.refused (.check e), inflight)
  | longer (phase : q.phase = .checking) (declared : ∃ n ∈ q.declared, q.max < n) :
      Handles cap inflight q (.checked none) (q.refused .tooLarge, inflight)
  | busy (phase : q.phase = .checking) (large : q.large = true) (full : cap ≤ inflight) :
      Handles cap inflight q (.checked none) (q.refused .busy, inflight)
  | slot (phase : q.phase = .checking) (declared : ∀ n ∈ q.declared, n ≤ q.max) (large : q.large = true) (free : inflight < cap) :
      Handles cap inflight q (.checked none) ({ q with held := true, phase := .reading [] 0 }, inflight + 1)
  | small (phase : q.phase = .checking) (declared : ∀ n ∈ q.declared, n ≤ q.max) (large : q.large = false) :
      Handles cap inflight q (.checked none) ({ q with phase := .reading [] 0 }, inflight)
  | data {chunks : List Bytes} {size : ℕ} (chunk : Bytes) (phase : q.phase = .reading chunks size) (fits : size + chunk.length ≤ q.max) :
      Handles cap inflight q (.data chunk) ({ q with phase := .reading (chunks ++ [chunk]) (size + chunk.length) }, inflight)
  | tooLarge {chunks : List Bytes} {size : ℕ} (chunk : Bytes) (phase : q.phase = .reading chunks size)
      (exceeds : q.max < size + chunk.length) :
      Handles cap inflight q (.data chunk) ({ q with phase := .settled (.error .tooLarge) }, inflight)
  | end_ {chunks : List Bytes} {size : ℕ} (phase : q.phase = .reading chunks size) :
      Handles cap inflight q .end_ ({ q with phase := .settled (.ok (concat chunks size)) }, inflight)
  | error {chunks : List Bytes} {size : ℕ} (phase : q.phase = .reading chunks size) :
      Handles cap inflight q .error ({ q with phase := .settled (.error .unreadable) }, inflight)
  | close {chunks : List Bytes} {size : ℕ} (phase : q.phase = .reading chunks size) :
      Handles cap inflight q (.close false) ({ q with phase := .settled (.error .cutShort) }, inflight)
  | resume {r : Result} (phase : q.phase = .settled r) :
      Handles cap inflight q .resume ({ q with held := false, phase := .answered r }, if q.held then inflight - 1 else inflight)

section
variable {cap inflight : ℕ} {q : Request} {a : Act} {out : Request × ℕ}

theorem any_lt {declared : Option ℕ} {max : ℕ} : declared.any (max < ·) = true ↔ ∃ n ∈ declared, max < n := by
  cases declared <;> simp

theorem not_any_lt {declared : Option ℕ} {max : ℕ} : ¬declared.any (max < ·) = true ↔ ∀ n ∈ declared, n ≤ max := by
  cases declared <;> simp

theorem handles (cap inflight : ℕ) (q : Request) (a : Act) : Handles cap inflight q a (q.handle cap inflight a) := by
  unfold Request.handle
  cases hphase : q.phase with
  | checking =>
    rcases a with ((- | e) | - | - | - | - | -)
    · dsimp only
      split_ifs with hover hlarge hfull
      · exact .longer hphase (any_lt.mp hover)
      · exact .busy hphase hlarge hfull
      · exact .slot hphase (not_any_lt.mp hover) hlarge (not_le.mp hfull)
      · exact .small hphase (not_any_lt.mp hover) (by simpa using hlarge)
    · exact .refused e hphase
    all_goals exact .idle _ (by simp [hphase, Phase.isReading])
  | reading chunks size =>
    rcases a with (- | chunk | - | - | (- | -) | -)
    · exact .idle _ fun _ => nofun
    · dsimp only
      split_ifs with hover
      · exact .tooLarge chunk hphase hover
      · exact .data chunk hphase (not_lt.mp hover)
    · exact .end_ hphase
    · exact .error hphase
    · exact .close hphase
    · exact .idle _ fun _ => nofun
    · exact .idle _ fun _ => nofun
  | settled r =>
    cases a with
    | resume => exact .resume hphase
    | checked _ | data _ | end_ | error | close _ => exact .idle _ (by simp [hphase, Phase.isReading])
  | answered r => cases a <;> exact .idle _ (by simp [hphase, Phase.isReading])

/-- What a request has to do with its slot and its limit. -/
def Request.Fits (q : Request) : Prop :=
  match q.phase with
  | .checking => q.held = false
  | .reading chunks size => size = chunks.flatten.length ∧ size ≤ q.max ∧ q.held = q.large ∧ ∀ n ∈ q.declared, n ≤ q.max
  | .settled r => q.held = q.large ∧ ∀ b, r = .ok b → b.length ≤ q.max
  | .answered r => q.held = false ∧ ∀ b, r = .ok b → b.length ≤ q.max

theorem concat_eq (chunks : List Bytes) : concat chunks chunks.flatten.length = chunks.flatten := by
  rw [concat, List.take_length, Nat.sub_self, List.replicate_zero, List.append_nil]

theorem Request.Fits.handles (hq : q.Fits) (h : Handles cap inflight q a out) : out.1.Fits := by
  unfold Request.Fits at hq
  cases h with
  | idle _ _ => exact hq
  | refused e phase =>
    rw [phase] at hq
    exact ⟨hq, nofun⟩
  | longer phase _ =>
    rw [phase] at hq
    exact ⟨hq, nofun⟩
  | busy phase _ _ =>
    rw [phase] at hq
    exact ⟨hq, nofun⟩
  | slot phase declared large _ => exact ⟨rfl, Nat.zero_le _, large.symm, declared⟩
  | small phase declared large =>
    rw [phase] at hq
    exact ⟨rfl, Nat.zero_le _, hq.trans large.symm, declared⟩
  | data chunk phase fits =>
    rw [phase] at hq
    exact ⟨by simp [hq.1], fits, hq.2.2⟩
  | tooLarge chunk phase exceeds =>
    rw [phase] at hq
    exact ⟨hq.2.2.1, nofun⟩
  | end_ phase =>
    rw [phase] at hq
    refine ⟨hq.2.2.1, fun b hb => ?_⟩
    obtain rfl := Except.ok.inj hb
    rw [hq.1, concat_eq, ← hq.1]
    exact hq.2.1
  | error phase | close phase =>
    rw [phase] at hq
    exact ⟨hq.2.2.1, nofun⟩
  | resume phase =>
    rw [phase] at hq
    exact ⟨rfl, hq.2⟩

/-- Slots are taken and given back with the count. -/
theorem slots_handles (hheld : q.held = true → 0 < inflight) (h : Handles cap inflight q a out) (hq : q.Fits) :
    out.2 + q.held.toNat = inflight + out.1.held.toNat ∧ (inflight ≤ cap → out.2 ≤ cap) := by
  cases h with
  | slot phase _ _ free =>
    unfold Request.Fits at hq
    rw [phase] at hq
    dsimp only at hq ⊢
    rw [hq, Bool.toNat_false, Bool.toNat_true]
    exact ⟨rfl, fun _ => free⟩
  | resume phase =>
    dsimp only
    cases hq' : q.held with
    | false => exact ⟨rfl, id⟩
    | true =>
      have hpos := hheld hq'
      rw [if_pos rfl, Bool.toNat_true, Bool.toNat_false]
      omega
  | idle _ _ | refused _ _ | longer _ _ | busy _ _ _ | small _ _ _ | data _ _ _ | tooLarge _ _ _ | end_ _ | error _ | close _ => exact ⟨rfl, id⟩

end

/-! ## The slots -/

structure Inv (cap : ℕ) (s : State) : Prop where
  known : ∀ i q, s.requests i = some q → i ∈ s.ids
  fits : ∀ i q, s.requests i = some q → q.Fits
  holding : s.inflight = s.holding
  bound : s.inflight ≤ cap

section
variable {cap : ℕ} {s : State}

theorem inv_empty (cap : ℕ) : Inv cap empty := by
  constructor <;> simp [empty, State.holding]

theorem Inv.of_step (hs : Inv cap s) (e : Event) : Inv cap (step cap s e) := by
  cases e with
  | arrive i declared max =>
    unfold step
    dsimp only
    split_ifs with hi
    · exact hs
    · refine ⟨fun j q hj => ?_, fun j q hj => ?_, ?_, hs.bound⟩
      · by_cases hji : j = i
        · exact hji ▸ Finset.mem_insert_self _ _
        · exact Finset.mem_insert_of_mem (hs.known j q (by simpa [Function.update_of_ne hji] using hj))
      · by_cases hji : j = i
        · obtain rfl : Request.mk declared max false .checking = q := by simpa [hji] using hj
          exact rfl
        · exact hs.fits j q (by simpa [Function.update_of_ne hji] using hj)
      · have hinsert := card_filter_insert (p := fun j => (s.requests j).any Request.held)
          (q := fun j => (Function.update s.requests i (some ⟨declared, max, false, .checking⟩) j).any Request.held) hi fun j hj => by
            have hne : j ≠ i := by
              rintro rfl
              exact hi hj
            rw [Function.update_of_ne hne]
        rw [Function.update_self, Option.any_some, Bool.toNat_false, Nat.add_zero] at hinsert
        exact hs.holding.trans hinsert.symm
  | act i a =>
    unfold step
    dsimp only
    cases hrequest : s.requests i with
    | none => exact hs
    | some q =>
      dsimp only
      have hi := hs.known i q hrequest
      have hfits := hs.fits i q hrequest
      have hheld : q.held = true → 0 < s.inflight := by
        intro hheld
        rw [hs.holding]
        exact Finset.card_pos.mpr ⟨i, Finset.mem_filter.mpr ⟨hi, by simp [hrequest, hheld]⟩⟩
      have hhandles := handles cap s.inflight q a
      generalize q.handle cap s.inflight a = out at hhandles
      obtain ⟨hslots, hbound⟩ := slots_handles hheld hhandles hfits
      refine ⟨fun j q' hj => ?_, fun j q' hj => ?_, ?_, hbound hs.bound⟩
      · by_cases hji : j = i
        · exact hji ▸ hi
        · exact hs.known j q' (by simpa [Function.update_of_ne hji] using hj)
      · by_cases hji : j = i
        · obtain rfl : out.1 = q' := by simpa [hji] using hj
          exact hfits.handles hhandles
        · exact hs.fits j q' (by simpa [Function.update_of_ne hji] using hj)
      · have hchange := card_filter_change (p := fun j => (s.requests j).any Request.held)
          (q := fun j => (Function.update s.requests i (some out.1) j).any Request.held) hi fun j _ hj => by rw [Function.update_of_ne hj]
        rw [Function.update_self, hrequest, Option.any_some, Option.any_some] at hchange
        have hholding : s.inflight = (s.ids.filter fun j => (s.requests j).any Request.held = true).card := hs.holding
        change out.2 = (s.ids.filter fun j => (Function.update s.requests i (some out.1) j).any Request.held = true).card
        omega

end

/-! ## What was received -/

def chunkOf (i : ℕ) : Event → Option Bytes
  | .act j (.data chunk) => if j = i then some chunk else none
  | _ => none

/-- What arrives of a request's body. -/
def received (i : ℕ) (es : List Event) : List Bytes := es.filterMap (chunkOf i)

/-- Why a request has its result. -/
def Reason (cap : ℕ) (es : List Event) (i : ℕ) (q : Request) : Result → Prop
  | .ok b => ∃ es₁ es₂ es₃, es = es₁ ++ .act i (.checked none) :: (es₂ ++ .act i .end_ :: es₃) ∧ b = (received i es₂).flatten
  | .error (.check e) => .act i (.checked (some e)) ∈ es
  | .error .tooLarge => (∃ n ∈ q.declared, q.max < n) ∨
      ∃ es₁ es₂ es₃, es = es₁ ++ .act i (.checked none) :: (es₂ ++ es₃) ∧ q.max < (received i es₂).flatten.length
  | .error .busy => q.large = true ∧
      ∃ es₁ es₂, es = es₁ ++ .act i (.checked none) :: es₂ ∧ (run (step cap) empty es₁).holding = cap
  | .error .unreadable => .act i .error ∈ es
  | .error .cutShort => .act i (.close false) ∈ es

/-- How a request has come to where it is. -/
def Explained (cap : ℕ) (es : List Event) (i : ℕ) (q : Request) : Prop :=
  match q.phase with
  | .checking => True
  | .reading chunks _ => ∃ es₁ es₂, es = es₁ ++ .act i (.checked none) :: es₂ ∧ chunks = received i es₂
  | .settled r | .answered r => Reason cap es i q r

section
variable {cap i : ℕ} {es : List Event} {q : Request} {e : Event}

theorem Reason.concat {r : Result} (h : Reason cap es i q r) (e : Event) : Reason cap (es ++ [e]) i q r := by
  rcases r with (e' | - | - | - | -) | b
  · exact List.mem_append_left _ h
  · refine h.imp_right ?_
    rintro ⟨es₁, es₂, es₃, rfl, hover⟩
    exact ⟨es₁, es₂, es₃ ++ [e], by simp, hover⟩
  · refine h.imp_right ?_
    rintro ⟨es₁, es₂, rfl, hfull⟩
    exact ⟨es₁, es₂ ++ [e], by simp, hfull⟩
  · exact List.mem_append_left _ h
  · exact List.mem_append_left _ h
  · obtain ⟨es₁, es₂, es₃, rfl, hb⟩ := h
    exact ⟨es₁, es₂, es₃ ++ [e], by simp, hb⟩

/-- An event that brings nothing of the body leaves a request explained. -/
theorem Explained.concat (h : Explained cap es i q) (he : q.phase.isReading = true → chunkOf i e = none) : Explained cap (es ++ [e]) i q := by
  unfold Explained at h ⊢
  cases hphase : q.phase with
  | checking => trivial
  | reading chunks size =>
    rw [hphase] at h
    obtain ⟨es₁, es₂, rfl, hchunks⟩ := h
    refine ⟨es₁, es₂ ++ [e], by simp, ?_⟩
    rw [hchunks, received, received, List.filterMap_append]
    simp [he (by rw [hphase]; rfl)]
  | settled r | answered r =>
    rw [hphase] at h
    exact Reason.concat h e

theorem explained_handles {out : Request × ℕ} {a : Act} (hs : Inv cap (run (step cap) empty es))
    (hq : q.Fits) (hexplained : Explained cap es i q)
    (h : Handles cap (run (step cap) empty es).inflight q a out) : Explained cap (es ++ [.act i a]) i out.1 := by
  unfold Request.Fits at hq
  cases h with
  | idle _ unread =>
    refine Explained.concat hexplained fun hreading => ?_
    cases a with
    | data chunk => exact absurd rfl (unread hreading chunk)
    | checked _ | end_ | error | close _ | resume => rfl
  | refused e phase => exact List.mem_append_right _ (List.mem_singleton_self _)
  | longer phase declared => exact .inl declared
  | busy phase large full =>
    refine ⟨large, es, [], rfl, ?_⟩
    rw [← hs.holding]
    exact le_antisymm hs.bound full
  | slot phase declared large free => exact ⟨es, [], rfl, rfl⟩
  | small phase declared large => exact ⟨es, [], rfl, rfl⟩
  | data chunk phase fits =>
    unfold Explained at hexplained
    rw [phase] at hexplained
    obtain ⟨es₁, es₂, rfl, rfl⟩ := hexplained
    refine ⟨es₁, es₂ ++ [.act i (.data chunk)], by simp, ?_⟩
    rw [received, received, List.filterMap_append]
    simp [chunkOf]
  | tooLarge chunk phase exceeds =>
    unfold Explained at hexplained
    rw [phase] at hexplained hq
    obtain ⟨es₁, es₂, rfl, rfl⟩ := hexplained
    refine .inr ⟨es₁, es₂ ++ [.act i (.data chunk)], [], by simp, ?_⟩
    rw [hq.1] at exceeds
    simpa [received, chunkOf] using exceeds
  | end_ phase =>
    unfold Explained at hexplained
    rw [phase] at hexplained hq
    obtain ⟨es₁, es₂, rfl, rfl⟩ := hexplained
    refine ⟨es₁, es₂, [], by simp, ?_⟩
    rw [hq.1, concat_eq]
  | error phase => exact List.mem_append_right _ (List.mem_singleton_self _)
  | close phase => exact List.mem_append_right _ (List.mem_singleton_self _)
  | resume phase =>
    unfold Explained at hexplained
    rw [phase] at hexplained
    exact Reason.concat hexplained _

/-- An event of another request. -/
theorem explained_of_step (hs : Inv cap (run (step cap) empty es))
    (hes : ∀ i q, (run (step cap) empty es).requests i = some q → Explained cap es i q)
    (e : Event) (hq : (step cap (run (step cap) empty es) e).requests i = some q) : Explained cap (es ++ [e]) i q := by
  have hhandled := fun j q' (hj : (run (step cap) empty es).requests j = some q') a =>
    explained_handles hs (hs.fits j q' hj) (hes j q' hj) (handles cap _ q' a)
  generalize run (step cap) empty es = s at hes hq hhandled
  cases e with
  | arrive j declared max =>
    unfold step at hq
    dsimp only at hq
    split_ifs at hq with hj
    · exact (hes i q hq).concat fun _ => rfl
    · by_cases hij : i = j
      · obtain rfl : Request.mk declared max false .checking = q := by simpa [hij] using hq
        trivial
      · exact (hes i q (by simpa [Function.update_of_ne hij] using hq)).concat fun _ => rfl
  | act j a =>
    unfold step at hq
    dsimp only at hq
    cases hrequest : s.requests j with
    | none =>
      rw [hrequest] at hq
      refine (hes i q hq).concat fun _ => ?_
      have hij : j ≠ i := by
        rintro rfl
        exact absurd (hq.symm.trans hrequest) nofun
      cases a <;> simp [chunkOf, hij]
    | some q' =>
      rw [hrequest] at hq
      by_cases hij : i = j
      · subst hij
        obtain rfl : (q'.handle cap s.inflight a).1 = q := by simpa using hq
        exact hhandled i q' hrequest a
      · refine (hes i q (by simpa [Function.update_of_ne hij] using hq)).concat fun _ => ?_
        cases a <;> simp [chunkOf, Ne.symm hij]

theorem explained_run (cap : ℕ) (es : List Event) : ∀ i q, (run (step cap) empty es).requests i = some q → Explained cap es i q := by
  induction es using List.reverseRecOn with
  | nil => exact fun _ _ => nofun
  | append_singleton es e ih =>
    intro i q hq
    rw [run_append] at hq
    exact explained_of_step (run_keeps (fun _ e hs => hs.of_step e) (inv_empty cap) es) ih e hq

end

/-! ## What is in memory -/

/-- What is read of a body. -/
def Phase.body : Phase → Bytes
  | .reading chunks _ => chunks.flatten
  | .settled (.ok b) => b
  | _ => []

def Request.buffered (q : Request) : ℕ := if q.large then q.phase.body.length else 0

/-- The bytes of the large bodies that are being received. -/
def State.buffered (s : State) : ℕ := ∑ i ∈ s.ids, (s.requests i).elim 0 Request.buffered

theorem Request.Fits.buffered {q : Request} (h : q.Fits) : q.buffered ≤ if q.held then q.max else 0 := by
  unfold Request.Fits at h
  unfold Request.buffered
  cases hphase : q.phase with
  | checking => simp [Phase.body]
  | reading chunks size =>
    rw [hphase] at h
    rw [h.2.2.1, Phase.body, ← h.1]
    split_ifs <;> simp [h.2.1]
  | settled r =>
    rw [hphase] at h
    rw [h.1]
    split_ifs
    · rcases r with _ | b
      · exact Nat.zero_le _
      · exact h.2 b rfl
    · exact le_rfl
  | answered r => simp [Phase.body]

theorem Inv.buffered_le {cap m : ℕ} {s : State} (hs : Inv cap s) (hm : ∀ i q, s.requests i = some q → q.max ≤ m) : s.buffered ≤ cap * m := by
  have heach : ∀ i ∈ s.ids, (s.requests i).elim 0 Request.buffered ≤ if (s.requests i).any Request.held then m else 0 := by
    intro i _
    cases hi : s.requests i with
    | none => exact Nat.zero_le _
    | some q =>
      refine (hs.fits i q hi).buffered.trans ?_
      rw [Option.any_some]
      split_ifs
      · exact hm i q hi
      · exact le_rfl
  calc s.buffered ≤ ∑ i ∈ s.ids, if (s.requests i).any Request.held then m else 0 := Finset.sum_le_sum heach
    _ = s.holding * m := by rw [← Finset.sum_filter, Finset.sum_const_nat fun _ _ => rfl, State.holding]
    _ ≤ cap * m := Nat.mul_le_mul_right m (hs.holding ▸ hs.bound)

/-! ## Every run -/

/-- Whatever the order in which the requests are checked, read, cut short and resumed: at most `cap` large bodies are being
received at once, and an answer is what its request has sent, or says what has happened. -/
theorem bodies_of_requests (cap : ℕ) (es : List Event) :
    (run (step cap) empty es).inflight = (run (step cap) empty es).holding ∧
    (run (step cap) empty es).holding ≤ cap ∧
    (∀ m, (∀ i q, (run (step cap) empty es).requests i = some q → q.max ≤ m) → (run (step cap) empty es).buffered ≤ cap * m) ∧
    ∀ i q, (run (step cap) empty es).requests i = some q →
      (q.phase.isReading = true → (q.held = true ↔ q.large = true) ∧ q.phase.body.length ≤ q.max) ∧
      ∀ r, q.phase = .answered r → q.held = false ∧ Reason cap es i q r ∧ ∀ b, r = .ok b → b.length ≤ q.max := by
  have hs : Inv cap (run (step cap) empty es) := run_keeps (fun _ e hs => hs.of_step e) (inv_empty cap) es
  refine ⟨hs.holding, hs.holding ▸ hs.bound, fun m hm => hs.buffered_le hm, fun i q hq => ⟨fun hreading => ?_, fun r hr => ?_⟩⟩
  · have hfits := hs.fits i q hq
    unfold Request.Fits at hfits
    cases hphase : q.phase with
    | reading chunks size =>
      rw [hphase] at hfits
      refine ⟨by rw [hfits.2.2.1], ?_⟩
      rw [Phase.body, ← hfits.1]
      exact hfits.2.1
    | checking | settled _ | answered _ => exact absurd hreading (by simp [hphase, Phase.isReading])
  · have hfits := hs.fits i q hq
    have hexplained := explained_run cap es i q hq
    unfold Request.Fits at hfits
    unfold Explained at hexplained
    rw [hr] at hfits hexplained
    exact ⟨hfits.1, hexplained, hfits.2⟩

/-- Two bodies of no declared length, and room for one. -/
def twoBodies : List Event :=
  [.arrive 0 none 4, .arrive 1 none 4, .act 0 (.checked none), .act 0 (.data [1, 2]), .act 1 (.checked none),
    .act 0 (.data [3]), .act 0 .end_, .act 0 .resume]

theorem bodies_of_twoBodies :
    (run (step 1) empty twoBodies).buffered ≤ 1 * 4 ∧
    Reason 1 twoBodies 0 ⟨none, 4, false, .answered (.ok [1, 2, 3])⟩ (.ok [1, 2, 3]) ∧
    Reason 1 twoBodies 1 ⟨none, 4, false, .answered (.error .busy)⟩ (.error .busy) := by
  obtain ⟨-, -, hbuffered, hanswers⟩ := bodies_of_requests 1 twoBodies
  refine ⟨hbuffered 4 fun i q hq => ?_, ((hanswers 0 _ rfl).2 _ rfl).2.1, ((hanswers 1 _ rfl).2 _ rfl).2.1⟩
  match i with
  | 0 | 1 => exact (Option.some.inj hq ▸ le_rfl)
  | _ + 2 => exact absurd hq nofun

end Upstat.IngressBodies
