import Mathlib.Data.List.Sort
import Upstat.ConfigCopies

/-! # Rotated keys (`common/internal/service/monitors.go`, `common/internal/repository/monitors.go`)

The rows of the keys, and the snapshot that the gateway's `lookup` reads. A row has room for one previous hash.
Instants of the database are counted in microseconds. -/
namespace Upstat.RotatedKeys

open GuardedRuns
open ConfigCopies (KeyKind Scope IngestKey Texts Question Found lookup keyOf graceOver)

inductive KeyStatus | active | rotationGrace | revoked
  deriving DecidableEq

def KeyStatus.text : KeyStatus → String
  | active => "active"
  | rotationGrace => "rotation_grace"
  | revoked => "revoked"

structure KeyRow where
  id : String
  orgId : String
  kind : KeyKind
  name : String
  scope : Scope
  keyHash : String
  keyMasked : String
  previousHash : Option String := none
  previousExpiresAt : Option ℕ := none
  status : KeyStatus := .active
  deriving DecidableEq

/-- A day. -/
def rotationGrace : ℕ := 24 * 60 * 60 * 1000000

/-- The plaintext, its hash and its mask; the body is drawn at random. -/
def newKey (x : Texts) (kind : KeyKind) (body : String) : String × String × String :=
  let start := if kind = .propertyKey then "pk_live" else "uk_live"
  let plain := start ++ "_" ++ body
  (plain, x.sha256 plain,
    start ++ "_" ++ String.ofList (body.toList.take 4) ++ "…" ++ String.ofList (body.toList.drop (body.length - 4)))

/-! ## The rows -/

/-- The clock of all parties, the rows, and every hash that a key was drawn with so far. -/
structure State where
  clock : ℕ := 0
  rows : List KeyRow := []
  drawn : List String := []

/-- The calls of the service, and the time that passes between them. -/
inductive Event where
  | createKey (id orgId name : String) (kind : KeyKind) (scope : Scope) (body : String)
  | rotateKey (id body : String)
  | revokeKey (id : String)
  | tick (d : ℕ)

def rotated (r : KeyRow) (now : ℕ) (hash masked : String) : KeyRow :=
  { r with
    previousHash := some r.keyHash
    previousExpiresAt := some (now + rotationGrace)
    keyHash := hash
    keyMasked := masked
    status := .rotationGrace }

def revoked (r : KeyRow) : KeyRow := { r with status := .revoked, previousHash := none }

/-- The row that a call finds, unless it is revoked. -/
def State.liveRow (s : State) (id : String) : Option KeyRow := s.rows.find? fun r => r.id = id ∧ r.status ≠ .revoked

/-- No two rows have one hash. -/
def State.taken (s : State) (id hash : String) : Bool := s.rows.any fun r => r.id ≠ id ∧ r.keyHash = hash

def State.update (s : State) (id : String) (f : KeyRow → KeyRow) : List KeyRow :=
  s.rows.map fun r => if r.id = id ∧ r.status ≠ .revoked then f r else r

def step (x : Texts) (s : State) : Event → State
  | .createKey id orgId name kind scope body =>
    let (_, hash, masked) := newKey x kind body
    { s with
      drawn := s.drawn ++ [hash]
      rows := if (s.rows.any fun r => r.id = id) ∨ s.taken id hash then s.rows
        else s.rows ++ [{ id, orgId, kind, name, scope, keyHash := hash, keyMasked := masked }] }
  | .rotateKey id body =>
    match s.liveRow id with
    | none => s
    | some cur =>
      let (_, hash, masked) := newKey x cur.kind body
      { s with
        drawn := s.drawn ++ [hash]
        rows := if s.taken id hash then s.rows else s.update id fun r => rotated r s.clock hash masked }
  | .revokeKey id => { s with rows := s.update id revoked }
  | .tick d => { s with clock := s.clock + d }

/-- A row in the snapshot. -/
def item (rfc3339 : ℕ → String) (r : KeyRow) : IngestKey where
  orgId := r.orgId
  kind := r.kind
  scope := r.scope
  hash := r.keyHash
  previousHash := r.previousHash.filter (· ≠ "")
  previousExpiresAt := r.previousExpiresAt.map rfc3339
  status := r.status.text

/-- The snapshot of the keys: what the gateway has when its copy is current. -/
def snapshot (rfc3339 : ℕ → String) (s : State) : List IngestKey :=
  ((s.rows.filter fun r => r.status ≠ .revoked).insertionSort fun a b => a.id ≤ b.id).map (item rfc3339)

/-- A hash is a text, and what is written of an instant is read as its millisecond. -/
structure Reads (x : Texts) (rfc3339 : ℕ → String) : Prop where
  hash_ne : ∀ plain, x.sha256 plain ≠ ""
  date_ne : ∀ t, rfc3339 t ≠ ""
  date : ∀ t, x.dateParse (rfc3339 t) = some ((t / 1000 : ℕ) : ℤ)

/-- A key is drawn that was not drawn before, and no key is rotated while its previous one is to be accepted. -/
def Spaced (x : Texts) (s : State) : Event → Prop
  | .createKey _ _ _ kind _ body => (newKey x kind body).2.1 ∉ s.drawn
  | .rotateKey id body =>
    ∀ cur ∈ s.liveRow id, (newKey x cur.kind body).2.1 ∉ s.drawn ∧ ∀ t ∈ cur.previousExpiresAt, t ≤ s.clock
  | _ => True

/-- The hashes by which a row is found. -/
def KeyRow.hashes (r : KeyRow) : List String := r.keyHash :: r.previousHash.toList

/-! ## Rows and their hashes -/

structure Sound (s : State) : Prop where
  ids : ∀ r ∈ s.rows, ∀ r' ∈ s.rows, r.id = r'.id → r = r'
  owner : ∀ r ∈ s.rows, ∀ r' ∈ s.rows, ∀ hash ∈ r.hashes, hash ∈ r'.hashes → r = r'
  drawn : ∀ r ∈ s.rows, ∀ hash ∈ r.hashes, hash ∈ s.drawn

/-- The hash was rotated away at that instant: a row that has it has it as the previous one. -/
structure Away (hash : String) (t : ℕ) (s : State) : Prop where
  drawn : hash ∈ s.drawn
  previous : ∀ r ∈ s.rows, hash ∈ r.hashes →
    r.keyHash ≠ hash ∧ r.previousHash = some hash ∧ r.previousExpiresAt = some (t + rotationGrace)

/-- The key is not revoked, and has the hash as long as the grace lasts. -/
def Held (key : KeyRow) (hash : String) (t : ℕ) (s : State) : Prop :=
  ∃ r ∈ s.rows, (r.id = key.id ∧ r.kind = key.kind ∧ r.scope = key.scope) ∧ r.status ≠ .revoked ∧
    (hash ∈ r.hashes ∨ t + rotationGrace ≤ s.clock)

section
variable {x : Texts} {s : State} {id hash : String} {t : ℕ} {f : KeyRow → KeyRow}

theorem mem_update {r : KeyRow} : r ∈ s.update id f ↔
    ∃ r' ∈ s.rows, (if r'.id = id ∧ r'.status ≠ .revoked then f r' else r') = r := by
  rw [State.update, List.mem_map]

theorem liveRow_some {cur : KeyRow} (h : s.liveRow id = some cur) : cur ∈ s.rows ∧ cur.id = id ∧ cur.status ≠ .revoked := by
  have hprop : decide (cur.id = id ∧ cur.status ≠ .revoked) = true := List.find?_some (p := fun r : KeyRow => r.id = id ∧ r.status ≠ .revoked) h
  exact ⟨List.mem_of_find?_eq_some h, of_decide_eq_true hprop⟩

theorem Sound.update (h : Sound s) (hid : ∀ r, (f r).id = r.id) {new : List String}
    (hhash : ∀ r ∈ s.rows, ∀ hash ∈ (f r).hashes, hash ∈ r.hashes ∨ hash ∈ new) (hfresh : ∀ hash ∈ new, hash ∉ s.drawn) :
    Sound { s with rows := s.update id f, drawn := s.drawn ++ new } := by
  have hids : ∀ r : KeyRow, (if r.id = id ∧ r.status ≠ .revoked then f r else r).id = r.id := by
    intro r
    split
    · exact hid r
    · rfl
  have hhashes : ∀ r ∈ s.rows, ∀ hash ∈ (if r.id = id ∧ r.status ≠ .revoked then f r else r).hashes,
      hash ∈ r.hashes ∨ hash ∈ new ∧ r.id = id := by
    intro r hr hash hmem
    split at hmem
    · rename_i hrow
      exact (hhash r hr hash hmem).imp_right fun hnew => ⟨hnew, hrow.1⟩
    · exact Or.inl hmem
  constructor
  · intro r hr r' hr' heq
    obtain ⟨o, ho, rfl⟩ := mem_update.mp hr
    obtain ⟨o', ho', rfl⟩ := mem_update.mp hr'
    rw [hids, hids] at heq
    rw [h.ids o ho o' ho' heq]
  · intro r hr r' hr' hash hmem hmem'
    obtain ⟨o, ho, rfl⟩ := mem_update.mp hr
    obtain ⟨o', ho', rfl⟩ := mem_update.mp hr'
    have hsame : o = o' := by
      rcases hhashes o ho hash hmem with hold | ⟨hnew, hid⟩
      · rcases hhashes o' ho' hash hmem' with hold' | ⟨hnew', -⟩
        · exact h.owner o ho o' ho' hash hold hold'
        · exact absurd (h.drawn o ho hash hold) (hfresh hash hnew')
      · rcases hhashes o' ho' hash hmem' with hold' | ⟨-, hid'⟩
        · exact absurd (h.drawn o' ho' hash hold') (hfresh hash hnew)
        · exact h.ids o ho o' ho' (hid.trans hid'.symm)
    rw [hsame]
  · intro r hr hash hmem
    obtain ⟨o, ho, rfl⟩ := mem_update.mp hr
    rw [List.mem_append]
    rcases hhashes o ho hash hmem with hold | ⟨hnew, -⟩
    · exact Or.inl (h.drawn o ho hash hold)
    · exact Or.inr hnew

theorem Sound.drawn_append (h : Sound s) (new : List String) : Sound { s with drawn := s.drawn ++ new } where
  ids := h.ids
  owner := h.owner
  drawn r hr hash hmem := List.mem_append_left _ (h.drawn r hr hash hmem)

theorem Sound.create (h : Sound s) {row : KeyRow} (hid : ∀ r ∈ s.rows, r.id ≠ row.id) (hprevious : row.previousHash = none)
    (hfresh : row.keyHash ∉ s.drawn) : Sound { s with rows := s.rows ++ [row], drawn := s.drawn ++ [row.keyHash] } := by
  have hhashes : ∀ hash ∈ row.hashes, hash = row.keyHash := by
    intro hash hmem
    rw [KeyRow.hashes, hprevious] at hmem
    simpa using hmem
  constructor
  · intro r hr r' hr' heq
    rcases List.mem_append.mp hr with hold | hnew
    · rcases List.mem_append.mp hr' with hold' | hnew'
      · exact h.ids r hold r' hold' heq
      · rw [List.mem_singleton.mp hnew'] at heq
        exact absurd heq (hid r hold)
    · rw [List.mem_singleton.mp hnew] at heq ⊢
      rcases List.mem_append.mp hr' with hold' | hnew'
      · exact absurd heq.symm (hid r' hold')
      · exact (List.mem_singleton.mp hnew').symm
  · intro r hr r' hr' hash hmem hmem'
    rcases List.mem_append.mp hr with hold | hnew
    · rcases List.mem_append.mp hr' with hold' | hnew'
      · exact h.owner r hold r' hold' hash hmem hmem'
      · rw [List.mem_singleton.mp hnew'] at hmem'
        exact absurd (hhashes hash hmem' ▸ h.drawn r hold hash hmem) hfresh
    · rw [List.mem_singleton.mp hnew] at hmem ⊢
      rcases List.mem_append.mp hr' with hold' | hnew'
      · exact absurd (hhashes hash hmem ▸ h.drawn r' hold' hash hmem') hfresh
      · exact (List.mem_singleton.mp hnew').symm
  · intro r hr hash hmem
    rw [List.mem_append]
    rcases List.mem_append.mp hr with hold | hnew
    · exact Or.inl (h.drawn r hold hash hmem)
    · rw [List.mem_singleton.mp hnew] at hmem
      exact Or.inr (List.mem_singleton.mpr (hhashes hash hmem))

theorem rotated_hashes (r : KeyRow) (now : ℕ) (hash masked : String) : (rotated r now hash masked).hashes = [hash, r.keyHash] := rfl

theorem revoked_hashes (r : KeyRow) : (revoked r).hashes = [r.keyHash] := rfl

/-- No row has a hash that was not drawn. -/
theorem Sound.not_taken (h : Sound s) (hfresh : hash ∉ s.drawn) : s.taken id hash = false := by
  rw [State.taken, List.any_eq_false]
  intro r hr htaken
  have hhash : r.keyHash = hash := (of_decide_eq_true htaken).2
  exact hfresh (h.drawn r hr hash (by simp [KeyRow.hashes, hhash]))

theorem step_rotate (h : Sound s) {cur : KeyRow} {body : String} (hcur : s.liveRow id = some cur)
    (hfresh : (newKey x cur.kind body).2.1 ∉ s.drawn) : step x s (.rotateKey id body) =
      { s with
        drawn := s.drawn ++ [(newKey x cur.kind body).2.1]
        rows := s.update id fun r => rotated r s.clock (newKey x cur.kind body).2.1 (newKey x cur.kind body).2.2 } := by
  simp only [step, hcur, h.not_taken hfresh]
  rfl

theorem Sound.step (h : Sound s) {e : Event} (he : Spaced x s e) : Sound (step x s e) := by
  cases e with
  | createKey id orgId name kind scope body =>
    simp only [RotatedKeys.step]
    split
    · exact h.drawn_append _
    · rename_i hnew
      push Not at hnew
      have hids : ∀ r ∈ s.rows, r.id ≠ id := by simpa using hnew.1
      exact h.create hids rfl he
  | rotateKey id body =>
    cases hcur : s.liveRow id with
    | none =>
      simp only [RotatedKeys.step, hcur]
      exact h
    | some cur =>
      have hfresh : (newKey x cur.kind body).2.1 ∉ s.drawn := (he cur hcur).1
      rw [step_rotate h hcur hfresh]
      have hid : ∀ r, (rotated r s.clock (newKey x cur.kind body).2.1 (newKey x cur.kind body).2.2).id = r.id := fun _ => rfl
      apply h.update hid
      · intro r _ hash hmem
        rw [rotated_hashes] at hmem
        rcases List.mem_cons.mp hmem with hnew | hold
        · exact Or.inr (List.mem_singleton.mpr hnew)
        · exact Or.inl (List.mem_cons.mpr (Or.inl (List.mem_singleton.mp hold)))
      · intro hash hmem
        rw [List.mem_singleton.mp hmem]
        exact hfresh
  | revokeKey id =>
    have hupdate : Sound { s with rows := s.update id revoked, drawn := s.drawn ++ [] } := by
      have hid : ∀ r, (revoked r).id = r.id := fun _ => rfl
      apply h.update hid
      · intro r _ hash hmem
        rw [revoked_hashes] at hmem
        exact Or.inl (List.mem_cons.mpr (Or.inl (List.mem_singleton.mp hmem)))
      · simp
    rw [List.append_nil] at hupdate
    exact hupdate
  | tick d => exact ⟨h.ids, h.owner, h.drawn⟩

/-! ## What becomes of a hash that was rotated away -/

theorem Away.step (h : Sound s) (ha : Away hash t s) {e : Event} (he : Spaced x s e) : Away hash t (step x s e) := by
  have hnew : ∀ {other : String}, other ∉ s.drawn → hash ≠ other := by
    intro other hother heq
    exact hother (heq ▸ ha.drawn)
  cases e with
  | createKey id orgId name kind scope body =>
    simp only [RotatedKeys.step]
    split
    · exact ⟨List.mem_append_left _ ha.drawn, ha.previous⟩
    · refine ⟨List.mem_append_left _ ha.drawn, ?_⟩
      intro r hr hmem
      rcases List.mem_append.mp hr with hold | hlast
      · exact ha.previous r hold hmem
      · rw [List.mem_singleton.mp hlast] at hmem
        exact absurd (by simpa [KeyRow.hashes] using hmem) (hnew he)
  | rotateKey id body =>
    cases hcur : s.liveRow id with
    | none =>
      simp only [RotatedKeys.step, hcur]
      exact ha
    | some cur =>
      have hfresh : (newKey x cur.kind body).2.1 ∉ s.drawn := (he cur hcur).1
      rw [step_rotate h hcur hfresh]
      refine ⟨List.mem_append_left _ ha.drawn, ?_⟩
      intro r hr hmem
      obtain ⟨o, ho, rfl⟩ := mem_update.mp hr
      split at hmem
      · rw [rotated_hashes] at hmem
        rcases List.mem_cons.mp hmem with heq | hold
        · exact absurd heq (hnew hfresh)
        · -- the hash would be a current one, and it is a previous one
          have hkey : hash = o.keyHash := List.mem_singleton.mp hold
          have hmem' : hash ∈ o.hashes := List.mem_cons.mpr (Or.inl hkey)
          exact absurd hkey.symm (ha.previous o ho hmem').1
      · rename_i hother
        rw [if_neg hother]
        exact ha.previous o ho hmem
  | revokeKey id =>
    refine ⟨ha.drawn, ?_⟩
    intro r hr hmem
    obtain ⟨o, ho, rfl⟩ := mem_update.mp hr
    split at hmem
    · rw [revoked_hashes] at hmem
      have hkey : hash = o.keyHash := List.mem_singleton.mp hmem
      have hmem' : hash ∈ o.hashes := List.mem_cons.mpr (Or.inl hkey)
      exact absurd hkey.symm (ha.previous o ho hmem').1
    · rename_i hother
      rw [if_neg hother]
      exact ha.previous o ho hmem
  | tick d => exact ⟨ha.drawn, ha.previous⟩

theorem Held.step (h : Sound s) (ha : Away hash t s) {key : KeyRow} (hh : Held key hash t s) {e : Event} (he : Spaced x s e)
    (hrevoke : e ≠ .revokeKey key.id) : Held key hash t (step x s e) := by
  obtain ⟨r, hr, hkey, hlive, hhash⟩ := hh
  cases e with
  | createKey id orgId name kind scope body =>
    simp only [RotatedKeys.step]
    split
    · exact ⟨r, hr, hkey, hlive, hhash⟩
    · exact ⟨r, List.mem_append_left _ hr, hkey, hlive, hhash⟩
  | rotateKey id body =>
    cases hcur : s.liveRow id with
    | none =>
      simp only [RotatedKeys.step, hcur]
      exact ⟨r, hr, hkey, hlive, hhash⟩
    | some cur =>
      rw [step_rotate h hcur (he cur hcur).1]
      refine ⟨_, mem_update.mpr ⟨r, hr, rfl⟩, ?_⟩
      by_cases hrow : r.id = id ∧ r.status ≠ .revoked
      · rw [if_pos hrow]
        refine ⟨hkey, by simp [rotated], Or.inr ?_⟩
        -- the row is rotated again, when the grace is over
        obtain ⟨hmem, hid, -⟩ := liveRow_some hcur
        have hsame : r = cur := h.ids r hr cur hmem (hrow.1.trans hid.symm)
        rcases hhash with hmem' | hover
        · exact (he cur hcur).2 _ (hsame ▸ (ha.previous r hr hmem').2.2)
        · exact hover
      · rw [if_neg hrow]
        exact ⟨hkey, hlive, hhash⟩
  | revokeKey id =>
    have hother : ¬(r.id = id ∧ r.status ≠ .revoked) := by
      rintro ⟨hid, -⟩
      apply hrevoke
      rw [← hid, hkey.1]
    exact ⟨r, mem_update.mpr ⟨r, hr, if_neg hother⟩, hkey, hlive, hhash⟩
  | tick d => exact ⟨r, hr, hkey, hlive, hhash.imp_right fun hover => hover.trans (Nat.le_add_right _ _)⟩

/-- The hash of a row that is rotated is rotated away. -/
theorem away_of_rotate (h : Sound s) {cur : KeyRow} {body : String} (hcur : s.liveRow id = some cur)
    (he : Spaced x s (.rotateKey id body)) : Away cur.keyHash s.clock (step x s (.rotateKey id body)) ∧
      Held cur cur.keyHash s.clock (step x s (.rotateKey id body)) := by
  have hfresh : (newKey x cur.kind body).2.1 ∉ s.drawn := (he cur hcur).1
  obtain ⟨hmem, hid, hlive⟩ := liveRow_some hcur
  have hdrawn : cur.keyHash ∈ s.drawn := h.drawn cur hmem _ (by simp [KeyRow.hashes])
  have hne : (newKey x cur.kind body).2.1 ≠ cur.keyHash := by
    intro heq
    exact hfresh (heq ▸ hdrawn)
  rw [step_rotate h hcur hfresh]
  constructor
  · refine ⟨List.mem_append_left _ hdrawn, ?_⟩
    intro r hr hhash
    obtain ⟨o, ho, rfl⟩ := mem_update.mp hr
    by_cases hrow : o.id = id ∧ o.status ≠ .revoked
    · have hsame : o = cur := h.ids o ho cur hmem (hrow.1.trans hid.symm)
      rw [if_pos hrow, hsame]
      exact ⟨hne, rfl, rfl⟩
    · rw [if_neg hrow] at hhash
      have hsame : o = cur := h.owner o ho cur hmem _ hhash (by simp [KeyRow.hashes])
      exact absurd ⟨hsame ▸ hid, hsame ▸ hlive⟩ hrow
  · refine ⟨_, mem_update.mpr ⟨cur, hmem, if_pos ⟨hid, hlive⟩⟩, ⟨rfl, rfl, rfl⟩, ?_, ?_⟩
    · simp [rotated]
    · simp [rotated_hashes]

end

section
variable {x : Texts} {s : State} {hash : String} {t : ℕ}

theorem sound_run {es : List Event} (h : Meets (step x) (Spaced x) s es) (hs : Sound s) : Sound (run (step x) s es) :=
  (h.throughout (fun _ _ hs he => hs.step he) hs).last

theorem away_run {es : List Event} (h : Meets (step x) (Spaced x) s es) (hs : Sound s) (ha : Away hash t s) :
    Away hash t (run (step x) s es) := by
  induction es generalizing s with
  | nil => exact ha
  | cons e es ih => exact ih h.2 (hs.step h.1) (ha.step hs h.1)

theorem held_run {es : List Event} (h : Meets (step x) (Spaced x) s es) (hs : Sound s) (ha : Away hash t s) {key : KeyRow}
    (hh : Held key hash t s) (hrevoke : .revokeKey key.id ∉ es) : Held key hash t (run (step x) s es) := by
  induction es generalizing s with
  | nil => exact hh
  | cons e es ih =>
    apply ih h.2 (hs.step h.1) (ha.step hs h.1)
    · exact hh.step hs ha h.1 fun heq => hrevoke (heq ▸ List.mem_cons_self)
    · exact fun hmem => hrevoke (List.mem_cons_of_mem _ hmem)

end

/-! ## The gateway -/

section
variable {x : Texts} {rfc3339 : ℕ → String} {s : State} {hash : String} {t : ℕ}

theorem mem_snapshot {key : IngestKey} : key ∈ snapshot rfc3339 s ↔ ∃ r ∈ s.rows, r.status ≠ .revoked ∧ item rfc3339 r = key := by
  simp [snapshot, and_assoc]

theorem names_item_iff {r : KeyRow} (hne : hash ≠ "") :
    ((item rfc3339 r).hash = hash ∨ (item rfc3339 r).previousHash.filter (· ≠ "") = some hash) ↔ hash ∈ r.hashes := by
  have hfilter : ∀ o : Option String, (o.filter (· ≠ "")).filter (· ≠ "") = some hash ↔ o = some hash := by
    intro o
    cases o with
    | none => simp
    | some other =>
      by_cases hother : other = ""
      · simp only [hother, Option.filter_some, ne_eq, not_true, decide_false]
        simp [hne.symm]
      · simp [Option.filter_some, hother]
  rw [item, hfilter, KeyRow.hashes, List.mem_cons, Option.mem_toList]
  exact or_congr_left eq_comm

/-- What is found for a hash is a live row that has it. -/
theorem keyOf_some {key : IngestKey} (hne : hash ≠ "") (h : keyOf (snapshot rfc3339 s) hash = some key) :
    ∃ r ∈ s.rows, r.status ≠ .revoked ∧ item rfc3339 r = key ∧ hash ∈ r.hashes := by
  have hmem : key ∈ snapshot rfc3339 s := List.mem_reverse.mp (List.mem_of_find?_eq_some h)
  have hnames := List.find?_some h
  obtain ⟨r, hr, hlive, rfl⟩ := mem_snapshot.mp hmem
  exact ⟨r, hr, hlive, rfl, (names_item_iff hne).mp (of_decide_eq_true hnames)⟩

theorem keyOf_eq (h : Sound s) {r : KeyRow} (hr : r ∈ s.rows) (hlive : r.status ≠ .revoked) (hhash : hash ∈ r.hashes)
    (hne : hash ≠ "") : keyOf (snapshot rfc3339 s) hash = some (item rfc3339 r) := by
  have hsome : (keyOf (snapshot rfc3339 s) hash).isSome = true := by
    rw [keyOf, List.find?_isSome]
    refine ⟨item rfc3339 r, List.mem_reverse.mpr (mem_snapshot.mpr ⟨r, hr, hlive, rfl⟩), ?_⟩
    exact decide_eq_true ((names_item_iff hne).mpr hhash)
  obtain ⟨key, hkey⟩ := Option.isSome_iff_exists.mp hsome
  obtain ⟨r', hr', -, rfl, hhash'⟩ := keyOf_some hne hkey
  rw [hkey, h.owner r' hr' r hr hash hhash' hhash]

theorem graceOver_item (hx : Reads x rfc3339) {r : KeyRow} (ht : r.previousExpiresAt = some t) (now : ℕ) :
    graceOver x (item rfc3339 r) now = true ↔ t / 1000 < now := by
  simp [graceOver, item, ht, hx.date_ne, hx.date]
  omega

theorem text_ne_revoked {status : KeyStatus} (h : status ≠ .revoked) : status.text ≠ "revoked" := by
  cases status with
  | active => decide
  | rotationGrace => decide
  | revoked => exact absurd rfl h

/-- When the grace is over the gateway has no key for the hash. -/
theorem lookup_over (hx : Reads x rfc3339) (ha : Away hash t s) {q : Question} (hq : x.sha256 q.plain = hash) {now : ℕ}
    (hnow : t + rotationGrace < 1000 * now) : lookup x (snapshot rfc3339 s) q now = .null := by
  have hne : hash ≠ "" := hq ▸ hx.hash_ne q.plain
  unfold lookup
  rw [hq]
  cases hkey : keyOf (snapshot rfc3339 s) hash with
  | none => rfl
  | some key =>
    obtain ⟨r, hr, -, rfl, hhash⟩ := keyOf_some hne hkey
    obtain ⟨-, hprevious, hexpires⟩ := ha.previous r hr hhash
    have hover : graceOver x (item rfc3339 r) now = true := by
      rw [graceOver_item hx hexpires]
      omega
    have hitem : (item rfc3339 r).previousHash = some hash := by simp [item, hprevious, Option.filter_some, hne]
    simp only [hitem, hover, true_and, if_true, ite_self]

/-- While it lasts the gateway finds the key. -/
theorem lookup_kept (hx : Reads x rfc3339) (h : Sound s) (ha : Away hash t s) {key : KeyRow} (hh : Held key hash t s) {q : Question}
    (hq : x.sha256 q.plain = hash) (hkind : q.kind = key.kind) (hscope : key.scope = .all ∨ key.scope ∈ q.scopes) {now : ℕ}
    (hclock : s.clock = 1000 * now) (hnow : 1000 * now < t + rotationGrace) : ∃ k, lookup x (snapshot rfc3339 s) q now = .key k := by
  obtain ⟨r, hr, ⟨hid, hrkind, hrscope⟩, hlive, hhash | hover⟩ := hh
  · have hne : hash ≠ "" := hq ▸ hx.hash_ne q.plain
    obtain ⟨-, -, hexpires⟩ := ha.previous r hr hhash
    have hnotover : ¬graceOver x (item rfc3339 r) now = true := by
      rw [graceOver_item hx hexpires]
      omega
    refine ⟨item rfc3339 r, ?_⟩
    unfold lookup
    rw [hq, keyOf_eq h hr hlive hhash hne]
    have hsame : (item rfc3339 r).kind = q.kind := hrkind.trans hkind.symm
    have hstatus : (item rfc3339 r).status ≠ "revoked" := text_ne_revoked hlive
    have hall : ¬((item rfc3339 r).scope ≠ .all ∧ (item rfc3339 r).scope ∉ q.scopes) := by
      have hitem : (item rfc3339 r).scope = key.scope := hrscope
      rw [hitem]
      rintro ⟨hnall, hnone⟩
      exact hscope.elim hnall hnone
    simp only [hsame, ne_eq, not_true, hstatus, or_false, if_false, hnotover, Bool.false_eq_true, and_false]
    rw [if_neg hall]
  · omega

end

theorem sound_start : Sound {} := by
  constructor <;> simp

/-- A key that was rotated away is found for a day unless it is revoked, and not after that, in every run in which
no key is rotated while its previous one is to be accepted. -/
theorem rotated_accepted (x : Texts) (rfc3339 : ℕ → String) (hx : Reads x rfc3339) (before after : List Event) (id body : String)
    (cur : KeyRow) (q : Question) (now : ℕ) (hspaced : Meets (step x) (Spaced x) {} (before ++ .rotateKey id body :: after))
    (hcur : (run (step x) {} before).liveRow id = some cur) (hq : x.sha256 q.plain = cur.keyHash)
    (hnow : (run (step x) {} (before ++ .rotateKey id body :: after)).clock = 1000 * now) :
    let t := (run (step x) {} before).clock
    let found := lookup x (snapshot rfc3339 (run (step x) {} (before ++ .rotateKey id body :: after))) q now
    (1000 * now < t + rotationGrace → .revokeKey id ∉ after → q.kind = cur.kind → cur.scope = .all ∨ cur.scope ∈ q.scopes →
        ∃ key, found = .key key) ∧
      (t + rotationGrace < 1000 * now → found = .null) := by
  intro t found
  obtain ⟨hbefore, hrotate, hafter⟩ := (meets_append _ _ _).mp hspaced
  have hsound : Sound (run (step x) {} before) := sound_run hbefore sound_start
  have hrotated : Sound (step x (run (step x) {} before) (.rotateKey id body)) := hsound.step hrotate
  obtain ⟨haway, hheld⟩ := away_of_rotate hsound hcur hrotate
  have hend : run (step x) {} (before ++ .rotateKey id body :: after) =
      run (step x) (step x (run (step x) {} before) (.rotateKey id body)) after := by
    rw [run_append, run_cons]
  have haway' : Away cur.keyHash t (run (step x) {} (before ++ .rotateKey id body :: after)) := hend ▸ away_run hafter hrotated haway
  constructor
  · intro hearly hrevoke hkind hscope
    have hid : cur.id = id := (liveRow_some hcur).2.1
    have hheld' : Held cur cur.keyHash t (run (step x) {} (before ++ .rotateKey id body :: after)) := by
      rw [hend]
      apply held_run hafter hrotated haway hheld
      rw [hid]
      exact hrevoke
    have hsound' : Sound (run (step x) {} (before ++ .rotateKey id body :: after)) := hend ▸ sound_run hafter hrotated
    exact lookup_kept hx hsound' haway' hheld' hq hkind hscope hnow hearly
  · exact lookup_over hx haway' hq

/-! ## Three keys in three hours -/

/-- Two hashes, and one instant as it is written. -/
def texts : Texts where
  sha256 plain :=
    if plain = "pk_live_0f1e2d3c4b5a69788796a5b4c3d2e1f0" then "76a9af4bd9ee8a195dcb49bf2b4b23a00456465561a5c4c5b10d086746e7883b"
    else if plain = "pk_live_00112233445566778899aabbccddeeff" then "ced885437f2110af565a62a54bd8e7e852f85aa9421146bab524ad2ed808172a"
    else "8c4bf11b4db5e2514e86a14836a5bf21e668d52f4648ea6c4b1020004d3c48ab"
  dateParse text := if text = "1970-01-02T01:00:00Z" then some 90000000 else some (((text.length - 21) / 1000 : ℕ) : ℤ)

def written (t : ℕ) : String :=
  if t = 90000000000 then "1970-01-02T01:00:00Z" else String.ofList (List.replicate (t + 21) '0')

theorem reads_texts : Reads texts written where
  hash_ne plain := by
    simp only [texts]
    split
    · decide
    · split <;> decide
  date_ne t := by
    unfold written
    split
    · decide
    · intro h
      have hlength := congrArg String.length h
      simp at hlength
  date t := by
    unfold written
    split
    · rename_i ht
      subst ht
      rfl
    · have hother : String.ofList (List.replicate (t + 21) '0') ≠ "1970-01-02T01:00:00Z" := by
        intro h
        have hlength := congrArg String.length h
        have hshort : "1970-01-02T01:00:00Z".length = 20 := by decide
        rw [hshort, String.length_ofList, List.length_replicate] at hlength
        omega
      simp only [texts, if_neg hother]
      simp

/-- A key is made, and rotated an hour later. -/
def made : List Event :=
  [.createKey "a" "o" "Web" .propertyKey .rum "0f1e2d3c4b5a69788796a5b4c3d2e1f0", .tick 3600000000]

def question : Question := ⟨"pk_live_0f1e2d3c4b5a69788796a5b4c3d2e1f0", .propertyKey, [.rum]⟩

/-- Its row. -/
def first : KeyRow where
  id := "a"
  orgId := "o"
  kind := .propertyKey
  name := "Web"
  scope := .rum
  keyHash := "76a9af4bd9ee8a195dcb49bf2b4b23a00456465561a5c4c5b10d086746e7883b"
  keyMasked := "pk_live_0f1e…e1f0"

theorem rotated_accepted_hour : ∃ key, lookup texts
    (snapshot written (run (step texts) {} (made ++ .rotateKey "a" "00112233445566778899aabbccddeeff" :: [.tick 3600000000])))
    question 7200000 = .key key := by
  apply (rotated_accepted texts written reads_texts made [.tick 3600000000] "a" "00112233445566778899aabbccddeeff" first question 7200000
    ?_ ?_ rfl rfl).1
  · decide
  · simp
  · rfl
  · exact Or.inr (by decide)
  · refine ⟨List.not_mem_nil, trivial, ?_, trivial, trivial⟩
    intro cur hcur
    have hfirst : (run (step texts) {} made).liveRow "a" = some first := by decide +kernel
    have hsame : cur = first := Option.some.inj (hcur.symm.trans hfirst)
    rw [hsame]
    exact ⟨by decide +kernel, fun t ht => by simp [first] at ht⟩
  · decide +kernel

/-- Rotated again an hour later, the first key is not found any more, an hour after that. -/
theorem twice_rotated_null : lookup texts (snapshot written (run (step texts) {} (made ++
    [.rotateKey "a" "00112233445566778899aabbccddeeff", .tick 3600000000, .rotateKey "a" "ffeeddccbbaa99887766554433221100", .tick 3600000000])))
    question 10800000 = .null := by
  decide +kernel

end Upstat.RotatedKeys
