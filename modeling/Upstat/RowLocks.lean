import Mathlib.Logic.Function.Basic
import Mathlib.Tactic.SplitIfs

/-! # A table under READ COMMITTED

A transaction sees the committed rows, keeps what it writes in drafts of its own, and holds the
lock of each row it has locked or written until it ends. `commit` and `rollback` end it. -/
namespace Upstat.RowLocks

variable {T K R : Type*}

structure Table (T K R : Type*) where
  row : K → Option R
  lock : K → Option T
  /-- What a transaction has made of a row: `some none` where it has deleted it. -/
  draft : T → K → Option (Option R)

namespace Table

/-- No transaction but `t` has the row locked. -/
def Free (db : Table T K R) (t : T) (k : K) : Prop := db.lock k = none ∨ db.lock k = some t

instance [DecidableEq T] (db : Table T K R) (t : T) (k : K) : Decidable (db.Free t k) :=
  inferInstanceAs (Decidable (_ ∨ _))

/-- A draft is of a row that its transaction has locked. -/
def Sound (db : Table T K R) : Prop := ∀ t k r, db.draft t k = some r → db.lock k = some t

section
variable [DecidableEq T]

/-- A transaction that ends lets go of its locks and drafts. -/
def rollback (db : Table T K R) (t : T) : Table T K R :=
  { db with
    lock := fun k => if db.lock k = some t then none else db.lock k
    draft := Function.update db.draft t fun _ => none }

def commit (db : Table T K R) (t : T) : Table T K R :=
  { db.rollback t with row := fun k => (db.draft t k).getD (db.row k) }

variable [DecidableEq K]

def take (db : Table T K R) (t : T) (k : K) : Table T K R := { db with lock := Function.update db.lock k (some t) }

def takeAll (db : Table T K R) (t : T) (ks : List K) : Table T K R := ks.foldl (fun db k => db.take t k) db

/-- Locks the row and drafts what becomes of it. -/
def write (db : Table T K R) (t : T) (k : K) (r : Option R) : Table T K R :=
  { db.take t k with draft := Function.update db.draft t (Function.update (db.draft t) k (some r)) }

end

section
variable [DecidableEq T] {db : Table T K R} {t u : T} {k l : K} {r : Option R}

@[simp] theorem row_rollback : (db.rollback t).row = db.row := rfl

@[simp] theorem draft_rollback_self : (db.rollback t).draft t l = none := by simp [rollback]

@[simp] theorem draft_commit_self : (db.commit t).draft t l = none := draft_rollback_self

theorem draft_rollback (h : u ≠ t) : (db.rollback t).draft u = db.draft u := Function.update_of_ne h _ _

theorem draft_commit (h : u ≠ t) : (db.commit t).draft u = db.draft u := draft_rollback h

theorem lock_rollback (h : u ≠ t) : (db.rollback t).lock l = some u ↔ db.lock l = some u := by
  simp only [rollback]
  split_ifs with hl
  · simpa [hl] using Ne.symm h
  · rfl

theorem lock_commit (h : u ≠ t) : (db.commit t).lock l = some u ↔ db.lock l = some u := lock_rollback h

/-- A commit leaves the rows alone that its transaction does not have locked. -/
theorem Sound.row_commit (hs : db.Sound) (h : db.lock l ≠ some t) : (db.commit t).row l = db.row l := by
  have hd : db.draft t l = none := by
    cases hd : db.draft t l with
    | none => rfl
    | some r => exact absurd (hs t l r hd) h
  simp [commit, hd]

theorem Sound.rollback (hs : db.Sound) : (db.rollback t).Sound := by
  intro u l r hr
  by_cases hu : u = t
  · simp [hu] at hr
  · rw [draft_rollback hu] at hr
    exact (lock_rollback hu).mpr (hs u l r hr)

theorem Sound.commit (hs : db.Sound) : (db.commit t).Sound := hs.rollback

variable [DecidableEq K]

omit [DecidableEq T] in
@[simp] theorem row_take : (db.take t k).row = db.row := rfl

@[simp] theorem row_write : (db.write t k r).row = db.row := rfl

omit [DecidableEq T] in
@[simp] theorem draft_take : (db.take t k).draft = db.draft := rfl

omit [DecidableEq T] in
@[simp] theorem lock_take_self : (db.take t k).lock k = some t := Function.update_self _ _ _

@[simp] theorem lock_write : (db.write t k r).lock = (db.take t k).lock := rfl

theorem draft_write (h : u ≠ t) : (db.write t k r).draft u = db.draft u := Function.update_of_ne h _ _

@[simp] theorem draft_write_self : (db.write t k r).draft t = Function.update (db.draft t) k (some r) :=
  Function.update_self _ _ _

omit [DecidableEq T] in
/-- Taking a free row changes nothing about what the others hold. -/
theorem Free.lock_take (hf : db.Free t k) (h : u ≠ t) : (db.take t k).lock l = some u ↔ db.lock l = some u := by
  by_cases hl : l = k
  · subst hl
    rw [lock_take_self]
    obtain hn | ht := hf
    · simp [hn, Ne.symm h]
    · simp [ht]
  · simp [take, Function.update_of_ne hl]

omit [DecidableEq T] in
/-- What a transaction holds it still holds when it takes another row. -/
theorem lock_take_of_held (h : db.lock l = some t) : (db.take t k).lock l = some t := by
  by_cases hl : l = k
  · rw [hl, lock_take_self]
  · simpa [take, Function.update_of_ne hl] using h

omit [DecidableEq T] in
@[simp] theorem row_takeAll (db : Table T K R) (t : T) (ks : List K) : (db.takeAll t ks).row = db.row := by
  induction ks generalizing db with
  | nil => rfl
  | cons k ks ih => exact ih (db.take t k)

omit [DecidableEq T] in
@[simp] theorem draft_takeAll (db : Table T K R) (t : T) (ks : List K) : (db.takeAll t ks).draft = db.draft := by
  induction ks generalizing db with
  | nil => rfl
  | cons k ks ih => exact ih (db.take t k)

omit [DecidableEq T] in
theorem lock_takeAll (db : Table T K R) (t : T) (ks : List K) (l : K) :
    (db.takeAll t ks).lock l = if l ∈ ks then some t else db.lock l := by
  induction ks generalizing db with
  | nil => simp [takeAll]
  | cons k ks ih =>
    have h := ih (db.take t k)
    simp only [takeAll, List.foldl_cons] at h ⊢
    rw [h]
    by_cases hl : l = k
    · subst hl
      simp
    · simp [hl, take]

omit [DecidableEq T] in
theorem lock_takeAll_of_free {ks : List K} (hf : ∀ k ∈ ks, db.lock k = none) (h : u ≠ t) :
    (db.takeAll t ks).lock l = some u ↔ db.lock l = some u := by
  rw [lock_takeAll]
  split_ifs with hl
  · simp [hf l hl, Ne.symm h]
  · rfl

omit [DecidableEq T] in
theorem Sound.takeAll (hs : db.Sound) {ks : List K} (hf : ∀ k ∈ ks, db.lock k = none) : (db.takeAll t ks).Sound := by
  intro u l r hr
  rw [draft_takeAll] at hr
  have hl := hs u l r hr
  rw [lock_takeAll]
  split_ifs with hmem
  · simp [hf l hmem] at hl
  · exact hl

theorem Sound.take (hs : db.Sound) (hf : db.Free t k) : (db.take t k).Sound := by
  intro u l r hr
  have hl := hs u l r hr
  by_cases hu : u = t
  · subst hu
    exact lock_take_of_held hl
  · exact (hf.lock_take hu).mpr hl

theorem Sound.write (hs : db.Sound) (hf : db.Free t k) : (db.write t k r).Sound := by
  intro u l r' hr
  rw [lock_write]
  by_cases hu : u = t
  · subst hu
    rw [draft_write_self] at hr
    by_cases hl : l = k
    · rw [hl, lock_take_self]
    · rw [Function.update_of_ne hl] at hr
      exact lock_take_of_held (hs u l r' hr)
  · rw [draft_write hu] at hr
    exact (hf.lock_take hu).mpr (hs u l r' hr)

end

/-! ## What the others' steps leave -/

/-- To `t` nothing it has locked or written is different. -/
structure Undisturbed (t : T) (db db' : Table T K R) : Prop where
  draft : db'.draft t = db.draft t
  lock : ∀ l, db'.lock l = some t ↔ db.lock l = some t
  row : ∀ l, db.lock l = some t → db'.row l = db.row l

theorem Undisturbed.refl {t : T} {db : Table T K R} : Undisturbed t db db := ⟨rfl, fun _ => Iff.rfl, fun _ _ => rfl⟩

section
variable [DecidableEq T] {db : Table T K R} {t u : T} {k : K} {r : Option R}

theorem Undisturbed.rollback (h : u ≠ t) : Undisturbed u db (db.rollback t) :=
  ⟨draft_rollback h, fun _ => lock_rollback h, fun _ _ => rfl⟩

theorem Undisturbed.commit (hs : db.Sound) (h : u ≠ t) : Undisturbed u db (db.commit t) :=
  ⟨draft_commit h, fun _ => lock_commit h, fun _ hl => hs.row_commit fun ht => h (Option.some.inj (hl.symm.trans ht))⟩

variable [DecidableEq K]

omit [DecidableEq T] in
theorem Undisturbed.takeAll {ks : List K} (hf : ∀ k ∈ ks, db.lock k = none) (h : u ≠ t) : Undisturbed u db (db.takeAll t ks) :=
  ⟨by rw [draft_takeAll], fun _ => lock_takeAll_of_free hf h, fun _ _ => by rw [row_takeAll]⟩

omit [DecidableEq T] in
theorem Undisturbed.take (hf : db.Free t k) (h : u ≠ t) : Undisturbed u db (db.take t k) :=
  ⟨rfl, fun _ => hf.lock_take h, fun _ _ => rfl⟩

theorem Undisturbed.write (hf : db.Free t k) (h : u ≠ t) : Undisturbed u db (db.write t k r) :=
  ⟨draft_write h, fun _ => hf.lock_take h, fun _ _ => rfl⟩

end

end Table

end Upstat.RowLocks
