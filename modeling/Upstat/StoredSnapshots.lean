import Upstat.OutboxPublisher

/-! # The snapshots that publishers store

However transactions, publishers and full rewrites interleave, the versions that are stored of a
kind rise, and a drained queue leaves each kind's rows as of the last change that was queued. -/
namespace Upstat.StoredSnapshots

open GuardedRuns RowLocks OutboxPublisher

section
variable {I : Type} {s s' : State I} {x y : Batch I} {p : ℕ} {k : String}

/-- The publisher has read the kind's items already. -/
def HasRead (x : Batch I) (k : String) : Prop := k ∈ x.rewritten ∨ ∃ items, x.point.atHand = some (k, items)

/-- The row is a pending `config.changed` of the kind, and no publisher that has it has read the kind yet. -/
structure OwedBy (s : State I) (k : String) (id : ℕ) (r : Row) : Prop where
  row : s.outbox.row id = some r
  config : r.isConfig = true
  key : r.key = k
  pending : r.pending = true
  unread : ∀ p x, s.batches p = some x → s.outbox.lock id = some p → ¬HasRead x k

/-- The kind will be read anew. -/
def Owed (s : State I) (k : String) : Prop := ∃ id r, OwedBy s k id r

def Fresh (s : State I) (k : String) : Prop := ∃ doc, s.stored k = some doc ∧ doc.items = s.db k

/-- A publisher has the kind's present items in hand, and a row to go back to the queue if it does not get to store them. -/
def InHand (s : State I) (k : String) : Prop :=
  ∃ p x, s.batches p = some x ∧ x.point.atHand = some (k, s.db k) ∧
    ∃ id r, .row id r ∈ x.todo ∧ r.isConfig = true ∧ r.key = k

/-- The versions that were stored of the kind rise strictly, up to the one that is stored. -/
def Rising (s : State I) (k : String) : Prop :=
  (s.puts k).Pairwise (· < ·) ∧ (s.puts k).getLast? = (s.stored k).map Document.version

/-- A kind that a change was queued of is stored as it is, or will be. -/
def Settled (s : State I) (k : String) : Prop := s.queued k ≠ none → Fresh s k ∨ Owed s k ∨ InHand s k

structure Kept (s : State I) : Prop where
  read : ∀ p x k items, s.batches p = some x → x.point.atHand = some (k, items) → items = s.db k ∨ Owed s k
  version : ∀ p x k items v, s.batches p = some x → x.point = .putting k items v → ∀ doc, s.stored k = some doc → doc.version < v
  queued : ∀ k items, s.queued k = some items → items = s.db k
  puts : ∀ k, Rising s k

theorem OwedBy.mono {id : ℕ} {r : Row} (h : OwedBy s k id r) (hrow : s'.outbox.row id = some r)
    (hread : ∀ q y, s'.batches q = some y → s'.outbox.lock id = some q → HasRead y k →
      ∃ y', s.batches q = some y' ∧ s.outbox.lock id = some q ∧ HasRead y' k) : OwedBy s' k id r := by
  refine ⟨hrow, h.config, h.key, h.pending, fun q y hy hl hr => ?_⟩
  obtain ⟨y', hy', hl', hr'⟩ := hread q y hy hl hr
  exact h.unread q y' hy' hl' hr'

theorem Owed.frame (h : Owed s k) (hout : s'.outbox = s.outbox) (hbatches : s'.batches = s.batches) : Owed s' k := by
  obtain ⟨id, r, h⟩ := h
  refine ⟨id, r, h.mono (hout ▸ h.row) fun q y hy hl hr => ⟨y, hbatches ▸ hy, hout ▸ hl, hr⟩⟩

/-! ## A publisher's own steps -/

/-- A publisher goes on without reading or storing anything. -/
structure Quiet (s : State I) (p : ℕ) (db' : Table ℕ ℕ Row) (x' : Batch I) : Prop where
  row : db'.row = s.outbox.row
  lock : ∀ u, u ≠ p → ∀ id, db'.lock id = some u → s.outbox.lock id = some u
  read : ∀ k id, db'.lock id = some p → HasRead x' k → ∃ x, s.batches p = some x ∧ s.outbox.lock id = some p ∧ HasRead x k
  atHand : ∀ k items, x'.point.atHand = some (k, items) → ∃ x, s.batches p = some x ∧ x.point.atHand = some (k, items)
  version : ∀ k items v, x'.point = .putting k items v → ∀ doc, s.stored k = some doc → doc.version < v

variable {db' : Table ℕ ℕ Row} {locks' : String → Option ℕ}

theorem Quiet.owed (hq : Quiet s p db' x) (h : Owed s k) : Owed ({ s with outbox := db', locks := locks' }.put p (some x)) k := by
  obtain ⟨id, r, h⟩ := h
  refine ⟨id, r, h.mono ?_ fun q y hy hl hr => ?_⟩
  · rw [← h.row, ← hq.row]
    rfl
  · by_cases hqp : q = p
    · subst hqp
      obtain rfl : x = y := by simpa [State.put] using hy
      exact hq.read k id hl hr
    · exact ⟨y, by simpa [State.put, hqp] using hy, hq.lock q hqp id hl, hr⟩

theorem Quiet.kept (hq : Quiet s p db' x) (hk : Kept s) : Kept ({ s with outbox := db', locks := locks' }.put p (some x)) := by
  refine ⟨fun q y k items hy hat => ?_, fun q y k items v hy hat => ?_, hk.queued, hk.puts⟩
  · have hread : items = s.db k ∨ Owed s k := by
      by_cases hqp : q = p
      · subst hqp
        obtain rfl : x = y := by simpa [State.put] using hy
        obtain ⟨x', hx', hat'⟩ := hq.atHand k items hat
        exact hk.read q x' k items hx' hat'
      · exact hk.read q y k items (by simpa [State.put, hqp] using hy) hat
    exact hread.imp_right hq.owed
  · by_cases hqp : q = p
    · subst hqp
      obtain rfl : x = y := by simpa [State.put] using hy
      exact hq.version k items v hat
    · exact hk.version q y k items v (by simpa [State.put, hqp] using hy) hat

/-- What the publisher has in hand of the kind it still has. -/
theorem Quiet.settled (hq : Quiet s p db' x) (hs : Settled s k)
    (hhand : ∀ y items, s.batches p = some y → y.point.atHand = some (k, items) → x.point.atHand = some (k, items) ∧ x.todo = y.todo) :
    Settled ({ s with outbox := db', locks := locks' }.put p (some x)) k := by
  intro hqueued
  obtain h | h | ⟨q, y, hy, hat, id, r, hr⟩ := hs hqueued
  · exact .inl h
  · exact .inr (.inl (hq.owed h))
  · refine .inr (.inr ?_)
    by_cases hqp : q = p
    · subst hqp
      obtain ⟨hat', htodo⟩ := hhand y _ hy hat
      exact ⟨q, x, by simp [State.put], hat', id, r, by rwa [htodo]⟩
    · exact ⟨q, y, by simpa [State.put, hqp] using hy, hat, id, r, hr⟩

/-! ## Storing a snapshot -/

variable {doc : Document I}

omit I in
theorem le_of_rising {vs : List ℕ} {last v : ℕ} (h : vs.Pairwise (· < ·)) (hlast : vs.getLast? = some last) (hv : v ∈ vs) : v ≤ last := by
  obtain ⟨init, rfl⟩ := List.getLast?_eq_some_iff.mp hlast
  obtain hv | hv := List.mem_append.mp hv
  · exact ((List.pairwise_append.mp h).2.2 v hv last (by simp)).le
  · exact (List.mem_singleton.mp hv).le

theorem Kept.store (hk : Kept s) (hnone : ∀ q y items, s.batches q = some y → y.point.atHand ≠ some (k, items))
    (hv : ∀ old, s.stored k = some old → old.version < doc.version) : Kept (s.store k doc) := by
  refine ⟨fun q y j items hy hat => (hk.read q y j items hy hat).imp_right fun h => h.frame rfl rfl,
    fun q y j items v hy hat old hold => ?_, hk.queued, fun j => ?_⟩
  · have hj : j ≠ k := by
      rintro rfl
      exact hnone q y items hy (by rw [hat]; rfl)
    exact hk.version q y j items v hy hat old (by simpa [State.store, hj] using hold)
  · by_cases hj : j = k
    · subst hj
      obtain ⟨hrise, hlast⟩ := hk.puts j
      simp only [Rising, State.store, Function.update_self, List.getLast?_concat, Option.map_some, and_true]
      refine List.pairwise_append.mpr ⟨hrise, List.pairwise_singleton _ _, fun v hmem w hw => ?_⟩
      obtain rfl := List.mem_singleton.mp hw
      cases hold : s.stored j with
      | none => simp [List.getLast?_eq_none_iff.mp (hlast.trans (by rw [hold]; rfl))] at hmem
      | some old =>
        have hle : v ≤ old.version := le_of_rising hrise (by rw [hlast, hold]; rfl) hmem
        exact hle.trans_lt (hv old hold)
    · simpa [Rising, State.store, hj] using hk.puts j

theorem settled_store_self (h : doc.items = s.db k ∨ Owed s k) : Settled (s.store k doc) k := by
  intro _
  obtain h | h := h
  · exact .inl ⟨doc, by simp [State.store], h⟩
  · exact .inr (.inl (h.frame rfl rfl))

theorem Settled.store_other {j : String} (hs : Settled s j) (hj : j ≠ k) : Settled (s.store k doc) j := by
  intro hqueued
  obtain ⟨old, hold, hitems⟩ | h | h := hs hqueued
  · exact .inl ⟨old, by simpa [State.store, hj] using hold, hitems⟩
  · exact .inr (.inl (h.frame rfl rfl))
  · exact .inr (.inr h)

/-! ## The end of a transaction -/

theorem owed_rollback (h : Owed s k) (p : ℕ) : Owed (s.rollback p) k := by
  obtain ⟨id, r, h⟩ := h
  refine ⟨id, r, h.mono h.row fun q y hy hl hr => ?_⟩
  obtain ⟨hqp, hy⟩ := batches_release hy
  exact ⟨y, hy, (Table.lock_rollback hqp).mp hl, hr⟩

theorem Kept.rollback (hk : Kept s) (p : ℕ) : Kept (s.rollback p) where
  read q y k items hy hat := (hk.read q y k items (batches_release hy).2 hat).imp_right fun h => owed_rollback h p
  version q y k items v hy := hk.version q y k items v (batches_release hy).2
  queued := hk.queued
  puts := hk.puts

/-- The rows of a transaction that is rolled back are in the queue again. -/
theorem Settled.rollback (hs : Settled s k) (hi : Inv s) (p : ℕ) : Settled (s.rollback p) k := by
  intro hqueued
  obtain h | h | ⟨q, y, hy, hat, id, r, hmem, hc, hkey⟩ := hs hqueued
  · exact .inl h
  · exact .inr (.inl (owed_rollback h p))
  · by_cases hqp : q = p
    · subst hqp
      obtain ⟨hlock, hrow, hpending⟩ := (hi.batches q y hy).claimed id r hmem
      refine .inr (.inl ⟨id, r, hrow, hc, hkey, hpending, fun u z _ hl => ?_⟩)
      simp [State.rollback, Table.rollback, hlock] at hl
    · exact .inr (.inr ⟨q, y, by simpa [State.rollback, State.release, hqp] using hy, hat, id, r, hmem, hc, hkey⟩)

/-- What a publisher marks it has read, so it marks nothing that is owed. -/
theorem owed_commit (h : Owed s k) (hi : Inv s) (hx : s.batches p = some x) (hp : x.point = .marking) :
    Owed ({ s with outbox := markPublished s.outbox p x.ids }.commit p) k := by
  obtain ⟨id, r, h⟩ := h
  have hfits := hi.batches p x hx
  have hmarked := marked hi.sound hfits.ids
  have hlock : s.outbox.lock id ≠ some p := by
    intro hl
    refine h.unread p x hx hl (.inl ?_)
    obtain hmem | hmem := hfits.rows id r hl h.row h.config
    · simp [hfits.ended (.inr hp)] at hmem
    · exact h.key ▸ hmem
  refine ⟨id, r, h.mono ?_ fun q y hy hl hr => ?_⟩
  · change ((markPublished s.outbox p x.ids).commit p).row id = some r
    rw [hmarked.sound.row_commit (by rwa [hmarked.lock]), hmarked.row, h.row]
  · obtain ⟨hqp, hy⟩ := batches_release hy
    refine ⟨y, hy, ?_, hr⟩
    rw [← hmarked.lock]
    exact (Table.lock_commit hqp).mp hl

theorem Kept.commit (hk : Kept s) (hi : Inv s) (hx : s.batches p = some x) (hp : x.point = .marking) :
    Kept ({ s with outbox := markPublished s.outbox p x.ids }.commit p) where
  read q y k items hy hat := (hk.read q y k items (batches_release hy).2 hat).imp_right fun h => owed_commit h hi hx hp
  version q y k items v hy := hk.version q y k items v (batches_release hy).2
  queued := hk.queued
  puts := hk.puts

theorem Settled.commit (hs : Settled s k) (hi : Inv s) (hx : s.batches p = some x) (hp : x.point = .marking) :
    Settled ({ s with outbox := markPublished s.outbox p x.ids }.commit p) k := by
  intro hqueued
  obtain h | h | ⟨q, y, hy, hat, hrest⟩ := hs hqueued
  · exact .inl h
  · exact .inr (.inl (owed_commit h hi hx hp))
  · have hqp : q ≠ p := by
      rintro rfl
      obtain rfl := Option.some.inj (hx.symm.trans hy)
      simp [hp, Point.atHand] at hat
    exact .inr (.inr ⟨q, y, by simpa [State.commit, State.release, hqp] using hy, hat, hrest⟩)

/-! ## Reading and storing -/

/-- Who has a kind in hand has its snapshot locked. -/
theorem locked_atHand (hi : Inv s) {q : ℕ} {items : I} (hy : s.batches q = some y) (hat : y.point.atHand = some (k, items)) :
    s.locks k = some q := by
  obtain ⟨w, todo, htodo, hk⟩ := (hi.batches q y hy).atHand k items hat
  have hpoint (kinds : List String) : y.point ≠ .locking kinds := by
    intro h
    simp [h, Point.atHand] at hat
  exact (hi.batches q y hy).locked_of hpoint (w := w) (by simp [htodo]) hk

theorem atHand_unique (hi : Inv s) {q : ℕ} {items : I} (hy : s.batches q = some y) (hat : y.point.atHand = some (k, items))
    (hl : s.locks k = some p) : q = p := Option.some.inj ((locked_atHand hi hy hat).symm.trans hl)

theorem owed_read {j : String} (h : Owed s j) (hj : j ≠ k) (hx : s.batches p = some x) (items : I) :
    Owed (s.put p (some { x with point := .getting k items })) j := by
  obtain ⟨id, r, h⟩ := h
  refine ⟨id, r, h.mono h.row fun q y hy hl hr => ?_⟩
  by_cases hqp : q = p
  · subst hqp
    obtain rfl : _ = y := by simpa [State.put] using hy
    obtain hr | ⟨items', hr⟩ := hr
    · exact ⟨x, hx, hl, .inl hr⟩
    · cases hr
      exact absurd rfl hj
  · exact ⟨y, by simpa [State.put, hqp] using hy, hl, hr⟩

theorem Kept.reads (hk : Kept s) (hi : Inv s) (hx : s.batches p = some x) (hl : s.locks k = some p) :
    Kept (s.put p (some { x with point := .getting k (s.db k) })) := by
  refine ⟨fun q y j items hy hat => ?_, fun q y j items v hy hat => ?_, hk.queued, hk.puts⟩
  · by_cases hqp : q = p
    · subst hqp
      obtain rfl : _ = y := by simpa [State.put] using hy
      cases hat
      exact .inl rfl
    · have hq : s.batches q = some y := by simpa [State.put, hqp] using hy
      have hj : j ≠ k := by
        rintro rfl
        exact hqp (atHand_unique hi hq hat hl)
      exact (hk.read q y j items hq hat).imp_right fun h => owed_read h hj hx _
  · by_cases hqp : q = p
    · subst hqp
      obtain rfl : _ = y := by simpa [State.put] using hy
      cases hat
    · exact hk.version q y j items v (by simpa [State.put, hqp] using hy) hat

theorem Settled.reads {j : String} (hs : Settled s j) (hi : Inv s) (hx : s.batches p = some x) (hp : x.point = .next)
    (hl : s.locks k = some p) : Settled (s.put p (some { x with point := .getting k (s.db k) })) j := by
  intro hqueued
  obtain h | h | ⟨q, y, hy, hat, hrest⟩ := hs hqueued
  · exact .inl h
  · by_cases hj : j = k
    · subst hj
      obtain ⟨id, r, h⟩ := h
      by_cases hlock : s.outbox.lock id = some p
      · refine .inr (.inr ⟨p, { x with point := .getting j (s.db j) }, by simp [State.put], rfl, id, r, ?_, h.config, h.key⟩)
        obtain hmem | hmem := (hi.batches p x hx).rows id r hlock h.row h.config
        · exact hmem
        · exact absurd (.inl (h.key ▸ hmem)) (h.unread p x hx hlock)
      · refine .inr (.inl ⟨id, r, h.mono h.row fun q y hy hl' hr => ?_⟩)
        have hqp : q ≠ p := fun h => hlock (h ▸ hl')
        exact ⟨y, by simpa [State.put, hqp] using hy, hl', hr⟩
    · exact .inr (.inl (owed_read h hj hx _))
  · have hqp : q ≠ p := by
      rintro rfl
      obtain rfl := Option.some.inj (hx.symm.trans hy)
      simp [hp, Point.atHand] at hat
    exact .inr (.inr ⟨q, y, by simpa [State.put, hqp] using hy, hat, hrest⟩)

@[simp] theorem atHand_wrote (x : Batch I) (k : String) (version written : ℕ) : (x.wrote k version written).point.atHand = none := by
  unfold Batch.wrote
  dsimp only
  cases x.todo with
  | nil => rfl
  | cons w todo => cases w <;> rfl

@[simp] theorem rewritten_wrote (x : Batch I) (k : String) (version written : ℕ) :
    (x.wrote k version written).rewritten = k :: x.rewritten := by
  unfold Batch.wrote
  dsimp only
  cases x.todo with
  | nil => rfl
  | cons w todo => cases w <;> rfl

theorem quiet_wrote (hx : s.batches p = some x) {items : I} {v : ℕ} (hp : x.point = .putting k items v) (written : ℕ) :
    Quiet s p s.outbox (x.wrote k v written) where
  row := rfl
  lock _ _ _ hl := hl
  read j id hl hr := by
    refine ⟨x, hx, hl, ?_⟩
    obtain hr | ⟨items', hr⟩ := hr
    · rw [rewritten_wrote] at hr
      obtain rfl | hr := List.mem_cons.mp hr
      · exact .inr ⟨items, by rw [hp]; rfl⟩
      · exact .inl hr
    · simp [atHand_wrote] at hr
  atHand j items' hat := by simp [atHand_wrote] at hat
  version j items' v' h := by
    have hat := atHand_wrote x k v written
    simp [h, Point.atHand] at hat

/-- What holds in every state of a run. -/
structure Safe (s : State I) : Prop where
  base : Inv s
  kept : Kept s
  settled : ∀ k, Settled s k

theorem Safe.elsewhere (hs : Safe s) (time : ℕ) (acked : List Message) : Safe { s with time := time, acked := acked } := by
  refine ⟨⟨hs.base.sound, hs.base.held, hs.base.batches, hs.base.known⟩, ⟨fun q y k items hy hat => ?_, hs.kept.version, hs.kept.queued, hs.kept.puts⟩,
    fun k hqueued => ?_⟩
  · exact (hs.kept.read q y k items hy hat).imp_right fun h => h.frame rfl rfl
  · exact (hs.settled k hqueued).imp_right fun h => h.imp_left fun h => h.frame rfl rfl

/-- A publisher stores what it has read. -/
theorem Safe.stores (hs : Safe s) (hx : s.batches p = some x) {items : I} {v : ℕ} (hp : x.point = .putting k items v) (written : ℕ) :
    Kept ((s.store k ⟨v, items, written⟩).put p (some (x.wrote k v written))) ∧
      ∀ j, Settled ((s.store k ⟨v, items, written⟩).put p (some (x.wrote k v written))) j := by
  have hq := quiet_wrote hx hp written
  have hat : x.point.atHand = some (k, items) := by rw [hp]; rfl
  have hl := locked_atHand hs.base hx hat
  have hnone (q : ℕ) (y : Batch I) (items' : I) (hy : (s.put p (some (x.wrote k v written))).batches q = some y) :
      y.point.atHand ≠ some (k, items') := by
    intro hat'
    by_cases hqp : q = p
    · obtain rfl : x.wrote k v written = y := by simpa [State.put, hqp] using hy
      simp at hat'
    · exact hqp (atHand_unique hs.base (by simpa [State.put, hqp] using hy) hat' hl)
  refine ⟨(hq.kept hs.kept).store hnone (hs.kept.version p x k items v hx hp), fun j => ?_⟩
  by_cases hj : j = k
  · subst hj
    exact settled_store_self ((hs.kept.read p x j items hx hat).imp_right hq.owed)
  · refine (hq.settled (hs.settled j) fun y items' hy hat' => ?_).store_other hj
    obtain rfl := Option.some.inj (hx.symm.trans hy)
    rw [hat] at hat'
    cases hat'
    exact absurd rfl hj

/-- The snapshot is stored, but the publisher does not get to know and is rolled back. -/
theorem Safe.storesLost (hs : Safe s) (hx : s.batches p = some x) {items : I} {v : ℕ} (hp : x.point = .putting k items v) (written : ℕ) :
    Kept ((s.store k ⟨v, items, written⟩).rollback p) ∧ ∀ j, Settled ((s.store k ⟨v, items, written⟩).rollback p) j := by
  have hat : x.point.atHand = some (k, items) := by rw [hp]; rfl
  have hl := locked_atHand hs.base hx hat
  have hnone (q : ℕ) (y : Batch I) (items' : I) (hy : (s.rollback p).batches q = some y) : y.point.atHand ≠ some (k, items') := by
    intro hat'
    obtain ⟨hqp, hy⟩ := batches_release hy
    exact hqp (atHand_unique hs.base hy hat' hl)
  refine ⟨(hs.kept.rollback p).store hnone (hs.kept.version p x k items v hx hp), fun j => ?_⟩
  by_cases hj : j = k
  · subst hj
    exact settled_store_self ((hs.kept.read p x j items hx hat).imp_right fun h => owed_rollback h p)
  · exact ((hs.settled j).rollback hs.base p).store_other hj

/-- A publisher goes on with what it has read, and with what it has in hand. -/
theorem quiet (hx : s.batches p = some x) {x' : Batch I} {db' : Table ℕ ℕ Row} (hrow : db'.row = s.outbox.row)
    (hlock : db'.lock = s.outbox.lock) (hrewritten : x'.rewritten = x.rewritten) (hat : x'.point.atHand = x.point.atHand)
    (hv : ∀ k items v, x'.point = .putting k items v → ∀ doc, s.stored k = some doc → doc.version < v) : Quiet s p db' x' where
  row := hrow
  lock _ _ _ hl := hlock ▸ hl
  read k id hl hr := by
    refine ⟨x, hx, hlock ▸ hl, ?_⟩
    unfold HasRead at hr ⊢
    rwa [hrewritten, hat] at hr
  atHand k items h := ⟨x, hx, hat ▸ h⟩
  version := hv

theorem Safe.goesOn (hs : Safe s) (hx : s.batches p = some x) {x' : Batch I} {db' : Table ℕ ℕ Row} {locks' : String → Option ℕ}
    (hrow : db'.row = s.outbox.row) (hlock : db'.lock = s.outbox.lock) (hrewritten : x'.rewritten = x.rewritten)
    (hat : x'.point.atHand = none) (hnone : x.point.atHand = none) :
    Kept ({ s with outbox := db', locks := locks' }.put p (some x')) ∧
      ∀ k, Settled ({ s with outbox := db', locks := locks' }.put p (some x')) k := by
  have hq : Quiet s p db' x' := quiet hx hrow hlock hrewritten (hat.trans hnone.symm) fun k items v h => by
    simp [h, Point.atHand] at hat
  refine ⟨hq.kept hs.kept, fun k => hq.settled (hs.settled k) fun y items hy hy' => ?_⟩
  obtain rfl := Option.some.inj (hx.symm.trans hy)
  rw [hnone] at hy'
  cases hy'

theorem Safe.rollsBack (hs : Safe s) (p : ℕ) : Kept (s.rollback p) ∧ ∀ k, Settled (s.rollback p) k :=
  ⟨hs.kept.rollback p, fun k => (hs.settled k).rollback hs.base p⟩

theorem versionOf_gt (stored : Option (Document I)) (now : ℕ) : ∀ doc, stored = some doc → doc.version < versionOf stored now := by
  rintro doc rfl
  simp only [versionOf]
  split_ifs with h
  · exact Nat.lt_succ_self _
  · exact not_le.mp h

theorem Safe.reads (hs : Safe s) (hx : s.batches p = some x) (hp : x.point = .next) {w : Work} {todo : List Work}
    (htodo : x.todo = w :: todo) (hk : w.kind? = some k) (inp : Input) :
    Kept (s.read p x k inp) ∧ ∀ j, Settled (s.read p x k inp) j := by
  unfold State.read
  split_ifs
  · exact hs.rollsBack p
  · have hl := (hs.base.batches p x hx).locked_of (by simp [hp]) (w := w) (by simp [htodo]) hk
    exact ⟨hs.kept.reads hs.base hx hl, fun j => (hs.settled j).reads hs.base hx hp hl⟩

theorem Safe.next (hs : Safe s) (hx : s.batches p = some x) (hp : x.point = .next) (inp : Input) :
    Kept (s.next p x inp) ∧ ∀ k, Settled (s.next p x inp) k := by
  have hnone : x.point.atHand = none := by rw [hp]; rfl
  unfold State.next
  cases htodo : x.todo with
  | nil =>
    refine hs.goesOn hx rfl rfl rfl ?_ hnone
    dsimp only
    split_ifs <;> rfl
  | cons w todo =>
    cases w with
    | kind k => exact hs.reads hx hp htodo rfl inp
    | row id r =>
      dsimp only
      split_ifs with hc
      · exact hs.goesOn hx rfl rfl rfl hnone hnone
      · exact hs.reads hx hp htodo (by simp [Work.kind?, hc]) inp
      · exact hs.goesOn hx rfl rfl rfl rfl hnone

theorem Safe.message (hs : Safe s) (hx : s.batches p = some x) {payload : Payload} {written : Option ℕ}
    (hp : x.point = .messaging payload written) (inp : Input) :
    Kept (s.message p x payload written inp) ∧ ∀ k, Settled (s.message p x payload written inp) k := by
  have hfits := hs.base.batches p x hx
  have hnone : x.point.atHand = none := by rw [hp]; rfl
  obtain ⟨id, r, todo, htodo, -⟩ := hfits.message payload written hp
  have hlock := (hfits.claimed id r (by simp [htodo])).1
  unfold State.message
  rw [htodo]
  dsimp only
  split_ifs
  · exact hs.rollsBack p
  · cases inp.refused with
    | some cause =>
      have hsame : (s.outbox.write p id (some (r.fail cause))).lock = s.outbox.lock := by
        rw [Table.lock_write, Table.take, ← hlock, Function.update_eq_self]
      exact hs.goesOn hx Table.row_write hsame rfl rfl hnone
    | none => exact hs.goesOn hx rfl rfl rfl rfl hnone

theorem Safe.go (hs : Safe s) (hx : s.batches p = some x) (inp : Input) : Kept (s.go p x inp) ∧ ∀ k, Settled (s.go p x inp) k := by
  unfold State.go
  cases hp : x.point with
  | locking kinds =>
    have hnone : x.point.atHand = none := by rw [hp]; rfl
    cases kinds with
    | nil => exact hs.goesOn hx rfl rfl rfl rfl hnone
    | cons k kinds =>
      dsimp only
      split_ifs
      · exact hs.rollsBack p
      · exact hs.goesOn hx rfl rfl rfl rfl hnone
      · exact ⟨hs.kept, hs.settled⟩
  | next => exact hs.next hx hp inp
  | getting k items =>
    dsimp only
    split_ifs
    · exact hs.rollsBack p
    · have hat : x.point.atHand = some (k, items) := by rw [hp]; rfl
      have hq : Quiet s p s.outbox { x with point := .putting k items (versionOf (s.stored k) inp.now) } := by
        refine quiet hx rfl rfl rfl hat.symm fun k' items' v h => ?_
        cases h
        exact versionOf_gt _ _
      refine ⟨hq.kept hs.kept, fun j => hq.settled (hs.settled j) fun y items' hy hat' => ?_⟩
      obtain rfl := Option.some.inj (hx.symm.trans hy)
      exact ⟨hat.symm.trans hat', rfl⟩
  | putting k items v =>
    dsimp only
    split_ifs
    · exact hs.rollsBack p
    · exact hs.storesLost hx hp s.time
    · exact hs.stores hx hp s.time
  | messaging payload written => exact hs.message hx hp inp
  | writing =>
    dsimp only
    split_ifs
    · exact hs.rollsBack p
    · exact (hs.elsewhere s.time (s.acked ++ x.msgs)).goesOn hx rfl rfl rfl rfl (by rw [hp]; rfl)
  | marking =>
    dsimp only
    split_ifs
    · exact hs.rollsBack p
    · exact ⟨hs.kept.commit hs.base hx hp, fun k => (hs.settled k).commit hs.base hx hp⟩

/-! ## Steps -/

theorem Safe.startsBatch (hs : Safe s) (hp : s.batches p = none) {x : Batch I} {db' : Table ℕ ℕ Row} (hrow : db'.row = s.outbox.row)
    (hlock : ∀ u, u ≠ p → ∀ id, db'.lock id = some u → s.outbox.lock id = some u) (hread : ∀ k, ¬HasRead x k)
    (hat : x.point.atHand = none) :
    Kept ({ s with outbox := db' }.put p (some x)) ∧ ∀ k, Settled ({ s with outbox := db' }.put p (some x)) k := by
  have hq : Quiet s p db' x := by
    refine ⟨hrow, hlock, fun k id _ hr => absurd hr (hread k), fun k items h => ?_, fun k items v h => ?_⟩
    · rw [hat] at h
      cases h
    · simp [h, Point.atHand] at hat
  refine ⟨hq.kept hs.kept, fun k => hq.settled (hs.settled k) fun y items hy => ?_⟩
  simp [hp] at hy

theorem Safe.publish (hs : Safe s) (hp : s.batches p = none) (seen : List ℕ) :
    Kept (s.publish p seen) ∧ ∀ k, Settled (s.publish p seen) k := by
  unfold State.publish
  dsimp only
  split_ifs
  · exact ⟨hs.kept, hs.settled⟩
  · refine hs.startsBatch hp (Table.row_takeAll _ _ _) (fun u hu id hl => ?_) (fun k hr => ?_) rfl
    · exact (Table.lock_takeAll_of_free (fun l hl => (mem_claims hl).2) hu).mp hl
    · obtain hr | ⟨items, hr⟩ := hr
      · cases hr
      · cases hr

theorem Safe.writeAll (hs : Safe s) (hp : s.batches p = none) : Kept (s.writeAll p) ∧ ∀ k, Settled (s.writeAll p) k := by
  refine hs.startsBatch hp rfl (fun _ _ _ hl => hl) (fun k hr => ?_) rfl
  obtain hr | ⟨items, hr⟩ := hr
  · cases hr
  · cases hr

/-- A row that nobody has locked is written: what was owed still is, unless it was that row. -/
theorem owed_setRow (h : Owed s k) {id : ℕ} (hid : ∀ r, ¬OwedBy s k id r) (r : Row) {s' : State I}
    (hrow : s'.outbox.row = Function.update s.outbox.row id (some r)) (hlock : s'.outbox.lock = s.outbox.lock)
    (hbatches : s'.batches = s.batches) : Owed s' k := by
  obtain ⟨id', r', h⟩ := h
  have hne : id' ≠ id := by
    rintro rfl
    exact hid r' h
  refine ⟨id', r', h.mono ?_ fun q y hy hl hr => ⟨y, hbatches ▸ hy, hlock ▸ hl, hr⟩⟩
  rw [hrow, Function.update_of_ne hne, h.row]

/-- Nothing but the outbox's rows is different, and what was owed still is. -/
theorem Safe.rows (hs : Safe s) {db' : Table ℕ ℕ Row} {known' : List ℕ}
    (ho : ∀ k, Owed s k → Owed { s with outbox := db', known := known' } k) :
    Kept { s with outbox := db', known := known' } ∧ ∀ k, Settled { s with outbox := db', known := known' } k := by
  refine ⟨⟨fun q y k items hy hat => (hs.kept.read q y k items hy hat).imp_right (ho k), hs.kept.version, hs.kept.queued, hs.kept.puts⟩,
    fun k hqueued => ?_⟩
  exact (hs.settled k hqueued).imp_right fun h => h.imp_left (ho k)

theorem Safe.requeue (hs : Safe s) (id : ℕ) : Kept (s.requeue id) ∧ ∀ k, Settled (s.requeue id) k := by
  unfold State.requeue
  cases hr : s.outbox.row id with
  | none => exact ⟨hs.kept, hs.settled⟩
  | some r =>
    dsimp only
    split_ifs with h
    · refine hs.rows fun k ho => owed_setRow ho (fun r' h' => ?_) { r with failed := false } rfl rfl rfl
      obtain rfl := Option.some.inj (hr.symm.trans h'.row)
      simpa [Row.pending, h.1] using h'.pending
    · exact ⟨hs.kept, hs.settled⟩

theorem not_owedBy_vacant {id : ℕ} (hv : s.vacant id = true) (r : Row) : ¬OwedBy s k id r := by
  intro h
  simp [State.vacant, h.row] at hv

/-- A change to a kind and the `config.changed` it queues are committed, so the kind is owed. -/
theorem Safe.writeConfig (hs : Safe s) {id : ℕ} (hv : s.vacant id = true) {kind : String} (requestId : String) (items : I) :
    Kept (State.insert { s with db := Function.update s.db kind items, queued := Function.update s.queued kind (some items) } id
      (newRow configChanged kind requestId kind s.time)) ∧
    ∀ k, Settled (State.insert { s with db := Function.update s.db kind items, queued := Function.update s.queued kind (some items) } id
      (newRow configChanged kind requestId kind s.time)) k := by
  set s' := State.insert { s with db := Function.update s.db kind items, queued := Function.update s.queued kind (some items) } id
    (newRow configChanged kind requestId kind s.time) with hs'
  have hfree : s.outbox.lock id = none := by
    simp only [State.vacant, Bool.and_eq_true, Option.isNone_iff_eq_none] at hv
    exact hv.2
  have hself : Owed s' kind := by
    refine ⟨id, newRow configChanged kind requestId kind s.time, by simp [hs', State.insert], by simp [Row.isConfig, newRow], rfl, rfl, fun q y _ hl => ?_⟩
    simp [hs', State.insert, hfree] at hl
  have hother (k : String) (ho : Owed s k) : Owed s' k := owed_setRow ho (not_owedBy_vacant hv) _ rfl rfl rfl
  refine ⟨⟨fun q y k items' hy hat => ?_, hs.kept.version, fun k items' h => ?_, hs.kept.puts⟩, fun k hqueued => ?_⟩
  · by_cases hk : k = kind
    · exact .inr (hk ▸ hself)
    · refine (hs.kept.read q y k items' hy hat).imp (fun h => ?_) (hother k)
      simpa [hs', State.insert, hk] using h
  · by_cases hk : k = kind
    · subst hk
      simpa [hs', State.insert, eq_comm] using h
    · simpa [hs', State.insert, hk] using hs.kept.queued k items' (by simpa [hs', State.insert, hk] using h)
  · by_cases hk : k = kind
    · exact .inr (.inl (hk ▸ hself))
    · have hdb : s'.db k = s.db k := by simp [hs', State.insert, hk]
      obtain ⟨doc, hdoc, hitems⟩ | h | ⟨q, y, hy, hat, hrest⟩ := hs.settled k (by simpa [hs', State.insert, hk] using hqueued)
      · exact .inl ⟨doc, hdoc, hitems.trans hdb.symm⟩
      · exact .inr (.inl (hother k h))
      · exact .inr (.inr ⟨q, y, hy, by rw [hdb]; exact hat, hrest⟩)

theorem Safe.write (hs : Safe s) (w : Write I) : Kept (s.write w) ∧ ∀ k, Settled (s.write w) k := by
  cases w with
  | event id event key requestId payload =>
    simp only [State.write]
    split_ifs with hv
    · exact hs.rows fun k ho => owed_setRow ho (not_owedBy_vacant hv.1) _ rfl rfl rfl
    · exact ⟨hs.kept, hs.settled⟩
  | config id kind requestId items =>
    simp only [State.write]
    split_ifs with hv
    · exact hs.writeConfig hv requestId items
    · exact ⟨hs.kept, hs.settled⟩

theorem Safe.act (hs : Safe s) (e : Event I) : Safe (s.act e) := by
  have hbase := hs.base.act e
  cases e with
  | commit writes =>
    change Safe (writes.foldl State.write s)
    clear hbase
    induction writes generalizing s with
    | nil => exact hs
    | cons w writes ih => exact ih ⟨hs.base.write w, (hs.write w).1, (hs.write w).2⟩
  | publish p seen =>
    simp only [State.act] at hbase ⊢
    split_ifs at hbase ⊢ with h
    · exact hs
    · have hp := hs.publish (by simpa using h) seen
      exact ⟨hbase, hp.1, hp.2⟩
  | writeAll p =>
    simp only [State.act] at hbase ⊢
    split_ifs at hbase ⊢ with h
    · exact hs
    · have hw := hs.writeAll (by simpa using h)
      exact ⟨hbase, hw.1, hw.2⟩
  | go p inp =>
    simp only [State.act] at hbase ⊢
    cases hx : s.batches p with
    | none => exact hs
    | some x =>
      simp only [hx, Option.elim_some] at hbase ⊢
      have hg := hs.go hx inp
      exact ⟨hbase, hg.1, hg.2⟩
  | die p =>
    have hr := hs.rollsBack p
    exact ⟨hbase, hr.1, hr.2⟩
  | requeue id =>
    have hr := hs.requeue id
    exact ⟨hbase, hr.1, hr.2⟩

theorem Safe.step (hs : Safe s) (e : Event I) : Safe (step s e) := (hs.act e).elsewhere (s.time + 1) (s.act e).acked

theorem safe_initial (db : String → I) : Safe (initial db) := by
  refine ⟨inv_initial db, ⟨fun p x k items hx => ?_, fun p x k items v hx => ?_, fun k items h => ?_, fun k => ⟨.nil, rfl⟩⟩,
    fun k h => absurd rfl h⟩
  · cases hx
  · cases hx
  · cases h

end

/-- Nothing is left to publish. -/
def Drained {I : Type} (s : State I) : Prop := ∀ id ∈ s.known, ∀ r ∈ s.outbox.row id, r.pending = false

/-- Each kind is stored as it was at the last committed change that was queued. -/
def UpToDate {I : Type} (s : State I) : Prop := ∀ k items, s.queued k = some items → ∃ doc, s.stored k = some doc ∧ doc.items = items

theorem Safe.upToDate {I : Type} {s : State I} (hs : Safe s) (hd : Drained s) : UpToDate s := by
  have hnone {id : ℕ} {r : Row} (hr : s.outbox.row id = some r) : r.pending = false := by
    refine hd id ?_ r hr
    by_contra hid
    simp [(hs.base.known id hid).1] at hr
  intro k items hqueued
  obtain rfl := hs.kept.queued k items hqueued
  obtain h | ⟨id, r, h⟩ | ⟨p, x, hx, -, id, r, hmem, -⟩ := hs.settled k (by simp [hqueued])
  · exact h
  · have hp := h.pending
    simp [hnone h.row] at hp
  · obtain ⟨-, hrow, hpending⟩ := (hs.base.batches p x hx).claimed id r hmem
    simp [hnone hrow] at hpending

/-- Whatever order the steps of transactions, publishers and full rewrites come in, the versions
stored of each kind rise strictly, and whenever the queue is drained each kind is stored as it was
at the last change that was queued. -/
theorem stored_rise_and_settle {I : Type} (db : String → I) (es : List (Event I)) :
    Throughout step (fun s => (∀ k, Rising s k) ∧ (Drained s → UpToDate s)) (initial db) es := by
  have hsafe : Throughout step (fun s => Safe s) (initial db) es :=
    throughout_keeps (P := fun s => Safe s) (fun _ e hs => hs.step e) (safe_initial db) es
  exact hsafe.imp fun _ hs => ⟨hs.kept.puts, hs.upToDate⟩

/-- A change to a kind, and the batch that publishes it. -/
def oneChange : List (Event ℕ) := [.commit [.config 0 "rules" "a" 1], .publish 0 [0]] ++ List.replicate 9 (.go 0 {})

example : ∀ id ∈ (run step (initial fun _ => 0) oneChange).known,
    ∀ r ∈ (run step (initial fun _ => 0) oneChange).outbox.row id, r.pending = false := by decide +kernel

end Upstat.StoredSnapshots
