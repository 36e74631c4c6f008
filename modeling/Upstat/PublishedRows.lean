import Upstat.OutboxPublisher

/-! # The rows that publishers mark published

What stands for a row when it is marked published: an acknowledged message that carries it, or that
tells of a snapshot written after it was committed. -/
namespace Upstat.PublishedRows

open GuardedRuns RowLocks OutboxPublisher

/-- The message carries the row; the payload of a `config.changed` is made anew. -/
def Carries (m : Message) (id : ℕ) (r : Row) : Prop :=
  m.rowId = id ∧ m.event = r.event ∧ m.key = r.key ∧ m.requestId = r.requestId ∧ (r.isConfig = false → m.payload = .text r.payload)

/-- The message tells of a snapshot of the kind that was written after the commit. -/
def Announces (m : Message) (kind : String) (committed : ℕ) : Prop :=
  m.event = configChanged ∧ m.key = kind ∧ ∃ t ∈ m.written, committed < t

instance (m : Message) (id : ℕ) (r : Row) : Decidable (Carries m id r) := inferInstanceAs (Decidable (_ ∧ _))

instance (m : Message) (kind : String) (committed : ℕ) : Decidable (Announces m kind committed) := inferInstanceAs (Decidable (_ ∧ _))

/-- One of the messages stands for the row. -/
def Covered (ms : List Message) (id : ℕ) (r : Row) : Prop :=
  (∃ m ∈ ms, Carries m id r) ∨ (r.isConfig = true ∧ ∃ m ∈ ms, Announces m r.key r.committed)

instance (ms : List Message) (id : ℕ) (r : Row) : Decidable (Covered ms id r) := inferInstanceAs (Decidable (_ ∨ _))

/-- A published row has an acknowledged message that stands for it; another waits for a later batch or is recorded as failed. -/
def Accounted (acked : List Message) (id : ℕ) (r : Row) : Prop :=
  (r.published = true → Covered acked id r) ∧ (r.published = false → r.pending = true ∨ r.failed = true)

instance (acked : List Message) (id : ℕ) (r : Row) : Decidable (Accounted acked id r) :=
  inferInstanceAs (Decidable ((_ → _) ∧ (_ → _)))

def AllAccounted {I : Type} (s : State I) : Prop := ∀ id ∈ s.known, ∃ r, s.outbox.row id = some r ∧ Accounted s.acked id r

/-- The contract refuses the `config.changed` at hand, and a later row of the batch counts on its message. -/
def strands {I : Type} (x : Batch I) (inp : Input) : Bool :=
  match x.point, x.todo with
  | .messaging _ _, .row _ r :: todo => !inp.failed && inp.refused.isSome && r.isConfig && todo.any fun w => w.kind? = some r.key
  | _, _ => false

/-- No `config.changed` is refused that later rows of its batch count on. -/
def NoneStranded {I : Type} (s : State I) : Event I → Prop
  | .go p inp => ∀ x ∈ s.batches p, strands x inp = false
  | .commit _ | .publish _ _ | .writeAll _ | .die _ | .requeue _ => True

section
variable {I : Type} {s : State I} {x : Batch I} {p t : ℕ} {db db' : Table ℕ ℕ Row} {ms ms' acked acked' : List Message} {id : ℕ} {r : Row}
  {row row' : ℕ → Option Row} {locks : String → Option ℕ}

theorem Covered.mono (h : Covered ms id r) (hsub : ms ⊆ ms') : Covered ms' id r := by
  obtain ⟨m, hm, hc⟩ | ⟨hc, m, hm, ha⟩ := h
  · exact .inl ⟨m, hsub hm, hc⟩
  · exact .inr ⟨hc, m, hsub hm, ha⟩

theorem accounted_of_covered (h : r.published = true → Covered ms id r) : Accounted ms id r := by
  refine ⟨h, fun hp => ?_⟩
  by_cases hf : r.failed = true
  · exact .inr hf
  · exact .inl (by simp [Row.pending, hp, hf])

/-- The message at hand is to tell of a snapshot that was written after the row was committed. -/
def AtHand (x : Batch I) (r : Row) : Prop :=
  ∃ payload t id' r' todo, x.point = .messaging payload (some t) ∧ x.todo = .row id' r' :: todo ∧
    r'.isConfig = true ∧ r'.key = r.key ∧ r.committed < t

/-- The messages of a publisher stand for the rows that it is going to mark. -/
structure Faithful (row : ℕ → Option Row) (acked : List Message) (x : Batch I) : Prop where
  ids : ∀ id ∈ x.ids, ∀ r, row id = some r → Covered x.msgs id r
  rewritten : ∀ id r, .row id r ∈ x.todo → r.isConfig = true → r.key ∈ x.rewritten →
    (∃ m ∈ x.msgs, Announces m r.key r.committed) ∨ AtHand x r
  text : ∀ payload written id r todo, x.point = .messaging payload written → x.todo = .row id r :: todo → r.isConfig = false →
    payload = .text r.payload
  kinds : ∀ k, .kind k ∈ x.todo → ∀ id r, .row id r ∉ x.todo
  acked : x.point = .marking → x.msgs ⊆ acked

/-- What publishers have made of rows is not published before they commit. -/
def Unmarked (db : Table ℕ ℕ Row) (t : ℕ) : Prop :=
  ∀ p id d, db.draft p id = some d → ∃ r, d = some r ∧ r.published = false ∧ r.committed < t

structure Kept (t : ℕ) (s : State I) : Prop where
  present : ∀ id ∈ s.known, ∃ r, s.outbox.row id = some r
  committed : ∀ id r, s.outbox.row id = some r → r.committed < t
  published : ∀ id r, s.outbox.row id = some r → r.published = true → Covered s.acked id r
  drafts : Unmarked s.outbox t
  batches : ∀ p x, s.batches p = some x → Faithful s.outbox.row s.acked x

theorem Faithful.frame (h : Faithful row acked x) (hrow : ∀ id ∈ x.ids, row' id = row id) (hsub : acked ⊆ acked') : Faithful row' acked' x where
  ids id hid r hr := h.ids id hid r ((hrow id hid).symm.trans hr)
  rewritten := h.rewritten
  text := h.text
  kinds := h.kinds
  acked hp := List.Subset.trans (h.acked hp) hsub

theorem Kept.later (hk : Kept t s) {t' : ℕ} (ht : t ≤ t') : Kept t' s where
  present := hk.present
  committed id r hr := (hk.committed id r hr).trans_le ht
  published := hk.published
  drafts p id d hd := by
    obtain ⟨r, hr, hp, hc⟩ := hk.drafts p id d hd
    exact ⟨r, hr, hp, hc.trans_le ht⟩
  batches := hk.batches

theorem Kept.goesOn (hk : Kept t s) {locks' : String → Option ℕ} (hrow : db'.row = s.outbox.row) (hd : Unmarked db' t)
    (h : Faithful s.outbox.row s.acked x) : Kept t ({ s with outbox := db', locks := locks' }.put p (some x)) where
  present id hid := by
    obtain ⟨r, hr⟩ := hk.present id hid
    exact ⟨r, by rw [← hr, ← hrow]; rfl⟩
  committed id r hr := hk.committed id r (by rw [← hr, ← hrow]; rfl)
  published id r hr := hk.published id r (by rw [← hr, ← hrow]; rfl)
  drafts := hd
  batches q y hy := by
    change Faithful db'.row s.acked y
    rw [hrow]
    by_cases hqp : q = p
    · obtain rfl : x = y := by simpa [State.put, hqp] using hy
      exact h
    · exact hk.batches q y (by simpa [State.put, hqp] using hy)

theorem Kept.put (hk : Kept t s) (h : Faithful s.outbox.row s.acked x) : Kept t (s.put p (some x)) := hk.goesOn rfl hk.drafts h

theorem Unmarked.rollback (h : Unmarked db t) (p : ℕ) : Unmarked (db.rollback p) t := by
  intro q id d hd
  by_cases hqp : q = p
  · simp [hqp] at hd
  · exact h q id d (by rwa [Table.draft_rollback hqp] at hd)

theorem Kept.rollback (hk : Kept t s) (p : ℕ) : Kept t (s.rollback p) where
  present := hk.present
  committed := hk.committed
  published := hk.published
  drafts := hk.drafts.rollback p
  batches q y hy := hk.batches q y (batches_release hy).2

/-- The rows as a publisher's commit leaves them. -/
theorem row_marked (hs : s.outbox.Sound) {ids : List ℕ} (h : ∀ id ∈ ids, s.outbox.lock id = some p) (id : ℕ) :
    ((markPublished s.outbox p ids).commit p).row id =
      if id ∈ ids then (s.outbox.row id).map Row.publish else (s.outbox.draft p id).getD (s.outbox.row id) := by
  have hm := marked hs h
  simp only [Table.commit, hm.draft, hm.row]
  split_ifs <;> rfl

theorem Kept.commit (hk : Kept t s) (hi : Inv s) (hx : s.batches p = some x) (hp : x.point = .marking) :
    Kept t ({ s with outbox := markPublished s.outbox p x.ids }.commit p) := by
  have hids := (hi.batches p x hx).ids
  have hm := marked hi.sound hids
  have hfaithful := hk.batches p x hx
  have hcases (id : ℕ) : (id ∈ x.ids ∧ ((markPublished s.outbox p x.ids).commit p).row id = (s.outbox.row id).map Row.publish) ∨
      ((markPublished s.outbox p x.ids).commit p).row id = s.outbox.row id ∨
      ∃ r, ((markPublished s.outbox p x.ids).commit p).row id = some r ∧ r.published = false ∧ r.committed < t := by
    rw [row_marked hi.sound hids]
    split_ifs with hid
    · exact .inl ⟨hid, rfl⟩
    · cases hd : s.outbox.draft p id with
      | none => exact .inr (.inl rfl)
      | some d =>
        obtain ⟨r, rfl, hr⟩ := hk.drafts p id d hd
        exact .inr (.inr ⟨r, rfl, hr⟩)
  refine ⟨fun id hid => ?_, fun id r hr => ?_, fun id r hr hpub => ?_, fun q id d hd => ?_, fun q y hy => ?_⟩
  · change ∃ r, ((markPublished s.outbox p x.ids).commit p).row id = some r
    obtain ⟨r, hr⟩ := hk.present id hid
    obtain ⟨-, h⟩ | h | ⟨r', h, -⟩ := hcases id
    · exact ⟨r.publish, by rw [h, hr]; rfl⟩
    · exact ⟨r, h.trans hr⟩
    · exact ⟨r', h⟩
  · change ((markPublished s.outbox p x.ids).commit p).row id = some r at hr
    obtain ⟨-, h⟩ | h | ⟨r', h, -, hc⟩ := hcases id
    · rw [h] at hr
      obtain ⟨r', hr', rfl⟩ := Option.map_eq_some_iff.mp hr
      exact hk.committed id r' hr'
    · exact hk.committed id r (h.symm.trans hr)
    · obtain rfl := Option.some.inj (h.symm.trans hr)
      exact hc
  · change ((markPublished s.outbox p x.ids).commit p).row id = some r at hr
    obtain ⟨hid, h⟩ | h | ⟨r', h, hfalse, -⟩ := hcases id
    · rw [h] at hr
      obtain ⟨r', hr', rfl⟩ := Option.map_eq_some_iff.mp hr
      have hcovered : Covered x.msgs id r' := hfaithful.ids id hid r' hr'
      exact hcovered.mono (hfaithful.acked hp)
    · exact hk.published id r (h.symm.trans hr) hpub
    · obtain rfl := Option.some.inj (h.symm.trans hr)
      simp [hfalse] at hpub
  · by_cases hqp : q = p
    · subst hqp
      have hnone : ((markPublished s.outbox q x.ids).commit q).draft q id = none := Table.draft_commit_self
      exact absurd (hnone.symm.trans hd) (by simp)
    · refine hk.drafts q id d (Eq.trans ?_ hd)
      change s.outbox.draft q id = ((markPublished s.outbox p x.ids).commit p).draft q id
      rw [Table.draft_commit hqp, hm.others q hqp]
  · obtain ⟨hqp, hy⟩ := batches_release hy
    refine (hk.batches q y hy).frame (fun id hid => ?_) fun _ h => h
    have hlock : (markPublished s.outbox p x.ids).lock id ≠ some p := by
      rw [hm.lock, (hi.batches q y hy).ids id hid]
      exact fun h => hqp (Option.some.inj h)
    exact (hm.sound.row_commit hlock).trans (congrFun hm.row id)

/-- A row that nobody has locked is written, and is not published. -/
theorem Kept.setRow (hk : Kept t s) (hi : Inv s) (hfree : s.outbox.lock id = none) (hp : r.published = false) (hc : r.committed < t)
    {known' : List ℕ} (hknown : ∀ l ∈ known', l = id ∨ l ∈ s.known) :
    Kept t { s with outbox := { s.outbox with row := Function.update s.outbox.row id (some r) }, known := known' } := by
  refine ⟨fun l hl => ?_, fun l r' hr => ?_, fun l r' hr hpub => ?_, hk.drafts, fun q y hy => ?_⟩
  · by_cases hlid : l = id
    · exact ⟨r, by simp [hlid]⟩
    · simpa [hlid] using hk.present l ((hknown l hl).resolve_left hlid)
  · by_cases hlid : l = id
    · obtain rfl : r = r' := by simpa [hlid] using hr
      exact hc
    · exact hk.committed l r' (by simpa [hlid] using hr)
  · by_cases hlid : l = id
    · obtain rfl : r = r' := by simpa [hlid] using hr
      simp [hp] at hpub
    · exact hk.published l r' (by simpa [hlid] using hr) hpub
  · refine (hk.batches q y hy).frame (fun l hl => Function.update_of_ne ?_ _ _) fun _ h => h
    rintro rfl
    have hlock := (hi.batches q y hy).ids l hl
    simp [hfree] at hlock

/-! ## A publisher's steps -/

/-- A publisher that is not about to send goes on to another point, with the same work to do. -/
theorem Faithful.moves (h : Faithful row acked x) (hp : ∀ payload t, x.point ≠ .messaging payload (some t)) {point : Point I}
    (htext : ∀ payload written id r todo, point = .messaging payload written → x.todo = .row id r :: todo → r.isConfig = false →
      payload = .text r.payload)
    (hacked : point = .marking → x.msgs ⊆ acked) : Faithful row acked { x with point := point } where
  ids := h.ids
  rewritten id r hr hc hk := by
    obtain hm | ⟨payload, t, -, -, -, hat, -⟩ := h.rewritten id r hr hc hk
    · exact .inl hm
    · exact absurd hat (hp payload t)
  text := htext
  kinds := h.kinds
  acked := hacked

theorem Kept.read (hk : Kept t s) (hx : Faithful s.outbox.row s.acked x) (hp : x.point = .next) (k : String) (inp : Input) :
    Kept t (s.read p x k inp) := by
  unfold State.read
  split_ifs
  · exact hk.rollback p
  · exact hk.put (hx.moves (by simp [hp]) (fun _ _ _ _ _ h => (by cases h)) fun h => (by cases h))

/-- The rows that are still to do are among those that were. -/
theorem Faithful.kinds_tail (h : Faithful row acked x) {w : Work} {todo : List Work} (htodo : x.todo = w :: todo) :
    ∀ k, .kind k ∈ todo → ∀ id r, .row id r ∉ todo := by
  intro k hk id r hr
  exact h.kinds k (by simp [htodo, hk]) id r (by simp [htodo, hr])

theorem Kept.next (hk : Kept t s) (hx : Faithful s.outbox.row s.acked x) (hfits : x.Fits s.outbox s.locks p) (hp : x.point = .next)
    (inp : Input) : Kept t (s.next p x inp) := by
  unfold State.next
  cases htodo : x.todo with
  | nil =>
    refine hk.put ?_
    rw [← htodo]
    refine hx.moves (by simp [hp]) (fun _ _ _ _ _ h => ?_) fun h => ?_
    · split_ifs at h
    · split_ifs at h with hmsgs
      simp [List.isEmpty_iff.mp hmsgs]
  | cons w todo =>
    cases w with
    | kind k => exact hk.read hx hp k inp
    | row id r =>
      dsimp only
      split_ifs with hc hr
      · have hsent : ∃ m ∈ x.msgs, Announces m r.key r.committed := by
          obtain h | ⟨payload, t, -, -, -, hat, -⟩ := hx.rewritten id r (by simp [htodo]) hc hr
          · exact h
          · simp [hp] at hat
        refine hk.put ⟨fun l hl r' hr' => ?_, fun l r' hr' hc' hk' => ?_, fun _ _ _ _ _ h => ?_, hx.kinds_tail htodo, fun h => ?_⟩
        · obtain hl | hl := List.mem_append.mp hl
          · exact hx.ids l hl r' hr'
          · obtain rfl := List.mem_singleton.mp hl
            have hrow := (hfits.claimed l r (by simp [htodo])).2.1
            obtain rfl := Option.some.inj (hrow.symm.trans hr')
            exact .inr ⟨hc, hsent⟩
        · obtain h | ⟨payload, t, -, -, -, hat, -⟩ := hx.rewritten l r' (by simp [htodo, hr']) hc' hk'
          · exact .inl h
          · simp [hp] at hat
        · simp [hp] at h
        · simp [hp] at h
      · exact hk.read hx hp r.key inp
      · refine hk.put ?_
        rw [← htodo]
        refine hx.moves (by simp [hp]) (fun payload written id' r' todo' h h' _ => ?_) fun h => (by cases h)
        cases h
        rw [htodo] at h'
        cases h'
        rfl

/-- The message at hand stands for its row, and for later rows of its kind. -/
theorem Faithful.sent (hx : Faithful row acked x) {payload : Payload} {written : Option ℕ} (hp : x.point = .messaging payload written)
    {todo : List Work} (htodo : x.todo = .row id r :: todo) (hrow : row id = some r) :
    Faithful row acked ({ x with
      point := .next
      todo := todo
      msgs := x.msgs ++ [⟨id, r.event, r.key, r.requestId, payload, written⟩]
      ids := x.ids ++ [id] } : Batch I) := by
  set m : Message := ⟨id, r.event, r.key, r.requestId, payload, written⟩ with hm
  have hsub : x.msgs ⊆ x.msgs ++ [m] := List.subset_append_left _ _
  have hmem : m ∈ x.msgs ++ [m] := List.mem_append_right _ (List.mem_singleton_self m)
  refine ⟨fun l hl r' hr' => ?_, fun l r' hr' hc hk => .inl ?_, fun _ _ _ _ _ h => (by cases h), hx.kinds_tail htodo, fun h => (by cases h)⟩
  · obtain hl | hl := List.mem_append.mp hl
    · have hcovered : Covered x.msgs l r' := hx.ids l hl r' hr'
      exact hcovered.mono hsub
    · obtain rfl := List.mem_singleton.mp hl
      obtain rfl := Option.some.inj (hrow.symm.trans hr')
      exact .inl ⟨m, hmem, rfl, rfl, rfl, rfl, hx.text payload written l r todo hp htodo⟩
  · obtain ⟨m', hm', ha⟩ | ⟨payload', t, id', r'', todo', hat, htodo', hc'', hkey, ht⟩ := hx.rewritten l r' (by simp [htodo, hr']) hc hk
    · exact ⟨m', hsub hm', ha⟩
    · obtain ⟨-, rfl⟩ : payload = payload' ∧ written = some t := by simpa [hp] using hat
      rw [htodo] at htodo'
      cases htodo'
      exact ⟨m, hmem, by simpa [Row.isConfig] using hc'', hkey, t, rfl, ht⟩

/-- The row at hand is parked, and no row is left that counts on its message. -/
theorem Faithful.parked (hx : Faithful row acked x) {payload : Payload} {written : Option ℕ} (hp : x.point = .messaging payload written)
    {todo : List Work} (htodo : x.todo = .row id r :: todo) {inp : Input} {cause : String} (hfailed : ¬inp.failed = true)
    (hrefused : inp.refused = some cause) (hnone : strands x inp = false) : Faithful row acked ({ x with point := .next, todo := todo } : Batch I) := by
  refine ⟨hx.ids, fun l r' hr' hc hk => .inl ?_, fun _ _ _ _ _ h => (by cases h), hx.kinds_tail htodo, fun h => (by cases h)⟩
  obtain h | ⟨payload', t, id', r'', todo', -, htodo', hc'', hkey, -⟩ := hx.rewritten l r' (by simp [htodo, hr']) hc hk
  · exact h
  · rw [htodo] at htodo'
    cases htodo'
    simp only [strands, hp, htodo, hfailed, hrefused, hc'', Bool.not_false, Option.isSome_some, Bool.true_and, List.any_eq_false] at hnone
    exact absurd (hnone _ hr') (by simp [Work.kind?, hc, hkey])

theorem Unmarked.write (h : Unmarked db t) (hp : r.published = false) (hc : r.committed < t) : Unmarked (db.write p id (some r)) t := by
  intro q l d hd
  by_cases hqp : q = p
  · subst hqp
    by_cases hl : l = id
    · subst hl
      exact ⟨r, by simpa [eq_comm] using hd, hp, hc⟩
    · exact h q l d (by simpa [hl] using hd)
  · exact h q l d (by rwa [Table.draft_write hqp] at hd)

theorem Kept.message (hk : Kept t s) (hx : Faithful s.outbox.row s.acked x) (hfits : x.Fits s.outbox s.locks p) {payload : Payload}
    {written : Option ℕ} (hp : x.point = .messaging payload written) {inp : Input} (hnone : strands x inp = false) :
    Kept t (s.message p x payload written inp) := by
  obtain ⟨id, r, todo, htodo, -⟩ := hfits.message payload written hp
  obtain ⟨-, hrow, hpending⟩ := hfits.claimed id r (by simp [htodo])
  unfold State.message
  rw [htodo]
  dsimp only
  split_ifs with hfailed
  · exact hk.rollback p
  · cases hrefused : inp.refused with
    | some cause =>
      have hpub : (r.fail cause).published = false := by
        simp only [Row.pending, Bool.and_eq_true, Bool.not_eq_true'] at hpending
        exact hpending.1
      refine hk.goesOn Table.row_write (hk.drafts.write hpub ?_) (hx.parked hp htodo hfailed hrefused hnone)
      exact hk.committed id r hrow
    | none => exact hk.put (hx.sent hp htodo hrow)

/-- The snapshot that a publisher writes is later than the commits of the rows it has claimed. -/
theorem Faithful.wrote (hx : Faithful row acked x) (hfits : x.Fits db locks p) {k : String} {items : I} {version : ℕ}
    (hp : x.point = .putting k items version) {written : ℕ} (hlate : ∀ id r, .row id r ∈ x.todo → r.committed < written) :
    Faithful row acked (x.wrote k version written) := by
  obtain ⟨w, todo, htodo, hkind⟩ := hfits.atHand k items (by rw [hp]; rfl)
  unfold Batch.wrote
  dsimp only
  rw [htodo]
  cases w with
  | kind k' =>
    refine ⟨hx.ids, fun id r hr _ _ => ?_, fun _ _ _ _ _ h => (by cases h), hx.kinds_tail htodo, fun h => (by cases h)⟩
    exact absurd (by simp [htodo, hr]) (hx.kinds k' (by simp [htodo]) id r)
  | row id' r' =>
    have hconfig : r'.isConfig = true ∧ r'.key = k := by
      by_cases hc : r'.isConfig = true
      · exact ⟨hc, by simpa [Work.kind?, hc] using hkind⟩
      · simp [Work.kind?, hc] at hkind
    dsimp only
    refine ⟨hx.ids, fun id r hr hc hk => ?_, fun payload written' id r todo' h h' hc => ?_, htodo ▸ hx.kinds, fun h => (by cases h)⟩
    · rw [← htodo] at hr
      obtain hkey | hk := List.mem_cons.mp hk
      · exact .inr ⟨_, written, id', r', todo, rfl, rfl, hconfig.1, hconfig.2.trans hkey.symm, hlate id r hr⟩
      · obtain h | ⟨payload, t, -, -, -, hat, -⟩ := hx.rewritten id r hr hc hk
        · exact .inl h
        · simp [hp] at hat
    · cases h'
      simp [hconfig.1] at hc

theorem Kept.acknowledged (hk : Kept t s) (ms : List Message) : Kept t { s with acked := s.acked ++ ms } where
  present := hk.present
  committed := hk.committed
  published id r hr hp := (hk.published id r hr hp).mono (List.subset_append_left _ _)
  drafts := hk.drafts
  batches q y hy := (hk.batches q y hy).frame (fun _ _ => rfl) (List.subset_append_left _ _)

theorem Kept.go (hk : Kept s.time s) (hi : Inv s) (hx : s.batches p = some x) {inp : Input} (hnone : strands x inp = false) :
    Kept s.time (s.go p x inp) := by
  have hfits := hi.batches p x hx
  have hfaithful := hk.batches p x hx
  unfold State.go
  cases hp : x.point with
  | locking kinds =>
    have hmoves (point : Point I) (hpoint : point = .next ∨ ∃ kinds, point = .locking kinds) :
        Faithful s.outbox.row s.acked { x with point := point } := by
      refine hfaithful.moves (by simp [hp]) (fun _ _ _ _ _ h => ?_) fun h => ?_
      · obtain rfl | ⟨kinds, rfl⟩ := hpoint <;> cases h
      · obtain rfl | ⟨kinds, rfl⟩ := hpoint <;> cases h
    cases kinds with
    | nil => exact hk.put (hmoves .next (.inl rfl))
    | cons k kinds =>
      dsimp only
      split_ifs
      · exact hk.rollback p
      · exact hk.goesOn rfl hk.drafts (hmoves (.locking kinds) (.inr ⟨kinds, rfl⟩))
      · exact hk
  | next => exact hk.next hfaithful hfits hp inp
  | getting k items =>
    dsimp only
    split_ifs
    · exact hk.rollback p
    · exact hk.put (hfaithful.moves (by simp [hp]) (fun _ _ _ _ _ h => (by cases h)) fun h => (by cases h))
  | putting k items version =>
    have hstored (doc : Document I) : Kept s.time (s.store k doc) := ⟨hk.present, hk.committed, hk.published, hk.drafts, hk.batches⟩
    have hlate (id : ℕ) (r : Row) (hr : .row id r ∈ x.todo) : r.committed < s.time := hk.committed id r (hfits.claimed id r hr).2.1
    dsimp only
    split_ifs
    · exact hk.rollback p
    · exact (hstored _).rollback p
    · exact (hstored _).put (hfaithful.wrote hfits hp hlate)
  | messaging payload written => exact hk.message hfaithful hfits hp hnone
  | writing =>
    dsimp only
    split_ifs
    · exact hk.rollback p
    · have hacked : Faithful s.outbox.row (s.acked ++ x.msgs) x := hfaithful.frame (fun _ _ => rfl) (List.subset_append_left _ _)
      refine (hk.acknowledged x.msgs).put (hacked.moves (by simp [hp]) (fun _ _ _ _ _ h => (by cases h)) fun _ => ?_)
      exact List.subset_append_right _ _
  | marking =>
    dsimp only
    split_ifs
    · exact hk.rollback p
    · exact hk.commit hi hx hp

/-! ## Steps -/

theorem Kept.write (hk : Kept t s) (hi : Inv s) (ht : s.time < t) (w : Write I) : Kept t (s.write w) := by
  have hinsert {id : ℕ} (hv : s.vacant id = true) (event key requestId payload : String) :
      Kept t (s.insert id (newRow event key requestId payload s.time)) := by
    simp only [State.vacant, Bool.and_eq_true, Option.isNone_iff_eq_none] at hv
    refine hk.setRow hi hv.2 rfl ht fun l hl => ?_
    obtain hl | hl := List.mem_append.mp hl
    · exact .inr hl
    · exact .inl (List.mem_singleton.mp hl)
  cases w with
  | config id kind requestId items =>
    simp only [State.write]
    split_ifs with hv
    · have h := hinsert hv configChanged kind requestId kind
      exact ⟨h.present, h.committed, h.published, h.drafts, h.batches⟩
    · exact hk
  | event id event key requestId payload =>
    simp only [State.write]
    split_ifs with hv
    · exact hinsert hv.1 event key requestId payload
    · exact hk

theorem Kept.requeue (hk : Kept t s) (hi : Inv s) (id : ℕ) : Kept t (s.requeue id) := by
  unfold State.requeue
  cases hr : s.outbox.row id with
  | none => exact hk
  | some r =>
    dsimp only
    split_ifs with h
    · exact hk.setRow (r := { r with failed := false }) hi (Option.isNone_iff_eq_none.mp h.2.2.2) (by simpa using h.2.1)
        (hk.committed id r hr) fun _ hl => .inr hl
    · exact hk

theorem Kept.publish (hk : Kept t s) (seen : List ℕ) : Kept t (s.publish p seen) := by
  unfold State.publish
  dsimp only
  split_ifs
  · exact hk
  · refine hk.goesOn (Table.row_takeAll _ _ _) (fun q id d hd => hk.drafts q id d ?_) ⟨fun _ h => (by cases h), fun _ _ _ _ h => (by cases h),
      fun _ _ _ _ _ h => (by cases h), fun k hk' => ?_, fun h => (by cases h)⟩
    · rwa [Table.draft_takeAll] at hd
    · obtain ⟨id, -, r, -, h⟩ := mem_workOf hk'
      cases h

theorem Kept.writeAll (hk : Kept t s) : Kept t (s.writeAll p) := by
  refine hk.put ⟨fun _ h => (by cases h), fun _ _ _ _ h => (by cases h), fun _ _ _ _ _ h => (by cases h), fun _ _ id r hr => ?_,
    fun h => (by cases h)⟩
  obtain ⟨k, -, h⟩ := List.mem_map.mp hr
  cases h

theorem time_write (s : State I) (w : Write I) : (s.write w).time = s.time := by
  cases w <;> simp only [State.write] <;> split_ifs <;> rfl

theorem Kept.act (hk : Kept s.time s) (hi : Inv s) {e : Event I} (he : NoneStranded s e) : Kept (s.time + 1) (s.act e) := by
  have hlater : Kept (s.time + 1) s := hk.later (Nat.le_succ _)
  cases e with
  | commit writes =>
    clear he
    have hfold (s' : State I) (hs' : s'.time = s.time) (hk' : Kept (s.time + 1) s') (hi' : Inv s') :
        Kept (s.time + 1) (writes.foldl State.write s') := by
      induction writes generalizing s' with
      | nil => exact hk'
      | cons w writes ih => exact ih _ ((time_write s' w).trans hs') (hk'.write hi' (by omega) w) (hi'.write w)
    exact hfold s rfl hlater hi
  | publish p seen =>
    simp only [State.act]
    split_ifs
    · exact hlater
    · exact hlater.publish seen
  | writeAll p =>
    simp only [State.act]
    split_ifs
    · exact hlater
    · exact hlater.writeAll
  | go p inp =>
    simp only [State.act]
    cases hx : s.batches p with
    | none => exact hlater
    | some x => exact (hk.go hi hx (he x hx)).later (Nat.le_succ _)
  | die p => exact hlater.rollback p
  | requeue id => exact hlater.requeue hi id

/-- What holds in every state of a run of which no step strands a row. -/
structure Safe (s : State I) : Prop where
  base : Inv s
  kept : Kept s.time s

theorem Safe.step (hs : Safe s) {e : Event I} (he : NoneStranded s e) : Safe (step s e) := by
  have hbase := hs.base.act e
  have hkept := hs.kept.act hs.base he
  exact ⟨⟨hbase.sound, hbase.held, hbase.batches, hbase.known⟩,
    ⟨hkept.present, hkept.committed, hkept.published, hkept.drafts, hkept.batches⟩⟩

theorem safe_initial (db : String → I) : Safe (initial db) :=
  ⟨inv_initial db, ⟨fun _ h => (by cases h), fun _ _ h => (by cases h), fun _ _ h => (by cases h), fun _ _ _ h => (by cases h),
    fun _ _ h => (by cases h)⟩⟩

theorem Safe.accounted (hs : Safe s) : AllAccounted s := by
  intro id hid
  obtain ⟨r, hr⟩ := hs.kept.present id hid
  exact ⟨r, hr, accounted_of_covered (hs.kept.published id r hr)⟩

end

/-- Whatever is queued and whatever fails, as long as no `config.changed` is refused that later rows
of its batch count on, every row is published only as acknowledged messages stand for it, and waits
for a later batch or is recorded as failed otherwise. -/
theorem published_accounted {I : Type} (db : String → I) (es : List (Event I)) (hm : Meets step NoneStranded (initial db) es) :
    Throughout step AllAccounted (initial db) es := by
  have hsafe : Throughout step (fun s => Safe s) (initial db) es :=
    hm.throughout (P := fun s => Safe s) (fun _ _ hs he => hs.step he) (safe_initial db)
  exact hsafe.imp fun _ hs => hs.accounted

instance {I : Type} (s : State I) (e : Event I) : Decidable (NoneStranded s e) :=
  match e with
  | .go p inp => inferInstanceAs (Decidable (∀ x ∈ s.batches p, strands x inp = false))
  | .commit _ | .publish _ _ | .writeAll _ | .die _ | .requeue _ => .isTrue trivial

/-- Two changes of a kind, and an event that the contract refuses, in one batch. -/
def oneBatch : List (Event ℕ) :=
  [.commit [.config 0 "rules" "a" 1], .commit [.config 1 "rules" "b" 2, .event 2 "upstat.verify.requested" "v" "c" "null"],
    .publish 0 [0, 1, 2]] ++ List.replicate 9 (.go 0 {}) ++ [.go 0 { refused := some "no channel" }, .go 0 {}, .go 0 {}, .go 0 {}]

theorem one_batch_accounted : Throughout step AllAccounted (initial fun _ => 0) oneBatch :=
  published_accounted (fun _ => 0) oneBatch (by decide +kernel)

/-- Two changes of a kind that the contract does not have. -/
def widgets : List (Event ℕ) :=
  [.commit [.config 0 "widgets" "a" 1, .config 1 "widgets" "b" 2], .publish 0 [0, 1]] ++ List.replicate 6 (.go 0 {}) ++
    [.go 0 { refused := some "kind" }, .go 0 {}, .go 0 {}, .go 0 {}, .go 0 {}]

theorem second_widget_lost : ¬∀ (db : String → ℕ) (es : List (Event ℕ)), Throughout step AllAccounted (initial db) es := by
  intro h
  obtain ⟨r, hr, hacc⟩ := (h (fun _ => 0) widgets).last 1 (by decide +kernel)
  have hpublished : r.published = true ∧ ¬Covered (run step (initial fun _ => 0) widgets).acked 1 r := by
    obtain rfl := Option.some.inj (hr.symm.trans rfl)
    decide +kernel
  exact hpublished.2 (hacc.1 hpublished.1)

end Upstat.PublishedRows
