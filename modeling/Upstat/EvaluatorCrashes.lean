import Upstat.EvaluatorPrograms

/-! # Crashes between the evaluator's writes

A handling that crashes leaves a prefix of its writes. The machine's state, the closed
marker and the open ticks are written one at a time, and this module says which cuts are
as good as none: those before the state is saved, and those after which nothing is left
to do. -/
namespace Upstat.EvaluatorCrashes

open GuardedRuns MonitorMachine CommonDatabase EvaluatorPrograms

/-- One handling, under the config of its moment, that may crash after so many writes. -/
structure Attempt where
  config : Config
  event : Event
  crash : Option ℕ

/-- The writes that reach the store. -/
def Attempt.made (a : Attempt) (w : Working) : List Write :=
  match a.crash with
  | none => writes a.config w a.event
  | some k => (writes a.config w a.event).take k

/-- The writes a crash cuts off. -/
def Attempt.lost (a : Attempt) (w : Working) : List Write :=
  match a.crash with
  | none => []
  | some k => (writes a.config w a.event).drop k

def attempt (w : Working) (a : Attempt) : Working := run write w (a.made w)

def Write.isSave : Write → Bool
  | .save _ _ => true
  | _ => false

/-- A write to the machine's state, the closed marker or an open tick. -/
def Write.isCore : Write → Bool
  | .putEmit _ | .deleteEmit _ | .publish _ => false
  | _ => true

/-- All that is left is at most to remove an open tick that is not stored. -/
def settled (w : Working) (c : Closing) : List Write → Bool
  | [] => true
  | [.deleteTick _] => (w.ticks c.key).isNone
  | _ => false

/-- No crash of a handling that closes a tick falls after the state was saved, unless all
that was left is nothing. -/
def Whole (w : Working) (a : Attempt) : Prop :=
  ∀ c ∈ closing a.config w a.event, (a.made w).any Write.isSave = true → settled w c (a.lost w) = true

/-- The handling ran to its end or left something. -/
def took (w : Working) (a : Attempt) : Bool := a.crash.isNone || (a.made w).any Write.isCore

/-- The handlings of the run without crashes: those that ended, and those that crashed but
left something. -/
def survived : Working → List Attempt → List (Config × Event)
  | _, [] => []
  | w, a :: as =>
    if took w a then (a.config, a.event) :: survived (attempt w a) as else survived (attempt w a) as

def handle (w : Working) (h : Config × Event) : Working := step h.1 w h.2

/-- The ticks whose new state was saved, in order. -/
def appliedKeys : Working → List Attempt → List TickId
  | _, [] => []
  | w, a :: as =>
    (if (a.made w).any Write.isSave then ((closing a.config w a.event).map Closing.key).toList else []) ++
      appliedKeys (attempt w a) as

/-- The ticks a run without crashes applies, in order. -/
def closedKeys : Working → List (Config × Event) → List TickId
  | _, [] => []
  | w, h :: hs => ((closing h.1 w h.2).map Closing.key).toList ++ closedKeys (handle w h) hs

/-- The two agree on the machines' states, the closed markers and the open ticks. -/
structure SameCore (w w' : Working) : Prop where
  mon : w.mon = w'.mon
  closed : w.closed = w'.closed
  ticks : w.ticks = w'.ticks

theorem SameCore.refl (w : Working) : SameCore w w := ⟨rfl, rfl, rfl⟩

theorem SameCore.symm {w w' : Working} (h : SameCore w w') : SameCore w' w := ⟨h.mon.symm, h.closed.symm, h.ticks.symm⟩

theorem SameCore.trans {w w' w'' : Working} (h : SameCore w w') (h' : SameCore w' w'') : SameCore w w'' :=
  ⟨h.mon.trans h'.mon, h.closed.trans h'.closed, h.ticks.trans h'.ticks⟩

/-- Writing to both keeps them in agreement. -/
theorem sameCore_run {w w' : Working} (h : SameCore w w') (ws : List Write) :
    SameCore (run write w ws) (run write w' ws) := by
  induction ws generalizing w w' with
  | nil => exact h
  | cons x ws ih =>
    refine ih ?_
    cases x <;> exact ⟨by simp [write, h.mon], by simp [write, h.closed], by simp [write, h.ticks]⟩

/-- Writes to the stored transitions and the bus alone change nothing of the core. -/
theorem sameCore_of_none {ws : List Write} (hws : ws.any Write.isCore = false) (w : Working) :
    SameCore (run write w ws) w := by
  induction ws generalizing w with
  | nil => exact SameCore.refl w
  | cons x ws ih =>
    simp only [List.any_cons, Bool.or_eq_false_iff] at hws
    refine (ih hws.2 _).trans ?_
    cases x <;> simp_all [Write.isCore, write, SameCore.mk]

/-- The core decides what a handler writes, but for the flush. -/
theorem monitorState_congr {w w' : Working} (h : SameCore w w') : monitorState w = monitorState w' := by
  funext id monitor
  simp [monitorState, h.mon]

theorem closing_congr {w w' : Working} (h : SameCore w w') (config : Config) (e : Event) :
    closing config w e = closing config w' e := by
  cases e <;> simp [closing, late, h.closed, h.ticks]

theorem step_congr {w w' : Working} (h : SameCore w w') (config : Config) (e : Event) :
    SameCore (step config w e) (step config w' e) := by
  have hclose : close w = close w' := by
    funext id monitor tick o
    simp [close, verdict, marker, monitorState_congr h, h.closed]
  have hsame : writes config w e = writes config w' e → SameCore (step config w e) (step config w' e) := fun he => by
    rw [step, step, he]
    exact sameCore_run h _
  cases e with
  | result m o => exact hsame (by simp only [writes, onResult, late, h.closed, h.ticks, hclose]; rfl)
  | sweptTick now key o => exact hsame (by simp only [writes, sweepTick, h.ticks, hclose])
  | sweptMonitor now id o => exact hsame (by simp only [writes, sweepMonitor, monitorState_congr h])
  | expired key => exact hsame rfl
  | flushKey key o =>
    have hflush : ∀ v : Working, SameCore (step config v (.flushKey key o)) v := fun v => by
      simp only [step, writes, flush]
      split
      · exact SameCore.refl v
      · exact ⟨mon_emit .., closed_emit .., ticks_emit ..⟩
    exact (hflush w).trans (h.trans (hflush w').symm)

/-! ## Where a cut falls -/

theorem made_append_lost (a : Attempt) (w : Working) : a.made w ++ a.lost w = writes a.config w a.event := by
  unfold Attempt.made Attempt.lost
  cases a.crash <;> simp

theorem not_save_of_not_core {ws : List Write} (h : ws.any Write.isCore = false) : ws.any Write.isSave = false := by
  induction ws with
  | nil => rfl
  | cons x ws ih =>
    simp only [List.any_cons, Bool.or_eq_false_iff] at h ⊢
    exact ⟨by cases x <;> simp_all [Write.isCore, Write.isSave], ih h.2⟩

/-- A list around one write to the core: a prefix without that write has none, and after a
prefix with it none is left. -/
theorem cut_around {pre post made lost : List Write} {x : Write} (he : made ++ lost = pre ++ x :: post)
    (hpre : pre.any Write.isCore = false) :
    made.any Write.isCore = false ∨ ∃ rest, made = pre ++ x :: rest ∧ rest ++ lost = post := by
  rcases List.append_eq_append_iff.mp he with ⟨rest, hpre', -⟩ | ⟨rest, hmade, hpost⟩
  · rw [hpre', List.any_append, Bool.or_eq_false_iff] at hpre
    exact .inl hpre.1
  · cases rest with
    | nil =>
      rw [List.append_nil] at hmade
      exact .inl (hmade ▸ hpre)
    | cons y rest =>
      obtain ⟨rfl, hrest⟩ := List.cons.inj hpost
      exact .inr ⟨rest, hmade, hrest.symm⟩

/-- The emit before the save, the save, and the rest, of the writes of a commit. -/
theorem commit_around (id : String) (monitor : MonitorConfig) (st : MonitorState) (t : Option Transition)
    (regions : Results) (o : Outside) :
    ∃ pre post, commit id monitor st t regions o = pre ++ .save id st :: post ∧ pre.any Write.isCore = false ∧
      post.any Write.isCore = false := by
  cases t with
  | none => exact ⟨[], [], rfl, rfl, rfl⟩
  | some t =>
    refine ⟨[.putEmit (message id monitor t regions o)], emit (message id monitor t regions o) o, rfl, rfl, ?_⟩
    unfold emit
    split <;> rfl

theorem sameCore_around {w : Working} {pre post made lost : List Write} {x : Write}
    (he : made ++ lost = pre ++ x :: post) (hpre : pre.any Write.isCore = false) (hpost : post.any Write.isCore = false) :
    if made.any Write.isCore then SameCore (run write w made) (run write w (made ++ lost))
    else SameCore (run write w made) w := by
  split
  · next hcore =>
    rcases cut_around he hpre with hnone | ⟨rest, -, hrest⟩
    · simp [hnone] at hcore
    · rw [← hrest, List.any_append, Bool.or_eq_false_iff] at hpost
      rw [run_append]
      exact (sameCore_of_none hpost.2 _).symm
  · next hcore => exact sameCore_of_none (by simpa using hcore) w

theorem settled_iff {w : Working} {c : Closing} {lost : List Write} :
    settled w c lost = true ↔ lost = [] ∨ ∃ key, lost = [.deleteTick key] ∧ w.ticks c.key = none := by
  unfold settled
  split
  · simp
  · next key => simp
  · next hnil hdelete => exact ⟨Bool.noConfusion, by rintro (rfl | ⟨key, rfl, -⟩) <;> simp_all⟩

/-- A handling that closes a tick saves the state first, and when it is whole, all that a
cut leaves out is the removal of a tick that is not there. -/
theorem closing_cut {w : Working} {a : Attempt} (hwhole : Whole w a) {c : Closing}
    (hc : closing a.config w a.event = some c) :
    (a.made w).any Write.isCore = false ∨
      (a.made w).any Write.isSave = true ∧ SameCore (attempt w a) (step a.config w a.event) := by
  have he := made_append_lost a w
  rw [writes_closing hc] at he
  have hsettled := hwhole c hc
  rw [attempt, step, writes_closing hc, ← he]
  generalize a.made w = made at *
  generalize a.lost w = lost at *
  obtain ⟨pre, post, hcommit, hpre, -⟩ := commit_around c.id c.monitor (verdict w c.id c.monitor c.tick c.outside).1
    (verdict w c.id c.monitor c.tick c.outside).2 c.tick.results c.outside
  have hwrites : c.writes w = pre ++ .save c.id (verdict w c.id c.monitor c.tick c.outside).1 ::
      (post ++ [.putClosed c.id (marker w c.id c.tick), .deleteTick c.key]) := by
    simp [Closing.writes, close, hcommit]
  rcases cut_around (he.trans hwrites) hpre with hnone | ⟨rest, hmade, -⟩
  · exact .inl hnone
  have hsave : made.any Write.isSave = true := by simp [hmade, Write.isSave]
  refine .inr ⟨hsave, ?_⟩
  rw [run_append]
  rcases settled_iff.mp (hsettled hsave) with rfl | ⟨key, rfl, hgone⟩
  · exact SameCore.refl _
  · obtain ⟨hmade', hkey⟩ := List.append_inj' he rfl
    obtain rfl : key = c.key := by simpa using hkey
    have hticks : (run write w made).ticks = w.ticks := by simp [hmade', close, write]
    refine ⟨rfl, rfl, ?_⟩
    have hnone : (run write w made).ticks c.key = none := by rw [hticks, hgone]
    exact (Function.update_eq_self_iff.mpr hnone.symm).symm

/-- A whole handling left nothing of the core, or all of it. -/
theorem all_or_nothing {w : Working} {a : Attempt} (hwhole : Whole w a) :
    if (a.made w).any Write.isCore then SameCore (attempt w a) (step a.config w a.event)
    else SameCore (attempt w a) w := by
  have he := made_append_lost a w
  cases hc : closing a.config w a.event with
  | some c =>
    split
    · next hcore =>
      rcases closing_cut hwhole hc with hnone | ⟨-, hsame⟩
      · simp [hnone] at hcore
      · exact hsame
    · next hcore => exact sameCore_of_none (by simpa using hcore) w
  | none =>
    -- Every other handling writes to the core once at most.
    have hh := handling_writes a.config w a.event
    rw [attempt, step, ← he]
    have hsingle : ∀ x, writes a.config w a.event = [x] → if (a.made w).any Write.isCore
        then SameCore (run write w (a.made w)) (run write w (a.made w ++ a.lost w))
        else SameCore (run write w (a.made w)) w := fun x hx => by
      have halone : a.made w ++ a.lost w = [] ++ x :: [] := he.trans hx
      exact sameCore_around halone rfl rfl
    have hnone : (writes a.config w a.event).any Write.isCore = false → if (a.made w).any Write.isCore
        then SameCore (run write w (a.made w)) (run write w (a.made w ++ a.lost w))
        else SameCore (run write w (a.made w)) w := fun hnone => by
      rw [← he, List.any_append, Bool.or_eq_false_iff] at hnone
      rw [if_neg (by simp [hnone.1])]
      exact sameCore_of_none hnone.1 w
    generalize hws : writes a.config w a.event = ws at hh hsingle hnone
    generalize a.event = e at hh hc
    cases hh with
    | ignored _ => exact hnone rfl
    | closed hsome => simp [hc] at hsome
    | opened hconfig hactive hlate _ => exact hsingle _ rfl
    | dropped _ => exact hsingle _ rfl
    | expired => exact hsingle _ rfl
    | forgot hconfig hactive => exact hsingle _ rfl
    | @timedOut now id o monitor st t hconfig hactive hnodata =>
      obtain ⟨pre, post, hcommit, hpre, hpost⟩ := commit_around id monitor st (some t) [] o
      exact sameCore_around (he.trans (hws.trans hcommit)) hpre hpost
    | @emitted key o m hm =>
      refine hnone ?_
      unfold emit
      split <;> rfl

/-! ## Without crashes no tick is applied twice -/

/-- The ticks that closed are gone for good: nothing is stored for them and the marker is
not before them. -/
structure Once (w : Working) (keys : List TickId) : Prop where
  keyed : Keyed w
  past : ∀ key ∈ keys, w.ticks key = none ∧ ∃ closed, w.closed key.1 = some closed ∧ key.2 ≤ closed

theorem once_empty : Once empty [] := ⟨keyed_empty, by simp⟩

/-- A result that is not late is about a tick not closed yet. -/
theorem not_mem_of_not_late {w : Working} {keys : List TickId} (h : Once w keys) {m : ResultMsg}
    (hlate : late w m = false) : m.tickId ∉ keys := by
  intro hmem
  obtain ⟨-, closed, hclosed, hle⟩ := h.past _ hmem
  have hc : w.closed m.monitorId = some closed := hclosed
  have hle : m.scheduledAt ≤ closed := hle
  simp [late, hc, not_lt.mpr hle] at hlate

theorem not_mem_of_closing {w : Working} {keys : List TickId} (h : Once w keys) {config : Config} {e : Event}
    {c : Closing} (hc : closing config w e = some c) : c.key ∉ keys := by
  obtain ⟨-, -, ⟨m, -, -, hkey, hlate, -⟩ | ⟨now, -, htick, -, -⟩⟩ := closing_spec hc
  · exact hkey ▸ not_mem_of_not_late h hlate
  · intro hmem
    rw [(h.past _ hmem).1] at htick
    cases htick

theorem once_step {w : Working} {keys : List TickId} (h : Once w keys) (config : Config) (e : Event) :
    Once (step config w e) (keys ++ ((closing config w e).map Closing.key).toList) := by
  refine ⟨keyed_step h.keyed config e, ?_⟩
  cases hc : closing config w e with
  | some c =>
    obtain ⟨hid, hsched⟩ := closing_keyed h.keyed hc
    rw [step, writes_closing hc, ticks_closing, closed_closing]
    intro key hkey
    have hmark : key ∈ keys ++ [c.key] := hkey
    rcases List.mem_append.mp hmark with hold | hnew
    · obtain ⟨hnone, closed, hclosed, hle⟩ := h.past _ hold
      refine ⟨by by_cases he : key = c.key <;> simp [he, hnone], ?_⟩
      by_cases he : key.1 = c.id
      · rw [he] at hclosed ⊢
        refine ⟨_, Function.update_self .., hle.trans ?_⟩
        simp [marker, hclosed]
      · exact ⟨closed, by rwa [Function.update_of_ne he], hle⟩
    · obtain rfl := List.mem_singleton.mp hnew
      refine ⟨Function.update_self .., _, by rw [← hid]; exact Function.update_self .., ?_⟩
      simp [marker, hsched]
  | none =>
    have hh := handling_writes config w e
    -- Nothing closed: the markers stay, and a tick is opened only where none was closed.
    have hkept : ∀ w' : Working, w'.closed = w.closed → (∀ key, w'.ticks key = w.ticks key ∨ w'.ticks key = none) →
        ∀ key ∈ keys ++ ((none : Option Closing).map Closing.key).toList,
          w'.ticks key = none ∧ ∃ closed, w'.closed key.1 = some closed ∧ key.2 ≤ closed := by
      intro w' hclosed hticks key hkey
      obtain ⟨hnone, hpast⟩ := h.past key (by simpa using hkey)
      exact ⟨by rcases hticks key with hsame | hgone <;> simp [*], hclosed ▸ hpast⟩
    have hdelete : ∀ key', ∀ key ∈ keys ++ ((none : Option Closing).map Closing.key).toList,
        (run write w [.deleteTick key']).ticks key = none ∧
          ∃ closed, (run write w [.deleteTick key']).closed key.1 = some closed ∧ key.2 ≤ closed :=
      fun key' => hkept _ rfl fun key => by by_cases he : key = key' <;> simp [write, he]
    unfold step
    generalize writes config w e = ws at hh ⊢
    cases hh with
    | ignored _ => exact hkept _ rfl fun _ => .inl rfl
    | closed hsome => simp [hc] at hsome
    | @opened m o monitor hconfig hactive hlate _ =>
      intro key hkey
      have hkey : key ∈ keys := by simpa using hkey
      obtain ⟨hnone, hpast⟩ := h.past key hkey
      have hne : key ≠ m.tickId := fun he => not_mem_of_not_late h hlate (he ▸ hkey)
      exact ⟨by simpa [write, Function.update_of_ne hne] using hnone, hpast⟩
    | dropped _ => exact hdelete _
    | expired => exact hdelete _
    | forgot hconfig hactive => exact hkept _ rfl fun _ => .inl rfl
    | timedOut hconfig hactive hnodata => exact hkept _ (closed_commit ..) fun _ => .inl (by rw [ticks_commit])
    | emitted hm => exact hkept _ (closed_emit ..) fun _ => .inl (by rw [ticks_emit])

theorem closedKeys_nodup {w : Working} {keys : List TickId} (h : Once w keys) (hnodup : keys.Nodup)
    (hs : List (Config × Event)) : (keys ++ closedKeys w hs).Nodup := by
  induction hs generalizing w keys with
  | nil => simpa [closedKeys] using hnodup
  | cons x hs ih =>
    rw [closedKeys, ← List.append_assoc]
    refine ih (once_step h x.1 x.2) ?_
    cases hc : closing x.1 w x.2 with
    | none => simpa using hnodup
    | some c =>
      refine List.nodup_append.mpr ⟨hnodup, by simp, fun key hkey key' hkey' => ?_⟩
      have hkey' : key' = c.key := by simpa using hkey'
      exact fun he => not_mem_of_closing h hc (hkey' ▸ he ▸ hkey)

/-! ## A run with crashes and the run without -/

/-- Handlings that crash only where it does no harm leave the core of the run without
crashes, and apply the same ticks. -/
theorem survived_same {w w' : Working} (h : SameCore w w') {as : List Attempt} (hwhole : Meets attempt Whole w as) :
    SameCore (run attempt w as) (run handle w' (survived w as)) ∧
      appliedKeys w as = closedKeys w' (survived w as) := by
  induction as generalizing w w' with
  | nil => exact ⟨h, rfl⟩
  | cons a as ih =>
    obtain ⟨ha, has⟩ := hwhole
    have hcut := all_or_nothing ha
    rw [run_cons, survived, appliedKeys]
    cases htook : took w a with
    | true =>
      -- The handling is in the run without crashes too, and left the same there.
      have hsame : SameCore (attempt w a) (handle w' (a.config, a.event)) := by
        refine SameCore.trans ?_ (step_congr h a.config a.event)
        simp only [took, Bool.or_eq_true, Option.isNone_iff_eq_none] at htook
        rcases htook with hended | hcore
        · simp only [attempt, Attempt.made, hended]
          exact SameCore.refl _
        · rwa [if_pos hcore] at hcut
      obtain ⟨hrun, hkeys⟩ := ih hsame has
      refine ⟨hrun, ?_⟩
      simp only [if_true, closedKeys]
      rw [hkeys, closing_congr h]
      congr 1
      cases hc : closing a.config w' a.event with
      | none => simp
      | some c =>
        rw [if_pos]
        rw [← closing_congr h] at hc
        rcases closing_cut ha hc with hnone | ⟨hsave, -⟩
        · simp only [took, Bool.or_eq_true, Option.isNone_iff_eq_none, hnone, Bool.false_eq_true, or_false] at htook
          obtain ⟨pre, post, hcommit, -, -⟩ := commit_around c.id c.monitor
            (verdict w c.id c.monitor c.tick c.outside).1 (verdict w c.id c.monitor c.tick c.outside).2
            c.tick.results c.outside
          simp [Attempt.made, htook, writes_closing hc, Closing.writes, close, hcommit, Write.isSave]
        · exact hsave
    | false =>
      simp only [took, Bool.or_eq_false_iff] at htook
      rw [if_neg (by simp [htook.2])] at hcut
      simp only [not_save_of_not_core htook.2, Bool.false_eq_true, if_false, List.nil_append]
      exact ih (hcut.trans h) has

/-- The two handle the same message, or come to the same key in a sweep. -/
def sameWork : Event → Event → Prop
  | .result m _, .result m' _ => m = m'
  | .flushKey key _, .flushKey key' _ => key = key'
  | .sweptTick _ key _, .sweptTick _ key' _ => key = key'
  | .sweptMonitor _ id _, .sweptMonitor _ id' _ => id = id'
  | .expired key, .expired key' => key = key'
  | _, _ => False

/-- What a crash interrupted is done again later, to its end. -/
def Redelivered : List Attempt → Prop
  | [] => True
  | a :: as => (a.crash = none ∨ ∃ b ∈ as, b.crash = none ∧ sameWork a.event b.event) ∧ Redelivered as

theorem sameWork_refl (e : Event) : sameWork e e := by cases e <;> rfl

theorem mem_survived {a : Attempt} {as : List Attempt} (ha : a ∈ as) (hended : a.crash = none) (w : Working) :
    (a.config, a.event) ∈ survived w as := by
  induction as generalizing w with
  | nil => cases ha
  | cons b as ih =>
    rw [survived]
    rcases List.mem_cons.mp ha with rfl | ha
    · simp [took, hended]
    · split
      · exact List.mem_cons_of_mem _ (ih ha _)
      · exact ih ha _

theorem work_survived {as : List Attempt} (h : Redelivered as) (w : Working) :
    ∀ a ∈ as, ∃ x ∈ survived w as, sameWork a.event x.2 := by
  have hended : ∀ a ∈ as, ∃ b ∈ as, b.crash = none ∧ sameWork a.event b.event := by
    induction as with
    | nil => simp
    | cons a as ih =>
      intro a' ha'
      rcases List.mem_cons.mp ha' with rfl | ha'
      · rcases h.1 with hnone | ⟨b, hb, hrest⟩
        · exact ⟨a', by simp, hnone, sameWork_refl _⟩
        · exact ⟨b, List.mem_cons_of_mem _ hb, hrest⟩
      · obtain ⟨b, hb, hrest⟩ := ih h.2 a' ha'
        exact ⟨b, List.mem_cons_of_mem _ hb, hrest⟩
  intro a ha
  obtain ⟨b, hb, hnone, hwork⟩ := hended a ha
  exact ⟨_, mem_survived hb hnone w, hwork⟩

def oneRegion : Config := fun id =>
  if id = "m" then some ⟨"o", true, 3, 2, 60, .up, 0, 1⟩ else none

/-- The only region failed. -/
def failed : ResultMsg where
  monitorId := "m"
  scheduledAt := 60
  regionsExpected := ["eu"]
  region := "eu"
  missing := false
  ok := false
  cause := "timeout"
  checkedAt := 61
  timeoutS := 10
  scheduled_nonneg := by decide +kernel

def handled (crash : Option ℕ) : Attempt := ⟨oneRegion, .result failed ⟨62, 62, true⟩, crash⟩

instance (w : Working) (a : Attempt) : Decidable (Whole w a) :=
  inferInstanceAs (Decidable (∀ c ∈ closing a.config w a.event, _ → _))

end Upstat.EvaluatorCrashes
