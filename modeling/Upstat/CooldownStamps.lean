import Upstat.FlappingEdges
import Upstat.MonitorPauses

/-! # Cooldown stamps across a pause

A pause is to clear a monitor's cooldown stamps, but only the end of flapping does. A stamp
left before a pause suppresses what is decided after the resume until it lapses. -/
namespace Upstat.CooldownStamps

open GuardedRuns AwaitedPrograms NotifierPrograms NotifierEffects NotifierOrdering NotifierRuns NotifierJobs
  MonitorPauses CommonDatabase MonitorMachine

/-- The run, when each monitor was paused, of those that are, and when it was paused last, of
those resumed since; and for a transition decided after a resume when that pause was. -/
structure Paused where
  run : Clocked
  paused : String → Option ℚ
  resumed : String → Option ℚ
  decided : TransitionId → Option ℚ

def start (clock : ℚ) : Paused := ⟨⟨clock, init⟩, fun _ => none, fun _ => none, fun _ => none⟩

section Statement
variable (n : Notifier) (answer : ℕ → (c : Call) → Reply c)

def handle (s : Paused) (o : Later) : Paused :=
  let s' := { s with run := occur n answer s.run o }
  match o.occurrence with
  | .paused m => if (s.paused m).isSome then s' else { s' with paused := Function.update s.paused m (some (o.at s.run)) }
  | .resumed m =>
    if (s.paused m).isSome then
      { s' with paused := Function.update s.paused m none, resumed := Function.update s.resumed m (s.paused m) }
    else s'
  | .decided id => { s' with decided := Function.update s.decided id (s.resumed id.1) }
  | _ => s'

/-- The rule and direction of a call that reports the transition as suppressed by cooldown. -/
def cooledOf (id : TransitionId) : (c : Call) × Reply c → Option (String × Direction)
  | ⟨.publish _ delivery, _⟩ =>
    match delivery.record.id with
    | .noted (.transition id') ruleId direction .suppressed =>
      if id' = id ∧ delivery.record.message = "suppressed: cooldown" then some (ruleId, direction) else none
    | _ => none
  | _ => none

def cooled (id : TransitionId) (calls : List ((c : Call) × Reply c)) : List (String × Direction) :=
  calls.filterMap (cooledOf id)

/-- Where the transition comes that was decided after a resume, what suppresses it is a stamp
that was not left before the pause. -/
def Resumed (s : Paused) (o : Later) : Prop :=
  match o.occurrence with
  | .notified (.transition _ t) => ∀ paused, s.decided t.id = some paused →
    ∀ key ∈ cooled t.id ((handle n answer s o).run.world.calls.drop s.run.world.calls.length),
      ∃ at_, (handle n answer s o).run.store.cool (key.1, t.monitorId, key.2) = some at_ ∧ paused ≤ at_
  | _ => True

/-- The guard neither holds the transition nor clears the stamps. -/
def Unguarded (s : Store) (t : TransitionMsg) (now : ℚ) : Prop :=
  (window s t.monitorId).on = false ∧ (flapAfter (window s t.monitorId) (edgeOf t now) now).on = false

/-- Where the transition comes that was decided after a resume, each stamp that was left
before the pause has lapsed, unless a mute or the guard decides what becomes of it. -/
def Fits (s : Paused) (o : Later) : Prop :=
  match o.occurrence with
  | .notified (.transition c t) => s.run.store.tx t.id = false → Unguarded s.run.store t (o.at s.run) →
    (monitorOf c t).muted = false → ∀ paused ∈ s.decided t.id, ∀ direction ∈ directionOf t.from_ t.to_,
    ∀ rule ∈ c.uptimeRules t.orgId, ruleMatches rule (monitorOf c t) direction → mutedNow n rule (o.at s.run) = false →
    ∀ at_ ∈ s.run.store.cool (rule.id, t.monitorId, direction), at_ < paused → cooldown rule ≤ o.at s.run - at_
  | _ => True

instance (s : Paused) : DecidablePred (Fits n s)
  | ⟨_, .notified (.transition _ _)⟩ => by unfold Fits Unguarded; infer_instance
  | ⟨_, .notified (.retry _ _)⟩ | ⟨_, .notified (.sweep _ _)⟩ | ⟨_, .notified (.renotify _ _)⟩
  | ⟨_, .notified (.verify _ _ _ _ _)⟩ | ⟨_, .notified (.alert _ _ _ _ _)⟩ | ⟨_, .notified (.saved _ _)⟩
  | ⟨_, .paused _⟩ | ⟨_, .resumed _⟩ | ⟨_, .deleted _⟩ | ⟨_, .decided _⟩ | ⟨_, .forgotten _⟩ => isTrue trivial

end Statement

variable {n : Notifier} {answer : ℕ → (c : Call) → Reply c} {ok : Store → Write → Prop} {c : Config} {rule : Rule}
  {monitor : Monitor} {direction : Direction} {now paused : ℚ} {id : TransitionId} {k : ℕ}
  {keys : List (String × Direction)} {w : NotifierWorld}

/-! ## Reports of the cooldown -/

/-- The transition was reported so since the log was `k` calls long. -/
def Reports (id : TransitionId) (k : ℕ) (keys : List (String × Direction)) (calls : List ((c : Call) × Reply c)) : Prop :=
  k ≤ calls.length ∧ cooled id (calls.drop k) = keys

theorem Reports.append {calls : List ((c : Call) × Reply c)} (h : Reports id k keys calls) (call : (c : Call) × Reply c) :
    Reports id k (keys ++ (cooledOf id call).toList) (calls ++ [call]) := by
  refine ⟨h.1.trans (by simp), ?_⟩
  rw [List.drop_append_of_le_length h.1, cooled, List.filterMap_append]
  refine congrArg₂ _ h.2 ?_
  cases hcall : cooledOf id call <;> simp [hcall]

theorem Reports.append_none {calls : List ((c : Call) × Reply c)} (h : Reports id k keys calls)
    {call : (c : Call) × Reply c} (hcall : cooledOf id call = none) : Reports id k keys (calls ++ [call]) := by
  have happend := h.append call
  rwa [hcall, Option.toList_none, List.append_nil] at happend

theorem cooledOf_message {delivery : Delivery} {channelId : String} (h : channelOf delivery.record.id = some channelId) (key : String)
    (reply : Reply (.publish key delivery)) : cooledOf id ⟨.publish key delivery, reply⟩ = none := by
  unfold cooledOf
  dsimp only
  split
  · next heq =>
    rw [heq] at h
    cases h
  · rfl

/-- Deliveries report nothing of the kind. -/
theorem logProperty_reports : LogProperty (fun _ _ => True) (Reports id k keys) where
  deliver := fun _ _ _ _ _ _ h => h.append_none rfl
  publish := fun _ key job delivery reply hmade hrecord h =>
    h.append_none (cooledOf_message (by rw [hrecord, hmade.reported]; exact hmade.channel) key reply)

theorem preserves_record {message : String} {msg : Msg}
    (hmessage : String.ofList (message.toList.take 1000) ≠ "suppressed: cooldown") :
    (record rule monitor msg direction now message).Preserves write ok (WaitingLog (Reports id k keys)) := by
  intro w hw reply
  have hcall : ∀ r : Bool, cooledOf id ⟨.publish monitor.id
      ⟨recordData rule monitor msg direction message none (.noted msg.id rule.id direction .suppressed), .suppressed, 0, now⟩,
      r⟩ = none := by
    intro r
    have hne : (recordData rule monitor msg direction message none (.noted msg.id rule.id direction .suppressed)).message ≠
      "suppressed: cooldown" := hmessage
    unfold cooledOf
    dsimp only
    split
    · exact if_neg fun h => hne h.2
    · rfl
  cases hreply : (reply : Bool) <;> exact ⟨hw.1, hw.2.append_none (hcall _)⟩

/-- What bypasses the cooldown is not reported as suppressed by it. -/
theorem preserves_dispatch_bypass {msg : Msg} :
    (dispatch n c rule monitor msg direction now true).Preserves write ok (WaitingLog (Reports id k keys)) := by
  rw [dispatch_eq]
  refine compositional_preserves.bind compositional_preserves.get fun s => ?_
  split
  · exact preserves_record (by decide)
  · split
    · exact preserves_record (by decide)
    · rw [if_neg fun h => absurd rfl h.2.1]
      exact (sending_log logProperty_reports c now).sends trivial fun _ _ hx => hx

theorem preserves_flapping (t : TransitionMsg) :
    (flapping n c t monitor now).Preserves write ok (WaitingLog (Reports id k keys)) := by
  have h : Sending Plain _ c now fun _ (p : Program _) => p.Preserves write ok (WaitingLog (Reports id k keys)) :=
    sending_log logProperty_reports c now
  refine h.bind h.get fun s => ?_
  dsimp only
  split
  · exact h.bind (h.plain _ trivial) fun _ => h.bind (h.forEach _ fun rule _ => preserves_dispatch_bypass) fun _ => h.pure _
  · split
    · refine h.bind (h.plain _ trivial) fun _ => h.bind (h.bind (h.forEach _ fun rule _ =>
        h.bind (h.plain _ trivial) fun _ => h.plain _ trivial) fun _ => h.bind (fun w hw reply => ?_) fun _ =>
        h.when fun hc => ?_) fun _ => h.pure _
      · cases hreply : (reply : Bool) <;> exact ⟨hw.1, hw.2.append_none rfl⟩
      · exact absurd (of_decide_eq_true hc).1 (by simp)
    · refine h.bind (h.plain _ trivial) fun _ => h.bind (h.when fun _ => ?_) fun _ => h.pure _
      unfold recordFlapping
      cases directionOf t.from_ t.to_ with
      | none => exact h.pure ()
      | some direction => exact h.forEach _ fun rule _ => preserves_record (by decide)

/-! ## Stamps -/

/-- The rule's stamp in this direction suppresses nothing, or was not left before the pause. -/
def Lapsed (n : Notifier) (rule : Rule) (monitor : Monitor) (direction : Direction) (now paused : ℚ) (s : Store) : Prop :=
  direction = .down ∨ direction = .nodata → monitor.muted = false → mutedNow n rule now = false →
    ∀ at_, s.cool (rule.id, monitor.id, direction) = some at_ → paused ≤ at_ ∨ cooldown rule ≤ now - at_

/-- What these reports name is a stamp that was not left before the pause. -/
def Fresh (monitorId : String) (paused : ℚ) (keys : List (String × Direction)) (s : Store) : Prop :=
  ∀ key ∈ keys, ∃ at_, s.cool (key.1, monitorId, key.2) = some at_ ∧ paused ≤ at_

/-- The transition was reported only for such stamps. -/
def Consistent (id : TransitionId) (k : ℕ) (monitorId : String) (paused : ℚ) (w : NotifierWorld) : Prop :=
  ∃ keys, WaitingLog (Reports id k keys) w ∧ Fresh monitorId paused keys w.store

/-- A dispatch stamps nothing but its own rule and direction, and not before the pause. -/
theorem cool_dispatch {ruleId m : String} {x : Write} (hx : OfDispatch ruleId m direction now x) (s : Store)
    (key : String × String × Direction) : (write s x).cool key = s.cool key ∨ (write s x).cool key = some now := by
  cases x with
  | putCool key' at_ =>
    obtain ⟨-, rfl, -⟩ := hx
    by_cases hkey : key = key'
    · subst hkey
      exact .inr (Function.update_self ..)
    · exact .inl (Function.update_of_ne hkey ..)
  | deleteCool key' => exact hx.elim
  | _ => exact .inl rfl

theorem Lapsed.dispatch {s : Store} (hs : Lapsed n rule monitor direction now paused s) (hpaused : paused ≤ now)
    {ruleId m : String} {direction' : Direction} {x : Write} (hx : OfDispatch ruleId m direction' now x) :
    Lapsed n rule monitor direction now paused (write s x) := by
  intro hdown hmuted hwindow at_ hat
  rcases cool_dispatch hx s (rule.id, monitor.id, direction) with hsame | hnow
  · exact hs hdown hmuted hwindow at_ (hsame ▸ hat)
  · rw [hnow] at hat
    exact .inl ((Option.some.inj hat) ▸ hpaused)

theorem keeps_fresh (hpaused : paused ≤ now) {ruleId m m' : String} {p : Program Unit}
    (hp : p.Only (OfDispatch ruleId m direction now)) : p.Keeps write ok (Fresh m' paused keys) := by
  refine hp.keeps fun s x hx hs key hkey => ?_
  obtain ⟨at_, hat, hle⟩ := hs key hkey
  rcases cool_dispatch hx s (key.1, m', key.2) with hsame | hnow
  · exact ⟨at_, hsame ▸ hat, hle⟩
  · exact ⟨now, hnow, hpaused⟩

theorem only_sends {msg : Msg} : (sends n c rule monitor msg direction now).Only (OfDispatch rule.id monitor.id direction now) := by
  refine only_bind (only_forEach _ fun channelId _ => only_dispatchTo channelId) fun _ => ?_
  refine only_bind (only_when fun hc => only_put ⟨rfl, rfl, (of_decide_eq_true hc).2⟩) fun _ => ?_
  refine only_bind (only_when fun hc => only_put ⟨rfl, rfl, (of_decide_eq_true hc).1⟩) fun _ => ?_
  exact only_when fun hc => only_put ⟨rfl, of_decide_eq_true hc⟩

theorem stamp_of_cooling {bypassCooldown : Bool} {s : Store} (h : cooling rule monitor direction now bypassCooldown s) :
    ∃ at_, s.cool (rule.id, monitor.id, direction) = some at_ ∧ now - at_ < cooldown rule := by
  obtain ⟨-, -, -, hany⟩ := h
  cases hat : s.cool (rule.id, monitor.id, direction) with
  | none =>
    rw [hat] at hany
    cases hany
  | some at_ =>
    rw [hat, Option.any_some] at hany
    exact ⟨at_, rfl, of_decide_eq_true hany⟩

/-- A report about a rule names that rule and its direction. -/
theorem cooledOf_record {msg : Msg} {message : String} {reply : Bool} {key : String × Direction}
    (h : key ∈ (cooledOf id ⟨.publish monitor.id ⟨recordData rule monitor msg direction message none
      (.noted msg.id rule.id direction .suppressed), .suppressed, 0, now⟩, reply⟩).toList) : key = (rule.id, direction) := by
  rw [Option.mem_toList] at h
  unfold cooledOf at h
  dsimp only at h
  split at h
  · next heq =>
    obtain ⟨-, hrule, hdirection, -⟩ := DeliveryId.noted.inj heq
    split at h
    · rw [← Option.some.inj h, hrule, hdirection]
    · cases h
  · cases h

/-- A dispatch whose own stamp has lapsed, or was not left before the pause. -/
theorem wp_dispatch_consistent {msg : Msg} (hpaused : paused ≤ now) (hlapsed : Lapsed n rule monitor direction now paused w.store)
    (h : Consistent id k monitor.id paused w) :
    (dispatch n c rule monitor msg direction now false).wp write ok (fun _ w' => Consistent id k monitor.id paused w') w := by
  obtain ⟨keys, hlog, hfresh⟩ := h
  rw [dispatch_eq, wp_get_bind]
  have hreport : ∀ message, String.ofList (message.toList.take 1000) ≠ "suppressed: cooldown" →
      (record rule monitor msg direction now message).wp write ok (fun _ w' => Consistent id k monitor.id paused w') w := by
    intro message hmessage
    have hnothing : (record rule monitor msg direction now message).Only fun _ => False := only_publish _ _
    exact wp_mono (fun a w' hw' => ⟨keys, hw'⟩) (wp_and (preserves_record hmessage w hlog)
      (hnothing.keeps (fun _ _ hx _ => hx.elim) w hfresh))
  split
  · exact hreport _ (by decide)
  · next hmuted =>
    split
    · exact hreport _ (by decide)
    · next hwindow =>
      split
      · next hcool =>
        -- The stamp in force was not left before the pause.
        obtain ⟨at_, hat, hlt⟩ := stamp_of_cooling hcool
        have hle : paused ≤ at_ := (hlapsed hcool.1 (by simpa using hmuted) (by simpa using hwindow) at_ hat).resolve_right
          (not_le.mpr hlt)
        intro reply
        have hcalled : ∀ r : Bool, Consistent id k monitor.id paused (w.called (.publish monitor.id
            ⟨recordData rule monitor msg direction "suppressed: cooldown" none (.noted msg.id rule.id direction .suppressed),
              .suppressed, 0, now⟩) r) := by
          intro r
          refine ⟨_, ⟨hlog.1, hlog.2.append _⟩, fun key hkey => ?_⟩
          rcases List.mem_append.mp hkey with hkey | hkey
          · exact hfresh key hkey
          · exact ⟨at_, cooledOf_record hkey ▸ hat, hle⟩
        cases hreply : (reply : Bool) <;> exact hcalled _
      · exact wp_mono (fun a w' hw' => ⟨keys, hw'⟩) (wp_and
          ((sending_log logProperty_reports c now).sends trivial (fun _ _ hx => hx) w hlog) (keeps_fresh hpaused only_sends w hfresh))

/-! ## The handling of a transition -/

/-- The end of flapping clears the stamps of every rule. -/
theorem wp_exitFlapping_cleared {orgId : String} {status : Status} (w : NotifierWorld) :
    (exitFlapping n c monitor orgId now status false).wp write ok (fun _ w' => ∀ rule ∈ c.uptimeRules orgId,
      w'.store.cool (rule.id, monitor.id, .down) = none ∧ w'.store.cool (rule.id, monitor.id, .nodata) = none) w := by
  -- What is cleared stays so, and each round clears its rule.
  have hclear : (Prog.forEach (c.uptimeRules orgId) fun rule => do
      .put (.deleteCool (rule.id, monitor.id, .down))
      .put (.deleteCool (rule.id, monitor.id, .nodata)) : Program Unit).wp write ok
      (fun _ w' => ∀ rule ∈ c.uptimeRules orgId, w'.store.cool (rule.id, monitor.id, .down) = none ∧
        w'.store.cool (rule.id, monitor.id, .nodata) = none) w := by
    refine wp_mono (fun a w' hw' => ?_) (wp_forEach (R := fun _ => False) (I := fun left w' => ∀ rule ∈ c.uptimeRules orgId,
      rule ∈ left ∨ w'.store.cool (rule.id, monitor.id, .down) = none ∧ w'.store.cool (rule.id, monitor.id, .nodata) = none)
      (fun rule left w' hw' => ?_) fun rule hrule => .inl hrule)
    · cases a with
      | none => exact hw'.elim
      | some _ => exact fun rule hrule => (hw' rule hrule).resolve_left (by simp)
    · refine fun _ _ other hother => ?_
      rcases hw' other hother with hleft | hcleared
      · rcases List.mem_cons.mp hleft with rfl | hleft
        · exact .inr ⟨by simp [World.put, write], by simp [World.put, write]⟩
        · exact .inl hleft
      · exact .inr ⟨by simp [World.put, write, Function.update_apply, hcleared.1],
          by simp [World.put, write, Function.update_apply, hcleared.2]⟩
  refine wp_bind (wp_mono (fun a w' hw' => ?_) hclear)
  cases a with
  | none => exact hw'
  | some _ =>
    intro reply
    cases hreply : (reply : Bool) with
    | false => exact hw'
    | true => exact wp_when (fun hc => absurd (of_decide_eq_true hc).1 (by simp)) fun _ => hw'

/-- The guard lets a transition through where it is off, and leaves the stamps, or where it
goes off, and clears them. -/
theorem wp_flapping_stamps (t : TransitionMsg) (w : NotifierWorld) :
    (flapping n c t monitor now).wp write ok (fun a w' => a = some false →
      ((window w.store monitor.id).on = false ∧ (flapAfter (window w.store monitor.id) (edgeOf t now) now).on = false ∧
          w'.store.cool = w.store.cool) ∨
        ∀ rule ∈ c.uptimeRules t.orgId, w'.store.cool (rule.id, monitor.id, .down) = none ∧
          w'.store.cool (rule.id, monitor.id, .nodata) = none) w := by
  unfold flapping
  rw [wp_get_bind]
  dsimp only
  change (if _ then _ else _ : Program Bool).wp write ok _ w
  have hwindow : (w.store.flap monitor.id).getD {} = window w.store monitor.id := rfl
  rw [hwindow]
  split
  · rw [wp_put_bind]
    refine fun _ => wp_bind (wp_mono (fun a w' _ => ?_) (wp_true _ _))
    cases a with
    | none => exact fun h => by cases h
    | some _ => exact fun h => by cases h
  · next hstays =>
    split
    · rw [wp_put_bind]
      refine fun _ => wp_bind (wp_mono (fun a w' hw' => ?_) (wp_exitFlapping_cleared _))
      cases a with
      | none => exact fun h => by cases h
      | some _ => exact fun _ => .inr hw'
    · rw [wp_put_bind]
      cases hon : (window w.store monitor.id).on with
      | true =>
        refine fun _ => wp_bind (wp_mono (fun a w' _ => ?_) (wp_true _ _))
        cases a with
        | none => exact fun h => by cases h
        | some _ => exact fun h => by cases h
      | false =>
        refine fun _ _ => .inl ⟨rfl, ?_, rfl⟩
        simpa [flapAfter, hon] using hstays

/-- What the handling needs of the stamps where the guard decides nothing. -/
def Ready (n : Notifier) (c : Config) (t : TransitionMsg) (now paused : ℚ) (s : Store) : Prop :=
  Unguarded s t now → ∀ direction ∈ directionOf t.from_ t.to_, ∀ rule ∈ c.uptimeRules t.orgId,
    ruleMatches rule (monitorOf c t) direction → Lapsed n rule (monitorOf c t) direction now paused s

theorem Lapsed.congr {s s' : Store} (h : Lapsed n rule monitor direction now paused s) (hcool : s'.cool = s.cool) :
    Lapsed n rule monitor direction now paused s' := by
  rwa [Lapsed, hcool]

/-- The dispatches to the rules, one after the other. -/
theorem wp_dispatches {msg : Msg} {rules : List Rule} (hpaused : paused ≤ now)
    (hlapsed : ∀ rule ∈ rules, Lapsed n rule monitor direction now paused w.store) (h : Consistent id k monitor.id paused w) :
    (Prog.forEach rules fun rule => dispatch n c rule monitor msg direction now false : Program Unit).wp write ok
      (fun _ w' => (∀ rule ∈ rules, Lapsed n rule monitor direction now paused w'.store) ∧
        Consistent id k monitor.id paused w') w := by
  refine compositional_preserves.forEach _ (fun rule hrule w1 h1 => ?_) w ⟨hlapsed, h⟩
  have hkept : (dispatch n c rule monitor msg direction now false).Keeps write ok fun s =>
      ∀ rule ∈ rules, Lapsed n rule monitor direction now paused s :=
    (only_dispatch false).keeps fun s x hx hs other hother => (hs other hother).dispatch hpaused hx
  exact wp_and (hkept w1 h1.1) (wp_dispatch_consistent hpaused (h1.1 rule hrule) h1.2)

theorem wp_handle_consistent {t : TransitionMsg} (hpaused : paused ≤ now) (hready : Ready n c t now paused w.store)
    (hlog : WaitingLog (Reports id k []) w) :
    (NotifierPrograms.handle n c t now).wp write ok (fun _ w' => Consistent id k t.monitorId paused w') w := by
  have hid := monitorOf_id c t
  have hempty : ∀ w' : NotifierWorld, WaitingLog (Reports id k []) w' → Consistent id k t.monitorId paused w' :=
    fun w' hw' => ⟨[], hw', by simp [Fresh]⟩
  -- From the guard on, whatever was cleared before it.
  have hguarded : ∀ w1 : NotifierWorld,
      ((w1.store.cool = w.store.cool ∧ w1.store.flap = w.store.flap) ∧ WaitingLog (Reports id k []) w1) →
      (afterClearing n c t now).wp write ok (fun _ w' => Consistent id k t.monitorId paused w') w1 := by
    rintro w1 ⟨⟨hcool, hflap⟩, h1⟩
    refine wp_bind (wp_mono (fun a w2 h2 => ?_) (wp_and (preserves_flapping t w1 h1) (wp_flapping_stamps t w1)))
    obtain ⟨hlog2, hstamps⟩ := h2
    rcases a with _ | _ | _
    · exact hempty w2 hlog2
    · cases hdirection : directionOf t.from_ t.to_ with
      | none => exact hempty w2 hlog2
      | some direction =>
        refine wp_mono (fun a w3 h3 => hid ▸ h3.2) (wp_dispatches hpaused (fun rule hrule => ?_) (hid ▸ hempty w2 hlog2))
        obtain ⟨hmem, hmatches⟩ := List.mem_filter.mp hrule
        rcases hstamps rfl with ⟨hon, hafter, hsame⟩ | hcleared
        · have hwindow : window w1.store (monitorOf c t).id = window w.store t.monitorId := by rw [window, hflap, hid, window]
          rw [hwindow] at hon hafter
          exact (hready ⟨hon, hafter⟩ direction hdirection rule hmem hmatches).congr (hsame.trans hcool)
        · rintro (rfl | rfl) - - at_ hat
          · rw [(hcleared rule hmem).1] at hat
            cases hat
          · rw [(hcleared rule hmem).2] at hat
            cases hat
    · exact hempty w2 hlog2
  have hclear : (clearRenotify (monitorOf c t).id).Keeps write ok fun s => s.cool = w.store.cool ∧ s.flap = w.store.flap := by
    refine (only_clearRenotify (monitorOf c t).id).keeps fun s x hx hs => ?_
    obtain ⟨key, rfl, -⟩ := hx
    exact hs
  have hlogged : (clearRenotify (monitorOf c t).id).Preserves write ok (WaitingLog (Reports id k [])) := by
    have h : Sending Plain _ c now fun _ (p : Program _) => p.Preserves write ok (WaitingLog (Reports id k [])) :=
      sending_log logProperty_reports c now
    exact h.bind h.get fun _ => h.forEach _ fun _ _ => h.plain _ trivial
  exact wp_handle_of (R := fun w1 => (w1.store.cool = w.store.cool ∧ w1.store.flap = w.store.flap) ∧
    WaitingLog (Reports id k []) w1) (fun _ => wp_and (hclear w ⟨rfl, rfl⟩) (hlogged w hlog)) (fun _ => ⟨⟨rfl, rfl⟩, hlog⟩) hguarded

theorem wp_onTransition_consistent {t : TransitionMsg} (hpaused : paused ≤ now)
    (hready : w.store.tx t.id = false → Ready n c t now paused w.store) (hlog : WaitingLog (Reports id k []) w) :
    (onTransition n c t now).wp write ok (fun _ w' => Consistent id k t.monitorId paused w') w := by
  unfold onTransition
  rw [wp_get_bind]
  cases htx : w.store.tx t.id with
  | true => exact ⟨[], hlog, by simp [Fresh]⟩
  | false =>
    refine wp_bind (wp_mono (fun a w' hw' => ?_) (wp_handle_consistent hpaused (hready htx) hlog))
    cases a with
    | none => exact hw'
    | some _ =>
      obtain ⟨keys, hlog', hfresh⟩ := hw'
      exact fun _ => ⟨keys, ⟨hlog'.1.plain (x := .handled t.id) trivial, hlog'.2⟩, hfresh⟩

/-! ## Runs -/

/-- Every time in the table is in the past. -/
def Past {α : Type} (now : ℚ) (times : α → Option ℚ) : Prop := ∀ x at_, times x = some at_ → at_ ≤ now

theorem Past.mono {α : Type} {times : α → Option ℚ} {later : ℚ} (h : Past now times) (hle : now ≤ later) : Past later times :=
  fun x at_ hat => (h x at_ hat).trans hle

theorem Past.update {α : Type} [DecidableEq α] {times : α → Option ℚ} (h : Past now times) (x : α) {time : Option ℚ}
    (htime : ∀ at_, time = some at_ → at_ ≤ now) : Past now (Function.update times x time) := by
  intro y at_ hat
  by_cases hy : y = x
  · subst hy
    rw [Function.update_self] at hat
    exact htime at_ hat
  · rw [Function.update_of_ne hy] at hat
    exact h y at_ hat

/-- The stored jobs are waiting, and every pause is in the past. -/
structure Inv (s : Paused) : Prop where
  waiting : AllWaiting s.run.store
  paused : Past s.run.clock s.paused
  resumed : Past s.run.clock s.resumed
  decided : Past s.run.clock s.decided

theorem inv_start (clock : ℚ) : Inv (start clock) where
  waiting := allWaiting_empty
  paused := fun _ _ h => by cases h
  resumed := fun _ _ h => by cases h
  decided := fun _ _ h => by cases h

theorem inv_handle {s : Paused} (h : Inv s) (o : Later) : Inv (handle n answer s o) := by
  have hclock := clock_occur n answer s.run o
  have hwaiting := waiting_occur n answer h.waiting o
  have hpaused : Past (occur n answer s.run o).clock s.paused := h.paused.mono (hclock ▸ o.le_at s.run)
  have hresumed : Past (occur n answer s.run o).clock s.resumed := h.resumed.mono (hclock ▸ o.le_at s.run)
  have hdecided : Past (occur n answer s.run o).clock s.decided := h.decided.mono (hclock ▸ o.le_at s.run)
  unfold handle
  dsimp only
  split
  · split
    · exact ⟨hwaiting, hpaused, hresumed, hdecided⟩
    · refine ⟨hwaiting, hpaused.update _ fun at_ hat => ?_, hresumed, hdecided⟩
      rw [← Option.some.inj hat, hclock]
  · split
    · exact ⟨hwaiting, hpaused.update _ (fun _ hat => by cases hat), hresumed.update _ (fun at_ hat => hpaused _ at_ hat),
        hdecided⟩
    · exact ⟨hwaiting, hpaused, hresumed, hdecided⟩
  · exact ⟨hwaiting, hpaused, hresumed, hdecided.update _ fun at_ hat => hresumed _ at_ hat⟩
  · exact ⟨hwaiting, hpaused, hresumed, hdecided⟩

theorem resumed_of_fits {s : Paused} (h : Inv s) {o : Later} (hfits : Fits n s o) : Resumed n answer s o := by
  obtain ⟨delay, occurrence⟩ := o
  unfold Resumed
  dsimp only
  split
  · next c t =>
    intro paused hdecided
    have hpaused : paused ≤ s.run.at ⟨delay, .transition c t⟩ :=
      (h.decided _ _ hdecided).trans (s.run.le_at ⟨delay, .transition c t⟩)
    have hready : s.run.world.store.tx t.id = false →
        Ready n c t (s.run.at ⟨delay, .transition c t⟩) paused s.run.world.store := by
      intro htx hguard direction hdirection rule hrule hmatches _ hmuted hwindow at_ hat
      rcases le_or_gt paused at_ with hle | hlt
      · exact .inl hle
      · rw [monitorOf_id] at hat
        exact .inr (hfits htx hguard hmuted paused hdecided direction hdirection rule hrule hmatches hwindow at_ hat hlt)
    have hlog : WaitingLog (Reports t.id s.run.world.calls.length []) s.run.world :=
      ⟨h.waiting, le_rfl, by simp [cooled]⟩
    obtain ⟨keys, hlog', hfresh⟩ := wp_run answer (wp_onTransition_consistent hpaused hready hlog)
    intro key hkey
    refine hfresh key ?_
    rw [← hlog'.2.2]
    exact hkey
  · trivial

/-- In every run whose steps all fit, a stamp left before a pause suppresses nothing that is
decided after the resume. -/
theorem resumed_unsuppressed (n : Notifier) (answer : ℕ → (c : Call) → Reply c) (clock : ℚ) (os : List Later)
    (h : Meets (handle n answer) (Fits n) (start clock) os) :
    Meets (handle n answer) (Resumed n answer) (start clock) os :=
  h.imp_of (fun _ _ hs ho => resumed_of_fits hs ho) (fun _ o hs _ => inv_handle hs o) (inv_start clock)

/-! ## A down soon after a pause -/

/-- The monitor goes down at 0, is paused and resumed, and its next down is decided at 180. -/
def downAgain : List Later :=
  [⟨0, .notified (.transition homepage ⟨"m", "o", 1, .up, .down, "timeout", 0, [], 3⟩)⟩, ⟨60, .paused "m"⟩,
    ⟨60, .resumed "m"⟩, ⟨60, .decided ("m", 2)⟩]

/-- It comes to the notifier this long after. -/
def downAgainAfter (delay : ℚ≥0) : Later :=
  ⟨delay, .notified (.transition homepage ⟨"m", "o", 2, .pending, .down, "timeout", 180, [], 3⟩)⟩

theorem lapsed_unsuppressed :
    Meets (handle plain (failsAt 9)) (Fits plain) (start 0) (downAgain ++ [downAgainAfter 1800]) ∧
      Meets (handle plain (failsAt 9)) (Resumed plain (failsAt 9)) (start 0) (downAgain ++ [downAgainAfter 1800]) := by
  have fits : Meets (handle plain (failsAt 9)) (Fits plain) (start 0) (downAgain ++ [downAgainAfter 1800]) := by
    decide +kernel
  exact ⟨fits, resumed_unsuppressed plain (failsAt 9) 0 _ fits⟩

/-- The stamp of the down before the pause is three minutes old and suppresses this one. -/
theorem down_again_suppressed :
    ¬Meets (handle plain (failsAt 9)) (Resumed plain (failsAt 9)) (start 0) (downAgain ++ [downAgainAfter 0]) := by
  intro h
  obtain ⟨at_, hat, hle⟩ := ((meets_append _ _ _).mp h).2.1 60 (by decide +kernel) ("r", .down) (by decide +kernel)
  have hstamp : (handle plain (failsAt 9) (run (handle plain (failsAt 9)) (start 0) downAgain)
      (downAgainAfter 0)).run.store.cool ("r", "m", .down) = some 0 := by decide +kernel
  rw [hstamp] at hat
  rw [← Option.some.inj hat] at hle
  exact absurd hle (by decide)

end Upstat.CooldownStamps
