import Mathlib.Algebra.Order.Ring.Int
import Mathlib.Data.List.Nodup
import Mathlib.Logic.Function.Basic
import Upstat.Base64Texts
import Upstat.GuardedRuns

/-! # The salts of visitor hashes (`quota.service.ts`, `events.service.ts`)

An instance that has no salt for an event's day draws one and asks Valkey, which keeps the first it is given until it
expires. Between the request, Valkey's answer and its arrival other requests are handled, on this and on other instances.
One clock serves them all, in milliseconds, and a day is its number. -/
namespace Upstat.VisitorSalts

open GuardedRuns

def hour : ℤ := 3600 * 1000

def pastMs : ℤ := 48 * hour
def futureMs : ℤ := 5 * 60 * 1000

/-- `toISOString().slice(0, 10)`. -/
def dayOf (ts : ℤ) : ℤ := ts / (24 * hour)

def dayStart (day : ℤ) : ℤ := day * (24 * hour)

def dayEnd (day : ℤ) : ℤ := dayStart day + 24 * hour

/-- 48 hours after the day's end. -/
def retained (day : ℤ) : ℤ := dayEnd day + 48 * hour

/-- `randomBytes(32)`. -/
@[ext]
structure Salt where
  bytes : List UInt8
  length_eq : bytes.length = 32
  deriving DecidableEq

/-- What the hash of an event takes, with the time of its request. -/
structure Visit where
  property : String
  ip : String
  userAgent : String
  now : ℤ
  ts : ℤ
  deriving DecidableEq

def Visit.day (v : Visit) : ℤ := dayOf v.ts

/-- `validate` lets the event's time through. -/
def Visit.InRange (v : Visit) : Prop := v.now - pastMs ≤ v.ts ∧ v.ts ≤ v.now + futureMs

instance (v : Visit) : Decidable v.InRange := by
  unfold Visit.InRange
  infer_instance

/-- What Valkey has for `salt:<day>`, when it was set, and at what time the request that set it had come. -/
structure Stored where
  text : List Char
  asked : ℤ
  set : ℤ
  deriving DecidableEq

/-- The `EX` of a salt, in seconds. -/
def ttl (day now : ℤ) : ℤ := max 60 (-((now - retained day) / 1000))

def Stored.expires (k : Stored) (day : ℤ) : ℤ := k.set + 1000 * ttl day k.asked

/-- A salt as Valkey has answered it. -/
structure Answer where
  day : ℤ
  salt : List UInt8
  time : ℤ
  deriving DecidableEq

/-- Valkey answered before the day's 48 hours were over. -/
def Answer.Timely (a : Answer) : Prop := a.time < retained a.day

instance (a : Answer) : Decidable a.Timely := by
  unfold Answer.Timely
  infer_instance

/-- An event that waits for its salt. -/
structure Call (ι : Type*) where
  at_ : ι
  visit : Visit
  drawn : Salt
  answer : Option Answer := none

structure Hashed (ι : Type*) where
  at_ : ι
  visit : Visit
  answer : Answer
  deriving DecidableEq

def Visit.identity (v : Visit) : List UInt8 := (v.property ++ v.ip ++ v.userAgent).toUTF8.data.toList

/-- What goes into SHA-256. -/
def Hashed.preimage {ι : Type*} (h : Hashed ι) : List UInt8 := h.answer.salt ++ h.visit.identity

/-- `missed` has the request times of the last salts that were stored, and `drawn`, `answers` and `hashed` what has happened. -/
structure World (ι : Type*) where
  clock : ℤ
  valkey : ℤ → Option Stored := fun _ => none
  salts : ι → ℤ → Option Answer := fun _ _ => none
  missed : ι → Option ℤ := fun _ => none
  calls : ℕ → Option (Call ι) := fun _ => none
  drawn : List (Salt × ℤ) := []
  answers : List Answer := []
  hashed : List (Hashed ι) := []

inductive Act (ι : Type*) where
  | event (c : ℕ) (i : ι) (v : Visit) (draw : Salt)
  /-- The script runs. -/
  | eval (c : ℕ)
  /-- The answer comes. -/
  | resume (c : ℕ)
  | fail (c : ℕ)
  | restart (i : ι)
  | tick (d : ℕ)

section
variable {ι : Type*} [DecidableEq ι]

def World.event (w : World ι) (c : ℕ) (i : ι) (v : Visit) (draw : Salt) : World ι :=
  if v.now ≤ w.clock ∧ v.InRange ∧ (w.calls c).isNone then
    match w.salts i v.day with
    | some a => { w with hashed := ⟨i, v, a⟩ :: w.hashed }
    | none => { w with calls := Function.update w.calls c (some ⟨i, v, draw, none⟩), drawn := (draw, v.day) :: w.drawn }
  else w

/-- `SALT_SCRIPT`: the salt that is there, or else the one drawn. -/
def World.stored (w : World ι) (k : Call ι) : Stored :=
  ((w.valkey k.visit.day).filter fun s => w.clock < s.expires k.visit.day).getD
    ⟨Base64Texts.encode k.drawn.bytes, k.visit.now, w.clock⟩

def World.eval (w : World ι) (c : ℕ) : World ι :=
  match w.calls c with
  | some ⟨i, v, draw, none⟩ =>
    let stored := w.stored ⟨i, v, draw, none⟩
    let answer : Answer := ⟨v.day, Base64Texts.decode stored.text, w.clock⟩
    { w with
      valkey := Function.update w.valkey v.day (some stored)
      calls := Function.update w.calls c (some ⟨i, v, draw, some answer⟩)
      answers := answer :: w.answers }
  | _ => w

/-- The salts left when one is stored at a request of this time. -/
def purge (now : ℤ) (salts : ℤ → Option Answer) (known : ℤ) : Option Answer :=
  if dayStart known + 72 * hour < now then none else salts known

def World.resume (w : World ι) (c : ℕ) : World ι :=
  match w.calls c with
  | some ⟨i, v, _, some a⟩ =>
    { w with
      salts := Function.update w.salts i (purge v.now (Function.update (w.salts i) v.day (some a)))
      missed := Function.update w.missed i (some v.now)
      calls := Function.update w.calls c none
      hashed := ⟨i, v, a⟩ :: w.hashed }
  | _ => w

def World.restart (w : World ι) (i : ι) : World ι :=
  { w with
    salts := Function.update w.salts i fun _ => none
    missed := Function.update w.missed i none
    calls := fun c => (w.calls c).filter fun k => k.at_ ≠ i }

def step (w : World ι) : Act ι → World ι
  | .event c i v draw => w.event c i v draw
  | .eval c => w.eval c
  | .resume c => w.resume c
  | .fail c => { w with calls := Function.update w.calls c none }
  | .restart i => w.restart i
  | .tick d => { w with clock := w.clock + d }

/-- No salt is drawn twice. -/
def Fresh (w : World ι) : Act ι → Prop
  | .event _ _ _ draw => draw ∉ w.drawn.map Prod.fst
  | _ => True

end

/-! ## What goes into a hash -/

theorem identity_eq_iff {v v' : Visit} (h : v.property = v'.property) :
    v.identity = v'.identity ↔ v.ip ++ v.userAgent = v'.ip ++ v'.userAgent := by
  have hbytes : v.identity = v'.identity ↔ v.property ++ v.ip ++ v.userAgent = v'.property ++ v'.ip ++ v'.userAgent := by
    constructor
    · intro heq
      exact String.toByteArray_inj.mp (ByteArray.ext (Array.toList_inj.mp heq))
    · intro heq
      rw [Visit.identity, Visit.identity, heq]
  rw [hbytes, h, String.append_assoc, String.append_assoc]
  exact String.append_right_inj _

theorem preimage_eq_iff {ι : Type*} {h h' : Hashed ι} (hlength : h.answer.salt.length = h'.answer.salt.length)
    (hproperty : h.visit.property = h'.visit.property) : h.preimage = h'.preimage ↔
      h.answer.salt = h'.answer.salt ∧ h.visit.ip ++ h.visit.userAgent = h'.visit.ip ++ h'.visit.userAgent := by
  rw [← identity_eq_iff hproperty]
  constructor
  · intro heq
    exact List.append_inj heq hlength
  · intro heq
    rw [Hashed.preimage, Hashed.preimage, heq.1, heq.2]

/-! ## Days and what is kept of them -/

theorem retained_eq (day : ℤ) : retained day = dayStart day + 72 * hour := by
  simp only [retained, dayEnd, hour]
  omega

theorem lt_dayEnd (ts : ℤ) : ts < dayEnd (dayOf ts) := by
  simp only [dayEnd, dayStart, dayOf, hour]
  omega

/-- An event is let through before the 48 hours after its day are over. -/
theorem Visit.InRange.lt_retained {v : Visit} (h : v.InRange) : v.now < retained v.day := by
  have hts : v.ts < dayEnd v.day := lt_dayEnd v.ts
  have hpast := h.1
  simp only [pastMs, retained] at *
  omega

theorem retained_le_expires {k : Stored} {day : ℤ} (h : k.asked ≤ k.set) : retained day ≤ k.expires day := by
  simp only [Stored.expires, ttl]
  omega

/-- Valkey's copy goes when the 48 hours are over or a minute after it was set, but for the time from the request to the script
and what is left of a second. -/
theorem expires_le (k : Stored) (day : ℤ) : k.expires day ≤ max (k.set + 60 * 1000) (retained day + (k.set - k.asked) + 1000) := by
  simp only [Stored.expires, ttl]
  omega

/-! ## Runs -/

theorem update_some {α β : Type*} [DecidableEq α] {f : α → Option β} {a b : α} {x : Option β} {y : β}
    (h : Function.update f a x b = some y) : b = a ∧ x = some y ∨ b ≠ a ∧ f b = some y := by
  by_cases hb : b = a
  · rw [hb, Function.update_self] at h
    exact Or.inl ⟨hb, h⟩
  · rw [Function.update_of_ne hb] at h
    exact Or.inr ⟨hb, h⟩

section
variable {ι : Type*} {w : World ι}

/-- What Valkey has was drawn for its day, the answers of a day are one salt as long as they are timely, and whatever an instance
has or hashes with is an answer. -/
structure Sound (w : World ι) : Prop where
  valkey : ∀ d k, w.valkey d = some k → k.asked ≤ k.set ∧ k.set ≤ w.clock ∧ ∃ s, (s, d) ∈ w.drawn ∧ k.text = Base64Texts.encode s.bytes
  calls : ∀ c k, w.calls c = some k → k.visit.now ≤ w.clock ∧ k.visit.now < retained k.visit.day ∧ (k.drawn, k.visit.day) ∈ w.drawn ∧
    ∀ a, k.answer = some a → a ∈ w.answers ∧ a.day = k.visit.day
  salts : ∀ i d a, w.salts i d = some a → a ∈ w.answers ∧ a.day = d
  missed : ∀ i now, w.missed i = some now → ∀ d a, w.salts i d = some a → now ≤ retained d
  answers : ∀ a ∈ w.answers, a.time ≤ w.clock ∧ ∃ s, (s, a.day) ∈ w.drawn ∧ a.salt = s.bytes
  held : ∀ a ∈ w.answers, a.Timely → w.clock < retained a.day → ∃ k, w.valkey a.day = some k ∧ Base64Texts.decode k.text = a.salt
  one : ∀ a ∈ w.answers, ∀ b ∈ w.answers, a.day = b.day → a.Timely → b.Timely → a.salt = b.salt
  hashed : ∀ h ∈ w.hashed, h.answer ∈ w.answers ∧ h.answer.day = h.visit.day
  drawn : (w.drawn.map Prod.fst).Nodup

theorem sound_start (clock : ℤ) : Sound ({ clock := clock } : World ι) := by
  constructor <;> simp

theorem Sound.fail (h : Sound w) (c : ℕ) : Sound { w with calls := Function.update w.calls c none } := by
  refine { h with calls := ?_ }
  intro c' k hk
  rcases update_some hk with ⟨-, hk⟩ | ⟨-, hk⟩
  · cases hk
  · exact h.calls c' k hk

theorem Sound.tick (h : Sound w) (d : ℕ) : Sound { w with clock := w.clock + d } := by
  have hlater : w.clock ≤ w.clock + d := by omega
  refine { h with valkey := ?_, calls := ?_, answers := ?_, held := ?_ }
  · intro day k hk
    obtain ⟨hasked, hset, hdrawn⟩ := h.valkey day k hk
    exact ⟨hasked, hset.trans hlater, hdrawn⟩
  · intro c k hk
    obtain ⟨hnow, hrest⟩ := h.calls c k hk
    exact ⟨hnow.trans hlater, hrest⟩
  · intro a ha
    exact ⟨(h.answers a ha).1.trans hlater, (h.answers a ha).2⟩
  · intro a ha htimely hclock
    exact h.held a ha htimely (hlater.trans_lt hclock)

theorem Sound.event (h : Sound w) {c : ℕ} {i : ι} {v : Visit} {draw : Salt} (hfresh : draw ∉ w.drawn.map Prod.fst) :
    Sound (w.event c i v draw) := by
  unfold World.event
  split
  · rename_i hcome
    obtain ⟨hnow, hrange, -⟩ := hcome
    split
    · rename_i a ha
      refine { h with hashed := ?_ }
      intro k hk
      rcases List.mem_cons.mp hk with rfl | hk
      · exact h.salts i v.day a ha
      · exact h.hashed k hk
    · have hmore : ∀ {x}, x ∈ w.drawn → x ∈ (draw, v.day) :: w.drawn := List.mem_cons_of_mem _
      refine { h with valkey := ?_, calls := ?_, answers := ?_, drawn := ?_ }
      · intro d k hk
        obtain ⟨hasked, hset, s, hs, htext⟩ := h.valkey d k hk
        exact ⟨hasked, hset, s, hmore hs, htext⟩
      · intro c' k hk
        rcases update_some hk with ⟨-, hk⟩ | ⟨-, hk⟩
        · cases hk
          exact ⟨hnow, hrange.lt_retained, List.mem_cons_self, nofun⟩
        · obtain ⟨hnow', hlt, hdrawn, hanswer⟩ := h.calls c' k hk
          exact ⟨hnow', hlt, hmore hdrawn, hanswer⟩
      · intro a ha
        obtain ⟨htime, s, hs, hsalt⟩ := h.answers a ha
        exact ⟨htime, s, hmore hs, hsalt⟩
      · exact List.nodup_cons.mpr ⟨hfresh, h.drawn⟩
  · exact h

/-- The script's salt was drawn for the day. -/
theorem Sound.stored (h : Sound w) {c : ℕ} {k : Call ι} (hk : w.calls c = some k) : (w.stored k).asked ≤ (w.stored k).set ∧
    (w.stored k).set ≤ w.clock ∧ ∃ s, (s, k.visit.day) ∈ w.drawn ∧ (w.stored k).text = Base64Texts.encode s.bytes := by
  obtain ⟨hnow, -, hdrawn, -⟩ := h.calls c k hk
  unfold World.stored
  cases hlive : (w.valkey k.visit.day).filter fun s => w.clock < s.expires k.visit.day with
  | none => exact ⟨hnow, le_refl _, k.drawn, hdrawn, rfl⟩
  | some s => exact h.valkey _ s (Option.filter_eq_some_iff.mp hlive).1

/-- As long as the day's 48 hours are not over, Valkey answers what it has. -/
theorem Sound.stored_eq (h : Sound w) {k : Call ι} {s : Stored} (hs : w.valkey k.visit.day = some s)
    (hclock : w.clock < retained k.visit.day) : w.stored k = s := by
  have hlive : w.clock < s.expires k.visit.day := hclock.trans_le (retained_le_expires (h.valkey _ s hs).1)
  rw [World.stored, hs, Option.filter_some, if_pos (by simpa using hlive)]
  rfl

theorem Sound.eval (h : Sound w) (c : ℕ) : Sound (w.eval c) := by
  unfold World.eval
  split
  · rename_i i v draw hcall
    obtain ⟨hasked, hset, s, hs, htext⟩ := h.stored hcall
    obtain ⟨hnow, hlt, hdrawn, -⟩ := h.calls c _ hcall
    have hsame : ∀ a ∈ w.answers, a.day = v.day → a.Timely → w.clock < retained v.day →
        a.salt = Base64Texts.decode (w.stored ⟨i, v, draw, none⟩).text := by
      intro a ha hday htimely hclock
      obtain ⟨k, hk, hsalt⟩ := h.held a ha htimely (hday ▸ hclock)
      rw [h.stored_eq (k := ⟨i, v, draw, none⟩) (hday ▸ hk) hclock, hsalt]
    refine { h with valkey := ?_, calls := ?_, salts := ?_, answers := ?_, held := ?_, one := ?_, hashed := ?_ }
    · intro d k hk
      rcases update_some hk with ⟨rfl, hnew⟩ | ⟨-, hold⟩
      · cases hnew
        exact ⟨hasked, hset, s, hs, htext⟩
      · exact h.valkey d k hold
    · intro c' k hk
      rcases update_some hk with ⟨-, hk⟩ | ⟨-, hk⟩
      · cases hk
        refine ⟨hnow, hlt, hdrawn, ?_⟩
        intro a ha
        cases ha
        exact ⟨List.mem_cons_self, rfl⟩
      · obtain ⟨hnow', hlt', hdrawn', hanswer⟩ := h.calls c' k hk
        exact ⟨hnow', hlt', hdrawn', fun a ha => ⟨List.mem_cons_of_mem _ (hanswer a ha).1, (hanswer a ha).2⟩⟩
    · intro i' d a ha
      obtain ⟨hmem, hday⟩ := h.salts i' d a ha
      exact ⟨List.mem_cons_of_mem _ hmem, hday⟩
    · intro a ha
      rcases List.mem_cons.mp ha with rfl | ha
      · refine ⟨le_refl _, s, hs, ?_⟩
        dsimp only
        rw [htext, Base64Texts.decode_encode]
      · exact h.answers a ha
    · intro a ha htimely hclock
      dsimp only
      by_cases hd : a.day = v.day
      · refine ⟨w.stored ⟨i, v, draw, none⟩, by rw [hd, Function.update_self], ?_⟩
        rcases List.mem_cons.mp ha with rfl | ha
        · rfl
        · exact (hsame a ha hd htimely (hd ▸ hclock)).symm
      · rcases List.mem_cons.mp ha with rfl | ha
        · exact absurd rfl hd
        · rw [Function.update_of_ne hd]
          exact h.held a ha htimely hclock
    · intro a ha b hb hday hta htb
      rcases List.mem_cons.mp ha with rfl | ha <;> rcases List.mem_cons.mp hb with rfl | hb
      · rfl
      · exact (hsame b hb hday.symm htb hta).symm
      · exact hsame a ha hday hta htb
      · exact h.one a ha b hb hday hta htb
    · intro k hk
      exact ⟨List.mem_cons_of_mem _ (h.hashed k hk).1, (h.hashed k hk).2⟩
  · exact h

theorem Sound.salt_length (h : Sound w) {a : Answer} (ha : a ∈ w.answers) : a.salt.length = 32 := by
  obtain ⟨-, s, -, hsalt⟩ := h.answers a ha
  rw [hsalt]
  exact s.length_eq

/-- A salt was drawn for one day. -/
theorem Sound.day_eq (h : Sound w) {a b : Answer} (ha : a ∈ w.answers) (hb : b ∈ w.answers) (hsalt : a.salt = b.salt) : a.day = b.day := by
  obtain ⟨-, s, hs, hsalta⟩ := h.answers a ha
  obtain ⟨-, t, ht, hsaltb⟩ := h.answers b hb
  have hst : s = t := Salt.ext (hsalta.symm.trans (hsalt.trans hsaltb))
  have hpair := List.inj_on_of_nodup_map h.drawn hs ht hst
  exact congrArg Prod.snd hpair

def SameVisitor (v v' : Visit) : Prop := v.property = v'.property ∧ v.ip = v'.ip ∧ v.userAgent = v'.userAgent

/-- What holds of the hashes and the salts at any time. -/
structure Law (w : World ι) : Prop where
  same : ∀ h ∈ w.hashed, ∀ h' ∈ w.hashed, SameVisitor h.visit h'.visit → h.visit.day = h'.visit.day →
    h.answer.Timely → h'.answer.Timely → h.preimage = h'.preimage
  other : ∀ h ∈ w.hashed, ∀ h' ∈ w.hashed, h.visit.property = h'.visit.property → (h.preimage = h'.preimage ↔
    h.answer.salt = h'.answer.salt ∧ h.visit.ip ++ h.visit.userAgent = h'.visit.ip ++ h'.visit.userAgent)
  oneDay : ∀ h ∈ w.hashed, ∀ h' ∈ w.hashed, h.answer.salt = h'.answer.salt → h.visit.day = h'.visit.day
  gone : ∀ d k, w.valkey d = some k → w.clock < k.expires d → k.asked ≤ k.set ∧
    w.clock < max (k.set + 60 * 1000) (retained d + (k.set - k.asked) + 1000)
  purged : ∀ i now, w.missed i = some now → ∀ d a, w.salts i d = some a → now ≤ retained d

theorem Sound.law (h : Sound w) : Law w where
  same k hk k' hk' hvisitor hday ht ht' := by
    obtain ⟨hproperty, hip, huserAgent⟩ := hvisitor
    obtain ⟨hmem, hk⟩ := h.hashed k hk
    obtain ⟨hmem', hk'⟩ := h.hashed k' hk'
    have hsalt : k.answer.salt = k'.answer.salt := h.one _ hmem _ hmem' (by rw [hk, hk', hday]) ht ht'
    apply (preimage_eq_iff (congrArg List.length hsalt) hproperty).mpr
    exact ⟨hsalt, by rw [hip, huserAgent]⟩
  other k hk k' hk' hproperty := by
    have hlength : k.answer.salt.length = k'.answer.salt.length := by
      rw [h.salt_length (h.hashed k hk).1, h.salt_length (h.hashed k' hk').1]
    exact preimage_eq_iff hlength hproperty
  oneDay k hk k' hk' hsalt := by
    obtain ⟨hmem, hk⟩ := h.hashed k hk
    obtain ⟨hmem', hk'⟩ := h.hashed k' hk'
    rw [← hk, ← hk', h.day_eq hmem hmem' hsalt]
  gone d k hk hlive := ⟨(h.valkey d k hk).1, hlive.trans_le (expires_le k d)⟩
  purged := h.missed

variable [DecidableEq ι]

theorem Sound.resume (h : Sound w) (c : ℕ) : Sound (w.resume c) := by
  unfold World.resume
  split
  · rename_i i v draw a hcall
    obtain ⟨-, hlt, -, hanswer⟩ := h.calls c _ hcall
    obtain ⟨hmem, hday⟩ := hanswer a rfl
    have hpurge : ∀ d b, purge v.now (Function.update (w.salts i) v.day (some a)) d = some b →
        (b ∈ w.answers ∧ b.day = d) ∧ v.now ≤ retained d := by
      intro d b hb
      unfold purge at hb
      split at hb
      · cases hb
      · rename_i hkept
        rw [← retained_eq] at hkept
        refine ⟨?_, not_lt.mp hkept⟩
        rcases update_some hb with ⟨rfl, hnew⟩ | ⟨-, hold⟩
        · cases hnew
          exact ⟨hmem, hday⟩
        · exact h.salts i d b hold
    refine { h with calls := ?_, salts := ?_, missed := ?_, hashed := ?_ }
    · intro c' k hk
      rcases update_some hk with ⟨-, hk⟩ | ⟨-, hk⟩
      · cases hk
      · exact h.calls c' k hk
    · intro i' d b hb
      dsimp only at hb
      by_cases hi : i' = i
      · rw [hi, Function.update_self] at hb
        exact (hpurge d b hb).1
      · rw [Function.update_of_ne hi] at hb
        exact h.salts i' d b hb
    · intro i' now hmissed d b hb
      dsimp only at hb hmissed
      by_cases hi : i' = i
      · rw [hi, Function.update_self] at hb hmissed
        cases hmissed
        exact (hpurge d b hb).2
      · rw [Function.update_of_ne hi] at hb hmissed
        exact h.missed i' now hmissed d b hb
    · intro k hk
      rcases List.mem_cons.mp hk with rfl | hk
      · exact ⟨hmem, hday⟩
      · exact h.hashed k hk
  · exact h

theorem Sound.restart (h : Sound w) (i : ι) : Sound (w.restart i) := by
  refine { h with calls := ?_, salts := ?_, missed := ?_ }
  · intro c k hk
    exact h.calls c k (Option.filter_eq_some_iff.mp hk).1
  · intro i' d a ha
    by_cases hi : i' = i
    · simp only [World.restart, hi, Function.update_self] at ha
      cases ha
    · simp only [World.restart, Function.update_of_ne hi] at ha
      exact h.salts i' d a ha
  · intro i' now hmissed d a ha
    by_cases hi : i' = i
    · simp only [World.restart, hi, Function.update_self] at ha
      cases ha
    · simp only [World.restart, Function.update_of_ne hi] at ha hmissed
      exact h.missed i' now hmissed d a ha

theorem Sound.step (h : Sound w) {act : Act ι} (hfresh : Fresh w act) : Sound (VisitorSalts.step w act) := by
  cases act with
  | event c i v draw => exact h.event hfresh
  | eval c => exact h.eval c
  | resume c => exact h.resume c
  | fail c => exact h.fail c
  | restart i => exact h.restart i
  | tick d => exact h.tick d

end

/-! ## Two addresses with one hash, and a day with two salts -/

def saltOf (n : UInt8) : Salt := ⟨List.replicate 32 n, List.length_replicate⟩

def visit (ip userAgent : String) : Visit := ⟨"site", ip, userAgent, 0, 0⟩

/-- Two instances hash an event each, with the salt that the first has drawn. -/
def twoAddresses : List (Act Bool) :=
  [.event 0 false (visit "1.2.3.4" "5.0") (saltOf 1), .event 1 true (visit "1.2.3.45" ".0") (saltOf 2), .eval 0, .eval 1, .resume 1, .resume 0]

/-- A second event of the day comes in the last millisecond of its 48 hours, and the script runs a second later. -/
def lateScript : List (Act Bool) :=
  [.event 0 false (visit "1.2.3.4" "5.0") (saltOf 1), .eval 0, .resume 0, .tick 259199999,
    .event 1 true { visit "1.2.3.4" "5.0" with now := 259199999, ts := 86399999 } (saltOf 2), .tick 1000, .eval 1, .resume 1]

instance (w : World Bool) (act : Act Bool) : Decidable (Fresh w act) := by
  cases act <;> unfold Fresh <;> infer_instance

end Upstat.VisitorSalts
