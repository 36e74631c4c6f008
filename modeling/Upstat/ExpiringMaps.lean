import Mathlib.Data.Option.Basic
import Mathlib.Logic.Function.Basic
import Mathlib.Order.Lattice

/-! # Maps whose entries lapse

An entry may have a last time at which it is there. What has lapsed can be deleted at any time, or
stay: maps that show the same from now on are not told apart by any use of them. -/
namespace Upstat.ExpiringMaps

structure Entry (V T : Type*) where
  value : V
  expiresAt : Option T
  deriving DecidableEq

/-- The entries by their keys, the lapsed ones that are left among them. -/
abbrev Entries (K V T : Type*) := K → Option (Entry V T)

inductive Op (K V T : Type*) where
  | put (key : K) (entry : Entry V T)
  | read (key : K)
  | take (key : K)
  | erase (keys : List K)

section
variable {K V T : Type*} [LinearOrder T]

def Entry.live (e : Entry V T) (now : T) : Bool := e.expiresAt.all (now ≤ ·)

theorem Entry.live_of_le {e : Entry V T} {now later : T} (hle : now ≤ later) (h : e.live later) : e.live now := by
  simp only [live, Option.all_eq_true, decide_eq_true_eq] at h ⊢
  exact fun t ht => hle.trans (h t ht)

/-- What the map shows of a key. -/
def Entries.lookup (m : Entries K V T) (now : T) (key : K) : Option V := ((m key).filter (·.live now)).map Entry.value

/-- From now on the maps show the same. -/
def Same (now : T) (m m' : Entries K V T) : Prop := ∀ later, now ≤ later → ∀ key, m.lookup later key = m'.lookup later key

theorem Same.trans {now : T} {m m' m'' : Entries K V T} (h : Same now m m') (h' : Same now m' m'') : Same now m m'' :=
  fun later hle key => (h later hle key).trans (h' later hle key)

theorem Same.later {now later : T} {m m' : Entries K V T} (h : Same now m m') (hle : now ≤ later) : Same later m m' :=
  fun t ht key => h t (hle.trans ht) key

/-- Nothing but lapsed entries is deleted. -/
def Swept (now : T) (m m' : Entries K V T) : Prop := ∀ key, m' key = m key ∨ m' key = none ∧ ∀ e ∈ m key, e.live now = false

theorem Swept.same {now : T} {m m' : Entries K V T} (h : Swept now m m') : Same now m m' := by
  intro later hle key
  rcases h key with heq | ⟨hnone, hlapsed⟩
  · simp [Entries.lookup, heq]
  · have hgone : m.lookup later key = none := by
      simp only [Entries.lookup, Option.map_eq_none_iff, Option.filter_eq_none_iff]
      intro e he hlive
      have hnow := Entry.live_of_le hle hlive
      simp [hlapsed e he] at hnow
    rw [hgone]
    simp [Entries.lookup, hnone]

end

section
variable {K V T : Type*} [DecidableEq K]

namespace Entries

variable (m : Entries K V T)

def put (key : K) (e : Entry V T) : Entries K V T := Function.update m key (some e)

def erase (key : K) : Entries K V T := Function.update m key none

def eraseAll (keys : List K) : Entries K V T := keys.foldl erase m

theorem erase_apply (key other : K) : m.erase key other = if other = key then none else m other := by
  simp [erase, Function.update_apply]

end Entries

end

section
variable {K V T : Type*} [DecidableEq K] [LinearOrder T]

namespace Entries

variable (m : Entries K V T) (now : T)

/-- What an operation on the map answers, and what it leaves. -/
def apply : Op K V T → Option V × Entries K V T
  | .put key e => (none, m.put key e)
  | .read key => (m.lookup now key, m)
  | .take key => (m.lookup now key, m.erase key)
  | .erase keys => (none, m.eraseAll keys)

@[simp] theorem lookup_put_self (key : K) (e : Entry V T) :
    (m.put key e).lookup now key = if e.live now then some e.value else none := by
  simp only [lookup, put, Function.update_self, Option.filter]
  split_ifs <;> rfl

theorem lookup_put_of_ne {key other : K} (h : other ≠ key) (e : Entry V T) : (m.put key e).lookup now other = m.lookup now other := by
  simp [lookup, put, Function.update_of_ne h]

@[simp] theorem lookup_erase_self (key : K) : (m.erase key).lookup now key = none := by simp [lookup, erase]

theorem lookup_erase_of_ne {key other : K} (h : other ≠ key) : (m.erase key).lookup now other = m.lookup now other := by
  simp [lookup, erase, Function.update_of_ne h]

omit [DecidableEq K] in
/-- What has lapsed stays so. -/
theorem lookup_none_of_le {m : Entries K V T} {now later : T} (hle : now ≤ later) {key : K} (h : m.lookup now key = none) :
    m.lookup later key = none := by
  simp only [lookup, Option.map_eq_none_iff, Option.filter_eq_none_iff] at h ⊢
  exact fun e he hlive => h e he (Entry.live_of_le hle hlive)

end Entries

section
variable {now : T} {m m' : Entries K V T}

theorem Same.put (h : Same now m m') (key : K) (e : Entry V T) : Same now (m.put key e) (m'.put key e) := by
  intro later hle other
  by_cases hkey : other = key
  · subst hkey
    simp
  · rw [Entries.lookup_put_of_ne _ _ hkey, Entries.lookup_put_of_ne _ _ hkey, h later hle other]

theorem Same.erase (h : Same now m m') (key : K) : Same now (m.erase key) (m'.erase key) := by
  intro later hle other
  by_cases hkey : other = key
  · subst hkey
    simp
  · rw [Entries.lookup_erase_of_ne _ _ hkey, Entries.lookup_erase_of_ne _ _ hkey, h later hle other]

theorem Same.eraseAll (h : Same now m m') (keys : List K) : Same now (m.eraseAll keys) (m'.eraseAll keys) := by
  induction keys generalizing m m' with
  | nil => exact h
  | cons key keys ih => exact ih (h.erase key)

/-- An operation answers the same on both, and leaves maps that show the same. -/
theorem Same.apply (h : Same now m m') (op : Op K V T) :
    (m.apply now op).1 = (m'.apply now op).1 ∧ Same now (m.apply now op).2 (m'.apply now op).2 := by
  cases op with
  | put key e => exact ⟨rfl, h.put key e⟩
  | read key => exact ⟨h now le_rfl key, h⟩
  | take key => exact ⟨h now le_rfl key, h.erase key⟩
  | erase keys => exact ⟨rfl, h.eraseAll keys⟩

/-- Erasing what is not shown changes nothing. -/
theorem Same.erase_hidden {key : K} (h : Same now m m') (hidden : m'.lookup now key = none) : Same now m (m'.erase key) := by
  intro later hle other
  by_cases hkey : other = key
  · subst hkey
    rw [h later hle, Entries.lookup_erase_self, Entries.lookup_none_of_le hle hidden]
  · rw [Entries.lookup_erase_of_ne _ _ hkey, h later hle other]

end

end

end Upstat.ExpiringMaps
