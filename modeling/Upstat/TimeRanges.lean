import Upstat.CalendarTexts
import Upstat.DoubleNumbers
import Upstat.GuardedRuns
import Upstat.UrlParams

/-! # The time range of the dashboard and its URL (`controllers/time-range.tsx`)

The provider holds a preset, a window that stands before it, the live flag and the time the preset is counted back from. Each
operation writes the URL from what the last render has captured; back and forward bring a search string and are read from it. -/
namespace Upstat.TimeRanges

open CalendarTexts DoubleNumbers GuardedRuns

abbrev Text := List Char

def hour : ℤ := 3600000

/-- `Object.keys(PRESET_MS)`. -/
inductive TimePreset | m15 | h1 | h4 | d1 | w1
  deriving DecidableEq

def TimePreset.name : TimePreset → Text
  | .m15 => "15m".toList
  | .h1 => "1h".toList
  | .h4 => "4h".toList
  | .d1 => "1d".toList
  | .w1 => "1w".toList

def TimePreset.ms : TimePreset → ℤ
  | .m15 => 900000
  | .h1 => hour
  | .h4 => 4 * hour
  | .d1 => 24 * hour
  | .w1 => 168 * hour

def presets : List TimePreset := [.m15, .h1, .h4, .d1, .w1]

/-- `PRESET_MS[range]`, where it is a number. -/
def presetMs (range : Text) : Option ℤ := (presets.find? (·.name = range)).map TimePreset.ms

/-- What every object inherits. -/
def inherited : List Text :=
  ["constructor", "__defineGetter__", "__defineSetter__", "hasOwnProperty", "__lookupGetter__", "__lookupSetter__", "isPrototypeOf",
    "propertyIsEnumerable", "toString", "valueOf", "__proto__", "toLocaleString"].map String.toList

/-- `range in PRESET_MS`. -/
def inPresetMs (range : Text) : Bool := (presetMs range).isSome || inherited.contains range

def custom : Text := "custom".toList

/-- The times there are. -/
def Time : Type := {t : ℤ // |t| ≤ maxTime}

/-- What the clock says, after 1970. -/
def Clock : Type := {t : ℤ // 0 ≤ t ∧ t ≤ maxTime}

def Fraction : Type := {q : ℚ // 0 ≤ q ∧ q ≤ 1}

structure Window where
  fromMs : ℤ
  toMs : ℤ
  deriving DecidableEq

/-- What a URL says, and what is in use. -/
structure View where
  preset : Text
  window : Option Window
  live : Bool
  deriving DecidableEq

structure Shown extends View where
  anchor : ℤ

/-- The provider, with the search string of the location and what the mounted callbacks have captured. -/
structure State where
  now : Shown
  stack : List Window := []
  search : Text
  rendered : Shown

inductive Op
  | setPreset (p : TimePreset) (clock : Clock)
  | setLive (l : Bool) (clock : Clock)
  | zoomBy (fromFrac toFrac : Fraction)
  | resetZoom
  | pop (search : Text)
  | render

/-- `Date.parse`: what it makes of a text that is not in the form of `toISOString` is up to the engine. -/
def dateParse (other : Text → Option Time) (s : Text) : Option ℤ := (readISOString s).or ((other s).map Subtype.val)

section
variable (other : Text → Option Time)

def windowOf (params : UrlParams.Params) : Option Window :=
  match UrlParams.get "from".toList params, UrlParams.get "to".toList params with
  | some from_, some to_ =>
    if from_.isEmpty || to_.isEmpty then none
    else
      match dateParse other from_, dateParse other to_ with
      | some fromMs, some toMs => if toMs > fromMs then some ⟨fromMs, toMs⟩ else none
      | _, _ => none
  | _, _ => none

def parseUrl (search : Text) : View :=
  let params := UrlParams.parse search
  let live : Bool := UrlParams.get "live".toList params = some "1".toList
  match windowOf other params with
  | some w => ⟨custom, some w, live⟩
  | none =>
    match UrlParams.get "range".toList params with
    | some range => if inPresetMs range then ⟨range, none, live⟩ else ⟨"1h".toList, none, live⟩
    | none => ⟨"1h".toList, none, live⟩

end

def Shown.span (s : Shown) : Option ℤ := if s.preset = custom then some hour else presetMs s.preset

/-- `zoom ?? base`, unless that is not of numbers. -/
def Shown.current (s : Shown) : Option Window := s.window.or (s.span.map fun span => ⟨s.anchor - span, s.anchor⟩)

/-- `value.preset`, the window and the flag. -/
def Shown.view (s : Shown) : View := ⟨if s.window.isSome then custom else s.preset, s.window, s.live⟩

/-- `new Date(ms).toISOString()`, which is an error where the time is none. -/
def isoText (t : ℤ) : Option Text := if |t| ≤ maxTime then some (toISOString t) else none

def cleared (params : UrlParams.Params) : UrlParams.Params :=
  UrlParams.delete "live".toList (UrlParams.delete "to".toList (UrlParams.delete "from".toList (UrlParams.delete "range".toList params)))

def withRange (next : View) (params : UrlParams.Params) : Option UrlParams.Params :=
  match next.window with
  | some w => do
    let from_ ← isoText w.fromMs
    let to_ ← isoText w.toMs
    some (UrlParams.set "to".toList to_ (UrlParams.set "from".toList from_ params))
  | none => some (if next.preset = custom then params else UrlParams.set "range".toList next.preset params)

def withLive (live : Bool) (params : UrlParams.Params) : UrlParams.Params :=
  if live then UrlParams.set "live".toList "1".toList params else params

def writeUrl (next : View) (search : Text) : Text :=
  match withRange next (cleared (UrlParams.parse search)) with
  | some params => UrlParams.searchOf (withLive next.live params)
  | none => search

def mathRound (q : ℚ) : ℤ := ⌊q + 1 / 2⌋

/-- `Math.round(fromMs + frac * span)`, with the roundings of doubles. -/
def zoomEnd (w : Window) (frac : ℚ) : ℤ := mathRound (nearest (w.fromMs + nearest (frac * nearest (w.toMs - w.fromMs : ℤ))))

def step (other : Text → Option Time) (s : State) : Op → State
  | .setPreset p clock =>
    { s with
      now := { preset := p.name, window := none, live := s.now.live, anchor := clock.1 }
      stack := []
      search := writeUrl ⟨p.name, none, s.rendered.live⟩ s.search }
  | .setLive l clock =>
    { s with
      now := { s.now with live := l, anchor := if l then clock.1 else s.now.anchor }
      search := writeUrl ⟨s.rendered.preset, s.rendered.window, l⟩ s.search }
  | .zoomBy fromFrac toFrac =>
    match s.rendered.current with
    -- the render has thrown
    | none => s
    | some w =>
      let next : Window := ⟨zoomEnd w fromFrac.1, zoomEnd w toFrac.1⟩
      if next.toMs - next.fromMs < 10000 then s
      else
        { s with
          now := { s.now with window := some next }
          stack := s.stack ++ [w]
          search := writeUrl ⟨s.rendered.preset, some next, s.rendered.live⟩ s.search }
  | .resetZoom =>
    { s with
      now := { s.now with window := none }
      stack := []
      search := writeUrl ⟨s.rendered.preset, none, s.rendered.live⟩ s.search }
  | .pop search =>
    let parsed := parseUrl other search
    { s with
      now := { toView := parsed, anchor := s.now.anchor }
      stack := if parsed.window.isNone then [] else s.stack
      search := search }
  | .render => { s with rendered := s.now }

def init (other : Text → Option Time) (search : Text) (clock : Clock) : State where
  now := { toView := parseUrl other search, anchor := clock.1 }
  search := search
  rendered := { toView := parseUrl other search, anchor := clock.1 }

/-- The range is a window of numbers, its start before its end, and the URL says what is in use. -/
structure Law (other : Text → Option Time) (s : State) : Prop where
  finite : ∃ w, s.now.current = some w ∧ w.fromMs < w.toMs
  agrees : parseUrl other s.search = s.now.view

/-- No `range` of the search string is what objects inherit. -/
def Regular (search : Text) : Prop := ∀ range ∈ UrlParams.get "range".toList (UrlParams.parse search), range ∉ inherited

/-- What the operation writes of what it has captured is what is in use; a zoom is not of more than 2^53 milliseconds; the window that
is reset stands before a preset. -/
def Fit (s : State) : Op → Prop
  | .setPreset _ _ => s.rendered.live = s.now.live
  | .setLive _ _ => s.rendered.preset = s.now.preset ∧ s.rendered.window = s.now.window
  | .zoomBy _ _ => s.rendered.live = s.now.live ∧ ∀ w ∈ s.rendered.current, w.toMs - w.fromMs ≤ 2 ^ 53
  | .resetZoom => s.rendered.live = s.now.live ∧ s.rendered.preset = s.now.preset ∧ s.now.preset ≠ custom
  | .pop search => Regular search
  | .render => True

/-! ## What is written is read -/

section
variable {other : Text → Option Time} {w : Window}

/-- A window of times, its start before its end. -/
structure Proper (w : Window) : Prop where
  before : w.fromMs < w.toMs
  start : |w.fromMs| ≤ maxTime
  stop : |w.toMs| ≤ maxTime

theorem dateParse_toISOString {t : ℤ} (h : |t| ≤ maxTime) : dateParse other (toISOString t) = some t := by
  rw [dateParse, readISOString_toISOString h, Option.some_or]

theorem dateParse_bound {s : Text} {t : ℤ} (h : dateParse other s = some t) : |t| ≤ maxTime := by
  unfold dateParse at h
  cases hread : readISOString s with
  | some u =>
    rw [hread] at h
    cases h
    exact readISOString_bound hread
  | none =>
    rw [hread, Option.none_or] at h
    obtain ⟨u, -, rfl⟩ := Option.map_eq_some_iff.mp h
    exact u.2

theorem windowOf_proper {params : UrlParams.Params} (h : windowOf other params = some w) : Proper w := by
  unfold windowOf at h
  split at h
  · split at h
    · cases h
    · split at h
      · rename_i hfrom hto
        split at h
        · rename_i hlt
          cases h
          exact ⟨hlt, dateParse_bound hfrom, dateParse_bound hto⟩
        · cases h
      · cases h
  · cases h

theorem windowOf_set {params : UrlParams.Params} (hw : Proper w) (hfrom : UrlParams.get "from".toList params = some (toISOString w.fromMs))
    (hto : UrlParams.get "to".toList params = some (toISOString w.toMs)) : windowOf other params = some w := by
  have hne : ∀ t, (toISOString t).isEmpty = false := by
    intro t
    cases htext : toISOString t with
    | nil => exact absurd htext (toISOString_ne_nil t)
    | cons c s => rfl
  unfold windowOf
  rw [hfrom, hto]
  dsimp only
  rw [hne, hne, dateParse_toISOString hw.start, dateParse_toISOString hw.stop]
  exact if_pos hw.before

theorem get_cleared (n : Text) (hn : n ∈ ["range".toList, "from".toList, "to".toList, "live".toList]) (params : UrlParams.Params) :
    UrlParams.get n (cleared params) = none := by
  unfold cleared
  simp only [UrlParams.get_delete]
  simp only [List.mem_cons, List.not_mem_nil, or_false] at hn
  rcases hn with rfl | rfl | rfl | rfl <;> simp

theorem get_withLive {n : Text} (hn : n ≠ "live".toList) (live : Bool) (params : UrlParams.Params) :
    UrlParams.get n (withLive live params) = UrlParams.get n params := by
  unfold withLive
  cases live with
  | true => rw [if_pos rfl, UrlParams.get_set, if_neg hn]
  | false => rfl

theorem live_withLive {params : UrlParams.Params} (h : UrlParams.get "live".toList params = none) (live : Bool) :
    decide (UrlParams.get "live".toList (withLive live params) = some "1".toList) = live := by
  unfold withLive
  cases live with
  | true => rw [if_pos rfl, UrlParams.get_set, if_pos rfl, decide_eq_true rfl]
  | false => rw [if_neg Bool.false_ne_true, h]; rfl

/-- The view is read from what is written of it, where a window is of times and a preset is one that the picker has. -/
theorem parseUrl_writeUrl (next : View) (search : Text) (hwindow : ∀ w ∈ next.window, Proper w)
    (hpreset : next.window = none → (presetMs next.preset).isSome ∧ next.preset ≠ custom) :
    parseUrl other (writeUrl next search) = ⟨if next.window.isSome then custom else next.preset, next.window, next.live⟩ := by
  obtain ⟨preset, window, live⟩ := next
  have hcleared := fun n hn => get_cleared n hn (UrlParams.parse search)
  generalize hparams : cleared (UrlParams.parse search) = params at hcleared
  have hfrom := hcleared "from".toList (by decide)
  have hlive := hcleared "live".toList (by decide)
  unfold writeUrl
  rw [hparams]
  cases window with
  | some w =>
    have hw := hwindow w rfl
    have hrange : withRange ⟨preset, some w, live⟩ params =
        some (UrlParams.set "to".toList (toISOString w.toMs) (UrlParams.set "from".toList (toISOString w.fromMs) params)) := by
      simp only [withRange, isoText, if_pos hw.start, if_pos hw.stop]
      rfl
    rw [hrange]
    dsimp only
    unfold parseUrl
    rw [UrlParams.parse_searchOf]
    dsimp only
    have hset : UrlParams.get "live".toList (UrlParams.set "to".toList (toISOString w.toMs)
        (UrlParams.set "from".toList (toISOString w.fromMs) params)) = none := by
      rw [UrlParams.get_set, if_neg (by decide), UrlParams.get_set, if_neg (by decide), hlive]
    rw [windowOf_set hw (by rw [get_withLive (by decide), UrlParams.get_set, if_neg (by decide), UrlParams.get_set, if_pos rfl])
      (by rw [get_withLive (by decide), UrlParams.get_set, if_pos rfl]), live_withLive hset]
    rfl
  | none =>
    obtain ⟨hown, hne⟩ := hpreset rfl
    have hrange : withRange ⟨preset, none, live⟩ params = some (UrlParams.set "range".toList preset params) := by
      simp only [withRange, if_neg hne]
    rw [hrange]
    dsimp only
    unfold parseUrl
    rw [UrlParams.parse_searchOf]
    dsimp only
    have hnone : windowOf other (withLive live (UrlParams.set "range".toList preset params)) = none := by
      unfold windowOf
      rw [get_withLive (by decide), UrlParams.get_set, if_neg (by decide), hfrom]
    have hset : UrlParams.get "live".toList (UrlParams.set "range".toList preset params) = none := by
      rw [UrlParams.get_set, if_neg (by decide), hlive]
    rw [hnone, live_withLive hset]
    dsimp only
    rw [get_withLive (by decide), UrlParams.get_set, if_pos rfl]
    dsimp only
    rw [if_pos (by simp [inPresetMs, hown])]
    rfl

end

/-! ## The range in use -/

section
variable {other : Text → Option Time} {s : Shown} {w : Window}

theorem presetMs_bound {p : Text} {ms : ℤ} (h : presetMs p = some ms) : 0 < ms ∧ ms ≤ 604800000 := by
  obtain ⟨q, -, rfl⟩ := Option.map_eq_some_iff.mp h
  cases q <;> decide

theorem presetMs_name (p : TimePreset) : (presetMs p.name).isSome = true := by
  cases p <;> decide

theorem ne_custom_of_presetMs {p : Text} (h : (presetMs p).isSome = true) : p ≠ custom := by
  rintro rfl
  exact absurd h (by decide)

/-- What is in use, or was at a render. -/
structure Good (s : Shown) : Prop where
  proper : ∀ w ∈ s.window, Proper w
  preset : s.preset = custom ∧ s.window.isSome = true ∨ (presetMs s.preset).isSome = true
  anchor : 0 ≤ s.anchor ∧ s.anchor ≤ maxTime

theorem Good.own (h : Good s) (hnone : s.window = none) : (presetMs s.preset).isSome ∧ s.preset ≠ custom := by
  rcases h.preset with ⟨-, hsome⟩ | hown
  · rw [hnone] at hsome
    cases hsome
  · exact ⟨hown, ne_custom_of_presetMs hown⟩

theorem Good.current (h : Good s) : ∃ w, s.current = some w ∧ Proper w := by
  unfold Shown.current
  cases hw : s.window with
  | some w => exact ⟨w, rfl, h.proper w hw⟩
  | none =>
    obtain ⟨hown, hne⟩ := h.own hw
    obtain ⟨ms, hms⟩ := Option.isSome_iff_exists.mp hown
    have hbound := presetMs_bound hms
    have hanchor := h.anchor
    refine ⟨⟨s.anchor - ms, s.anchor⟩, ?_, ?_, ?_, ?_⟩
    · rw [Option.none_or, Shown.span, if_neg hne, hms]
      rfl
    · dsimp only
      omega
    · unfold maxTime at *
      exact abs_le.mpr ⟨by dsimp only; omega, by dsimp only; omega⟩
    · exact abs_le.mpr ⟨by unfold maxTime; dsimp only; omega, hanchor.2⟩

theorem parseUrl_good {search : Text} (h : Regular search) {anchor : ℤ} (hanchor : 0 ≤ anchor ∧ anchor ≤ maxTime) :
    Good { toView := parseUrl other search, anchor := anchor } := by
  have hdefault : (presetMs "1h".toList).isSome = true := by decide
  refine ⟨?_, ?_, hanchor⟩
  · unfold parseUrl
    dsimp only
    split
    · rename_i w hw
      intro v hv
      cases hv
      exact windowOf_proper hw
    · split
      · split <;> exact nofun
      · exact nofun
  · unfold parseUrl
    dsimp only
    split
    · exact Or.inl ⟨rfl, rfl⟩
    · split
      · rename_i range hrange
        split
        · rename_i hin
          rcases Bool.or_eq_true_iff.mp hin with hown | hinherited
          · exact Or.inr hown
          · exact absurd (List.contains_iff_mem.mp hinherited) (h range hrange)
        · exact Or.inr hdefault
      · exact Or.inr hdefault

theorem preset_of_window {search : Text} (h : (parseUrl other search).window.isSome = true) : (parseUrl other search).preset = custom := by
  unfold parseUrl at h ⊢
  dsimp only at h ⊢
  split at h
  · rfl
  · split at h
    · split at h <;> cases h
    · cases h

/-- What is parsed is seen as it is. -/
theorem view_parseUrl (search : Text) (anchor : ℤ) : ({ toView := parseUrl other search, anchor := anchor } : Shown).view = parseUrl other search := by
  unfold Shown.view
  dsimp only
  split
  · rename_i hsome
    rw [← preset_of_window hsome]
  · rfl

/-! ## The ends of a zoom -/

theorem mathRound_within {a b : ℤ} {q : ℚ} (ha : a ≤ q) (hb : q ≤ b) : a ≤ mathRound q ∧ mathRound q ≤ b := by
  unfold mathRound
  constructor
  · exact Int.le_floor.mpr (by linarith)
  · have hlt : ⌊q + 1 / 2⌋ < b + 1 := Int.floor_lt.mpr (by push_cast; linarith)
    omega

theorem zoomEnd_within (hw : Proper w) (hspan : w.toMs - w.fromMs ≤ 2 ^ 53) (f : Fraction) :
    w.fromMs ≤ zoomEnd w f.1 ∧ zoomEnd w f.1 ≤ w.toMs := by
  obtain ⟨hstart, -⟩ := abs_le.mp hw.start
  obtain ⟨-, hstop⟩ := abs_le.mp hw.stop
  have hbefore := hw.before
  unfold maxTime at hstart hstop
  have hexact : nearest ((w.toMs - w.fromMs : ℤ) : ℚ) = (w.toMs - w.fromMs : ℤ) := nearest_intCast (abs_le.mpr ⟨by omega, hspan⟩)
  have hpos : (0 : ℚ) ≤ ((w.toMs - w.fromMs : ℤ) : ℚ) := by exact_mod_cast (by omega : 0 ≤ w.toMs - w.fromMs)
  obtain ⟨hpart, hpart'⟩ := nearest_within (a := 0) (b := w.toMs - w.fromMs) (q := f.1 * (w.toMs - w.fromMs : ℤ))
    (by exact_mod_cast mul_nonneg f.2.1 hpos) (mul_le_of_le_one_left hpos f.2.2) (by norm_num) hspan
  unfold zoomEnd
  rw [hexact]
  have hsum : (w.fromMs : ℚ) ≤ w.fromMs + nearest (f.1 * (w.toMs - w.fromMs : ℤ)) := by
    push_cast at hpart ⊢
    linarith
  have hsum' : w.fromMs + nearest (f.1 * (w.toMs - w.fromMs : ℤ)) ≤ (w.toMs : ℚ) := by
    push_cast at hpart' ⊢
    linarith
  obtain ⟨hnear, hnear'⟩ := nearest_within hsum hsum' (by omega) (by omega)
  exact mathRound_within hnear hnear'

end

/-! ## Operations -/

section
variable {other : Text → Option Time} {s : State}

structure Sound (other : Text → Option Time) (s : State) : Prop where
  now : Good s.now
  rendered : Good s.rendered
  agrees : parseUrl other s.search = s.now.view

theorem Sound.law (h : Sound other s) : Law other s := by
  obtain ⟨w, hw, hproper⟩ := h.now.current
  exact ⟨⟨w, hw, hproper.before⟩, h.agrees⟩

theorem Sound.step (h : Sound other s) {x : Op} (hfit : Fit s x) : Sound other (step other s x) := by
  cases x with
  | setPreset p clock =>
    have hlive : s.rendered.live = s.now.live := hfit
    have hown := presetMs_name p
    refine ⟨⟨nofun, Or.inr hown, clock.2⟩, h.rendered, ?_⟩
    have hpreset : (presetMs p.name).isSome ∧ p.name ≠ custom := ⟨hown, ne_custom_of_presetMs hown⟩
    have hwritten : parseUrl other (writeUrl ⟨p.name, none, s.rendered.live⟩ s.search) = ⟨p.name, none, s.rendered.live⟩ :=
      parseUrl_writeUrl _ _ nofun fun _ => hpreset
    rw [hlive] at hwritten
    dsimp only [TimeRanges.step]
    rw [hlive]
    exact hwritten
  | setLive l clock =>
    obtain ⟨hpreset, hwindow⟩ := hfit
    have hanchor : 0 ≤ (if l then clock.1 else s.now.anchor) ∧ (if l then clock.1 else s.now.anchor) ≤ maxTime := by
      split
      · exact clock.2
      · exact h.now.anchor
    refine ⟨⟨h.now.proper, h.now.preset, hanchor⟩, h.rendered, ?_⟩
    dsimp only [TimeRanges.step]
    rw [hpreset, hwindow]
    exact parseUrl_writeUrl ⟨s.now.preset, s.now.window, l⟩ s.search h.now.proper h.now.own
  | zoomBy fromFrac toFrac =>
    obtain ⟨hlive, hspan⟩ := hfit
    obtain ⟨w, hcurrent, hw⟩ := h.rendered.current
    have hfrom := zoomEnd_within hw (hspan w hcurrent) fromFrac
    have hto := zoomEnd_within hw (hspan w hcurrent) toFrac
    dsimp only [TimeRanges.step]
    rw [hcurrent]
    dsimp only
    split
    · exact h
    · obtain ⟨hstart, hstart'⟩ := abs_le.mp hw.start
      obtain ⟨hstop, hstop'⟩ := abs_le.mp hw.stop
      have hnext : Proper ⟨zoomEnd w fromFrac.1, zoomEnd w toFrac.1⟩ :=
        ⟨by dsimp only; omega, abs_le.mpr ⟨by dsimp only; omega, by dsimp only; omega⟩, abs_le.mpr ⟨by dsimp only; omega, by dsimp only; omega⟩⟩
      have hproper : ∀ v ∈ some (⟨zoomEnd w fromFrac.1, zoomEnd w toFrac.1⟩ : Window), Proper v := by
        intro v hv
        cases hv
        exact hnext
      have hpreset : s.now.preset = custom ∧ true = true ∨ (presetMs s.now.preset).isSome = true :=
        h.now.preset.imp (fun hp => ⟨hp.1, rfl⟩) fun hp => hp
      refine ⟨⟨hproper, hpreset, h.now.anchor⟩, h.rendered, ?_⟩
      rw [hlive]
      exact parseUrl_writeUrl ⟨s.rendered.preset, some ⟨zoomEnd w fromFrac.1, zoomEnd w toFrac.1⟩, s.now.live⟩ s.search hproper nofun
  | resetZoom =>
    obtain ⟨hlive, hpreset, hne⟩ := hfit
    have hown : (presetMs s.now.preset).isSome = true := h.now.preset.resolve_left fun hp => hne hp.1
    refine ⟨⟨nofun, Or.inr hown, h.now.anchor⟩, h.rendered, ?_⟩
    dsimp only [TimeRanges.step]
    rw [hlive, hpreset]
    exact parseUrl_writeUrl ⟨s.now.preset, none, s.now.live⟩ s.search nofun fun _ => ⟨hown, hne⟩
  | pop search => exact ⟨parseUrl_good hfit h.now.anchor, h.rendered, (view_parseUrl search s.now.anchor).symm⟩
  | render => exact ⟨h.now, h.now, h.agrees⟩

/-- From every search string that is regular, in every run of operations that fit. -/
theorem url_agrees (other : Text → Option Time) (search : Text) (clock : Clock) (hsearch : Regular search) (xs : List Op)
    (h : Meets (TimeRanges.step other) Fit (init other search clock) xs) :
    Throughout (TimeRanges.step other) (Law other) (init other search clock) xs := by
  have hstart : Sound other (init other search clock) :=
    ⟨parseUrl_good hsearch clock.2, parseUrl_good hsearch clock.2, (view_parseUrl search clock.1).symm⟩
  have hsound := h.throughout (fun _ _ hs hx => hs.step hx) hstart
  exact hsound.imp fun s hs => hs.law

end

/-! ## Links -/

instance : DecidablePred Regular := fun search =>
  inferInstanceAs (Decidable (∀ range ∈ UrlParams.get "range".toList (UrlParams.parse search), range ∉ inherited))

instance (s : State) : DecidablePred (Fit s)
  | .setPreset _ _ => inferInstanceAs (Decidable (s.rendered.live = s.now.live))
  | .setLive _ _ => inferInstanceAs (Decidable (s.rendered.preset = s.now.preset ∧ s.rendered.window = s.now.window))
  | .zoomBy _ _ =>
    inferInstanceAs (Decidable (s.rendered.live = s.now.live ∧ ∀ w ∈ s.rendered.current, w.toMs - w.fromMs ≤ 2 ^ 53))
  | .resetZoom =>
    inferInstanceAs (Decidable (s.rendered.live = s.now.live ∧ s.rendered.preset = s.now.preset ∧ s.now.preset ≠ custom))
  | .pop search => inferInstanceAs (Decidable (Regular search))
  | .render => isTrue trivial

def noon : Clock := ⟨1704110400000, by decide⟩

def quarter : Fraction := ⟨1 / 4, by norm_num⟩

def threeQuarters : Fraction := ⟨3 / 4, by norm_num⟩

/-- An engine that parses no other form. -/
def strict (_ : Text) : Option Time := none

def link : Text := "?q=level%3AERROR&from=2024-01-01T00%3A00%3A00.000Z&to=2024-01-01T08%3A00%3A00.000Z".toList

/-- The live flag is set, a link is gone back to, and its window zoomed. -/
def visit : List Op := [.setLive true noon, .render, .pop link, .render, .zoomBy quarter threeQuarters]

theorem url_agrees_visit : Law strict (run (step strict) (init strict [] noon) visit) := by
  have hfit : Meets (step strict) Fit (init strict [] noon) visit := by decide +kernel
  exact (url_agrees strict [] noon nofun visit hfit).last

/-- A link with an inherited name; a link's window that is reset; and a preset that is picked before the render that follows the live flag. -/
theorem links_differ : ¬Law strict (init strict "?range=constructor".toList noon) ∧
    ¬Law strict (run (step strict) (init strict link noon) [.resetZoom]) ∧
    ¬Law strict (run (step strict) (init strict [] noon) [.setLive true noon, .setPreset .h4 noon]) := by
  refine ⟨fun h => ?_, fun h => ?_, fun h => ?_⟩
  · obtain ⟨w, hw, -⟩ := h.finite
    have hnone : (init strict "?range=constructor".toList noon).now.current = none := by decide +kernel
    rw [hnone] at hw
    cases hw
  · exact absurd h.agrees (by decide +kernel)
  · exact absurd h.agrees (by decide +kernel)

end Upstat.TimeRanges
