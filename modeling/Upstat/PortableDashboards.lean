import Upstat.NumberTexts
import Upstat.StoredDashboards

/-! # Portable dashboards (`controllers/dashboards.ts`)

A dashboard as the browser holds it, its portable definition, and the texts of one. The response of api/common is
read as JSON: its numbers become doubles and its objects list their members the way JavaScript does. -/
namespace Upstat.PortableDashboards

open GuardedRuns DoubleNumbers JsonTexts NumberTexts
open StoredDashboards (Text Store Call WidgetLayout TemplateVars)

/-- A value of `JSON.parse` -/
abbrev Value := Json Number

/-- `Omit<Widget, "id" | "dashboard_id">` -/
structure PortableWidget where
  type : Text
  title : Text
  query : Value
  queryString : Option Text
  vizOptions : Value
  layout : Value

structure Widget extends PortableWidget where
  id : ℕ
  dashboardId : ℕ

structure Dashboard where
  id : ℕ
  name : Text
  favorite : Bool
  shared : Bool
  templateVars : Value
  widgets : List Widget

structure PortableDashboard where
  name : Text
  templateVars : Value
  widgets : List PortableWidget

/-- The name of a member. -/
def key (s : String) : Text := s.toList

/-! ## What the browser receives -/

def loadLayout (l : WidgetLayout) : Value :=
  .obj [(key "x", .num (toNumber l.x.toInt)), (key "y", .num (toNumber l.y.toInt)), (key "w", .num (toNumber l.w.toInt)),
    (key "h", .num (toNumber l.h.toInt))]

def loadVar (v : Text × Option (List Text)) : Text × Value :=
  (v.1, match v.2 with
    | none => .null
    | some values => .arr (values.map .str))

def loadVars (vars : TemplateVars) : Value := .obj ((vars.entries.map loadVar).foldl assign [])

def loadWidget (dashboardId : ℕ) (w : StoredDashboards.Widget) : Widget :=
  { type := w.type, title := w.title, query := convert toNumber w.query, queryString := w.queryString
    vizOptions := convert toNumber w.vizOptions, layout := loadLayout w.layout, id := w.id, dashboardId := dashboardId }

def load (d : StoredDashboards.Dashboard) : Dashboard :=
  ⟨d.id, d.name, d.favorite, d.shared, loadVars d.templateVars, d.widgets.map (loadWidget d.id)⟩

/-! ## Export -/

/-- `JSON.stringify` of a number that is not null -/
def stringify : Number → Option Text
  | .finite x => some (numberToString x)
  | .infinite _ => none

def portable (d : Dashboard) : PortableDashboard := ⟨d.name, d.templateVars, d.widgets.map Widget.toPortableWidget⟩

/-- A field that is undefined is not written. -/
def widgetValue (w : PortableWidget) : Value :=
  .obj ([(key "type", .str w.type), (key "title", .str w.title), (key "query", w.query)] ++
    (match w.queryString with
      | none => []
      | some s => [(key "query_string", .str s)]) ++
    [(key "viz_options", w.vizOptions), (key "layout", w.layout)])

def portableValue (p : PortableDashboard) : Value :=
  .obj [(key "version", .num (toNumber 1)), (key "name", .str p.name), (key "template_vars", p.templateVars),
    (key "widgets", .arr (p.widgets.map widgetValue))]

def dashboardToPortableJson (d : Dashboard) : Text := print stringify 0 (portableValue (portable d))

/-! ## Import -/

def WIDGET_TYPES : List Text :=
  ["timeseries", "query_value", "toplist", "table", "heatmap", "logstream", "trace_latency", "slo", "status", "servicemap",
    "markdown"].map String.toList

/-- A member of an object; other values have none of the names asked for. -/
def field (v : Value) (k : String) : Option Value :=
  match v with
  | .obj fs => (fs.find? fun f => f.1 = key k).map Prod.snd
  | _ => none

def isText : Value → Bool
  | .str _ => true
  | _ => false

def isObject : Value → Bool
  | .obj _ => true
  | _ => false

def isTextList : Value → Bool
  | .arr xs => xs.all isText
  | _ => false

/-- A value that is undefined or passes. -/
def absentOr (p : Value → Bool) : Option Value → Bool
  | none => true
  | some v => p v

def text : Option Value → Option Text
  | some (.str s) => some s
  | _ => none

/-- The integer that a member is, as `Number.isInteger` has it. -/
def integer (v : Value) (k : String) : Option ℤ :=
  match field v k with
  | some (.num (.finite x)) => if x.1.den = 1 then some x.1.num else none
  | _ => none

mutual

/-- A value in a template literal; an object that has a member `toString` cannot be put there. -/
def shown : Value → Option Text
  | .null => some "null".toList
  | .bool b => some (if b then "true" else "false").toList
  | .num (.finite x) => some (numberToString x)
  | .num (.infinite negative) => some (if negative then "-Infinity" else "Infinity").toList
  | .str s => some s
  | .arr xs => shownItems [] xs
  | .obj fs => if fs.any fun f => f.1 = key "toString" then none else some "[object Object]".toList

def shownItems (separator : Text) : List Value → Option Text
  | [] => some []
  | .null :: xs => (shownItems [','] xs).map fun rest => separator ++ rest
  | x :: xs =>
    match shown x, shownItems [','] xs with
    | some s, some rest => some (separator ++ s ++ rest)
    | _, _ => none

end

def unknownType (w : Value) : Text :=
  match field w "type" with
  | none | some .null => "unknown widget type: ?".toList
  | some t =>
    match shown t with
    | some s => "unknown widget type: ".toList ++ s
    | none => "Cannot convert object to primitive value".toList

/-- The message of the first check that fails. -/
def refuse : List (Bool × String) → Except Text Unit
  | [] => .ok ()
  | (bad, message) :: checks => if bad then .error message.toList else refuse checks

def layoutFits (v : Value) : Bool :=
  match integer v "x", integer v "y", integer v "w", integer v "h" with
  | some x, some y, some w, some h => ¬(x < 0 ∨ w < 1 ∨ (toNumber (x + w : ℤ)).above 12 ∨ y < 0 ∨ h < 1 ∨ 24 < h)
  | _, _, _, _ => false

def varsFit : Value → Bool
  | .obj fs => fs.all fun f => isTextList f.2
  | _ => false

def isOne : Option Value → Bool
  | some (.num n) => n = toNumber 1
  | _ => false

def checkWidget (w : Value) : Except Text Unit :=
  if (text (field w "type")).all fun t => ¬WIDGET_TYPES.contains t then .error (unknownType w)
  else refuse [
    (¬absentOr isText (field w "title"), "widget title must be a string"),
    (¬absentOr isText (field w "query_string"), "widget query_string must be a string"),
    (¬absentOr isObject (field w "viz_options"), "widget viz_options must be an object"),
    (text (field w "type") = some (key "markdown") ∧ ¬absentOr isText ((field w "viz_options").bind (field · "text")),
      "markdown viz_options.text must be a string"),
    (¬layoutFits ((field w "layout").getD .null),
      "every widget needs an integer layout inside the 12-column grid (0 ≤ x, x+w ≤ 12, w ≥ 1, y ≥ 0, 1 ≤ h ≤ 24)")]

def checkWidgets : List Value → Except Text Unit
  | [] => .ok ()
  | w :: ws => do
    checkWidget w
    checkWidgets ws

def toWidget (w : Value) : PortableWidget :=
  let type := (text (field w "type")).getD []
  { type := type, title := (text (field w "title")).getD type, query := (field w "query").getD .null
    queryString := text (field w "query_string"), vizOptions := (field w "viz_options").getD (.obj [])
    layout := (field w "layout").getD .null }

def widgets (raw : Value) : Option (List Value) :=
  match field raw "widgets" with
  | some (.arr ws) => some ws
  | _ => none

def validate (raw : Value) : Except Text PortableDashboard := do
  refuse [
    (¬isOne (field raw "version"), "unsupported version — expected 1"),
    ((text (field raw "name")).all (· = []), "name is required"),
    ((widgets raw).isNone, "widgets must be an array"),
    (¬absentOr varsFit (field raw "template_vars"), "template_vars must map names to arrays of strings")]
  checkWidgets ((widgets raw).getD [])
  .ok ⟨(text (field raw "name")).getD [], (field raw "template_vars").getD (.obj []), ((widgets raw).getD []).map toWidget⟩

def parsePortableDashboard (s : Text) : Except Text PortableDashboard :=
  match read readNumber s with
  | none => .error "not valid JSON".toList
  | some raw => validate raw

/-! ## What the checks say of an exported definition -/

theorem refuse_eq_ok {checks : List (Bool × String)} : refuse checks = .ok () ↔ ∀ c ∈ checks, c.1 = false := by
  induction checks with
  | nil => simp [refuse]
  | cons c checks ih =>
    rw [refuse, List.forall_mem_cons]
    cases hc : c.1 with
    | false => simpa using ih
    | true => simp

theorem check_bind_eq_ok {α : Type} {a : Except Text Unit} {b : Except Text α} {x : α} :
    (do a; b) = .ok x ↔ a = .ok () ∧ b = .ok x := by
  cases a with
  | error e =>
    constructor
    · intro h
      cases h
    · intro h
      cases h.1
  | ok _ => exact ⟨fun h => ⟨rfl, h⟩, fun h => h.2⟩

theorem checkWidgets_eq_ok {ws : List Value} : checkWidgets ws = .ok () ↔ ∀ w ∈ ws, checkWidget w = .ok () := by
  induction ws with
  | nil => simp [checkWidgets]
  | cons w ws ih => rw [checkWidgets, check_bind_eq_ok, ih, List.forall_mem_cons]

theorem toWidget_widgetValue (w : PortableWidget) : toWidget (widgetValue w) = w := by
  obtain ⟨type, title, query, queryString, vizOptions, layout⟩ := w
  cases queryString <;> rfl

/-- What an exported widget has to be to be taken back. -/
structure Fitting (w : PortableWidget) : Prop where
  type : w.type ∈ WIDGET_TYPES
  vizOptions : isObject w.vizOptions = true
  markdown : w.type = key "markdown" → absentOr isText (field w.vizOptions "text") = true
  layout : layoutFits w.layout = true

theorem checkWidget_widgetValue (w : PortableWidget) : checkWidget (widgetValue w) = .ok () ↔ Fitting w := by
  have htype : field (widgetValue w) "type" = some (.str w.type) := by cases hq : w.queryString <;> simp [widgetValue, hq] <;> rfl
  have htitle : field (widgetValue w) "title" = some (.str w.title) := by cases hq : w.queryString <;> simp [widgetValue, hq] <;> rfl
  have hquery : absentOr isText (field (widgetValue w) "query_string") = true := by
    cases hq : w.queryString <;> simp [widgetValue, hq] <;> rfl
  have hviz : field (widgetValue w) "viz_options" = some w.vizOptions := by cases hq : w.queryString <;> simp [widgetValue, hq] <;> rfl
  have hlayout : field (widgetValue w) "layout" = some w.layout := by cases hq : w.queryString <;> simp [widgetValue, hq] <;> rfl
  rw [checkWidget, htype, htitle, hquery, hviz, hlayout]
  simp only [text, absentOr, isText, Option.all_some, Option.getD_some, Option.bind_some]
  by_cases hknown : w.type ∈ WIDGET_TYPES
  · rw [if_neg (by simpa using hknown), refuse_eq_ok]
    constructor
    · intro h
      simp at h
      exact ⟨hknown, h.1, fun hm => h.2.1 hm, h.2.2⟩
    · intro h
      obtain ⟨-, hobject, hmarkdown, hfits⟩ := h
      simp [hobject, hfits]
      exact hmarkdown
  · rw [if_pos (by simpa using hknown)]
    constructor
    · intro h
      cases h
    · intro h
      exact absurd h.type hknown

structure Valid (p : PortableDashboard) : Prop where
  name : p.name ≠ []
  templateVars : varsFit p.templateVars = true
  widgets : ∀ w ∈ p.widgets, Fitting w

/-- A definition passes the checks as it is, or not at all. -/
theorem validate_portableValue (p q : PortableDashboard) : validate (portableValue p) = .ok q ↔ Valid p ∧ p = q := by
  have hversion : isOne (field (portableValue p) "version") = true := by
    change decide (toNumber 1 = toNumber 1) = true
    exact decide_eq_true rfl
  have hname : field (portableValue p) "name" = some (.str p.name) := rfl
  have hvars : field (portableValue p) "template_vars" = some p.templateVars := rfl
  have hwidgets : widgets (portableValue p) = some (p.widgets.map widgetValue) := rfl
  have htaken : (p.widgets.map widgetValue).map toWidget = p.widgets := by
    rw [List.map_map]
    exact List.map_id'' toWidget_widgetValue p.widgets
  rw [validate, hversion, hname, hvars, hwidgets]
  simp only [text, absentOr, Option.all_some, Option.getD_some, Option.isNone_some, htaken]
  rw [check_bind_eq_ok, check_bind_eq_ok, refuse_eq_ok, checkWidgets_eq_ok, Except.ok.injEq]
  constructor
  · rintro ⟨hchecks, hw, rfl⟩
    simp at hchecks
    refine ⟨⟨hchecks.1, hchecks.2, ?_⟩, rfl⟩
    intro w hmem
    exact (checkWidget_widgetValue w).mp (hw _ (List.mem_map_of_mem hmem))
  · rintro ⟨hvalid, rfl⟩
    refine ⟨?_, ?_, rfl⟩
    · simp [hvalid.name, hvalid.templateVars]
    · intro v hv
      obtain ⟨w, hmem, rfl⟩ := List.mem_map.mp hv
      exact (checkWidget_widgetValue w).mpr (hvalid.widgets w hmem)

/-! ## What an exported definition is read as -/

/-- A widget with its values as they are read. -/
def tidyWidget (w : PortableWidget) : PortableWidget :=
  { w with query := tidy stringify w.query, vizOptions := tidy stringify w.vizOptions, layout := tidy stringify w.layout }

def tidyPortable (p : PortableDashboard) : PortableDashboard :=
  { p with templateVars := tidy stringify p.templateVars, widgets := p.widgets.map tidyWidget }

theorem reads_stringify : Reads stringify readNumber := by
  intro n t ht
  cases n with
  | infinite negative => cases ht
  | finite x =>
    obtain rfl := Option.some.inj ht
    have hread := readNumber_numberToString x
    refine ⟨?_, ?_, hread⟩
    · intro hnil
      rw [hnil] at hread
      revert hread
      simp [readNumber, readMagnitude]
    · intro c hc
      have hchar := numberChar_numberToString x c hc
      simpa [isNumberChar, NumberChar] using hchar

theorem tidy_widgetValue (w : PortableWidget) : tidy stringify (widgetValue w) = widgetValue (tidyWidget w) := by
  obtain ⟨type, title, query, queryString, vizOptions, layout⟩ := w
  cases queryString with
  | none =>
    have horder : InOrder [(key "type", Json.str type), (key "title", .str title), (key "query", query), (key "viz_options", vizOptions),
        (key "layout", layout)] := by
      rw [inOrder_keys]
      simp only [List.map_cons, List.map_nil]
      decide +kernel
    exact tidy_obj horder
  | some s =>
    have horder : InOrder [(key "type", Json.str type), (key "title", .str title), (key "query", query), (key "query_string", .str s),
        (key "viz_options", vizOptions), (key "layout", layout)] := by
      rw [inOrder_keys]
      simp only [List.map_cons, List.map_nil]
      decide +kernel
    exact tidy_obj horder

theorem tidy_portableValue (p : PortableDashboard) : tidy stringify (portableValue p) = portableValue (tidyPortable p) := by
  have horder : InOrder [(key "version", Json.num (toNumber 1)), (key "name", .str p.name), (key "template_vars", p.templateVars),
      (key "widgets", .arr (p.widgets.map widgetValue))] := by
    rw [inOrder_keys]
    simp only [List.map_cons, List.map_nil]
    decide +kernel
  have hitems : ∀ ws : List PortableWidget, tidyItems stringify (ws.map widgetValue) = (ws.map tidyWidget).map widgetValue := by
    intro ws
    induction ws with
    | nil => rfl
    | cons w ws ih => rw [List.map_cons, tidyItems, tidy_widgetValue, ih, List.map_cons, List.map_cons]
  have hone : (stringify (toNumber 1)).isSome = true := by decide +kernel
  rw [portableValue, tidy_obj horder]
  simp only [tidyFields, tidy, hone, if_true, hitems, portableValue, tidyPortable]

/-- An export is taken back as it was just when it reads as it was and passes the checks. -/
theorem parse_dashboardToPortableJson (d : Dashboard) :
    parsePortableDashboard (dashboardToPortableJson d) = .ok (portable d) ↔ tidyPortable (portable d) = portable d ∧ Valid (portable d) := by
  rw [parsePortableDashboard, dashboardToPortableJson, read_print reads_stringify, tidy_portableValue]
  simp only [validate_portableValue]
  constructor
  · rintro ⟨hvalid, heq⟩
    exact ⟨heq, by rwa [heq] at hvalid⟩
  · rintro ⟨heq, hvalid⟩
    rw [heq]
    exact ⟨hvalid, rfl⟩

/-! ## What the browser holds of a stored dashboard -/

theorem tidyFields_of_same {fs : List (Text × Value)} (h : ∀ f ∈ fs, tidy stringify f.2 = f.2) : tidyFields stringify fs = fs := by
  induction fs with
  | nil => rfl
  | cons f fs ih => rw [tidyFields, h f List.mem_cons_self, ih fun g hg => h g (List.mem_cons_of_mem f hg)]

theorem tidyItems_texts (values : List Text) : tidyItems stringify (values.map .str) = values.map .str := by
  induction values with
  | nil => rfl
  | cons v values ih => rw [List.map_cons, tidyItems, tidy, ih]

theorem tidy_loadVars (vars : TemplateVars) : tidy stringify (loadVars vars) = loadVars vars := by
  rw [loadVars, tidy_obj (inOrder_foldl List.Pairwise.nil), tidyFields_of_same]
  intro f hf
  rcases mem_foldl_assign hf with hf | hf
  · cases hf
  · obtain ⟨⟨k, values⟩, -, rfl⟩ := List.mem_map.mp hf
    cases values with
    | none => rfl
    | some values => rw [loadVar, tidy, tidyItems_texts]

theorem stringify_int64 (n : Int64) : (stringify (toNumber n.toInt)).isSome = true := by
  have habs : |(n.toInt : ℚ)| < 2 ^ 200 := by
    have hlow := n.le_toInt
    have hhigh := n.toInt_lt
    rw [abs_lt]
    constructor
    · exact_mod_cast (by omega : -2 ^ 200 < n.toInt)
    · exact_mod_cast (by omega : n.toInt < 2 ^ 200)
  obtain ⟨x, hx, -⟩ := toNumber_of_lt habs
  rw [hx]
  rfl

theorem tidy_loadLayout (l : WidgetLayout) : tidy stringify (loadLayout l) = loadLayout l := by
  have horder : InOrder [(key "x", Json.num (toNumber l.x.toInt)), (key "y", .num (toNumber l.y.toInt)),
      (key "w", .num (toNumber l.w.toInt)), (key "h", .num (toNumber l.h.toInt))] := by
    rw [inOrder_keys]
    simp only [List.map_cons, List.map_nil]
    decide +kernel
  rw [loadLayout, tidy_obj horder]
  simp only [tidyFields, tidy, stringify_int64, if_true]

/-- A number that is not too large for a double. -/
def Printable (n : Number) : Prop := (stringify n).isSome = true

theorem tidyWidget_loadWidget (id : ℕ) (w : StoredDashboards.Widget) :
    tidyWidget (loadWidget id w).toPortableWidget = (loadWidget id w).toPortableWidget ↔
      Numbers Printable (convert toNumber w.query) ∧ Numbers Printable (convert toNumber w.vizOptions) := by
  have hquery : tidy stringify (convert toNumber w.query) = convert toNumber w.query ↔ _ := tidy_eq_iff _ (ordered_convert toNumber w.query)
  have hviz : tidy stringify (convert toNumber w.vizOptions) = convert toNumber w.vizOptions ↔ _ :=
    tidy_eq_iff _ (ordered_convert toNumber w.vizOptions)
  have hlayout := tidy_loadLayout w.layout
  rw [tidyWidget, PortableWidget.mk.injEq]
  simp only [loadWidget, hquery, hviz, hlayout, true_and, and_true]
  rfl

theorem tidyPortable_load (d : StoredDashboards.Dashboard) :
    tidyPortable (portable (load d)) = portable (load d) ↔
      ∀ w ∈ d.widgets, Numbers Printable (convert toNumber w.query) ∧ Numbers Printable (convert toNumber w.vizOptions) := by
  rw [tidyPortable, PortableDashboard.mk.injEq]
  simp only [portable, load, tidy_loadVars, true_and, List.map_map]
  rw [List.map_inj_left]
  apply forall₂_congr
  intro w _
  exact tidyWidget_loadWidget d.id w

theorem isTextList_loadVar (v : Text × Option (List Text)) : isTextList (loadVar v).2 = true ↔ v.2 ≠ none := by
  obtain ⟨k, values⟩ := v
  cases values with
  | none => simp [loadVar, isTextList]
  | some values => simp [loadVar, isTextList, isText]

theorem varsFit_loadVars (vars : TemplateVars) : varsFit (loadVars vars) = true ↔ ∀ v ∈ vars.entries, v.2 ≠ none := by
  have hkeys : (vars.entries.map loadVar).map Prod.fst = vars.entries.map Prod.fst := by
    rw [List.map_map]
    rfl
  have hperm := foldl_assign_perm [] (vars.entries.map loadVar) (by rw [List.nil_append, hkeys]; exact vars.nodup)
  rw [List.nil_append] at hperm
  rw [loadVars, varsFit, List.all_eq_true]
  constructor
  · intro h v hv
    exact (isTextList_loadVar v).mp (h _ (hperm.mem_iff.mpr (List.mem_map_of_mem hv)))
  · intro h f hf
    obtain ⟨v, hv, rfl⟩ := List.mem_map.mp (hperm.mem_iff.mp hf)
    exact (isTextList_loadVar v).mpr (h v hv)

theorem integer_loadLayout {v : Value} {k : String} {n : ℤ} (hfield : field v k = some (.num (toNumber n))) (hn : 0 ≤ n)
    (hlt : n < 2 ^ 63) : ∃ m : ℤ, integer v k = some m ∧ 0 ≤ m ∧ (n ≤ 2 ^ 53 → m = n) ∧ (2 ^ 53 ≤ n → 2 ^ 53 ≤ m) := by
  obtain ⟨x, m, hx, hm, hbounds⟩ := toNumber_natural hn (hlt.trans (by norm_num))
  refine ⟨m, ?_, hbounds⟩
  rw [integer, hfield, hx]
  simp only [hm, Rat.den_intCast, Rat.num_intCast, if_true]

/-- A layout the database takes is one the import takes but for its height and a sum that wrapped round. -/
theorem layoutFits_loadLayout {l : WidgetLayout} (h : StoredDashboards.layoutFits l = true) :
    layoutFits (loadLayout l) = true ↔ l.h.toInt ≤ 24 ∧ l.x.toInt + l.w.toInt ≤ 12 := by
  simp only [StoredDashboards.layoutFits, decide_eq_true_eq, not_or, Int64.lt_iff_toInt_lt, Int64.toInt_zero, Int64.toInt_one,
    not_lt] at h
  obtain ⟨hx, hy, hw, hh, -⟩ := h
  obtain ⟨x, hintx, hx0, hxsmall, hxlarge⟩ := integer_loadLayout (v := loadLayout l) (k := "x") rfl hx l.x.toInt_lt
  obtain ⟨y, hinty, hy0, -, -⟩ := integer_loadLayout (v := loadLayout l) (k := "y") rfl hy l.y.toInt_lt
  obtain ⟨w, hintw, hw0, hwsmall, hwlarge⟩ := integer_loadLayout (v := loadLayout l) (k := "w") rfl (by omega) l.w.toInt_lt
  obtain ⟨z, hinth, hz0, hzsmall, hzlarge⟩ := integer_loadLayout (v := loadLayout l) (k := "h") rfl (by omega) l.h.toInt_lt
  have habove := above_toNumber (n := x + w) (k := 12) (by omega) (by norm_num)
  rw [layoutFits, hintx, hinty, hintw, hinth]
  simp only [habove, decide_eq_true_eq]
  constructor
  · intro hfit
    omega
  · intro hfit
    omega

/-! ## Exporting and importing -/

/-- What the import asks of a stored widget besides what the database asked. -/
structure Transferable (w : StoredDashboards.Widget) : Prop where
  query : Numbers Printable (convert toNumber w.query)
  options : Numbers Printable (convert toNumber w.vizOptions)
  vizOptions : isObject (convert toNumber w.vizOptions) = true
  markdown : w.type = key "markdown" → absentOr isText (field (convert toNumber w.vizOptions) "text") = true
  height : w.layout.h.toInt ≤ 24
  width : w.layout.x.toInt + w.layout.w.toInt ≤ 12

theorem fitting_loadWidget {w : StoredDashboards.Widget} (h : StoredDashboards.Accepted w) (id : ℕ) :
    Fitting (loadWidget id w).toPortableWidget ↔
      isObject (convert toNumber w.vizOptions) = true ∧
        (w.type = key "markdown" → absentOr isText (field (convert toNumber w.vizOptions) "text") = true) ∧
          w.layout.h.toInt ≤ 24 ∧ w.layout.x.toInt + w.layout.w.toInt ≤ 12 := by
  have hlayout := layoutFits_loadLayout h.layout
  constructor
  · intro hfit
    exact ⟨hfit.vizOptions, hfit.markdown, hlayout.mp hfit.layout⟩
  · rintro ⟨hviz, hmarkdown, hfits⟩
    exact ⟨h.type, hviz, hmarkdown, hlayout.mpr hfits⟩

def noteVars : TemplateVars := ⟨[(key "env", some [key "prod"])], List.nodup_singleton _⟩

def noteOptions : Json ℚ := .obj [(key "text", .str (key "up")), (key "size", .num (3 / 2))]

def noteCalls : List Call :=
  [.createDashboard (key "Ops"), .updateDashboard 0 ⟨none, none, some true, some noteVars⟩,
    .addWidget 0 ⟨some (key "markdown"), none, none, none, some noteOptions, some ⟨0, 0, 4, 2⟩⟩]

/-- A dashboard with a note that has a text and a size. -/
def noteDashboard : StoredDashboards.Dashboard :=
  ⟨0, key "Ops", false, true, noteVars, [⟨1, key "markdown", [], .null, none, noteOptions, ⟨0, 0, 4, 2⟩⟩]⟩

/-- A rename to nothing, which the database takes. -/
def namelessCalls : List Call := noteCalls ++ [.updateDashboard 0 ⟨some [], none, none, none⟩]

def namelessDashboard : StoredDashboards.Dashboard := { noteDashboard with name := [] }

end Upstat.PortableDashboards
