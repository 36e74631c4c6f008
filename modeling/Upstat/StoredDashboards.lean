import Mathlib.Data.Rat.Defs
import Upstat.GuardedRuns
import Upstat.JsonTexts
import Upstat.OrgOwners

/-! # The dashboards of an org (`service/workspace.go`, `repository/workspace.go`)

What the database holds of one org's dashboards and widgets, and the calls that write it. The numbers of a JSON
column are exact. Roles, times and the lists a reader gets are left out. -/
namespace Upstat.StoredDashboards

open GuardedRuns
open JsonTexts (Json)
open OrgOwners (Error invalid notFound)

abbrev Text := List Char

/-- A layout's fields are `int`. -/
structure WidgetLayout where
  x : Int64
  y : Int64
  w : Int64
  h : Int64
  deriving DecidableEq

structure Widget where
  id : ℕ
  type : Text
  title : Text
  /-- null where the column is NULL -/
  query : Json ℚ
  queryString : Option Text
  vizOptions : Json ℚ
  layout : WidgetLayout

/-- A map of lists; the list of an entry may be nil, which is null in JSON. -/
structure TemplateVars where
  entries : List (Text × Option (List Text))
  nodup : (entries.map Prod.fst).Nodup

structure Dashboard where
  id : ℕ
  name : Text
  favorite : Bool
  shared : Bool
  templateVars : TemplateVars
  widgets : List Widget

/-- The rows, and the id of the next of them. -/
structure Store where
  next : ℕ
  dashboards : List Dashboard

structure DashboardInput where
  name : Option Text
  favorite : Option Bool
  shared : Option Bool
  templateVars : Option TemplateVars

/-- A widget's fields as they were decoded; a field given as null counts as not given. -/
structure WidgetInput where
  type : Option Text
  title : Option Text
  query : Option (Json ℚ)
  queryString : Option Text
  vizOptions : Option (Json ℚ)
  layout : Option WidgetLayout

def conflict (code message : String) : Error := ⟨409, code, message⟩

/-! ## Dashboards -/

def isSpace (c : Char) : Bool :=
  c.toNat ∈ [9, 10, 11, 12, 13, 32, 133, 160, 5760, 8232, 8233, 8239, 8287, 12288] ∨ (8192 ≤ c.toNat ∧ c.toNat ≤ 8202)

/-- `strings.TrimSpace` -/
def trimSpace (s : Text) : Text := ((s.dropWhile isSpace).reverse.dropWhile isSpace).reverse

def nameTaken : Error := conflict "name_taken" "a dashboard with this name exists"

def createDashboard (s : Store) (name : Text) : Except Error Store :=
  let name := trimSpace name
  if name = [] then .error (invalid "bad_shape" "name is required")
  else if s.dashboards.any fun d => d.name = name then .error nameTaken
  else .ok ⟨s.next + 1, s.dashboards ++ [⟨s.next, name, false, false, ⟨[], List.nodup_nil⟩, []⟩]⟩

/-- The dashboards with one of them rewritten, if there is one of the id. -/
def rewrite (s : Store) (id : ℕ) (f : Dashboard → Except Error Dashboard) : Except Error Store :=
  match s.dashboards.find? fun d => d.id = id with
  | none => .error (notFound "dashboard")
  | some d =>
    match f d with
    | .error e => .error e
    | .ok d' => .ok { s with dashboards := s.dashboards.map fun e => if e.id = id then d' else e }

def updateDashboard (s : Store) (id : ℕ) (i : DashboardInput) : Except Error Store :=
  rewrite s id fun d =>
    let name := i.name.getD d.name
    if s.dashboards.any fun e => e.id ≠ id ∧ e.name = name then .error nameTaken
    else .ok { d with
      name := name, favorite := i.favorite.getD d.favorite, shared := i.shared.getD d.shared
      templateVars := i.templateVars.getD d.templateVars }

def deleteDashboard (s : Store) (id : ℕ) : Except Error Store :=
  if s.dashboards.any fun d => d.id = id then .ok { s with dashboards := s.dashboards.filter fun d => d.id ≠ id }
  else .error (notFound "dashboard")

/-! ## Widgets -/

def widgetTypes : List Text :=
  ["timeseries", "query_value", "toplist", "table", "heatmap", "logstream", "trace_latency", "slo", "status", "servicemap",
    "markdown"].map String.toList

/-- The sum wraps round as the machine's does. -/
def layoutFits (l : WidgetLayout) : Bool := ¬(l.x < 0 ∨ l.y < 0 ∨ l.w < 1 ∨ l.h < 1 ∨ 12 < l.x + l.w)

def checkLayout (l : WidgetLayout) : Except Error Unit :=
  if layoutFits l then .ok () else .error (invalid "bad_shape" "layout must fit the 12-column grid")

def addWidget (s : Store) (dashboardID : ℕ) (i : WidgetInput) : Except Error Store := do
  match i.type with
  | none => .error (invalid "bad_shape" "widget type is required")
  | some type =>
    if ¬widgetTypes.contains type then .error (invalid "bad_shape" "widget type is required")
    else
      let layout := i.layout.getD ⟨0, 0, 4, 3⟩
      checkLayout layout
      let vizOptions := match i.vizOptions with
        | none | some .null => .obj []
        | some v => v
      let w : Widget := ⟨s.next, type, i.title.getD [], i.query.getD .null, i.queryString, vizOptions, layout⟩
      rewrite { s with next := s.next + 1 } dashboardID fun d => .ok { d with widgets := d.widgets ++ [w] }

/-- A widget with the fields that are given. -/
def patchWidget (w : Widget) (i : WidgetInput) : Except Error Widget := do
  let type := i.type.getD w.type
  if ¬widgetTypes.contains type then .error (invalid "bad_shape" "unknown widget type")
  else
    let layout := i.layout.getD w.layout
    checkLayout layout
    .ok { w with
      type := type, title := i.title.getD w.title, query := i.query.getD w.query, queryString := i.queryString.or w.queryString
      vizOptions := i.vizOptions.getD w.vizOptions, layout := layout }

def updateWidget (s : Store) (dashboardID id : ℕ) (i : WidgetInput) : Except Error Store :=
  rewrite s dashboardID fun d =>
    match d.widgets.find? fun w => w.id = id with
    | none => .error (notFound "widget")
    | some w => do
      let w' ← patchWidget w i
      .ok { d with widgets := d.widgets.map fun v => if v.id = id then w' else v }

def deleteWidget (s : Store) (dashboardID id : ℕ) : Except Error Store :=
  rewrite s dashboardID fun d =>
    if d.widgets.any fun w => w.id = id then .ok { d with widgets := d.widgets.filter fun w => w.id ≠ id }
    else .error (notFound "widget")

/-! ## Runs -/

inductive Call where
  | createDashboard (name : Text)
  | updateDashboard (id : ℕ) (i : DashboardInput)
  | deleteDashboard (id : ℕ)
  | addWidget (dashboardID : ℕ) (i : WidgetInput)
  | updateWidget (dashboardID id : ℕ) (i : WidgetInput)
  | deleteWidget (dashboardID id : ℕ)

def handle (s : Store) : Call → Except Error Store
  | .createDashboard name => createDashboard s name
  | .updateDashboard id i => updateDashboard s id i
  | .deleteDashboard id => deleteDashboard s id
  | .addWidget dashboardID i => addWidget s dashboardID i
  | .updateWidget dashboardID id i => updateWidget s dashboardID id i
  | .deleteWidget dashboardID id => deleteWidget s dashboardID id

/-- A call that fails leaves the store as it is. -/
def step (s : Store) (c : Call) : Store :=
  match handle s c with
  | .ok s' => s'
  | .error _ => s

def empty : Store := ⟨0, []⟩

/-! ## What is stored of a widget -/

structure Accepted (w : Widget) : Prop where
  type : w.type ∈ widgetTypes
  layout : layoutFits w.layout = true

def Sound (s : Store) : Prop := ∀ d ∈ s.dashboards, ∀ w ∈ d.widgets, Accepted w

theorem rewrite_sound {s s' : Store} {id : ℕ} {f : Dashboard → Except Error Dashboard} (h : Sound s)
    (hf : ∀ d d', f d = .ok d' → (∀ w ∈ d.widgets, Accepted w) → ∀ w ∈ d'.widgets, Accepted w) (hs : rewrite s id f = .ok s') : Sound s' := by
  rw [rewrite] at hs
  split at hs
  · cases hs
  · rename_i d hfind
    split at hs
    · cases hs
    · rename_i d' hd
      obtain rfl := Except.ok.inj hs
      intro e he
      obtain ⟨e', he', rfl⟩ := List.mem_map.mp he
      split
      · exact hf d d' hd (h d (List.mem_of_find?_eq_some hfind))
      · exact h e' he'

theorem patchWidget_accepted {w w' : Widget} {i : WidgetInput} (h : patchWidget w i = .ok w') : Accepted w' := by
  simp only [patchWidget] at h
  split at h
  · cases h
  · rename_i htype
    rw [checkLayout] at h
    split at h
    · rename_i hlayout
      obtain rfl := Except.ok.inj h
      exact ⟨List.contains_iff_mem.mp (not_not.mp htype), hlayout⟩
    · cases h

theorem createDashboard_sound {s s' : Store} {name : Text} (h : Sound s) (hs : createDashboard s name = .ok s') : Sound s' := by
  simp only [createDashboard] at hs
  split at hs
  · cases hs
  split at hs
  · cases hs
  · obtain rfl := Except.ok.inj hs
    intro d hd w hw
    rcases List.mem_append.mp hd with hd | hd
    · exact h d hd w hw
    · rw [List.mem_singleton.mp hd] at hw
      cases hw

theorem updateDashboard_sound {s s' : Store} {id : ℕ} {i : DashboardInput} (h : Sound s) (hs : updateDashboard s id i = .ok s') : Sound s' := by
  apply rewrite_sound h _ hs
  intro d d' hd hwidgets
  simp only at hd
  split at hd
  · cases hd
  · obtain rfl := Except.ok.inj hd
    exact hwidgets

theorem deleteDashboard_sound {s s' : Store} {id : ℕ} (h : Sound s) (hs : deleteDashboard s id = .ok s') : Sound s' := by
  rw [deleteDashboard] at hs
  split at hs
  · obtain rfl := Except.ok.inj hs
    intro d hd
    exact h d (List.mem_of_mem_filter hd)
  · cases hs

theorem addWidget_sound {s s' : Store} {dashboardID : ℕ} {i : WidgetInput} (h : Sound s) (hs : addWidget s dashboardID i = .ok s') :
    Sound s' := by
  simp only [addWidget] at hs
  split at hs
  · cases hs
  split at hs
  · cases hs
  rename_i type _ htype
  rw [checkLayout] at hs
  split at hs
  · rename_i hlayout
    simp only [bind, Except.bind] at hs
    refine rewrite_sound (s := { s with next := s.next + 1 }) h ?_ hs
    intro d d' hd hwidgets w hw
    obtain rfl := Except.ok.inj hd
    rcases List.mem_append.mp hw with hw | hw
    · exact hwidgets w hw
    · rw [List.mem_singleton.mp hw]
      exact ⟨List.contains_iff_mem.mp (not_not.mp htype), hlayout⟩
  · cases hs

theorem updateWidget_sound {s s' : Store} {dashboardID id : ℕ} {i : WidgetInput} (h : Sound s)
    (hs : updateWidget s dashboardID id i = .ok s') : Sound s' := by
  apply rewrite_sound h _ hs
  intro d d' hd hwidgets w hw
  split at hd
  · cases hd
  · rename_i v _
    cases hpatch : patchWidget v i with
    | error e =>
      rw [hpatch] at hd
      cases hd
    | ok w' =>
      rw [hpatch] at hd
      obtain rfl := Except.ok.inj hd
      obtain ⟨u, hu, rfl⟩ := List.mem_map.mp hw
      split
      · exact patchWidget_accepted hpatch
      · exact hwidgets u hu

theorem deleteWidget_sound {s s' : Store} {dashboardID id : ℕ} (h : Sound s) (hs : deleteWidget s dashboardID id = .ok s') : Sound s' := by
  apply rewrite_sound h _ hs
  intro d d' hd hwidgets w hw
  split at hd
  · obtain rfl := Except.ok.inj hd
    exact hwidgets w (List.mem_of_mem_filter hw)
  · cases hd

theorem handle_sound {s s' : Store} {c : Call} (h : Sound s) (hs : handle s c = .ok s') : Sound s' := by
  cases c with
  | createDashboard name => exact createDashboard_sound h hs
  | updateDashboard id i => exact updateDashboard_sound h hs
  | deleteDashboard id => exact deleteDashboard_sound h hs
  | addWidget dashboardID i => exact addWidget_sound h hs
  | updateWidget dashboardID id i => exact updateWidget_sound h hs
  | deleteWidget dashboardID id => exact deleteWidget_sound h hs

theorem step_sound {s : Store} (h : Sound s) (c : Call) : Sound (step s c) := by
  rw [step]
  split
  · rename_i hs
    exact handle_sound h hs
  · exact h

/-- Whatever the calls, a stored widget is of a known type and fits the grid of the machine's integers. -/
theorem run_sound {s : Store} (h : Sound s) (cs : List Call) : Sound (run step s cs) := by
  induction cs generalizing s with
  | nil => exact h
  | cons c cs ih => exact ih (step_sound h c)

theorem empty_sound : Sound empty := by
  intro d hd
  cases hd

end Upstat.StoredDashboards
