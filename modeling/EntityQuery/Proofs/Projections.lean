import EntityQuery.Proofs.OneSession
import EntityQuery.Proofs.Plans
import EntityQuery.Proofs.Resolutions
import Mathlib.Data.List.DropRight
import Mathlib.Data.List.Forall2

/-!
# What a projection does to a plan

The last step of planning reads a list of paths and resolves them over the joins that are there.
`Text.listItems` and `Text.segments` say how the list is read, and `splitPaths_eq` that the planner
reads it so. A list of properties and a list of navigations are both followed along the list: one
element for each path of the first (`Scope.resolveProperties_columns`), and for the second one
element for each path that was not there before (`Scope.expandPaths_distinct`). Over sound joins a
path is resolved exactly when the model leads somewhere along it, so the second list can be fetched
exactly when that holds of each of its paths and none is too long (`Scope.expandPaths_ok_iff`).
`Planner.projection_effect` puts these together for every plan that is reached.
-/

namespace EntityQuery

/-! ## Lists of paths -/

namespace Text

/-- The pieces of a text between the separators, as the library has them. -/
theorem splitAt_eq_splitOn (sep : Char) (cs : List Char) : splitAt sep cs = cs.splitOn sep := by
  induction cs with
  | nil => rfl
  | cons c cs ih =>
    rw [splitAt, List.splitOn_eq_splitOnP, List.splitOnP_cons_eq_if_modifyHead,
      ← List.splitOn_eq_splitOnP, ih]
    simp only [beq_iff_eq]
    split
    · rfl
    · cases hpieces : cs.splitOn sep with
      | nil => exact absurd hpieces (List.splitOn_ne_nil sep cs)
      | cons piece pieces => rfl

/-- Nothing is left to be trimmed from a trimmed text. -/
theorem trim_trim (cs : List Char) : trim (trim cs) = trim cs := by
  have hprefix : trim cs <+: cs.dropWhile isBlank := List.rdropWhile_prefix isBlank _
  have hstart : (trim cs).dropWhile isBlank = trim cs := by
    cases htrim : trim cs with
    | nil => rfl
    | cons c rest =>
      -- The first character that is left was the first one before the other end was trimmed.
      obtain ⟨more, hmore⟩ := htrim ▸ hprefix
      have hfirst := List.head?_dropWhile_not isBlank cs
      rw [← hmore] at hfirst
      exact List.dropWhile_cons_of_neg (Bool.eq_false_iff.mp hfirst)
  calc trim (trim cs) = ((trim cs).dropWhile isBlank).rdropWhile isBlank := rfl
    _ = (trim cs).rdropWhile isBlank := by rw [hstart]
    _ = trim cs := List.rdropWhile_idempotent isBlank _

/-- The items of a list: what stands between commas, without the blanks around it. Blank ones do
not count. -/
def listItems (text : String) : List (List Char) :=
  ((text.toList.splitOn ',').map trim).filter (!·.isEmpty)

/-- The segments of an item: what stands between slashes, without the blanks around it. -/
def segments (item : List Char) : List String :=
  (item.splitOn '/').map fun segment => String.ofList (trim segment)

/-- An item has no blanks at its ends. -/
theorem trim_of_mem_listItems {text : String} {item : List Char} (h : item ∈ listItems text) :
    trim item = item := by
  obtain ⟨piece, -, rfl⟩ := List.mem_map.mp (List.mem_of_mem_filter h)
  exact trim_trim piece

/-- A star is the only segment of an item that is a star. -/
theorem segments_eq_star_iff {item : List Char} (htrim : trim item = item) :
    segments item = ["*"] ↔ item = ['*'] := by
  constructor
  · intro h
    obtain ⟨piece, hpieces, hpiece⟩ := List.map_eq_singleton_iff.mp h
    -- The item is its only piece.
    have hitem : item = piece := by
      have hjoined : ['/'].intercalate (item.splitOn '/') = item := List.intercalate_splitOn '/'
      rw [hpieces, List.intercalate_singleton] at hjoined
      exact hjoined.symm
    rw [← hitem, htrim] at hpiece
    exact String.ofList_injective hpiece
  · rintro rfl
    decide

end Text

/-- The paths of a list are the segments of its items. -/
theorem splitPaths_eq (text : String) :
    splitPaths text = (Text.listItems text).map Text.segments := by
  unfold splitPaths Text.listItems Text.segments
  simp only [Text.splitAt_eq_splitOn]

/-- Some paths select every column when an item is a star or there are no items. -/
theorem selectsAll_splitPaths (text : String) :
    Planner.selectsAll (splitPaths text) = true ↔
      ['*'] ∈ Text.listItems text ∨ Text.listItems text = [] := by
  rw [splitPaths_eq, Planner.selectsAll, Bool.or_eq_true, List.isEmpty_iff, List.map_eq_nil_iff,
    List.contains_iff_mem, List.mem_map, or_comm]
  refine or_congr_left ⟨?_, ?_⟩
  · rintro ⟨item, hmem, hsegments⟩
    rwa [← (Text.segments_eq_star_iff (Text.trim_of_mem_listItems hmem)).mp hsegments]
  · intro hmem
    exact ⟨_, hmem, rfl⟩

namespace Scope

variable {s : Scope} {plan plan' : JoinPlan}

/-! ## Navigations -/

/-- Over sound joins, paths can be fetched when none is too long and the model leads somewhere along
each of them. -/
theorem expandPaths_ok_iff (hplan : s.Sound plan) (items : List Expansion)
    (paths : List (List String)) :
    (∃ items' plan', s.expandPaths items paths plan = .ok items' plan') ↔
      ∀ path ∈ paths, path.length ≤ s.config.maxExpandDepth ∧
        ∃ target, s.metadata.Leads s.root path target := by
  induction paths generalizing items plan with
  | nil => exact iff_of_true ⟨items, plan, rfl⟩ (List.forall_mem_nil _)
  | cons path paths ih =>
    simp only [expandPaths_cons_ok, List.forall_mem_cons]
    constructor
    · rintro ⟨items', plan', hlength, place, plan₁, hresolve, hrest⟩
      have hplan₁ := hplan.grows ((s.resolve_moves path).ok hresolve)
      exact ⟨⟨hlength, place.entity, leads_of_resolve hplan hresolve⟩,
        (ih hplan₁ _).mp ⟨items', plan', hrest⟩⟩
    · rintro ⟨⟨hlength, target, hleads⟩, hpaths⟩
      obtain ⟨place, plan₁, hresolve, -⟩ :=
        resolve_of_walk hplan (Metadata.leads_iff_walk?.mp hleads)
      have hplan₁ := hplan.grows ((s.resolve_moves path).ok hresolve)
      obtain ⟨items', plan', hrest⟩ := (ih hplan₁ _).mpr hpaths
      exact ⟨items', plan', hlength, place, plan₁, hresolve, hrest⟩

/-- What is fetched has the paths that were there and the new ones, each once and in the order in
which they were first named. -/
theorem expandPaths_distinct {items items' : List Expansion} {paths : List (List String)}
    (hitems : (items.map (·.path)).eraseDups = items.map (·.path))
    (h : s.expandPaths items paths plan = .ok items' plan') :
    items'.map (·.path) = (items.map (·.path) ++ paths).eraseDups := by
  induction paths generalizing items plan with
  | nil =>
    obtain ⟨rfl, -⟩ := pure_eq_ok.mp h
    rw [List.append_nil, hitems]
  | cons path paths ih =>
    obtain ⟨-, place, plan₁, -, hrest⟩ := expandPaths_cons_ok.mp h
    have hany : items.any (·.path == path) = true ↔ path ∈ items.map (·.path) := by simp
    by_cases hmem : path ∈ items.map (·.path)
    · rw [if_pos (hany.mpr hmem)] at hrest
      rw [ih hitems hrest, eraseDups_append_cons_of_mem hmem]
    · rw [if_neg (hany.not.mpr hmem)] at hrest
      have hitems₁ := eraseDups_append_singleton hitems hmem
      have hpaths := ih (List.map_append.symm ▸ hitems₁) hrest
      rw [List.map_append, List.append_assoc] at hpaths
      exact hpaths

/-! ## Properties -/

/-- A column is what a path stands for: that of its last segment, at the place that the navigations
before it lead to. -/
def IsColumnOf (s : Scope) (joins : JoinPlan) (path : List String) (column : Scalar) : Prop :=
  ∃ navigations last place name, path = navigations ++ [last] ∧
    s.metadata.Leads s.root navigations place.entity ∧
    s.place? joins navigations = some place ∧ s.column? place last = some name ∧
    column = .column place.alias? name

/-- Properties resolve to one column each, in their order. -/
theorem resolveProperties_columns {paths : List (List String)} {columns : List Scalar}
    (hplan : s.Sound plan) (h : s.resolveProperties paths plan = .ok columns plan') :
    List.Forall₂ (s.IsColumnOf plan') paths columns := by
  induction paths generalizing plan columns with
  | nil =>
    obtain ⟨rfl, -⟩ := pure_eq_ok.mp h
    exact .nil
  | cons path paths ih =>
    obtain ⟨column, rest, plan₁, hcolumn, hrest, rfl⟩ := resolveProperties_cons_ok.mp h
    have hplan₁ := hplan.grows ((s.resolveProperty_moves path).ok hcolumn)
    obtain ⟨last, place, name, hlast, hresolve, hname, rfl⟩ := resolveProperty_ok hcolumn
    -- The joins of the other paths leave the place of this one where it is.
    have hgrows := (s.resolveProperties_moves paths).ok hrest
    refine .cons ⟨path.dropLast, last, place, name, ?_, leads_of_resolve hplan hresolve,
      place?_of_grows hgrows (resolve_ok hresolve), hname, rfl⟩ (ih hplan₁ hrest)
    exact (List.dropLast_append_getLast? last hlast).symm

end Scope

/-! ## Projections -/

namespace Planner

variable {planner : Planner} {entity : String} {plan plan' : QueryPlan}

/-- Navigations are fetched with the plan when their paths can be fetched over its joins. -/
theorem projection_expand_ok {expand : String} :
    planner.projection plan none (some expand) = .ok plan' ↔
      ∃ items joins, (planner.scope plan).expandPaths [] (splitPaths expand) plan.joins =
        .ok items joins ∧ plan' = { plan with joins, projection := .expand items } := by
  constructor
  · intro h
    cases projection_ok h with
    | expand hitems => exact ⟨_, _, hitems, rfl⟩
  · rintro ⟨items, joins, hitems, rfl⟩
    refine except_bind_eq_ok.mpr ⟨(items, plan.withSession { plan.session with joins }), ?_, rfl⟩
    exact continuing_ok.mpr ⟨_, onJoins_eq_ok.mpr ⟨joins, hitems, rfl⟩, rfl⟩

/-- A projection changes what is returned and adds joins, and leaves all else as it is. -/
theorem projection_keeps {select? expand? : Option String}
    (h : planner.projection plan select? expand? = .ok plan') :
    plan' = { plan with joins := plan'.joins, projection := plan'.projection } ∧
      plan.joins.steps <+: plan'.joins.steps := by
  refine ⟨?_, Scope.steps_grow (Step.projection h).extends.joins⟩
  cases projection_ok h with
  | nothing => rfl
  | all => rfl
  | columns => rfl
  | expand => rfl

/-- Over sound joins, navigations can be fetched when no item has too many segments and the model
leads somewhere along each. -/
theorem projection_expand_ok_iff (hplan : (planner.scope plan).Sound plan.joins) (expand : String) :
    (∃ plan', planner.projection plan none (some expand) = .ok plan') ↔
      ∀ item ∈ Text.listItems expand,
        (Text.segments item).length ≤ planner.config.maxExpandDepth ∧
        ∃ target, planner.metadata.Leads plan.root (Text.segments item) target := by
  have hpaths := Scope.expandPaths_ok_iff hplan [] (splitPaths expand)
  rw [splitPaths_eq, List.forall_mem_map, ← splitPaths_eq] at hpaths
  refine Iff.trans ?_ hpaths
  constructor
  · rintro ⟨plan', h⟩
    obtain ⟨items, joins, hitems, -⟩ := projection_expand_ok.mp h
    exact ⟨items, joins, hitems⟩
  · rintro ⟨items, joins, hitems⟩
    exact ⟨_, projection_expand_ok.mpr ⟨items, joins, hitems, rfl⟩⟩

/-- What is fetched are the paths of the items, each once, under the aliases of their joins. -/
theorem projection_expand_items {expand : String}
    (h : planner.projection plan none (some expand) = .ok plan') :
    ∃ items, plan'.projection = .expand items ∧
      items.map (·.path) = ((Text.listItems expand).map Text.segments).eraseDups ∧
      ∀ item ∈ items, plan'.joins.alias? item.path = some item.aliasName := by
  obtain ⟨items, joins, hitems, rfl⟩ := projection_expand_ok.mp h
  refine ⟨items, rfl, ?_, ?_⟩
  · rw [← splitPaths_eq]
    exact Scope.expandPaths_distinct rfl hitems
  · exact Scope.alias?_expandPaths (fun path => ne_nil_of_mem_splitPaths) (List.forall_mem_nil _)
      hitems

/-- A star or no item at all selects every column. -/
theorem projection_select_all {select : String}
    (hall : ['*'] ∈ Text.listItems select ∨ Text.listItems select = []) :
    planner.projection plan (some select) none = .ok { plan with projection := .all } :=
  if_pos ((selectsAll_splitPaths select).mpr hall)

/-- Other items select one column each. -/
theorem projection_select_columns {select : String} (hplan : (planner.scope plan).Sound plan.joins)
    (hall : ¬ (['*'] ∈ Text.listItems select ∨ Text.listItems select = []))
    (h : planner.projection plan (some select) none = .ok plan') :
    ∃ columns, plan'.projection = .columns columns ∧
      List.Forall₂ ((planner.scope plan).IsColumnOf plan'.joins)
        ((Text.listItems select).map Text.segments) columns := by
  cases projection_ok h with
  | all hselects => exact absurd ((selectsAll_splitPaths select).mp hselects) hall
  | columns _ hcolumns =>
    rw [← splitPaths_eq]
    exact ⟨_, rfl, Scope.resolveProperties_columns hplan hcolumns⟩

/-- What the step for a projection does to any plan that is reached. Navigations can be fetched
exactly when each item between commas has no more segments between slashes than the settings allow
and the model leads somewhere along them. What is fetched are then the distinct paths, in the order
in which they were first named and under the aliases that their joins are registered with. A star
among the items to select, or no item, selects all and leaves the joins as they are; other items are
listed as one column each, in their order. Whatever is asked for, all else of the plan is as before,
and joins are only appended. -/
theorem projection_effect (hreaches : planner.Reaches entity plan) :
    (∀ expand,
      ((∃ plan', planner.projection plan none (some expand) = .ok plan') ↔
        ∀ item ∈ Text.listItems expand,
          (Text.segments item).length ≤ planner.config.maxExpandDepth ∧
          ∃ target, planner.metadata.Leads plan.root (Text.segments item) target) ∧
      ∀ plan', planner.projection plan none (some expand) = .ok plan' →
        ∃ items, plan'.projection = .expand items ∧
          items.map (·.path) = ((Text.listItems expand).map Text.segments).eraseDups ∧
          ∀ item ∈ items, plan'.joins.alias? item.path = some item.aliasName) ∧
    (∀ select, ['*'] ∈ Text.listItems select ∨ Text.listItems select = [] →
      planner.projection plan (some select) none = .ok { plan with projection := .all }) ∧
    (∀ select, ¬ (['*'] ∈ Text.listItems select ∨ Text.listItems select = []) →
      ∀ plan', planner.projection plan (some select) none = .ok plan' →
        ∃ columns, plan'.projection = .columns columns ∧
          List.Forall₂ ((planner.scope plan).IsColumnOf plan'.joins)
            ((Text.listItems select).map Text.segments) columns) ∧
    ∀ select? expand? plan', planner.projection plan select? expand? = .ok plan' →
      plan' = { plan with joins := plan'.joins, projection := plan'.projection } ∧
        plan.joins.steps <+: plan'.joins.steps := by
  obtain ⟨-, -, hplan⟩ := hreaches.sound
  exact ⟨fun expand => ⟨projection_expand_ok_iff hplan expand, fun _ => projection_expand_items⟩,
    fun _ => projection_select_all, fun _ hall _ => projection_select_columns hplan hall,
    fun _ _ _ => projection_keeps⟩

end Planner

/-- After a filter on their totals, the orders of customers are fetched once with the items before
them, whatever blanks stand around the names and however often they are named; the joins of the
filter are still the first ones. Selected, the total is listed as often as it is named. -/
theorem Shop.orders_projected :
    ∃ plan, planner.Reaches "Customer" plan ∧ plan.joins.paths = [["orders"]] ∧
      (∃ expanded items,
        planner.projection plan none (some " orders / items,,orders , orders/items") =
          .ok expanded ∧
        expanded.projection = .expand items ∧
        items.map (·.path) = [["orders", "items"], ["orders"]] ∧
        expanded.predicate? = plan.predicate? ∧ plan.joins.steps <+: expanded.joins.steps) ∧
      planner.projection plan (some "name, *") none = .ok { plan with projection := .all } ∧
      ∃ selected columns,
        planner.projection plan (some "orders/total,name, orders / total") none = .ok selected ∧
        selected.projection = .columns columns ∧ columns.length = 3 := by
  have hok : (planner.start "Customer" >>= fun plan =>
      planner.filter plan (some largeOrder)).toOption.any (fun plan =>
        plan.joins.paths == [["orders"]] &&
          (planner.projection plan none (some " orders / items,,orders , orders/items")).isOk &&
          (planner.projection plan (some "orders/total,name, orders / total") none).isOk) =
      true := by decide +kernel
  obtain ⟨plan, hplan, hruns⟩ := exists_of_any hok
  simp only [Bool.and_eq_true, beq_iff_eq] at hruns
  obtain ⟨⟨hpaths, hexpand⟩, hselect⟩ := hruns
  obtain ⟨started, hstart, hfilter⟩ := except_bind_eq_ok.mp hplan
  have hreaches : planner.Reaches "Customer" plan :=
    ⟨started, hstart, .single (.filter hfilter)⟩
  obtain ⟨hnavigations, hall, hproperties, hkeeps⟩ := Planner.projection_effect hreaches
  refine ⟨plan, hreaches, hpaths, ?_, hall _ (.inl (by decide +kernel)), ?_⟩
  · obtain ⟨expanded, hexpanded⟩ := exists_of_isOk hexpand
    obtain ⟨items, hitems, hdistinct, -⟩ := (hnavigations _).2 expanded hexpanded
    obtain ⟨hsame, hjoins⟩ := hkeeps _ _ expanded hexpanded
    refine ⟨expanded, items, hexpanded, hitems, ?_, by rw [hsame], hjoins⟩
    rw [hdistinct]
    decide +kernel
  · obtain ⟨selected, hselected⟩ := exists_of_isOk hselect
    obtain ⟨columns, hcolumns, hlisted⟩ :=
      hproperties _ (by decide +kernel) selected hselected
    exact ⟨selected, columns, hselected, hcolumns, hlisted.length_eq.symm.trans (by decide +kernel)⟩

end EntityQuery
