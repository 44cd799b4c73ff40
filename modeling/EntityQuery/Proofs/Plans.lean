import EntityQuery.Model.Schema
import EntityQuery.Proofs.Columns
import EntityQuery.Proofs.References
import EntityQuery.Sample.Orders

/-!
# Well-formed plans

What holds of every plan that is reached, whatever steps were taken and in whatever order. A plan is
`WellFormed` when the parameters that it refers to are bound, its columns are resolved, and what it
expands has the alias of its join. Each step keeps this (`Step.wellFormed`): what the step compiles
is closed at the end of its run, and what was there before stays closed, since a step only adds
joins and parameters.

Against a schema more can be said of a column that is resolved. It is a field, also where it holds
the key of a navigation (`Schema.declares_of_column?`), and its alias tells of which entity type
(`Schema.isQualified_of_resolved`).
-/

namespace EntityQuery

/-! ## Expansions -/

/-- No path of a list of paths is empty. -/
theorem ne_nil_of_mem_splitPaths {text : String} {path : List String}
    (h : path ∈ splitPaths text) : path ≠ [] := by
  unfold splitPaths at h
  obtain ⟨item, -, rfl⟩ := List.mem_map.mp h
  rw [ne_eq, List.map_eq_nil_iff]
  exact Text.splitAt_ne_nil '/' item

/-- Joins that are appended do not change the alias of a path. -/
theorem JoinPlan.alias?_of_isPrefix {plan plan' : JoinPlan} (h : plan.steps <+: plan'.steps)
    {path : List String} {aliasName : String} (halias : plan.alias? path = some aliasName) :
    plan'.alias? path = some aliasName := by
  unfold alias? at halias ⊢
  obtain ⟨step, hget, rfl⟩ := Option.map_eq_some_iff.mp halias
  rw [get?_of_isPrefix h hget]
  rfl

namespace Scope

variable {s : Scope} {joins joins' : JoinPlan}

/-- The place of a path other than the root's has the alias of its join. -/
theorem alias?_of_place? {path : List String} {place : Place} (hpath : path ≠ [])
    (h : s.place? joins path = some place) :
    joins.alias? path = some (place.alias?.getD s.root) := by
  unfold place? at h
  rw [if_neg hpath] at h
  unfold JoinPlan.alias?
  obtain ⟨step, hget, rfl⟩ := Option.map_eq_some_iff.mp h
  rw [hget]
  rfl

/-- What is expanded has the alias of its join. -/
theorem alias?_expandPaths {items items' : List Expansion} {paths : List (List String)}
    (hpaths : ∀ path ∈ paths, path ≠ [])
    (hitems : ∀ item ∈ items, joins.alias? item.path = some item.aliasName)
    (h : s.expandPaths items paths joins = .ok items' joins') :
    ∀ item ∈ items', joins'.alias? item.path = some item.aliasName := by
  induction paths generalizing items joins with
  | nil =>
    obtain ⟨rfl, rfl⟩ := pure_eq_ok.mp h
    exact hitems
  | cons path paths ih =>
    obtain ⟨-, place, joins₁, hresolve, hrest⟩ := expandPaths_cons_ok.mp h
    obtain ⟨hpath, hpaths⟩ := List.forall_mem_cons.mp hpaths
    have hgrows := steps_grow ((s.resolve_moves path).ok hresolve)
    have hkeeps : ∀ item ∈ items, joins₁.alias? item.path = some item.aliasName :=
      fun item hmem => JoinPlan.alias?_of_isPrefix hgrows (hitems item hmem)
    refine ih hpaths ?_ hrest
    split
    · exact hkeeps
    · intro item hmem
      rcases List.mem_append.mp hmem with hmem | hmem
      · exact hkeeps item hmem
      · rw [List.mem_singleton.mp hmem]
        exact alias?_of_place? hpath (resolve_ok hresolve)

end Scope

/-! ## References -/

namespace Scope

variable {s : Scope} {t t' : Session}

/-- Names that are counted among those that a run binds are bound after it. -/
theorem subset_names_of_count {names : List String}
    (h : ∀ name, t'.binding.count name = t.binding.count name + names.count name) :
    names ⊆ t'.parameters.names := by
  intro name hmem
  have hpos : 0 < names.count name := List.count_pos_iff.mpr hmem
  have hcount : t'.parameters.names.count name = t.binding.count name + names.count name := h name
  apply List.count_pos_iff.mp
  omega

/-- What a compiled condition refers to is bound. -/
theorem references_condition {e : Expr} {p : Predicate} (h : s.condition e t = .ok p t') :
    p.parameters ⊆ t'.parameters.names :=
  subset_names_of_count (count_condition h)

/-- What compiled sort keys refer to is bound. -/
theorem references_sortKeys {keys : List OrderKey} {sortKeys : List SortKey}
    (h : s.sortKeys keys t = .ok sortKeys t') :
    (sortKeys.flatMap fun key => key.scalar.parameters) ⊆ t'.parameters.names :=
  subset_names_of_count (count_sortKeys h)

end Scope

/-! ## Plans -/

namespace Planner

variable {planner : Planner} {plan plan' : QueryPlan}

/-- A plan is closed. -/
structure WellFormed (planner : Planner) (plan : QueryPlan) : Prop where
  /-- The parameters that it refers to are bound. -/
  references : plan.references ⊆ plan.parameters.names
  /-- Its columns are resolved. -/
  columns : ∀ column ∈ plan.columns, (planner.scope plan).Resolved plan.joins column
  /-- What it expands has the alias of its join. -/
  expansions : ∀ item ∈ plan.projection.expansions,
    plan.joins.alias? item.path = some item.aliasName

/-- A plan that asks for nothing is well-formed. -/
theorem wellFormed_empty (planner : Planner) (entity : String) (root? : Option String) :
    planner.WellFormed (.empty entity root?) :=
  ⟨List.nil_subset _, fun _ h => (List.not_mem_nil h).elim, fun _ h => (List.not_mem_nil h).elim⟩

namespace Extends

variable (h : planner.Extends plan plan')

include h

/-- Names that are bound stay bound. -/
theorem names_subset : plan.parameters.names ⊆ plan'.parameters.names :=
  (h.parameters.map _).subset

/-- Columns that are resolved stay so. -/
theorem resolved {column : Option String × String}
    (hcolumn : (planner.scope plan).Resolved plan.joins column) :
    (planner.scope plan').Resolved plan'.joins column := by
  have hscope : planner.scope plan' = planner.scope plan := by
    unfold scope
    rw [h.root]
  rw [hscope]
  exact hcolumn.grows h.joins

/-- What is expanded keeps the alias of its join. -/
theorem alias? {path : List String} {aliasName : String}
    (halias : plan.joins.alias? path = some aliasName) :
    plan'.joins.alias? path = some aliasName :=
  JoinPlan.alias?_of_isPrefix (Scope.steps_grow h.joins) halias

/-- A plan that goes on from a well-formed one is well-formed when what is new in it is closed: the
parameters, columns and expansions that the plan before did not have. -/
theorem wellFormed (hplan : planner.WellFormed plan)
    (hreferences : ∀ name ∈ plan'.references,
      name ∈ plan.references ∨ name ∈ plan'.parameters.names)
    (hcolumns : ∀ column ∈ plan'.columns,
      column ∈ plan.columns ∨ (planner.scope plan').Resolved plan'.joins column)
    (hexpansions : ∀ item ∈ plan'.projection.expansions,
      item ∈ plan.projection.expansions ∨ plan'.joins.alias? item.path = some item.aliasName) :
    planner.WellFormed plan' where
  references name hmem := by
    rcases hreferences name hmem with hold | hnew
    · exact h.names_subset (hplan.references hold)
    · exact hnew
  columns column hmem := by
    rcases hcolumns column hmem with hold | hnew
    · exact h.resolved (hplan.columns column hold)
    · exact hnew
  expansions item hmem := by
    rcases hexpansions item hmem with hold | hnew
    · exact h.alias? (hplan.expansions item hold)
    · exact hnew

end Extends

/-- Every step keeps a plan well-formed. -/
theorem Step.wellFormed (h : planner.Step plan plan') (hplan : planner.WellFormed plan) :
    planner.WellFormed plan' := by
  have hextends := h.extends
  cases h with
  | filter h =>
    rename_i e?
    cases e? with
    | none =>
      rw [filter_none_ok h]
      exact hplan
    | some e =>
      obtain ⟨p, t, hcondition, rfl⟩ := filter_some_ok h
      -- The new condition takes the place of the old one, whose parameters stay bound.
      refine hextends.wellFormed hplan ?_ ?_ fun item hmem => .inl hmem
      · intro name hmem
        rcases List.mem_append.mp hmem with hmem | hmem
        · exact .inr (Scope.references_condition hcondition hmem)
        · exact .inl (List.mem_append_right _ hmem)
      · intro column hmem
        unfold QueryPlan.columns at hmem ⊢
        rw [List.append_assoc] at hmem ⊢
        rcases List.mem_append.mp hmem with hmem | hmem
        · exact .inr (Scope.resolved_condition hcondition column hmem)
        · exact .inl (List.mem_append_right _ hmem)
  | orderBy h =>
    obtain ⟨sortKeys, t, hsortKeys, rfl⟩ := orderBy_ok h
    refine hextends.wellFormed hplan ?_ ?_ fun item hmem => .inl hmem
    · intro name hmem
      unfold QueryPlan.references at hmem ⊢
      dsimp only at hmem
      rw [List.flatMap_append, ← List.append_assoc] at hmem
      rcases List.mem_append.mp hmem with hmem | hmem
      · exact .inl hmem
      · exact .inr (Scope.references_sortKeys hsortKeys hmem)
    · intro column hmem
      unfold QueryPlan.columns at hmem ⊢
      dsimp only at hmem
      rw [List.flatMap_append] at hmem
      simp only [List.mem_append] at hmem ⊢
      rcases hmem with (hmem | hmem | hmem) | hmem
      · exact .inl (.inl (.inl hmem))
      · exact .inl (.inl (.inr hmem))
      · exact .inr (Scope.resolved_sortKeys hsortKeys column hmem)
      · exact .inl (.inr hmem)
  | paging h =>
    obtain ⟨first?, max?, rfl⟩ := paging_ok h
    exact ⟨hplan.references, hplan.columns, hplan.expansions⟩
  | projection h =>
    cases projection_ok h with
    | nothing => exact hplan
    | all hall =>
      refine hextends.wellFormed hplan (fun name hmem => .inl hmem) ?_ ?_
      · intro column hmem
        rcases List.mem_append.mp hmem with hmem | hmem
        · exact .inl (List.mem_append_left _ hmem)
        · exact (List.not_mem_nil hmem).elim
      · intro item hmem
        exact (List.not_mem_nil hmem).elim
    | columns hall hcolumns =>
      refine hextends.wellFormed hplan (fun name hmem => .inl hmem) ?_ ?_
      · intro column hmem
        rcases List.mem_append.mp hmem with hmem | hmem
        · exact .inl (List.mem_append_left _ hmem)
        · exact .inr (Scope.resolved_resolveProperties hcolumns column hmem)
      · intro item hmem
        exact (List.not_mem_nil hmem).elim
    | expand hitems =>
      refine hextends.wellFormed hplan (fun name hmem => .inl hmem) ?_ ?_
      · intro column hmem
        rcases List.mem_append.mp hmem with hmem | hmem
        · exact .inl (List.mem_append_left _ hmem)
        · exact (List.not_mem_nil hmem).elim
      · intro item hmem
        refine .inr (Scope.alias?_expandPaths (fun path => ne_nil_of_mem_splitPaths) ?_ hitems
          item hmem)
        intro item hmem
        exact (List.not_mem_nil hmem).elim

/-- Every plan that is reached is well-formed. -/
theorem Reaches.wellFormed {entity : String} (h : planner.Reaches entity plan) :
    planner.WellFormed plan := by
  obtain ⟨started, hstart, hsteps⟩ := h
  obtain ⟨-, rfl⟩ := start_ok hstart
  induction hsteps with
  | refl => exact wellFormed_empty planner entity _
  | tail _ hstep ih => exact hstep.wellFormed ih

end Planner

/-! ## Plans against a schema -/

namespace Schema

variable {schema : Schema}

/-- A schema declares a field of an entity type. -/
def Declares (schema : Schema) (entity name : String) : Prop :=
  ∃ e, schema.entity? entity = some e ∧ e.hasField name = true

/-- The column that holds the key of a navigation is a field. -/
theorem hasField_of_keyRule {rule : KeyRule} {e : EntityType} {r : Relation} {name : String}
    (h : rule.column? e r = some name) : e.hasField name = true := by
  have hdeclared : ∀ {name : String}, KeyRule.declaredColumn? e r = some name →
      e.hasField name = true := by
    intro name h
    exact (Option.filter_eq_some_iff.mp h).2
  cases rule with
  | declared => exact hdeclared h
  | suffix text =>
    unfold KeyRule.column? at h
    dsimp only at h
    cases hcolumn : KeyRule.declaredColumn? e r with
    | some column =>
      rw [hcolumn] at h
      cases h
      exact hdeclared hcolumn
    | none =>
      rw [hcolumn, Option.orElse_none] at h
      split at h
      next =>
        -- The field that is found has the name that it was looked up under.
        obtain ⟨field, hfield, rfl⟩ := Option.map_eq_some_iff.mp h
        have hname := List.find?_some hfield
        rw [beq_iff_eq] at hname
        unfold EntityType.hasField
        rw [hname, hfield]
        rfl
      next => cases h

/-- The column that a property stands for is a declared field of the entity type. -/
theorem declares_of_column? {s : Scope} (hs : s.metadata = schema.metadata) {place : Place}
    {property name : String} (h : s.column? place property = some name) :
    schema.Declares place.entity name := by
  unfold Scope.column? at h
  rw [hs] at h
  split at h
  next hscalar =>
    cases h
    exact (Option.any_eq_true _ _).mp hscalar
  next =>
    split at h
    next =>
      obtain ⟨e, he, hkey⟩ := Option.bind_eq_some_iff.mp h
      obtain ⟨r, hr, hcolumn⟩ := Option.bind_eq_some_iff.mp hkey
      exact ⟨e, he, hasField_of_keyRule hcolumn⟩
    next => cases h

/-- An alias qualifies a column of a plan: it is the alias of the root or of a join, and then the
column is a declared field of the entity type that it stands for. -/
structure IsQualified (schema : Schema) (plan : QueryPlan) (column : Option String × String) :
    Prop where
  /-- The alias is that of the root or of a join. -/
  known : column.1 = plan.rootAlias? ∨ ∃ step ∈ plan.joins.steps, column.1 = some step.aliasName
  /-- Under the alias of the root it is a field of the root. -/
  root : column.1 = plan.rootAlias? → schema.Declares plan.root column.2
  /-- Under the alias of a join it is a field of what the join leads to. -/
  join : ∀ step ∈ plan.joins.steps, column.1 = some step.aliasName →
    schema.Declares step.target column.2

/-- A resolved column is qualified, when the joins are sound: no other join has its alias. -/
theorem isQualified_of_resolved {config : Config} {plan : QueryPlan}
    {column : Option String × String} (hroot : plan.rootAlias? = config.rootAlias?)
    (hsound : (Planner.scope ⟨schema.metadata, config⟩ plan).Sound plan.joins)
    (h : (Planner.scope ⟨schema.metadata, config⟩ plan).Resolved plan.joins column) :
    schema.IsQualified plan column := by
  obtain ⟨path, place, property, hplace, halias, hname⟩ := h
  have hdeclares := declares_of_column? rfl hname
  have hjoins : ∀ step ∈ plan.joins.steps, plan.rootAlias? ≠ some step.aliasName := by
    intro step hmem
    rw [hroot]
    exact hsound.root_not_mem step.aliasName (List.mem_map_of_mem hmem)
  unfold Scope.place? at hplace
  split at hplace
  next =>
    -- The column is one of the root.
    cases hplace
    have halias : column.1 = plan.rootAlias? := halias.trans hroot.symm
    refine ⟨.inl halias, fun _ => hdeclares, ?_⟩
    intro step hmem hstep
    exact absurd (halias.symm.trans hstep) (hjoins step hmem)
  next =>
    -- The column is one of a join, and no other join has the same alias.
    obtain ⟨step, hget, rfl⟩ := Option.map_eq_some_iff.mp hplace
    obtain ⟨hmem, -⟩ := JoinPlan.get?_eq_some hget
    refine ⟨.inr ⟨step, hmem, halias⟩, ?_, ?_⟩
    · intro hrootAlias
      exact absurd (hrootAlias.symm.trans halias) (hjoins step hmem)
    · intro other hother hotherAlias
      have hsame : other.aliasName = step.aliasName :=
        Option.some.inj (hotherAlias.symm.trans halias)
      rw [List.inj_on_of_nodup_map hsound.aliases_nodup hother hmem hsame]
      exact hdeclares

/-- Every plan that is reached against a schema is closed and well-formed, whatever steps were taken
and in whatever order: the parameters that it refers to are bound, its columns are qualified by the
alias of the root or of a join and declared for the entity type that this alias stands for, and what
it expands has the alias of the join of its path. -/
theorem reaches_closed {config : Config} {entity : String} {plan : QueryPlan}
    (h : Planner.Reaches ⟨schema.metadata, config⟩ entity plan) :
    plan.root = entity ∧ plan.rootAlias? = config.rootAlias? ∧
      (∀ name ∈ plan.references, name ∈ plan.parameters.names) ∧
      (∀ column ∈ plan.columns, schema.IsQualified plan column) ∧
      ∀ item ∈ plan.projection.expansions,
        plan.joins.alias? item.path = some item.aliasName := by
  obtain ⟨hroot, hrootAlias, hsound⟩ := h.sound
  have hplan := h.wellFormed
  refine ⟨hroot, hrootAlias, hplan.references, ?_, hplan.expansions⟩
  intro column hmem
  exact isQualified_of_resolved hrootAlias hsound (hplan.columns column hmem)

end Schema

/-- The plan of the sample query is closed, also when its filter is given once more. -/
theorem Shop.largeOrders_closed :
    ∃ plan, planner.Reaches "Customer" plan ∧ plan.root = "Customer" ∧ plan.rootAlias? = none ∧
      (∀ name ∈ plan.references, name ∈ plan.parameters.names) ∧
      (∀ column ∈ plan.columns, schema.IsQualified plan column) ∧
      ∀ item ∈ plan.projection.expansions,
        plan.joins.alias? item.path = some item.aliasName := by
  have hok : (do
      let plan ← planner.assemble "Customer" largeOrders
      planner.filter plan largeOrders.filter).isOk = true := by decide +kernel
  obtain ⟨plan, h⟩ := exists_of_isOk hok
  obtain ⟨assembled, hassemble, hfilter⟩ := except_bind_eq_ok.mp h
  obtain ⟨started, hstart, hsteps⟩ := Planner.assemble_reaches hassemble
  have hreaches : planner.Reaches "Customer" plan :=
    ⟨started, hstart, hsteps.tail (.filter hfilter)⟩
  exact ⟨plan, hreaches, Schema.reaches_closed hreaches⟩

end EntityQuery
