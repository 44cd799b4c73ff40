import EntityQuery.Proofs.Steps
import EntityQuery.Sample.Orders

/-!
# Navigations and joins

Which joins a query gets. The navigations of an expression are those of all the properties in it,
each without its last segment, and `JoinPlan.Registers` says that a run adds joins for the
non-empty prefixes of some navigations and for nothing else. Resolving a property registers its
navigations (`Scope.registers_resolveProperty`), compiling an expression those of the expression
(`Scope.registers_visit`), and the options of a query each add theirs.
-/

namespace EntityQuery

/-- The navigations of the properties in an expression: their segments before the last one. -/
def Expr.navigations : Expr → List (List String)
  | .logical _ left right | .arithmetic _ left right | .relational _ left right =>
    left.navigations ++ right.navigations
  | .unary _ operand => operand.navigations
  | .property path _ => [path.dropLast]
  | .call _ args => navigationsOfAll args
  | .constant _ _ => []
where
  /-- The navigations of the properties in some expressions. -/
  navigationsOfAll : List Expr → List (List String)
    | [] => []
    | e :: es => e.navigations ++ navigationsOfAll es

/-- The navigations of properties to select; none when every column is. -/
def navigationsOfSelect (text : String) : List (List String) :=
  if ["*"] ∈ splitPaths text then [] else (splitPaths text).map List.dropLast

/-- The navigations that the options of a query refer to: those of the condition, of the sort keys
and of the properties to select, and the paths to expand. -/
def QueryOptions.navigations (o : QueryOptions) : List (List String) :=
  o.filter.elim [] Expr.navigations ++ o.orderBy.flatMap (fun key => key.expr.navigations) ++
    o.select.elim [] navigationsOfSelect ++ o.expand.elim [] splitPaths

/-- The paths that are joined, from one plan to another, are those that were joined before and the
non-empty prefixes of navigations. -/
def JoinPlan.Registers (navigations : List (List String)) (plan plan' : JoinPlan) : Prop :=
  ∀ path, path ∈ plan'.paths ↔
    path ∈ plan.paths ∨ path ≠ [] ∧ ∃ navigation ∈ navigations, path <+: navigation

namespace JoinPlan.Registers

variable {plan plan' plan'' : JoinPlan} {navigations navigations' : List (List String)}

/-- Doing nothing registers no navigations. -/
theorem refl (plan : JoinPlan) : Registers [] plan plan := by
  intro path
  constructor
  · exact .inl
  · rintro (h | ⟨-, navigation, h, -⟩)
    · exact h
    · exact (List.not_mem_nil h).elim

/-- One run after another registers the navigations of both. -/
theorem trans (h : Registers navigations plan plan') (h' : Registers navigations' plan' plan'') :
    Registers (navigations ++ navigations') plan plan'' := by
  intro path
  rw [h' path, h path, or_assoc, ← and_or_left]
  apply or_congr_right
  apply and_congr_right
  intro _
  constructor
  · rintro (⟨navigation, hmem, hpath⟩ | ⟨navigation, hmem, hpath⟩)
    · exact ⟨navigation, List.mem_append_left _ hmem, hpath⟩
    · exact ⟨navigation, List.mem_append_right _ hmem, hpath⟩
  · rintro ⟨navigation, hmem, hpath⟩
    rcases List.mem_append.mp hmem with hmem | hmem
    · exact .inl ⟨navigation, hmem, hpath⟩
    · exact .inr ⟨navigation, hmem, hpath⟩

end JoinPlan.Registers

namespace Scope

variable {s : Scope} {plan plan' : JoinPlan} {t t' : Session}

/-- Resolving a path registers it. -/
theorem registers_resolve {path : List String} {place : Place}
    (h : s.resolve path plan = .ok place plan') : JoinPlan.Registers [path] plan plan' := by
  intro p
  rw [mem_paths_resolve h]
  apply or_congr_right
  apply and_congr_right
  intro _
  constructor
  · intro hp
    exact ⟨path, List.mem_singleton_self path, hp⟩
  · rintro ⟨navigation, hmem, hp⟩
    rw [List.mem_singleton.mp hmem] at hp
    exact hp

/-- Resolving a property registers its navigations, and not its last segment. -/
theorem registers_resolveProperty {path : List String} {column : Scalar}
    (h : s.resolveProperty path plan = .ok column plan') :
    JoinPlan.Registers [path.dropLast] plan plan' := by
  obtain ⟨last, place, name, -, hresolve, -, -⟩ := resolveProperty_ok h
  exact registers_resolve hresolve

/-- Compiling an expression registers its navigations. -/
theorem registers_visit {depth : Nat} {e : Expr} {compiled : Compiled}
    (h : s.visit depth e t = .ok compiled t') :
    JoinPlan.Registers e.navigations t.joins t'.joins := by
  refine visit_ok_induct
    (M := fun e t _ t' => JoinPlan.Registers e.navigations t.joins t'.joins)
    (N := fun es t _ t' =>
      JoinPlan.Registers (Expr.navigations.navigationsOfAll es) t.joins t'.joins)
    ?constant ?property ?call ?negate ?not ?arithmetic ?logical ?relational ?nil ?cons h
  case constant =>
    intro value ty t _
    exact .refl _
  case property =>
    intro path ty t column joins hcolumn _
    exact registers_resolveProperty hcolumn
  -- What is lowered at a node does not touch the joins.
  case call =>
    intro f args t fragments t₁ compiled binding hargs _ _ _
    exact hargs
  case negate =>
    intro operand t compiled t₁ scalar binding hoperand _ _ _
    exact hoperand
  case not =>
    intro operand t compiled t₁ p binding hoperand _ _ _
    exact hoperand
  case arithmetic =>
    intro op left right t l t₁ r t₂ x b₁ y b₂ hleft _ hright _ _ _ _
    exact hleft.trans hright
  case logical =>
    intro op left right t l t₁ p b₁ r t₂ q b₂ hleft _ _ hright _ _ _
    exact hleft.trans hright
  case relational =>
    intro op left right t l t₁ r t₂ p binding hleft _ hright _ _ _
    exact hleft.trans hright
  case nil =>
    intro t
    exact .refl _
  case cons =>
    intro e es t compiled t₁ fragments t₂ he _ hes _
    exact he.trans hes

/-- Compiling a condition registers its navigations. -/
theorem registers_condition {e : Expr} {p : Predicate} (h : s.condition e t = .ok p t') :
    JoinPlan.Registers e.navigations t.joins t'.joins := by
  obtain ⟨compiled, t₁, binding, hvisit, -, rfl⟩ := condition_ok.mp h
  have hregisters := registers_visit hvisit
  exact hregisters

/-- Compiling a value registers its navigations. -/
theorem registers_value {e : Expr} {scalar : Scalar} (h : s.value e t = .ok scalar t') :
    JoinPlan.Registers e.navigations t.joins t'.joins := by
  obtain ⟨compiled, t₁, binding, hvisit, -, rfl⟩ := value_ok.mp h
  have hregisters := registers_visit hvisit
  exact hregisters

/-- Compiling sort keys registers the navigations of all of them. -/
theorem registers_sortKeys {keys : List OrderKey} {sortKeys : List SortKey}
    (h : s.sortKeys keys t = .ok sortKeys t') :
    JoinPlan.Registers (keys.flatMap fun key => key.expr.navigations) t.joins t'.joins := by
  induction keys generalizing t sortKeys with
  | nil =>
    obtain ⟨-, rfl⟩ := pure_eq_ok.mp h
    exact .refl _
  | cons key keys ih =>
    obtain ⟨scalar, rest, t₁, hscalar, hrest, -⟩ := sortKeys_cons_ok.mp h
    rw [List.flatMap_cons]
    exact (registers_value hscalar).trans (ih hrest)

/-- Resolving properties registers the navigations of all of them. -/
theorem registers_resolveProperties {paths : List (List String)} {columns : List Scalar}
    (h : s.resolveProperties paths plan = .ok columns plan') :
    JoinPlan.Registers (paths.map List.dropLast) plan plan' := by
  induction paths generalizing plan columns with
  | nil =>
    obtain ⟨-, rfl⟩ := pure_eq_ok.mp h
    exact .refl _
  | cons path paths ih =>
    obtain ⟨column, rest, plan₁, hcolumn, hrest, -⟩ := resolveProperties_cons_ok.mp h
    exact (registers_resolveProperty hcolumn).trans (ih hrest)

/-- Resolving paths to expand registers all of them, also those that are there already. -/
theorem registers_expandPaths {items items' : List Expansion} {paths : List (List String)}
    (h : s.expandPaths items paths plan = .ok items' plan') :
    JoinPlan.Registers paths plan plan' := by
  induction paths generalizing items plan with
  | nil =>
    obtain ⟨-, rfl⟩ := pure_eq_ok.mp h
    exact .refl _
  | cons path paths ih =>
    obtain ⟨-, place, plan₁, hresolve, hrest⟩ := expandPaths_cons_ok.mp h
    exact (registers_resolve hresolve).trans (ih hrest)

end Scope

namespace Planner

variable {planner : Planner} {plan plan' : QueryPlan}

/-- A filter registers the navigations of its condition. -/
theorem registers_filter {e? : Option Expr} (h : planner.filter plan e? = .ok plan') :
    JoinPlan.Registers (e?.elim [] Expr.navigations) plan.joins plan'.joins := by
  cases e? with
  | none =>
    rw [filter_none_ok h]
    exact .refl _
  | some e =>
    obtain ⟨p, t, hcondition, rfl⟩ := filter_some_ok h
    exact Scope.registers_condition hcondition

/-- Sort keys register the navigations of all of them. -/
theorem registers_orderBy {keys : List OrderKey} (h : planner.orderBy plan keys = .ok plan') :
    JoinPlan.Registers (keys.flatMap fun key => key.expr.navigations) plan.joins plan'.joins := by
  obtain ⟨sortKeys, t, hsortKeys, rfl⟩ := orderBy_ok h
  exact Scope.registers_sortKeys hsortKeys

/-- A projection registers the navigations of the properties that it selects, or the paths that it
expands. -/
theorem registers_projection {select? expand? : Option String}
    (h : planner.projection plan select? expand? = .ok plan') :
    JoinPlan.Registers (select?.elim [] navigationsOfSelect ++ expand?.elim [] splitPaths)
      plan.joins plan'.joins := by
  cases projection_ok h with
  | nothing => exact .refl _
  | all hall =>
    rename_i select
    -- Every column is selected when there is an asterisk, or no item at all.
    have hnone : navigationsOfSelect select = [] := by
      unfold selectsAll at hall
      unfold navigationsOfSelect
      rw [Bool.or_eq_true, List.isEmpty_iff, List.contains_iff_mem] at hall
      rcases hall with hempty | hstar
      · rw [hempty]
        exact if_neg List.not_mem_nil
      · exact if_pos hstar
    show JoinPlan.Registers (navigationsOfSelect select ++ []) plan.joins plan.joins
    rw [hnone]
    exact .refl _
  | columns hall hcolumns =>
    rename_i select columns joins
    have hsome : navigationsOfSelect select = (splitPaths select).map List.dropLast := by
      unfold selectsAll at hall
      unfold navigationsOfSelect
      rw [Bool.or_eq_false_iff, ← Bool.not_eq_true, ← Bool.not_eq_true,
        List.contains_iff_mem] at hall
      exact if_neg hall.2
    show JoinPlan.Registers (navigationsOfSelect select ++ []) plan.joins joins
    rw [hsome, List.append_nil]
    exact Scope.registers_resolveProperties hcolumns
  | expand hitems => exact Scope.registers_expandPaths hitems

/-- The joins of an assembled plan are the ones that are needed: the paths that are joined are the
non-empty prefixes of the navigations that the options refer to, and no path is joined twice. -/
theorem assemble_joins_minimal {entity : String} {o : QueryOptions}
    (h : planner.assemble entity o = .ok plan) :
    (∀ path, path ∈ plan.joins.paths ↔
      path ≠ [] ∧ ∃ navigation ∈ o.navigations, path <+: navigation) ∧
      plan.joins.paths.Nodup := by
  obtain ⟨started, filtered, ordered, paged, hstart, hfilter, horder, hpaging, hprojection⟩ :=
    assemble_ok h
  obtain ⟨-, rfl⟩ := start_ok hstart
  obtain ⟨first?, max?, rfl⟩ := paging_ok hpaging
  -- Paging is in between, and does not touch the joins.
  have hbefore := (registers_filter hfilter).trans (registers_orderBy horder)
  have hafter := registers_projection hprojection
  have hregisters : JoinPlan.Registers o.navigations .empty plan.joins := by
    unfold QueryOptions.navigations
    rw [List.append_assoc]
    exact hbefore.trans hafter
  refine ⟨fun path => ?_, (assemble_reaches h).sound.2.2.paths_nodup⟩
  rw [hregisters path]
  exact or_iff_right List.not_mem_nil

end Planner

/-- The joins of the sample query are the ones that it needs. -/
theorem Shop.largeOrders_joins_minimal :
    ∃ plan, planner.assemble "Customer" largeOrders = .ok plan ∧
      (∀ path, path ∈ plan.joins.paths ↔
        path ≠ [] ∧ ∃ navigation ∈ largeOrders.navigations, path <+: navigation) ∧
      plan.joins.paths.Nodup := by
  obtain ⟨plan, h⟩ := exists_of_isOk (show (planner.assemble "Customer" largeOrders).isOk = true by
    decide +kernel)
  exact ⟨plan, h, Planner.assemble_joins_minimal h⟩

end EntityQuery
