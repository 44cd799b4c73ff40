import EntityQuery.Proofs.Scalars
import EntityQuery.Proofs.Steps

/-!
# Columns

Where columns come from. A column is `Scope.Resolved` when it was found at a place that the joins
lead to, and stays so when joins are added (`Scope.Resolved.grows`). Only properties become columns,
so compilation keeps that all columns are resolved (`Scope.keeps_resolved`).
-/

open Relation (ReflTransGen)

namespace EntityQuery

/-- The columns of a scalar, each with the alias that qualifies it. -/
def Scalar.columns : Scalar → List (Option String × String)
  | .column alias? name => [(alias?, name)]
  | .parameter _ | .constant _ => []
  | .function _ args => columnsOfAll args
  | .arithmetic _ left right => left.columns ++ right.columns
  | .negate operand => operand.columns
where
  /-- The columns of some scalars. -/
  columnsOfAll : List Scalar → List (Option String × String)
    | [] => []
    | scalar :: scalars => scalar.columns ++ columnsOfAll scalars

/-- The columns of a predicate. -/
def Predicate.columns : Predicate → List (Option String × String)
  | .const _ => []
  | .and left right | .or left right => left.columns ++ right.columns
  | .not operand => operand.columns
  | .compare _ left right => left.columns ++ right.columns
  | .like value pattern => value.columns ++ pattern.columns
  | .isNull operand | .isNotNull operand => operand.columns

namespace Projection

/-- What a projection computes. -/
def scalars : Projection → List Scalar
  | .all | .expand _ => []
  | .columns scalars => scalars

/-- What a projection expands. -/
def expansions : Projection → List Expansion
  | .all | .columns _ => []
  | .expand items => items

end Projection

/-- The columns in the condition, the sort keys and the projection of a plan. -/
def QueryPlan.columns (plan : QueryPlan) : List (Option String × String) :=
  plan.predicate?.elim [] Predicate.columns ++
    plan.orderBy.flatMap (fun key => key.scalar.columns) ++
    plan.projection.scalars.flatMap Scalar.columns

/-- The columns of some scalars are those of each. -/
theorem Scalar.columnsOfAll_eq_flatMap (scalars : List Scalar) :
    Scalar.columns.columnsOfAll scalars = scalars.flatMap Scalar.columns := by
  induction scalars with
  | nil => rfl
  | cons scalar scalars ih => rw [Scalar.columns.columnsOfAll, ih, List.flatMap_cons]

/-- The columns of a predicate are those of the scalars that it is made of. -/
theorem Predicate.columns_eq_flatMap (p : Predicate) :
    p.columns = p.scalars.flatMap Scalar.columns := by
  induction p with
  | const => rfl
  | and left right ihl ihr | or left right ihl ihr =>
    rw [Predicate.columns, Predicate.scalars, List.flatMap_append, ihl, ihr]
  | not operand ih => exact ih
  | compare | like | isNull | isNotNull => simp [Predicate.columns, Predicate.scalars]

/-! ## Whole runs -/

namespace Scope

variable {s : Scope} {joins joins' : JoinPlan} {t t' : Session}

/-- A column was found at a place that the joins lead to, and has the alias of the place. -/
def Resolved (s : Scope) (joins : JoinPlan) (column : Option String × String) : Prop :=
  ∃ path place property, s.place? joins path = some place ∧ column.1 = place.alias? ∧
    s.column? place property = some column.2

/-- A column that is resolved stays so when joins are added. -/
theorem Resolved.grows {column : Option String × String} (h : s.Resolved joins column)
    (hgrows : ReflTransGen s.Adds joins joins') : s.Resolved joins' column := by
  obtain ⟨path, place, property, hplace, halias, hname⟩ := h
  exact ⟨path, place, property, place?_of_grows hgrows hplace, halias, hname⟩

/-- What a property resolves to is resolved. -/
theorem resolved_resolveProperty {path : List String} {scalar : Scalar}
    (h : s.resolveProperty path joins = .ok scalar joins') :
    ∀ column ∈ scalar.columns, s.Resolved joins' column := by
  obtain ⟨last, place, name, -, hresolve, hname, rfl⟩ := resolveProperty_ok h
  intro column hmem
  rw [List.mem_singleton.mp hmem]
  exact ⟨path.dropLast, place, last, resolve_ok hresolve, rfl, hname⟩

/-- What properties resolve to is resolved. -/
theorem resolved_resolveProperties {paths : List (List String)} {scalars : List Scalar}
    (h : s.resolveProperties paths joins = .ok scalars joins') :
    ∀ column ∈ scalars.flatMap Scalar.columns, s.Resolved joins' column := by
  induction paths generalizing joins scalars with
  | nil =>
    obtain ⟨rfl, -⟩ := pure_eq_ok.mp h
    intro column hmem
    exact (List.not_mem_nil hmem).elim
  | cons path paths ih =>
    obtain ⟨scalar, rest, plan₁, hscalar, hrest, rfl⟩ := resolveProperties_cons_ok.mp h
    have hgrows := (s.resolveProperties_moves paths).ok hrest
    intro column hmem
    rw [List.flatMap_cons] at hmem
    rcases List.mem_append.mp hmem with hmem | hmem
    · exact (resolved_resolveProperty hscalar column hmem).grows hgrows
    · exact ih hrest column hmem

/-- Compilation keeps that the columns of a scalar are resolved. -/
theorem keeps_resolved (s : Scope) :
    s.Keeps fun t x => ∀ column ∈ x.columns, s.Resolved t.joins column where
  grows h hx column hmem := (hx column hmem).grows (Session.joins_grow h)
  column h := resolved_resolveProperty h
  parameter _ := List.forall_mem_nil _
  constant _ _ := List.forall_mem_nil _
  function _ _ hargs column hmem := by
    rw [Scalar.columns, Scalar.columnsOfAll_eq_flatMap, List.mem_flatMap] at hmem
    obtain ⟨x, hx, hmem⟩ := hmem
    exact hargs x hx column hmem
  arithmetic _ _ _ hx hy := List.forall_mem_append.mpr ⟨hx, hy⟩
  negate hx := hx

/-- The columns of a compiled condition are resolved. -/
theorem resolved_condition {e : Expr} {p : Predicate} (h : s.condition e t = .ok p t') :
    ∀ column ∈ p.columns, s.Resolved t'.joins column := by
  intro column hmem
  rw [Predicate.columns_eq_flatMap, List.mem_flatMap] at hmem
  obtain ⟨x, hx, hmem⟩ := hmem
  exact s.keeps_resolved.condition h x hx column hmem

/-- The columns of a compiled value are resolved. -/
theorem resolved_value {e : Expr} {scalar : Scalar} (h : s.value e t = .ok scalar t') :
    ∀ column ∈ scalar.columns, s.Resolved t'.joins column :=
  s.keeps_resolved.value h

/-- The columns of compiled sort keys are resolved. -/
theorem resolved_sortKeys {keys : List OrderKey} {sortKeys : List SortKey}
    (h : s.sortKeys keys t = .ok sortKeys t') :
    ∀ column ∈ sortKeys.flatMap (fun key => key.scalar.columns), s.Resolved t'.joins column := by
  induction keys generalizing t sortKeys with
  | nil =>
    obtain ⟨rfl, -⟩ := pure_eq_ok.mp h
    intro column hmem
    exact (List.not_mem_nil hmem).elim
  | cons key keys ih =>
    obtain ⟨scalar, rest, t₁, hscalar, hrest, rfl⟩ := sortKeys_cons_ok.mp h
    have hgrows := Session.joins_grow ((s.sortKeys_gathers keys).moves.ok hrest)
    intro column hmem
    rw [List.flatMap_cons] at hmem
    rcases List.mem_append.mp hmem with hmem | hmem
    · exact (resolved_value hscalar column hmem).grows hgrows
    · exact ih hrest column hmem

end Scope

end EntityQuery
