import EntityQuery.Proofs.Plans
import EntityQuery.Proofs.TypedNames

/-!
# Property paths in typing and in planning

Typing walks a property path over the model, and planning resolves it over the joins that were left
behind before. Both get over the same navigations and refuse the same one (`Scope.walk_agrees`),
since over sound joins planning fails at the first segment that the model does not know
(`Scope.resolve_of_sound`). Then they ask for a column in different ways: typing for a type,
planning for a name. A model may answer the one and not the other, but a schema has a type for every
column that it names (`Schema.exists_field_of_column?`), so that on schemas the two agree on every
path (`Schema.property_path_agrees`).
-/

namespace EntityQuery

/-- Typing and planning refuse the same name on the same entity type, for the same reason. -/
inductive SameMistake : TypeError.Cause → PlanError → Prop
  /-- The segment is no navigation of the entity type. -/
  | navigation (entity segment : String) :
    SameMistake (.unknownNavigation entity segment) (.unknownNavigation entity segment)
  /-- The property stands for no column of the entity type. -/
  | property (entity property : String) :
    SameMistake (.unknownProperty entity property) (.unknownProperty entity property)

/-- Over sound joins, typing walks to the entity type of the place that navigations are resolved to,
or both refuse the same segment on the same entity type. -/
theorem Scope.walk_agrees {s : Scope} {plan : JoinPlan} (hplan : s.Sound plan)
    (path : List String) (span : Span) :
    (∃ place plan', s.resolve path plan = .ok place plan' ∧
      Typing.walk s.metadata span s.root path = .ok place.entity) ∨
    (∃ entity segment plan',
      s.resolve path plan = .error (.unknownNavigation entity segment) plan' ∧
      Typing.walk s.metadata span s.root path =
        .error ⟨.unknownNavigation entity segment, span⟩) := by
  rcases resolve_of_sound hplan path with
    ⟨place, plan', hwalk, hresolve⟩ |
    ⟨segment, rest, entity, plan', hsplit, hwalk, hunknown, hresolve⟩
  · refine .inl ⟨place, plan', hresolve, ?_⟩
    rw [← List.append_nil path]
    exact Typing.walk_append hwalk span []
  · refine .inr ⟨entity, segment, plan', hresolve, ?_⟩
    rw [hsplit, Typing.walk_append hwalk, Typing.walk, hunknown]

namespace Schema

variable {schema : Schema}

/-- The type of a declared field is known. -/
theorem scalarType?_of_field {entity name : String} {e : EntityType} {field : Field}
    (he : schema.entity? entity = some e) (hfield : e.field? name = some field) :
    schema.metadata.scalarType? entity name = some field.type := by
  show ((schema.entity? entity).bind (·.field? name)).map (·.type) = some field.type
  rw [he, Option.bind_some, hfield]
  rfl

/-- A column that a property stands for is a field of a schema, and so has a type. -/
theorem exists_field_of_column? {s : Scope} (hs : s.metadata = schema.metadata) {place : Place}
    {property column : String} (h : s.column? place property = some column) :
    ∃ e field, schema.entity? place.entity = some e ∧ e.field? column = some field ∧
      s.metadata.scalarType? place.entity column = some field.type := by
  obtain ⟨e, he, hhas⟩ := declares_of_column? hs h
  obtain ⟨field, hfield⟩ := Option.isSome_iff_exists.mp hhas
  exact ⟨e, field, he, hfield, hs ▸ scalarType?_of_field he hfield⟩

/-- On a schema, typing and planning agree on every property path, whatever was resolved before.
Either both succeed, and the path has the type of the field that planning finds for it on the
entity type that its navigations lead to, or both refuse the same name on the same entity type, for
the same reason. -/
theorem property_path_agrees (schema : Schema) (config : Config) (root : String)
    (resolutions : List Scope.Resolution) (path : List String) (span : Span) :
    let s : Scope := ⟨schema.metadata, root, config⟩
    let plan := s.joinsAfter resolutions
    (∃ ty place column plan' entity field,
      Typing.expr schema.metadata root (.path path span) = .ok (.property path ty) ∧
      s.resolveProperty path plan = .ok (.column place.alias? column) plan' ∧
      s.resolve path.dropLast plan = .ok place plan' ∧
      schema.metadata.Leads root path.dropLast place.entity ∧
      schema.entity? place.entity = some entity ∧ entity.field? column = some field ∧
      field.type = ty) ∨
    (∃ cause e plan',
      Typing.expr schema.metadata root (.path path span) = .error ⟨cause, span⟩ ∧
      s.resolveProperty path plan = .error e plan' ∧ SameMistake cause e) := by
  intro s plan
  have hplan : s.Sound plan := s.sound_joinsAfter resolutions
  rw [Typing.expr, Typing.pathType, Scope.resolveProperty]
  cases hlast : path.getLast? with
  | none => exact .inr ⟨_, _, plan, rfl, rfl, .property root ""⟩
  | some last =>
    dsimp only
    rcases Scope.walk_agrees hplan path.dropLast span with
      ⟨place, plan', hresolve, hwalk⟩ | ⟨entity, segment, plan', hresolve, hwalk⟩
    · -- What is left is the last segment, of the entity type that both have got to.
      have hleads := Scope.leads_of_resolve hplan hresolve
      rw [hwalk]
      cases hcolumn : s.column? place last with
      | some column =>
        obtain ⟨e, field, he, hfield, htype⟩ := exists_field_of_column? rfl hcolumn
        refine .inl ⟨field.type, place, column, plan', e, field, ?_, ?_, hresolve, hleads, he,
          hfield, rfl⟩
        · show (Typing.lastType s.metadata span place.entity last >>= _) = _
          rw [Typing.lastType_of_column hcolumn htype]
          rfl
        · refine bind_eq_ok.mpr ⟨place, plan', hresolve, ?_⟩
          rw [hcolumn]
          rfl
      | none =>
        refine .inr ⟨_, _, plan', ?_, ?_, .property place.entity last⟩
        · show (Typing.lastType s.metadata span place.entity last >>= _) = _
          rw [Typing.lastType_of_no_column hcolumn]
          rfl
        · refine bind_eq_error.mpr (.inr ⟨place, plan', hresolve, ?_⟩)
          rw [hcolumn]
          rfl
    · refine .inr ⟨_, _, plan', ?_, bind_eq_error.mpr (.inl hresolve), .navigation entity segment⟩
      rw [hwalk]
      rfl

end Schema

end EntityQuery
