import EntityQuery.Proofs.SchemaDocuments

/-!
# Fields that hold keys

A relation names a field of its source, which holds the key of the target where at most one entity
is reached. Schemas are read whether or not such a field is declared: all of them may be replaced
by any others (`Schema.check_withKeys`), and the schema is still read. What the field is for is left
to the rule for the columns of keys, which takes it where it is declared, and passes it over where
it is not (`Schema.loaded_keys`).
-/

namespace EntityQuery

/-- A natural number that is read has 64 bits. -/
theorem Json.lt_of_asNat64 {json : Json} {n : Nat} (h : asNat64 json = some n) :
    n < UInt64.size := by
  obtain ⟨i, hi, rfl⟩ := Option.map_eq_some_iff.mp h
  unfold asIntIn at hi
  split at hi
  next =>
    split at hi
    next hbounds =>
      cases hi
      have hsize : (0 : Int) < UInt64.size := by decide
      omega
    next => cases hi
  next => cases hi

/-- A field that is found has the name that was looked for. -/
theorem EntityType.map_field? (e : EntityType) (name : String) :
    (e.field? name).map (·.name) = if e.hasField name then some name else none := by
  unfold hasField
  cases hfield : e.field? name with
  | none => rfl
  | some field =>
    have hname : field.name = name := by simpa using List.find?_some hfield
    rw [Option.map_some, hname]
    rfl

namespace KeyRule

variable {e : EntityType} {r : Relation}

/-- The declared key of a relation that reaches at most one entity is its field in the source, where
there is one. -/
theorem declared_of_isSingle (h : r.isSingle = true) :
    declared.column? e r = if e.hasField r.sourceField then some r.sourceField else none := by
  show declaredColumn? e r = _
  unfold declaredColumn? Relation.sourceKey?
  rw [if_pos h]
  rfl

/-- Without a declared key, the rule with a suffix takes the field named for the relation. -/
theorem suffix_of_isSingle (h : r.isSingle = true) (text : String) :
    (suffix text).column? e r =
      if e.hasField r.sourceField then some r.sourceField
      else if e.hasField (r.name ++ text) then some (r.name ++ text) else none := by
  have hdeclared : declaredColumn? e r = _ := declared_of_isSingle h
  unfold column?
  dsimp only
  rw [hdeclared, if_pos h, e.map_field?]
  split
  next => rfl
  next => rfl

end KeyRule

namespace Schema

variable {s : Schema} {text : String}

/-- A schema that is read has a version of 64 bits and goes by the declared keys. -/
theorem version_of_ofText (h : ofText text = .ok s) :
    s.version < UInt64.size ∧ s.keyRule = .declared := by
  unfold ofText ofDocument at h
  split at h
  next => cases h
  next hread =>
    obtain ⟨_, -, hs⟩ := except_bind_eq_ok.mp h
    cases hs
    obtain ⟨json, -, hjson⟩ := Option.bind_eq_some_iff.mp hread
    unfold ofJson? at hjson
    split at hjson
    next version? _ _ _ =>
      obtain ⟨version, hversion, hjson⟩ := Option.bind_eq_some_iff.mp hjson
      obtain ⟨_, -, hjson⟩ := Option.bind_eq_some_iff.mp hjson
      obtain ⟨_, -, hjson⟩ := Option.bind_eq_some_iff.mp hjson
      cases hjson
      refine ⟨?_, rfl⟩
      cases version? with
      | none =>
        cases hversion
        show 0 < UInt64.size
        decide
      | some json => exact Json.lt_of_asNat64 hversion
    next => cases hjson

/-- A schema with other fields for the keys of the relations that reach at most one entity. -/
def withKeys (s : Schema) (key : Relation → String) : Schema :=
  { s with
    relations := s.relations.map fun r =>
      if r.isSingle then { r with sourceField := key r } else r }

/-- The check does not look at the fields that hold keys. -/
theorem check_withKeys (h : s.check = .ok ()) (key : Relation → String) :
    (s.withKeys key).check = .ok () := by
  rw [check_eq_ok] at h ⊢
  intro r' hr'
  obtain ⟨r, hr, rfl⟩ := List.mem_map.mp hr'
  obtain ⟨hsource, htarget⟩ := h r hr
  -- Neither the ends nor the name are other ones, and the entity types are the same.
  split
  · exact ⟨hsource, htarget⟩
  · exact ⟨hsource, htarget⟩

/-- The column of the key of a navigation is the one of the entity type and the relation that are
found. -/
theorem foreignKey?_of_found {entity name : String} {e : EntityType} {r : Relation}
    (he : s.entity? entity = some e) (hr : s.relation? entity name = some r) :
    s.metadata.foreignKey? entity name = s.keyRule.column? e r := by
  show (s.entity? entity).bind (fun e => (s.relation? entity name).bind (s.keyRule.column? e)) = _
  rw [he, hr, Option.bind_some, Option.bind_some]

/-- A schema that is read knows the two ends of every relation. The fields that hold the keys of
relations to at most one entity may be any, declared or not: with others the schema is read all the
same. The column of such a key is the field where the source declares it. Where the source does not,
there is none by the declared keys, and by the rule with a suffix it is the field named for the
relation, if there is one. -/
theorem loaded_keys (h : ofText text = .ok s) :
    (∀ r ∈ s.relations, (∃ e, s.entity? r.source = some e) ∧ ∃ e, s.entity? r.target = some e) ∧
    (∀ key, ofText (s.withKeys key).toText = .ok (s.withKeys key)) ∧
    ∀ entity name e r, s.entity? entity = some e → s.relation? entity name = some r →
      r.isSingle = true →
      s.metadata.foreignKey? entity name =
        (if e.hasField r.sourceField then some r.sourceField else none) ∧
      ∀ suffix, { s with keyRule := .suffix suffix }.metadata.foreignKey? entity name =
        if e.hasField r.sourceField then some r.sourceField
        else if e.hasField (name ++ suffix) then some (name ++ suffix) else none := by
  have hcheck := check_of_ofText h
  obtain ⟨hversion, hrule⟩ := version_of_ofText h
  refine ⟨fun r hr => ?_, fun key => ?_, fun entity name e r he hr hsingle => ?_⟩
  · obtain ⟨⟨e, he, -⟩, htarget⟩ := check_eq_ok.mp hcheck r hr
    exact ⟨⟨e, he⟩, htarget⟩
  · have hversion' : (s.withKeys key).version < UInt64.size := hversion
    have hrule' : (s.withKeys key).keyRule = .declared := hrule
    rw [ofText_toText hversion', check_withKeys hcheck key, ← hrule']
    rfl
  · obtain ⟨-, -, hname⟩ := relation?_eq_some hr
    constructor
    · rw [foreignKey?_of_found he hr, hrule, KeyRule.declared_of_isSingle hsingle]
    · intro suffix
      have hcolumn : { s with keyRule := .suffix suffix }.metadata.foreignKey? entity name =
          (KeyRule.suffix suffix).column? e r := foreignKey?_of_found he hr
      rw [hcolumn, KeyRule.suffix_of_isSingle hsingle, hname]

end Schema

namespace Shop

/-- Orders with a courier, for which no field is named: its key is in the field that the rule with a
suffix finds. -/
def couriers : Schema where
  version := 1
  entities :=
    [⟨"Order", "id", [⟨"id", .int64, false⟩, ⟨"courier_id", .int64, true⟩]⟩,
     ⟨"Courier", "id", [⟨"id", .int64, false⟩]⟩]
  relations := [⟨"courier", "Order", "Courier", .manyToOne, "", "id", none⟩]
  keyRule := .declared

theorem ofText_couriers : Schema.ofText couriers.toText = .ok couriers := by
  have hversion : couriers.version < UInt64.size := by decide
  rw [Schema.ofText_toText hversion]
  rfl

/-- The schema with the couriers is read, and no entity type of the name of a relation's source
declares the field that the relation names. -/
theorem couriers_undeclared :
    Schema.ofText couriers.toText = .ok couriers ∧
      ∃ r ∈ couriers.relations, ∀ e ∈ couriers.entities, e.name = r.source →
        ∀ field ∈ e.fields, field.name ≠ r.sourceField :=
  ⟨ofText_couriers, _, List.mem_singleton_self _, by decide⟩

/-- The schema with the couriers is read also with another field in place of the empty one. The key
of a courier has no column by the declared keys, and its own one by the rule with a suffix. -/
theorem couriers_keys :
    let renamed := couriers.withKeys fun _ => "id"
    Schema.ofText couriers.toText = .ok couriers ∧ Schema.ofText renamed.toText = .ok renamed ∧
      couriers.metadata.foreignKey? "Order" "courier" = none ∧
      { couriers with keyRule := .suffix "_id" }.metadata.foreignKey? "Order" "courier" =
        some "courier_id" := by
  obtain ⟨-, hany, hcolumns⟩ := Schema.loaded_keys ofText_couriers
  obtain ⟨hdeclared, hsuffix⟩ := hcolumns "Order" "courier"
    ⟨"Order", "id", [⟨"id", .int64, false⟩, ⟨"courier_id", .int64, true⟩]⟩
    ⟨"courier", "Order", "Courier", .manyToOne, "", "id", none⟩ (by decide) (by decide) rfl
  exact ⟨ofText_couriers, hany _, hdeclared.trans rfl, (hsuffix "_id").trans rfl⟩

end Shop

end EntityQuery
