import EntityQuery.Document.Expr
import EntityQuery.Json.Printer
import EntityQuery.Json.Reader
import EntityQuery.Model.Schema

/-!
# Documents of schemas

A schema is a record of its version, its entity types and its relations. The rule for foreign keys
is no part of the document, so that a schema that is read goes by the declared ones. Reading
refuses what `Schema.check` refuses.
-/

namespace EntityQuery

namespace Field

/-- The document of a field. -/
def toJson (f : Field) : Json :=
  .object [("name", .string f.name), ("type", f.type.toJson), ("nullable", .bool f.nullable)]

/-- The field that a document holds; it has a value unless the document says otherwise. -/
def ofJson? : Json.Decoder Field := fun json =>
  match Json.asRecord ["name", "type", "nullable"] json with
  | some [name, type, nullable] => do
    let name ← Json.required Json.asString name
    let type ← Json.required EdmType.ofJson? type
    let nullable ← Json.withDefault false Json.asBool nullable
    return ⟨name, type, nullable⟩
  | _ => none

end Field

namespace EntityType

/-- The document of an entity type. -/
def toJson (e : EntityType) : Json :=
  .object [("name", .string e.name), ("key", .string e.key),
    ("fields", Json.ofList Field.toJson e.fields)]

/-- The entity type that a document holds; it may have no fields. -/
def ofJson? : Json.Decoder EntityType := fun json =>
  match Json.asRecord ["name", "key", "fields"] json with
  | some [name, key, fields] => do
    let name ← Json.required Json.asString name
    let key ← Json.required Json.asString key
    let fields ← Json.withDefault [] (Json.asList Field.ofJson?) fields
    return ⟨name, key, fields⟩
  | _ => none

end EntityType

namespace Relation

/-- The document of a relation; it has an edge only where there is one. -/
def toJson (r : Relation) : Json :=
  .object ([("name", .string r.name), ("from_entity", .string r.source),
    ("to_entity", .string r.target), ("cardinality", .string r.cardinality.tag),
    ("from_field", .string r.sourceField), ("to_field", .string r.targetField)] ++
      (r.edge?.map fun edge => ("edge_entity", Json.string edge)).toList)

/-- The relation that a document holds. -/
def ofJson? : Json.Decoder Relation := fun json =>
  match Json.asRecord ["name", "from_entity", "to_entity", "cardinality", "from_field", "to_field",
    "edge_entity"] json with
  | some [name, source, target, cardinality, sourceField, targetField, edge] => do
    let name ← Json.required Json.asString name
    let source ← Json.required Json.asString source
    let target ← Json.required Json.asString target
    let cardinality ← Json.required (Expr.choiceOfJson? Cardinality.ofTag?) cardinality
    let sourceField ← Json.required Json.asString sourceField
    let targetField ← Json.required Json.asString targetField
    let edge? ← Json.withDefault none (Json.asOption Json.asString) edge
    return { name, source, target, cardinality, sourceField, targetField, edge? }
  | _ => none

end Relation

namespace Schema

/-- The document of a schema. -/
def toJson (s : Schema) : Json :=
  .object [("version", Json.ofNat s.version),
    ("entities", Json.ofList EntityType.toJson s.entities),
    ("relations", Json.ofList Relation.toJson s.relations)]

/-- The schema that a document holds, whether or not its relations are good. -/
def ofJson? : Json.Decoder Schema := fun json =>
  match Json.asRecord ["version", "entities", "relations"] json with
  | some [version, entities, relations] => do
    let version ← Json.withDefault 0 Json.asNat64 version
    let entities ← Json.required (Json.asList EntityType.ofJson?) entities
    let relations ← Json.withDefault [] (Json.asList Relation.ofJson?) relations
    return { version, entities, relations, keyRule := .declared }
  | _ => none

/-- The schema that an optional JSON value holds, if its relations are good. -/
def ofDocument (json? : Option Json) : Except SchemaError Schema :=
  match json?.bind ofJson? with
  | none => .error .malformed
  | some s => do
    s.check
    return s

/-- The schema that a text holds as JSON. -/
def ofText (text : String) : Except SchemaError Schema := ofDocument (Json.read? text)

/-- The text of a schema, with one item a line. -/
def toText (s : Schema) : String := s.toJson.pretty

end Schema

end EntityQuery
