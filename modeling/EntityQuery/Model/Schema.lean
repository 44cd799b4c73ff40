import EntityQuery.Model.EdmType
import EntityQuery.Model.Metadata
import EntityQuery.Model.Relation

/-!
# Schemas

A schema lists entity types with their scalar fields and the relations between them. Adding an
entity type or a relation replaces one of the same name. `Schema.check` refuses relations between
unknown entity types and relations that share the name of a field, and `Schema.metadata` answers
what a compiler asks.
-/

namespace EntityQuery

/-- A scalar property of an entity type. -/
structure Field where
  /-- Its name. -/
  name : String
  /-- Its type. -/
  type : EdmType
  /-- Whether it may hold no value. -/
  nullable : Bool
deriving DecidableEq

/-- An entity type. -/
structure EntityType where
  /-- Its name. -/
  name : String
  /-- The name of its key field. -/
  key : String
  /-- Its fields. -/
  fields : List Field
deriving DecidableEq

namespace EntityType

/-- The first field of a name. -/
def field? (e : EntityType) (name : String) : Option Field := e.fields.find? (·.name == name)

/-- The field that the key names. -/
def keyField? (e : EntityType) : Option Field := e.field? e.key

/-- Whether there is a field of a name. -/
def hasField (e : EntityType) (name : String) : Bool := (e.field? name).isSome

end EntityType

/-- How the column is found that holds the key of a navigation. -/
inductive KeyRule
  /-- It is the source field of a relation that reaches at most one entity. -/
  | declared
  /-- Where the source field does not exist, it is the field named for the relation with a
  suffix. -/
  | suffix (text : String)
deriving DecidableEq

namespace KeyRule

/-- The source field of a relation, if it reaches at most one entity and the field exists. -/
def declaredColumn? (e : EntityType) (r : Relation) : Option String :=
  r.sourceKey?.filter e.hasField

/-- The column of an entity type that holds the key of one of its relations. -/
def column? : KeyRule → EntityType → Relation → Option String
  | declared, e, r => declaredColumn? e r
  | suffix text, e, r =>
    (declaredColumn? e r).orElse fun _ =>
      if r.isSingle then (e.field? (r.name ++ text)).map (·.name) else none

end KeyRule

/-- A model of entity types. -/
structure Schema where
  /-- Its version. -/
  version : Nat
  /-- Its entity types. -/
  entities : List EntityType
  /-- Its relations. -/
  relations : List Relation
  /-- How the columns of foreign keys are found. -/
  keyRule : KeyRule
deriving DecidableEq

/-- What is wrong with a schema. -/
inductive SchemaError
  /-- The document is none of a schema. -/
  | malformed
  | unknownSource (relation entity : String)
  | unknownTarget (relation entity : String)
  /-- A relation has the name of a field. -/
  | ambiguous (relation entity : String)
deriving DecidableEq

/-- The message of an error. -/
def SchemaError.message : SchemaError → String
  | malformed => "malformed document"
  | unknownSource relation entity =>
    "relation '" ++ relation ++ "' starts at unknown entity '" ++ entity ++ "'"
  | unknownTarget relation entity =>
    "relation '" ++ relation ++ "' leads to unknown entity '" ++ entity ++ "'"
  | ambiguous relation entity =>
    "navigation '" ++ relation ++ "' on '" ++ entity ++ "' has the same name as a field"

namespace Schema

/-- A schema without entity types. -/
def empty (version : Nat) : Schema := ⟨version, [], [], .declared⟩

/-- Adds an entity type in place of one of the same name. -/
def insertEntity (s : Schema) (e : EntityType) : Schema :=
  { s with entities := s.entities.filter (·.name != e.name) ++ [e] }

/-- Adds a relation in place of one of the same name on the same entity type. -/
def insertRelation (s : Schema) (r : Relation) : Schema :=
  { s with relations := s.relations.filter (!·.isAt r.source r.name) ++ [r] }

/-- The first entity type of a name. -/
def entity? (s : Schema) (name : String) : Option EntityType := s.entities.find? (·.name == name)

/-- The first relation of a name on an entity type. -/
def relation? (s : Schema) (entity name : String) : Option Relation :=
  s.relations.find? (·.isAt entity name)

/-- The names of the entity types. -/
def names (s : Schema) : List String := s.entities.map (·.name)

/-- Refuses a relation whose ends are not known or whose name is taken by a field. -/
def checkRelation (s : Schema) (r : Relation) : Except SchemaError Unit :=
  match s.entity? r.source with
  | none => .error (.unknownSource r.name r.source)
  | some source =>
    if (s.entity? r.target).isNone then .error (.unknownTarget r.name r.target)
    else if source.hasField r.name then .error (.ambiguous r.name r.source)
    else .ok ()

/-- Refuses a schema with the error of its first bad relation. -/
def check (s : Schema) : Except SchemaError Unit := s.relations.forM s.checkRelation

/-- The answers of a schema. -/
def metadata (s : Schema) : Metadata where
  hasEntity name := (s.entity? name).isSome
  isNavigation entity name := (s.relation? entity name).isSome
  target? entity name := (s.relation? entity name).map (·.target)
  isScalar entity name := (s.entity? entity).any (·.hasField name)
  scalarType? entity name := ((s.entity? entity).bind (·.field? name)).map (·.type)
  foreignKey? entity name :=
    (s.entity? entity).bind fun e => (s.relation? entity name).bind (s.keyRule.column? e)

end Schema

end EntityQuery
