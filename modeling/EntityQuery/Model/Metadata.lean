import EntityQuery.Model.EdmType

/-!
# What a compiler asks of an entity model

Paths are resolved against answers to six questions about entity types and their properties. Any
source of answers will do: a schema document, a table, a database catalogue.
-/

namespace EntityQuery

/-- Answers about an entity model. Entity types and properties are given by name. -/
structure Metadata where
  /-- Whether an entity type is known. -/
  hasEntity : String → Bool
  /-- Whether a property of an entity type is a navigation. -/
  isNavigation : String → String → Bool
  /-- The entity type that a navigation of an entity type leads to. -/
  target? : String → String → Option String
  /-- Whether a property of an entity type is scalar, that is, has a column. -/
  isScalar : String → String → Bool
  /-- The type of a scalar property of an entity type. -/
  scalarType? : String → String → Option EdmType
  /-- The column of an entity type that holds the key of a navigation. -/
  foreignKey? : String → String → Option String

/-- Where a navigation of an entity type leads, if the property is a navigation and its target is
known. -/
def Metadata.step? (m : Metadata) (entity segment : String) : Option String :=
  if m.isNavigation entity segment then m.target? entity segment else none

end EntityQuery
