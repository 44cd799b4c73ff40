import EntityQuery.Model.Metadata

/-!
# Models given by tables

A table lists what is to be answered about entity types: one row for each navigation, scalar
property and foreign key. Of several rows for one property the first counts.
-/

namespace EntityQuery

/-- A row about a property of an entity type; what it says may be missing. -/
structure ModelRow (α : Type) where
  /-- The entity type. -/
  entity : String
  /-- The property. -/
  property : String
  /-- What the row says. -/
  content? : Option α

/-- The first row about a property of an entity type. -/
def ModelRow.find? {α : Type} (rows : List (ModelRow α)) (entity property : String) :
    Option (ModelRow α) :=
  List.find? (fun row => row.entity == entity && row.property == property) rows

/-- A model given by its rows. -/
structure ModelTable where
  /-- The known entity types. -/
  entities : List String
  /-- The navigations with the entity types that they lead to. -/
  navigations : List (ModelRow String)
  /-- The scalar properties with their types. -/
  scalars : List (ModelRow EdmType)
  /-- The navigations with the columns of their foreign keys. -/
  foreignKeys : List (ModelRow String)

/-- The answers of a table. -/
def ModelTable.metadata (t : ModelTable) : Metadata where
  hasEntity entity := t.entities.contains entity
  isNavigation entity name := (ModelRow.find? t.navigations entity name).isSome
  target? entity name := (ModelRow.find? t.navigations entity name).bind (·.content?)
  isScalar entity name := (ModelRow.find? t.scalars entity name).isSome
  scalarType? entity name := (ModelRow.find? t.scalars entity name).bind (·.content?)
  foreignKey? entity name := (ModelRow.find? t.foreignKeys entity name).bind (·.content?)

end EntityQuery
