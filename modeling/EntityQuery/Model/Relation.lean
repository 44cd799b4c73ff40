/-!
# Relations between entity types

A relation is a navigation property: it belongs to the entity type that it starts at and leads to
another one. Seen from its source it yields at most one entity or a collection, and in the first
case its source holds the key of its target. An association that can be walked both ways is two
relations.
-/

namespace EntityQuery

/-- How many entities a relation connects, seen from its source. -/
inductive Cardinality
  | oneToOne
  | manyToOne
  | oneToMany
  | manyToMany
deriving DecidableEq

namespace Cardinality

/-- Every cardinality, in the order of declaration. -/
def all : List Cardinality := [oneToOne, manyToOne, oneToMany, manyToMany]

/-- The name of a cardinality in documents. -/
def tag : Cardinality → String
  | oneToOne => "one_to_one"
  | manyToOne => "many_to_one"
  | oneToMany => "one_to_many"
  | manyToMany => "many_to_many"

/-- The cardinality with a name in documents. -/
def ofTag? (tag : String) : Option Cardinality := all.find? (·.tag == tag)

/-- Whether at most one entity is reached. -/
def isSingle : Cardinality → Bool
  | oneToOne | manyToOne => true
  | oneToMany | manyToMany => false

/-- The cardinality seen from the other side. -/
def inverse : Cardinality → Cardinality
  | oneToOne => oneToOne
  | manyToOne => oneToMany
  | oneToMany => manyToOne
  | manyToMany => manyToMany

/-- A cardinality is found under its name. -/
theorem ofTag?_tag (c : Cardinality) : ofTag? c.tag = some c := by cases c <;> rfl

/-- Looking from the other side twice is looking from the same side. -/
theorem inverse_inverse (c : Cardinality) : c.inverse.inverse = c := by cases c <;> rfl

end Cardinality

/-- A navigation property. -/
structure Relation where
  /-- Its name, which belongs to its source. -/
  name : String
  /-- The entity type that it starts at. -/
  source : String
  /-- The entity type that it leads to. -/
  target : String
  /-- How many entities it connects. -/
  cardinality : Cardinality
  /-- The field of its source that takes part. -/
  sourceField : String
  /-- The field of its target that takes part. -/
  targetField : String
  /-- The entity type that stands between, where there is one. -/
  edge? : Option String
deriving DecidableEq

namespace Relation

/-- Whether a relation is the one of a name on an entity type. -/
def isAt (r : Relation) (entity name : String) : Bool := r.source == entity && r.name == name

/-- Whether at most one entity is reached. -/
def isSingle (r : Relation) : Bool := r.cardinality.isSingle

/-- The field of the source that holds the key of the target. -/
def sourceKey? (r : Relation) : Option String :=
  if r.isSingle then some r.sourceField else none

/-- The relation from the target back to the source, under a name. -/
def inverse (r : Relation) (name : String) : Relation :=
  { name, source := r.target, target := r.source, cardinality := r.cardinality.inverse,
    sourceField := r.targetField, targetField := r.sourceField, edge? := r.edge? }

/-- Going back from the target under the name of the relation is the relation itself. -/
theorem inverse_inverse (r : Relation) (name : String) :
    (r.inverse name).inverse r.name = r := by
  simp [inverse, Cardinality.inverse_inverse]

end Relation

end EntityQuery
