import EntityQuery.Model.Schema

/-!
# A sample model

A shop: customers have orders, orders have items, items are of a product, and products come from a
supplier. With it come property paths that cross some number of navigations, and sizes for sample
queries.
-/

namespace EntityQuery.Shop

/-- A field that always has a value. -/
private def always (name : String) (type : EdmType) : Field := ⟨name, type, false⟩

/-- A relation without an edge. -/
private def link (name : String) (cardinality : Cardinality)
    (source sourceField target targetField : String) : Relation :=
  { name, source, target, cardinality, sourceField, targetField, edge? := none }

/-- Customers. -/
def customer : EntityType :=
  ⟨"Customer", "id", [always "id" .int64, always "name" .string, always "status" .string,
    ⟨"token", .guid, true⟩]⟩

/-- Orders. -/
def order : EntityType :=
  ⟨"Order", "id", [always "id" .int64, always "total" .decimal, always "placed" .dateTime,
    always "customer_id" .int64]⟩

/-- Items of orders. -/
def item : EntityType :=
  ⟨"Item", "id", [always "id" .int64, always "quantity" .int32, always "order_id" .int64,
    always "product_id" .int64]⟩

/-- Products. -/
def product : EntityType :=
  ⟨"Product", "id", [always "id" .int64, always "name" .string, always "supplier_id" .int64]⟩

/-- Suppliers. -/
def supplier : EntityType := ⟨"Supplier", "id", [always "id" .int64, always "name" .string]⟩

/-- The relations of the shop. -/
def relations : List Relation :=
  [link "orders" .oneToMany "Customer" "id" "Order" "customer_id",
   link "items" .oneToMany "Order" "id" "Item" "order_id",
   link "product" .manyToOne "Item" "product_id" "Product" "id",
   link "supplier" .manyToOne "Product" "supplier_id" "Supplier" "id"]

/-- The model of the shop. -/
def schema : Schema :=
  relations.foldl Schema.insertRelation
    ([customer, order, item, product, supplier].foldl Schema.insertEntity (.empty 1))

/-- The navigations from customers to suppliers. -/
def hops : List String := ["orders", "items", "product", "supplier"]

/-- A scalar property of each entity type on the way from customers to suppliers. -/
def leaves : List String := ["name", "total", "quantity", "name", "name"]

/-- A property path on customers that crosses some number of navigations, at most four. -/
def navigationPath (depth : Nat) : List String :=
  hops.take depth ++ (leaves.drop (min depth hops.length)).take 1

/-- The size of a sample query. -/
inductive Scale
  | tiny
  | small
  | medium
  | large

/-- The sizes in ascending order. -/
def Scale.all : List Scale := [tiny, small, medium, large]

/-- The number of comparisons in a query of a size. -/
def Scale.clauses : Scale → Nat
  | tiny => 2
  | small => 8
  | medium => 24
  | large => 48

/-- The usual size. -/
def Scale.default : Scale := small

end EntityQuery.Shop
