import EntityQuery.Proofs.SchemaDocuments

/-!
# Building schemas

Adding an entity type or a relation puts it behind the others and drops what had its key
(`Schema.put`), the name of an entity type and the source and the name of a relation. One addition
keeps the keys apart (`Schema.Keyed.add`), and it answers for its own key and for no other
(`Schema.entity?_add`, `Schema.relation?_add`). Both carry over to any number of additions to any
schema, where the latest addition under a key answers for it (`Schema.foldl_add`). The text of a
schema is read back when the schema passes its check, however it has come about
(`Schema.built_read_back`).
-/

namespace EntityQuery

namespace Schema

/-! ## Keys -/

section

variable {α κ : Type} [BEq κ] [LawfulBEq κ] {key : α → κ} {xs : List α}

/-- Puts an item behind the others in place of those with its key. -/
def put (key : α → κ) (xs : List α) (x : α) : List α := xs.filter (key · != key x) ++ [x]

/-- Keys that are apart stay so. -/
theorem nodup_put (h : (xs.map key).Nodup) (x : α) : ((put key xs x).map key).Nodup := by
  have hkept : ((xs.filter (key · != key x)).map key).Nodup :=
    h.sublist (List.filter_sublist.map key)
  have hnew : key x ∉ (xs.filter (key · != key x)).map key := by
    intro hmem
    obtain ⟨y, hy, hkey⟩ := List.mem_map.mp hmem
    have hne := (List.mem_filter.mp hy).2
    rw [hkey, bne_self_eq_false] at hne
    cases hne
  unfold put
  rw [List.map_append]
  exact List.nodup_append.mpr ⟨hkept, List.nodup_singleton _, fun a ha b hb => by
    obtain rfl := List.mem_singleton.mp hb
    rintro rfl
    exact hnew ha⟩

/-- The item that was put is found under its key, and under any other key what was found before. -/
theorem find?_put (key : α → κ) (x : α) (k : κ) :
    (put key xs x).find? (key · == k) =
      (if key x == k then some x else none).or (xs.find? (key · == k)) := by
  unfold put
  rw [List.find?_append, List.find?_filter, List.find?_singleton]
  simp only [Bool.decide_and, Bool.decide_eq_true]
  by_cases hk : key x == k
  -- Under its own key, all that was there before has been dropped.
  · have hnone : xs.find? (fun y => key y != key x && key y == k) = none := by
      rw [List.find?_eq_none]
      intro y _ hy
      rw [Bool.and_eq_true, eq_of_beq hk, bne_iff_ne, beq_iff_eq] at hy
      exact hy.1 hy.2
    rw [hnone, if_pos hk, Option.none_or, Option.some_or]
  -- Under another key, nothing has been dropped.
  · have hsame : (fun y => key y != key x && key y == k) = (key · == k) := by
      funext y
      cases hy : key y == k with
      | false => rw [Bool.and_false]
      | true =>
        rw [eq_of_beq hy, Bool.and_true]
        exact bne_iff_ne.mpr fun heq => hk (beq_iff_eq.mpr heq.symm)
    rw [hsame, if_neg hk, Option.or_none, Option.none_or]

end

/-! ## Additions -/

/-- What is added to a schema. -/
inductive Addition
  | entity (e : EntityType)
  | relation (r : Relation)

namespace Addition

/-- The entity type of a name that is added. -/
def entity? (name : String) : Addition → Option EntityType
  | .entity e => if e.name == name then some e else none
  | .relation _ => none

/-- The relation of a name on an entity type that is added. -/
def relation? (entity name : String) : Addition → Option Relation
  | .entity _ => none
  | .relation r => if r.isAt entity name then some r else none

end Addition

/-- A schema with one addition. -/
def add (s : Schema) : Addition → Schema
  | .entity e => s.insertEntity e
  | .relation r => s.insertRelation r

/-- The schema that additions make of an empty one. -/
def built (version : Nat) (additions : List Addition) : Schema :=
  additions.foldl add (empty version)

/-- No two entity types of a schema have the same name, and no two relations the same source and
name. -/
structure Keyed (s : Schema) : Prop where
  entities : (s.entities.map (·.name)).Nodup
  relations : (s.relations.map fun r => (r.source, r.name)).Nodup

variable {s : Schema}

/-- An addition keeps the keys apart. -/
theorem Keyed.add (h : s.Keyed) (a : Addition) : (s.add a).Keyed := by
  cases a with
  | entity e => exact ⟨nodup_put h.entities e, h.relations⟩
  | relation r => exact ⟨h.entities, nodup_put h.relations r⟩

/-- Additions keep the keys apart. -/
theorem Keyed.foldl_add (h : s.Keyed) (additions : List Addition) :
    (additions.foldl Schema.add s).Keyed := by
  induction additions generalizing s with
  | nil => exact h
  | cons a additions ih => exact ih (h.add a)

/-- An entity type that is added is found under its name. -/
theorem entity?_add (s : Schema) (a : Addition) (name : String) :
    (s.add a).entity? name = (a.entity? name).or (s.entity? name) := by
  cases a with
  | entity e => exact find?_put (·.name) e name
  | relation r => rfl

/-- A relation that is added is found under its source and its name. -/
theorem relation?_add (s : Schema) (a : Addition) (entity name : String) :
    (s.add a).relation? entity name = (a.relation? entity name).or (s.relation? entity name) := by
  cases a with
  | entity e => rfl
  | relation r => exact find?_put (fun r => (r.source, r.name)) r (entity, name)

/-- What additions are asked for is answered by the latest that answers, or else as before them. -/
theorem foldl_add {α : Type} (found : Schema → Option α) (given : Addition → Option α)
    (hadd : ∀ s a, found (s.add a) = (given a).or (found s)) (s : Schema)
    (additions : List Addition) :
    found (additions.foldl Schema.add s) = (additions.reverse.findSome? given).or (found s) := by
  induction additions generalizing s with
  | nil => rfl
  | cons a additions ih =>
    -- The first addition is the last one to be asked, just before the schema that it is made to.
    rw [List.foldl_cons, ih, hadd, List.reverse_cons, List.findSome?_append, Option.or_assoc,
      List.findSome?_singleton]

/-- A schema that additions have made of an empty one has no name of an entity type twice, and no
source and name of a relation twice. Under a name, or a source and a name, it has what was added
last under it. However a schema has come about, its text is read exactly when it passes its check,
as a schema of the same version with the same entity types and relations in the same order, and it
is refused with the error of the check otherwise. -/
theorem built_read_back (version : Nat) (additions : List Addition) :
    let b := built version additions
    (b.names.Nodup ∧ (b.relations.map fun r => (r.source, r.name)).Nodup) ∧
    (∀ name, b.entity? name = additions.reverse.findSome? (·.entity? name)) ∧
    (∀ entity name,
      b.relation? entity name = additions.reverse.findSome? (·.relation? entity name)) ∧
    ∀ s : Schema, s.version < UInt64.size →
      (∀ loaded, ofText s.toText = .ok loaded ↔
        s.check = .ok () ∧ loaded = { s with keyRule := .declared }) ∧
      ∀ e, ofText s.toText = .error e ↔ s.check = .error e := by
  have hempty : (empty version).Keyed := ⟨.nil, .nil⟩
  have hkeyed := hempty.foldl_add additions
  refine ⟨⟨hkeyed.entities, hkeyed.relations⟩, fun name => ?_, fun entity name => ?_, ?_⟩
  · have hfound := foldl_add (·.entity? name) (·.entity? name) (fun s a => s.entity?_add a name)
      (empty version) additions
    exact hfound.trans Option.or_none
  · have hfound := foldl_add (·.relation? entity name) (·.relation? entity name)
      (fun s a => s.relation?_add a entity name) (empty version) additions
    exact hfound.trans Option.or_none
  · intro s hversion
    rw [ofText_toText hversion]
    cases s.check with
    | ok _ => simp [Except.map, eq_comm]
    | error _ => simp [Except.map]

end Schema

namespace Shop

/-- Posts with tags, where posts and their tags are described again later on. -/
def posts : List Schema.Addition :=
  [.entity ⟨"Tag", "id", [⟨"id", .int64, false⟩]⟩,
   .entity ⟨"Post", "id", [⟨"id", .int64, false⟩]⟩,
   .relation ⟨"tags", "Post", "Tag", .oneToMany, "id", "post", none⟩,
   .entity ⟨"Post", "key", [⟨"key", .guid, false⟩, ⟨"title", .string, true⟩]⟩,
   .relation ⟨"tags", "Post", "Tag", .manyToMany, "key", "id", some "Tagging"⟩]

/-- Of posts and their tags the later descriptions count, and the text of the schema is read back,
with the edge and with the title that may be missing. It is refused once there is a relation to
authors, which are unknown. -/
theorem posts_read_back :
    let b := Schema.built 2 posts
    let dangling :=
      b.insertRelation ⟨"author", "Post", "Author", .manyToOne, "author_id", "id", none⟩
    2 < UInt64.size ∧ b.names = ["Tag", "Post"] ∧
      b.entity? "Post" =
        some ⟨"Post", "key", [⟨"key", .guid, false⟩, ⟨"title", .string, true⟩]⟩ ∧
      b.relation? "Post" "tags" =
        some ⟨"tags", "Post", "Tag", .manyToMany, "key", "id", some "Tagging"⟩ ∧
      b.relation? "Tag" "tags" = none ∧
      Schema.ofText b.toText = .ok b ∧
      Schema.ofText dangling.toText = .error (.unknownTarget "author" "Author") := by
  intro b dangling
  have hversion : 2 < UInt64.size := by decide
  obtain ⟨-, hentity, hrelation, hread⟩ := Schema.built_read_back 2 posts
  have hloaded := (hread b hversion).1 b
  have hrefused := (hread dangling hversion).2 (.unknownTarget "author" "Author")
  exact ⟨hversion, by decide, (hentity "Post").trans rfl, (hrelation "Post" "tags").trans rfl,
    (hrelation "Tag" "tags").trans rfl, hloaded.mpr ⟨rfl, rfl⟩, hrefused.mpr rfl⟩

end Shop

end EntityQuery
