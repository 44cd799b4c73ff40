import EntityQuery.Document.Schema
import EntityQuery.Proofs.Plans
import EntityQuery.Proofs.Resolutions

/-!
# Schemas that pass their check

The check of a schema goes over its relations (`Schema.check_eq_ok`) and asks of each that its ends
are known and that no field of its source has its name (`Schema.Admits`). The answers of a schema
are about the first entity type and the first relation of a name, and its lists may hold others of
the same name. What the check has found good of every relation is good of the first one, and it asks
about the same entity types as the answers do, so it carries over to them: names are apart
(`Admits.isScalar_eq_false`), and a navigation leads to an entity type that is known
(`Admits.hasEntity_target`), from which a walk can go on (`Schema.hasEntity_of_leads`).

Which column holds a key is decided for one relation and its source. Both rules ask whether the
relation reaches at most one entity, and for a field of the source (`KeyRule.column?_eq_some`), and
the rule with a suffix comes to another answer only where the declared one comes to none
(`KeyRule.suffix_of_declared`).
-/

namespace EntityQuery

/-! ## Keys -/

namespace KeyRule

variable {rule : KeyRule} {e : EntityType} {r : Relation} {column : String}

/-- A declared key belongs to a relation that reaches at most one entity. -/
theorem isSingle_of_declaredColumn? (h : declaredColumn? e r = some column) :
    r.isSingle = true := by
  unfold declaredColumn? Relation.sourceKey? at h
  by_contra hsingle
  rw [if_neg hsingle] at h
  cases h

/-- Only a relation that reaches at most one entity has a key, and that is a field of the source. -/
theorem column?_eq_some (h : rule.column? e r = some column) :
    r.isSingle = true ∧ ∃ field ∈ e.fields, field.name = column := by
  constructor
  · cases rule with
    | declared => exact isSingle_of_declaredColumn? h
    | suffix text =>
      unfold column? at h
      dsimp only at h
      cases hdeclared : declaredColumn? e r with
      | some _ => exact isSingle_of_declaredColumn? hdeclared
      | none =>
        rw [hdeclared, Option.orElse_none] at h
        by_contra hsingle
        rw [if_neg hsingle] at h
        cases h
  · obtain ⟨field, hfield⟩ := Option.isSome_iff_exists.mp (Schema.hasField_of_keyRule h)
    exact ⟨field, List.mem_of_find?_eq_some hfield, by simpa using List.find?_some hfield⟩

/-- Where a key is declared, the rule with a suffix finds the same one. -/
theorem suffix_of_declared (text : String) (h : declared.column? e r = some column) :
    (suffix text).column? e r = some column := by
  have hdeclared : declaredColumn? e r = some column := h
  unfold column?
  dsimp only
  rw [hdeclared]
  rfl

end KeyRule

/-! ## The check -/

namespace Schema

variable {s : Schema} {r : Relation}

/-- A relation is good for a schema: its ends are known, and no field of its source has its name. -/
structure Admits (s : Schema) (r : Relation) : Prop where
  /-- Its source is known, and has no field of its name. -/
  source : ∃ e, s.entity? r.source = some e ∧ e.hasField r.name = false
  /-- Its target is known. -/
  target : ∃ e, s.entity? r.target = some e

/-- The check of one relation passes when the relation is good. -/
theorem checkRelation_eq_ok : s.checkRelation r = .ok () ↔ s.Admits r := by
  unfold checkRelation
  cases hsource : s.entity? r.source with
  | none =>
    constructor
    · intro h
      cases h
    · rintro ⟨⟨e, he, -⟩, -⟩
      rw [hsource] at he
      cases he
  | some source =>
    dsimp only
    constructor
    · intro h
      split at h
      next => cases h
      next htarget =>
        split at h
        next => cases h
        next hfield =>
          rw [Bool.not_eq_true, Option.isNone_eq_false_iff] at htarget
          exact ⟨⟨source, hsource, eq_false_of_ne_true hfield⟩,
            Option.isSome_iff_exists.mp htarget⟩
    · rintro ⟨⟨e, he, hfield⟩, target, htarget⟩
      rw [hsource] at he
      cases he
      rw [htarget, hfield]
      rfl

/-- The check passes when all relations are good. -/
theorem check_eq_ok : s.check = .ok () ↔ ∀ r ∈ s.relations, s.Admits r := by
  unfold check
  generalize s.relations = relations
  induction relations with
  | nil => exact iff_of_true rfl fun _ h => (List.not_mem_nil h).elim
  | cons r rs ih =>
    show (s.checkRelation r >>= fun _ => rs.forM s.checkRelation) = .ok () ↔ _
    rw [except_bind_eq_ok, List.forall_mem_cons, ← ih, ← checkRelation_eq_ok]
    constructor
    · rintro ⟨_, hfirst, hrest⟩
      exact ⟨hfirst, hrest⟩
    · rintro ⟨hfirst, hrest⟩
      exact ⟨(), hfirst, hrest⟩

/-- A document that is read passes the check. -/
theorem check_of_ofText {text : String} (h : ofText text = .ok s) : s.check = .ok () := by
  unfold ofText ofDocument at h
  split at h
  next => cases h
  next =>
    obtain ⟨_, hcheck, hs⟩ := except_bind_eq_ok.mp h
    cases hs
    exact hcheck

/-! ## The answers -/

/-- The relation that is found is one of them, of the entity type and the name that were looked
for. -/
theorem relation?_eq_some {entity name : String} (h : s.relation? entity name = some r) :
    r ∈ s.relations ∧ r.source = entity ∧ r.name = name := by
  have hat := List.find?_some h
  unfold Relation.isAt at hat
  rw [Bool.and_eq_true, beq_iff_eq, beq_iff_eq] at hat
  exact ⟨List.mem_of_find?_eq_some h, hat⟩

section

variable (hs : ∀ r ∈ s.relations, s.Admits r)

include hs

/-- In a schema of good relations, a navigation is no scalar property. -/
theorem isScalar_eq_false {entity name : String}
    (h : s.metadata.isNavigation entity name = true) :
    s.metadata.isScalar entity name = false := by
  obtain ⟨r, hr⟩ := Option.isSome_iff_exists.mp h
  obtain ⟨hmem, rfl, rfl⟩ := relation?_eq_some hr
  obtain ⟨e, he, hfield⟩ := (hs r hmem).source
  show (s.entity? r.source).any (·.hasField r.name) = false
  rw [he]
  exact hfield

/-- In a schema of good relations, a navigation leads to an entity type that is known. -/
theorem exists_target {entity name : String} (h : s.metadata.isNavigation entity name = true) :
    ∃ target, s.metadata.target? entity name = some target ∧
      s.metadata.hasEntity target = true := by
  obtain ⟨r, hr⟩ := Option.isSome_iff_exists.mp h
  obtain ⟨e, he⟩ := (hs r (relation?_eq_some hr).1).target
  exact ⟨r.target, congrArg (Option.map Relation.target) hr, Option.isSome_of_eq_some he⟩

/-- In a schema of good relations, navigations lead from an entity type that is known to one that is
known. -/
theorem hasEntity_of_leads {entity target : String} {path : List String}
    (hknown : s.metadata.hasEntity entity = true) (h : s.metadata.Leads entity path target) :
    s.metadata.hasEntity target = true := by
  induction h with
  | stay => exact hknown
  | go hnavigation htarget _ ih =>
    obtain ⟨next, hnext, hknown⟩ := exists_target hs hnavigation
    rw [htarget] at hnext
    cases hnext
    exact ih hknown

end

/-- The column that holds the key of a navigation comes of the first entity type and the first
relation of their names. -/
theorem foreignKey?_eq_some {entity name column : String}
    (h : s.metadata.foreignKey? entity name = some column) :
    ∃ e r, s.entity? entity = some e ∧ s.relation? entity name = some r ∧
      s.keyRule.column? e r = some column := by
  obtain ⟨e, he, hkey⟩ := Option.bind_eq_some_iff.mp h
  obtain ⟨r, hr, hcolumn⟩ := Option.bind_eq_some_iff.mp hkey
  exact ⟨e, r, he, hr, hcolumn⟩

/-- A schema that is read from a document is closed under navigation, by whichever rule the columns
of keys are found. No property is both a navigation and scalar. A navigation leads to an entity type
that is known, and so does every walk from one that is. Only a navigation to at most one entity has
a column for its key, which is a declared field of its source, and the rule with a suffix finds all
columns that the declared one finds. -/
theorem loaded_closed {text : String} {schema : Schema} (h : ofText text = .ok schema)
    (rule : KeyRule) :
    let m := { schema with keyRule := rule }.metadata
    (∀ entity name, ¬ (m.isNavigation entity name = true ∧ m.isScalar entity name = true)) ∧
    (∀ entity name, m.hasEntity entity = true → m.isNavigation entity name = true →
      ∃ target, m.target? entity name = some target ∧ m.hasEntity target = true) ∧
    (∀ entity path target, m.hasEntity entity = true → m.Leads entity path target →
      m.hasEntity target = true) ∧
    (∀ entity name column, m.foreignKey? entity name = some column →
      ∃ e r, schema.entity? entity = some e ∧ schema.relation? entity name = some r ∧
        m.isNavigation entity name = true ∧ r.isSingle = true ∧
        ∃ field ∈ e.fields, field.name = column) ∧
    ∀ suffix entity name column,
      { schema with keyRule := .declared }.metadata.foreignKey? entity name = some column →
      { schema with keyRule := .suffix suffix }.metadata.foreignKey? entity name =
        some column := by
  intro m
  -- Relations are good or not whatever the rule is.
  have hs : ∀ r ∈ schema.relations, ({ schema with keyRule := rule } : Schema).Admits r := by
    intro r hmem
    obtain ⟨hsource, htarget⟩ := check_eq_ok.mp (check_of_ofText h) r hmem
    exact ⟨hsource, htarget⟩
  refine ⟨?_, fun _ _ _ => exists_target hs, fun _ _ _ => hasEntity_of_leads hs, ?_, ?_⟩
  · rintro entity name ⟨hnavigation, hscalar⟩
    rw [isScalar_eq_false hs hnavigation] at hscalar
    cases hscalar
  · intro entity name column hkey
    obtain ⟨e, r, he, hr, hcolumn⟩ := foreignKey?_eq_some hkey
    obtain ⟨hsingle, hfield⟩ := KeyRule.column?_eq_some hcolumn
    exact ⟨e, r, he, hr, Option.isSome_of_eq_some hr, hsingle, hfield⟩
  · intro suffix entity name column hkey
    obtain ⟨e, r, he, hr, hcolumn⟩ := foreignKey?_eq_some hkey
    refine Option.bind_eq_some_iff.mpr ⟨e, he, Option.bind_eq_some_iff.mpr ⟨r, hr, ?_⟩⟩
    exact KeyRule.suffix_of_declared suffix hcolumn

end Schema

namespace Shop

/-- Nodes of a tree, with the entity type, one of its fields and the navigation listed twice. The
second entity type has a field of the name of the navigation, and the second navigation leads to
more than one entity. -/
def tree : Schema where
  version := 1
  entities :=
    [⟨"Node", "id", [⟨"up", .int64, false⟩, ⟨"up", .guid, false⟩]⟩,
     ⟨"Node", "id", [⟨"parent", .guid, false⟩]⟩]
  relations :=
    [⟨"parent", "Node", "Node", .manyToOne, "up", "id", none⟩,
     ⟨"parent", "Node", "Node", .oneToMany, "id", "up", none⟩]
  keyRule := .declared

/-- A document of the tree, with every record as the list of its values. -/
def treeText : String :=
  "[1,[[\"Node\",\"id\",[[\"up\",\"Int64\"],[\"up\",\"Guid\"]]],
    [\"Node\",\"id\",[[\"parent\",\"Guid\"]]]],
    [[\"parent\",\"Node\",\"Node\",\"many_to_one\",\"up\",\"id\"],
    [\"parent\",\"Node\",\"Node\",\"one_to_many\",\"id\",\"up\"]]]"

/-- The document of the tree is read, and the tree is closed under navigation: from a node, any
number of navigations to parents stays at nodes, and the key is the field that is declared for it,
also by the rule with a suffix. -/
theorem tree_closed :
    Schema.ofText treeText = .ok tree ∧
      let m := { tree with keyRule := .suffix "_id" }.metadata
      m.isNavigation "Node" "parent" = true ∧ m.isScalar "Node" "parent" = false ∧
      (∀ n target, m.Leads "Node" (List.replicate n "parent") target →
        m.hasEntity target = true) ∧
      (∃ e r, tree.entity? "Node" = some e ∧ tree.relation? "Node" "parent" = some r ∧
        r.isSingle = true ∧ ∃ field ∈ e.fields, field.name = "up") ∧
      m.foreignKey? "Node" "parent" = some "up" := by
  have hread : (Schema.ofText treeText).toOption.any (· = tree) = true := by decide +kernel
  obtain ⟨_, h, htree⟩ := exists_of_any hread
  obtain rfl := of_decide_eq_true htree
  obtain ⟨hapart, -, hwalk, hkey, hrules⟩ := Schema.loaded_closed h (.suffix "_id")
  have hcolumn := hrules "_id" "Node" "parent" "up" (by decide)
  obtain ⟨e, r, he, hr, hnavigation, hsingle, hfield⟩ := hkey _ _ _ hcolumn
  refine ⟨h, hnavigation, ?_, fun n target hleads => hwalk _ _ _ (by decide) hleads,
    ⟨e, r, he, hr, hsingle, hfield⟩, hcolumn⟩
  exact eq_false_of_ne_true fun hscalar => hapart _ _ ⟨hnavigation, hscalar⟩

end Shop

end EntityQuery
