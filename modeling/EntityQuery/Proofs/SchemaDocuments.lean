import EntityQuery.Proofs.Documents
import EntityQuery.Proofs.JsonTexts
import EntityQuery.Proofs.Schemas

/-!
# Reading schemas as they are written

Fields, entity types, relations and schemas are read back from their documents. A relation without
an edge has no key for it in its document, so that the record that is read is longer than the one
that was written (`Json.asRecord_object_append`). The version of a schema has 64 bits, and its
document is nested a few levels deep, so that the text of the document keeps it
(`Schema.kept_toJson`), and what remains is the check (`Schema.ofText_toText`).
-/

namespace EntityQuery

/-! ## Documents -/

namespace Json

/-- Fields that an object does not have are missing in the record that it is read as. -/
theorem asRecord_missing {members : List (String × Json)} {keys : List String}
    (h : ∀ key ∈ keys, key ∉ members.map (·.1)) :
    asRecord keys (object members) = some (keys.map fun _ => none) := by
  unfold asRecord
  refine mapM_eq_some fun key hkey => ?_
  have hnone : (members.filter fun m => m.1 == key) = [] := by
    rw [List.filter_eq_nil_iff]
    intro m hm heq
    rw [beq_iff_eq] at heq
    exact h key hkey (List.mem_map.mpr ⟨m, hm, heq⟩)
  simp [hnone]

/-- A record is read back from the object of its first fields when it may be without the others. -/
theorem asRecord_object_append {members : List (String × Json)} (missing : List String)
    (h : (members.map (·.1)).Nodup) (hmissing : ∀ key ∈ missing, key ∉ members.map (·.1)) :
    asRecord (members.map (·.1) ++ missing) (object members) =
      some (members.map (fun m => some m.2) ++ missing.map fun _ => none) := by
  have happend : asRecord (members.map (·.1) ++ missing) (object members) =
      (do
        let present ← asRecord (members.map (·.1)) (object members)
        let absent ← asRecord missing (object members)
        return present ++ absent) := List.mapM_append
  rw [happend, asRecord_object h, asRecord_missing hmissing]
  rfl

/-- A natural number of 64 bits is read back. -/
theorem asNat64_ofNat {n : Nat} (h : n < UInt64.size) : asNat64 (ofNat n) = some n := by
  have hbounds : (0 : Int) ≤ n ∧ (n : Int) ≤ UInt64.size - 1 := by omega
  unfold asNat64 ofNat
  rw [asIntIn_int hbounds]
  rfl

end Json

/-- A field is read back from its document. -/
theorem Field.ofJson?_toJson (f : Field) : ofJson? f.toJson = some f := by
  have hrecord : Json.asRecord ["name", "type", "nullable"] f.toJson =
      some [some (.string f.name), some f.type.toJson, some (.bool f.nullable)] :=
    Json.asRecord_object (by simp)
  simp [ofJson?, hrecord, Json.required, Json.withDefault, Json.asString, Json.asBool,
    f.type.ofJson?_toJson]

/-- An entity type is read back from its document. -/
theorem EntityType.ofJson?_toJson (e : EntityType) : ofJson? e.toJson = some e := by
  have hfields : Json.asList Field.ofJson? (Json.ofList Field.toJson e.fields) = some e.fields :=
    Json.asList_ofList fun f _ => f.ofJson?_toJson
  have hrecord : Json.asRecord ["name", "key", "fields"] e.toJson =
      some [some (.string e.name), some (.string e.key),
        some (Json.ofList Field.toJson e.fields)] :=
    Json.asRecord_object (by simp)
  simp [ofJson?, hrecord, Json.required, Json.withDefault, Json.asString, hfields]

/-- A relation is read back from its document, with its edge or without one. -/
theorem Relation.ofJson?_toJson (r : Relation) : ofJson? r.toJson = some r := by
  have hcardinality := Expr.choiceOfJson?_string r.cardinality.ofTag?_tag
  have hrecord : Json.asRecord ["name", "from_entity", "to_entity", "cardinality", "from_field",
      "to_field", "edge_entity"] r.toJson =
      some [some (.string r.name), some (.string r.source), some (.string r.target),
        some (.string r.cardinality.tag), some (.string r.sourceField),
        some (.string r.targetField), r.edge?.map .string] := by
    obtain ⟨name, source, target, cardinality, sourceField, targetField, edge?⟩ := r
    cases edge? with
    | none =>
      exact Json.asRecord_object_append ["edge_entity"] (by simp) (by simp)
    | some edge => exact Json.asRecord_object (by simp)
  have hedge : Json.withDefault none (Json.asOption Json.asString) (r.edge?.map .string) =
      some r.edge? := by
    cases r.edge? <;> rfl
  simp [ofJson?, hrecord, Json.required, Json.asString, hcardinality, hedge]

namespace Schema

/-- A schema is read back from its document, but for the rule for the columns of keys, which is the
declared one then. -/
theorem ofJson?_toJson {s : Schema} (h : s.version < UInt64.size) :
    ofJson? s.toJson = some { s with keyRule := .declared } := by
  have hentities : Json.asList EntityType.ofJson? (Json.ofList EntityType.toJson s.entities) =
      some s.entities :=
    Json.asList_ofList fun e _ => e.ofJson?_toJson
  have hrelations : Json.asList Relation.ofJson? (Json.ofList Relation.toJson s.relations) =
      some s.relations :=
    Json.asList_ofList fun r _ => r.ofJson?_toJson
  have hrecord : Json.asRecord ["version", "entities", "relations"] s.toJson =
      some [some (Json.ofNat s.version), some (Json.ofList EntityType.toJson s.entities),
        some (Json.ofList Relation.toJson s.relations)] :=
    Json.asRecord_object (by simp)
  simp [ofJson?, hrecord, Json.required, Json.withDefault, Json.asNat64_ofNat h, hentities,
    hrelations]

/-- The document of a schema is refused with the error of the check, and read otherwise. -/
theorem ofDocument_toJson {s : Schema} (h : s.version < UInt64.size) :
    ofDocument (some s.toJson) = s.check.map fun _ => { s with keyRule := .declared } := by
  unfold ofDocument
  rw [Option.bind_some, ofJson?_toJson h]
  -- The check does not look at the rule for the columns of keys.
  have hcheck : ({ s with keyRule := .declared } : Schema).check = s.check := rfl
  dsimp only
  rw [hcheck]
  cases s.check <;> rfl

end Schema

/-! ## Texts -/

section

open Json (Kept)

variable {bound : Nat}

/-- The text of a list keeps it when it keeps all its items. -/
theorem Json.kept_ofList {α : Type} {encode : α → Json} (h : ∀ a, Kept bound (encode a))
    (as : List α) : Kept (bound + 1) (Json.ofList encode as) := by
  refine .array fun x hx => ?_
  obtain ⟨a, -, rfl⟩ := List.mem_map.mp hx
  exact h a

theorem Field.kept_toJson (f : Field) : Kept (bound + 1) f.toJson := by
  refine .object ?_
  simp only [List.forall_mem_cons, List.not_mem_nil, false_implies, implies_true, and_true]
  exact ⟨.string _, .string _, .bool _⟩

theorem EntityType.kept_toJson (e : EntityType) : Kept (bound + 3) e.toJson := by
  refine .object ?_
  simp only [List.forall_mem_cons, List.not_mem_nil, false_implies, implies_true, and_true]
  exact ⟨.string _, .string _, Json.kept_ofList (fun f => f.kept_toJson) _⟩

theorem Relation.kept_toJson (r : Relation) : Kept (bound + 1) r.toJson := by
  have hedge : ∀ m ∈ (r.edge?.map fun edge => ("edge_entity", Json.string edge)).toList,
      Kept bound m.2 := by
    intro m hm
    obtain ⟨edge, -, rfl⟩ := Option.map_eq_some_iff.mp (Option.mem_toList.mp hm)
    exact .string edge
  refine .object ?_
  simp only [List.forall_mem_append, List.forall_mem_cons, List.not_mem_nil, false_implies,
    implies_true, and_true]
  exact ⟨⟨.string _, .string _, .string _, .string _, .string _, .string _⟩, hedge⟩

/-- The text of a schema keeps its document. -/
theorem Schema.kept_toJson {s : Schema} (h : s.version < UInt64.size) :
    Kept (bound + 5) s.toJson := by
  have hversion : Json.Fits s.version := by
    have hmin : Int64.minValue.toInt ≤ 0 := by decide
    constructor <;> omega
  refine .object ?_
  simp only [List.forall_mem_cons, List.not_mem_nil, false_implies, implies_true, and_true]
  exact ⟨.int hversion, Json.kept_ofList (fun e => e.kept_toJson) _,
    Json.kept_ofList (fun r => r.kept_toJson) _⟩

/-- The text of a schema is refused with the error of the check, and read otherwise. -/
theorem Schema.ofText_toText {s : Schema} (h : s.version < UInt64.size) :
    ofText s.toText = s.check.map fun _ => { s with keyRule := .declared } := by
  unfold ofText toText
  rw [(kept_toJson h).read?_pretty, ofDocument_toJson h]

end

end EntityQuery
