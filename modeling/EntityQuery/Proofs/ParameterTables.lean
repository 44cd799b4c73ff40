import EntityQuery.Document.Plan
import EntityQuery.Proofs.Binding
import EntityQuery.Proofs.Indexes

/-!
# Parameters with an index

Parameters may be kept with an index from names to positions, which spares the search through the
entries. `ParameterTable` does so: a name that is in the index gets another value at its position,
and one that is not is appended and put into the index. The index of a table is right when it has
the names of the entries, each with its position, and nothing else (`ParameterTable.IsIndexed`);
then no name stands twice, and what is looked up through the index is what the search finds.

Inserting a parameter keeps the index right, and does to the entries what it does without an index
(`IsIndexed.insert`, `IsIndexed.parameters_insert`). So what a table holds after any number of
insertions is told by the entries alone: every name once, in the order in which the names came up
first, with the value that came last (`ParameterTable.holds_insertions`).
-/

namespace EntityQuery

/-! ## Insertions -/

namespace Parameters

/-- A name that is bound gets another value and stays where it is; one that is not bound comes
last. -/
theorem names_insert (ps : Parameters) (name : String) (value : Value) :
    (ps.insert name value).names = if name ∈ ps.names then ps.names else ps.names ++ [name] := by
  unfold insert
  by_cases hmem : name ∈ ps.names
  · rw [if_pos hmem, if_pos (contains_eq_true_iff.mpr hmem)]
    unfold names
    rw [List.map_map]
    apply List.map_congr_left
    intro entry _
    show (if entry.1 == name then (entry.1, value) else entry).1 = entry.1
    split
    next => rfl
    next => rfl
  · rw [if_neg hmem, if_neg (mt contains_eq_true_iff.mp hmem)]
    exact List.map_append

/-- The name that is inserted has the new value, and the others have those they had. -/
theorem get?_insert (ps : Parameters) (name other : String) (value : Value) :
    (ps.insert name value).get? other = if name = other then some value else ps.get? other := by
  by_cases hmem : name ∈ ps.names
  · -- Giving a name another value changes no name, so the same entry is found as before.
    let replace (entry : String × Value) := if entry.1 == name then (entry.1, value) else entry
    have hentries : (ps.insert name value).entries = ps.entries.map replace := by
      unfold insert
      rw [if_pos (contains_eq_true_iff.mpr hmem)]
    have hkey : (fun entry => entry.1 == other) ∘ replace = fun entry => entry.1 == other := by
      funext entry
      show ((if entry.1 == name then (entry.1, value) else entry).1 == other) = (entry.1 == other)
      split
      next => rfl
      next => rfl
    unfold get?
    rw [hentries, List.find?_map, hkey]
    cases hfind : ps.entries.find? (·.1 == other) with
    | none =>
      -- The name that is inserted is found, so it is not the other one.
      have hne : name ≠ other := by
        rintro rfl
        obtain ⟨entry, hentry, rfl⟩ := List.mem_map.mp hmem
        exact List.find?_eq_none.mp hfind entry hentry (beq_self_eq_true entry.1)
      rw [if_neg hne]
      rfl
    | some entry =>
      have hentry : entry.1 = other := by simpa using List.find?_some hfind
      show some (if entry.1 == name then (entry.1, value) else entry).2 = _
      by_cases heq : name = other
      · rw [if_pos heq, if_pos (beq_iff_eq.mpr (hentry.trans heq.symm))]
      · rw [if_neg heq, if_neg fun h => heq ((beq_iff_eq.mp h).symm.trans hentry)]
        rfl
  · by_cases heq : name = other
    · rw [if_pos heq, ← heq]
      exact get?_append (entries_insert hmem) hmem
    · unfold get?
      rw [if_neg heq, entries_insert hmem, List.find?_append]
      simp [heq]

end Parameters

/-- A call that inserts a parameter, by its name and its value. -/
abbrev Insertion := String × Value

namespace Parameters

/-- The parameters that some insertions leave. -/
def ofInsertions (calls : List Insertion) : Parameters :=
  calls.foldl (fun ps call => ps.insert call.1 call.2) .empty

/-- The last insertion is done to what the others leave. -/
theorem ofInsertions_concat (calls : List Insertion) (call : Insertion) :
    ofInsertions (calls ++ [call]) = (ofInsertions calls).insert call.1 call.2 :=
  List.foldl_concat ..

/-- Insertions leave every name once, in the order in which the names came up first. -/
theorem names_ofInsertions (calls : List Insertion) :
    (ofInsertions calls).names = (calls.map (·.1)).eraseDups := by
  induction calls using List.reverseRecOn with
  | nil => rfl
  | append_singleton calls call ih =>
    rw [ofInsertions_concat, names_insert, ih, List.map_append, List.eraseDups_append]
    by_cases hmem : call.1 ∈ calls.map (·.1)
    · rw [if_pos (List.mem_eraseDups.mpr hmem)]
      simp [List.removeAll, hmem]
    · rw [if_neg (mt List.mem_eraseDups.mp hmem)]
      simp [List.removeAll, hmem, List.eraseDups_cons]

/-- The value of a name is the one that came last under it. -/
theorem get?_ofInsertions (calls : List Insertion) (name : String) :
    (ofInsertions calls).get? name = (calls.reverse.find? (·.1 == name)).map (·.2) := by
  induction calls using List.reverseRecOn with
  | nil => rfl
  | append_singleton calls call ih =>
    rw [ofInsertions_concat, get?_insert, ih, List.reverse_append, List.reverse_singleton,
      List.singleton_append]
    by_cases heq : call.1 = name
    · simp [heq]
    · simp [heq]

/-- Where the names differ, the entries are the names, each with its value. -/
theorem entries_eq {ps : Parameters} (h : ps.names.Nodup) :
    ps.entries = ps.names.filterMap fun name => (ps.get? name).map (name, ·) := by
  have hvalue : ∀ entry ∈ ps.entries,
      (ps.get? entry.1).map (entry.1, ·) = some entry := by
    intro entry hentry
    have hfind : ps.entries.find? (·.1 == entry.1) = some entry :=
      find?_key_eq_some Prod.fst h hentry
    unfold get?
    rw [hfind]
    rfl
  calc ps.entries
      = ps.entries.filterMap some := List.filterMap_some.symm
    _ = ps.entries.filterMap fun entry => (ps.get? entry.1).map (entry.1, ·) :=
      List.filterMap_congr fun entry hentry => (hvalue entry hentry).symm
    _ = ps.names.filterMap fun name => (ps.get? name).map (name, ·) := by
      unfold names
      rw [List.filterMap_map]
      rfl

end Parameters

/-! ## Tables -/

/-- Parameters with an index. -/
structure ParameterTable where
  /-- The names and values. -/
  entries : List (String × Value)
  /-- The positions of the names. -/
  index : Std.HashMap String Nat

namespace ParameterTable

/-- No parameters. -/
def empty : ParameterTable := ⟨[], ∅⟩

/-- Binds a name last or, if it is in the index, gives it another value in its place. -/
def insert (t : ParameterTable) (name : String) (value : Value) : ParameterTable :=
  match t.index[name]? with
  | some i => { t with entries := t.entries.modify i fun entry => (entry.1, value) }
  | none => ⟨t.entries ++ [(name, value)], t.index.insert name t.entries.length⟩

/-- The value of a name, at the position that the index says. -/
def get? (t : ParameterTable) (name : String) : Option Value :=
  t.index[name]?.bind fun i => t.entries[i]?.map (·.2)

/-- Whether a name is in the index. -/
def contains (t : ParameterTable) (name : String) : Bool := t.index.contains name

/-- The names. -/
def names (t : ParameterTable) : List String := t.entries.map (·.1)

/-- The number of parameters. -/
def size (t : ParameterTable) : Nat := t.entries.length

/-- Whether there are none. -/
def isEmpty (t : ParameterTable) : Bool := t.entries.isEmpty

/-- The document of a table. -/
def toJson (t : ParameterTable) : Json :=
  .object (t.entries.map fun (name, value) => (name, value.toJson))

/-- The parameters without their index. -/
def parameters (t : ParameterTable) : Parameters := ⟨t.entries⟩

/-- The table that some insertions leave. -/
def ofInsertions (calls : List Insertion) : ParameterTable :=
  calls.foldl (fun t call => t.insert call.1 call.2) empty

variable {t : ParameterTable} {name : String} {i : Nat}

/-- The index has the names of the entries with their positions, and nothing else. -/
def IsIndexed (t : ParameterTable) : Prop :=
  ∀ (name : String) (i : Nat), t.index[name]? = some i ↔ t.names[i]? = some name

/-- A table without parameters has an empty index. -/
theorem isIndexed_empty : empty.IsIndexed := Indexes.empty

namespace IsIndexed

/-- The index is the one of the names. -/
theorem indexes (h : t.IsIndexed) : Indexes t.index t.names := h

/-- What is found through the index is what the search through the entries finds. -/
theorem get?_eq (h : t.IsIndexed) (name : String) : t.get? name = t.parameters.get? name := by
  have hfind := h.indexes.getElem?_eq name
  unfold get? Parameters.get?
  show _ = (t.entries.find? (·.1 == name)).map (·.2)
  rw [← hfind, Option.map_bind]
  rfl

/-- The entries are the names, each with its value. -/
theorem entries_eq (h : t.IsIndexed) :
    t.entries = t.names.filterMap fun name => (t.get? name).map (name, ·) := by
  have hnodup : t.parameters.names.Nodup := h.indexes.nodup
  have hvalues := Parameters.entries_eq hnodup
  simp only [← h.get?_eq] at hvalues
  exact hvalues

/-- The document has the names, each with the document of its value. -/
theorem toJson_eq (h : t.IsIndexed) :
    t.toJson = .object (t.names.filterMap fun name =>
      (t.get? name).map fun value => (name, value.toJson)) := by
  unfold toJson
  conv_lhs => rw [h.entries_eq, List.map_filterMap]
  simp only [Option.map_map]
  rfl

/-- The index has the names that are bound. -/
theorem contains_eq (h : t.IsIndexed) (name : String) :
    t.contains name = t.parameters.contains name := by
  rw [Bool.eq_iff_iff, Parameters.contains_eq_true_iff]
  unfold contains
  rw [Std.HashMap.contains_eq_isSome_getElem?]
  exact h.indexes.isSome_iff

/-- Inserting a parameter does to the entries what it does without an index. -/
theorem parameters_insert (h : t.IsIndexed) (name : String) (value : Value) :
    (t.insert name value).parameters = t.parameters.insert name value := by
  have hcontains := h.contains_eq name
  unfold contains at hcontains
  rw [Std.HashMap.contains_eq_isSome_getElem?] at hcontains
  unfold insert Parameters.insert
  cases hindex : t.index[name]? with
  | none =>
    rw [hindex] at hcontains
    rw [← hcontains]
    rfl
  | some i =>
    rw [hindex] at hcontains
    rw [← hcontains]
    -- The name stands at the position that the index says, and at no other one.
    have hname := (h name i).mp hindex
    have hentries : t.entries.modify i (fun entry => (entry.1, value)) =
        t.entries.map fun entry => if entry.1 == name then (entry.1, value) else entry := by
      apply List.ext_getElem?
      intro j
      rw [List.getElem?_modify, List.getElem?_map]
      cases hentry : t.entries[j]? with
      | none => rfl
      | some entry =>
        have hj : t.names[j]? = some entry.1 := by
          unfold names
          rw [List.getElem?_map, hentry]
          rfl
        by_cases heq : i = j
        · have hsame : entry.1 = name := by
            rw [← heq, hname] at hj
            exact (Option.some.inj hj).symm
          simp [heq, hsame]
        · have hother : entry.1 ≠ name := by
            rintro hsame
            rw [hsame] at hj
            have hpositions := (h name j).mpr hj
            rw [hindex] at hpositions
            exact heq (Option.some.inj hpositions)
          simp [heq, hother]
    exact congrArg Parameters.mk hentries

/-- Inserting a parameter keeps the index right. -/
theorem insert (h : t.IsIndexed) (name : String) (value : Value) :
    (t.insert name value).IsIndexed := by
  have hnames : (t.insert name value).names =
      if name ∈ t.names then t.names else t.names ++ [name] := by
    have hinserted := t.parameters.names_insert name value
    rw [← h.parameters_insert name value] at hinserted
    exact hinserted
  show Indexes _ (t.insert name value).names
  rw [hnames]
  unfold ParameterTable.insert
  cases hindex : t.index[name]? with
  | some i =>
    have hmem : name ∈ t.names := by
      rw [← h.indexes.isSome_iff, hindex]
      rfl
    rw [if_pos hmem]
    exact h.indexes
  | none =>
    have hmem : name ∉ t.names := h.indexes.eq_none_iff.mp hindex
    have hlength : t.names.length = t.entries.length := List.length_map ..
    rw [if_neg hmem, ← hlength]
    exact h.indexes.push hmem

end IsIndexed

/-- The last insertion is done to what the others leave. -/
theorem ofInsertions_concat (calls : List Insertion) (call : Insertion) :
    ofInsertions (calls ++ [call]) = (ofInsertions calls).insert call.1 call.2 :=
  List.foldl_concat ..

/-- After any insertions the index is right, and the entries are those that they leave without an
index. -/
theorem isIndexed_ofInsertions (calls : List Insertion) :
    (ofInsertions calls).IsIndexed ∧
      (ofInsertions calls).parameters = Parameters.ofInsertions calls := by
  induction calls using List.reverseRecOn with
  | nil => exact ⟨isIndexed_empty, rfl⟩
  | append_singleton calls call ih =>
    obtain ⟨hindexed, hparameters⟩ := ih
    rw [ofInsertions_concat, Parameters.ofInsertions_concat, ← hparameters]
    exact ⟨hindexed.insert call.1 call.2, hindexed.parameters_insert call.1 call.2⟩

/-- Whatever parameters are inserted, and however often under a name, the table holds them: its
names differ and stand in the order in which they came up first, the index has just these names with
their positions, and a name has the value that came last under it, and none if it never came up. The
other answers agree with the entries: a name is contained when it is one of theirs, there are as
many parameters as names, and the entries and the document have the names in their order, each with
its value. The parameters that are kept without an index are the same. -/
theorem holds_insertions (calls : List Insertion) :
    let t := ofInsertions calls
    t.names.Nodup ∧ t.names = (calls.map (·.1)).eraseDups ∧
    (∀ (name : String) (i : Nat), t.index[name]? = some i ↔ t.names[i]? = some name) ∧
    (∀ name, t.get? name = (calls.reverse.find? (·.1 == name)).map (·.2)) ∧
    (∀ name, t.contains name = true ↔ name ∈ t.names) ∧
    t.size = t.names.length ∧ (t.isEmpty = true ↔ calls = []) ∧
    t.entries = t.names.filterMap (fun name => (t.get? name).map (name, ·)) ∧
    t.toJson = .object (t.names.filterMap fun name =>
      (t.get? name).map fun value => (name, value.toJson)) ∧
    t.parameters = Parameters.ofInsertions calls := by
  intro t
  obtain ⟨hindexed, hparameters⟩ := isIndexed_ofInsertions calls
  have hget : ∀ name, t.get? name = (Parameters.ofInsertions calls).get? name := fun name =>
    hparameters ▸ hindexed.get?_eq name
  have hnames : t.names = (calls.map (·.1)).eraseDups := by
    rw [← Parameters.names_ofInsertions, ← hparameters]
    rfl
  have hempty : t.isEmpty = true ↔ calls = [] := by
    show t.entries.isEmpty = true ↔ _
    rw [List.isEmpty_iff, ← @List.map_eq_nil_iff _ _ Prod.fst]
    show t.names = [] ↔ _
    rw [hnames, List.eq_nil_iff_forall_not_mem]
    simp [List.eq_nil_iff_forall_not_mem]
  refine ⟨hindexed.indexes.nodup, hnames, hindexed, ?_, ?_, (List.length_map ..).symm, hempty,
    hindexed.entries_eq, hindexed.toJson_eq, hparameters⟩
  · intro name
    rw [hget, Parameters.get?_ofInsertions]
  · intro name
    rw [hindexed.contains_eq, Parameters.contains_eq_true_iff]
    rfl

end ParameterTable

end EntityQuery
