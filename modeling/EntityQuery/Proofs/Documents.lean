import EntityQuery.Document.Options
import EntityQuery.Proofs.Comparisons
import EntityQuery.Proofs.Instants
import EntityQuery.Sample.Orders

/-!
# Reading documents as they are written

Expressions, sort keys and query options are read back from their documents (`documents_read_back`).
A document is a record, whose fields are found again under their keys (`Json.asRecord_object`), or
an object with the name of its form among its members (`Json.asTagged_object`). So each form reads
back when its fields do, which for expressions is the induction over the tree. It is carried out for
every bound on the depth that the document keeps (`Expr.ofJsonWithin?_toJson`), since the operands
are read with a bound that is smaller by one.

Two kinds of constants are left out. A number of double precision may be no number, and an instant
outside the years of four digits is written with a sign.
-/

namespace EntityQuery

/-! ## Forms of documents -/

namespace Json

variable {α : Type}

/-- A member is found alone under its key among members with different keys. -/
theorem filter_key {members : List (String × Json)} {member : String × Json}
    (hnodup : (members.map (·.1)).Nodup) (hmem : member ∈ members) :
    (members.filter fun m => m.1 == member.1) = [member] := by
  induction members with
  | nil => cases hmem
  | cons first members ih =>
    obtain ⟨hnew, hrest⟩ := List.nodup_cons.mp hnodup
    rcases List.mem_cons.mp hmem with rfl | hmem
    · have hnone : (members.filter fun m => m.1 == member.1) = [] := by
        rw [List.filter_eq_nil_iff]
        intro m hm heq
        rw [beq_iff_eq] at heq
        exact hnew (List.mem_map.mpr ⟨m, hm, heq⟩)
      simp [hnone]
    · have hne : ¬first.1 = member.1 := by
        intro heq
        exact hnew (List.mem_map.mpr ⟨member, hmem, heq.symm⟩)
      rw [List.filter_cons_of_neg (by simpa using hne)]
      exact ih hrest hmem

/-- What is done with every item of a list succeeds when it does with each. -/
theorem mapM_eq_some {β : Type} {f : α → Option β} {g : α → β} {as : List α}
    (h : ∀ a ∈ as, f a = some (g a)) : as.mapM f = some (as.map g) := by
  induction as with
  | nil => rfl
  | cons a as ih =>
    have ha := h a List.mem_cons_self
    have has := ih fun a' ha' => h a' (List.mem_cons_of_mem a ha')
    simp [List.mapM_cons, ha, has]

/-- A record is read back from the object of its fields. -/
theorem asRecord_object {members : List (String × Json)} (h : (members.map (·.1)).Nodup) :
    asRecord (members.map (·.1)) (object members) = some (members.map fun m => some m.2) := by
  unfold asRecord
  dsimp only
  rw [List.mapM_map]
  refine mapM_eq_some fun m hm => ?_
  have hfound : (members.filter fun m' => m'.1 == m.1) = [m] := filter_key h hm
  simp [hfound]

/-- A form is read back from an object with its name and its other fields. -/
theorem asTagged_object {key tag : String} {members : List (String × Json)}
    (h : key ∉ members.map (·.1)) :
    asTagged key (object ((key, string tag) :: members)) = some (tag, object members) := by
  have hother : ∀ m ∈ members, m.1 ≠ key := by
    rintro m hm rfl
    exact h (List.mem_map_of_mem hm)
  have hnone : (members.filter fun m => m.1 == key) = [] := by
    rw [List.filter_eq_nil_iff]
    intro m hm
    simpa using hother m hm
  have hall : (members.filter fun m => m.1 != key) = members := by
    rw [List.filter_eq_self]
    intro m hm
    simpa using hother m hm
  simp [asTagged, hnone, hall]

/-- A list is read back when each of its items is. -/
theorem asList_ofList {encode : α → Json} {decode : Decoder α} {as : List α}
    (h : ∀ a ∈ as, decode (encode a) = some a) : asList decode (ofList encode as) = some as := by
  show (as.map encode).mapM decode = some as
  rw [List.mapM_map]
  exact (mapM_eq_some h).trans (congrArg some as.map_id)

/-- An optional value is read back when it is, and is not written as `null`. -/
theorem asOption_ofOption {encode : α → Json} {decode : Decoder α} {a? : Option α}
    (h : ∀ a ∈ a?, decode (encode a) = some a) (hnull : ∀ a, encode a ≠ null) :
    asOption decode (ofOption encode a?) = some a? := by
  cases a? with
  | none => rfl
  | some a =>
    have ha := h a rfl
    unfold ofOption asOption
    split
    next heq => exact absurd heq (hnull a)
    next => rw [ha]; rfl

/-- A number within the bounds is read. -/
theorem asIntIn_int {least most n : Int} (h : least ≤ n ∧ n ≤ most) :
    asIntIn least most (int n) = some n := by
  unfold asIntIn
  exact if_pos h

/-- An integer of 32 bits is read back. -/
theorem asInt32_int (n : Int32) : asInt32 (int n.toInt) = some n := by
  unfold asInt32
  rw [asIntIn_int ⟨n.minValue_le_toInt, n.toInt_le⟩]
  exact congrArg some (Int32.ofInt_toInt n)

/-- An integer of 64 bits is read back. -/
theorem asInt64_int (n : Int64) : asInt64 (int n.toInt) = some n := by
  unfold asInt64
  rw [asIntIn_int ⟨n.minValue_le_toInt, n.toInt_le⟩]
  exact congrArg some (Int64.ofInt_toInt n)

/-- A byte is read back. -/
theorem asByte_int (b : UInt8) : asByte (int b.toNat) = some b := by
  have hlt : b.toNat < 256 := b.toNat_lt
  have hbounds : (0 : Int) ≤ b.toNat ∧ (b.toNat : Int) ≤ 255 := by omega
  simp [asByte, asIntIn_int hbounds]

end Json

/-! ## Values -/

/-- Every type is read back from its name. -/
theorem EdmType.ofJson?_toJson (ty : EdmType) : ofJson? ty.toJson = some ty := ty.ofTag?_tag

/-- Bytes are read back. -/
theorem asList_bytesToJson (bytes : List UInt8) :
    Json.asList Json.asByte (bytesToJson bytes) = some bytes :=
  Json.asList_ofList fun b _ => Json.asByte_int b

namespace Value

/-- A value that is no number of double precision, and no instant outside the years of four
digits. -/
def IsKept : Value → Prop
  | float64 _ => False
  | dateTime t => 0 ≤ t.toClock.date.year ∧ t.toClock.date.year ≤ 9999
  | _ => True

/-- The document of a kind and some content is read as the content of the kind. -/
theorem ofJson?_object (kind : String) (content : Json) :
    ofJson? (.object [("type", .string kind), ("value", content)]) =
      ofContent? kind (some content) := by
  simp [ofJson?, Json.asTaggedContent, Json.asString]

/-- A value is read back from its document. -/
theorem ofJson?_toJson {v : Value} (h : v.IsKept) : ofJson? v.toJson = some v := by
  cases v with
  | null => rfl
  | bool b => rfl
  | int32 n =>
    refine (ofJson?_object "Int32" _).trans ?_
    simp [ofContent?, Json.asInt32_int]
  | int64 n =>
    refine (ofJson?_object "Int64" _).trans ?_
    simp [ofContent?, Json.asInt64_int]
  | float64 x => exact h.elim
  | decimal s => rfl
  | string s => rfl
  | bytes bs =>
    refine (ofJson?_object "Bytes" _).trans ?_
    simp [ofContent?, asList_bytesToJson]
  | dateTime t =>
    have hread : Instant.ofLenientText? t.text = some t := Instant.ofLenientText?_text h
    refine (ofJson?_object "DateTime" _).trans ?_
    simp [ofContent?, Json.asString, hread]
  | guid g =>
    have hguid : Guid.ofBytes? g.bytes = some g := dif_pos g.length_bytes
    refine (ofJson?_object "Guid" _).trans ?_
    simp [ofContent?, asList_bytesToJson, hguid]

end Value

/-! ## Expressions -/

/-- A choice is read back from its name. -/
theorem Expr.choiceOfJson?_string {α : Type} {ofTag? : String → Option α} {tag : String} {a : α}
    (h : ofTag? tag = some a) : choiceOfJson? ofTag? (.string tag) = some a := h

namespace Expr

/-- Every constant of an expression is kept by its document. -/
def IsKept (e : Expr) : Prop := ∀ v ty, .constant v ty ∈ e.parts → v.IsKept

/-- A node is read by its kind, with a bound for its operands that is smaller by one. -/
theorem ofJsonWithin?_object {kind : String} {members : List (String × Json)} {bound : Nat}
    (h : "node" ∉ members.map (·.1)) :
    ofJsonWithin? (bound + 1) (.object (("node", .string kind) :: members)) =
      ofFields? (ofJsonWithin? bound) kind (.object members) := by
  rw [ofJsonWithin?, Json.asTagged_object h, Option.bind_some]

/-- A bound above a sum with one is no zero. -/
theorem exists_bound {n bound : Nat} (h : 1 + n ≤ bound) : ∃ m, bound = m + 1 ∧ n ≤ m :=
  ⟨bound - 1, by omega, by omega⟩

/-- An expression is read back with any bound on the depth that its document keeps. -/
theorem ofJsonWithin?_toJson {e : Expr} (h : e.IsKept) {bound : Nat}
    (hdepth : e.toJson.depth ≤ bound) : ofJsonWithin? bound e.toJson = some e := by
  -- Every node makes its document deeper than those of its operands, so each is read with a bound
  -- that its document keeps.
  induction e using @Expr.rec _
    (fun es => (∀ v ty, .constant v ty ∈ parts.partsOfAll es → v.IsKept) → ∀ bound,
      Json.depth.itemsDepth (toJson.listToJson es) ≤ bound →
        (toJson.listToJson es).mapM (ofJsonWithin? bound) = some es)
    generalizing bound with
  | logical op left right ihl ihr | arithmetic op left right ihl ihr
  | relational op left right ihl ihr =>
    have hleft : left.IsKept := fun v ty hv =>
      h v ty (List.mem_cons_of_mem _ (List.mem_append_left _ hv))
    have hright : right.IsKept := fun v ty hv =>
      h v ty (List.mem_cons_of_mem _ (List.mem_append_right _ hv))
    have hop := choiceOfJson?_string op.ofTag?_tag
    simp only [toJson, Json.depth, Json.depth.membersDepth] at hdepth
    obtain ⟨n, rfl, hn⟩ := exists_bound hdepth
    have hl : ofJsonWithin? n left.toJson = some left := ihl hleft (by omega)
    have hr : ofJsonWithin? n right.toJson = some right := ihr hright (by omega)
    have hrecord : Json.asRecord ["op", "left", "right"]
        (.object [("op", .string op.tag), ("left", left.toJson), ("right", right.toJson)]) =
        some [some (.string op.tag), some left.toJson, some right.toJson] :=
      Json.asRecord_object (by simp)
    rw [toJson, ofJsonWithin?_object (by simp)]
    simp [ofFields?, hrecord, Json.required, hop, hl, hr]
  | unary op operand ih =>
    have hoperand : operand.IsKept := fun v ty hv => h v ty (List.mem_cons_of_mem _ hv)
    have hop := choiceOfJson?_string op.ofTag?_tag
    simp only [toJson, Json.depth, Json.depth.membersDepth] at hdepth
    obtain ⟨n, rfl, hn⟩ := exists_bound hdepth
    have ho : ofJsonWithin? n operand.toJson = some operand := ih hoperand (by omega)
    have hrecord : Json.asRecord ["op", "operand"]
        (.object [("op", .string op.tag), ("operand", operand.toJson)]) =
        some [some (.string op.tag), some operand.toJson] := Json.asRecord_object (by simp)
    rw [toJson, ofJsonWithin?_object (by simp)]
    simp [ofFields?, hrecord, Json.required, hop, ho]
  | property path ty =>
    have hpath : Json.asList Json.asString (Json.ofList .string path) = some path :=
      Json.asList_ofList fun _ _ => rfl
    simp only [toJson, Json.depth] at hdepth
    obtain ⟨n, rfl, -⟩ := exists_bound hdepth
    have hrecord : Json.asRecord ["path", "ty"]
        (.object [("path", Json.ofList .string path), ("ty", ty.toJson)]) =
        some [some (Json.ofList .string path), some ty.toJson] := Json.asRecord_object (by simp)
    rw [toJson, ofJsonWithin?_object (by simp)]
    simp [ofFields?, hrecord, Json.required, hpath, ty.ofJson?_toJson]
  | call f args ih =>
    have hf : builtinOfJson? (.string f.name) = some f := f.ofName?_name
    simp only [toJson, Json.depth, Json.depth.membersDepth] at hdepth
    obtain ⟨n, rfl, hn⟩ := exists_bound hdepth
    -- The list of the arguments is one level of its own.
    have hargs : (toJson.listToJson args).mapM (ofJsonWithin? n) = some args :=
      ih (fun v ty hv => h v ty (List.mem_cons_of_mem _ hv)) n (by omega)
    have hlist : Json.asList (ofJsonWithin? n) (.array (toJson.listToJson args)) = some args :=
      hargs
    have hrecord : Json.asRecord ["function", "args"]
        (.object [("function", .string f.name), ("args", .array (toJson.listToJson args))]) =
        some [some (.string f.name), some (.array (toJson.listToJson args))] :=
      Json.asRecord_object (by simp)
    rw [toJson, ofJsonWithin?_object (by simp)]
    simp [ofFields?, hrecord, Json.required, hf, hlist]
  | constant v ty =>
    have hv : Value.ofJson? v.toJson = some v :=
      Value.ofJson?_toJson (h v ty (List.mem_singleton.mpr rfl))
    simp only [toJson, Json.depth] at hdepth
    obtain ⟨n, rfl, -⟩ := exists_bound hdepth
    have hrecord : Json.asRecord ["value", "ty"]
        (.object [("value", v.toJson), ("ty", ty.toJson)]) =
        some [some v.toJson, some ty.toJson] := Json.asRecord_object (by simp)
    rw [toJson, ofJsonWithin?_object (by simp)]
    simp [ofFields?, hrecord, Json.required, hv, ty.ofJson?_toJson]
  | nil => rfl
  | cons e es ihe ihes =>
    rename_i hall bound hdepth
    simp only [toJson.listToJson, Json.depth.itemsDepth] at hdepth
    have he : ofJsonWithin? bound e.toJson = some e :=
      ihe (fun v ty hv => hall v ty (List.mem_append_left _ hv)) (by omega)
    have hes : (toJson.listToJson es).mapM (ofJsonWithin? bound) = some es :=
      ihes (fun v ty hv => hall v ty (List.mem_append_right _ hv)) bound (by omega)
    simp [toJson.listToJson, List.mapM_cons, he, hes]

/-- An expression is read back from its document. -/
theorem ofJson?_toJson {e : Expr} (h : e.IsKept) : ofJson? e.toJson = some e :=
  ofJsonWithin?_toJson h (Nat.le_refl _)

end Expr

/-! ## Query options -/

/-- A sort key is read back from its document. -/
theorem OrderKey.ofJson?_toJson {key : OrderKey} (h : key.expr.IsKept) :
    ofJson? key.toJson = some key := by
  have hexpr := Expr.ofJson?_toJson h
  have hdirection := Expr.choiceOfJson?_string key.direction.ofKeyword?_keyword
  have hrecord : Json.asRecord ["expr", "direction"] key.toJson =
      some [some key.expr.toJson, some (.string key.direction.keyword)] :=
    Json.asRecord_object (by simp)
  simp [ofJson?, hrecord, Json.required, Json.withDefault, hexpr, hdirection]

/-- Every constant of query options is kept by their document. -/
structure QueryOptions.IsKept (o : QueryOptions) : Prop where
  /-- Those of the filter are. -/
  filter : ∀ e ∈ o.filter, e.IsKept
  /-- Those of the sort keys are. -/
  orderBy : ∀ key ∈ o.orderBy, key.expr.IsKept

/-- Query options are read back from their document. -/
theorem QueryOptions.ofJson?_toJson {o : QueryOptions} (h : o.IsKept) :
    ofJson? o.toJson = some o := by
  have hfilter : Json.asOption Expr.ofJson? (Json.ofOption Expr.toJson o.filter) = some o.filter :=
    Json.asOption_ofOption (fun e he => Expr.ofJson?_toJson (h.filter e he)) (by
      intro e
      cases e <;> simp [Expr.toJson])
  have horderBy : Json.asList OrderKey.ofJson? (Json.ofList OrderKey.toJson o.orderBy) =
      some o.orderBy :=
    Json.asList_ofList fun key hkey => OrderKey.ofJson?_toJson (h.orderBy key hkey)
  have htext : ∀ text? : Option String,
      Json.asOption Json.asString (Json.ofOption .string text?) = some text? := fun text? =>
    Json.asOption_ofOption (fun _ _ => rfl) (by simp)
  have hrecord : Json.asRecord ["filter", "order_by", "select", "expand", "top", "skip"] o.toJson =
      some [some (Json.ofOption Expr.toJson o.filter), some (Json.ofList OrderKey.toJson o.orderBy),
        some (Json.ofOption .string o.select), some (Json.ofOption .string o.expand),
        some (Json.ofOption .string o.top), some (Json.ofOption .string o.skip)] :=
    Json.asRecord_object (by simp)
  simp [ofJson?, hrecord, Json.withDefault, hfilter, horderBy, htext]

/-- Expressions, sort keys and query options are read back from their documents, unless they have a
constant of double precision or an instant outside the years of four digits. -/
theorem documents_read_back :
    (∀ e : Expr, e.IsKept → Expr.ofJson? e.toJson = some e) ∧
    (∀ key : OrderKey, key.expr.IsKept → OrderKey.ofJson? key.toJson = some key) ∧
    ∀ o : QueryOptions, o.IsKept → QueryOptions.ofJson? o.toJson = some o :=
  ⟨fun _ => Expr.ofJson?_toJson, fun _ => OrderKey.ofJson?_toJson,
    fun _ => QueryOptions.ofJson?_toJson⟩

/-- The middle of the leap second at the end of 2016. -/
def Shop.leapSecond : Instant := ⟨1483228799, 1500000000, by decide⟩

/-- The five customers that come last by a part of their names among those with orders from the
leap second on. -/
def Shop.sinceLeapSecond : QueryOptions where
  filter := some (.relational .ge (.property ["orders", "placed"] .dateTime)
    (.constant (.dateTime leapSecond) .dateTime))
  orderBy := [⟨namePart, .descending⟩]
  top := some "5"

/-- The query since the leap second, its filter and its sort keys are read back. -/
theorem Shop.sinceLeapSecond_read_back :
    sinceLeapSecond.IsKept ∧
      QueryOptions.ofJson? sinceLeapSecond.toJson = some sinceLeapSecond ∧
      (∀ e ∈ sinceLeapSecond.filter, Expr.ofJson? e.toJson = some e) ∧
      ∀ key ∈ sinceLeapSecond.orderBy, OrderKey.ofJson? key.toJson = some key := by
  have hyear : leapSecond.toClock.date.year = 2016 := by decide
  have hkept : sinceLeapSecond.IsKept := by
    constructor
    · intro e he v ty hv
      cases he
      simp [Expr.parts] at hv
      obtain ⟨rfl, -⟩ := hv
      show 0 ≤ leapSecond.toClock.date.year ∧ leapSecond.toClock.date.year ≤ 9999
      omega
    · intro key hkey v ty hv
      cases List.mem_singleton.mp hkey
      simp [namePart, Expr.parts, Expr.parts.partsOfAll] at hv
      obtain ⟨rfl, -⟩ := hv
      trivial
  obtain ⟨hexpr, hkey, hoptions⟩ := documents_read_back
  exact ⟨hkept, hoptions _ hkept, fun e he => hexpr e (hkept.filter e he),
    fun key h => hkey key (hkept.orderBy key h)⟩

end EntityQuery
