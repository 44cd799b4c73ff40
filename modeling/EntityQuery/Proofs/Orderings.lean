import EntityQuery.Proofs.Comparisons
import EntityQuery.Proofs.Payloads
import EntityQuery.Proofs.TypedNames

/-!
# Orders on values without one

Identifiers and binary data can be equal, but none comes before another. `orders_by_kind` says
how far that is respected when a filter text is compiled. No order of the predicate has a parameter
whose value is an identifier or binary data for an operand. A column that is declared to have no
order is an operand of one where the property was written as an argument of `datetimecompare`, which
takes its arguments for points in time and looks at no types; the operators themselves refuse it.

A column of a predicate is found at a place that the joins lead to, and since the joins are sound
its alias tells the entity type of that place (`Scope.Sound.entity?_place`). There the type that the
property was typed with is the declared type of the column (`Typing.pathType_declared`). So what the
operators check of the typed expression is checked of the columns.
-/

open Relation (ReflTransGen)

namespace EntityQuery

/-- Values of which none comes before another: identifiers and binary data. -/
def Value.isOpaque : Value → Bool
  | guid _ | bytes _ => true
  | _ => false

/-! ## Declared types of columns -/

/-- The entity type whose columns an alias qualifies: the root's, or the target of a join. -/
def JoinPlan.entity? (plan : JoinPlan) (root : String) (root? alias? : Option String) :
    Option String :=
  if alias? = root? then some root
  else (plan.steps.find? fun step => some step.aliasName == alias?).map (·.target)

namespace Scope

variable {s : Scope} {plan : JoinPlan}

/-- The type that is declared for a column, on the entity type that its alias qualifies. -/
def columnType? (s : Scope) (plan : JoinPlan) (alias? : Option String) (name : String) :
    Option EdmType :=
  (plan.entity? s.root s.config.rootAlias? alias?).bind fun entity =>
    s.metadata.scalarType? entity name

/-- The alias of a place qualifies the columns of its entity type. -/
theorem Sound.entity?_place (h : s.Sound plan) {path : List String} {place : Place}
    (hplace : s.place? plan path = some place) :
    plan.entity? s.root s.config.rootAlias? place.alias? = some place.entity := by
  unfold place? at hplace
  unfold JoinPlan.entity?
  split at hplace
  next hroot =>
    cases hplace
    exact if_pos rfl
  next =>
    obtain ⟨step, hget, rfl⟩ := Option.map_eq_some_iff.mp hplace
    obtain ⟨hmem, rfl⟩ := JoinPlan.get?_eq_some hget
    have hroot := h.root_not_mem step.aliasName (List.mem_map_of_mem hmem)
    rw [if_neg hroot.symm, h.find?_alias hmem]
    rfl

/-- The joins of a compiled condition are sound. -/
theorem sound_condition {e : Expr} {p : Predicate} {t : Session}
    (h : s.condition e .start = .ok p t) : s.Sound t.joins :=
  (Sound.empty s).grows (Session.joins_grow ((s.condition_gathers e).moves.ok h))

end Scope

/-! ## Typed expressions -/

/-- What typing says of a part of an expression: a property has the type of its path, and a literal
is neither an identifier nor binary data, which are written as texts. -/
def Expr.IsTyped (m : Metadata) (root : String) : Expr → Prop
  | .property path ty => ∃ span, Typing.pathType m root path span = .ok ty
  | .constant value _ => value.isOpaque = false
  | _ => True

namespace Typing

variable {m : Metadata} {root : String} {s : Scope}

/-- The type of a path is the declared type of the column that it names. -/
theorem pathType_declared {path : List String} {span : Span} {ty declared : EdmType}
    {last column : String} {place : Place} (h : pathType s.metadata s.root path span = .ok ty)
    (hlast : path.getLast? = some last)
    (hwalk : s.metadata.walk? s.root path.dropLast = some place.entity)
    (hcolumn : s.column? place last = some column)
    (hdeclared : s.metadata.scalarType? place.entity column = some declared) : ty = declared := by
  unfold pathType at h
  rw [hlast] at h
  obtain ⟨entity, hentity, hty⟩ := except_bind_eq_ok.mp h
  have hsame : entity = place.entity := Option.some.inj ((walk_ok hentity).symm.trans hwalk)
  rw [hsame, lastType_of_column hcolumn hdeclared] at hty
  exact (Except.ok.inj hty).symm

/-- A literal is typed to a constant that is no identifier and no binary data. -/
theorem constant_ok {literal : Literal} {span : Span} {e : Expr}
    (h : constant literal span = .ok e) :
    ∃ value ty, e = .constant value ty ∧ value.isOpaque = false := by
  cases literal with
  | int n =>
    unfold constant at h
    dsimp only at h
    split at h
    all_goals
      cases h
      exact ⟨_, _, rfl, rfl⟩
  | double x =>
    unfold constant at h
    dsimp only at h
    split at h
    next =>
      cases h
      exact ⟨_, _, rfl, rfl⟩
    next => cases h
  | _ =>
    cases h
    exact ⟨_, _, rfl, rfl⟩

/-- The parts of an operation are the operation and those of its operands. -/
theorem parts_binary (op : BinaryOp) (left right : Expr) :
    (binary op left right).parts = binary op left right :: (left.parts ++ right.parts) := by
  cases op with
  | logical op => rfl
  | relational op => rfl
  | arithmetic op => rfl

/-- An operation says nothing of its type. -/
theorem binary_isTyped (op : BinaryOp) (left right : Expr) :
    (binary op left right).IsTyped m root := by
  cases op with
  | logical op => trivial
  | relational op => trivial
  | arithmetic op => trivial

/-- Every part of what is typed is typed. -/
theorem expr_isTyped {e : Syntax} {typed : Expr} (h : expr m root e = .ok typed) :
    ∀ part ∈ typed.parts, part.IsTyped m root := by
  have hconstant : ∀ {literal : Literal} {span : Span} {typed : Expr},
      constant literal span = .ok typed → ∀ part ∈ typed.parts, part.IsTyped m root := by
    intro literal span typed h
    obtain ⟨value, ty, rfl, hvalue⟩ := constant_ok h
    exact List.forall_mem_singleton.mpr hvalue
  induction e using @Syntax.rec _
    (fun es => ∀ typed, expr.exprs m root es = .ok typed →
      ∀ part ∈ Expr.parts.partsOfAll typed, part.IsTyped m root)
    generalizing typed with
  | binary op left right span ihl ihr =>
    unfold expr at h
    obtain ⟨l, hleft, h⟩ := except_bind_eq_ok.mp h
    obtain ⟨r, hright, h⟩ := except_bind_eq_ok.mp h
    cases h
    rw [parts_binary, List.forall_mem_cons, List.forall_mem_append]
    exact ⟨binary_isTyped op l r, ihl hleft, ihr hright⟩
  | unary op operand span ih =>
    rcases expr_unary_ok h with ⟨literal, span, h⟩ | ⟨inner, hoperand, rfl⟩
    · exact hconstant h
    · exact List.forall_mem_cons.mpr ⟨trivial, ih hoperand⟩
  | path segments span =>
    unfold expr at h
    obtain ⟨ty, hty, h⟩ := except_bind_eq_ok.mp h
    cases h
    exact List.forall_mem_singleton.mpr ⟨span, hty⟩
  | call name args span ih =>
    unfold expr at h
    obtain ⟨f, hf, h⟩ := except_bind_eq_ok.mp h
    obtain ⟨typed, hargs, h⟩ := except_bind_eq_ok.mp h
    cases h
    exact List.forall_mem_cons.mpr ⟨trivial, ih typed hargs⟩
  | literal value span =>
    unfold expr at h
    exact hconstant h
  | nil =>
    rename_i h part hpart
    cases h
    exact (List.not_mem_nil hpart).elim
  | cons e es ihe ihes =>
    rename_i h part hpart
    unfold expr.exprs at h
    obtain ⟨first, he, h⟩ := except_bind_eq_ok.mp h
    obtain ⟨rest, hes, h⟩ := except_bind_eq_ok.mp h
    cases h
    exact List.forall_mem_append.mpr ⟨ihe he, ihes rest hes⟩ part hpart

end Typing

section

variable {s : Scope} {t : Session} {e : Expr} {written : List Expr} {op : RelationalOp}
  {x y : Scalar} {name : String}

/-! ## Operands -/

/-- The column of an operand has the declared type that the property was typed with. -/
theorem Scalar.OperandOf.declared {alias? : Option String} {ty : EdmType}
    (h : (Scalar.column alias? name).OperandOf s t e) (hsound : s.Sound t.joins)
    (htyped : e.IsTyped s.metadata s.root) (hty : s.columnType? t.joins alias? name = some ty) :
    ∃ path, e = .property path ty := by
  cases h with
  | value hx =>
    obtain ⟨path, typedTy, last, place, rfl, hlast, hplace, rfl, hname⟩ := hx.shows
    obtain ⟨span, hpath⟩ := htyped
    have hentity := hsound.entity?_place hplace
    have hdeclared : s.metadata.scalarType? place.entity name = some ty := by
      unfold Scope.columnType? at hty
      rw [hentity] at hty
      exact hty
    have hsame :=
      Typing.pathType_declared hpath hlast (hsound.walk_place hplace) hname hdeclared
    exact ⟨path, by rw [hsame]⟩

/-- The parameter of an operand is bound to no identifier and to no binary data, unless a text of a
type without an order is written. -/
theorem Scalar.OperandOf.not_isOpaque {v : Value} (h : (Scalar.parameter name).OperandOf s t e)
    (htyped : e.IsTyped s.metadata s.root)
    (htext : ∀ text ty, e = .constant (.string text) ty → ty.isEqualityOnly = false)
    (hv : t.parameters.get? name = some v) : v.isOpaque = false := by
  cases h with
  | value hx => exact hx.shows.elim
  | @literal written w ty _ he hw hname =>
    have hsame : w = v := Option.some.inj (hname.symm.trans hv)
    subst hsame
    rcases Value.normalize_ok hw with rfl | ⟨text, rfl, hread⟩
    · rw [he] at htyped
      exact htyped
    · have horder := htext text ty he
      -- A text is read as an identifier or as binary data where these are declared only.
      rcases Value.ofText_ok hread with ⟨instant, rfl⟩ | ⟨rfl, -⟩ | ⟨rfl, -⟩ | rfl
      · rfl
      · cases horder
      · cases horder
      · rfl

/-- A text that may stand in an order has a declared type with one. -/
theorem Expr.HasOrder.text (h : e.HasOrder) (text : String) (ty : EdmType)
    (he : e = .constant (.string text) ty) : ty.isEqualityOnly = false := by
  apply h
  rw [he]
  rfl

/-- What is compared of a typed argument is typed. -/
theorem Expr.IsTyped.asOperand (f : Builtin) (h : e.IsTyped s.metadata s.root) :
    (e.asOperand f).IsTyped s.metadata s.root := by
  unfold Expr.asOperand
  split
  · rfl
  · exact h

/-- A property that is compared is the argument itself. -/
theorem Expr.eq_property_of_asOperand {f : Builtin} {path : List String} {ty : EdmType}
    (h : e.asOperand f = .property path ty) : e = .property path ty := by
  unfold asOperand at h
  split at h
  · cases h
  · exact h

/-- Where points in time are compared, a text is one. -/
theorem Expr.eq_dateTime_of_asOperand {text : String} {ty : EdmType}
    (h : e.asOperand .dateTimeCompare = .constant (.string text) ty) : ty = .dateTime := by
  unfold asOperand at h
  split at h
  · cases h
    exact if_pos rfl
  next hother => exact absurd h (hother text ty)

/-- A waiting call is a call of its function with its arguments. -/
theorem Expr.eq_call_of_waiting? {f : Builtin} {first second : Expr}
    (h : e.waiting? = some (f, first, second)) : e = .call f [first, second] := by
  unfold waiting? at h
  split at h
  next =>
    split at h
    next =>
      cases h
      rfl
    next => cases h
  next => cases h

/-- An order stems from one that was written between operands with an order, or from one between a
call of `datetimecompare` and zero. -/
theorem Scope.Stems.order (h : s.Stems t written op x y) (hop : op.isEquality = false) :
    (∃ left right, .relational op left right ∈ written ∧ left.HasOrder ∧ right.HasOrder ∧
      x.OperandOf s t left ∧ y.OperandOf s t right) ∨
    ∃ first second right,
      .relational op (.call .dateTimeCompare [first, second]) right ∈ written ∧
        right.isZero = true ∧ x.OperandOf s t (first.asOperand .dateTimeCompare) ∧
        y.OperandOf s t (second.asOperand .dateTimeCompare) := by
  cases h with
  | @values _ left right _ _ hmem hleft hright horder hx hy =>
    rcases horder with heq | ⟨hleftOrder, hrightOrder⟩
    · rw [hop] at heq
      cases heq
    · exact .inl ⟨left, right, hmem, hleftOrder, hrightOrder, hx, hy⟩
  | @arguments written f left right first second _ _ hmem hwaiting hf hallowed hzero hx hy =>
    -- An inequality is compiled to an equality, so the operator is the one that was written.
    have hne : written ≠ .ne := by
      rintro rfl
      cases hop
    rw [if_neg hne] at hop ⊢
    rcases hallowed with heq | rfl
    · rw [hop] at heq
      cases heq
    · rw [Expr.eq_call_of_waiting? hwaiting] at hmem
      exact .inr ⟨first, second, right, hmem, hzero, hx, hy⟩
  | position => cases hop
  | truth => cases hop

end

namespace Scope

/-- The operands of the orders in a compiled filter text. No parameter among them is bound to an
identifier or to binary data. A column among them whose declared type has no order is that of a
property which the text gives to `datetimecompare`, on the same side, in a comparison with zero by
the same operator. -/
theorem orders_by_kind (s : Scope) (source : String) (e : Expr) (f : CompiledFilter)
    (htyped : Expr.ofFilter s.metadata s.root source = .ok e) (h : s.compileFilter e = .ok f) :
    ∀ op x y, .compare op x y ∈ f.predicate.tests → op.isEquality = false →
      (∀ name v, x = .parameter name ∨ y = .parameter name →
        f.parameters.get? name = some v → v.isOpaque = false) ∧
      ∀ alias? name ty, s.columnType? f.joins alias? name = some ty → ty.isEqualityOnly = true →
        (x = .column alias? name → ∃ path second right,
          .relational op (.call .dateTimeCompare [.property path ty, second]) right ∈ e.parts ∧
            right.isZero = true) ∧
        (y = .column alias? name → ∃ first path right,
          .relational op (.call .dateTimeCompare [first, .property path ty]) right ∈ e.parts ∧
            right.isZero = true) := by
  obtain ⟨t, hrun, hjoins, hparameters⟩ := compileFilter_ok h
  have hsound := sound_condition hrun
  have hstems := (traced_condition hrun).1
  obtain ⟨-, parsed, hexpr⟩ := ofFilter_ok htyped
  have hparts := Typing.expr_isTyped hexpr
  rw [hjoins, hparameters]
  intro op x y hmem hop
  rcases (hstems op x y hmem).order hop with
    ⟨left, right, hwritten, hleftOrder, hrightOrder, hx, hy⟩ |
    ⟨first, second, right, hwritten, hzero, hx, hy⟩
  · -- The operator was written between the operands, and their types have been checked.
    obtain ⟨hleftPart, hrightPart⟩ := Expr.operands_mem_parts hwritten rfl
    have hleftTyped := hparts left hleftPart
    have hrightTyped := hparts right hrightPart
    refine ⟨?_, ?_⟩
    · rintro name v (rfl | rfl) hv
      · exact hx.not_isOpaque hleftTyped hleftOrder.text hv
      · exact hy.not_isOpaque hrightTyped hrightOrder.text hv
    · intro alias? name ty hty hnone
      refine ⟨?_, ?_⟩
      · rintro rfl
        obtain ⟨path, rfl⟩ := hx.declared hsound hleftTyped hty
        exact absurd hnone (by rw [hleftOrder ty rfl]; exact Bool.false_ne_true)
      · rintro rfl
        obtain ⟨path, rfl⟩ := hy.declared hsound hrightTyped hty
        exact absurd hnone (by rw [hrightOrder ty rfl]; exact Bool.false_ne_true)
  · -- The arguments of a call are compared, and only their texts have been looked at.
    obtain ⟨hcallPart, -⟩ := Expr.operands_mem_parts hwritten rfl
    obtain ⟨hfirstPart, hsecondPart⟩ := Expr.arguments_mem_parts hcallPart
    have hfirstTyped := (hparts first hfirstPart).asOperand .dateTimeCompare
    have hsecondTyped := (hparts second hsecondPart).asOperand .dateTimeCompare
    have htext : ∀ {arg : Expr} text ty,
        arg.asOperand .dateTimeCompare = .constant (.string text) ty →
          ty.isEqualityOnly = false := by
      intro arg text ty heq
      rw [Expr.eq_dateTime_of_asOperand heq]
      rfl
    refine ⟨?_, ?_⟩
    · rintro name v (rfl | rfl) hv
      · exact hx.not_isOpaque hfirstTyped htext hv
      · exact hy.not_isOpaque hsecondTyped htext hv
    · intro alias? name ty hty _
      refine ⟨?_, ?_⟩
      · rintro rfl
        obtain ⟨path, hpath⟩ := hx.declared hsound hfirstTyped hty
        rw [Expr.eq_property_of_asOperand hpath] at hwritten
        exact ⟨path, second, right, hwritten, hzero⟩
      · rintro rfl
        obtain ⟨path, hpath⟩ := hy.declared hsound hsecondTyped hty
        rw [Expr.eq_property_of_asOperand hpath] at hwritten
        exact ⟨first, path, right, hwritten, hzero⟩

end Scope

namespace Shop

/-- Whether the order of two identifiers of customers is asked for. -/
def ordersTokens (f : CompiledFilter) : Bool :=
  f.predicate.tests.any fun
    | .compare op (.column none "token") (.column none "token") => !op.isEquality
    | _ => false

/-- The identifiers of customers are ordered when they are compared as points in time. -/
theorem tokens_ordered :
    ∃ e f op, Expr.ofFilter customers.metadata customers.root
        "datetimecompare(token, token) gt 0" = .ok e ∧
      customers.compileFilter e = .ok f ∧ op.isEquality = false ∧
      .compare op (.column none "token") (.column none "token") ∈ f.predicate.tests := by
  have hruns : ((Expr.ofFilter customers.metadata customers.root
      "datetimecompare(token, token) gt 0").toOption.any fun e =>
        (customers.compileFilter e).toOption.any ordersTokens) = true := by decide +kernel
  cases htyped : Expr.ofFilter customers.metadata customers.root
      "datetimecompare(token, token) gt 0" with
  | error err =>
    rw [htyped] at hruns
    cases hruns
  | ok e =>
    rw [htyped] at hruns
    have hcompiles : (customers.compileFilter e).toOption.any ordersTokens = true := hruns
    cases hok : customers.compileFilter e with
    | error err =>
      rw [hok] at hcompiles
      cases hcompiles
    | ok f =>
      rw [hok] at hcompiles
      have horders : ordersTokens f = true := hcompiles
      obtain ⟨test, hmem, htest⟩ := List.any_eq_true.mp horders
      split at htest
      next op =>
        rw [Bool.not_eq_true'] at htest
        exact ⟨e, f, op, rfl, hok, htest, hmem⟩
      next => cases htest

/-- The identifiers that are ordered were given to `datetimecompare`. -/
theorem tokens_given_to_datetimecompare :
    ∃ e f op, Expr.ofFilter customers.metadata customers.root
        "datetimecompare(token, token) gt 0" = .ok e ∧
      customers.compileFilter e = .ok f ∧ op.isEquality = false ∧
      customers.columnType? f.joins none "token" = some .guid ∧
      .compare op (.column none "token") (.column none "token") ∈ f.predicate.tests ∧
      ∃ path second right,
        .relational op (.call .dateTimeCompare [.property path .guid, second]) right ∈ e.parts ∧
          right.isZero = true := by
  obtain ⟨e, f, op, htyped, hok, hop, hmem⟩ := tokens_ordered
  have horders := customers.orders_by_kind _ e f htyped hok op _ _ hmem hop
  have hgiven := (horders.2 none "token" .guid rfl rfl).1 rfl
  exact ⟨e, f, op, htyped, hok, hop, rfl, hmem, hgiven⟩

/-- A compiled filter text may order by a column of identifiers. -/
theorem column_of_identifiers_ordered :
    ¬∀ (schema : Schema) (root : String) (config : Config) (source : String) (e : Expr)
        (f : CompiledFilter), Expr.ofFilter schema.metadata root source = .ok e →
      Scope.compileFilter ⟨schema.metadata, root, config⟩ e = .ok f →
      ∀ op x y, .compare op x y ∈ f.predicate.tests → op.isEquality = false →
        ∀ alias? name, x = .column alias? name ∨ y = .column alias? name →
          Scope.columnType? ⟨schema.metadata, root, config⟩ f.joins alias? name ≠ some .guid := by
  intro h
  obtain ⟨e, f, op, htyped, hok, hop, hmem⟩ := tokens_ordered
  exact h schema _ _ _ e f htyped hok op _ _ hmem hop none "token" (.inl rfl) rfl

end Shop

end EntityQuery
