import EntityQuery.Filter.Typing
import EntityQuery.Proofs.Comparisons
import EntityQuery.Sample.Orders

/-!
# Static types and the types of fragments

The type of an expression is computed twice: `Expr.ty` reads it off the tree, and compiling threads
it through the fragments. `Expr.compiledTy` says on the tree what compiling comes to
(`Scope.ty_fragment_of_visit`). The two differ in one place. Arithmetic has the static type of its
left operand, and is compiled under the type of the right one where the left one has the type of
`null`. So they agree on an expression and all of its parts exactly when no arithmetic in it has
such a left operand beside a right one of another type (`Expr.compiledTy_eq_ty_iff`).
-/

namespace EntityQuery

namespace Builtin

variable {f : Builtin}

/-- A pattern match is a condition. -/
theorem returnType_of_patternMatch (h : f.kind = .patternMatch) (first? : Option EdmType) :
    f.returnType first? = .boolean := by
  cases f <;> first | rfl | cases h

/-- What waits for a comparison is a number. -/
theorem returnType_of_waits (h : f.kind = .opaqueComparison ∨ f.kind = .indexOf)
    (first? : Option EdmType) : f.returnType first? = .int32 := by
  cases f <;> first | rfl | rcases h with h | h <;> cases h

end Builtin

namespace Expr

variable {e : Expr}

/-- The type that an expression is compiled under. Arithmetic takes it from its left operand, or
from the right one where the left one has the type of `null`. -/
def compiledTy : Expr → EdmType
  | logical .. | relational .. => .boolean
  | unary .not _ => .boolean
  | unary .negate operand => operand.compiledTy
  | arithmetic _ left right =>
    if left.compiledTy = .null then right.compiledTy else left.compiledTy
  | property _ ty => ty
  | constant _ ty => ty
  | call function args => function.returnType (firstTy? args)
where
  /-- The type that the first of some expressions is compiled under. -/
  firstTy? : List Expr → Option EdmType
    | [] => none
    | e :: _ => some e.compiledTy

/-- Every arithmetic among some expressions that has a left operand of the type of `null` has a
right one of this type too. -/
def TypedByLeft (parts : List Expr) : Prop :=
  ∀ op left right, .arithmetic op left right ∈ parts → left.ty = .null → right.ty = .null

/-- Where left operands do for the types, they do among fewer expressions. -/
theorem TypedByLeft.mono {parts parts' : List Expr} (h : TypedByLeft parts)
    (hsub : parts' ⊆ parts) : TypedByLeft parts' :=
  fun op left right hmem => h op left right (hsub hmem)

/-- Where left operands do for the types, an expression is compiled under its static type. -/
theorem compiledTy_eq_ty (h : TypedByLeft e.parts) : e.compiledTy = e.ty := by
  -- Of the arguments of a call, the first one counts.
  induction e using @Expr.rec _
    (fun es => TypedByLeft (parts.partsOfAll es) → compiledTy.firstTy? es = ty.firstTy? es) with
  | logical | relational | property | constant => rfl
  | unary op operand ih =>
    cases op with
    | not => rfl
    | negate => exact ih (h.mono (List.subset_cons_self _ _))
  | arithmetic op left right ihl ihr =>
    have hoperands := h.mono (List.subset_cons_self _ _)
    have hleft := ihl (hoperands.mono (List.subset_append_left _ _))
    have hright := ihr (hoperands.mono (List.subset_append_right _ _))
    unfold compiledTy ty
    rw [hleft, hright]
    split
    next hnull => rw [hnull, h op left right (self_mem_parts _) hnull]
    next => rfl
  | call f args ih => exact congrArg f.returnType (ih (h.mono (List.subset_cons_self _ _)))
  | nil => rfl
  | cons e es ihe ihes =>
    rename_i h
    exact congrArg some (ihe (h.mono (List.subset_append_left _ _)))

/-- An expression and all of its parts are compiled under their static types exactly when left
operands do for the types of all arithmetic among them. -/
theorem compiledTy_eq_ty_iff :
    (∀ part ∈ e.parts, part.compiledTy = part.ty) ↔ TypedByLeft e.parts := by
  constructor
  · intro h op left right hmem hnull
    obtain ⟨hleft, hright⟩ := operands_mem_parts hmem rfl
    have hleft : left.compiledTy = .null := (h left hleft).trans hnull
    have hsum : (arithmetic op left right).compiledTy = right.compiledTy := if_pos hleft
    calc right.ty = right.compiledTy := (h right hright).symm
      _ = (arithmetic op left right).compiledTy := hsum.symm
      _ = left.ty := h _ hmem
      _ = .null := hnull
  · intro h part hpart
    exact compiledTy_eq_ty (h.mono (parts_subset hpart))

end Expr

namespace Scope

variable {s : Scope} {depth : Nat} {e : Expr} {t t' : Session} {compiled : Compiled}

/-- What an expression is compiled to has the type that it is compiled under. -/
theorem ty_fragment_of_visit (h : s.visit depth e t = .ok compiled t') :
    compiled.fragment.ty = e.compiledTy := by
  refine visit_ok_induct
    (M := fun e t compiled t' => compiled.fragment.ty = e.compiledTy)
    (N := fun es t fragments t' =>
      fragments.head?.map Fragment.ty = Expr.compiledTy.firstTy? es)
    ?constant ?property ?call ?negate ?not ?arithmetic ?logical ?relational ?nil ?cons h
  case constant | property | not | logical | relational =>
    intros
    rfl
  case call =>
    intro f args t fragments t₁ compiled binding hargs _ hcompiles _
    cases hcompiles with
    | function => exact congrArg f.returnType hargs
    | pattern hkind => exact (Builtin.returnType_of_patternMatch hkind _).symm
    | comparison hkind => exact (Builtin.returnType_of_waits (.inl hkind) _).symm
    | position hkind => exact (Builtin.returnType_of_waits (.inr hkind) _).symm
  case negate =>
    intro operand t compiled t₁ scalar binding hoperand _ _ _
    exact hoperand
  case arithmetic =>
    intro op left right t l t₁ r t₂ x b₁ y b₂ hleft _ hright _ _ _ _
    unfold Expr.compiledTy
    rw [← hleft, ← hright]
    rfl
  case nil =>
    intro t
    rfl
  case cons =>
    intro e es t compiled t₁ fragments t₂ hfirst _ _ _
    exact congrArg some hfirst

/-- Wherever an expression stands and whatever was compiled before it, what it is compiled to has
the type that `Expr.compiledTy` says. That is its static type when no arithmetic in it has a left
operand of the type of `null` beside a right one of another type. Where there is such arithmetic,
the two types differ for the expression or for one of its parts. -/
theorem compiled_type_static (h : s.visit depth e t = .ok compiled t') :
    compiled.fragment.ty = e.compiledTy ∧
      ((∀ op left right, .arithmetic op left right ∈ e.parts →
        left.ty = .null → right.ty = .null) → compiled.fragment.ty = e.ty) ∧
      ((∀ part ∈ e.parts, part.compiledTy = part.ty) ↔
        ∀ op left right, .arithmetic op left right ∈ e.parts →
          left.ty = .null → right.ty = .null) := by
  have hty := ty_fragment_of_visit h
  exact ⟨hty, fun hleft => hty.trans (Expr.compiledTy_eq_ty hleft), Expr.compiledTy_eq_ty_iff⟩

end Scope

namespace Shop

/-- Twice the sum of nothing and the number of a customer. -/
def twiceSum : Expr :=
  .arithmetic .mul (.arithmetic .add .null (.property ["id"] .int64)) (.constant (.int32 2) .int32)

/-- Twice the sum is compiled to a whole number, and its static type is another one. -/
theorem twiceSum_compiled_type :
    ∃ compiled t, customers.visit 0 twiceSum .start = .ok compiled t ∧
      compiled.fragment.ty = .int64 ∧ twiceSum.ty = .null ∧
      ¬∀ part ∈ twiceSum.parts, part.compiledTy = part.ty := by
  have hok : succeeds (customers.visit 0 twiceSum .start) = true := by decide +kernel
  obtain ⟨compiled, t, h⟩ := exists_of_succeeds hok
  obtain ⟨hty, -, hiff⟩ := Scope.compiled_type_static h
  refine ⟨compiled, t, h, hty, rfl, ?_⟩
  rw [hiff]
  intro hleft
  have hright := hleft .add .null (.property ["id"] .int64) (by simp [twiceSum, Expr.parts]) rfl
  cases hright

/-- The sum of nothing and the number of a customer is a filter text whose expression has the static
type of `null`, and is compiled to a whole number. -/
theorem null_sum_static_type :
    ∃ e compiled t, Expr.ofFilter schema.metadata "Customer" "null add id" = .ok e ∧
      customers.visit 0 e .start = .ok compiled t ∧ compiled.fragment.ty = .int64 ∧
      e.ty = .null := by
  have hread : (Expr.ofFilter schema.metadata "Customer" "null add id").toOption.any
      (fun e => e.ty = .null && succeeds (customers.visit 0 e .start) && e.compiledTy = .int64)
        = true := by decide +kernel
  obtain ⟨e, he, htypes⟩ := exists_of_any hread
  simp only [Bool.and_eq_true, decide_eq_true_eq] at htypes
  obtain ⟨⟨hstatic, hok⟩, hcompiled⟩ := htypes
  obtain ⟨compiled, t, h⟩ := exists_of_succeeds hok
  exact ⟨e, compiled, t, he, h, (Scope.ty_fragment_of_visit h).trans hcompiled, hstatic⟩

end Shop

end EntityQuery
