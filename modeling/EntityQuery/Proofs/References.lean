import EntityQuery.Proofs.Steps
import EntityQuery.Sample.Orders

/-!
# References to parameters

Every parameter that is bound is referred to, and none is referred to twice. For a name that is
fixed it is counted how often it is bound and how often it is referred to: a step of compilation
that binds some literals and makes one thing of others keeps the balance
(`Fragment.count_toScalar`, `Builtin.Compiles.count`, `Scope.Compares.count`), and so does a whole
run (`Scope.count_visit`). A call that was not compared is lost with its parameters, so the balance
of a node needs that no operand is such a call; lowering it would have failed.
-/

namespace EntityQuery

/-- The names of the parameters that a fragment refers to. -/
def Fragment.parameters : Fragment → List String
  | .predicate p => p.parameters
  | .value scalar _ => scalar.parameters
  | .literal _ _ | .deferred _ => []

/-- Whether a fragment is a call that was not compared. -/
def Fragment.isDeferred : Fragment → Bool
  | .deferred _ => true
  | _ => false

/-- The names of the parameters that a compiled expression refers to. -/
def Compiled.parameters : Compiled → List String
  | .complete f => f.parameters
  | .pending (.indexOf haystack needle) => haystack.parameters ++ needle.parameters
  | .pending (.comparison _ left right) => left.parameters ++ right.parameters

/-- The names of the parameters that the condition and the sort keys of a plan refer to. -/
def QueryPlan.references (plan : QueryPlan) : List String :=
  plan.predicate?.elim [] Predicate.parameters ++
    plan.orderBy.flatMap fun key => key.scalar.parameters

/-- How often a name is bound. -/
def Binding.count (b : Binding) (name : String) : Nat := b.parameters.names.count name

/-- A compiled expression that is not lost refers to what is left of it. -/
theorem Compiled.parameters_fragment {compiled : Compiled}
    (h : compiled.fragment.isDeferred = false) :
    compiled.fragment.parameters = compiled.parameters := by
  cases compiled with
  | complete f => rfl
  | pending p => cases h

/-- A condition and its negation refer to the same parameters. -/
theorem Predicate.parameters_keepIf (p : Predicate) (keep : Bool) :
    (p.keepIf keep).parameters = p.parameters := by
  cases keep with
  | true => rfl
  | false => rfl

section

variable {c : Config} {b b' : Binding} {name : String}

/-- A value that is bound is bound once, under the next name. -/
theorem Binding.count_push (c : Config) (b : Binding) (value : Value) (name : String) :
    (b.push c value).count name = b.count name + [b.nextName c].count name := by
  unfold Binding.count
  rw [names_push, List.count_append]

namespace Fragment

variable {f : Fragment}

/-- What has a scalar is not lost. -/
theorem isDeferred_of_toScalar {scalar : Scalar} (h : f.toScalar c b = .ok scalar b') :
    f.isDeferred = false := by
  rcases toScalar_ok.mp h with ⟨ty, rfl, -⟩ | ⟨v, ty, w, rfl, -⟩
  · rfl
  · rfl

/-- Lowering to a scalar keeps the balance. -/
theorem count_toScalar {scalar : Scalar} (h : f.toScalar c b = .ok scalar b') (name : String) :
    b'.count name + f.parameters.count name = b.count name + scalar.parameters.count name := by
  rcases toScalar_ok.mp h with ⟨ty, rfl, rfl⟩ | ⟨v, ty, w, rfl, -, rfl, rfl⟩
  · rfl
  · rw [Binding.count_push]
    rfl

/-- What has a predicate is not lost, and lowering to it keeps the balance. -/
theorem count_toPredicate {p : Predicate} (h : f.toPredicate c b = .ok p b') (name : String) :
    f.isDeferred = false ∧
      b'.count name + f.parameters.count name = b.count name + p.parameters.count name := by
  rcases toPredicate_ok h with ⟨rfl, rfl⟩ | ⟨v, ty, rfl, rfl, rfl⟩ | ⟨scalar, rfl, rfl, rfl⟩
  · exact ⟨rfl, rfl⟩
  · exact ⟨rfl, rfl⟩
  · refine ⟨rfl, ?_⟩
    have hscalar : (Fragment.value scalar .boolean).parameters = scalar.parameters := rfl
    rw [Binding.count_push, hscalar, Predicate.parameters, List.count_append, Scalar.parameters]
    omega

/-- What have scalars are not lost, and lowering to them keeps the balance. -/
theorem count_toScalars {fs : List Fragment} {scalars : List Scalar}
    (h : toScalars c fs b = .ok scalars b') (name : String) :
    (∀ f ∈ fs, f.isDeferred = false) ∧
      b'.count name + (fs.flatMap parameters).count name =
        b.count name + (Scalar.parameters.parametersOfAll scalars).count name := by
  induction fs generalizing b scalars with
  | nil =>
    obtain ⟨rfl, rfl⟩ := pure_eq_ok.mp h
    exact ⟨fun _ hmem => (List.not_mem_nil hmem).elim, rfl⟩
  | cons f fs ih =>
    obtain ⟨scalar, rest, b₁, hscalar, hrest, rfl⟩ := toScalars_cons_ok.mp h
    obtain ⟨hdeferred, hcount⟩ := ih hrest
    have hfirst := count_toScalar hscalar name
    refine ⟨?_, ?_⟩
    · intro g hmem
      rcases List.mem_cons.mp hmem with rfl | hmem
      · exact isDeferred_of_toScalar hscalar
      · exact hdeferred g hmem
    · rw [List.flatMap_cons, List.count_append, Scalar.parameters.parametersOfAll,
        List.count_append]
      omega

/-- A needle and its pattern are lost or not alike, and refer to the same parameters. -/
theorem asPattern_parameters (g : Builtin) (f : Fragment) :
    (f.asPattern g).isDeferred = f.isDeferred ∧ (f.asPattern g).parameters = f.parameters := by
  unfold asPattern
  split
  · exact ⟨rfl, rfl⟩
  · exact ⟨rfl, rfl⟩

/-- An argument of a comparison function and what it stands for are lost or not alike, and refer to
the same parameters. -/
theorem operand_parameters (g : Builtin) (f : Fragment) :
    (g.operand f).isDeferred = f.isDeferred ∧ (g.operand f).parameters = f.parameters := by
  unfold Builtin.operand
  split
  · unfold asInstant
    split
    · exact ⟨rfl, rfl⟩
    · exact ⟨rfl, rfl⟩
  · exact ⟨rfl, rfl⟩

end Fragment

/-- What a call is compiled to keeps the balance, and none of its arguments is lost. -/
theorem Builtin.Compiles.count {f : Builtin} {args : List Fragment} {compiled : Compiled}
    (h : f.Compiles c args b compiled b') (name : String) :
    (∀ g ∈ args, g.isDeferred = false) ∧
      b'.count name + (args.flatMap Fragment.parameters).count name =
        b.count name + compiled.parameters.count name := by
  -- Two arguments, each of which keeps the balance when it is lowered.
  have htwo : ∀ {first second : Fragment} {x y : List String},
      first.isDeferred = false → second.isDeferred = false →
        b'.count name + (first.parameters.count name + second.parameters.count name) =
          b.count name + (x.count name + y.count name) →
        (∀ g ∈ [first, second], g.isDeferred = false) ∧
          b'.count name + ([first, second].flatMap Fragment.parameters).count name =
            b.count name + (x ++ y).count name := by
    intro first second x y hfirst hsecond hcount
    refine ⟨?_, ?_⟩
    · intro g hmem
      rcases List.mem_pair.mp hmem with rfl | rfl
      · exact hfirst
      · exact hsecond
    · rw [List.flatMap_cons, List.flatMap_cons, List.flatMap_nil, List.append_nil,
        List.count_append, List.count_append]
      exact hcount
  cases h with
  | function hkind harity hargs => exact Fragment.count_toScalars hargs name
  | pattern hkind hvalue hpattern =>
    rename_i first second value pattern b₁
    have hneedle := Fragment.asPattern_parameters f (f.haystackFirst first second).2
    have h₁ := Fragment.count_toScalar hvalue name
    have h₂ := Fragment.count_toScalar hpattern name
    have d₁ := Fragment.isDeferred_of_toScalar hvalue
    have d₂ := Fragment.isDeferred_of_toScalar hpattern
    rw [hneedle.1] at d₂
    rw [hneedle.2] at h₂
    -- The haystack is lowered first, whichever argument it is.
    cases f with
    | substringOf => exact htwo d₂ d₁ (by simp only [Builtin.haystackFirst] at h₁ h₂; omega)
    | _ => exact htwo d₁ d₂ (by simp only [Builtin.haystackFirst] at h₁ h₂; omega)
  | comparison hkind hleft hright =>
    rename_i left right l r b₁
    have h₁ := Fragment.count_toScalar hleft name
    have h₂ := Fragment.count_toScalar hright name
    have d₁ := Fragment.isDeferred_of_toScalar hleft
    have d₂ := Fragment.isDeferred_of_toScalar hright
    rw [(Fragment.operand_parameters f left).1] at d₁
    rw [(Fragment.operand_parameters f right).1] at d₂
    rw [(Fragment.operand_parameters f left).2] at h₁
    rw [(Fragment.operand_parameters f right).2] at h₂
    exact htwo d₁ d₂ (by omega)
  | position hkind hhaystack hneedle =>
    have h₁ := Fragment.count_toScalar hhaystack name
    have h₂ := Fragment.count_toScalar hneedle name
    have d₁ := Fragment.isDeferred_of_toScalar hhaystack
    have d₂ := Fragment.isDeferred_of_toScalar hneedle
    exact htwo d₁ d₂ (by omega)

/-- A literal is not lost, and refers to no parameters. -/
theorem Fragment.parameters_of_literal {f : Fragment}
    (h : f.isNull = true ∨ f.isZero = true ∨ f.bool? ≠ none) :
    f.isDeferred = false ∧ f.parameters = [] := by
  cases f with
  | literal => exact ⟨rfl, rfl⟩
  | _ =>
    rcases h with h | h | h
    · cases h
    · cases h
    · exact absurd rfl h

/-- What a comparison is compiled to keeps the balance, and neither of its operands is lost. -/
theorem Scope.Compares.count {op : RelationalOp} {left : Compiled} {right : Fragment}
    {p : Predicate} (h : Scope.Compares c op left right b p b') (name : String) :
    right.isDeferred = false ∧
      b'.count name + (left.parameters.count name + right.parameters.count name) =
        b.count name + p.parameters.count name := by
  cases h with
  | position hop hk =>
    -- The position stands inside of the text that is cut out, before the needle.
    rename_i haystack needle k
    have hcount := Fragment.count_toScalar hk name
    refine ⟨Fragment.isDeferred_of_toScalar hk, ?_⟩
    rw [Predicate.parameters_keepIf]
    simp only [Compiled.parameters, Pending.found, Predicate.parameters, Scalar.parameters,
      Scalar.parameters.parametersOfAll, List.count_append, List.count_nil]
    omega
  | zero hop hzero =>
    -- The zero is absorbed without being bound, and so are the literals of the next rules.
    obtain ⟨hdeferred, hnone⟩ := Fragment.parameters_of_literal (.inr (.inl hzero))
    refine ⟨hdeferred, ?_⟩
    rw [hnone]
    split <;> rfl
  | literal hbool hkeep =>
    obtain ⟨hdeferred, hnone⟩ :=
      Fragment.parameters_of_literal (.inr (.inr (by rw [hbool]; rintro ⟨⟩)))
    refine ⟨hdeferred, ?_⟩
    rw [hnone, Predicate.parameters_keepIf]
    rfl
  | literalLeft hbool hkeep =>
    rename_i p operand v keep
    obtain ⟨-, hnone⟩ := Fragment.parameters_of_literal (.inr (.inr (by rw [hbool]; rintro ⟨⟩)))
    have hleft : (Compiled.complete operand).parameters = [] := hnone
    refine ⟨rfl, ?_⟩
    rw [hleft, List.count_nil, Nat.zero_add, Predicate.parameters_keepIf]
    rfl
  | nulls hleft hright hop =>
    rename_i operand
    obtain ⟨-, hnoneLeft⟩ := Fragment.parameters_of_literal (.inl hleft)
    obtain ⟨hdeferred, hnoneRight⟩ := Fragment.parameters_of_literal (.inl hright)
    have hnone : (Compiled.complete operand).parameters = [] := hnoneLeft
    refine ⟨hdeferred, ?_⟩
    rw [hnone, hnoneRight]
    rfl
  | nullRight hleft hright hop hscalar =>
    rename_i operand scalar
    have hcount := Fragment.count_toScalar hscalar name
    obtain ⟨hdeferred, hnone⟩ := Fragment.parameters_of_literal (.inl hright)
    refine ⟨hdeferred, ?_⟩
    rw [hnone]
    split <;> exact hcount
  | nullLeft hleft hright hop hscalar =>
    rename_i operand scalar
    have hcount := Fragment.count_toScalar hscalar name
    obtain ⟨-, hnoneLeft⟩ := Fragment.parameters_of_literal (.inl hleft)
    have hnone : (Compiled.complete operand).parameters = [] := hnoneLeft
    refine ⟨Fragment.isDeferred_of_toScalar hscalar, ?_⟩
    rw [hnone, List.count_nil, Nat.zero_add]
    split <;> exact hcount
  | values hleft hright horder hx hy =>
    rename_i operand x y b₁
    have hcountLeft := Fragment.count_toScalar hx name
    have hcountRight := Fragment.count_toScalar hy name
    refine ⟨Fragment.isDeferred_of_toScalar hy, ?_⟩
    rw [Predicate.parameters, List.count_append]
    show b'.count name + (operand.parameters.count name + right.parameters.count name) = _
    omega

end

/-! ## Whole runs -/

namespace Scope

variable {s : Scope} {t t' : Session} {name : String}

/-- Compiling an expression binds a name as often as what it is compiled to refers to it. -/
theorem count_visit {depth : Nat} {e : Expr} {compiled : Compiled}
    (h : s.visit depth e t = .ok compiled t') (name : String) :
    t'.binding.count name = t.binding.count name + compiled.parameters.count name := by
  refine visit_ok_induct
    (M := fun e t compiled t' =>
      t'.binding.count name = t.binding.count name + compiled.parameters.count name)
    (N := fun es t fragments t' => (∀ f ∈ fragments, f.isDeferred = false) →
      t'.binding.count name =
        t.binding.count name + (fragments.flatMap Fragment.parameters).count name)
    ?constant ?property ?call ?negate ?not ?arithmetic ?logical ?relational ?nil ?cons h
  case constant =>
    intro value ty t _
    rfl
  case property =>
    intro path ty t column joins hcolumn _
    obtain ⟨last, place, column, -, -, -, rfl⟩ := resolveProperty_ok hcolumn
    rfl
  case call =>
    intro f args t fragments t₁ compiled binding hargs _ hcompiles _
    obtain ⟨hdeferred, hcount⟩ := hcompiles.count name
    have hcountArgs := hargs hdeferred
    show binding.count name = _
    omega
  case negate =>
    intro operand t compiled t₁ scalar binding hoperand _ hscalar _
    have hcount := Fragment.count_toScalar hscalar name
    rw [Compiled.parameters_fragment (Fragment.isDeferred_of_toScalar hscalar)] at hcount
    show binding.count name = t.binding.count name + scalar.parameters.count name
    omega
  case not =>
    intro operand t compiled t₁ p binding hoperand _ hp _
    obtain ⟨hdeferred, hcount⟩ := Fragment.count_toPredicate hp name
    rw [Compiled.parameters_fragment hdeferred] at hcount
    show binding.count name = t.binding.count name + p.parameters.count name
    omega
  case arithmetic =>
    intro op left right t l t₁ r t₂ x b₁ y b₂ hleft _ hright _ hx hy _
    have hcountLeft := Fragment.count_toScalar hx name
    have hcountRight := Fragment.count_toScalar hy name
    rw [Compiled.parameters_fragment (Fragment.isDeferred_of_toScalar hx)] at hcountLeft
    rw [Compiled.parameters_fragment (Fragment.isDeferred_of_toScalar hy)] at hcountRight
    show b₂.count name = t.binding.count name + (x.parameters ++ y.parameters).count name
    rw [List.count_append]
    omega
  case logical =>
    intro op left right t l t₁ p b₁ r t₂ q b₂ hleft _ hp hright _ hq _
    obtain ⟨hdeferredLeft, hcountLeft⟩ := Fragment.count_toPredicate hp name
    obtain ⟨hdeferredRight, hcountRight⟩ := Fragment.count_toPredicate hq name
    rw [Compiled.parameters_fragment hdeferredLeft] at hcountLeft
    rw [Compiled.parameters_fragment hdeferredRight] at hcountRight
    -- The right operand is compiled from where the left one was lowered.
    have hconnective : (connective op p q).parameters = p.parameters ++ q.parameters := by
      cases op with
      | and => rfl
      | or => rfl
    show b₂.count name = t.binding.count name + (connective op p q).parameters.count name
    rw [hconnective, List.count_append]
    dsimp only at hright
    omega
  case relational =>
    intro op left right t l t₁ r t₂ p binding hleft _ hright _ hcompares _
    obtain ⟨hdeferred, hcount⟩ := hcompares.count name
    rw [Compiled.parameters_fragment hdeferred] at hcount
    show binding.count name = t.binding.count name + p.parameters.count name
    omega
  case nil =>
    intro t _
    rfl
  case cons =>
    intro e es t compiled t₁ fragments t₂ he _ hes _ hdeferred
    obtain ⟨hfirst, hrest⟩ := List.forall_mem_cons.mp hdeferred
    have hcountRest := hes hrest
    rw [List.flatMap_cons, List.count_append, Compiled.parameters_fragment hfirst]
    omega

/-- Compiling a condition binds a name as often as the condition refers to it. -/
theorem count_condition {e : Expr} {p : Predicate} (h : s.condition e t = .ok p t')
    (name : String) :
    t'.binding.count name = t.binding.count name + p.parameters.count name := by
  obtain ⟨compiled, t₁, binding, hvisit, hp, rfl⟩ := condition_ok.mp h
  have hcompiled := count_visit hvisit name
  obtain ⟨hdeferred, hcount⟩ := Fragment.count_toPredicate hp name
  rw [Compiled.parameters_fragment hdeferred] at hcount
  show binding.count name = _
  omega

/-- Compiling a value binds a name as often as the value refers to it. -/
theorem count_value {e : Expr} {scalar : Scalar} (h : s.value e t = .ok scalar t')
    (name : String) :
    t'.binding.count name = t.binding.count name + scalar.parameters.count name := by
  obtain ⟨compiled, t₁, binding, hvisit, hscalar, rfl⟩ := value_ok.mp h
  have hcompiled := count_visit hvisit name
  have hcount := Fragment.count_toScalar hscalar name
  rw [Compiled.parameters_fragment (Fragment.isDeferred_of_toScalar hscalar)] at hcount
  show binding.count name = _
  omega

/-- Compiling sort keys binds a name as often as the sort keys refer to it. -/
theorem count_sortKeys {keys : List OrderKey} {sortKeys : List SortKey}
    (h : s.sortKeys keys t = .ok sortKeys t') (name : String) :
    t'.binding.count name = t.binding.count name +
      (sortKeys.flatMap fun key => key.scalar.parameters).count name := by
  induction keys generalizing t sortKeys with
  | nil =>
    obtain ⟨rfl, rfl⟩ := pure_eq_ok.mp h
    rfl
  | cons key keys ih =>
    obtain ⟨scalar, rest, t₁, hscalar, hrest, rfl⟩ := sortKeys_cons_ok.mp h
    have hfirst := count_value hscalar name
    have hcount := ih hrest
    rw [List.flatMap_cons, List.count_append]
    dsimp only
    omega

end Scope

/-! ## Plans -/

/-- A plan refers to every bound parameter once. -/
structure QueryPlan.Balanced (plan : QueryPlan) : Prop where
  /-- A name is bound as often as it is referred to. -/
  count : ∀ name, plan.parameters.names.count name = plan.references.count name
  /-- No name is bound twice. -/
  nodup : plan.parameters.names.Nodup

namespace Planner

variable {planner : Planner} {plan plan' : QueryPlan}

/-- A plan that asks for nothing is balanced. -/
theorem balanced_empty (entity : String) (root? : Option String) :
    (QueryPlan.empty entity root?).Balanced :=
  ⟨fun _ => rfl, List.nodup_nil⟩

/-- A filter keeps a plan balanced that has no condition yet. -/
theorem balanced_filter {e? : Option Expr} (hplan : plan.Balanced) (hnone : plan.predicate? = none)
    (h : planner.filter plan e? = .ok plan') : plan'.Balanced := by
  cases e? with
  | none =>
    rw [filter_none_ok h]
    exact hplan
  | some e =>
    obtain ⟨p, t, hcondition, rfl⟩ := filter_some_ok h
    have hgrows :=
      Session.binding_grow (((planner.scope plan).condition_gathers e).moves.ok hcondition)
    refine ⟨fun name => ?_, Binding.nodup_names hgrows hplan.nodup⟩
    have hrun : t.parameters.names.count name =
        plan.parameters.names.count name + p.parameters.count name :=
      Scope.count_condition hcondition name
    have hbefore := hplan.count name
    unfold QueryPlan.references at hbefore ⊢
    rw [hnone] at hbefore
    show t.parameters.names.count name = (p.parameters ++ plan.orderBy.flatMap _).count name
    rw [List.count_append] at hbefore ⊢
    dsimp only [Option.elim_none] at hbefore
    rw [List.count_nil] at hbefore
    omega

/-- Sort keys keep a plan balanced. -/
theorem balanced_orderBy {keys : List OrderKey} (hplan : plan.Balanced)
    (h : planner.orderBy plan keys = .ok plan') : plan'.Balanced := by
  obtain ⟨sortKeys, t, hsortKeys, rfl⟩ := orderBy_ok h
  have hgrows :=
    Session.binding_grow (((planner.scope plan).sortKeys_gathers keys).moves.ok hsortKeys)
  refine ⟨fun name => ?_, Binding.nodup_names hgrows hplan.nodup⟩
  have hrun : t.parameters.names.count name = plan.parameters.names.count name +
      (sortKeys.flatMap fun key => key.scalar.parameters).count name :=
    Scope.count_sortKeys hsortKeys name
  have hbefore := hplan.count name
  unfold QueryPlan.references at hbefore ⊢
  show t.parameters.names.count name = (plan.predicate?.elim [] Predicate.parameters ++
    (plan.orderBy ++ sortKeys).flatMap _).count name
  rw [List.flatMap_append]
  rw [List.count_append] at hbefore ⊢
  rw [List.count_append]
  omega

/-- A projection keeps a plan balanced. -/
theorem balanced_projection {select? expand? : Option String} (hplan : plan.Balanced)
    (h : planner.projection plan select? expand? = .ok plan') : plan'.Balanced := by
  obtain ⟨hcount, hnodup⟩ := hplan
  -- Neither the parameters nor what refers to them are touched.
  cases projection_ok h with
  | nothing => exact ⟨hcount, hnodup⟩
  | all hall => exact ⟨hcount, hnodup⟩
  | columns hall hcolumns => exact ⟨hcount, hnodup⟩
  | expand hitems => exact ⟨hcount, hnodup⟩

/-- What is assembled refers to every bound parameter once: the references of its condition and of
its sort keys are the names of its parameters in some order, and no name comes twice. -/
theorem assemble_references_perm {entity : String} {o : QueryOptions}
    (h : planner.assemble entity o = .ok plan) :
    plan.references.Perm plan.parameters.names ∧ plan.parameters.names.Nodup := by
  obtain ⟨started, filtered, ordered, paged, hstart, hfilter, horder, hpaging, hprojection⟩ :=
    assemble_ok h
  obtain ⟨-, rfl⟩ := start_ok hstart
  have hfiltered := balanced_filter (balanced_empty entity _) rfl hfilter
  have hordered := balanced_orderBy hfiltered horder
  obtain ⟨first?, max?, rfl⟩ := paging_ok hpaging
  have hplan := balanced_projection (⟨hordered.count, hordered.nodup⟩ :
    ({ ordered with firstResult? := first?, maxResults? := max? } : QueryPlan).Balanced)
    hprojection
  refine ⟨?_, hplan.nodup⟩
  rw [List.perm_iff_count]
  intro name
  exact (hplan.count name).symm

end Planner

/-- The sample query is assembled, and refers to each of its parameters once. -/
theorem Shop.largeOrders_references_perm :
    ∃ plan, planner.assemble "Customer" largeOrders = .ok plan ∧
      plan.references.Perm plan.parameters.names ∧ plan.parameters.names.Nodup := by
  obtain ⟨plan, h⟩ := exists_of_isOk (show (planner.assemble "Customer" largeOrders).isOk = true by
    decide +kernel)
  exact ⟨plan, h, Planner.assemble_references_perm h⟩

end EntityQuery
