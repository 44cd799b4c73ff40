import EntityQuery.Filter.Typing
import EntityQuery.Proofs.Spelling
import EntityQuery.Proofs.TreeDepth

/-!
# What a filter text is typed to

The typed expression of a filter text is decided by its tokens. They derive with one tree, and
typing looks at spans for its errors alone, so parsed expressions of one tree are typed alike
(`Typing.expr_of_tree_eq`). A text of a known entity type whose tokens derive with a tree that is
typed is therefore read as the typed expression of the tree (`Expr.ofFilter_iff_of_derives`), which
is how the reading of a text is found that is given by its tokens: a literal, or a minus sign and a
number.
-/

namespace EntityQuery

/-! ## Typing without positions -/

namespace Typing

variable {m : Metadata} {root : String} (span' : Span)

/-- A walk does not depend on where its path stands. -/
theorem walk_at {span : Span} {entity target : String} {segments : List String}
    (h : walk m span entity segments = .ok target) :
    walk m span' entity segments = .ok target := by
  induction segments generalizing entity with
  | nil => exact h
  | cons segment segments ih =>
    unfold walk at h ⊢
    split at h
    next next hstep => exact ih h
    next => cases h

/-- The type of a last segment does not depend on where its path stands. -/
theorem lastType_at {span : Span} {entity last : String} {ty : EdmType}
    (h : lastType m span entity last = .ok ty) : lastType m span' entity last = .ok ty := by
  unfold lastType at h ⊢
  dsimp only at h ⊢
  split at h
  next hscalar =>
    rw [if_pos hscalar]
    split at h
    next => exact h
    next => cases h
  next hscalar =>
    rw [if_neg hscalar]
    split at h
    next hnavigation =>
      rw [if_pos hnavigation]
      split at h
      next => exact h
      next => cases h
    next => cases h

/-- The type of a path does not depend on where it stands. -/
theorem pathType_at {span : Span} {path : List String} {ty : EdmType}
    (h : pathType m root path span = .ok ty) : pathType m root path span' = .ok ty := by
  unfold pathType at h ⊢
  split at h
  next => cases h
  next last hlast =>
    obtain ⟨entity, hwalk, hty⟩ := except_bind_eq_ok.mp h
    exact except_bind_eq_ok.mpr ⟨entity, walk_at span' hwalk, lastType_at span' hty⟩

/-- The function of a call does not depend on where the call stands. -/
theorem function_at {name : Located String} {n : Nat} {span : Span} {f : Builtin}
    (h : function name n span = .ok f) {name' : Located String} (hname : name'.value = name.value) :
    function name' n span' = .ok f := by
  unfold function at h ⊢
  rw [hname]
  split at h
  next => cases h
  next g hg =>
    split at h
    next haccepts => exact (if_pos haccepts).trans h
    next => cases h

/-- The constant of a literal does not depend on where the literal stands. -/
theorem constant_at {literal : Literal} {span : Span} {e : Expr}
    (h : constant literal span = .ok e) : constant literal span' = .ok e := by
  cases literal with
  | double x =>
    unfold constant at h ⊢
    dsimp only at h ⊢
    split at h
    next hfinite => exact (if_pos hfinite).trans h
    next => cases h
  | _ => exact h

/-- A prefix operator is typed with its operand, unless it is a minus sign before a literal, which
is typed as the literal with the other sign. -/
theorem expr_unary_cases {op : UnaryOp} {operand : Syntax} {span : Span} {typed : Expr}
    (h : expr m root (.unary op operand span) = .ok typed) :
    (∃ value place negated, op = .negate ∧ operand = .literal value place ∧
        value.negate? = some negated ∧ constant negated span = .ok typed) ∨
      ∃ inner, expr m root operand = .ok inner ∧ typed = .unary op inner := by
  by_cases hliteral : ∃ value place, op = .negate ∧ operand = .literal value place
  · obtain ⟨value, place, rfl, rfl⟩ := hliteral
    rw [expr] at h
    split at h
    next negated hnegated => exact .inl ⟨value, place, negated, rfl, rfl, hnegated, h⟩
    next => cases h
  · rw [expr] at h
    · obtain ⟨inner, hoperand, h⟩ := except_bind_eq_ok.mp h
      cases h
      exact .inr ⟨inner, hoperand, rfl⟩
    · intro value place hop hoperand
      exact hliteral ⟨value, place, hop, hoperand⟩

/-- A call has as many arguments as its tree. -/
theorem length_eq_of_trees_eq {as bs : List Syntax}
    (h : Syntax.tree.trees as = Syntax.tree.trees bs) : as.length = bs.length := by
  rw [Syntax.trees_eq_map, Syntax.trees_eq_map] at h
  simpa using congrArg List.length h

/-- Parsed expressions of one tree are typed alike. -/
theorem expr_of_tree_eq {a b : Syntax} (htree : a.tree = b.tree) {e : Expr}
    (h : expr m root a = .ok e) : expr m root b = .ok e := by
  induction a using @Syntax.rec _
    (fun as => ∀ bs es, Syntax.tree.trees as = Syntax.tree.trees bs →
      expr.exprs m root as = .ok es → expr.exprs m root bs = .ok es)
    generalizing b e with
  | binary op left right span ihl ihr =>
    cases b with
    | binary op' left' right' span' =>
      obtain ⟨rfl, hleft, hright⟩ := Tree.binary.inj htree
      unfold expr at h ⊢
      obtain ⟨l, hl, h⟩ := except_bind_eq_ok.mp h
      obtain ⟨r, hr, h⟩ := except_bind_eq_ok.mp h
      exact except_bind_eq_ok.mpr ⟨l, ihl hleft hl, except_bind_eq_ok.mpr ⟨r, ihr hright hr, h⟩⟩
    | _ => cases htree
  | unary op operand span ih =>
    cases b with
    | unary op' operand' span' =>
      obtain ⟨rfl, hoperand⟩ := Tree.unary.inj htree
      by_cases hliteral : ∃ value place, op = .negate ∧ operand = .literal value place
      · -- The sign and the number are one literal in both.
        obtain ⟨value, place, rfl, rfl⟩ := hliteral
        cases operand' with
        | literal value' place' =>
          obtain rfl := Tree.literal.inj hoperand
          unfold expr at h ⊢
          split at h
          next negated hnegated => exact constant_at span' h
          next => cases h
        | _ => cases hoperand
      · rw [expr] at h ⊢
        · obtain ⟨inner, hinner, h⟩ := except_bind_eq_ok.mp h
          exact except_bind_eq_ok.mpr ⟨inner, ih hoperand hinner, h⟩
        · rintro value place hop rfl
          cases operand with
          | literal value' place' => exact hliteral ⟨value', place', hop, rfl⟩
          | _ => cases hoperand
        · intro value place hop hvalue
          exact hliteral ⟨value, place, hop, hvalue⟩
    | _ => cases htree
  | path segments span =>
    cases b with
    | path segments' span' =>
      obtain rfl := Tree.path.inj htree
      unfold expr at h ⊢
      obtain ⟨ty, hty, h⟩ := except_bind_eq_ok.mp h
      exact except_bind_eq_ok.mpr ⟨ty, pathType_at span' hty, h⟩
    | _ => cases htree
  | call name args span ih =>
    cases b with
    | call name' args' span' =>
      obtain ⟨hname, htrees⟩ := Tree.call.inj htree
      have hlength := length_eq_of_trees_eq htrees
      unfold expr at h ⊢
      obtain ⟨f, hf, h⟩ := except_bind_eq_ok.mp h
      obtain ⟨es, hes, h⟩ := except_bind_eq_ok.mp h
      rw [hlength] at hf
      exact except_bind_eq_ok.mpr ⟨f, function_at span' hf hname.symm,
        except_bind_eq_ok.mpr ⟨es, ih args' es htrees hes, h⟩⟩
    | _ => cases htree
  | literal value span =>
    cases b with
    | literal value' span' =>
      obtain rfl := Tree.literal.inj htree
      exact constant_at span' h
    | _ => cases htree
  | nil =>
    rename_i bs es htrees hes
    cases bs with
    | nil => exact hes
    | cons b bs => cases htrees
  | cons a as iha ihas =>
    rename_i bs es htrees hes
    cases bs with
    | nil => cases htrees
    | cons b bs =>
      obtain ⟨hfirst, hrest⟩ := List.cons.inj htrees
      unfold expr.exprs at hes ⊢
      obtain ⟨first, ha, hes⟩ := except_bind_eq_ok.mp hes
      obtain ⟨rest, has, hes⟩ := except_bind_eq_ok.mp hes
      exact except_bind_eq_ok.mpr ⟨first, iha hfirst ha,
        except_bind_eq_ok.mpr ⟨rest, ihas bs rest hrest has, hes⟩⟩

end Typing

/-! ## Filter texts -/

namespace Expr

variable {m : Metadata} {root source : String} {e : Expr}

/-- A filter text is read as an expression when its entity type is known and it is parsed to what is
typed to the expression. -/
theorem ofFilter_eq_ok_iff :
    ofFilter m root source = .ok e ↔
      m.hasEntity root = true ∧ ∃ parsed, Syntax.parseFilter source defaultNesting = .ok parsed ∧
        Typing.expr m root parsed = .ok e := by
  unfold ofFilter
  constructor
  · intro h
    split at h
    next => cases h
    next parsed hparsed =>
      obtain ⟨_, hroot, hexpr⟩ := except_bind_eq_ok.mp (except_mapError_eq_ok.mp h)
      refine ⟨?_, parsed, hparsed, hexpr⟩
      unfold Typing.checkRoot at hroot
      split at hroot
      next hknown => exact hknown
      next => cases hroot
  · rintro ⟨hknown, parsed, hparsed, hexpr⟩
    rw [hparsed]
    refine except_mapError_eq_ok.mpr (except_bind_eq_ok.mpr ⟨(), ?_, hexpr⟩)
    exact if_pos hknown

/-- A text whose tokens derive with a tree that is typed to an expression is read as the expression,
if the entity type is known. -/
theorem ofFilter_iff_of_derives {ts : List Token} {tree : Tree} {n : Nat}
    (hreads : Reads (Lexeme.all source) ts []) (hd : Derives .expression ts tree n)
    (hn : n ≤ defaultNesting)
    (htyped : ∀ parsed : Syntax, parsed.tree = tree → Typing.expr m root parsed = .ok e) :
    ofFilter m root source = .ok e ↔ m.hasEntity root = true := by
  obtain ⟨tokens, htokens, rfl⟩ := mapM_token_eq_ok.mpr hreads
  obtain ⟨parsed, hparsed, htree⟩ := (Parser.parseFilter_iff source defaultNesting tree).mpr
    ⟨tokens, n, htokens, hd, hn⟩
  rw [ofFilter_eq_ok_iff]
  constructor
  · exact fun h => h.1
  · exact fun hknown => ⟨hknown, parsed, hparsed, htyped parsed htree⟩

/-- A text with a piece that is no token is read as no expression. -/
theorem ofFilter_ne_ok (h : (tokenize source).isOk = false) : ofFilter m root source ≠ .ok e := by
  intro hok
  obtain ⟨-, parsed, hparsed, -⟩ := ofFilter_eq_ok_iff.mp hok
  obtain ⟨tokens, -, htokens, -⟩ :=
    (Parser.parseFilter_iff source defaultNesting parsed.tree).mp ⟨parsed, hparsed, rfl⟩
  rw [htokens] at h
  cases h

/-- A text that is one literal is read as the constant of the literal. -/
theorem ofFilter_literal {literal : Literal} (hreads : Reads (Lexeme.all source) [literal.token] [])
    (hconstant : ∀ span, Typing.constant literal span = .ok e) :
    ofFilter m root source = .ok e ↔ m.hasEntity root = true := by
  have hd : Derives .expression [literal.token] (.literal literal) 0 :=
    (Derives.literal literal).primary.operations .or
  refine ofFilter_iff_of_derives hreads hd (Nat.zero_le _) fun parsed htree => ?_
  cases parsed with
  | literal value span =>
    obtain rfl := Tree.literal.inj htree
    exact hconstant span
  | _ => cases htree

/-- A text that is a minus sign and a number is read as the constant of the number with the other
sign. -/
theorem ofFilter_negated {literal negated : Literal}
    (hreads : Reads (Lexeme.all source) [.symbol .minus, literal.token] [])
    (hnegate : literal.negate? = some negated)
    (hconstant : ∀ span, Typing.constant negated span = .ok e) :
    ofFilter m root source = .ok e ↔ m.hasEntity root = true := by
  have hminus : Derives .prefixed (UnaryOp.negate.token :: [literal.token])
      (.unary .negate (.literal literal)) 1 :=
    (Derives.literal literal).primary.unary
  have hd : Derives .expression [.symbol .minus, literal.token]
      (.unary .negate (.literal literal)) 1 :=
    hminus.operations .or
  refine ofFilter_iff_of_derives hreads hd (by decide) fun parsed htree => ?_
  cases parsed with
  | unary op operand span =>
    obtain ⟨rfl, hoperand⟩ := Tree.unary.inj htree
    cases operand with
    | literal value place =>
      obtain rfl := Tree.literal.inj hoperand
      rw [Typing.expr, hnegate]
      exact hconstant span
    | _ => cases hoperand
  | _ => cases htree

end Expr

end EntityQuery
