import EntityQuery.Proofs.Chains
import EntityQuery.Sample.Orders

/-!
# How printed expressions group

The text of an expression has the tree of its chain. That is the tree of the expression just when no
comparison is the operand of a prefix operator, an operand of arithmetic or the right operand of
another comparison (`Expr.tree_chain_iff`): elsewhere some operand of the chain has to be as large
as the whole that it is a part of. These plain expressions are read back from their texts, and no
two of them are printed alike (`Expr.texts_read_back`).
-/

namespace EntityQuery

/-! ## Plain expressions -/

/-- The number of operators, names, literals and calls in a tree. -/
def Tree.size : Tree → Nat
  | binary _ left right => left.size + right.size + 1
  | unary _ operand => operand.size + 1
  | call _ args => sizes args + 1
  | path _ | literal _ => 1
where
  /-- The sizes of some trees together. -/
  sizes : List Tree → Nat
    | [] => 0
    | e :: es => e.size + sizes es

namespace Chain

/-- A prefix operator makes the tree of a chain larger by one, wherever it goes. -/
theorem size_unary (op : UnaryOp) (c : Chain) : (c.unary op).tree.size = c.tree.size + 1 := by
  induction c with
  | operand e => rfl
  | compare c op' e ih =>
    show (c.unary op).tree.size + e.size + 1 = c.tree.size + e.size + 1 + 1
    omega

/-- A comparison of chains has all that is in both. -/
theorem size_relational (op : RelationalOp) (c d : Chain) :
    (c.relational op d).tree.size = c.tree.size + d.tree.size + 1 := by
  induction d with
  | operand e => rfl
  | compare d op' e ih =>
    show (c.relational op d).tree.size + e.size + 1 = c.tree.size + (d.tree.size + e.size + 1) + 1
    omega

/-- An arithmetic operation on chains has all that is in both. -/
theorem size_arithmetic (op : ArithmeticOp) (c d : Chain) :
    (c.arithmetic op d).tree.size = c.tree.size + d.tree.size + 1 := by
  induction d with
  | operand e =>
    cases c with
    | operand e' => rfl
    | compare c op' e' =>
      show c.tree.size + (e'.size + e.size + 1) + 1 = c.tree.size + e'.size + 1 + e.size + 1
      omega
  | compare d op' e ih =>
    show (c.arithmetic op d).tree.size + e.size + 1 = c.tree.size + (d.tree.size + e.size + 1) + 1
    omega

end Chain

namespace Expr

/-- The text of an expression is read with all that is in the expression. -/
theorem size_chain (e : Expr) : e.chain.tree.size = e.tree.size := by
  induction e using @Expr.rec _
    (fun es => Tree.size.sizes (chain.trees es) = Tree.size.sizes (tree.trees es)) with
  | logical op left right ihl ihr =>
    show left.chain.tree.size + right.chain.tree.size + 1 = left.tree.size + right.tree.size + 1
    rw [ihl, ihr]
  | arithmetic op left right ihl ihr =>
    show (left.chain.arithmetic op right.chain).tree.size = left.tree.size + right.tree.size + 1
    rw [Chain.size_arithmetic, ihl, ihr]
  | relational op left right ihl ihr =>
    show (left.chain.relational op right.chain).tree.size = left.tree.size + right.tree.size + 1
    rw [Chain.size_relational, ihl, ihr]
  | unary op operand ih =>
    show (operand.chain.unary op).tree.size = operand.tree.size + 1
    rw [Chain.size_unary, ih]
  | call f args ih => exact congrArg (· + 1) ih
  | property | constant | nil => rfl
  | cons e es ihe ihes => exact congrArg₂ (· + ·) ihe ihes

/-- An expression is a comparison. -/
def IsComparison : Expr → Prop
  | relational .. => True
  | _ => False

instance : DecidablePred IsComparison
  | .relational .. => isTrue trivial
  | .logical .. | .arithmetic .. | .unary .. | .property .. | .call .. | .constant .. => isFalse id

/-- No comparison is an operand of the expression that runs together with what stands beside it: the
operand of a prefix operator, an operand of arithmetic, or the right operand of a comparison. -/
def KeepsApart : Expr → Prop
  | unary _ operand => ¬operand.IsComparison
  | arithmetic _ left right => ¬left.IsComparison ∧ ¬right.IsComparison
  | relational _ _ right => ¬right.IsComparison
  | _ => True

instance : DecidablePred KeepsApart
  | .unary _ operand => inferInstanceAs (Decidable (¬operand.IsComparison))
  | .arithmetic _ left right =>
    inferInstanceAs (Decidable (¬left.IsComparison ∧ ¬right.IsComparison))
  | .relational _ _ right => inferInstanceAs (Decidable (¬right.IsComparison))
  | .logical .. | .property .. | .call .. | .constant .. => isTrue trivial

/-- Operands run together nowhere in an expression. -/
def IsPlain (e : Expr) : Prop := ∀ part ∈ e.parts, part.KeepsApart

instance (e : Expr) : Decidable e.IsPlain :=
  inferInstanceAs (Decidable (∀ part ∈ e.parts, part.KeepsApart))

/-- A plain expression is read as itself, and as one operand when it is no comparison. -/
theorem IsPlain.chain_eq {e : Expr} (h : e.IsPlain) :
    e.chain.tree = e.tree ∧ (¬e.IsComparison → e.chain = .operand e.tree) := by
  induction e using @Expr.rec _
    (fun es => (∀ part ∈ parts.partsOfAll es, part.KeepsApart) →
      chain.trees es = tree.trees es) with
  | logical op left right ihl ihr =>
    obtain ⟨hleft, hright⟩ := List.forall_mem_append.mp (List.forall_mem_cons.mp h).2
    have hsame : (logical op left right).chain = .operand (logical op left right).tree := by
      rw [chain, (ihl hleft).1, (ihr hright).1, tree]
    exact ⟨congrArg Chain.tree hsame, fun _ => hsame⟩
  | arithmetic op left right ihl ihr =>
    obtain ⟨hself, hparts⟩ := List.forall_mem_cons.mp h
    obtain ⟨hleft, hright⟩ := List.forall_mem_append.mp hparts
    have hsame : (arithmetic op left right).chain = .operand (arithmetic op left right).tree := by
      rw [chain, (ihl hleft).2 hself.1, (ihr hright).2 hself.2]
      rfl
    exact ⟨congrArg Chain.tree hsame, fun _ => hsame⟩
  | relational op left right ihl ihr =>
    obtain ⟨hself, hparts⟩ := List.forall_mem_cons.mp h
    obtain ⟨hleft, hright⟩ := List.forall_mem_append.mp hparts
    refine ⟨?_, fun hno => absurd trivial hno⟩
    rw [chain, (ihr hright).2 hself]
    exact congrArg (Tree.binary _ · _) (ihl hleft).1
  | unary op operand ih =>
    obtain ⟨hself, hparts⟩ := List.forall_mem_cons.mp h
    have hsame : (unary op operand).chain = .operand (unary op operand).tree := by
      rw [chain, (ih hparts).2 hself]
      rfl
    exact ⟨congrArg Chain.tree hsame, fun _ => hsame⟩
  | call f args ih =>
    have hargs := ih (List.forall_mem_cons.mp h).2
    have hsame : (call f args).chain = .operand (call f args).tree := by
      rw [chain, hargs, tree]
    exact ⟨congrArg Chain.tree hsame, fun _ => hsame⟩
  | property | constant => exact ⟨rfl, fun _ => rfl⟩
  | nil => rfl
  | cons e es ihe ihes =>
    rename_i h
    obtain ⟨hfirst, hrest⟩ := List.forall_mem_append.mp h
    exact congrArg₂ List.cons (ihe hfirst).1 (ihes hrest)

/-- A chain of one operand is no comparison's. -/
theorem not_isComparison_of_chain {e : Expr} {t : Tree} (h : e.chain = .operand t) :
    ¬e.IsComparison := by
  cases e with
  | relational op left right =>
    have hcompare : ∀ d : Chain, left.chain.relational op d ≠ .operand t := by
      intro d
      cases d <;> exact nofun
    exact absurd h (hcompare _)
  | _ => exact id

/-- An expression that is read as itself is plain. -/
theorem isPlain_of_tree_chain {e : Expr} (h : e.chain.tree = e.tree) : e.IsPlain := by
  induction e using @Expr.rec _
    (fun es => chain.trees es = tree.trees es →
      ∀ part ∈ parts.partsOfAll es, part.KeepsApart) with
  | logical op left right ihl ihr =>
    obtain ⟨-, hleft, hright⟩ := Tree.binary.inj h
    exact List.forall_mem_cons.mpr ⟨trivial, List.forall_mem_append.mpr ⟨ihl hleft, ihr hright⟩⟩
  | arithmetic op left right ihl ihr =>
    have h : (left.chain.arithmetic op right.chain).tree =
        .binary (.arithmetic op) left.tree right.tree := h
    -- Where a chain beside the operator has a comparison, the tree is one.
    cases hd : right.chain with
    | compare d op' y =>
      rw [hd] at h
      cases (Tree.binary.inj h).1
    | operand y =>
      cases hc : left.chain with
      | compare c op' x =>
        rw [hd, hc] at h
        cases (Tree.binary.inj h).1
      | operand x =>
        rw [hd, hc] at h
        obtain ⟨-, rfl, rfl⟩ := Tree.binary.inj h
        have hleft := ihl (congrArg Chain.tree hc)
        have hright := ihr (congrArg Chain.tree hd)
        exact List.forall_mem_cons.mpr
          ⟨⟨not_isComparison_of_chain hc, not_isComparison_of_chain hd⟩,
            List.forall_mem_append.mpr ⟨hleft, hright⟩⟩
  | relational op left right ihl ihr =>
    have h : (left.chain.relational op right.chain).tree =
        .binary (.relational op) left.tree right.tree := h
    cases hd : right.chain with
    | compare d op' y =>
      -- The last operand of the right chain would be all of the right operand.
      rw [hd] at h
      obtain ⟨-, -, hlast⟩ := Tree.binary.inj h
      have hsize := right.size_chain
      rw [hd, ← hlast] at hsize
      have hmore : d.tree.size + y.size + 1 = y.size := hsize
      omega
    | operand y =>
      rw [hd] at h
      obtain ⟨-, hleft, rfl⟩ := Tree.binary.inj h
      have hright := ihr (congrArg Chain.tree hd)
      exact List.forall_mem_cons.mpr
        ⟨not_isComparison_of_chain hd, List.forall_mem_append.mpr ⟨ihl hleft, hright⟩⟩
  | unary op operand ih =>
    have h : (operand.chain.unary op).tree = .unary op operand.tree := h
    cases hc : operand.chain with
    | compare c op' x =>
      rw [hc] at h
      cases h
    | operand x =>
      rw [hc] at h
      obtain ⟨-, rfl⟩ := Tree.unary.inj h
      exact List.forall_mem_cons.mpr
        ⟨not_isComparison_of_chain hc, ih (congrArg Chain.tree hc)⟩
  | call f args ih =>
    exact List.forall_mem_cons.mpr ⟨trivial, ih (Tree.call.inj h).2⟩
  | property | constant => exact List.forall_mem_singleton.mpr trivial
  | nil =>
    rename_i hpart
    cases hpart
  | cons e es ihe ihes =>
    rename_i h part hpart
    obtain ⟨hfirst, hrest⟩ := List.cons.inj h
    exact List.forall_mem_append.mpr ⟨ihe hfirst, ihes hrest⟩ part hpart

/-- An expression is read as itself just when it is plain. -/
theorem tree_chain_iff {e : Expr} : e.chain.tree = e.tree ↔ e.IsPlain :=
  ⟨isPlain_of_tree_chain, fun h => h.chain_eq.1⟩

/-! ## Reading back -/

section

variable {m : Metadata} {root source : String} {e : Expr}

/-- The text of an expression that was read is cut into tokens that derive with the tree of its
chain. -/
theorem exists_derives (h : ofFilter m root source = .ok e)
    (htext : ∀ part ∈ e.parts, part.IsTextual) :
    ∃ ts n, Reads (Lexeme.all e.text) ts [] ∧ Derives .expression ts e.chain.tree n := by
  obtain ⟨-, parsed, hparsed, hexpr⟩ := ofFilter_eq_ok_iff.mp h
  have hnamed : e.tree.IsNamed := by
    rw [Typing.tree_of_expr hexpr htext]
    exact Syntax.isNamed_of_parseFilter hparsed
  obtain ⟨ts, hlexes, hchain⟩ := exists_lexes hnamed htext
  obtain ⟨n, hd⟩ := hchain.additive.exists_expression
  exact ⟨ts, n, hlexes.all, hd⟩

/-- Wherever the text of an expression is accepted, it has the tree of the chain. -/
theorem tree_of_parse_text (h : ofFilter m root source = .ok e)
    (htext : ∀ part ∈ e.parts, part.IsTextual) {limit : Nat} {parsed : Syntax}
    (hparsed : Syntax.parseFilter e.text limit = .ok parsed) : parsed.tree = e.chain.tree := by
  obtain ⟨ts, n, hreads, hd⟩ := exists_derives h htext
  obtain ⟨tokens, n', htokens, hd', -⟩ :=
    (Parser.parseFilter_iff e.text limit parsed.tree).mp ⟨parsed, hparsed, rfl⟩
  obtain ⟨tokens', htokens', rfl⟩ := mapM_token_eq_ok.mpr hreads
  obtain rfl : tokens = tokens' := Except.ok.inj (htokens.symm.trans htokens')
  exact (Parser.derives_unique hd' hd).1

/-- The text of an expression is accepted under some bound of the depth. -/
theorem exists_limit (h : ofFilter m root source = .ok e)
    (htext : ∀ part ∈ e.parts, part.IsTextual) :
    ∃ limit, (Syntax.parseFilter e.text limit).isOk = true := by
  obtain ⟨ts, n, hreads, hd⟩ := exists_derives h htext
  obtain ⟨tokens, htokens, rfl⟩ := mapM_token_eq_ok.mpr hreads
  obtain ⟨parsed, hparsed, -⟩ := (Parser.parseFilter_iff e.text n e.chain.tree).mpr
    ⟨tokens, n, htokens, hd, Nat.le_refl n⟩
  refine ⟨n, ?_⟩
  rw [hparsed]
  rfl

/-- The text of an expression that is accepted is read as the expression just when that is plain. -/
theorem ofFilter_text_iff (h : ofFilter m root source = .ok e)
    (htext : ∀ part ∈ e.parts, part.IsTextual)
    (haccepted : (Syntax.parseFilter e.text defaultNesting).isOk = true) :
    ofFilter m root e.text = .ok e ↔ e.IsPlain := by
  obtain ⟨hknown, parsed, -, hexpr⟩ := ofFilter_eq_ok_iff.mp h
  constructor
  · intro hback
    obtain ⟨-, parsed', hparsed', hexpr'⟩ := ofFilter_eq_ok_iff.mp hback
    have htree : e.chain.tree = e.tree := by
      rw [Typing.tree_of_expr hexpr' htext, tree_of_parse_text h htext hparsed']
    exact tree_chain_iff.mp htree
  · intro hplain
    obtain ⟨parsed', hparsed'⟩ := exists_of_isOk haccepted
    have htree : parsed.tree = parsed'.tree := by
      rw [tree_of_parse_text h htext hparsed', hplain.chain_eq.1, Typing.tree_of_expr hexpr htext]
    exact ofFilter_eq_ok_iff.mpr ⟨hknown, parsed', hparsed', Typing.expr_of_tree_eq htree hexpr⟩

/-- Plain expressions with one text are one expression. -/
theorem eq_of_text_eq {source' : String} {e' : Expr} (h : ofFilter m root source = .ok e)
    (h' : ofFilter m root source' = .ok e') (htext : ∀ part ∈ e.parts, part.IsTextual)
    (htext' : ∀ part ∈ e'.parts, part.IsTextual) (hplain : e.IsPlain) (hplain' : e'.IsPlain)
    (heq : e.text = e'.text) : e = e' := by
  obtain ⟨-, parsed, -, hexpr⟩ := ofFilter_eq_ok_iff.mp h
  obtain ⟨-, parsed', -, hexpr'⟩ := ofFilter_eq_ok_iff.mp h'
  -- Both texts are accepted where one is, and have one tree there.
  obtain ⟨limit, haccepted⟩ := exists_limit h htext
  obtain ⟨read, hread⟩ := exists_of_isOk haccepted
  have hread' : Syntax.parseFilter e'.text limit = .ok read := heq ▸ hread
  have htree : parsed.tree = parsed'.tree :=
    calc parsed.tree
      _ = e.tree := (Typing.tree_of_expr hexpr htext).symm
      _ = e.chain.tree := hplain.chain_eq.1.symm
      _ = read.tree := (tree_of_parse_text h htext hread).symm
      _ = e'.chain.tree := tree_of_parse_text h' htext' hread'
      _ = e'.tree := hplain'.chain_eq.1
      _ = parsed'.tree := Typing.tree_of_expr hexpr' htext'
  exact Except.ok.inj ((Typing.expr_of_tree_eq htree hexpr).symm.trans hexpr')

end

/-- The text of an expression that was read from a filter, and whose constants are text, truth
values and null, is a filter under some bound of the depth. Where it is accepted, it is read as the
expression just when no comparison is the operand of a prefix operator, an operand of arithmetic or
the right operand of a comparison, since comparisons are printed without parentheses. No two such
expressions are printed alike. -/
theorem texts_read_back (m : Metadata) (root : String) :
    (∀ source e, ofFilter m root source = .ok e → (∀ part ∈ e.parts, part.IsTextual) →
      (∃ limit, (Syntax.parseFilter e.text limit).isOk = true) ∧
      ((Syntax.parseFilter e.text defaultNesting).isOk = true →
        (ofFilter m root e.text = .ok e ↔ e.IsPlain))) ∧
    ∀ source source' e e', ofFilter m root source = .ok e → ofFilter m root source' = .ok e' →
      (∀ part ∈ e.parts, part.IsTextual) → (∀ part ∈ e'.parts, part.IsTextual) →
      e.IsPlain → e'.IsPlain → e.text = e'.text → e = e' := by
  constructor
  · intro source e h htext
    exact ⟨exists_limit h htext, ofFilter_text_iff h htext⟩
  · intro source source' e e' h h' htext htext' hplain hplain' heq
    exact eq_of_text_eq h h' htext htext' hplain hplain' heq

end Expr

namespace Shop

/-- A condition with `not` before a group is printed with the parentheses that it needs, read back,
and no other condition is printed so. -/
theorem group_reads_back :
    ∃ e e', Expr.ofFilter schema.metadata "Customer"
        "not (name eq 'o''b' or (status eq null)) and startswith(name, 'a') eq true" = .ok e ∧
      e.text = "(not (name eq 'o''b' or status eq null) and startswith(name,'a') eq true)" ∧
      (∃ limit, (Syntax.parseFilter e.text limit).isOk = true) ∧
      Expr.ofFilter schema.metadata "Customer" e.text = .ok e ∧
      Expr.ofFilter schema.metadata "Customer"
        "(not ((name eq 'o''b' or status eq null))) and (startswith(name, 'a') eq true)" = .ok e' ∧
      e = e' := by
  obtain ⟨hback, hinjective⟩ := Expr.texts_read_back schema.metadata "Customer"
  let test : Expr → Bool := fun e => decide
    (e.text = "(not (name eq 'o''b' or status eq null) and startswith(name,'a') eq true)" ∧
      (∀ part ∈ e.parts, part.IsTextual) ∧ e.IsPlain)
  have hfirst : (Expr.ofFilter schema.metadata "Customer"
      "not (name eq 'o''b' or (status eq null)) and startswith(name, 'a') eq true").toOption.any
        test = true := by decide +kernel
  have hsecond : (Expr.ofFilter schema.metadata "Customer"
      "(not ((name eq 'o''b' or status eq null))) and (startswith(name, 'a') eq true)").toOption.any
        test = true := by decide +kernel
  obtain ⟨e, he, htest⟩ := exists_of_any hfirst
  obtain ⟨e', he', htest'⟩ := exists_of_any hsecond
  obtain ⟨htext, htextual, hplain⟩ := of_decide_eq_true htest
  obtain ⟨htext', htextual', hplain'⟩ := of_decide_eq_true htest'
  obtain ⟨hlimit, hiff⟩ := hback _ e he htextual
  have haccepted : (Syntax.parseFilter e.text defaultNesting).isOk = true := by
    rw [htext]
    decide +kernel
  exact ⟨e, e', he, htext, hlimit, (hiff haccepted).mpr hplain, he',
    hinjective _ _ e e' he he' htextual htextual' hplain hplain' (htext.trans htext'.symm)⟩

/-- A comparison after `not` is printed without the parentheses that it was written with. Its text
is read as another expression, which is printed in the same way. -/
theorem negated_comparison_misread :
    ∃ e e', Expr.ofFilter schema.metadata "Customer" "not (name eq 'a')" = .ok e ∧
      (∀ part ∈ e.parts, part.IsTextual) ∧ e.text = "not name eq 'a'" ∧
      (Syntax.parseFilter e.text defaultNesting).isOk = true ∧
      Expr.ofFilter schema.metadata "Customer" e.text = .ok e' ∧
      (∀ part ∈ e'.parts, part.IsTextual) ∧ e'.text = e.text ∧ e' ≠ e := by
  let test : Bool → Expr → Bool := fun comparison e => decide
    (e.text = "not name eq 'a'" ∧ (∀ part ∈ e.parts, part.IsTextual) ∧
      decide e.IsComparison = comparison)
  have hwritten : (Expr.ofFilter schema.metadata "Customer" "not (name eq 'a')").toOption.any
      (test false) = true := by decide +kernel
  have hprinted : (Expr.ofFilter schema.metadata "Customer" "not name eq 'a'").toOption.any
      (test true) = true := by decide +kernel
  obtain ⟨e, he, htest⟩ := exists_of_any hwritten
  obtain ⟨e', he', htest'⟩ := exists_of_any hprinted
  obtain ⟨htext, htextual, hno⟩ := of_decide_eq_true htest
  obtain ⟨htext', htextual', hyes⟩ := of_decide_eq_true htest'
  refine ⟨e, e', he, htextual, htext, ?_, ?_, htextual', htext'.trans htext.symm, ?_⟩
  · rw [htext]
    decide +kernel
  · rw [htext]
    exact he'
  · rintro rfl
    rw [hno] at hyes
    cases hyes

end Shop

end EntityQuery
