import EntityQuery.Filter.Typing
import EntityQuery.Proofs.Spans
import EntityQuery.Sample.Orders

/-!
# Spans of mistakes

Typing puts an error on the span of a node or of a part of it (`Typing.expr_error`), and those are
pieces of the text when the nodes are placed as their spans say. Together with the errors of parsing
this locates every mistake in a filter or a sort order (`Parser.spans_locate`).
-/

namespace EntityQuery

/-! ## Errors of typing -/

namespace Typing

variable {m : Metadata} {root : String} {err : TypeError}

/-- An error of a walk is about the path. -/
theorem walk_error {span : Span} {entity : String} {segments : List String}
    (h : walk m span entity segments = .error err) : err.span = span := by
  induction segments generalizing entity with
  | nil => cases h
  | cons segment segments ih =>
    unfold walk at h
    split at h
    next => exact ih h
    next =>
      cases h
      rfl

/-- An error of a last segment is about the path. -/
theorem lastType_error {span : Span} {entity last : String}
    (h : lastType m span entity last = .error err) : err.span = span := by
  unfold lastType at h
  grind

/-- An error of a path is about the path. -/
theorem pathType_error {path : List String} {span : Span}
    (h : pathType m root path span = .error err) : err.span = span := by
  unfold pathType at h
  split at h
  next =>
    cases h
    rfl
  next =>
    rcases except_bind_eq_error.mp h with h | ⟨entity, -, h⟩
    · exact walk_error h
    · exact lastType_error h

/-- An error of a constant is about the literal. -/
theorem constant_error {literal : Literal} {span : Span}
    (h : constant literal span = .error err) : err.span = span := by
  unfold constant at h
  grind

/-- An error of a function is about its name or about the call. -/
theorem function_error {name : Located String} {n : Nat} {span : Span}
    (h : function name n span = .error err) : err.span = name.span ∨ err.span = span := by
  unfold function at h
  grind

/-- An error of a prefix operator is about the whole, or it is one of the operand. -/
theorem expr_unary_error {op : UnaryOp} {operand : Syntax} {span : Span}
    (h : expr m root (.unary op operand span) = .error err) :
    err.span = span ∨ expr m root operand = .error err := by
  by_cases hliteral : ∃ value span', op = .negate ∧ operand = .literal value span'
  · obtain ⟨value, span', rfl, rfl⟩ := hliteral
    rw [expr] at h
    split at h
    next => exact .inl (constant_error h)
    next =>
      cases h
      exact .inl rfl
  · rw [expr] at h
    · rcases except_bind_eq_error.mp h with h | ⟨inner, -, h⟩
      · exact .inr h
      · cases h
    · intro value span' hop hoperand
      exact hliteral ⟨value, span', hop, hoperand⟩

/-- An error of typing is about a node of what is typed, or about a part of a node. -/
theorem expr_error {e : Syntax} (h : expr m root e = .error err) :
    ∃ n ∈ e.nodes, err.span = n.span ∨ err.span ∈ n.parts := by
  induction e using @Syntax.rec _
    (fun es => expr.exprs m root es = .error err →
      ∃ n ∈ Syntax.nodes.nodesOfAll es, err.span = n.span ∨ err.span ∈ n.parts) with
  | binary op left right span ihl ihr =>
    unfold expr at h
    have hmem : ∀ n, n ∈ left.nodes ∨ n ∈ right.nodes →
        n ∈ (Syntax.binary op left right span).nodes :=
      fun n hn => List.mem_cons_of_mem _ (List.mem_append.mpr hn)
    rcases except_bind_eq_error.mp h with h | ⟨l, -, h⟩
    · obtain ⟨n, hn, hspan⟩ := ihl h
      exact ⟨n, hmem n (.inl hn), hspan⟩
    · rcases except_bind_eq_error.mp h with h | ⟨r, -, h⟩
      · obtain ⟨n, hn, hspan⟩ := ihr h
        exact ⟨n, hmem n (.inr hn), hspan⟩
      · cases h
  | unary op operand span ih =>
    rcases expr_unary_error h with hspan | h
    · exact ⟨_, List.mem_cons_self, .inl hspan⟩
    · obtain ⟨n, hn, hspan⟩ := ih h
      exact ⟨n, List.mem_cons_of_mem _ hn, hspan⟩
  | path segments span =>
    unfold expr at h
    rcases except_bind_eq_error.mp h with h | ⟨ty, -, h⟩
    · exact ⟨_, List.mem_cons_self, .inl (pathType_error h)⟩
    · cases h
  | call name args span ih =>
    unfold expr at h
    rcases except_bind_eq_error.mp h with h | ⟨f, -, h⟩
    · rcases function_error h with hspan | hspan
      · exact ⟨_, List.mem_cons_self, .inr (hspan ▸ List.mem_cons_self)⟩
      · exact ⟨_, List.mem_cons_self, .inl hspan⟩
    · rcases except_bind_eq_error.mp h with h | ⟨typed, -, h⟩
      · obtain ⟨n, hn, hspan⟩ := ih h
        exact ⟨n, List.mem_cons_of_mem _ hn, hspan⟩
      · cases h
  | literal value span =>
    unfold expr at h
    exact ⟨_, List.mem_cons_self, .inl (constant_error h)⟩
  | nil =>
    rename_i h
    cases h
  | cons e es ihe ihes =>
    rename_i h
    unfold expr.exprs at h
    rcases except_bind_eq_error.mp h with h | ⟨first, -, h⟩
    · obtain ⟨n, hn, hspan⟩ := ihe h
      exact ⟨n, List.mem_append_left _ hn, hspan⟩
    · rcases except_bind_eq_error.mp h with h | ⟨rest, -, h⟩
      · obtain ⟨n, hn, hspan⟩ := ihes h
        exact ⟨n, List.mem_append_right _ hn, hspan⟩
      · cases h

/-- An error of typing a filter is about a node of it, or about a part of a node. -/
theorem filter_error {e : Syntax} (h : filter m root e = .error err) :
    ∃ n ∈ e.nodes, err.span = n.span ∨ err.span ∈ n.parts := by
  rcases except_bind_eq_error.mp h with h | ⟨_, -, h⟩
  · refine ⟨e, e.mem_nodes_self, .inl ?_⟩
    unfold checkRoot at h
    grind
  · exact expr_error h

/-- An error of typing a sort order is about an item of it, or it is one of its expression. -/
theorem orderKeys_error {items : List OrderItem} (h : orderKeys m root items = .error err) :
    ∃ item ∈ items, err.span = item.span ∨ expr m root item.expr = .error err := by
  have hkeys : items.mapM (orderKey m root) = .error err →
      ∃ item ∈ items, err.span = item.span ∨ expr m root item.expr = .error err := by
    intro h
    obtain ⟨keys, rest, h⟩ := mapM_eq_error_iff.mp h
    obtain ⟨item, hitem, h⟩ := List.mem_map.mp
      (h ▸ List.mem_append_right _ List.mem_cons_self)
    rcases except_bind_eq_error.mp h with h | ⟨typed, -, h⟩
    · exact ⟨item, hitem, .inr h⟩
    · cases h
  cases items with
  | nil => exact hkeys h
  | cons item items =>
    rcases except_bind_eq_error.mp h with h | ⟨_, -, h⟩
    · refine ⟨item, List.mem_cons_self, .inl ?_⟩
      unfold checkRoot at h
      grind
    · exact hkeys h

end Typing

section

variable {source : String} {m : Metadata} {root : String} {err : TypeError}

/-- In a placed expression, nodes and their parts are pieces of the text. -/
theorem Syntax.AllPlaced.isPiece {e : Syntax} {s : Span} (h : e.AllPlaced source)
    (hs : ∃ n ∈ e.nodes, s = n.span ∨ s ∈ n.parts) : s.IsPiece source := by
  obtain ⟨n, hn, rfl | hs⟩ := hs
  · exact (h n hn).isPiece
  · exact ((h n hn).parts s hs).1

/-- An error of typing a placed filter is about a piece of the text. -/
theorem Typing.filter_error_isPiece {e : Syntax} (hplaced : e.AllPlaced source)
    (h : filter m root e = .error err) : err.span.IsPiece source :=
  hplaced.isPiece (filter_error h)

/-- An error of typing placed items is about a piece of the text. -/
theorem Typing.orderKeys_error_isPiece {items : List OrderItem}
    (hplaced : ∀ item ∈ items, item.IsPlaced source) (h : orderKeys m root items = .error err) :
    err.span.IsPiece source := by
  obtain ⟨item, hitem, hspan | h⟩ := orderKeys_error h
  · exact hspan ▸ (hplaced item hitem).isPiece
  · exact (hplaced item hitem).expr.isPiece (expr_error h)

/-- A mistake in a filter text is about a part of it. -/
theorem Expr.ofFilter_error {mistake : LanguageError}
    (h : Expr.ofFilter m root source = .error mistake) :
    mistake.diagnostic.span.IsWithin source := by
  have hparsed := Syntax.parseFilter_ensures source defaultNesting
  unfold Expr.ofFilter at h
  split at h
  next e he =>
    cases h
    exact hparsed.error he
  next e he =>
    cases htyped : Typing.filter m root e with
    | ok typed =>
      rw [htyped] at h
      cases h
    | error err =>
      rw [htyped] at h
      cases h
      exact (Typing.filter_error_isPiece (hparsed.ok he) htyped).toIsWithin

/-- A mistake in a sort order text is about a part of it. -/
theorem OrderKey.ofOrderBy_error {mistake : LanguageError}
    (h : OrderKey.ofOrderBy m root source = .error mistake) :
    mistake.diagnostic.span.IsWithin source := by
  have hparsed := OrderItem.parseList_ensures source defaultNesting
  unfold OrderKey.ofOrderBy at h
  split at h
  next e he =>
    cases h
    exact hparsed.error he
  next items hitems =>
    cases htyped : Typing.orderKeys m root items with
    | ok typed =>
      rw [htyped] at h
      cases h
    | error err =>
      rw [htyped] at h
      cases h
      exact (Typing.orderKeys_error_isPiece (hparsed.ok hitems).1 htyped).toIsWithin

end

/-- Spans locate what they name. All nodes of a filter that is parsed, and all items of a sort
order with the nodes of their expressions, have spans of characters of the text; the operands of a
node, and the name and the arguments of a call, stand within it, one behind the other, and the items
do so too. Errors of typing them are about characters of the text, and errors of parsing about
a part of it, which may be its end. So the diagnostic of every mistake has a span that does not stop
before it starts or behind the end of the text, and its size is the distance between the two. -/
theorem Parser.spans_locate (source : String) (limit : Nat) :
    (∀ e, Syntax.parseFilter source limit = .ok e →
      (∀ n ∈ e.nodes, n.IsPlaced source) ∧
      ∀ m root err, Typing.filter m root e = .error err → err.span.IsPiece source) ∧
    (∀ items, OrderItem.parseList source limit = .ok items →
      (∀ item ∈ items, item.IsPlaced source) ∧
      (items.map (·.span)).Pairwise (fun s t => s.stop ≤ t.start) ∧
      ∀ m root err, Typing.orderKeys m root items = .error err → err.span.IsPiece source) ∧
    (∀ err, Syntax.parseFilter source limit = .error err ∨
      OrderItem.parseList source limit = .error err → err.span.IsWithin source) ∧
    (∀ m root mistake, Expr.ofFilter m root source = .error mistake ∨
      OrderKey.ofOrderBy m root source = .error mistake →
        mistake.diagnostic.span.IsWithin source) ∧
    ∀ s : Span, s.IsWithin source →
      s.start ≤ s.stop ∧ s.stop ≤ source.utf8ByteSize ∧ s.start + s.size = s.stop := by
  have hfilter := Syntax.parseFilter_ensures source limit
  have hlist := OrderItem.parseList_ensures source limit
  refine ⟨?_, ?_, ?_, ?_, ?_⟩
  · intro e he
    have hplaced := hfilter.ok he
    exact ⟨hplaced, fun m root err => Typing.filter_error_isPiece hplaced⟩
  · intro items hitems
    obtain ⟨hplaced, hordered⟩ := hlist.ok hitems
    exact ⟨hplaced, hordered, fun m root err => Typing.orderKeys_error_isPiece hplaced⟩
  · rintro err (h | h)
    · exact hfilter.error h
    · exact hlist.error h
  · rintro m root mistake (h | h)
    · exact Expr.ofFilter_error h
    · exact OrderKey.ofOrderBy_error h
  · intro s hs
    exact ⟨hs.le, hs.stop_le, Nat.add_sub_cancel' hs.le⟩

/-- A filter calls a function with an argument too many, before letters of two bytes; a sort order
has an unknown property; and another one ends with a comma, so that its error is about its end. -/
theorem Parser.mistakes_located :
    (∃ e err, Syntax.parseFilter "name eq 'Ærø' and length(name, 1) gt 2" 1 = .ok e ∧
      Typing.filter Shop.customers.metadata Shop.customers.root e = .error err ∧
      (∀ n ∈ e.nodes, n.IsPlaced "name eq 'Ærø' and length(name, 1) gt 2") ∧
      err.span.IsPiece "name eq 'Ærø' and length(name, 1) gt 2") ∧
    (∃ items err, OrderItem.parseList "name desc, shade" 1 = .ok items ∧
      Typing.orderKeys Shop.customers.metadata Shop.customers.root items = .error err ∧
      (∀ item ∈ items, item.IsPlaced "name desc, shade") ∧
      err.span.IsPiece "name desc, shade") ∧
    ∃ err, OrderItem.parseList "'Ærø' desc," 1 = .error err ∧
      err.span.IsWithin "'Ærø' desc," ∧ err.span.start + err.span.size = err.span.stop := by
  refine ⟨?_, ?_, ?_⟩
  · obtain ⟨hfilter, -⟩ := spans_locate "name eq 'Ærø' and length(name, 1) gt 2" 1
    obtain ⟨e, he⟩ := exists_of_isOk
      (show (Syntax.parseFilter "name eq 'Ærø' and length(name, 1) gt 2" 1).isOk = true by
        decide +kernel)
    have hfails : ((Syntax.parseFilter "name eq 'Ærø' and length(name, 1) gt 2" 1).toOption.all
        fun e => !(Typing.filter Shop.customers.metadata Shop.customers.root e).isOk) = true := by
      decide +kernel
    rw [he] at hfails
    obtain ⟨err, herr⟩ := exists_of_not_isOk (Bool.not_eq_true' _ |>.mp hfails)
    obtain ⟨hplaced, htyping⟩ := hfilter e he
    exact ⟨e, err, he, herr, hplaced, htyping _ _ err herr⟩
  · obtain ⟨-, hlist, -⟩ := spans_locate "name desc, shade" 1
    obtain ⟨items, hitems⟩ := exists_of_isOk
      (show (OrderItem.parseList "name desc, shade" 1).isOk = true by decide +kernel)
    have hfails : ((OrderItem.parseList "name desc, shade" 1).toOption.all
        fun items =>
          !(Typing.orderKeys Shop.customers.metadata Shop.customers.root items).isOk) = true := by
      decide +kernel
    rw [hitems] at hfails
    obtain ⟨err, herr⟩ := exists_of_not_isOk (Bool.not_eq_true' _ |>.mp hfails)
    obtain ⟨hplaced, -, htyping⟩ := hlist items hitems
    exact ⟨items, err, hitems, herr, hplaced, htyping _ _ err herr⟩
  · obtain ⟨-, -, hparsing, -, hsize⟩ := spans_locate "'Ærø' desc," 1
    obtain ⟨err, herr⟩ := exists_of_not_isOk
      (show (OrderItem.parseList "'Ærø' desc," 1).isOk = false by decide +kernel)
    have hwithin := hparsing err (.inr herr)
    exact ⟨err, herr, hwithin, (hsize _ hwithin).2.2⟩

end EntityQuery
