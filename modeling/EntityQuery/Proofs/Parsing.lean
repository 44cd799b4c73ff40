import EntityQuery.Proofs.ParserRefusals

/-!
# The parser and its grammar

A text is parsed exactly when it is cut into tokens that derive, at a nesting within the bound, and
the tree is that of the derivation (`accepts_iff_derives`). No sequence of tokens derives with two
trees or at two nestings: two derivations of one sequence would be parsed as the same text, at the
smaller nesting, where the one with the greater nesting is refused (`unique_of_complete`).
-/

namespace EntityQuery

/-! ## Whole texts -/

/-- Lexemes that are all tokens are read to the end. -/
theorem mapM_token_eq_ok {ls : List Lexeme} {ts : List Token} :
    (∃ tokens, ls.mapM Lexeme.token = .ok tokens ∧ tokens.map (·.value) = ts) ↔
      Reads ls ts [] := by
  induction ls generalizing ts with
  | nil =>
    constructor
    · rintro ⟨tokens, htokens, rfl⟩
      cases htokens
      exact .nil []
    · intro h
      cases h
      exact ⟨[], rfl, rfl⟩
  | cons l ls ih =>
    constructor
    · rintro ⟨tokens, htokens, rfl⟩
      rw [List.mapM_cons] at htokens
      obtain ⟨t, ht, htokens⟩ := except_bind_eq_ok.mp htokens
      obtain ⟨rest, hrest, htokens⟩ := except_bind_eq_ok.mp htokens
      cases htokens
      exact .cons (Lexeme.token_eq_ok.mp ht).1 (ih.mp ⟨rest, hrest, rfl⟩)
    · intro h
      cases h with | @cons _ _ _ t _ ht h =>
      obtain ⟨rest, hrest, rfl⟩ := ih.mpr h
      refine ⟨⟨t, l.span⟩ :: rest, ?_, rfl⟩
      rw [List.mapM_cons]
      refine except_bind_eq_ok.mpr ⟨⟨t, l.span⟩, Lexeme.token_eq_ok.mpr ⟨ht, rfl⟩, ?_⟩
      exact except_bind_eq_ok.mpr ⟨rest, hrest, rfl⟩

namespace Parser

section

variable {α β : Type} {D : List Token → β → Nat → Prop} {p : Parser α} {tree : α → β}
  {stop : Token → Prop} {k : Nat}

/-- A sound and complete parser takes all of a text exactly when that is made of tokens that
derive. -/
theorem exists_yields_iff (hsound : IsSound p tree D k) (hcomplete : IsComplete p tree D stop k)
    {ls : List Lexeme} {b : β} :
    (∃ a, Yields (p ls) a [] ∧ tree a = b) ↔
      ∃ tokens n, ls.mapM Lexeme.token = .ok tokens ∧ D (tokens.map (·.value)) b n ∧ n ≤ k := by
  constructor
  · rintro ⟨a, ha, rfl⟩
    obtain ⟨ts, n, hreads, hd, hn⟩ := hsound _ _ _ ha
    obtain ⟨tokens, htokens, rfl⟩ := mapM_token_eq_ok.mpr hreads
    exact ⟨tokens, n, htokens, hd, hn⟩
  · rintro ⟨tokens, n, htokens, hd, hn⟩
    exact hcomplete _ _ _ hd hn ls [] (mapM_token_eq_ok.mp ⟨tokens, htokens, rfl⟩) .nil

end

/-- What is parsed completely, and refused beyond the bound, derives in one way. -/
theorem unique_of_complete {α β : Type} {D : List Token → β → Nat → Prop} {p : Nat → Parser α}
    {tree : α → β} {stop : Token → Prop} (hcomplete : ∀ k, IsComplete (p k) tree D stop k)
    (hrefuses : ∀ k, Refuses (p k) D stop k) {ts : List Token} {b b' : β} {n n' : Nat}
    (h : D ts b n) (h' : D ts b' n') : b = b' ∧ n = n' := by
  have hreads := Reads.of_tokens ts ⟨0, 0⟩
  have hle : ∀ {b b' n n'}, D ts b n → D ts b' n' → n' ≤ n := by
    -- Otherwise the tokens are parsed at a bound where the other derivation is refused.
    intro b b' n n' h h'
    refine Nat.le_of_not_lt fun hlt => ?_
    obtain ⟨a, ha, -⟩ := hcomplete n ts b n h (Nat.le_refl n) _ [] hreads .nil
    exact hrefuses n ts b' n' h' hlt _ [] hreads .nil a [] ha
  have hn : n = n' := Nat.le_antisymm (hle h' h) (hle h h')
  subst hn
  obtain ⟨a, ha, rfl⟩ := hcomplete n ts b n h (Nat.le_refl n) _ [] hreads .nil
  obtain ⟨a', ha', rfl⟩ := hcomplete n ts b' n h' (Nat.le_refl n) _ [] hreads .nil
  obtain ⟨rfl, -⟩ := ha.unique ha'
  exact ⟨rfl, rfl⟩

/-- A parser takes all of a text when nothing is left to finish. -/
theorem finish_bind_eq_ok {α : Type} {p : Parser α} {ls : List Lexeme} {a : α} :
    (do
      let (a, rest) ← p ls
      finish rest.1
      return a : Except ParseError α) = .ok a ↔ Yields (p ls) a [] := by
  rw [except_bind_eq_ok]
  constructor
  · rintro ⟨⟨a', rest, h⟩, ha, hend⟩
    obtain ⟨_, hfinish, hreturn⟩ := except_bind_eq_ok.mp hend
    cases hreturn
    obtain rfl := finish_eq_ok.mp hfinish
    exact ⟨h, ha⟩
  · rintro ⟨h, ha⟩
    exact ⟨_, ha, except_bind_eq_ok.mpr ⟨(), rfl, rfl⟩⟩

/-- A filter is accepted exactly when it is made of tokens that derive. -/
theorem parseFilter_iff (source : String) (limit : Nat) (tree : Tree) :
    (∃ e, Syntax.parseFilter source limit = .ok e ∧ e.tree = tree) ↔
      ∃ tokens n, tokenize source = .ok tokens ∧
        Derives .expression (tokens.map (·.value)) tree n ∧ n ≤ limit := by
  have hsound := (operand_isSound (settingOf source limit) limit).expressionOf
  have hcomplete := expression_isComplete (settingOf source limit) limit
  calc (∃ e, Syntax.parseFilter source limit = .ok e ∧ e.tree = tree)
    _ ↔ ∃ e, Yields (expression (settingOf source limit) (Lexeme.all source)) e [] ∧
          e.tree = tree := exists_congr fun e => and_congr_left' finish_bind_eq_ok
    _ ↔ _ := exists_yields_iff hsound hcomplete

/-- A sort order is accepted exactly when it is made of tokens that list items. -/
theorem parseList_iff (source : String) (limit : Nat) (trees : List (Tree × Direction)) :
    (∃ items, OrderItem.parseList source limit = .ok items ∧
        items.map OrderItem.tree = trees) ↔
      ∃ tokens n, tokenize source = .ok tokens ∧
        Listed DerivesItem (tokens.map (·.value)) trees n ∧ n ≤ limit := by
  have hsound := (operand_isSound (settingOf source limit) limit).expressionOf.orderItems
  have hcomplete := orderItems_isComplete (settingOf source limit) limit
  calc (∃ items, OrderItem.parseList source limit = .ok items ∧ items.map OrderItem.tree = trees)
    _ ↔ ∃ items, Yields (orderItems (expression (settingOf source limit)) (Lexeme.all source))
          items [] ∧ items.map OrderItem.tree = trees :=
        exists_congr fun items => and_congr_left' finish_bind_eq_ok
    _ ↔ _ := exists_yields_iff hsound hcomplete

/-- An expression derives in one way. -/
theorem derives_unique {ts : List Token} {tree tree' : Tree} {n n' : Nat}
    (h : Derives .expression ts tree n) (h' : Derives .expression ts tree' n') :
    tree = tree' ∧ n = n' :=
  -- Any setting will do to parse the tokens.
  unique_of_complete (expression_isComplete ⟨0, 0⟩) (expression_refuses ⟨0, 0⟩) h h'

/-- A sort order derives in one way. -/
theorem listed_unique {ts : List Token} {trees trees' : List (Tree × Direction)} {n n' : Nat}
    (h : Listed DerivesItem ts trees n) (h' : Listed DerivesItem ts trees' n') :
    trees = trees' ∧ n = n' :=
  unique_of_complete (orderItems_isComplete ⟨0, 0⟩) (orderItems_refuses ⟨0, 0⟩) h h'

/-- The parser accepts exactly its grammar: a text is parsed as a filter, or as a sort order, when
it is cut into tokens that derive at a nesting within the limit, and not otherwise, and the trees
are those of the derivation. There are no others, and no other nesting. A text that is accepted
under some limit is therefore accepted with the same trees under every greater one. -/
theorem accepts_iff_derives (source : String) (limit : Nat) :
    (∀ tree, (∃ e, Syntax.parseFilter source limit = .ok e ∧ e.tree = tree) ↔
      ∃ tokens n, tokenize source = .ok tokens ∧
        Derives .expression (tokens.map (·.value)) tree n ∧ n ≤ limit) ∧
    (∀ trees, (∃ items, OrderItem.parseList source limit = .ok items ∧
        items.map OrderItem.tree = trees) ↔
      ∃ tokens n, tokenize source = .ok tokens ∧
        Listed DerivesItem (tokens.map (·.value)) trees n ∧ n ≤ limit) ∧
    (∀ ts tree tree' n n', Derives .expression ts tree n → Derives .expression ts tree' n' →
      tree = tree' ∧ n = n') ∧
    (∀ ts trees trees' n n', Listed DerivesItem ts trees n → Listed DerivesItem ts trees' n' →
      trees = trees' ∧ n = n') ∧
    (∀ limit', limit ≤ limit' → ∀ e, Syntax.parseFilter source limit = .ok e →
      ∃ e', Syntax.parseFilter source limit' = .ok e' ∧ e'.tree = e.tree) ∧
    ∀ limit', limit ≤ limit' → ∀ items, OrderItem.parseList source limit = .ok items →
      ∃ items', OrderItem.parseList source limit' = .ok items' ∧
        items'.map OrderItem.tree = items.map OrderItem.tree := by
  refine ⟨parseFilter_iff source limit, parseList_iff source limit, ?_, ?_, ?_, ?_⟩
  · intro ts tree tree' n n' h h'
    exact derives_unique h h'
  · intro ts trees trees' n n' h h'
    exact listed_unique h h'
  · intro limit' hle e he
    obtain ⟨tokens, n, htokens, hd, hn⟩ := (parseFilter_iff source limit e.tree).mp ⟨e, he, rfl⟩
    exact (parseFilter_iff source limit' e.tree).mpr ⟨tokens, n, htokens, hd, Nat.le_trans hn hle⟩
  · intro limit' hle items hitems
    obtain ⟨tokens, n, htokens, hd, hn⟩ :=
      (parseList_iff source limit (items.map OrderItem.tree)).mp ⟨items, hitems, rfl⟩
    exact (parseList_iff source limit' _).mpr ⟨tokens, n, htokens, hd, Nat.le_trans hn hle⟩

/-- A minus sign in a call in parentheses after `not` is nested four levels deep, and a filter with
it is accepted within four levels and within five, with the only tree that it has; so is a sort
order with a minus sign within one level and within two. -/
theorem nested_accepts_iff_derives :
    (∃ e e' tokens n,
      Syntax.parseFilter "not (round(-total) gt 1 sub 2 sub 3)" 4 = .ok e ∧
      tokenize "not (round(-total) gt 1 sub 2 sub 3)" = .ok tokens ∧
      Derives .expression (tokens.map (·.value)) e.tree n ∧ n ≤ 4 ∧
      (∀ tree n', Derives .expression (tokens.map (·.value)) tree n' →
        tree = e.tree ∧ n' = n) ∧
      Syntax.parseFilter "not (round(-total) gt 1 sub 2 sub 3)" 5 = .ok e' ∧ e'.tree = e.tree) ∧
    ∃ items items' tokens n,
      OrderItem.parseList "-total desc, name" 1 = .ok items ∧
      tokenize "-total desc, name" = .ok tokens ∧
      Listed DerivesItem (tokens.map (·.value)) (items.map OrderItem.tree) n ∧ n ≤ 1 ∧
      (∀ trees n', Listed DerivesItem (tokens.map (·.value)) trees n' →
        trees = items.map OrderItem.tree ∧ n' = n) ∧
      OrderItem.parseList "-total desc, name" 2 = .ok items' ∧
        items'.map OrderItem.tree = items.map OrderItem.tree := by
  refine ⟨?_, ?_⟩
  · obtain ⟨hiff, -, hunique, -, hgreater, -⟩ :=
      accepts_iff_derives "not (round(-total) gt 1 sub 2 sub 3)" 4
    obtain ⟨e, he⟩ := exists_of_isOk
      (show (Syntax.parseFilter "not (round(-total) gt 1 sub 2 sub 3)" 4).isOk = true by
        decide +kernel)
    obtain ⟨tokens, n, htokens, hd, hn⟩ := (hiff e.tree).mp ⟨e, he, rfl⟩
    obtain ⟨e', he', htree⟩ := hgreater 5 (by decide) e he
    exact ⟨e, e', tokens, n, he, htokens, hd, hn,
      fun tree n' hd' => hunique _ _ _ _ _ hd' hd, he', htree⟩
  · obtain ⟨-, hiff, -, hunique, -, hgreater⟩ := accepts_iff_derives "-total desc, name" 1
    obtain ⟨items, hitems⟩ := exists_of_isOk
      (show (OrderItem.parseList "-total desc, name" 1).isOk = true by decide +kernel)
    obtain ⟨tokens, n, htokens, hd, hn⟩ := (hiff _).mp ⟨items, hitems, rfl⟩
    obtain ⟨items', hitems', htrees⟩ := hgreater 2 (by decide) items hitems
    exact ⟨items, items', tokens, n, hitems, htokens, hd, hn,
      fun trees n' hd' => hunique _ _ _ _ _ hd' hd, hitems', htrees⟩

end Parser

end EntityQuery
