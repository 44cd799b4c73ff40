import EntityQuery.Proofs.Comparisons
import EntityQuery.Proofs.FilterReading

/-!
# Texts of filter expressions

What a printed expression is made of is read back token by token: `Lexeme.Lexes` says that
characters are read as some tokens wherever no token is prolonged by what follows, and is carried
over spaces and symbols from the parts of a text to the whole (`Lexes.spaced`, `Lexes.marked`). The
names in an expression that was typed from a text are names of the text and can be written again
(`Derives.isNamed`), and an expression whose constants are text, truth values and null has the tree
of what it was typed from (`Typing.tree_of_expr`).
-/

namespace EntityQuery

/-! ## Characters and their tokens -/

namespace Lexeme

variable {cs ds : List Char} {ts us : List Token}

/-- Characters are read as tokens wherever the text stops after them. -/
def ReadsAs (cs : List Char) (ts : List Token) : Prop :=
  ∀ offset rest, Stops rest →
    Reads (startingAt offset (cs ++ rest)) ts (startingAt (offset + Text.byteLength cs) rest)

/-- Characters that do not begin with a space are read as tokens. -/
structure Lexes (cs : List Char) (ts : List Token) : Prop where
  /-- No space comes first. -/
  head : ∃ c more, cs = c :: more ∧ isSpace c = false
  /-- The characters are the tokens. -/
  reads : ReadsAs cs ts

/-- No token is prolonged by a symbol. -/
theorem stops_symbol (s : Symbol) (rest : List Char) : Stops (s.char :: rest) := by
  cases s <;> exact ⟨by decide, by decide, by decide⟩

/-- Nothing is read as no tokens. -/
theorem ReadsAs.nil : ReadsAs [] [] := fun offset rest _ => .nil (startingAt offset rest)

/-- A symbol is read before the text that it stands before. -/
theorem ReadsAs.symbol (s : Symbol) (h : ReadsAs cs ts) :
    ReadsAs (s.char :: cs) (.symbol s :: ts) := by
  intro offset rest hrest
  obtain ⟨l, hl, hstart⟩ := startingAt_symbol s offset (cs ++ rest)
  have hread := h (offset + Text.byteLength [s.char]) rest hrest
  have hoffset : offset + Text.byteLength [s.char] + Text.byteLength cs =
      offset + Text.byteLength (s.char :: cs) := by
    rw [Nat.add_assoc, ← Text.byteLength_append]
    rfl
  rw [hoffset] at hread
  rw [List.cons_append, hstart]
  exact .cons hl hread

/-- A space is passed over before a text. -/
theorem Lexes.afterSpace (h : Lexes cs ts) : ReadsAs (' ' :: cs) ts := by
  intro offset rest hrest
  obtain ⟨c, more, rfl, hspace⟩ := h.head
  have hread := h.reads (offset + 1) rest hrest
  have hoffset : offset + 1 + Text.byteLength (c :: more) =
      offset + Text.byteLength (' ' :: c :: more) := Nat.add_assoc _ _ _
  rw [hoffset] at hread
  rw [List.cons_append, List.cons_append, startingAt_space hspace]
  exact hread

/-- What prolongs no token of a text is read after the text. -/
theorem Lexes.append (h : Lexes cs ts) (hstops : ∀ rest, Stops (ds ++ rest))
    (h' : ReadsAs ds us) : Lexes (cs ++ ds) (ts ++ us) where
  head := by
    obtain ⟨c, more, rfl, hspace⟩ := h.head
    exact ⟨c, more ++ ds, rfl, hspace⟩
  reads offset rest hrest := by
    have hfirst := h.reads offset (ds ++ rest) (hstops rest)
    have hsecond := h' (offset + Text.byteLength cs) rest hrest
    rw [Nat.add_assoc, ← Text.byteLength_append] at hsecond
    rw [List.append_assoc]
    exact hfirst.append hsecond

/-- A spelling is read as its token. -/
theorem Lexes.spelling {t : Token} {s : String} (h : t.Spells s) : Lexes s.toList [t] where
  head := by
    have hstops : Stops [] := trivial
    obtain ⟨c, more, hs, hspace, -⟩ := kindAt_spells h hstops
    exact ⟨c, more, hs, hspace⟩
  reads offset rest hrest := by
    obtain ⟨l, hl, hstart⟩ := startingAt_spells h hrest offset
    rw [hstart]
    exact .singleton hl

/-- Two texts with a space between them are read one after the other. -/
theorem Lexes.spaced (h : Lexes cs ts) (h' : Lexes ds us) :
    Lexes (cs ++ ' ' :: ds) (ts ++ us) :=
  h.append (fun _ => stops_space _) h'.afterSpace

/-- Two texts with a symbol between them are read with the symbol between their tokens. -/
theorem Lexes.marked (s : Symbol) (h : Lexes cs ts) (h' : ReadsAs ds us) :
    Lexes (cs ++ s.char :: ds) (ts ++ .symbol s :: us) :=
  h.append (fun _ => stops_symbol s _) (h'.symbol s)

/-- A text is read after a symbol. -/
theorem Lexes.prefixed (s : Symbol) (h : Lexes cs ts) :
    Lexes (s.char :: cs) (.symbol s :: ts) where
  head := ⟨s.char, cs, rfl, by cases s <;> rfl⟩
  reads := h.reads.symbol s

/-- A text in parentheses is read with its parentheses. -/
theorem Lexes.enclosed (h : Lexes cs ts) :
    Lexes ('(' :: (cs ++ [')'])) (.symbol .open :: (ts ++ [.symbol .close])) :=
  (h.marked .close .nil).prefixed .open

/-- A whole text is read as its tokens. -/
theorem Lexes.all {source : String} (h : Lexes source.toList ts) : Reads (all source) ts [] := by
  have hstops : Stops [] := trivial
  have hnone : startingAt (0 + Text.byteLength source.toList) [] = [] := by
    rw [startingAt]
  have hread := h.reads 0 [] hstops
  rw [List.append_nil, hnone] at hread
  exact hread

/-! ## Names -/

/-- No number is a name. -/
theorem number_ne_ident {c : Char} {name : String} : (number c cs).1 ≠ .token (.ident name) := by
  intro h
  unfold number whole? at h
  grind

/-- A word that is a name token is a name and no keyword. -/
theorem isWritable_of_word {c : Char} {name : String} (hstart : isNameStart c = true)
    (h : (word c cs).1 = .token (.ident name)) : (Token.ident name).IsWritable := by
  unfold word at h
  dsimp only at h
  split at h
  next =>
    split at h
    next => cases h
    next => cases h
  next =>
    have hword := Kind.token.inj h
    unfold wordToken at hword
    split at hword
    next => cases hword
    next hnone =>
      obtain rfl := Token.ident.inj hword
      refine ⟨?_, ?_⟩
      · rw [String.toList_ofList]
        exact ⟨hstart, List.all_takeWhile⟩
      · intro k hk
        rw [← hk, k.ofSpelling?_spelling] at hnone
        cases hnone

/-- What is read as a name can be written. -/
theorem isWritable_of_kindAt {c : Char} {name : String} {n : Nat}
    (h : kindAt c cs = (.token (.ident name), n)) : (Token.ident name).IsWritable := by
  unfold kindAt at h
  split at h
  next => cases h
  next =>
    split at h
    next =>
      split at h
      next => cases h
      next => cases h
    next =>
      split at h
      next => exact absurd (congrArg Prod.fst h) number_ne_ident
      next =>
        split at h
        next hstart => exact isWritable_of_word hstart (congrArg Prod.fst h)
        next =>
          split at h
          next => cases h
          next => cases h

/-- The name tokens of a text can be written. -/
theorem isWritable_of_mem {source name : String} {l : Lexeme} (h : l ∈ all source)
    (hname : l.token? = some (.ident name)) : (Token.ident name).IsWritable := by
  obtain ⟨c, rest, n, hkind, -⟩ := (stands_of_mem h).front _ hname
  exact isWritable_of_kindAt hkind

end Lexeme

/-- Every token that is read is the token of a lexeme. -/
theorem Reads.exists_mem {ls rest : List Lexeme} {ts : List Token} (h : Reads ls ts rest)
    {t : Token} (ht : t ∈ ts) : ∃ l ∈ ls, l.token? = some t := by
  induction h with
  | nil => cases ht
  | @cons l ls rest t' ts hl _ ih =>
    rcases List.mem_cons.mp ht with rfl | ht
    · exact ⟨l, List.mem_cons_self, hl⟩
    · obtain ⟨l', hmem, hl'⟩ := ih ht
      exact ⟨l', List.mem_cons_of_mem l hmem, hl'⟩

/-- Every path in a tree has names, and they can be written. -/
def Tree.IsNamed : Tree → Prop
  | binary _ left right => left.IsNamed ∧ right.IsNamed
  | unary _ operand => operand.IsNamed
  | path segments => segments ≠ [] ∧ ∀ name ∈ segments, (Token.ident name).IsWritable
  | call _ args => AllNamed args
  | literal _ => True
where
  /-- Every path in some trees has names. -/
  AllNamed : List Tree → Prop
    | [] => True
    | e :: es => e.IsNamed ∧ AllNamed es

/-- The paths in a tree are made of the names that it derives from. -/
theorem Derives.isNamed {c : Category} {ts : List Token} {e : Tree} {n : Nat}
    (h : Derives c ts e n)
    (hts : ∀ name, .ident name ∈ ts → (Token.ident name).IsWritable) : e.IsNamed := by
  induction h using @Derives.rec _
    (fun ts args _ _ => (∀ name, .ident name ∈ ts → (Token.ident name).IsWritable) →
      Tree.IsNamed.AllNamed args) with
  | operand _ ih => exact ih hts
  | operation _ _ ihl ihr =>
    constructor
    · exact ihl fun name hname => hts name (List.mem_append_left _ hname)
    · exact ihr fun name hname =>
        hts name (List.mem_append_right _ (List.mem_cons_of_mem _ hname))
  | unary _ ih => exact ih fun name hname => hts name (List.mem_cons_of_mem _ hname)
  | primary _ ih => exact ih hts
  | literal value => trivial
  | path first more =>
    refine ⟨List.cons_ne_nil _ _, ?_⟩
    intro name hname
    apply hts
    rcases List.mem_cons.mp hname with rfl | hname
    · exact List.mem_cons_self
    · refine List.mem_cons_of_mem _ (List.mem_flatMap.mpr ⟨name, hname, ?_⟩)
      exact List.mem_cons_of_mem _ List.mem_cons_self
  | emptyCall name => trivial
  | call _ ih =>
    exact ih fun name hname => hts name
      (List.mem_cons_of_mem _ (List.mem_cons_of_mem _ (List.mem_append_left _ hname)))
  | group _ ih =>
    exact ih fun name hname => hts name (List.mem_cons_of_mem _ (List.mem_append_left _ hname))
  | last _ ih =>
    rename_i hts
    exact ⟨ih hts, trivial⟩
  | more _ _ ih ihmore =>
    rename_i hts
    constructor
    · exact ih fun name hname => hts name (List.mem_append_left _ hname)
    · exact ihmore fun name hname =>
        hts name (List.mem_append_right _ (List.mem_cons_of_mem _ hname))

/-- The paths of a parsed filter have names that can be written. -/
theorem Syntax.isNamed_of_parseFilter {source : String} {limit : Nat} {parsed : Syntax}
    (h : parseFilter source limit = .ok parsed) : parsed.tree.IsNamed := by
  obtain ⟨tokens, n, htokens, hd, -⟩ :=
    (Parser.parseFilter_iff source limit parsed.tree).mp ⟨parsed, h, rfl⟩
  refine hd.isNamed fun name hname => ?_
  have hreads := mapM_token_eq_ok.mp ⟨tokens, htokens, rfl⟩
  obtain ⟨l, hl, htoken⟩ := hreads.exists_mem hname
  exact Lexeme.isWritable_of_mem hl htoken

/-! ## Trees of typed expressions -/

/-- The literal that text, a truth value or null is written as. -/
def Value.literal? : Value → Option Literal
  | null => some .null
  | bool b => some (.bool b)
  | string s => some (.text s)
  | _ => none

/-- The tree of a typed expression whose constants have literals. -/
def Expr.tree : Expr → Tree
  | logical op left right => .binary (.logical op) left.tree right.tree
  | arithmetic op left right => .binary (.arithmetic op) left.tree right.tree
  | relational op left right => .binary (.relational op) left.tree right.tree
  | unary op operand => .unary op operand.tree
  | property path _ => .path path
  | call f args => .call f.name (trees args)
  | constant value _ => .literal (value.literal?.getD .null)
where
  /-- The trees of some typed expressions. -/
  trees : List Expr → List Tree
    | [] => []
    | e :: es => e.tree :: trees es

/-- An expression that is a constant is text that is declared as text, a truth value or null. -/
def Expr.IsTextual : Expr → Prop
  | constant .null _ | constant (.bool _) _ => True
  | constant (.string _) ty => ty = .string
  | constant _ _ => False
  | _ => True

instance : DecidablePred Expr.IsTextual
  | .constant .null _ | .constant (.bool _) _ => isTrue trivial
  | .constant (.string _) ty => inferInstanceAs (Decidable (ty = .string))
  | .constant (.int32 _) _ | .constant (.int64 _) _ | .constant (.float64 _) _
  | .constant (.decimal _) _ | .constant (.bytes _) _ | .constant (.dateTime _) _
  | .constant (.guid _) _ => isFalse id
  | .logical .. | .arithmetic .. | .relational .. | .unary .. | .property .. | .call .. =>
    isTrue trivial

namespace Typing

variable {m : Metadata} {root : String}

/-- A literal that is typed to text, a truth value or null is the literal of that, and no number. -/
theorem constant_textual {literal : Literal} {span : Span} {e : Expr}
    (h : constant literal span = .ok e) (htext : e.IsTextual) :
    e.tree = .literal literal ∧ literal.negate? = none := by
  cases literal with
  | null | bool b | text value =>
    cases h
    exact ⟨rfl, rfl⟩
  | int n | double x =>
    unfold constant at h
    dsimp only at h
    split at h
    next =>
      cases h
      exact htext.elim
    next => cases h <;> exact htext.elim
  | long n | decimal digits =>
    cases h
    exact htext.elim
  | quoted kind body =>
    obtain rfl : Expr.constant (.string body) kind.edmType = e := Except.ok.inj h
    have hty : kind.edmType = .string := htext
    cases kind <;> cases hty

/-- A number with the other sign is a number. -/
theorem negate?_ne_none {literal negated : Literal} (h : literal.negate? = some negated) :
    negated.negate? ≠ none := by
  cases literal with
  | int | long | double | decimal =>
    cases h
    exact nofun
  | _ => cases h

/-- The function of a call has the name that the call is written with. -/
theorem function_name {name : Located String} {n : Nat} {span : Span} {f : Builtin}
    (h : function name n span = .ok f) : f.name = name.value := by
  unfold function at h
  split at h
  next => cases h
  next g hg =>
    split at h
    next =>
      cases h
      have hfound := List.find?_some (p := fun f : Builtin => f.name == name.value) hg
      exact eq_of_beq hfound
    next => cases h

/-- An expression whose constants are text, truth values and null has the tree of what it was typed
from. -/
theorem tree_of_expr {parsed : Syntax} {e : Expr} (h : expr m root parsed = .ok e)
    (htext : ∀ part ∈ e.parts, part.IsTextual) : e.tree = parsed.tree := by
  induction parsed using @Syntax.rec _
    (fun as => ∀ es, expr.exprs m root as = .ok es →
      (∀ part ∈ Expr.parts.partsOfAll es, part.IsTextual) →
      Expr.tree.trees es = Syntax.tree.trees as)
    generalizing e with
  | binary op left right span ihl ihr =>
    unfold expr at h
    obtain ⟨l, hl, h⟩ := except_bind_eq_ok.mp h
    obtain ⟨r, hr, h⟩ := except_bind_eq_ok.mp h
    obtain rfl : binary op l r = e := Except.ok.inj h
    have hparts : (∀ part ∈ l.parts, part.IsTextual) ∧ ∀ part ∈ r.parts, part.IsTextual := by
      cases op <;> exact List.forall_mem_append.mp (List.forall_mem_cons.mp htext).2
    have hleft := ihl hl hparts.1
    have hright := ihr hr hparts.2
    cases op <;> exact congrArg₂ _ hleft hright
  | unary op operand span ih =>
    rcases expr_unary_cases h with ⟨value, place, negated, -, -, hnegated, hconstant⟩ |
      ⟨inner, hinner, rfl⟩
    · have hnumber := (constant_textual hconstant (htext e e.self_mem_parts)).2
      exact absurd hnumber (negate?_ne_none hnegated)
    · have hoperand := ih hinner (List.forall_mem_cons.mp htext).2
      exact congrArg (Tree.unary op) hoperand
  | path segments span =>
    unfold expr at h
    obtain ⟨ty, -, h⟩ := except_bind_eq_ok.mp h
    cases h
    rfl
  | call name args span ih =>
    unfold expr at h
    obtain ⟨f, hf, h⟩ := except_bind_eq_ok.mp h
    obtain ⟨es, hes, h⟩ := except_bind_eq_ok.mp h
    cases h
    have hargs := ih es hes (List.forall_mem_cons.mp htext).2
    have hname := function_name hf
    show Tree.call f.name (Expr.tree.trees es) = .call name.value (Syntax.tree.trees args)
    rw [hname, hargs]
  | literal value span => exact (constant_textual h (htext e e.self_mem_parts)).1
  | nil =>
    rename_i h _
    cases h
    rfl
  | cons a as iha ihas =>
    rename_i h htext
    unfold expr.exprs at h
    obtain ⟨first, ha, h⟩ := except_bind_eq_ok.mp h
    obtain ⟨rest, has, h⟩ := except_bind_eq_ok.mp h
    cases h
    obtain ⟨hfirst, hrest⟩ := List.forall_mem_append.mp htext
    exact congrArg₂ List.cons (iha ha hfirst) (ihas rest has hrest)

end Typing

end EntityQuery
