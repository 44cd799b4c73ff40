import EntityQuery.Proofs.Binding
import EntityQuery.Proofs.FilterReading
import EntityQuery.Proofs.Patterns

/-!
# Identifiers and bytes as literals

`Text.HexOf` says which texts stand for bytes, two digits for each, and `Guid.IsTextOf` which texts
name an identifier: its 32 digits, bare or in groups with hyphens between them. The reader accepts
these texts and no others (`Guid.ofText?_eq_some_iff`), and it does not matter whether it looks for
hyphens by the characters of a text or by its bytes (`Guid.ofUtf8?_eq`). The texts that identifiers
and bytes are shown as are literals of filters, and what a filter binds for such a literal is the
value that was shown (`Expr.identifiers_and_bytes_decode`).
-/

namespace EntityQuery

/-! ## Digits -/

namespace Text

variable {c : Char} {d : Nat} {cs : List Char} {bytes : List UInt8}

/-- A character is the digit of a number below sixteen, in either case. -/
def IsHexDigit (c : Char) (d : Nat) : Prop :=
  d < 16 ∧ (c = Nat.digitChar d ∨ c = (Nat.digitChar d).toUpper)

instance (c : Char) (d : Nat) : Decidable (IsHexDigit c d) :=
  inferInstanceAs (Decidable (d < 16 ∧ (c = Nat.digitChar d ∨ c = (Nat.digitChar d).toUpper)))

/-- Digits are characters of ASCII before `g`. -/
theorem toNat_lt_of_hexDigit? (h : hexDigit? c = some d) : c.toNat < 103 := by
  unfold hexDigit? at h
  split_ifs at h with hdigit hlower hupper
  · have hle : c.toNat ≤ 57 := hdigit.2
    omega
  · have hle : c.toNat ≤ 102 := hlower.2
    omega
  · have hle : c.toNat ≤ 70 := hupper.2
    omega

/-- The characters with a value are the digits. -/
theorem hexDigit?_eq_some_iff : hexDigit? c = some d ↔ IsHexDigit c d := by
  constructor
  · intro h
    have hall : ∀ n < 103, ∀ d ∈ hexDigit? (Char.ofNat n), IsHexDigit (Char.ofNat n) d := by decide
    have hdigit := hall c.toNat (toNat_lt_of_hexDigit? h) d
    rw [Char.ofNat_toNat] at hdigit
    exact hdigit h
  · rintro ⟨hd, rfl | rfl⟩
    · exact hexDigit?_digitChar d hd
    · exact hexDigit?_toUpper_digitChar d hd

/-- A text is made of pairs of digits that stand for bytes. -/
inductive HexOf : List Char → List UInt8 → Prop
  | nil : HexOf [] []
  | cons {high low : Char} {h l : Nat} {cs : List Char} {bytes : List UInt8}
      (hhigh : IsHexDigit high h) (hlow : IsHexDigit low l) (hcs : HexOf cs bytes) :
      HexOf (high :: low :: cs) ((16 * h + l).toUInt8 :: bytes)

/-- The bytes that are read from a text are those that its digits stand for. -/
theorem decodeHex_eq_some_iff : decodeHex cs = some bytes ↔ HexOf cs bytes := by
  constructor
  · intro h
    induction cs using decodeHex.induct generalizing bytes with
    | case1 =>
      obtain rfl : [] = bytes := Option.some.inj h
      exact .nil
    | case2 c => cases h
    | case3 high low cs ih =>
      simp only [decodeHex, Option.bind_eq_bind, Option.bind_eq_some_iff] at h
      obtain ⟨_, hhigh, _, hlow, rest, hrest, hbytes⟩ := h
      cases hbytes
      exact .cons (hexDigit?_eq_some_iff.mp hhigh) (hexDigit?_eq_some_iff.mp hlow) (ih hrest)
  · intro h
    induction h with
    | nil => rfl
    | cons hhigh hlow _ ih =>
      rw [decodeHex, hexDigit?_eq_some_iff.mpr hhigh, hexDigit?_eq_some_iff.mpr hlow, ih]
      rfl

/-- There are two digits for each byte. -/
theorem HexOf.length (h : HexOf cs bytes) : cs.length = 2 * bytes.length := by
  induction h with
  | nil => rfl
  | cons _ _ _ ih =>
    simp only [List.length_cons, ih]
    omega

/-- A character that stands for no number is not among the digits of bytes. -/
theorem HexOf.not_mem (h : HexOf cs bytes) (hc : hexDigit? c = none) : c ∉ cs :=
  fun hmem => hexDigit?_of_decodeHex (decodeHex_eq_some_iff.mpr h) c hmem hc

end Text

/-! ## Texts of identifiers -/

namespace Guid

open Text (HexOf byteLength)

variable {g : Guid} {cs : List Char}

/-- A text names an identifier: its digits, bare, or in groups of 8, 4, 4, 4 and 12 with hyphens
between them. -/
inductive IsTextOf (g : Guid) : List Char → Prop
  | bare {digits : List Char} (h : HexOf digits g.bytes) : IsTextOf g digits
  | grouped {as bs cs ds es : List Char} (ha : as.length = 8) (hb : bs.length = 4)
      (hc : cs.length = 4) (hd : ds.length = 4) (he : es.length = 12)
      (h : HexOf (as ++ bs ++ cs ++ ds ++ es) g.bytes) :
      IsTextOf g (as ++ '-' :: (bs ++ '-' :: (cs ++ '-' :: (ds ++ '-' :: es))))

/-- A character is a hyphen when it stands where groups meet, and no hyphen anywhere else. -/
def fits (place : Char × Nat) : Bool := hyphenPositions.contains place.2 == (place.1 == '-')

/-- Groups do not meet at any of some positions from one on. -/
def IsWithin (k n : Nat) : Prop := ∀ i < n, hyphenPositions.contains (k + i) = false

instance (k n : Nat) : Decidable (IsWithin k n) :=
  inferInstanceAs (Decidable (∀ i < n, hyphenPositions.contains (k + i) = false))

/-- Where no groups meet, a piece of text fits when it has no hyphen. -/
theorem all_fits_iff {piece : List Char} {k : Nat} (hk : IsWithin k piece.length) :
    (piece.zipIdx k).all fits = true ↔ '-' ∉ piece := by
  induction piece generalizing k with
  | nil => simp
  | cons c piece ih =>
    have hfirst : fits (c, k) = true ↔ '-' ≠ c := by
      have hplace : hyphenPositions.contains k = false := hk 0 (by simp)
      unfold fits
      rw [hplace, beq_iff_eq, eq_comm, beq_eq_false_iff_ne, ne_comm]
    have hrest : IsWithin (k + 1) piece.length := by
      intro i hi
      have hplace := hk (i + 1) (by simpa using hi)
      rwa [Nat.add_comm i 1, ← Nat.add_assoc] at hplace
    rw [List.zipIdx_cons, List.all_cons, Bool.and_eq_true, hfirst, ih hrest, List.mem_cons, not_or]

/-- A text fits when it has no hyphen before the place where groups meet, and a hyphen there, and
the rest of it fits. -/
theorem all_fits_append_iff {piece rest : List Char} {c : Char} {k n : Nat}
    (hlength : piece.length = n) (hk : IsWithin k n)
    (hmeet : hyphenPositions.contains (k + n) = true) :
    ((piece ++ c :: rest).zipIdx k).all fits = true ↔
      '-' ∉ piece ∧ c = '-' ∧ (rest.zipIdx (k + n + 1)).all fits = true := by
  subst hlength
  have hfirst : fits (c, k + piece.length) = true ↔ c = '-' := by
    unfold fits
    rw [hmeet, beq_iff_eq, eq_comm, beq_iff_eq]
  rw [List.zipIdx_append, List.all_append, Bool.and_eq_true, all_fits_iff hk, List.zipIdx_cons,
    List.all_cons, Bool.and_eq_true, hfirst]

/-- A text of groups is grouped when there are hyphens between the groups and none in them. -/
theorem isGrouped_append_iff {as bs cs ds es : List Char} {w x y z : Char} (ha : as.length = 8)
    (hb : bs.length = 4) (hc : cs.length = 4) (hd : ds.length = 4) (he : es.length = 12) :
    isGrouped (as ++ w :: (bs ++ x :: (cs ++ y :: (ds ++ z :: es)))) = true ↔
      (w = '-' ∧ x = '-' ∧ y = '-' ∧ z = '-') ∧ '-' ∉ as ++ bs ++ cs ++ ds ++ es := by
  have hlength : (as ++ w :: (bs ++ x :: (cs ++ y :: (ds ++ z :: es)))).length = 36 := by
    simp [ha, hb, hc, hd, he]
  have hgrouped : isGrouped (as ++ w :: (bs ++ x :: (cs ++ y :: (ds ++ z :: es)))) =
      ((as ++ w :: (bs ++ x :: (cs ++ y :: (ds ++ z :: es)))).zipIdx 0).all fits := by
    unfold isGrouped
    rw [hlength]
    rfl
  have hlast : IsWithin 24 es.length := by
    rw [he]
    decide
  rw [hgrouped, all_fits_append_iff ha (by decide) (by decide),
    all_fits_append_iff hb (by decide) (by decide), all_fits_append_iff hc (by decide) (by decide),
    all_fits_append_iff hd (by decide) (by decide), all_fits_iff hlast]
  simp only [List.mem_append, not_or]
  tauto

/-- A list of at least so many characters is a piece of so many, one more, and a rest. -/
theorem exists_piece (cs : List Char) {n m : Nat} (h : cs.length = n + (m + 1)) :
    ∃ piece c rest, cs = piece ++ c :: rest ∧ piece.length = n ∧ rest.length = m := by
  have hlt : n < cs.length := by omega
  refine ⟨cs.take n, cs[n], cs.drop (n + 1), ?_, ?_, ?_⟩
  · rw [← List.drop_eq_getElem_cons hlt, List.take_append_drop]
  · rw [List.length_take]
    omega
  · rw [List.length_drop]
    omega

/-- A grouped text is its groups with hyphens between them. -/
theorem exists_groups (h : isGrouped cs = true) :
    ∃ as bs cs' ds es : List Char,
      cs = as ++ '-' :: (bs ++ '-' :: (cs' ++ '-' :: (ds ++ '-' :: es))) ∧
      (as.length = 8 ∧ bs.length = 4 ∧ cs'.length = 4 ∧ ds.length = 4 ∧ es.length = 12) ∧
      '-' ∉ as ++ bs ++ cs' ++ ds ++ es := by
  have hlength : cs.length = 8 + (27 + 1) := by
    unfold isGrouped at h
    exact eq_of_beq (Bool.and_eq_true_iff.mp h).1
  obtain ⟨as, w, rest, rfl, ha, hrest⟩ := exists_piece cs hlength
  obtain ⟨bs, x, rest, rfl, hb, hrest⟩ := exists_piece rest (n := 4) (m := 22) hrest
  obtain ⟨cs', y, rest, rfl, hc, hrest⟩ := exists_piece rest (n := 4) (m := 17) hrest
  obtain ⟨ds, z, es, rfl, hd, he⟩ := exists_piece rest (n := 4) (m := 12) hrest
  obtain ⟨⟨rfl, rfl, rfl, rfl⟩, hnone⟩ := (isGrouped_append_iff ha hb hc hd he).mp h
  exact ⟨as, bs, cs', ds, es, rfl, ⟨ha, hb, hc, hd, he⟩, hnone⟩

/-- The digits of groups are what is left without the hyphens. -/
theorem filter_groups {as bs cs ds es : List Char} (h : '-' ∉ as ++ bs ++ cs ++ ds ++ es) :
    (as ++ '-' :: (bs ++ '-' :: (cs ++ '-' :: (ds ++ '-' :: es)))).filter (· != '-') =
      as ++ bs ++ cs ++ ds ++ es := by
  have hkeep : ∀ piece : List Char, (∀ c ∈ piece, c ∈ as ++ bs ++ cs ++ ds ++ es) →
      piece.filter (· != '-') = piece := by
    intro piece hpiece
    refine List.filter_eq_self.mpr fun c hc => bne_iff_ne.mpr ?_
    rintro rfl
    exact h (hpiece _ hc)
  have hdigits := hkeep _ fun _ hc => hc
  simpa [List.filter_append] using hdigits

/-- The identifier of bytes has just these bytes. -/
theorem ofBytes?_eq_some_iff {bytes : List UInt8} : ofBytes? bytes = some g ↔ bytes = g.bytes := by
  unfold ofBytes?
  constructor
  · intro h
    split_ifs at h with hsize
    rw [← Option.some.inj h]
  · rintro rfl
    exact dif_pos g.length_bytes

/-- The texts that are read as an identifier are those that name it. -/
theorem ofText?_eq_some_iff : ofText? cs = some g ↔ IsTextOf g cs := by
  have hhyphen : Text.hexDigit? '-' = none := rfl
  unfold ofText?
  dsimp only
  rw [Option.bind_eq_some_iff]
  constructor
  · rintro ⟨bytes, hbytes, hg⟩
    obtain rfl := ofBytes?_eq_some_iff.mp hg
    have hdigits := Text.decodeHex_eq_some_iff.mp hbytes
    split_ifs at hdigits with hgrouped
    · obtain ⟨as, bs, cs, ds, es, rfl, ⟨ha, hb, hc, hd, he⟩, hnone⟩ := exists_groups hgrouped
      rw [filter_groups hnone] at hdigits
      exact .grouped ha hb hc hd he hdigits
    · exact .bare hdigits
  · intro h
    refine ⟨g.bytes, Text.decodeHex_eq_some_iff.mpr ?_, ofBytes?_eq_some_iff.mpr rfl⟩
    cases h with
    | bare h =>
      have hgrouped : isGrouped cs = false := by
        -- Groups would have four more characters.
        unfold isGrouped
        rw [h.length, g.length_bytes]
        rfl
      rwa [hgrouped]
    | grouped ha hb hc hd he h =>
      have hnone := h.not_mem hhyphen
      rwa [(isGrouped_append_iff ha hb hc hd he).mpr ⟨⟨rfl, rfl, rfl, rfl⟩, hnone⟩, if_pos rfl,
        filter_groups hnone]

/-! ### Looking at bytes -/

/-- The characters of a text with the byte offsets at which they begin. -/
def charOffsets (offset : Nat) : List Char → List (Char × Nat)
  | [] => []
  | c :: cs => (c, offset) :: charOffsets (offset + c.utf8Size) cs

/-- The identifier that a text names, when its size and the places of its hyphens are taken in
bytes. -/
def ofUtf8? (cs : List Char) : Option Guid :=
  if byteLength cs = 36 ∧ (charOffsets 0 cs).all fits = true then
    (Text.decodeHex (cs.filter (· != '-'))).bind ofBytes?
  else if byteLength cs = 32 then (Text.decodeHex cs).bind ofBytes?
  else none

/-- In a text of ASCII, offsets are positions. -/
theorem charOffsets_eq_zipIdx (h : ∀ c ∈ cs, c.utf8Size = 1) (k : Nat) :
    charOffsets k cs = cs.zipIdx k := by
  induction cs generalizing k with
  | nil => rfl
  | cons c cs ih =>
    obtain ⟨hc, hcs⟩ := List.forall_mem_cons.mp h
    rw [charOffsets, hc, ih hcs, List.zipIdx_cons]

/-- A text with a character that is not of ASCII has no bytes, without its hyphens or with them. -/
theorem decodeHex_eq_none {c : Char} (hmem : c ∈ cs) (hc : c.utf8Size ≠ 1) :
    Text.decodeHex (cs.filter (· != '-')) = none ∧ Text.decodeHex cs = none := by
  have hnone : Text.hexDigit? c = none := by
    rw [Option.eq_none_iff_forall_ne_some]
    intro d hd
    have hlt := Text.toNat_lt_of_hexDigit? hd
    exact hc (Char.utf8Size_eq_one_iff.mpr (Nat.le_of_lt (Nat.lt_of_lt_of_le hlt (by decide))))
  have hne : c ≠ '-' := by
    rintro rfl
    exact hc rfl
  have hrefused : ∀ digits, c ∈ digits → Text.decodeHex digits = none := by
    intro digits hdigits
    rw [Option.eq_none_iff_forall_ne_some]
    intro bytes hbytes
    exact (Text.decodeHex_eq_some_iff.mp hbytes).not_mem hnone hdigits
  exact ⟨hrefused _ (List.mem_filter.mpr ⟨hmem, bne_iff_ne.mpr hne⟩), hrefused cs hmem⟩

/-- It does not matter whether hyphens are looked for by characters or by bytes. -/
theorem ofUtf8?_eq (cs : List Char) : ofUtf8? cs = ofText? cs := by
  by_cases hascii : ∀ c ∈ cs, c.utf8Size = 1
  · have hgrouped : (byteLength cs = 36 ∧ (charOffsets 0 cs).all fits = true) ↔
        isGrouped cs = true := by
      rw [Text.byteLength_eq_length_iff.mpr hascii, charOffsets_eq_zipIdx hascii]
      unfold isGrouped
      rw [Bool.and_eq_true, beq_iff_eq]
      rfl
    unfold ofUtf8? ofText?
    rw [if_congr hgrouped rfl rfl]
    dsimp only
    split_ifs with hchars hsize
    · rfl
    · rfl
    · -- Bare digits of an identifier are 32.
      symm
      rw [Option.eq_none_iff_forall_ne_some]
      intro g hg
      obtain ⟨bytes, hdigits, hbytes⟩ := Option.bind_eq_some_iff.mp hg
      have hlength := (Text.decodeHex_eq_some_iff.mp hdigits).length
      rw [ofBytes?_eq_some_iff.mp hbytes, g.length_bytes] at hlength
      exact hsize ((Text.byteLength_eq_length_iff.mpr hascii).trans hlength)
  · push Not at hascii
    obtain ⟨c, hmem, hc⟩ := hascii
    obtain ⟨hwithout, hwith⟩ := decodeHex_eq_none hmem hc
    unfold ofUtf8? ofText?
    dsimp only
    split_ifs <;> simp [hwithout, hwith]

/-! ### The text of an identifier -/

/-- The text that an identifier is shown as names it. -/
theorem isTextOf_text (g : Guid) : IsTextOf g g.text := by
  have hdigits := Text.decodeHex_eq_some_iff.mp (Text.decodeHex_lowerHex g.bytes)
  have hlength : (Text.lowerHex g.bytes).length = 32 := by
    rw [hdigits.length, g.length_bytes]
  -- The groups are the digits, cut at 8, 12, 16 and 20.
  have hcut : ∀ n m, (Text.lowerHex g.bytes).take n ++
      ((Text.lowerHex g.bytes).drop n).take m = (Text.lowerHex g.bytes).take (n + m) :=
    fun n m => List.take_add.symm
  refine .grouped ?_ ?_ ?_ ?_ ?_ (by rwa [hcut, hcut, hcut, List.take_append_drop]) <;>
    simp [hlength]

/-- A text that names an identifier is made of digits and hyphens. -/
theorem IsTextOf.not_mem {c : Char} (h : IsTextOf g cs) (hc : Text.hexDigit? c = none)
    (hne : c ≠ '-') : c ∉ cs := by
  cases h with
  | bare h => exact h.not_mem hc
  | grouped _ _ _ _ _ h =>
    have hdigits := h.not_mem hc
    simp only [List.mem_append, not_or] at hdigits
    simp only [List.mem_append, List.mem_cons, not_or]
    tauto

end Guid

/-! ## Literals of filters -/

/-- An expression is a constant that is bound as a value: the next parameter has that value. -/
def Expr.BindsTo (e : Expr) (v : Value) : Prop :=
  ∃ value declared, e = .constant value declared ∧
    ∀ (c : Config) (b : Binding),
      Binding.bind c value declared b = .ok (.parameter (b.nextName c)) (b.push c v) ∧
      (b.push c v).parameters.get? (b.nextName c) = some v

namespace Value

/-- A constant is bound as its value in the form of its type. -/
theorem bindsTo_constant {value v : Value} {declared : EdmType}
    (h : value.normalize declared = .ok v) : (Expr.constant value declared).BindsTo v :=
  ⟨value, declared, rfl, fun c b =>
    ⟨Binding.bind_ok.mpr ⟨v, h, rfl, rfl⟩, Binding.get?_push c b v⟩⟩

/-- A text is an identifier when it names it. -/
theorem ofText_guid {text : String} {g : Guid} :
    ofText text .guid = some (.guid g) ↔ g.IsTextOf text.toList := by
  rw [← Guid.ofText?_eq_some_iff]
  show (Guid.ofText? text.toList).map guid = some (guid g) ↔ _
  rw [Option.map_eq_some_iff]
  constructor
  · rintro ⟨g', hg', heq⟩
    rwa [← guid.inj heq]
  · intro h
    exact ⟨g, h, rfl⟩

/-- A text is no identifier when it names none. -/
theorem ofText_guid_eq_none {text : String} :
    ofText text .guid = none ↔ ¬∃ g : Guid, g.IsTextOf text.toList := by
  show (Guid.ofText? text.toList).map guid = none ↔ _
  rw [Option.map_eq_none_iff, Option.eq_none_iff_forall_ne_some, not_exists]
  exact forall_congr' fun g => not_congr Guid.ofText?_eq_some_iff

end Value

namespace Expr

variable {m : Metadata} {root : String}

/-- A quoted literal with a word before it is read as what its text stands for, if the entity type
is known. -/
theorem ofFilter_quoted {kind : LiteralKind} {word body source : String} {v : Value}
    (hword : LiteralKind.ofWord? word = some kind) (hbody : Lexeme.quote ∉ body.toList)
    (hsource : source = word ++ "'" ++ body ++ "'")
    (hvalue : Value.ofText body kind.edmType = some v) :
    (∃ e, ofFilter m root source = .ok e ∧ e.BindsTo v) ↔ m.hasEntity root = true := by
  have hreads : Reads (Lexeme.all source) [(Literal.quoted kind body).token] [] := by
    rw [hsource]
    exact Lexeme.reads_spelling (.quoted hword hbody) 0
  have hread : ofFilter m root source = .ok (.constant (.string body) kind.edmType) ↔
      m.hasEntity root = true :=
    ofFilter_literal hreads fun _ => rfl
  constructor
  · rintro ⟨e, he, -⟩
    exact (ofFilter_eq_ok_iff.mp he).1
  · intro hknown
    exact ⟨_, hread.mpr hknown, Value.bindsTo_constant (Value.normalize_string.mpr hvalue)⟩

/-- Texts of the type of identifiers are the identifiers that they name, and others are invalid
literals. What identifiers and bytes are shown as, identifiers with their word and in quotes, are
filters where the entity type is known, and bound to the next parameter they are again what was
shown. -/
theorem identifiers_and_bytes_decode :
    (∀ (text : String) (g : Guid),
      Value.normalize (.string text) .guid = .ok (.guid g) ↔ g.IsTextOf text.toList) ∧
    (∀ text : String,
      Value.normalize (.string text) .guid = .error (.invalidLiteral .guid text) ↔
        ¬∃ g : Guid, g.IsTextOf text.toList) ∧
    (∀ (m : Metadata) (root : String) (g : Guid),
      (∃ e, ofFilter m root ("guid'" ++ (Value.guid g).text ++ "'") = .ok e ∧
        e.BindsTo (.guid g)) ↔ m.hasEntity root = true) ∧
    ∀ (m : Metadata) (root : String) (bytes : List UInt8),
      (∃ e, ofFilter m root (Value.bytes bytes).text = .ok e ∧ e.BindsTo (.bytes bytes)) ↔
        m.hasEntity root = true := by
  have hquote : Text.hexDigit? Lexeme.quote = none := rfl
  refine ⟨fun _ _ => Value.normalize_string.trans Value.ofText_guid,
    fun _ => Value.normalize_string_error.trans Value.ofText_guid_eq_none, ?_, ?_⟩
  · intro m root g
    have htext := g.isTextOf_text
    have hbody : Lexeme.quote ∉ (Value.guid g).text.toList := by
      rw [Value.text, String.toList_ofList]
      exact htext.not_mem hquote (by decide)
    have hword : LiteralKind.ofWord? "guid" = some .guid := rfl
    refine ofFilter_quoted hword hbody rfl ?_
    rwa [LiteralKind.edmType, Value.ofText_guid, Value.text, String.toList_ofList]
  · intro m root bytes
    have hdigits := Text.decodeHex_upperHex bytes
    have hbody : Lexeme.quote ∉ (String.ofList (Text.upperHex bytes)).toList := by
      rw [String.toList_ofList]
      exact (Text.decodeHex_eq_some_iff.mp hdigits).not_mem hquote
    have hword : LiteralKind.ofWord? "X" = some .binary := rfl
    refine ofFilter_quoted hword hbody rfl ?_
    show (Text.decodeHex (String.ofList (Text.upperHex bytes)).toList).map Value.bytes = _
    rw [String.toList_ofList, hdigits]
    rfl

end Expr

end EntityQuery
