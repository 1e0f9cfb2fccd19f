import TableScribe.Metadata.Json
import TableScribe.Settings.Scalar

/-!
# The grammar of JSON documents

What a text has to look like to be a JSON document, for the values that `Json` has:

1. `SpellsChar`, `SpellsText`: a character of a string stands for itself or is escaped, in any of
   the ways there are, and no control character stands for itself.
2. `Spells`: a text spells a value. Blanks may stand around every part; the items of a list and the
   members of an object have commas in between.

`isDocument_pretty` says that the layout with two blanks to a level is such a document.
-/

namespace TableScribe.Json

/-! ## Strings -/

/-- The character that a backslash and a mark stand for. -/
def shortEscape? : Char → Option Char
  | '"' => some '"'
  | '\\' => some '\\'
  | '/' => some '/'
  | 'b' => some '\x08'
  | 'f' => some '\x0c'
  | 'n' => some '\n'
  | 'r' => some '\r'
  | 't' => some '\t'
  | _ => none

/-- Four hexadecimal digits of that value. -/
inductive Digits : List Char → Nat → Prop
  | mk {a b c d : Char} {i j k l : Nat} (ha : Scalar.hexDigit? a = some i)
      (hb : Scalar.hexDigit? b = some j) (hc : Scalar.hexDigit? c = some k)
      (hd : Scalar.hexDigit? d = some l) :
      Digits [a, b, c, d] (((i * 16 + j) * 16 + k) * 16 + l)

/-- The first half of an escaped character beyond the first 65536. -/
def IsHighHalf (unit : Nat) : Prop :=
  0xD800 ≤ unit ∧ unit < 0xDC00

/-- The second half of an escaped character beyond the first 65536. -/
def IsLowHalf (unit : Nat) : Prop :=
  0xDC00 ≤ unit ∧ unit < 0xE000

instance (unit : Nat) : Decidable (IsHighHalf unit) :=
  inferInstanceAs (Decidable (_ ∧ _))

instance (unit : Nat) : Decidable (IsLowHalf unit) :=
  inferInstanceAs (Decidable (_ ∧ _))

/-- The code point of two halves. -/
def joinHalves (high low : Nat) : Nat :=
  0x10000 + (high - 0xD800) * 0x400 + (low - 0xDC00)

/-- The text stands for the character inside a string. -/
inductive SpellsChar : Char → List Char → Prop
  | plain {c : Char} (hc : 32 ≤ c.toNat) (hq : c ≠ '"') (hb : c ≠ '\\') : SpellsChar c [c]
  | short {c mark : Char} (h : shortEscape? mark = some c) : SpellsChar c ['\\', mark]
  | point {c : Char} {digits : List Char} (h : Digits digits c.toNat) :
      SpellsChar c ('\\' :: 'u' :: digits)
  | halves {c : Char} {first second : List Char} {high low : Nat} (h1 : Digits first high)
      (h2 : Digits second low) (hh : IsHighHalf high) (hl : IsLowHalf low)
      (hc : c.toNat = joinHalves high low) :
      SpellsChar c ('\\' :: 'u' :: (first ++ '\\' :: 'u' :: second))

/-- The text between two quotes stands for the characters. -/
inductive SpellsText : List Char → List Char → Prop
  | nil : SpellsText [] []
  | cons {c : Char} {value text rest : List Char} (h : SpellsChar c text)
      (hr : SpellsText value rest) : SpellsText (c :: value) (text ++ rest)

/-! ## Values -/

/-- A character that may stand between the parts of a document. -/
def isBlank (c : Char) : Bool :=
  c = ' ' || c = '\t' || c = '\n' || c = '\r'

def Blanks (text : List Char) : Prop :=
  ∀ c ∈ text, isBlank c = true

/-- The text spells the key of a member, up to its value. -/
inductive SpellsKey : String → List Char → Prop
  | mk {key : String} {before body between after : List Char} (hb : Blanks before)
      (h : SpellsText key.toList body) (hm : Blanks between) (ha : Blanks after) :
      SpellsKey key (before ++ '"' :: (body ++ '"' :: (between ++ ':' :: after)))

mutual

/-- The text spells the value. -/
inductive Spells : Json → List Char → Prop
  | true : Spells (.boolean true) ['t', 'r', 'u', 'e']
  | false : Spells (.boolean false) ['f', 'a', 'l', 's', 'e']
  | text {value : String} {body : List Char} (h : SpellsText value.toList body) :
      Spells (.text value) ('"' :: (body ++ ['"']))
  | emptyArray {blanks : List Char} (hb : Blanks blanks) :
      Spells (.array []) ('[' :: (blanks ++ [']']))
  | array {items : List Json} {body : List Char} (h : SpellsItems items body) :
      Spells (.array items) ('[' :: (body ++ [']']))
  | emptyObject {blanks : List Char} (hb : Blanks blanks) :
      Spells (.object []) ('\x7b' :: (blanks ++ ['\x7d']))
  | object {members : List (String × Json)} {body : List Char} (h : SpellsMembers members body) :
      Spells (.object members) ('\x7b' :: (body ++ ['\x7d']))

/-- The text spells the items of a list, of which there are some. -/
inductive SpellsItems : List Json → List Char → Prop
  | last {item : Json} {before text after : List Char} (hb : Blanks before) (h : Spells item text)
      (ha : Blanks after) : SpellsItems [item] (before ++ (text ++ after))
  | cons {item : Json} {items : List Json} {before text after rest : List Char}
      (hb : Blanks before) (h : Spells item text) (ha : Blanks after)
      (hr : SpellsItems items rest) :
      SpellsItems (item :: items) (before ++ (text ++ (after ++ ',' :: rest)))

/-- The text spells the members of an object, of which there are some. -/
inductive SpellsMembers : List (String × Json) → List Char → Prop
  | last {key : String} {value : Json} {name text after : List Char} (hk : SpellsKey key name)
      (h : Spells value text) (ha : Blanks after) :
      SpellsMembers [(key, value)] (name ++ (text ++ after))
  | cons {key : String} {value : Json} {members : List (String × Json)}
      {name text after rest : List Char} (hk : SpellsKey key name) (h : Spells value text)
      (ha : Blanks after) (hr : SpellsMembers members rest) :
      SpellsMembers ((key, value) :: members) (name ++ (text ++ (after ++ ',' :: rest)))

end

/-- The text is a document of that value: one value and nothing else but blanks. -/
def IsDocument (value : Json) (text : List Char) : Prop :=
  ∃ before body after, text = before ++ (body ++ after) ∧ Blanks before ∧ Spells value body ∧
    Blanks after

/-! ## The layout -/

theorem hexDigit?_digitChar {n : Nat} (h : n < 16) :
    Scalar.hexDigit? (Nat.digitChar n) = some n := by
  have hall : ∀ n < 16, Scalar.hexDigit? (Nat.digitChar n) = some n := by decide
  exact hall n h

theorem spellsChar_control {c : Char} (h : c.toNat < 32) : SpellsChar c (controlEscape c) := by
  have hdigits : Digits ['0', '0', Nat.digitChar (c.toNat / 16), Nat.digitChar (c.toNat % 16)]
      (((0 * 16 + 0) * 16 + c.toNat / 16) * 16 + c.toNat % 16) :=
    .mk rfl rfl (hexDigit?_digitChar (by omega)) (hexDigit?_digitChar (by omega))
  have hpoint : ((0 * 16 + 0) * 16 + c.toNat / 16) * 16 + c.toNat % 16 = c.toNat := by omega
  rw [hpoint] at hdigits
  exact .point hdigits

theorem spellsChar_escaped (c : Char) : SpellsChar c (escaped c) := by
  unfold escaped
  split
  case h_8 c hquote hbackslash _ _ _ _ _ =>
    split
    · exact spellsChar_control ‹_›
    · exact .plain (Nat.le_of_not_lt ‹_›) hquote hbackslash
  all_goals exact .short rfl

theorem spellsText_escaped (value : List Char) : SpellsText value (value.flatMap escaped) := by
  induction value with
  | nil => exact .nil
  | cons c rest ih => exact .cons (spellsChar_escaped c) ih

theorem toList_quote (value : String) :
    (quote value).toList = '"' :: (value.toList.flatMap escaped ++ ['"']) := by
  simp [quote]

theorem blanks_nil : Blanks [] := by
  simp [Blanks]

theorem blanks_lineBreak (level : Nat) : Blanks (lineBreak level).toList := by
  intro c hc
  simp only [lineBreak, String.toList_ofList, List.mem_cons, List.mem_replicate] at hc
  rcases hc with rfl | ⟨-, rfl⟩
  · rfl
  · rfl

theorem bracketed_nil (opening closing : String) (level : Nat) :
    (bracketed opening closing level []).toList = opening.toList ++ closing.toList := by
  unfold bracketed
  rw [if_pos rfl, String.toList_append]

theorem bracketed_cons (opening closing : String) (level : Nat) (first : String)
    (rest : List String) :
    (bracketed opening closing level (first :: rest)).toList =
      opening.toList ++ ((lineBreak (level + 1)).toList ++
        ((Text.join ("," ++ lineBreak (level + 1)) (first :: rest)).toList ++
          (lineBreak level).toList) ++ closing.toList) := by
  unfold bracketed
  rw [if_neg (List.cons_ne_nil first rest)]
  simp only [String.toList_append, List.append_assoc]

theorem spellsKey_quote {before : List Char} (hb : Blanks before) (key : String) :
    SpellsKey key (before ++ (quote key ++ ": ").toList) := by
  have hlist : (quote key ++ ": ").toList =
      '"' :: (key.toList.flatMap escaped ++ '"' :: ([] ++ ':' :: [' '])) := by
    rw [String.toList_append, toList_quote]
    simp
  rw [hlist]
  exact .mk hb (spellsText_escaped key.toList) blanks_nil (by simp [Blanks, isBlank])

/-- Texts on lines of their own are joined one to another like items. -/
theorem toList_join_cons (level : Nat) (text next : String) (more : List String) :
    (Text.join ("," ++ lineBreak level) (text :: next :: more)).toList =
      text.toList ++ ([] ++ ',' :: ((lineBreak level).toList ++
        (Text.join ("," ++ lineBreak level) (next :: more)).toList)) := by
  rw [Text.join_cons_cons]
  simp only [String.toList_append, List.append_assoc, List.nil_append]
  rfl

mutual

/-- The text of a value is a spelling of it, at every level. -/
theorem spells_prettyAt (level : Nat) : (value : Json) →
    Spells value (prettyAt level value).toList
  | .boolean true => by
    rw [prettyAt]
    exact .true
  | .boolean false => by
    rw [prettyAt]
    exact .false
  | .text value => by
    rw [prettyAt, toList_quote]
    exact .text (spellsText_escaped value.toList)
  | .array [] => by
    rw [prettyAt, prettyItems, bracketed_nil]
    exact .emptyArray blanks_nil
  | .array (item :: items) => by
    have h := spellsItems_prettyItems (level + 1) (item :: items) (List.cons_ne_nil _ _)
      (blanks_lineBreak (level + 1)) (blanks_lineBreak level)
    rw [prettyAt]
    rw [prettyItems] at h ⊢
    rw [bracketed_cons]
    exact .array h
  | .object [] => by
    rw [prettyAt, prettyMembers, bracketed_nil]
    exact .emptyObject blanks_nil
  | .object ((key, value) :: members) => by
    have h := spellsMembers_prettyMembers (level + 1) ((key, value) :: members)
      (List.cons_ne_nil _ _) (blanks_lineBreak (level + 1)) (blanks_lineBreak level)
    rw [prettyAt]
    rw [prettyMembers] at h ⊢
    rw [bracketed_cons]
    exact .object h

/-- The texts of items, joined by commas and line breaks, are a spelling of them. -/
theorem spellsItems_prettyItems (level : Nat) : (items : List Json) → items ≠ [] →
    {before after : List Char} → Blanks before → Blanks after →
    SpellsItems items (before ++
      ((Text.join ("," ++ lineBreak level) (prettyItems level items)).toList ++ after))
  | [], hne, _, _, _, _ => absurd rfl hne
  | [item], _, _, _, hb, ha => by
    rw [prettyItems, prettyItems, Text.join_singleton]
    exact .last hb (spells_prettyAt level item) ha
  | item :: next :: items, _, _, _, hb, ha => by
    have h := spellsItems_prettyItems level (next :: items) (List.cons_ne_nil _ _)
      (blanks_lineBreak level) ha
    rw [prettyItems]
    rw [prettyItems] at h ⊢
    rw [toList_join_cons]
    simp only [List.append_assoc, List.cons_append]
    exact .cons hb (spells_prettyAt level item) blanks_nil h

/-- The texts of members, joined by commas and line breaks, are a spelling of them. -/
theorem spellsMembers_prettyMembers (level : Nat) : (members : List (String × Json)) →
    members ≠ [] → {before after : List Char} → Blanks before → Blanks after →
    SpellsMembers members (before ++
      ((Text.join ("," ++ lineBreak level) (prettyMembers level members)).toList ++ after))
  | [], hne, _, _, _, _ => absurd rfl hne
  | [(key, value)], _, before, after, hb, ha => by
    have h := SpellsMembers.last (spellsKey_quote hb key) (spells_prettyAt level value) ha
    rw [prettyMembers, prettyMembers, Text.join_singleton, String.toList_append]
    simpa only [List.append_assoc] using h
  | (key, value) :: next :: members, _, before, after, hb, ha => by
    have hr := spellsMembers_prettyMembers level (next :: members) (List.cons_ne_nil _ _)
      (blanks_lineBreak level) ha
    rw [prettyMembers]
    cases next
    rw [prettyMembers] at hr ⊢
    have hvalue := spells_prettyAt level value
    have h := SpellsMembers.cons (spellsKey_quote hb key) hvalue blanks_nil hr
    rw [toList_join_cons, String.toList_append]
    simpa only [List.append_assoc, List.cons_append] using h

end

theorem isDocument_pretty (value : Json) : IsDocument value value.pretty.toList :=
  ⟨[], _, [], by simp [pretty], blanks_nil, spells_prettyAt 0 value, blanks_nil⟩

end TableScribe.Json
