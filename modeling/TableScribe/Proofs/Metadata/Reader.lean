import TableScribe.Proofs.Metadata.Grammar

/-!
# A reader of JSON documents

`read` takes a document one character at a time. In between, a `Reader` holds the lists and objects
that are open, the innermost first, and what may come next; inside a string, a `TextScan` holds the
characters so far and how much of an escape has been seen.

`read_of_isDocument` says that the reader finds the value of every document. Each part of the
grammar takes it from one state to another, whatever is open around the part, and a value ends where
`Reader.put` continues.
-/

namespace TableScribe.Json

/-! ## Inside a string -/

/-- How much of an escape has been seen. -/
inductive Escape
  | none
  /-- The backslash. -/
  | mark
  /-- The backslash, the mark `u` and some digits of that value. -/
  | digits (count value : Nat)
  deriving DecidableEq, Repr

/-- How far the reading of a string has come. -/
structure TextScan where
  read : List Char := []
  /-- The first half of a character whose second half has to follow. -/
  high : Option Nat := none
  escape : Escape := .none
  deriving DecidableEq, Repr

/-- What one more character does to a string. -/
inductive TextScan.Step
  | more (scan : TextScan)
  | closed (value : List Char)
  | refused
  deriving DecidableEq, Repr

namespace TextScan

/-- Takes four digits of that value. -/
def point (scan : TextScan) (value : Nat) : Step :=
  match scan.high with
  | some high =>
    if IsLowHalf value then .more { read := scan.read ++ [Char.ofNat (joinHalves high value)] }
    else .refused
  | none =>
    if IsHighHalf value then .more { read := scan.read, high := some value }
    else if value.isValidChar then .more { read := scan.read ++ [Char.ofNat value] }
    else .refused

/-- Takes one more character of a string. -/
def step (scan : TextScan) (c : Char) : Step :=
  match scan.escape with
  | .none =>
    if c = '\\' then .more { scan with escape := .mark }
    else if scan.high.isSome then .refused
    else if c = '"' then .closed scan.read
    else if c.toNat < 32 then .refused
    else .more { scan with read := scan.read ++ [c] }
  | .mark =>
    if c = 'u' then .more { scan with escape := .digits 0 0 }
    else
      match scan.high, shortEscape? c with
      | none, some meant => .more { read := scan.read ++ [meant] }
      | _, _ => .refused
  | .digits count value =>
    match Scalar.hexDigit? c with
    | none => .refused
    | some digit =>
      if count = 3 then scan.point (value * 16 + digit)
      else .more { scan with escape := .digits (count + 1) (value * 16 + digit) }

/-- The characters take the scan to another one. -/
inductive Runs : TextScan → List Char → TextScan → Prop
  | nil {scan : TextScan} : Runs scan [] scan
  | cons {scan next last : TextScan} {c : Char} {text : List Char} (h : scan.step c = .more next)
      (ht : Runs next text last) : Runs scan (c :: text) last

theorem Runs.append {scan middle last : TextScan} {first second : List Char}
    (h1 : Runs scan first middle) (h2 : Runs middle second last) :
    Runs scan (first ++ second) last := by
  induction h1 with
  | nil => exact h2
  | cons h _ ih => exact .cons h (ih h2)

theorem Runs.single {scan next : TextScan} {c : Char} (h : scan.step c = .more next) :
    Runs scan [c] next :=
  .cons h .nil

section Characters

variable (read : List Char) (high : Option Nat)

theorem step_digit {c : Char} {digit : Nat} {count : Nat} (h : Scalar.hexDigit? c = some digit)
    (hc : count < 3) (value : Nat) :
    ({ read, high, escape := .digits count value } : TextScan).step c =
      .more { read, high, escape := .digits (count + 1) (value * 16 + digit) } := by
  unfold step
  dsimp only
  rw [h]
  exact if_neg (by omega)

/-- The last of four digits completes a code point. -/
theorem step_lastDigit {c : Char} {digit : Nat} (h : Scalar.hexDigit? c = some digit)
    (value : Nat) :
    ({ read, high, escape := .digits 3 value } : TextScan).step c =
      ({ read, high } : TextScan).point (value * 16 + digit) := by
  unfold step
  dsimp only
  rw [h]
  rfl

theorem runs_digits {digits : List Char} {value : Nat} {last : TextScan} (h : Digits digits value)
    (hp : ({ read, high } : TextScan).point value = .more last) :
    Runs { read, high } ('\\' :: 'u' :: digits) last := by
  obtain @⟨a, b, c, d, i, j, k, l, ha, hb, hc, hd⟩ := h
  have hmark : ({ read, high } : TextScan).step '\\' =
      .more { read, high, escape := .mark } := rfl
  have hu : ({ read, high, escape := .mark } : TextScan).step 'u' =
      .more { read, high, escape := .digits 0 0 } := rfl
  have h1 : ({ read, high, escape := .digits 0 0 } : TextScan).step a = _ :=
    step_digit read high ha (by decide) 0
  rw [Nat.zero_mul, Nat.zero_add, Nat.zero_add] at h1
  refine .cons hmark (.cons hu (.cons h1 (.cons (step_digit read high hb (by decide) i)
    (.cons (step_digit read high hc (by decide) (i * 16 + j)) (.single ?_)))))
  rw [step_lastDigit read high hd, hp]

theorem point_plain (c : Char) :
    ({ read } : TextScan).point c.toNat = .more { read := read ++ [c] } := by
  have hvalid : c.toNat.isValidChar := c.valid
  have hhigh : ¬ IsHighHalf c.toNat := by
    unfold IsHighHalf
    unfold Nat.isValidChar at hvalid
    omega
  unfold point
  dsimp only
  rw [if_neg hhigh, if_pos hvalid, Char.ofNat_toNat]

theorem point_high {unit : Nat} (h : IsHighHalf unit) :
    ({ read } : TextScan).point unit = .more { read, high := some unit } := by
  unfold point
  dsimp only
  rw [if_pos h]

theorem point_low (first : Nat) {unit : Nat} (h : IsLowHalf unit) :
    ({ read, high := some first } : TextScan).point unit =
      .more { read := read ++ [Char.ofNat (joinHalves first unit)] } := by
  unfold point
  dsimp only
  rw [if_pos h]

/-- Whatever stands for a character adds it to those before. -/
theorem runs_of_spellsChar {c : Char} {text : List Char} (h : SpellsChar c text) :
    Runs { read } text { read := read ++ [c] } := by
  cases h with
  | plain hc hq hb =>
    refine .single ?_
    unfold step
    dsimp only
    rw [if_neg hb, if_neg (by simp), if_neg hq, if_neg (Nat.not_lt.2 hc)]
  | @short mark h =>
    have hmark : ({ read } : TextScan).step '\\' = .more { read, escape := .mark } := rfl
    refine .cons hmark (.single ?_)
    have hu : mark ≠ 'u' := by
      rintro rfl
      simp [shortEscape?] at h
    unfold step
    dsimp only
    rw [if_neg hu, h]
  | point h => exact runs_digits read none h (point_plain read c)
  | @halves first second high low h1 h2 hh hl hc =>
    have hjoin : Char.ofNat (joinHalves high low) = c := by
      rw [← hc, Char.ofNat_toNat]
    have hlow := point_low read high hl
    rw [hjoin] at hlow
    exact (runs_digits read none h1 (point_high read hh)).append
      (runs_digits read (some high) h2 hlow)

theorem runs_of_spellsText {value text : List Char} (h : SpellsText value text) :
    Runs { read } text { read := read ++ value } := by
  induction h generalizing read with
  | nil =>
    rw [List.append_nil]
    exact .nil
  | @cons c value text rest h _ ih =>
    have hrest := ih (read ++ [c])
    rw [List.append_assoc] at hrest
    exact (runs_of_spellsChar read h).append hrest

end Characters

end TextScan

/-! ## Around the strings -/

/-- A list or an object that is open. -/
inductive Frame
  | array (items : List Json)
  | object (members : List (String × Json))
  /-- An object in which a key has no value yet. -/
  | member (members : List (String × Json)) (key : String)

/-- What may come next. -/
inductive Awaited
  | value
  /-- The first item of a list, or its end. -/
  | item
  | key
  /-- The first key of an object, or its end. -/
  | member
  | colon
  /-- A comma, or the end of the innermost list or object. -/
  | separator
  /-- The rest of a string, which is a key or a value. -/
  | text (asKey : Bool) (scan : TextScan)
  /-- The rest of a word that stands for the value. -/
  | word (rest : List Char) (value : Json)
  /-- Nothing: the document is complete. -/
  | nothing (document : Json)

/-- Blanks may come next. -/
def Awaited.isBetween : Awaited → Bool
  | .text _ _ => false
  | .word _ _ => false
  | _ => true

/-- A value may begin next. -/
def Awaited.opensValue : Awaited → Bool
  | .value => true
  | .item => true
  | _ => false

/-- A key may begin next. -/
def Awaited.opensKey : Awaited → Bool
  | .key => true
  | .member => true
  | _ => false

/-- How far the reading of a document has come. -/
structure Reader where
  opened : List Frame := []
  awaited : Awaited := .value

namespace Reader

/-- The reader after a value, which belongs to the innermost list or object. -/
def put (opened : List Frame) (value : Json) : Option Reader :=
  match opened with
  | [] => some ⟨[], .nothing value⟩
  | .array items :: outer => some ⟨.array (items ++ [value]) :: outer, .separator⟩
  | .member members key :: outer => some ⟨.object (members ++ [(key, value)]) :: outer, .separator⟩
  | .object _ :: _ => none

/-- The reader after a key. -/
def putKey (opened : List Frame) (key : String) : Option Reader :=
  match opened with
  | .object members :: outer => some ⟨.member members key :: outer, .colon⟩
  | _ => none

/-- Takes the first character of a value. -/
def begin (opened : List Frame) (c : Char) : Option Reader :=
  match c with
  | '"' => some ⟨opened, .text false {}⟩
  | '[' => some ⟨.array [] :: opened, .item⟩
  | '\x7b' => some ⟨.object [] :: opened, .member⟩
  | 't' => some ⟨opened, .word ['r', 'u', 'e'] (.boolean true)⟩
  | 'f' => some ⟨opened, .word ['a', 'l', 's', 'e'] (.boolean false)⟩
  | _ => none

/-- Takes the character that ends the innermost list or object. -/
def close (opened : List Frame) (c : Char) : Option Reader :=
  match opened with
  | .array items :: outer => if c = ']' then put outer (.array items) else none
  | .object members :: outer => if c = '\x7d' then put outer (.object members) else none
  | _ => none

/-- The reader after a comma. -/
def proceed (opened : List Frame) : Option Reader :=
  match opened with
  | .array _ :: _ => some ⟨opened, .value⟩
  | .object _ :: _ => some ⟨opened, .key⟩
  | _ => none

/-- Takes one more character of a document. -/
def step (reader : Reader) (c : Char) : Option Reader :=
  match reader.awaited with
  | .text asKey scan =>
    match scan.step c with
    | .more scan => some { reader with awaited := .text asKey scan }
    | .closed value =>
      if asKey then putKey reader.opened (String.ofList value)
      else put reader.opened (.text (String.ofList value))
    | .refused => none
  | .word [] _ => none
  | .word [last] value => if c = last then put reader.opened value else none
  | .word (next :: rest) value =>
    if c = next then some { reader with awaited := .word rest value } else none
  | awaited =>
    if isBlank c then some reader
    else
      match awaited with
      | .value => begin reader.opened c
      | .item => if c = ']' then close reader.opened c else begin reader.opened c
      | .key => if c = '"' then some { reader with awaited := .text true {} } else none
      | .member =>
        if c = '"' then some { reader with awaited := .text true {} }
        else close reader.opened c
      | .colon => if c = ':' then some { reader with awaited := .value } else none
      | .separator => if c = ',' then proceed reader.opened else close reader.opened c
      | _ => none

def run (reader : Reader) (text : List Char) : Option Reader :=
  text.foldlM step reader

end Reader

def read (document : String) : Option Json :=
  match Reader.run {} document.toList with
  | some ⟨[], .nothing value⟩ => some value
  | _ => none

example : read " [\t\x7b\"k\" : \"\\ud83d\\ude00\\/\"\x7d ]" =
    some (.array [.object [("k", .text "😀/")]]) := by
  rfl

/-! ## Documents -/

namespace Reader

variable {reader middle : Reader} {opened : List Frame}

theorem run_cons {c : Char} {text : List Char} (h : reader.step c = some middle) :
    reader.run (c :: text) = middle.run text := by
  unfold run
  rw [List.foldlM_cons, h]
  rfl

theorem run_single (c : Char) : reader.run [c] = reader.step c := by
  unfold run
  rw [List.foldlM_cons]
  cases reader.step c <;> rfl

theorem run_append {first second : List Char} (h : reader.run first = some middle) :
    reader.run (first ++ second) = middle.run second := by
  unfold run at h ⊢
  rw [List.foldlM_append, h]
  rfl

theorem run_blanks {blanks : List Char} (ha : reader.awaited.isBetween = true)
    (hb : Blanks blanks) : reader.run blanks = some reader := by
  induction blanks with
  | nil => rfl
  | cons c rest ih =>
    have hstep : reader.step c = some reader := by
      have hc : isBlank c = true := hb c List.mem_cons_self
      unfold step
      split
      case h_5 => exact if_pos hc
      all_goals
        rename_i heq
        rw [heq] at ha
        exact absurd ha (by simp [Awaited.isBetween])
    rw [run_cons hstep]
    exact ih fun d hd => hb d (List.mem_cons_of_mem c hd)

theorem run_of_runs {scan last : TextScan} {text : List Char} (asKey : Bool)
    (h : scan.Runs text last) :
    run ⟨opened, .text asKey scan⟩ text = some ⟨opened, .text asKey last⟩ := by
  induction h with
  | nil => rfl
  | @cons scan next last c text h _ ih =>
    have hstep : step ⟨opened, .text asKey scan⟩ c = some ⟨opened, .text asKey next⟩ := by
      unfold step
      dsimp only
      rw [h]
    rw [run_cons hstep, ih]

/-- What stands between quotes is a text, and the closing quote hands it on. -/
theorem run_text {asKey : Bool} {value : String} {body : List Char}
    (h : SpellsText value.toList body) :
    run ⟨opened, .text asKey {}⟩ (body ++ ['"']) =
      if asKey then putKey opened value else put opened (.text value) := by
  have hruns : run ⟨opened, .text asKey {}⟩ body =
      some ⟨opened, .text asKey { read := [] ++ value.toList }⟩ :=
    run_of_runs asKey (TextScan.runs_of_spellsText [] h)
  rw [run_append hruns, run_single, List.nil_append]
  unfold step
  show (if asKey = true then putKey opened (String.ofList value.toList)
    else put opened (.text (String.ofList value.toList))) = _
  rw [String.ofList_toList]

/-- Where a value may begin, its first character begins it. -/
theorem step_begin {awaited : Awaited} {c : Char} (ha : awaited.opensValue = true)
    (hc : isBlank c = false) (he : c ≠ ']') :
    step ⟨opened, awaited⟩ c = begin opened c := by
  cases awaited with
  | value =>
    unfold step
    dsimp only
    rw [hc, if_neg (by simp)]
  | item =>
    unfold step
    dsimp only
    rw [hc, if_neg (by simp), if_neg he]
  | _ => exact absurd ha (by simp [Awaited.opensValue])

/-- Where a key may begin, a quote begins it. -/
theorem step_beginKey {awaited : Awaited} (ha : awaited.opensKey = true) :
    step ⟨opened, awaited⟩ '"' = some ⟨opened, .text true {}⟩ := by
  cases awaited with
  | key => rfl
  | member => rfl
  | _ => exact absurd ha (by simp [Awaited.opensKey])

theorem isBetween_of_opensValue {awaited : Awaited} (h : awaited.opensValue = true) :
    awaited.isBetween = true := by
  cases awaited <;> first | rfl | exact absurd h (by simp [Awaited.opensValue])

theorem isBetween_of_opensKey {awaited : Awaited} (h : awaited.opensKey = true) :
    awaited.isBetween = true := by
  cases awaited <;> first | rfl | exact absurd h (by simp [Awaited.opensKey])

theorem run_key {key : String} {text : List Char} {members : List (String × Json)}
    {outer : List Frame} {awaited : Awaited} (ha : awaited.opensKey = true)
    (h : SpellsKey key text) :
    run ⟨.object members :: outer, awaited⟩ text =
      some ⟨.member members key :: outer, .value⟩ := by
  obtain @⟨before, body, between, after, hb, h, hm, hafter⟩ := h
  rw [run_append (run_blanks (isBetween_of_opensKey ha) hb), run_cons (step_beginKey ha)]
  have hkey : run ⟨.object members :: outer, .text true {}⟩ (body ++ ['"']) =
      some ⟨.member members key :: outer, .colon⟩ := run_text h
  have hlist : body ++ '"' :: (between ++ ':' :: after) =
      (body ++ ['"']) ++ (between ++ ':' :: after) := by simp
  rw [hlist, run_append hkey, run_append (run_blanks rfl hm)]
  have hcolon : step ⟨.member members key :: outer, .colon⟩ ':' =
      some ⟨.member members key :: outer, .value⟩ := rfl
  rw [run_cons hcolon, run_blanks rfl hafter]

theorem run_word (c : Char) (rest : List Char) (value : Json) :
    run ⟨opened, .word (c :: rest) value⟩ (c :: rest) = put opened value := by
  induction rest generalizing c with
  | nil =>
    rw [run_single]
    exact if_pos rfl
  | cons next rest ih =>
    have hstep : step ⟨opened, .word (c :: next :: rest) value⟩ c =
        some ⟨opened, .word (next :: rest) value⟩ := if_pos rfl
    rw [run_cons hstep, ih]

mutual

/-- A value that is spelt is handed to the innermost list or object, whatever that is. -/
theorem run_of_spells {value : Json} {text : List Char} {awaited : Awaited}
    (ha : awaited.opensValue = true) (opened : List Frame) : Spells value text →
    run ⟨opened, awaited⟩ text = put opened value
  | .true => by
    rw [run_cons (step_begin ha rfl (by decide))]
    exact run_word 'r' ['u', 'e'] (.boolean Bool.true)
  | .false => by
    rw [run_cons (step_begin ha rfl (by decide))]
    exact run_word 'a' ['l', 's', 'e'] (.boolean Bool.false)
  | .text h => by
    rw [run_cons (step_begin ha rfl (by decide))]
    exact run_text h
  | .emptyArray hb => by
    rw [run_cons (step_begin ha rfl (by decide)), run_append (run_blanks rfl hb), run_single]
    rfl
  | .array h => by
    rw [run_cons (step_begin ha rfl (by decide)), run_append (run_of_spellsItems rfl [] opened h),
      run_single]
    rfl
  | .emptyObject hb => by
    rw [run_cons (step_begin ha rfl (by decide)), run_append (run_blanks rfl hb), run_single]
    rfl
  | .object h => by
    rw [run_cons (step_begin ha rfl (by decide)),
      run_append (run_of_spellsMembers rfl [] opened h), run_single]
    rfl

/-- Items that are spelt are added to those before. -/
theorem run_of_spellsItems {items : List Json} {text : List Char} {awaited : Awaited}
    (ha : awaited.opensValue = true) (before : List Json) (outer : List Frame) :
    SpellsItems items text →
    run ⟨.array before :: outer, awaited⟩ text =
      some ⟨.array (before ++ items) :: outer, .separator⟩
  | .last hb h hafter => by
    rw [run_append (run_blanks (isBetween_of_opensValue ha) hb),
      run_append (run_of_spells ha _ h), run_blanks rfl hafter]
  | @SpellsItems.cons item _ _ _ _ _ hb h hafter hr => by
    rw [run_append (run_blanks (isBetween_of_opensValue ha) hb),
      run_append (run_of_spells ha _ h), run_append (run_blanks rfl hafter)]
    have hcomma : step ⟨.array (before ++ [item]) :: outer, .separator⟩ ',' =
        some ⟨.array (before ++ [item]) :: outer, .value⟩ := rfl
    have hrest := @run_of_spellsItems _ _ .value rfl (before ++ [item]) outer hr
    rw [List.append_assoc] at hrest
    rw [run_cons hcomma, hrest]
    rfl

/-- Members that are spelt are added to those before. -/
theorem run_of_spellsMembers {members : List (String × Json)} {text : List Char}
    {awaited : Awaited} (ha : awaited.opensKey = true) (before : List (String × Json))
    (outer : List Frame) : SpellsMembers members text →
    run ⟨.object before :: outer, awaited⟩ text =
      some ⟨.object (before ++ members) :: outer, .separator⟩
  | .last hk h hafter => by
    rw [run_append (run_key ha hk), run_append (run_of_spells rfl _ h), run_blanks rfl hafter]
  | @SpellsMembers.cons key value _ _ _ _ _ hk h hafter hr => by
    rw [run_append (run_key ha hk), run_append (run_of_spells rfl _ h),
      run_append (run_blanks rfl hafter)]
    have hcomma : step ⟨.object (before ++ [(key, value)]) :: outer, .separator⟩ ',' =
        some ⟨.object (before ++ [(key, value)]) :: outer, .key⟩ := rfl
    have hrest := @run_of_spellsMembers _ _ .key rfl (before ++ [(key, value)]) outer hr
    rw [List.append_assoc] at hrest
    rw [run_cons hcomma, hrest]
    rfl

end

end Reader

/-- The reader finds the value of every document. -/
theorem read_of_isDocument {value : Json} {document : String}
    (h : IsDocument value document.toList) : read document = some value := by
  obtain ⟨before, body, after, htext, hb, h, ha⟩ := h
  have hvalue : Reader.run ⟨[], .value⟩ body = some ⟨[], .nothing value⟩ :=
    Reader.run_of_spells rfl [] h
  have hrun : Reader.run ⟨[], .value⟩ document.toList = some ⟨[], .nothing value⟩ := by
    rw [htext, Reader.run_append (Reader.run_blanks rfl hb), Reader.run_append hvalue,
      Reader.run_blanks rfl ha]
  unfold read
  rw [hrun]

end TableScribe.Json
