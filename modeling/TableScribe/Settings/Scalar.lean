import TableScribe.Text.Pieces

/-!
# Numbers and dates

The words that a settings document uses for numbers, dates and times. Their values do not matter
here, only whether they are well formed and within the range that a reader keeps: an integer in 128
bits, any other number in 64. `isNumber` and `isDateTime` decide it.
-/

namespace TableScribe.Scalar

def hexDigit? (c : Char) : Option Nat :=
  if '0' ≤ c ∧ c ≤ '9' then some (c.toNat - '0'.toNat)
  else if 'a' ≤ c ∧ c ≤ 'f' then some (c.toNat - 'a'.toNat + 10)
  else if 'A' ≤ c ∧ c ≤ 'F' then some (c.toNat - 'A'.toNat + 10)
  else none

def isDigitOf (base : Nat) (c : Char) : Bool :=
  match hexDigit? c with
  | none => false
  | some value => value < base

/-- The value of digits of the given base. What is no digit is passed over. -/
def digitsValue (base : Nat) (text : List Char) : Nat :=
  (text.filterMap hexDigit?).foldl (fun value digit => base * value + digit) 0

/-! ## Numbers -/

/-- Digits of the given base with single underscores between them. -/
def isDigitRun (base : Nat) (text : List Char) : Bool :=
  (Text.splitOn ['_'] text).all fun digits => digits ≠ [] && digits.all (isDigitOf base)

/-- Decimal digits without a zero in front of others. -/
def isPlainNatural (text : List Char) : Bool :=
  isDigitRun 10 text && (text.head? ≠ some '0' || text.length = 1)

/-- The text without a sign in front. -/
def dropSign : List Char → List Char
  | '+' :: rest => rest
  | '-' :: rest => rest
  | text => text

/-- Digits of the given base for a number of 128 bits. -/
def isBits (base : Nat) (digits : List Char) : Bool :=
  isDigitRun base digits && digitsValue base digits < Nat.pow 2 128

/-- An integer of 128 bits; the top bit is for the sign of a negative one. -/
def isInteger : List Char → Bool
  | '0' :: 'x' :: digits => isBits 16 digits
  | '0' :: 'o' :: digits => isBits 8 digits
  | '0' :: 'b' :: digits => isBits 2 digits
  | '-' :: digits => isPlainNatural digits && digitsValue 10 digits ≤ Nat.pow 2 127
  | text => isPlainNatural (dropSign text) && digitsValue 10 text < Nat.pow 2 128

/-- The two parts of a text around the first character of the class, if there is one. -/
def cutAt (p : Char → Bool) (text : List Char) : List Char × Option (List Char) :=
  match text.dropWhile (!p ·) with
  | [] => (text, none)
  | _ :: rest => (text.takeWhile (!p ·), some rest)

/-- The value of decimal digits with or without a sign. -/
def signedValue : List Char → Int
  | '-' :: digits => -digitsValue 10 digits
  | text => digitsValue 10 text

/-- The least number that is rounded up to infinity in 64 bits: the middle between the greatest
finite one and the next power of two. It has 309 decimal digits. -/
def overflow : Nat :=
  Nat.pow 2 1024 - Nat.pow 2 970

/-- Whether `digits * 10 ^ exponent` is finite when it is rounded to 64 bits. The place of the first
digit decides unless it is the 309th, so that no great power has to be worked out. -/
def isFinite (digits : Nat) (exponent : Int) : Bool :=
  let place := (Nat.toDigits 10 digits).length + exponent
  if digits = 0 ∨ place < 309 then true
  else if 309 < place then false
  else digits * Nat.pow 10 exponent.toNat < overflow * Nat.pow 10 (-exponent).toNat

/-- Whether a number with these digits before the point, digits after it and this exponent stays
finite. -/
def staysFinite (whole fraction exponent : List Char) : Bool :=
  let places := fraction.countP (isDigitOf 10)
  isFinite (digitsValue 10 (whole ++ fraction)) (signedValue exponent - places)

/-- A number with a fraction or an exponent, or one of `inf` and `nan`. -/
def isFloat (text : List Char) : Bool :=
  let unsigned := dropSign text
  if unsigned = "inf".toList ∨ unsigned = "nan".toList then true
  else
    let (mantissa, exponent) := cutAt (fun c => c = 'e' ∨ c = 'E') unsigned
    let (whole, fraction) := cutAt (· = '.') mantissa
    isPlainNatural whole && (fraction.isSome || exponent.isSome) &&
      fraction.all (isDigitRun 10) && exponent.all (fun e => isDigitRun 10 (dropSign e)) &&
      staysFinite whole (fraction.getD []) (exponent.getD [])

/-- An integer or a number with a fraction or an exponent. -/
def isNumber (text : List Char) : Bool :=
  isInteger text || isFloat text

/-! ## Dates and times -/

/-- The value of a text of exactly `count` decimal digits. -/
def fixedDigits? (count : Nat) (text : List Char) : Option Nat :=
  if text.length = count ∧ text.all (isDigitOf 10) then
    some (digitsValue 10 text)
  else none

def daysIn (year month : Nat) : Nat :=
  if month = 2 then
    if year % 4 = 0 ∧ (year % 100 ≠ 0 ∨ year % 400 = 0) then 29 else 28
  else if month = 4 ∨ month = 6 ∨ month = 9 ∨ month = 11 then 30
  else 31

/-- A date: year, month and day. -/
def isDate (text : List Char) : Bool :=
  match Text.splitOn ['-'] text with
  | [year, month, day] =>
    match fixedDigits? 4 year, fixedDigits? 2 month, fixedDigits? 2 day with
    | some year, some month, some day =>
      1 ≤ month && month ≤ 12 && 1 ≤ day && day ≤ daysIn year month
    | _, _, _ => false
  | _ => false

/-- Hours and minutes. -/
def isClock (hours minutes : List Char) : Bool :=
  match fixedDigits? 2 hours, fixedDigits? 2 minutes with
  | some hours, some minutes => hours ≤ 23 && minutes ≤ 59
  | _, _ => false

/-- A time: hours and minutes, perhaps with seconds, and those perhaps with a fraction. -/
def isTime (text : List Char) : Bool :=
  match Text.splitOn [':'] text with
  | [hours, minutes] => isClock hours minutes
  | [hours, minutes, seconds] =>
    let (whole, fraction) := cutAt (· = '.') seconds
    isClock hours minutes && ((fixedDigits? 2 whole).any (· ≤ 60)) &&
      fraction.all fun digits => digits ≠ [] && digits.all (isDigitOf 10)
  | _ => false

def isOffset (text : List Char) : Bool :=
  match Text.splitOn [':'] text with
  | [hours, minutes] => isClock hours minutes
  | _ => false

/-- A time, perhaps with a time zone. -/
def isZonedTime (text : List Char) : Bool :=
  isTime text ||
    match text.reverse with
    | 'Z' :: rest | 'z' :: rest => isTime rest.reverse
    | _ =>
      let (time, offset) := cutAt (fun c => c = '+' ∨ c = '-') text
      isTime time && offset.any isOffset

/-- A date, a time, or both. -/
def isDateTime (text : List Char) : Bool :=
  isDate text || isTime text ||
    let (date, time) := cutAt (fun c => c = 'T' ∨ c = 't' ∨ c = ' ') text
    isDate date && time.any isZonedTime

end TableScribe.Scalar
