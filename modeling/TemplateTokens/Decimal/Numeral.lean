import TemplateTokens.Text.Blank

/-!
# Numerals

The written form of a number: a sign, digits with a point somewhere among them or at either end,
and a power of ten; or the words for infinity and for what is not a number, in any letter case.
The value is the double nearest to the number that is written.
-/

namespace TemplateTokens

/-- A number as it is written. -/
inductive Numeral where
  /-- The number `digits * 10 ^ exponent`, below zero if `negative`. -/
  | finite (negative : Bool) (digits : Nat) (exponent : Int)
  | infinite (negative : Bool)
  | notANumber
deriving DecidableEq, Repr

namespace Numeral

/-- The value of a run of decimal digits. -/
def digitsValue (t : Text) : Nat := t.foldl (fun n c => 10 * n + (c.toNat - '0'.toNat)) 0

/-- The value of the digits of an exponent. From 65536 on further digits change nothing: the
number is zero or infinite already. -/
def exponentValue (t : Text) : Nat :=
  t.foldl (fun n c => if n < 65536 then 10 * n + (c.toNat - '0'.toNat) else n) 0

/-- A sign, if there is one: whether it is a minus, and what follows. -/
def sign : Text → Bool × Text
  | '-' :: t => (true, t)
  | '+' :: t => (false, t)
  | t => (false, t)

/-- The exponent that a whole text holds behind its mark; the empty text stands for zero. -/
def exponent? : Text → Option Int
  | [] => some 0
  | c :: t =>
    if c = 'e' || c = 'E' then
      let (negative, digits) := sign t
      if digits.isEmpty || !digits.all Char.isDigit then none
      else
        let value := Int.ofNat (exponentValue digits)
        some (if negative then -value else value)
    else none

/-- Digits, a point with digits, or both, and then an exponent. -/
def finite? (negative : Bool) (t : Text) : Option Numeral :=
  let whole := t.takeWhile Char.isDigit
  let (fraction, rest) :=
    match t.dropWhile Char.isDigit with
    | '.' :: r => (r.takeWhile Char.isDigit, r.dropWhile Char.isDigit)
    | r => ([], r)
  if whole.isEmpty && fraction.isEmpty then none
  else
    (exponent? rest).map fun e =>
      .finite negative (digitsValue (whole ++ fraction)) (e - fraction.length)

/-- One of the words for a value that digits cannot write. -/
def special? (negative : Bool) (t : Text) : Option Numeral :=
  let word := t.map Char.toLower
  if word = "inf".toList || word = "infinity".toList then some (.infinite negative)
  else if word = "nan".toList then some .notANumber
  else none

/-- The numeral that a whole text is. -/
def ofText? (t : Text) : Option Numeral :=
  let (negative, rest) := sign t
  (finite? negative rest).or (special? negative rest)

/-- The double nearest to a numeral. -/
def toFloat : Numeral → Float
  | .finite negative digits exponent =>
    let x := Float.ofScientific digits (exponent < 0) exponent.natAbs
    if negative then -x else x
  | .infinite negative => if negative then -1.0 / 0.0 else 1.0 / 0.0
  | .notANumber => 0.0 / 0.0

end Numeral

end TemplateTokens
