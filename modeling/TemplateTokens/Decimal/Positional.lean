import TemplateTokens.Decimal.Shortest
import TemplateTokens.Text.Basic

/-!
# Positional notation

A double is written with all its places and never with an exponent: whole numbers without a
point, fractions with a zero before it.
-/

namespace TemplateTokens

/-- All places of a decimal. -/
def Decimal.positional (d : Decimal) : Text :=
  let digits := Nat.toDigits 10 d.digits
  if 0 ≤ d.exponent then digits ++ List.replicate d.exponent.toNat '0'
  else
    let places := (-d.exponent).toNat
    if places < digits.length then
      digits.take (digits.length - places) ++ '.' :: digits.drop (digits.length - places)
    else '0' :: '.' :: List.replicate (places - digits.length) '0' ++ digits

/-- A number with the sign it has. -/
def signed (negative : Bool) (t : Text) : Text := if negative then '-' :: t else t

/-- The text of a double. -/
def floatText (x : Float) : Text :=
  match Binary.ofFloat x with
  | .finite negative x =>
    signed negative (if x.mantissa = 0 then ['0'] else (Decimal.shortest x).positional)
  | .infinite negative => signed negative "inf".toList
  | .notANumber => "NaN".toList

end TemplateTokens
