/-!
# Shortest decimals

The decimal of a positive double is the one with the fewest digits among those that read back as
the double, and of those the nearest to it; of two that are equally near, the larger. The double
is taken apart into an integer and a power of two, and all comparisons are between natural
numbers.

Results:

* `Decimal.readsBack_of_onGrid?`: a decimal that the search proposes reads back as the double.
* `Decimal.exponent_of_onGrid?`: and it lies on the grid that was searched.
-/

namespace TemplateTokens

/-! ## Doubles -/

/-- The number `mantissa * 2 ^ exponent`, a double without its sign. -/
structure Magnitude where
  mantissa : Nat
  exponent : Int
  /-- Whether the double below is only half as far away as the one above. -/
  lopsided : Bool
deriving DecidableEq, Repr

/-- A double taken apart. -/
inductive Binary where
  /-- The number with this magnitude, below zero if `negative`. -/
  | finite (negative : Bool) (magnitude : Magnitude)
  | infinite (negative : Bool)
  | notANumber
deriving DecidableEq, Repr

/-- The parts of a double. -/
def Binary.ofFloat (x : Float) : Binary :=
  let bits := x.toBits.toNat
  let negative := Nat.pow 2 63 ≤ bits
  let biased := bits / Nat.pow 2 52 % Nat.pow 2 11
  let fraction := bits % Nat.pow 2 52
  if biased = 2047 then
    if fraction = 0 then .infinite negative else .notANumber
  else if biased = 0 then .finite negative ⟨fraction, -1074, false⟩
  else
    .finite negative
      ⟨Nat.pow 2 52 + fraction, Int.ofNat biased - 1075, fraction = 0 && 1 < biased⟩

/-! ## Decimals -/

/-- The decimal number `digits * 10 ^ exponent`. -/
structure Decimal where
  digits : Nat
  exponent : Int
deriving DecidableEq, Repr

namespace Decimal

/-- A double as a multiple of a quarter of its last place, made whole on the grid of the
multiples of `10 ^ k`. -/
def scale (x : Magnitude) (k : Int) : Nat :=
  Nat.pow 2 (x.exponent - 2).toNat * Nat.pow 10 (-k).toNat

/-- The width of the grid of the multiples of `10 ^ k`, in the unit of `scale`. -/
def width (x : Magnitude) (k : Int) : Nat :=
  Nat.pow 2 (2 - x.exponent).toNat * Nat.pow 10 k.toNat

/-- Whether a decimal reads back as a double: it lies less than half the way to the neighbours of
the double, or half the way if the mantissa is even. -/
def readsBack (x : Magnitude) (d : Decimal) : Bool :=
  let value := d.digits * width x d.exponent
  let lower := (4 * x.mantissa - if x.lopsided then 1 else 2) * scale x d.exponent
  let upper := (4 * x.mantissa + 2) * scale x d.exponent
  if x.mantissa % 2 = 0 then lower ≤ value && value ≤ upper else lower < value && value < upper

/-- The multiple of `10 ^ k` that reads back as a double, if there is one, and the nearest to the
double if there are two: both neighbours of the double on the grid are tried. -/
def onGrid? (x : Magnitude) (k : Int) : Option Decimal :=
  let value := 4 * x.mantissa * scale x k
  let below : Decimal := ⟨value / width x k, k⟩
  let above : Decimal := ⟨value / width x k + 1, k⟩
  let belowIsNearer := 2 * value < (2 * below.digits + 1) * width x k
  if readsBack x below && (belowIsNearer || !readsBack x above) then some below
  else if readsBack x above then some above
  else none

theorem readsBack_of_onGrid? {x : Magnitude} {k : Int} {d : Decimal}
    (h : onGrid? x k = some d) : readsBack x d = true := by
  simp only [onGrid?] at h
  split at h
  · rename_i hb
    rw [← Option.some.inj h]
    exact (Bool.and_eq_true_iff.1 hb).1
  · split at h
    · rename_i ha
      rw [← Option.some.inj h]
      exact ha
    · simp at h

theorem exponent_of_onGrid? {x : Magnitude} {k : Int} {d : Decimal}
    (h : onGrid? x k = some d) : d.exponent = k := by
  simp only [onGrid?] at h
  split at h
  · rw [← Option.some.inj h]
  · split at h
    · rw [← Option.some.inj h]
    · simp at h

/-- The shortest decimal of a double that is not zero: the first hit on the grids of the powers of
ten, the widest first. Every double lies below `10 ^ 309`, and the grid of `10 ^ -324` is finer
than any gap between doubles. -/
def shortest (x : Magnitude) : Decimal :=
  ((List.range 634).findSome? fun (i : Nat) => onGrid? x (309 - Int.ofNat i)).getD ⟨0, 0⟩

end Decimal

end TemplateTokens
