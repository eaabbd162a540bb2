/-!
# Double precision numbers

`Binary64` is a finite number of the binary64 format, kept as a sign and `mantissa * 2 ^ exponent`.
Arithmetic is exact on natural numbers and rounded once, to the nearest number of the format, ties to
the even mantissa.

* `Binary64.nearest?`: the number nearest to a quotient of naturals, unless it is too large;
* `Binary64.scaled?`: a decimal mantissa and exponent as a number. The power of ten is rounded before it
  is multiplied or divided by, so the result may differ from the nearest number in its last bit.
-/

namespace GrammarBatch

/-- The absolute value of a finite binary64 number: `mantissa * 2 ^ exponent`. -/
structure Binary64.Magnitude where
  /-- The digits, below `2 ^ 53`. -/
  mantissa : Nat
  /-- The power of two, at least -1074. -/
  exponent : Int
deriving DecidableEq, Repr

/-- A finite binary64 number. -/
structure Binary64 where
  /-- Whether the sign is minus, which zero can have too. -/
  negative : Bool
  magnitude : Binary64.Magnitude
deriving DecidableEq, Repr

namespace Binary64

/-- The quotient rounded to the nearest integer, ties to even. -/
def roundDiv (num den : Nat) : Nat :=
  let q := num / den
  let r := num % den
  if 2 * r < den then q else if den < 2 * r then q + 1 else q + q % 2

/-- The largest `e` with `2 ^ e ≤ num / den`, for positive `num` and `den`. -/
def floorLog2 (num den : Nat) : Int :=
  let e : Int := num.log2 - den.log2
  let fits := if 0 ≤ e then den * Nat.pow 2 e.toNat ≤ num else den ≤ num * Nat.pow 2 (-e).toNat
  if fits then e else e - 1

/-- The number nearest to `num / den`; `none` where that lies past the largest one. -/
def nearest? (num den : Nat) : Option Magnitude :=
  if num = 0 then some ⟨0, -1074⟩
  else
    let e := max (floorLog2 num den - 52) (-1074)
    let m :=
      if 0 ≤ e then roundDiv num (den * Nat.pow 2 e.toNat) else roundDiv (num * Nat.pow 2 (-e).toNat) den
    let (m, e) := if m = Nat.pow 2 53 then (Nat.pow 2 52, e + 1) else (m, e)
    if 971 < e then none else some ⟨m, e⟩

namespace Magnitude

/-- The number as a quotient: numerator and denominator. -/
def ratio (x : Magnitude) : Nat × Nat :=
  if 0 ≤ x.exponent then (x.mantissa * Nat.pow 2 x.exponent.toNat, 1)
  else (x.mantissa, Nat.pow 2 (-x.exponent).toNat)

/-- The product, rounded. -/
def mul? (x y : Magnitude) : Option Magnitude :=
  nearest? (x.ratio.1 * y.ratio.1) (x.ratio.2 * y.ratio.2)

/-- The quotient, rounded. -/
def div? (x y : Magnitude) : Option Magnitude :=
  nearest? (x.ratio.1 * y.ratio.2) (x.ratio.2 * y.ratio.1)

end Magnitude

/-- The number nearest to a power of ten. -/
def powerOfTen? (n : Nat) : Option Magnitude := nearest? (Nat.pow 10 n) 1

/-- The largest power of ten that is a number of the format. -/
def maxPower : Nat := 308

/-- Scales `x` by ten to the `exponent`; `none` where the result is too large. Powers past the largest one
are divided by in steps, each of which rounds. -/
def scale? (x : Magnitude) (exponent : Int) : Option Magnitude :=
  if _h : exponent < -maxPower then
    if x.mantissa = 0 then some x
    else do
      let y ← x.div? (← powerOfTen? maxPower)
      scale? y (exponent + maxPower)
  else if exponent < 0 then do x.div? (← powerOfTen? (-exponent).toNat)
  else if exponent ≤ maxPower then do x.mul? (← powerOfTen? exponent.toNat)
  else if x.mantissa = 0 then some x
  else none
termination_by (-exponent).toNat
decreasing_by
  simp only [maxPower] at _h ⊢
  omega

/-- The number written as `significand` times ten to the `exponent`; `none` where it is too large. -/
def scaled? (negative : Bool) (significand : Nat) (exponent : Int) : Option Binary64 := do
  let x ← nearest? significand 1
  let y ← scale? x exponent
  return { negative, magnitude := y }

/-- Zero with a sign. -/
def zero (negative : Bool) : Binary64 := { negative, magnitude := ⟨0, -1074⟩ }

end Binary64

end GrammarBatch
