import GrammarBatch.Decimal.Binary64

/-!
# Shortest decimal text

`Shortest.digits` gives the fewest decimal digits that read back as the same number, the nearest such
decimal among those. `Shortest.text` lays them out as `Layout` says.

For each digit count the two neighbours of the number on the grid of that count are tried. If any
decimal of the grid reads back then one of these two does, so the first count with a hit is the least.
-/

namespace GrammarBatch.Shortest

/-- Digits, and the power of ten of the last one. -/
structure Decimal where
  digits : Nat
  /-- The power of ten that they count. -/
  exponent : Int
deriving DecidableEq, Repr

/-- The value `num / den` in units of ten to the `exponent`, as a quotient. -/
def inUnits (num den : Nat) (exponent : Int) : Nat × Nat :=
  if 0 ≤ exponent then (num, den * Nat.pow 10 exponent.toNat)
  else (num * Nat.pow 10 (-exponent).toNat, den)

/-- The number of decimal digits of a natural. -/
def digitCount (n : Nat) : Nat := (Nat.toDigits 10 n).length

/-- The power of ten of the first digit of a positive quotient. -/
def leadingPower (num den : Nat) : Int :=
  if den ≤ num then (digitCount (num / den) : Int) - 1
  else -(digitCount ((den + num - 1) / num - 1) : Int)

/-- Whether `d` units of ten to the `exponent` read back as the number: the decimal lies between the
midpoints to the number's neighbours, and on a midpoint only if the mantissa is even. -/
def readsBack (x : Binary64.Magnitude) (d : Nat) (exponent : Int) : Bool :=
  -- four times the number and its midpoints, in units of a quarter of the last place
  let isPower := x.mantissa == Nat.pow 2 52 && decide (-1074 < x.exponent)
  let low := 4 * x.mantissa - (if isPower then 1 else 2)
  let high := 4 * x.mantissa + 2
  let (unitNum, unitDen) := (⟨1, x.exponent⟩ : Binary64.Magnitude).ratio
  let (num, den) := inUnits 1 1 (-exponent)
  -- the decimal is `d * num / den`, a quarter of the last place is `unitNum / (4 * unitDen)`
  let value := 4 * d * num * unitDen
  let below := low * unitNum * den
  let above := high * unitNum * den
  if x.mantissa % 2 = 0 then below ≤ value && value ≤ above else below < value && value < above

/-- The neighbour on the grid with this unit that reads back, the nearer one if both do, the even one if
they are equally near. -/
def neighbour? (x : Binary64.Magnitude) (exponent : Int) : Option Decimal :=
  let (num, den) := inUnits x.ratio.1 x.ratio.2 exponent
  let floor := num / den
  let twice := 2 * (num % den)
  let nearFloor := twice < den || (twice == den && floor % 2 == 0)
  let (first, second) := if nearFloor then (floor, floor + 1) else (floor + 1, floor)
  if readsBack x first exponent then some ⟨first, exponent⟩
  else if readsBack x second exponent then some ⟨second, exponent⟩
  else none

/-- The shortest decimal that reads back as a positive number. Seventeen digits always do. -/
def digits (x : Binary64.Magnitude) : Decimal :=
  let lead := leadingPower x.ratio.1 x.ratio.2
  match (List.range 17).findSome? fun (n : Nat) => neighbour? x (lead - (n : Int)) with
  | some d => d
  | none => ⟨0, 0⟩

/-- How decimals are laid out. -/
structure Layout where
  /-- The least power of ten of a first digit that is written without an exponent. -/
  leastPower : Int
  greatestPower : Int

/-- Numbers from 1e-5 up to 1e16 are written without an exponent and always with a point; others have a
point only between digits, and an exponent with its sign. -/
def layout : Layout := ⟨-5, 15⟩

/-- The digits of a natural without the zeros at the end, and how many those were. -/
def stripZeros (n : Nat) : List Char × Nat :=
  let ds := Nat.toDigits 10 n
  let kept := (ds.reverse.dropWhile (· == '0')).reverse
  (kept, ds.length - kept.length)

/-- The text of a positive decimal. -/
def Decimal.text (layout : Layout) (d : Decimal) : String :=
  let (ds, zeros) := stripZeros d.digits
  let power : Int := d.exponent + zeros + ds.length - 1
  let chars :=
    if layout.leastPower ≤ power ∧ power ≤ layout.greatestPower then
      if power < 0 then '0' :: '.' :: List.replicate (-power - 1).toNat '0' ++ ds
      else
        let whole := power.toNat + 1
        if ds.length ≤ whole then ds ++ List.replicate (whole - ds.length) '0' ++ ['.', '0']
        else ds.take whole ++ '.' :: ds.drop whole
    else
      let fraction := if ds.length ≤ 1 then [] else '.' :: ds.drop 1
      let sign := if power < 0 then '-' else '+'
      ds.take 1 ++ fraction ++ 'e' :: sign :: Nat.toDigits 10 power.natAbs
  String.ofList chars

/-- The text of a number. -/
def text (x : Binary64) : String :=
  (if x.negative then "-" else "") ++
    (if x.magnitude.mantissa = 0 then "0.0" else (digits x.magnitude).text layout)

end GrammarBatch.Shortest
