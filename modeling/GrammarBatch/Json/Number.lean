import GrammarBatch.Json.Reader

/-!
# JSON numbers

`Number.unsigned` reads a number after its sign. It is an integer as long as it fits into 64 bits, with a
sign or without; otherwise, and with a point or an exponent, it is a binary fraction.

The digits are gathered in a significand below `2 ^ 64`. Once a digit no longer fits, the digits before
the point only count towards the exponent, and those after it are ignored.
-/

namespace GrammarBatch.Json.Number

open Reader

/-- The bound of the significand. -/
def bound : Nat := Nat.pow 2 64

/-- The value of a decimal digit. -/
def digit? (c : Char) : Option Nat := if c.isDigit then some (c.toNat - '0'.toNat) else none

/-- The digits in front of a text, and what follows them. -/
def digits (s : List Char) : List Nat × List Char :=
  ((s.takeWhile Char.isDigit).filterMap digit?, s.dropWhile Char.isDigit)

/-- Takes the digits in front of the text off. -/
def takeDigits : Reader (List Nat) := fun s => .ok (digits s).1 (digits s).2

/-- The significand with as many of the digits as fit, and the digits that were left. -/
def gather (significand : Nat) : List Nat → Nat × List Nat
  | [] => (significand, [])
  | d :: ds =>
    if significand * 10 + d < bound then gather (significand * 10 + d) ds
    else (significand, d :: ds)

/-- The number that the parts make. -/
def scaled (negative : Bool) (significand : Nat) (exponent : Int) : Reader Found :=
  match Binary64.scaled? negative significand exponent with
  | some x => pure (.fraction x)
  | none => failHere .hugeNumber

/-- The value of the digits of an exponent, unless it passes 31 bits; then the digits that were left. -/
def gatherExponent (acc : Nat) : List Nat → Except (List Nat) Nat
  | [] => .ok acc
  | d :: ds => if acc * 10 + d < Nat.pow 2 31 then gatherExponent (acc * 10 + d) ds else .error ds

/-- Reads an exponent, from its letter on. `start` is the exponent of the digits before it. -/
def exponent (negative : Bool) (significand : Nat) (start : Int) : Reader Found := do
  skip
  let sign ← peek
  if sign = some '+' ∨ sign = some '-' then skip
  match ← peek with
  | none => failHere .endOfValue
  | some c =>
    if c.isDigit then do
      let ds ← takeDigits
      match gatherExponent 0 ds with
      | .ok e => scaled negative significand (if sign = some '-' then start - e else start + e)
      | .error left =>
        if significand ≠ 0 ∧ sign ≠ some '-' then do
          -- the fault lies just after the digit that was too much
          let s ← get
          throw ⟨.hugeNumber, some (byteCount s + left.length)⟩
        else pure (.fraction (.zero negative))
    else failAhead .badNumber

/-- Reads what may follow the digits: an exponent or nothing. -/
def tail (negative : Bool) (significand : Nat) (start : Int) : Reader Found := do
  match ← peek with
  | some 'e' | some 'E' => exponent negative significand start
  | _ => scaled negative significand start

/-- Reads the digits after a point, from the point on. -/
def fraction (negative : Bool) (significand : Nat) (start : Int) : Reader Found := do
  skip
  let ds ← takeDigits
  let (significand', left) := gather significand ds
  let used : Int := ds.length - left.length
  if ds.isEmpty then
    match ← peek with
    | none => failHere .endOfValue
    | some _ => failAhead .badNumber
  else tail negative significand' (start - used)

/-- An integer with its sign, which is a fraction where it is minus zero or does not fit. -/
def integer (negative : Bool) (significand : Nat) : Reader Found :=
  if !negative then pure (.integer significand)
  else if significand = 0 ∨ Nat.pow 2 63 < significand then scaled true significand 0
  else pure (.integer (-significand))

/-- Reads a number after its sign. -/
def unsigned (negative : Bool) : Reader Found := do
  match ← peek with
  | none => failHere .endOfValue
  | some c =>
    if !c.isDigit then failAhead .badNumber
    else do
      let ds ← takeDigits
      if c = '0' ∧ 1 < ds.length then do
        -- the fault lies just past the second digit
        let s ← get
        throw ⟨.badNumber, some (byteCount s + ds.length - 2)⟩
      else do
        let (significand, left) := gather 0 ds
        match ← peek with
        | some '.' => fraction negative significand left.length
        | some 'e' | some 'E' => exponent negative significand left.length
        | _ => if left.isEmpty then integer negative significand else scaled negative significand left.length

/-- Reads a number, from its sign or its first digit on. -/
def number : Reader Found := do
  if (← peek) = some '-' then do
    skip
    unsigned true
  else unsigned false

end GrammarBatch.Json.Number
