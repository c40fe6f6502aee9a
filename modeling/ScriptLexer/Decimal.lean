import ScriptLexer.Binary64

/-! Decimal numbers `digits * 10 ^ exponent`, their nearest binary64 values, their two
written layouts, and the shortest decimal that rounds to a given binary64. For that the
grids of one to seventeen significant digits are tried in turn; on each, only the two
points around the exact value matter, since if any point of a grid rounds to the value
then so does one of those two. -/
namespace ScriptLexer

structure Decimal where
  digits : Nat
  exponent : Int
  deriving DecidableEq

namespace Decimal

def toBinary64 (d : Decimal) : Binary64 :=
  if 0 ≤ d.exponent then .nearest (d.digits * Nat.pow 10 d.exponent.toNat) 1
  else .nearest d.digits (Nat.pow 10 (-d.exponent).toNat)

/-- The same number without trailing zeros in its digits. -/
def trim (d : Decimal) : Decimal :=
  if d.digits ≠ 0 ∧ d.digits % 10 = 0 then trim ⟨d.digits / 10, d.exponent + 1⟩ else d
termination_by d.digits
decreasing_by omega

def figures (d : Decimal) : List Char := Nat.toDigits 10 d.digits

/-- The power of ten of the leading digit. -/
def leading (d : Decimal) : Int := d.exponent + (d.figures.length - 1 : Nat)

/-- A whole part, a point, and at least one fractional digit. -/
def positional (d : Decimal) : List Char :=
  if 0 ≤ d.exponent then d.figures ++ List.replicate d.exponent.toNat '0' ++ ['.', '0']
  else
    let places := (-d.exponent).toNat
    let padded := List.replicate (places + 1 - d.figures.length) '0' ++ d.figures
    padded.take (padded.length - places) ++ '.' :: padded.drop (padded.length - places)

/-- One whole digit, the other digits after a point if there are any, and the
power of ten with its sign. -/
def scientific (d : Decimal) : List Char :=
  let fraction := d.figures.drop 1
  d.figures.take 1 ++ (if fraction.isEmpty then [] else '.' :: fraction) ++
    'e' :: (if d.leading < 0 then '-' else '+') :: Nat.toDigits 10 d.leading.natAbs

/-- Which of two points at equal distance from the exact value is taken. -/
inductive Tie
  | upper
  | even
  deriving DecidableEq

/-- The power of ten just above a positive finite number. -/
def scale (x : Binary64) : Int := (toString (x.units * Nat.pow 10 324 / Nat.pow 2 1074)).length - 324

/-- The finite number itself, with every digit of its expansion. -/
def exact (x : Binary64) : Decimal := trim ⟨x.units * Nat.pow 5 1074, -1074⟩

/-- Picks the point nearer to `numerator / denominator`, where `floor` is the lower of two. -/
def nearer (tie : Tie) (numerator denominator floor : Nat) : Nat :=
  match compare (2 * (numerator - floor * denominator)) denominator with
  | .lt => floor
  | .gt => floor + 1
  | .eq =>
    match tie with
    | .upper => floor + 1
    | .even => floor + floor % 2

/-- The best point with the given exponent that rounds to `x`, if there is one. -/
def onGrid? (tie : Tie) (x : Binary64) (exponent : Int) : Option Decimal :=
  let numerator := x.units * Nat.pow 10 (-exponent).toNat
  let denominator := Nat.pow 2 1074 * Nat.pow 10 exponent.toNat
  let floor := numerator / denominator
  let reads (digits : Nat) : Bool := (Decimal.mk digits exponent).toBinary64.magnitude == x.magnitude
  match reads floor, reads (floor + 1) with
  | true, true => some ⟨nearer tie numerator denominator floor, exponent⟩
  | true, false => some ⟨floor, exponent⟩
  | false, true => some ⟨floor + 1, exponent⟩
  | false, false => none

/-- The shortest decimal that rounds to the absolute value of a finite number. -/
def shortest (tie : Tie) (x : Binary64) : Decimal :=
  if x.magnitude = 0 then ⟨0, 0⟩
  else
    let top := scale x
    match (List.range 17).findSome? fun n => onGrid? tie x (top - (n + 1 : Nat)) with
    | some d => d.trim
    | none => exact x

end Decimal
end ScriptLexer
