/-! Binary64 values as sign and magnitude. The magnitude is the low 63 bits of
the interchange encoding, so magnitudes order the values; a finite magnitude
counts a whole number of units of `2 ^ -1074`. An exact quotient is cut to 53
significant bits and rounded by integer comparison, so nothing is rounded twice. -/
namespace ScriptLexer

/-- A sign with the exponent and fraction fields, read as one number. -/
structure Binary64 where
  negative : Bool
  magnitude : Nat
  bounded : magnitude < Nat.pow 2 63 := by simp; omega
  deriving DecidableEq

/-- The integer nearest to a quotient, the even one of two at equal distance. -/
def roundQuotient (numerator denominator : Nat) : Nat :=
  let floor := numerator / denominator
  match compare (2 * (numerator % denominator)) denominator with
  | .lt => floor
  | .gt => floor + 1
  | .eq => floor + floor % 2

namespace Binary64

/-- The magnitude of infinity: all exponent bits set and no fraction. -/
def infinite : Nat := 2047 * Nat.pow 2 52

def ofBits (bits : UInt64) : Binary64 where
  negative := decide (Nat.pow 2 63 ≤ bits.toNat)
  magnitude := bits.toNat % Nat.pow 2 63
  bounded := Nat.mod_lt _ (by decide)

def bits (x : Binary64) : Nat := (if x.negative then Nat.pow 2 63 else 0) + x.magnitude

def isNaN (x : Binary64) : Bool := infinite < x.magnitude

def isInfinite (x : Binary64) : Bool := x.magnitude == infinite

def isFinite (x : Binary64) : Bool := x.magnitude < infinite

/-- The absolute value of a finite number, in units of `2 ^ -1074`. -/
def units (x : Binary64) : Nat :=
  if x.magnitude < Nat.pow 2 52 then x.magnitude
  else (Nat.pow 2 52 + x.magnitude % Nat.pow 2 52) * Nat.pow 2 (x.magnitude / Nat.pow 2 52 - 1)

def isIntegral (x : Binary64) : Bool := x.units % Nat.pow 2 1074 == 0

/-- Numeric equality: a NaN equals nothing, and the two zeros are equal. -/
def equal (x y : Binary64) : Bool :=
  !x.isNaN && !y.isNaN && x.magnitude == y.magnitude &&
    (x.negative == y.negative || x.magnitude == 0)

instance : BEq Binary64 := ⟨equal⟩

theorem beq_self_iff (x : Binary64) : (x == x) = true ↔ x.isNaN = false := by
  simp [BEq.beq, equal]

theorem bits_ofBits (bits : UInt64) : (ofBits bits).bits = bits.toNat := by
  have bound := bits.toNat_lt
  simp only [ofBits, Binary64.bits, Nat.pow_eq, decide_eq_true_eq]
  split <;> omega

/-- The binary exponent of the last place kept of a count of units. -/
def lastPlace (count : Nat) : Nat := count.log2 - 52

/-- The binary64 nearest to a quotient, the even one of two at equal distance.
From the midpoint above the largest finite number on, that is infinity. -/
def nearest (numerator denominator : Nat) : Binary64 :=
  let scaled := numerator * Nat.pow 2 1074
  let place := lastPlace (scaled / denominator)
  let rounded := roundQuotient scaled (denominator * Nat.pow 2 place)
  { negative := false
    magnitude := min (place * Nat.pow 2 52 + rounded) infinite
    bounded := Nat.lt_of_le_of_lt (Nat.min_le_right _ _) (by decide) }

end Binary64
end ScriptLexer
