/-!
# Numbers with a fixed number of places

A double is taken apart into a sign, a mantissa and a power of two, and rounded once,
on its exact value: to the nearest decimal with the given number of places, and to the
even neighbour when it lies halfway. The sign of a double is kept also when all digits
are zero.
-/

namespace FirmwareTests
namespace Number

/-- The quotient rounded to the nearest number, halves to the even one. -/
def roundHalfEven (numerator denominator : Nat) : Nat :=
  let floor := numerator / denominator
  let twice := 2 * (numerator % denominator)
  if twice < denominator then floor
  else if denominator < twice then floor + 1
  else floor + floor % 2

/-- A finite double: the mantissa times a power of two, with a sign. -/
structure Binary where
  negative : Bool
  mantissa : Nat
  exponent : Int
  deriving DecidableEq, Repr

namespace Binary

def ofBits (bits : UInt64) : Binary :=
  let fraction : Nat := bits.toNat % Nat.pow 2 52
  let biased : Nat := bits.toNat / Nat.pow 2 52 % Nat.pow 2 11
  let negative := bits.toNat / Nat.pow 2 63 = 1
  if biased = 0 then ⟨negative, fraction, -1074⟩
  else ⟨negative, Nat.pow 2 52 + fraction, Int.ofNat biased - 1075⟩

/-- The magnitude in units of the last of the given places. -/
def units (places : Nat) (x : Binary) : Nat :=
  let scaled := x.mantissa * Nat.pow 10 places
  if 0 ≤ x.exponent then scaled * Nat.pow 2 x.exponent.toNat
  else roundHalfEven scaled (Nat.pow 2 (-x.exponent).toNat)

end Binary

/-- Decimal digits, with zeros in front up to the given length. -/
def padded (length n : Nat) : String :=
  let digits := Nat.toDigits 10 n
  String.ofList (List.replicate (length - digits.length) '0' ++ digits)

/-- A double with the given number of places, at least one. -/
def fixed (places : Nat) (x : Float) : String :=
  if x.isNaN then "NaN"
  else if x.isInf then if x < 0 then "-inf" else "inf"
  else
    let parts := Binary.ofBits x.toBits
    let n := parts.units places
    let sign := if parts.negative then "-" else ""
    let unit := Nat.pow 10 places
    sign ++ toString (n / unit) ++ "." ++ padded places (n % unit)

end Number
end FirmwareTests
