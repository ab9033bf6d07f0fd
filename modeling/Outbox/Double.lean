/-! Magnitudes of double precision: numbers of at most 53 binary digits before a power of two. -/
namespace Outbox

/-- The whole number nearest to a quotient, the even one of two that are equally near. -/
def nearest (n d : Nat) : Nat :=
  let half := 2 * (n % d)
  if half < d ∨ half = d ∧ n / d % 2 = 0 then n / d else n / d + 1

/-- A magnitude as a multiple of the smallest above zero, `2 ^ -1074`. -/
structure Double where
  units : Nat
  deriving DecidableEq, Repr

namespace Double

/-- How many of the smallest magnitude make one. -/
def one : Nat := Nat.pow 2 1074

/-- How far apart magnitudes are from so many units on. -/
def gap (units : Nat) : Nat := Nat.pow 2 (units.log2 + 1 - 53)

def round (n d : Nat) : Double :=
  let g := gap (n / d)
  ⟨nearest n (d * g) * g⟩

/-- The least power of two beyond double precision, `2 ^ 1024`, in units. -/
def bound : Nat := Nat.pow 2 1024 * one

def isFinite (x : Double) : Bool := x.units < bound

def zero : Double := ⟨0⟩

def ofNat (n : Nat) : Double := round (n * one) 1

def times (x y : Double) : Double := round (x.units * y.units) one

def dividedBy (x y : Double) : Double := round (x.units * one) y.units

/-- The magnitude nearest to digits before so many zeros, or that many places after the point. Below
`10 ^ -400` there is only zero, and from `10 ^ 400` on none is finite. -/
def ofDecimal (digits : Nat) (exponent : Int) : Double :=
  let size : Int := (Nat.toDigits 10 digits).length + exponent
  if digits = 0 ∨ size < -400 then zero
  else if 400 < size then ⟨bound⟩
  else if 0 ≤ exponent then round (digits * Nat.pow 10 exponent.toNat * one) 1
  else round (digits * one) (Nat.pow 10 (-exponent).toNat)

end Double
end Outbox
