import Outbox.Double
import Outbox.Text.Numeral

/-! The magnitude that a number is taken for where it is no integer of 64 bits: as many of its first
digits as 64 bits hold, times a power of ten, each of double precision; where the power is below
one, its inverse is divided by. The product is not always the magnitude nearest to the number. -/
namespace Outbox.Json

open Text (Numeral)

/-- Writes digits after a number as long as 64 bits hold it, and tells which are left. -/
def fitting : Nat → List Char → Nat × List Char
  | n, [] => (n, [])
  | n, c :: cs =>
    let m := 10 * n + (c.toNat - '0'.toNat)
    if m < Nat.pow 2 64 then fitting m cs else (n, c :: cs)

/-- The first digits of a number, and the power of ten that they are to be multiplied by. Digits
before the decimal point that do not fit count as zeros; those after it may fit again. -/
def scientific (n : Numeral) : Nat × Int :=
  match fitting 0 n.whole with
  | (m, left) =>
    match fitting m n.fraction with
    | (m, unread) =>
      (m, n.exponent.getD 0 + left.length - (n.fraction.length - unread.length : Nat))

def highest : Nat := 308

def powerOfTen (k : Nat) : Double := .ofDecimal 1 k

/-- Divides by a power of ten, and by the highest one before if that is not enough; nothing is left
if one is still needed after two. -/
def shrink (x : Double) (k : Nat) : Double :=
  if k ≤ highest then x.dividedBy (powerOfTen k)
  else if k ≤ 2 * highest then
    (x.dividedBy (powerOfTen highest)).dividedBy (powerOfTen (k - highest))
  else .zero

/-- The magnitude that a number is taken for, unless it is too large. -/
def magnitude? (n : Numeral) : Option Double :=
  match scientific n with
  | (0, _) => some .zero
  | (m, e) =>
    if e < 0 then some (shrink (.ofNat m) (-e).toNat)
    else if highest < e then none
    else
      let x := (Double.ofNat m).times (powerOfTen e.toNat)
      if x.isFinite then some x else none

end Outbox.Json
