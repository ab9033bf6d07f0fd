/-! Decimal numerals with a point and an exponent, in the parts that they are written in. -/
namespace Outbox.Text

/-- A number as it is written: a sign, digits before and after the decimal point, an exponent. -/
structure Numeral where
  negative : Bool
  whole : List Char
  fraction : List Char := []
  exponent : Option Int := none
  deriving DecidableEq, Repr

def digits (cs : List Char) : List Char × List Char :=
  (cs.takeWhile Char.isDigit, cs.dropWhile Char.isDigit)

def exponentDigits? (cs : List Char) : Option (Nat × List Char) :=
  let (ds, r) := digits cs
  if ds.isEmpty then none else some (Nat.ofDigitChars 10 ds 0, r)

def exponentPart? (cs : List Char) : Option (Option Int × List Char) :=
  match cs with
  | [] => some (none, [])
  | c :: rest =>
    if c = 'e' ∨ c = 'E' then
      match rest with
      | '+' :: r => (exponentDigits? r).map fun (n, r) => (some (n : Int), r)
      | '-' :: r => (exponentDigits? r).map fun (n, r) => (some (-(n : Int)), r)
      | _ => (exponentDigits? rest).map fun (n, r) => (some (n : Int), r)
    else some (none, c :: rest)

end Outbox.Text
