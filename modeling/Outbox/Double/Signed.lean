import Outbox.Double.Shortest
import Outbox.Text.Numeral

/-! Numbers of double precision with a sign, the infinite ones and the undefined one. -/
namespace Outbox

inductive SignedDouble
  | finite (negative : Bool) (magnitude : Double)
  | infinite (negative : Bool)
  | undefined
  deriving DecidableEq, Repr

namespace SignedDouble
open Text (digits exponentPart?)

def ofDecimal (negative : Bool) (mantissa : Nat) (exponent : Int) : SignedDouble :=
  let x := Double.ofDecimal mantissa exponent
  if x.isFinite then finite negative x else infinite negative

/-- Reads digits, with a decimal point among them or not, and an exponent if there is one. -/
def readDecimal? (negative : Bool) (cs : List Char) : Option SignedDouble :=
  let (whole, cs) := digits cs
  let (fraction, cs) := match cs with
    | '.' :: r => digits r
    | _ => ([], cs)
  if whole.isEmpty && fraction.isEmpty then none
  else
    match exponentPart? cs with
    | some (exponent, []) =>
      some (ofDecimal negative (Nat.ofDigitChars 10 (whole ++ fraction) 0)
        (exponent.getD 0 - fraction.length))
    | _ => none

/-- Reads a number after its sign; the words may be in any case. -/
def readUnsigned? (negative : Bool) (cs : List Char) : Option SignedDouble :=
  let word := String.ofList (cs.map Char.toLower)
  if word = "nan" then some undefined
  else if word = "inf" ∨ word = "infinity" then some (infinite negative)
  else readDecimal? negative cs

def read? : List Char → Option SignedDouble
  | '+' :: cs => readUnsigned? false cs
  | '-' :: cs => readUnsigned? true cs
  | cs => readUnsigned? false cs

def sign (negative : Bool) : String := if negative then "-" else ""

/-- A number without an exponent, and without a decimal point where nothing follows it. Of two
decimals that are equally near it is the greater one. -/
def text : SignedDouble → String
  | finite negative x =>
    let (whole, fraction) := (x.shortest .up).positional
    sign negative ++ String.ofList (if fraction.isEmpty then whole else whole ++ '.' :: fraction)
  | infinite negative => sign negative ++ "inf"
  | undefined => "NaN"

/-- The place of a number in their order, in which the two zeros are one. -/
def key : SignedDouble → Int
  | finite negative x => if negative then -x.units else x.units
  | infinite negative => if negative then -Double.bound else Double.bound
  | undefined => 0

end SignedDouble
end Outbox
