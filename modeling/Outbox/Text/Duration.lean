import Outbox.Text.Decimal

/-! Lengths of time, and their text in the largest unit of which they hold at least one. -/
namespace Outbox

/-- A length of time in nanoseconds. -/
structure Duration where
  nanoseconds : Nat
  deriving DecidableEq, Repr

namespace Duration

def ofSeconds (n : Nat) : Duration := ⟨n * 1000000000⟩
def ofMilliseconds (n : Nat) : Duration := ⟨n * 1000000⟩

/-- Whole milliseconds, rounded down. -/
def milliseconds (d : Duration) : Nat := d.nanoseconds / 1000000

def dropTrailingZeros (cs : List Char) : List Char :=
  (cs.reverse.dropWhile (· == '0')).reverse

/-- A number of units of `10 ^ places`, exactly, without needless zeros. -/
def inUnit (places n : Nat) : List Char :=
  let fraction := dropTrailingZeros (Text.padded places (n % Nat.pow 10 places))
  Nat.toDigits 10 (n / Nat.pow 10 places) ++ if fraction.isEmpty then [] else '.' :: fraction

def text (d : Duration) : String :=
  let n := d.nanoseconds
  String.ofList <|
    if Nat.pow 10 9 ≤ n then inUnit 9 n ++ ['s']
    else if Nat.pow 10 6 ≤ n then inUnit 6 n ++ ['m', 's']
    else if Nat.pow 10 3 ≤ n then inUnit 3 n ++ ['µ', 's']
    else Nat.toDigits 10 n ++ ['n', 's']

end Duration
end Outbox
