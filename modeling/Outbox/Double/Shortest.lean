import Outbox.Double

/-! The shortest decimal that tells a magnitude of double precision from all others; of the shortest
the one nearest to the magnitude. -/
namespace Outbox

/-- A number in decimal: its digits, from the first that counts to the last that does, and the power
of ten that the first stands for. -/
structure Decimal where
  digits : List Char
  exponent : Int
  deriving DecidableEq, Repr

/-- Which of two whole numbers is taken for what lies right between them. -/
inductive Tie
  | toEven
  | up
  deriving DecidableEq, Repr

namespace Tie

def nearest : Tie → Nat → Nat → Nat
  | toEven, n, d => Outbox.nearest n d
  | up, n, d => (2 * n + d) / (2 * d)

end Tie

namespace Double

/-- What lies nearer to a magnitude than to any other, in quarters of a unit: from where to where,
and whether both ends belong to it. -/
structure Surroundings where
  low : Nat
  high : Nat
  closed : Bool
  deriving DecidableEq, Repr

/-- Below a power of two magnitudes lie closer together than above it. -/
def surroundings (x : Double) : Surroundings :=
  let g := gap x.units
  let below := if x.units = Nat.pow 2 x.units.log2 ∧ 1 < g then g else 2 * g
  ⟨4 * x.units - below, 4 * x.units + 2 * g, x.units / g % 2 == 0⟩

def Surroundings.holds (s : Surroundings) (n : Nat) : Bool :=
  if s.closed then s.low ≤ n && n ≤ s.high else s.low < n && n < s.high

def places : Nat := 1074

def exact (x : Double) : Nat := x.units * Nat.pow 5 places

/-- The multiple of a power of ten that lies nearest to a magnitude and in its surroundings, if one
does; everything is in units of the last decimal place. -/
def onGrid? (x : Double) (tie : Tie) (step : Nat) : Option Nat :=
  let s := x.surroundings
  let area : Surroundings := ⟨s.low * Nat.pow 5 places, s.high * Nat.pow 5 places, s.closed⟩
  let k := tie.nearest x.exact step
  if area.holds (4 * (k * step)) then some k
  else
    let k := x.exact / step
    if area.holds (4 * (k * step)) then some k
    else if area.holds (4 * ((k + 1) * step)) then some (k + 1)
    else none

def trimZeros (ds : List Char) : List Char := (ds.reverse.dropWhile (· == '0')).reverse

/-- The shortest decimal of a magnitude; 17 digits are always enough. -/
def shortest (x : Double) (tie : Tie) : Decimal :=
  let size := (Nat.toDigits 10 x.exact).length
  let found := (List.range 17).findSome? fun i =>
    (x.onGrid? tie (Nat.pow 10 (size - (i + 1)))).map fun k => (i + 1, Nat.toDigits 10 k)
  match x.units, found with
  | 0, _ => ⟨['0'], 0⟩
  | _, none => ⟨['0'], 0⟩
  | _, some (n, ds) => ⟨trimZeros ds, (size : Int) - places - 1 + (ds.length - n : Nat)⟩

end Double

namespace Decimal

def positional (d : Decimal) : List Char × List Char :=
  if d.exponent < 0 then
    (['0'], List.replicate (-d.exponent - 1).toNat '0' ++ d.digits)
  else
    let n := d.exponent.toNat + 1
    (d.digits.take n ++ List.replicate (n - d.digits.length) '0', d.digits.drop n)

end Decimal
end Outbox
