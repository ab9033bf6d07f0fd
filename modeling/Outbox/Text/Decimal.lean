/-! Decimal numerals: written without padding or with a fixed width, and read within the limits of
a kind of integer. -/
namespace Outbox.Text

/-- An integer in decimal digits, after a minus sign if it is negative. -/
def decimal (i : Int) : List Char :=
  if i < 0 then '-' :: Nat.toDigits 10 i.natAbs else Nat.toDigits 10 i.natAbs

def padded (width n : Nat) : List Char :=
  List.replicate (width - (Nat.toDigits 10 n).length) '0' ++ Nat.toDigits 10 n

@[simp] theorem ofDigitChars_padded (width n : Nat) :
    Nat.ofDigitChars 10 (padded width n) 0 = n := by
  rw [padded, Nat.ofDigitChars_append, Nat.ofDigitChars_replicate_zero, Nat.mul_zero,
    Nat.ofDigitChars_ten_toDigits]

/-- Why a text is no integer of the wanted kind. -/
inductive NumeralFault
  | empty
  | invalidDigit
  | tooLarge
  | tooSmall
  deriving DecidableEq, Repr

def NumeralFault.message : NumeralFault → String
  | .empty => "cannot parse integer from empty string"
  | .invalidDigit => "invalid digit found in string"
  | .tooLarge => "number too large to fit in target type"
  | .tooSmall => "number too small to fit in target type"

/-- The kinds of integer, by the largest number each can hold after a minus sign, if it takes one,
and without. -/
structure IntegerKind where
  below : Option Nat
  above : Nat

def IntegerKind.signed64 : IntegerKind := ⟨some (Nat.pow 2 63), Nat.pow 2 63 - 1⟩
def IntegerKind.unsigned64 : IntegerKind := ⟨none, Nat.pow 2 64 - 1⟩
def IntegerKind.unsigned32 : IntegerKind := ⟨none, Nat.pow 2 32 - 1⟩

def IntegerKind.holds (k : IntegerKind) (i : Int) : Bool :=
  if i < 0 then
    match k.below with
    | none => false
    | some b => i.natAbs ≤ b
  else i.natAbs ≤ k.above

/-- Reads digits onto a number that is already there; the first character that is no digit, or that
takes the number beyond the limit, ends it. -/
def readDigits (limit : Nat) (beyond : NumeralFault) : Nat → List Char → Except NumeralFault Nat
  | n, [] => .ok n
  | n, c :: cs =>
    if c.isDigit then
      let m := 10 * n + (c.toNat - '0'.toNat)
      if m ≤ limit then readDigits limit beyond m cs else .error beyond
    else .error .invalidDigit

def readNatural (limit : Nat) (beyond : NumeralFault) : List Char → Except NumeralFault Nat
  | [] => .error .invalidDigit
  | cs => readDigits limit beyond 0 cs

/-- Reads an integer: an optional sign, then at least one digit. Kinds without negative numbers
have no minus sign. -/
def readInteger (k : IntegerKind) : List Char → Except NumeralFault Int
  | [] => .error .empty
  | '+' :: cs => (readNatural k.above .tooLarge cs).map Int.ofNat
  | '-' :: cs =>
    match k.below with
    | none => .error .invalidDigit
    | some b => (readNatural b .tooSmall cs).map fun n => -(n : Int)
  | cs => (readNatural k.above .tooLarge cs).map Int.ofNat

end Outbox.Text
