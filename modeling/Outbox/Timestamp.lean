import Outbox.Text.Decimal

/-! Instants on the civil calendar in universal time, down to the nanosecond, and their text. -/
namespace Outbox

structure Date where
  year : Int
  month : Nat
  day : Nat
  deriving DecidableEq, Repr

namespace Date

def isLeap (year : Int) : Bool := year % 4 == 0 && (year % 100 != 0 || year % 400 == 0)

def daysIn (year : Int) (month : Nat) : Nat :=
  if month = 2 then if isLeap year then 29 else 28
  else if month = 4 ∨ month = 6 ∨ month = 9 ∨ month = 11 then 30
  else 31

def Valid (d : Date) : Prop :=
  -262143 ≤ d.year ∧ d.year ≤ 262142 ∧ 1 ≤ d.month ∧ d.month ≤ 12 ∧
    1 ≤ d.day ∧ d.day ≤ daysIn d.year d.month

instance (d : Date) : Decidable d.Valid := by unfold Valid; infer_instance

def next (d : Date) : Date :=
  if d.day < daysIn d.year d.month then ⟨d.year, d.month, d.day + 1⟩
  else if d.month < 12 then ⟨d.year, d.month + 1, 1⟩
  else ⟨d.year + 1, 1, 1⟩

def previous (d : Date) : Date :=
  if 1 < d.day then ⟨d.year, d.month, d.day - 1⟩
  else if 1 < d.month then ⟨d.year, d.month - 1, daysIn d.year (d.month - 1)⟩
  else ⟨d.year - 1, 12, 31⟩

/-- Four digits, and a sign before them where the year has more or is negative. -/
def yearText (year : Int) : List Char :=
  if year < 0 then '-' :: Text.padded 4 year.natAbs
  else if 9999 < year then '+' :: Text.padded 4 year.natAbs
  else Text.padded 4 year.natAbs

def chars (d : Date) : List Char :=
  yearText d.year ++ '-' :: Text.padded 2 d.month ++ '-' :: Text.padded 2 d.day

end Date

/-- A time of day; the second 60 is a leap second. -/
structure TimeOfDay where
  hour : Nat
  minute : Nat
  second : Nat
  nanosecond : Nat
  deriving DecidableEq, Repr

namespace TimeOfDay

def Valid (t : TimeOfDay) : Prop :=
  t.hour < 24 ∧ t.minute < 60 ∧ t.second ≤ 60 ∧ t.nanosecond < Nat.pow 10 9

instance (t : TimeOfDay) : Decidable t.Valid := by unfold Valid; infer_instance

/-- The fraction of a second in 0, 3, 6 or 9 digits, the fewest that lose nothing. -/
def fractionText (nanosecond : Nat) : List Char :=
  if nanosecond = 0 then []
  else if nanosecond % Nat.pow 10 6 = 0 then '.' :: Text.padded 3 (nanosecond / Nat.pow 10 6)
  else if nanosecond % Nat.pow 10 3 = 0 then '.' :: Text.padded 6 (nanosecond / Nat.pow 10 3)
  else '.' :: Text.padded 9 nanosecond

def chars (t : TimeOfDay) : List Char :=
  Text.padded 2 t.hour ++ ':' :: Text.padded 2 t.minute ++ ':' :: Text.padded 2 t.second ++
    fractionText t.nanosecond

end TimeOfDay

/-- An instant in universal time. -/
structure Timestamp where
  date : Date
  time : TimeOfDay
  date_valid : date.Valid
  time_valid : time.Valid
  deriving DecidableEq

namespace Timestamp

/-- The instant on a day at a time, if both exist. -/
def of? (date : Date) (time : TimeOfDay) : Option Timestamp :=
  if hd : date.Valid then if ht : time.Valid then some ⟨date, time, hd, ht⟩ else none else none

@[simp] theorem of?_self (t : Timestamp) : of? t.date t.time = some t := by
  simp [of?, t.date_valid, t.time_valid]

/-- The instant that clocks `offset` minutes ahead of universal time show as a day and a time. -/
def ofLocal? (date : Date) (time : TimeOfDay) (offset : Int) : Option Timestamp :=
  if date.Valid ∧ time.Valid then
    let minutes : Int := time.hour * 60 + time.minute - offset
    let clock (m : Int) : TimeOfDay :=
      { time with hour := (m / 60).toNat, minute := (m % 60).toNat }
    if minutes < 0 then of? date.previous (clock (minutes + 1440))
    else if minutes < 1440 then of? date (clock minutes)
    else of? date.next (clock (minutes - 1440))
  else none

def chars (t : Timestamp) : List Char := t.date.chars ++ 'T' :: t.time.chars ++ ['Z']

def text (t : Timestamp) : String := String.ofList t.chars

end Timestamp
end Outbox
