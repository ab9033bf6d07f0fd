import Outbox.Timestamp
import Outbox.Text.Blank

/-! Reading an instant from a day, a time of day and the zone it is told in. Blanks may stand before
each number and each mark, and a day may be parted from its time by a blank. -/
namespace Outbox.Timestamp

def skipBlanks (cs : List Char) : List Char := cs.dropWhile Text.isBlank

/-- Reads at least one and at most `most` digits. -/
def number? (most : Nat) (cs : List Char) : Option (Nat × List Char) :=
  let ds := (cs.take most).takeWhile Char.isDigit
  if ds.isEmpty then none else some (Nat.ofDigitChars 10 ds 0, cs.drop ds.length)

def mark? (m : Char) : List Char → Option (List Char)
  | [] => none
  | c :: cs => if c = m then some cs else none

/-- Reads a year: four digits at most, or any number of them after a sign. -/
def year? (cs : List Char) : Option (Int × List Char) :=
  match cs with
  | '-' :: rest => (number? rest.length rest).map fun (n, r) => (-(n : Int), r)
  | '+' :: rest => (number? rest.length rest).map fun (n, r) => ((n : Int), r)
  | _ => (number? 4 cs).map fun (n, r) => ((n : Int), r)

def date? (cs : List Char) : Option (Date × List Char) := do
  let (year, cs) ← year? (skipBlanks cs)
  let cs ← mark? '-' (skipBlanks cs)
  let (month, cs) ← number? 2 (skipBlanks cs)
  let cs ← mark? '-' (skipBlanks cs)
  let (day, cs) ← number? 2 (skipBlanks cs)
  return (⟨year, month, day⟩, cs)

def parting? : List Char → Option (List Char)
  | [] => none
  | c :: cs => if c = 'T' ∨ c = 't' ∨ c = ' ' then some cs else none

/-- Reads the fraction of a second, if there is one; digits after the ninth say nothing. -/
def fraction? (cs : List Char) : Option (Nat × List Char) :=
  match cs with
  | '.' :: rest =>
    let ds := rest.takeWhile Char.isDigit
    if ds.isEmpty then none
    else
      let nine := ds.take 9
      some (Nat.ofDigitChars 10 nine 0 * Nat.pow 10 (9 - nine.length), rest.dropWhile Char.isDigit)
  | _ => some (0, cs)

def time? (cs : List Char) : Option (TimeOfDay × List Char) := do
  let (hour, cs) ← number? 2 (skipBlanks cs)
  let cs ← mark? ':' (skipBlanks cs)
  let (minute, cs) ← number? 2 (skipBlanks cs)
  let cs ← mark? ':' (skipBlanks cs)
  let (second, cs) ← number? 2 (skipBlanks cs)
  let (nanosecond, cs) ← fraction? cs
  return (⟨hour, minute, second, nanosecond⟩, cs)

def twoDigits? (limit : Nat) : List Char → Option (Nat × List Char)
  | c :: d :: cs =>
    if c.isDigit ∧ d.isDigit then
      let n := Nat.ofDigitChars 10 [c, d] 0
      if n < limit then some (n, cs) else none
    else none
  | _ => none

def hoursMinutes? (cs : List Char) : Option (Nat × List Char) := do
  let (hours, cs) ← twoDigits? 24 cs
  let (minutes, cs) ← twoDigits? 60 (cs.dropWhile fun c => c == ':' || Text.isBlank c)
  return (hours * 60 + minutes, cs)

/-- Reads how many minutes the clocks of a zone are ahead of universal time. -/
def zone? (cs : List Char) : Option (Int × List Char) :=
  if (cs.take 3).map Char.toLower = ['u', 't', 'c'] then some (0, cs.drop 3)
  else
    match cs with
    | 'Z' :: rest => some (0, rest)
    | 'z' :: rest => some (0, rest)
    | '+' :: rest => (hoursMinutes? rest).map fun (n, r) => ((n : Int), r)
    | '-' :: rest => (hoursMinutes? rest).map fun (n, r) => (-(n : Int), r)
    | '−' :: rest => (hoursMinutes? rest).map fun (n, r) => (-(n : Int), r)
    | _ => none

def read? (cs : List Char) : Option Timestamp := do
  let (date, cs) ← date? cs
  let cs ← parting? cs
  let (time, cs) ← time? cs
  let (offset, cs) ← zone? (skipBlanks cs)
  if Text.allBlank cs then ofLocal? date time offset else none

def ofText? (s : String) : Option Timestamp := read? s.toList

end Outbox.Timestamp
