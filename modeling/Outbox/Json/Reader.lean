import Outbox.Json
import Outbox.Text.Hexadecimal
import Outbox.Text.Numeral

/-! Reading JSON documents, strictly: one document, and nothing but blanks around it. -/
namespace Outbox.Json
namespace Reader

open Text (Numeral digits exponentPart?)

def isBlank (c : Char) : Bool := c == ' ' || c == '\n' || c == '\t' || c == '\r'

def skipBlanks (cs : List Char) : List Char := cs.dropWhile isBlank

/-- What a text is made of: characters, and the units of 16 bits that escapes give by number. -/
inductive Piece
  | char (c : Char)
  | unit (n : Nat)
  deriving DecidableEq, Repr

def shortEscape? (c : Char) : Option Char :=
  if c = '"' ∨ c = '\\' ∨ c = '/' then some c
  else if c = 'b' then some '\x08'
  else if c = 'f' then some '\x0c'
  else if c = 'n' then some '\n'
  else if c = 'r' then some '\r'
  else if c = 't' then some '\t'
  else none

def pieces? : List Char → Option (List Piece × List Char)
  | [] => none
  | '"' :: rest => some ([], rest)
  | '\\' :: 'u' :: a :: b :: c :: d :: rest =>
    match Text.ofHexDigits? [a, b, c, d], pieces? rest with
    | some n, some (ps, r) => some (.unit n :: ps, r)
    | _, _ => none
  | '\\' :: c :: rest =>
    match shortEscape? c, pieces? rest with
    | some e, some (ps, r) => some (.char e :: ps, r)
    | _, _ => none
  | c :: rest =>
    if c = '\\' ∨ c.toNat < 0x20 then none
    else
      match pieces? rest with
      | some (ps, r) => some (.char c :: ps, r)
      | none => none

def isHighSurrogate (n : Nat) : Bool := 0xd800 ≤ n && n < 0xdc00
def isLowSurrogate (n : Nat) : Bool := 0xdc00 ≤ n && n < 0xe000

/-- The characters of a text, unless half of a surrogate pair stands alone in it. -/
def assemble? : List Piece → Option (List Char)
  | [] => some []
  | .char c :: ps => (assemble? ps).map (c :: ·)
  | .unit h :: .unit l :: ps =>
    if isHighSurrogate h then
      if isLowSurrogate l then
        (assemble? ps).map (Char.ofNat (0x10000 + (h - 0xd800) * 0x400 + (l - 0xdc00)) :: ·)
      else none
    else if isLowSurrogate h then none
    else (assemble? (.unit l :: ps)).map (Char.ofNat h :: ·)
  | .unit n :: ps =>
    if isHighSurrogate n || isLowSurrogate n then none
    else (assemble? ps).map (Char.ofNat n :: ·)

def text? (cs : List Char) : Option (Option String × List Char) :=
  (pieces? cs).map fun (ps, r) => ((assemble? ps).map String.ofList, r)

def wholePart? (cs : List Char) : Option (List Char × List Char) :=
  match cs with
  | '0' :: c :: rest => if c.isDigit then none else some (['0'], c :: rest)
  | '0' :: [] => some (['0'], [])
  | _ => let (ds, r) := digits cs; if ds.isEmpty then none else some (ds, r)

def fractionPart? (cs : List Char) : Option (List Char × List Char) :=
  match cs with
  | '.' :: rest => let (ds, r) := digits rest; if ds.isEmpty then none else some (ds, r)
  | _ => some ([], cs)

def number (n : Numeral) : Number :=
  let digits := Nat.ofDigitChars 10 (n.whole ++ n.fraction) 0
  let mantissa : Int := if n.negative then -(digits : Int) else digits
  if n.fraction.isEmpty && n.exponent.isNone && !(n.negative && digits == 0) then .integer mantissa
  else .real mantissa (n.exponent.getD 0 - n.fraction.length)

def numeral? (negative : Bool) (cs : List Char) : Option (Numeral × List Char) := do
  let (whole, cs) ← wholePart? cs
  let (fraction, cs) ← fractionPart? cs
  let (exponent, cs) ← exponentPart? cs
  return (⟨negative, whole, fraction, exponent⟩, cs)

def unsigned? (negative : Bool) (cs : List Char) : Option (Number × List Char) :=
  (numeral? negative cs).map fun (n, r) => (number n, r)

def number? (cs : List Char) : Option (Number × List Char) :=
  match cs with
  | '-' :: rest => unsigned? true rest
  | _ => unsigned? false cs

mutual
/-- Reads a document from the front of a text; the first argument bounds the depth of calls. -/
def value? : Nat → List Char → Option (Json × List Char)
  | 0, _ => none
  | n + 1, cs =>
    match skipBlanks cs with
    | 'n' :: 'u' :: 'l' :: 'l' :: r => some (.null, r)
    | 't' :: 'r' :: 'u' :: 'e' :: r => some (.bool true, r)
    | 'f' :: 'a' :: 'l' :: 's' :: 'e' :: r => some (.bool false, r)
    | '"' :: r => (text? r).map fun (s, r) => (.text s, r)
    | '[' :: r =>
      match skipBlanks r with
      | ']' :: r => some (.array [], r)
      | r => (items? n r).map fun (js, r) => (.array js, r)
    | '\x7b' :: r =>
      match skipBlanks r with
      | '\x7d' :: r => some (.object [], r)
      | r => (members? n r).map fun (ms, r) => (.object ms, r)
    | cs => (number? cs).map fun (m, r) => (.number m, r)

def items? : Nat → List Char → Option (List Json × List Char)
  | 0, _ => none
  | n + 1, cs =>
    match value? n cs with
    | none => none
    | some (j, r) =>
      match skipBlanks r with
      | ']' :: r => some ([j], r)
      | ',' :: r => (items? n r).map fun (js, r) => (j :: js, r)
      | _ => none

def members? : Nat → List Char → Option (List (Option String × Json) × List Char)
  | 0, _ => none
  | n + 1, cs =>
    match skipBlanks cs with
    | '"' :: r =>
      match text? r with
      | none => none
      | some (k, r) =>
        match skipBlanks r with
        | ':' :: r =>
          match value? n r with
          | none => none
          | some (j, r) =>
            match skipBlanks r with
            | '\x7d' :: r => some ([(k, j)], r)
            | ',' :: r => (members? n r).map fun (ms, r) => ((k, j) :: ms, r)
            | _ => none
        | _ => none
    | _ => none
end

end Reader

open Reader in
def read? (cs : List Char) : Option Json :=
  match value? (2 * cs.length + 2) cs with
  | some (j, r) => if r.all isBlank then some j else none
  | none => none

def ofText? (s : String) : Option Json := read? s.toList

end Outbox.Json
