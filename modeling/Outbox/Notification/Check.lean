import Outbox.Double.Shortest
import Outbox.Json.Document
import Outbox.Json.Fault
import Outbox.Text.Quoted

/-! What is wrong with a text that is no notification. The text is gone through once from its front,
and what is wrong first is told. -/
namespace Outbox.Notification.Check

open Json (Fault)
open Json.Reader (skipBlanks)
open Text (Numeral)

inductive FieldKind
  | id
  | text
  deriving DecidableEq, Repr

def fields : List (String × FieldKind) :=
  [("id", .id), ("aggregate_id", .id), ("sequence_id", .text)]

def FieldKind.wanted : FieldKind → String
  | .id => "a formatted UUID string"
  | .text => "a string"

def wrongKind (found wanted : String) : String := s!"invalid type: {found}, expected {wanted}"

def wantedRecord : String := "struct TransactionNotification"

def ticked (name : String) : String := s!"`{name}`"

/-- A decimal as faults show it: with at least one digit after the point, and with an exponent and
its sign where the first digit stands for less than `10 ^ -5` or for `10 ^ 16` or more. -/
def shownDecimal (d : Decimal) : String :=
  if -5 ≤ d.exponent ∧ d.exponent < 16 then
    let (whole, fraction) := d.positional
    String.ofList (whole ++ '.' :: if fraction.isEmpty then ['0'] else fraction)
  else
    let fraction := if d.digits.length ≤ 1 then [] else '.' :: d.digits.drop 1
    String.ofList (d.digits.take 1 ++ fraction ++ ['e', if d.exponent < 0 then '-' else '+'] ++
      Nat.toDigits 10 d.exponent.natAbs)

/-- A number that is no integer of 64 bits; of two decimals that are equally near, the one whose last
digit is even. -/
def shownReal (negative : Bool) (x : Double) : String :=
  (if negative then "-" else "") ++ shownDecimal (x.shortest .toEven)

def numberName? (n : Numeral) : Option String :=
  let real := (Json.magnitude? n).map fun x => s!"floating point {ticked (shownReal n.negative x)}"
  match Json.Reader.number n with
  | .integer i =>
    if Text.IntegerKind.signed64.holds i || Text.IntegerKind.unsigned64.holds i then
      some s!"integer {ticked (String.ofList (Text.decimal i))}"
    else real
  | .real .. => real

/-- Goes over the digits of an exponent until it is out of bounds. -/
def pastExponent : Nat → List Char → List Char
  | _, [] => []
  | n, c :: cs =>
    if c.isDigit then
      let m := 10 * n + (c.toNat - '0'.toNat)
      if m < Nat.pow 2 31 then pastExponent m cs else cs
    else c :: cs

/-- Goes over a number that is too large, written from its exponent on or without one: that is told
once it is read, or once its exponent is out of bounds. -/
def pastTooLarge (cs : List Char) : List Char :=
  match cs with
  | [] => []
  | c :: r =>
    if c = 'e' ∨ c = 'E' then
      match r with
      | '+' :: r => pastExponent 0 r
      | r => pastExponent 0 r
    else cs

/-- The fault of a number, after its sign, where something else is wanted. -/
def unwantedNumber (wanted : String) (negative : Bool) (cs : List Char) : Fault :=
  match Fault.number true cs, Json.Reader.numeral? negative cs with
  | .error f, _ => f
  | .ok r, none => ⟨Fault.invalidNumber, r, 0⟩
  | .ok r, some (n, _) =>
    match numberName? n with
    | some name => ⟨wrongKind name wanted, r, 0⟩
    | none =>
      ⟨Fault.numberTooLarge, pastTooLarge (cs.dropWhile fun c => c.isDigit || c == '.'), 0⟩

def unwanted (wanted : String) (cs : List Char) : Fault :=
  let after (found : String) : Except Fault (List Char) → Fault
    | .error f => f
    | .ok r => ⟨wrongKind found wanted, r, 0⟩
  match cs with
  | [] => ⟨Fault.endInValue, [], 0⟩
  | 'n' :: r => after "null" (Fault.word "ull".toList r)
  | 't' :: r => after ("boolean " ++ ticked "true") (Fault.word "rue".toList r)
  | 'f' :: r => after ("boolean " ++ ticked "false") (Fault.word "alse".toList r)
  | '-' :: r => unwantedNumber wanted true r
  | '"' :: r =>
    let content := ((Json.Reader.text? r).bind (·.1)).getD ""
    after s!"string {Text.quoted content}" (Fault.text true r)
  | '[' :: r => ⟨wrongKind "sequence" wanted, '[' :: r, 0⟩
  | '\x7b' :: r => ⟨wrongKind "map" wanted, '\x7b' :: r, 0⟩
  | c :: r =>
    if c.isDigit then unwantedNumber wanted false (c :: r)
    else Fault.onNext Fault.noValue (c :: r)

def groupLengths : List Nat := [8, 4, 4, 4]

def wrongLength (group expected found : Nat) : String :=
  s!"invalid group length in group {group}: expected {expected}, found {found}"

def wrongGroup : Nat → List Nat → List (List Char) → Option String
  | i, n :: ns, g :: gs =>
    if g.length = n then wrongGroup (i + 1) ns gs else some (wrongLength i n g.length)
  | _, _, _ => none

def longestId : Nat := 45

def groupedId : Nat := 36

def lastGroupStart : Nat := 24

/-- Why so many bytes of text are no identifier: something else than digits and hyphens in it, its
place counted from an offset on, or digits and hyphens in a wrong number. The last of five groups is
told to take all the bytes from where it would start. -/
def partFault (cs : List Char) (offset size : Nat) (mayBePlain : Bool) : String :=
  let isPart (c : Char) : Bool := c == '-' || (Text.hexValue? c).isSome
  match cs.dropWhile isPart with
  | c :: _ =>
    let place := (cs.takeWhile isPart).length + offset
    s!"invalid character: found {ticked (String.ofList [c])} at {place}"
  | [] =>
    let groups := cs.splitOn '-'
    if groups.length = 1 && mayBePlain then s!"invalid length: found {size}"
    else if groups.length ≠ 5 then s!"invalid group count: expected 5, found {groups.length}"
    else (wrongGroup 0 groupLengths groups).getD (wrongLength 4 12 (size - lastGroupStart))

/-- Why what stands within something else, behind so many bytes of it, is no identifier. Of what is
as long as an identifier in groups nothing else is looked at. -/
def innerFault (cs : List Char) (offset size : Nat) : String :=
  if (String.ofList cs).utf8ByteSize = groupedId then partFault cs 0 groupedId false
  else partFault cs offset size false

/-- Why a text is no identifier. What is as long as an identifier in groups is taken for one; else
braces or a word may stand around it. -/
def idFault (s : String) : String :=
  let cs := s.toList
  let size := s.utf8ByteSize
  if longestId < size then s!"invalid length: found {size}"
  else if size = groupedId then partFault cs 0 groupedId false
  else if cs.head? = some '\x7b' && 2 ≤ cs.length && cs.getLast? = some '\x7d' then
    innerFault cs.tail.dropLast 1 size
  else if (cs.take Uuid.urn.length).map Char.toLower = Uuid.urn then
    innerFault (cs.drop Uuid.urn.length) Uuid.urn.length size
  else partFault cs 0 size true

def field (kind : FieldKind) (cs : List Char) : Except Fault (List Char) :=
  match skipBlanks cs with
  | '"' :: r =>
    match Fault.text true r with
    | .error f => .error f
    | .ok rest =>
      let content := ((Json.Reader.text? r).bind (·.1)).getD ""
      if kind = .id && (Uuid.ofText? content).isNone then
        .error ⟨s!"UUID parsing failed: {idFault content}", rest, 0⟩
      else .ok rest
  | r => .error (unwanted kind.wanted r)

/-- What follows an object or an array that ends early here, when its end comes next. -/
def pastEnd (mark : Char) (cs : List Char) : List Char :=
  match skipBlanks cs with
  | c :: r => if c = mark then r else c :: r
  | [] => []

/-- Goes over the quote before the name of a member, and the comma before all but the first. -/
def nameQuote (isFirst : Bool) (cs : List Char) : Except Fault (List Char) :=
  let name (cs : List Char) : Except Fault (List Char) :=
    match cs with
    | [] => .error ⟨Fault.endInValue, [], 0⟩
    | '"' :: r => .ok r
    | '\x7d' :: _ => .error (Fault.onNext Fault.trailingComma cs)
    | _ => .error (Fault.onNext Fault.keyNoText cs)
  if isFirst then name cs
  else
    match cs with
    | ',' :: r => name (skipBlanks r)
    | _ => .error (Fault.onNext Fault.noObjectEnd cs)

def missing (seen : List String) : Option String :=
  (fields.find? fun f => !seen.contains f.1).map (·.1)

/-- Goes over the members of an object and its end, having seen some fields. -/
def members : Nat → List String → Bool → List Char → Except Fault (List Char)
  | 0, _, _, cs => .error ⟨Fault.noValue, cs, 0⟩
  | n + 1, seen, isFirst, cs =>
    match skipBlanks cs with
    | [] => .error ⟨Fault.endInObject, [], 0⟩
    | '\x7d' :: r =>
      match missing seen with
      | some name => .error ⟨s!"missing field {ticked name}", r, 0⟩
      | none => .ok r
    | cs =>
      match nameQuote isFirst cs with
      | .error f => .error f
      | .ok r =>
        match Fault.text true r with
        | .error f => .error f
        | .ok rest =>
          let name := ((Json.Reader.text? r).bind (·.1)).getD ""
          if seen.contains name then
            .error ⟨s!"duplicate field {ticked name}", pastEnd '\x7d' rest, 0⟩
          else
            match Fault.colon rest with
            | .error f => .error f
            | .ok rest =>
              match fields.lookup name with
              | some kind =>
                match field kind rest with
                | .error f => .error f
                | .ok rest => members n (name :: seen) false rest
              | none =>
                match Fault.value (2 * rest.length + 2) rest with
                | .error f => .error f
                | .ok rest => members n seen false rest

def itemStart (isFirst : Bool) (cs : List Char) : Except Fault (List Char) :=
  if isFirst then .ok cs
  else
    match cs with
    | ',' :: r =>
      match skipBlanks r with
      | [] => .error ⟨Fault.endInValue, [], 0⟩
      | ']' :: r => .error (Fault.onNext Fault.trailingComma (']' :: r))
      | r => .ok r
    | _ => .error (Fault.onNext Fault.noListEnd cs)

def arrayEnd (cs : List Char) : Except Fault (List Char) :=
  match skipBlanks cs with
  | [] => .error ⟨Fault.endInList, [], 0⟩
  | ']' :: r => .ok r
  | ',' :: r =>
    match skipBlanks r with
    | ']' :: r => .error (Fault.onNext Fault.trailingComma (']' :: r))
    | r => .error (Fault.onNext Fault.trailingCharacters r)
  | r => .error (Fault.onNext Fault.trailingCharacters r)

/-- Goes over the items of an array, one for each field; `i` is the index of the first. -/
def items : Nat → List (String × FieldKind) → List Char → Except Fault (List Char)
  | _, [], cs => arrayEnd cs
  | i, (_, kind) :: more, cs =>
    match skipBlanks cs with
    | [] => .error ⟨Fault.endInList, [], 0⟩
    | ']' :: r => .error ⟨s!"invalid length {i}, expected {wantedRecord} with 3 elements", r, 0⟩
    | cs =>
      match itemStart (i == 0) cs with
      | .error f => .error f
      | .ok cs =>
        match field kind cs with
        | .error f => .error f
        | .ok cs => items (i + 1) more cs

def record (cs : List Char) : Except Fault (List Char) :=
  match skipBlanks cs with
  | [] => .error ⟨Fault.endInValue, [], 0⟩
  | '[' :: r => items 0 fields r
  | '\x7b' :: r => members (cs.length + 1) [] true r
  | r => .error (unwanted wantedRecord r)

def fault? (payload : String) : Option String :=
  match record payload.toList with
  | .error f => some (f.message payload)
  | .ok rest =>
    match Fault.finish rest with
    | .error f => some (f.message payload)
    | .ok () => none

end Outbox.Notification.Check
