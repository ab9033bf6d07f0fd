import Outbox.Text.Decimal

/-! JSON documents and their compact text. -/
namespace Outbox

/-- A JSON number: an integer, or a mantissa times a power of ten, as minus zero is. -/
inductive Number
  | integer (i : Int)
  | real (mantissa exponent : Int)
  deriving DecidableEq, Repr

/-- A JSON document. Objects keep their members in order, repeated names too. A text in whose
escapes half of a surrogate pair stands alone has no characters and is `none`. -/
inductive Json
  | null
  | bool (b : Bool)
  | number (n : Number)
  | text (s : Option String)
  | array (items : List Json)
  | object (members : List (Option String × Json))

namespace Json

def ofString (s : String) : Json := .text (some s)
def ofInt (i : Int) : Json := .number (.integer i)

def ofString? : Option String → Json
  | none => .null
  | some s => .ofString s

def record (members : List (String × Json)) : Json :=
  .object (members.map fun m => (some m.1, m.2))

def escaped (c : Char) : List Char :=
  if c = '"' then ['\\', '"']
  else if c = '\\' then ['\\', '\\']
  else if c = '\x08' then ['\\', 'b']
  else if c = '\x0c' then ['\\', 'f']
  else if c = '\n' then ['\\', 'n']
  else if c = '\r' then ['\\', 'r']
  else if c = '\t' then ['\\', 't']
  else if c.toNat < 0x20 then
    ['\\', 'u', '0', '0', Nat.digitChar (c.toNat / 16), Nat.digitChar (c.toNat % 16)]
  else [c]

/-- A text in quotes; the text without characters is written as one half of a surrogate pair. -/
def quote : Option String → List Char
  | some s => '"' :: s.toList.flatMap escaped ++ ['"']
  | none => "\"\\ud800\"".toList

end Json

def Number.chars : Number → List Char
  | .integer i => Text.decimal i
  | .real m e => Text.decimal m ++ 'e' :: Text.decimal e

namespace Json

mutual
def chars : Json → List Char
  | .null => "null".toList
  | .bool true => "true".toList
  | .bool false => "false".toList
  | .number n => n.chars
  | .text s => quote s
  | .array [] => ['[', ']']
  | .array (j :: js) => '[' :: chars j ++ itemChars js
  | .object [] => ['\x7b', '\x7d']
  | .object ((k, j) :: ms) => '\x7b' :: quote k ++ ':' :: chars j ++ memberChars ms

def itemChars : List Json → List Char
  | [] => [']']
  | j :: js => ',' :: chars j ++ itemChars js

def memberChars : List (Option String × Json) → List Char
  | [] => ['\x7d']
  | (k, j) :: ms => ',' :: quote k ++ ':' :: chars j ++ memberChars ms
end

def render (j : Json) : String := String.ofList j.chars

end Json
end Outbox
