import Outbox.Text.Hexadecimal

/-! Identifiers of 128 bits and their text: 32 hexadecimal digits in groups of 8, 4, 4, 4 and 12. -/
namespace Outbox

structure Uuid where
  bits : BitVec 128
  deriving DecidableEq

namespace Uuid

def nil : Uuid := ⟨0⟩

def ofNat (n : Nat) : Uuid := ⟨BitVec.ofNat 128 n⟩

/-- The lengths of the groups before the last. -/
def groups : List Nat := [8, 4, 4, 4]

def joinGroups : List Nat → List Char → List Char
  | [], ds => ds
  | n :: ns, ds => ds.take n ++ '-' :: joinGroups ns (ds.drop n)

def splitGroups : List Nat → List Char → Option (List Char)
  | [], cs => some cs
  | n :: ns, cs =>
    match cs.drop n with
    | '-' :: rest => (splitGroups ns rest).map (cs.take n ++ ·)
    | _ => none

def chars (u : Uuid) : List Char := joinGroups groups (Text.hexDigits 32 u.bits.toNat)

def text (u : Uuid) : String := String.ofList u.chars

instance : ToString Uuid := ⟨text⟩

/-- The identifier that 32 hexadecimal digits write. -/
def ofDigits? (cs : List Char) : Option Uuid :=
  if cs.length = 32 then (Text.ofHexDigits? cs).map ofNat else none

def ofGroups? (cs : List Char) : Option Uuid := (splitGroups groups cs).bind ofDigits?

/-- The word that may stand before the form in groups, in any case. -/
def urn : List Char := "urn:uuid:".toList

/-- Reads an identifier: plain digits, digits in groups, those in braces, or those after `urn`. -/
def read? (cs : List Char) : Option Uuid :=
  match cs with
  | '\x7b' :: rest => if rest.getLast? = some '\x7d' then ofGroups? rest.dropLast else none
  | _ =>
    if (cs.take urn.length).map Char.toLower = urn then ofGroups? (cs.drop urn.length)
    else if cs.length = 32 then ofDigits? cs
    else ofGroups? cs

def ofText? (s : String) : Option Uuid := read? s.toList

end Uuid
end Outbox
