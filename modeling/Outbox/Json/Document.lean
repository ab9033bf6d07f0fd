import Outbox.Json.Magnitude
import Outbox.Json.Reader
import Outbox.Uuid
import Outbox.Timestamp.Reader

/-! Types that are stored as JSON documents. A record is an object, or an array of its fields in
order; an object may hold more members than the record has fields, but none of its fields twice. -/
namespace Outbox

namespace Json

def bool? : Json → Option Bool
  | .bool b => some b
  | _ => none

def string? : Json → Option String
  | .text s => s
  | _ => none

def stringOrNull? : Json → Option (Option String)
  | .null => some none
  | j => j.string?.map some

def integer? (k : Text.IntegerKind) : Json → Option Int
  | .number (.integer i) => if k.holds i then some i else none
  | _ => none

def uuid? (j : Json) : Option Uuid := j.string?.bind Uuid.ofText?

def timestamp? (j : Json) : Option Timestamp := j.string?.bind Timestamp.ofText?

def ofUuid (u : Uuid) : Json := ofString u.text

def ofTimestamp (t : Timestamp) : Json := ofString t.text

def member? (members : List (Option String × Json)) (name : String) : Option Json :=
  (members.find? fun m => m.1 == some name).map (·.2)

/-- All names have characters, and none of the given names stands twice. -/
def distinct (names : List String) (members : List (Option String × Json)) : Bool :=
  members.all (·.1.isSome) &&
    names.all fun n => (members.filter fun m => m.1 == some n).length ≤ 1

def members? (names : List String) : Json → Option (List (Option Json))
  | .object members => if distinct names members then some (names.map (member? members)) else none
  | _ => none

def fields? (names : List String) : Json → Option (List (Option Json))
  | .array items => if items.length = names.length then some (items.map some) else none
  | j => Json.members? names j

end Json

def Number.numeral : Number → Text.Numeral
  | .integer i => { negative := i < 0, whole := Nat.toDigits 10 i.natAbs }
  | .real m e => { negative := m < 0, whole := Nat.toDigits 10 m.natAbs, exponent := some e }

/-- Whether a number is not too large to be kept before its meaning is known. -/
def Number.isFinite (n : Number) : Bool := (Json.magnitude? n.numeral).isSome

namespace Json

mutual
/-- Whether a document can be kept before its meaning is known: at most so many levels of arrays and
objects, every text and name with its characters, no number too large. -/
def isWhole : Nat → Json → Bool
  | _, .null => true
  | _, .bool _ => true
  | _, .number n => n.isFinite
  | _, .text s => s.isSome
  | levels, .array items => levels != 0 && areWholeItems (levels - 1) items
  | levels, .object members => levels != 0 && areWholeMembers (levels - 1) members

def areWholeItems : Nat → List Json → Bool
  | _, [] => true
  | levels, j :: js => isWhole levels j && areWholeItems levels js

def areWholeMembers : Nat → List (Option String × Json) → Bool
  | _, [] => true
  | levels, (k, j) :: ms => k.isSome && isWhole levels j && areWholeMembers levels ms
end

/-- The deepest nesting of a document that is kept before its meaning is known. -/
def deepest : Nat := 127

end Json

/-- A type with a JSON form; reading is told how many arrays and objects stand around it. -/
class Document (α : Type) where
  toJson : α → Json
  ofJson? : Nat → Json → Option α

namespace Document
variable {α : Type} [Document α]

def encode (x : α) : String := (toJson x).render

def decode? (s : String) : Option α := (Json.ofText? s).bind (ofJson? 0)

end Document
end Outbox
