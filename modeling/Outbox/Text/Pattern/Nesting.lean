/-! How deep the parts of a pattern are nested in one another. -/
namespace Outbox.Text.Pattern

def deepest : Nat := 250

/-- The height of parts around which there is something. -/
def heightAround (hs : List Nat) : Nat := hs.foldl max 0 + 1

/-- The height of parts side by side: a single one has no level of its own. -/
def heightOf : List Nat → Nat
  | [] => 0
  | [h] => h
  | hs => heightAround hs

structure Part where
  height : Nat := 0
  /-- Flags alone are nothing that could be repeated. -/
  isRepeatable : Bool := true
  deriving DecidableEq, Repr

/-- A set that is open: the operand on the left, if an operator was read, and what was read after
it, all by their heights. -/
structure OpenSet where
  left : Option Nat := none
  items : List Nat := []
  deriving DecidableEq, Repr

namespace OpenSet

def add (s : OpenSet) (height : Nat) : OpenSet := { s with items := height :: s.items }

def height (s : OpenSet) : Nat :=
  match s.left with
  | none => heightOf s.items
  | some left => heightAround [left, heightOf s.items]

/-- All that was read becomes the operand on the left. -/
def operate (s : OpenSet) : OpenSet := { left := some s.height }

end OpenSet
end Outbox.Text.Pattern
