import Outbox.Uuid

/-! The log of committed transactions and the mark up to which it is relayed. -/
namespace Outbox

/-- A committed transaction and its place in the log. -/
structure Transaction where
  id : Uuid
  aggregateId : Uuid
  sequence : Int
  deriving DecidableEq

/-- How far the log is relayed: up to and including a place. -/
structure Checkpoint where
  last : Int := 0
  deriving DecidableEq

def Checkpoint.covers (c : Checkpoint) (sequence : Int) : Bool := sequence ≤ c.last

/-- The places after one and up to another. -/
structure LogRange where
  after : Int
  upTo : Int
  deriving DecidableEq

namespace LogRange

def isEmpty (r : LogRange) : Bool := r.upTo ≤ r.after

def contains (r : LogRange) (sequence : Int) : Bool :=
  r.after < sequence && sequence ≤ r.upTo

end LogRange
end Outbox
