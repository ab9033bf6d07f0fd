import Outbox.Store

/-! Stores with a history. -/
namespace Outbox.Ledger
variable {σ : Type} [Model σ]

/-- Adds an event as if it had been committed: its transaction is recorded where it is first seen,
and the version of its aggregate rises to that of the event. -/
def addEvent (l : Ledger σ) (e : EventOf σ) : Ledger σ :=
  let l := if (l.sequenceOf e.transactionId).isNone then l.record e.transactionId e.aggregateId
    else l
  { l with
    versions := l.versions.set e.aggregateId (max (l.version e.aggregateId) e.version)
    events := l.events ++ [e] }

end Outbox.Ledger

namespace Outbox.Store
variable {σ : Type} [Model σ]

def empty : Store σ := {}

def seedEvents (s : Store σ) (es : List (EventOf σ)) : Store σ :=
  { s with ledger := es.foldl Ledger.addEvent s.ledger }

@[simp] theorem seedEvents_append (s : Store σ) (es fs : List (EventOf σ)) :
    s.seedEvents (es ++ fs) = (s.seedEvents es).seedEvents fs := by
  simp [seedEvents]

def seedSnapshot (s : Store σ) (x : SnapshotOf σ) : Store σ :=
  { s with ledger := { s.ledger with snapshots := s.ledger.snapshots ++ [x] } }

def seedCheckpoint (s : Store σ) (last : Int) : Store σ :=
  { s with ledger := { s.ledger with checkpoint := ⟨last⟩ } }

def makeFail (s : Store σ) (op : Operation) : Store σ := { s with failing := op :: s.failing }

/-- Makes whoever reads pause once it has its result. -/
def makePause (s : Store σ) : Store σ := { s with pausesAfterReads := true }

end Outbox.Store
