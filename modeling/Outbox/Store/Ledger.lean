import Outbox.Aggregate
import Outbox.Store.Order
import Outbox.Transaction

/-! What is durable: the version of every aggregate, the events and snapshots in the order of their
commits, the log of transactions and the checkpoint of the relay. -/
namespace Outbox

structure Versions where
  entries : List (Uuid × Int) := []
  deriving DecidableEq

namespace Versions

def get? (v : Versions) (id : Uuid) : Option Int := v.entries.lookup id

def set (v : Versions) (id : Uuid) (version : Int) : Versions :=
  ⟨(id, version) :: v.entries.filter (·.1 != id)⟩

theorem lookup_filter_ne {id id' : Uuid} (h : id' ≠ id) (es : List (Uuid × Int)) :
    (es.filter (·.1 != id)).lookup id' = es.lookup id' := by
  induction es with
  | nil => rfl
  | cons e es ih =>
    obtain ⟨k, v⟩ := e
    by_cases hk : k = id
    · subst hk; simp [List.lookup_cons, ih, beq_eq_false_iff_ne.2 h]
    · simp [List.lookup_cons, ih, hk]

@[simp] theorem get?_set (v : Versions) (id id' : Uuid) (version : Int) :
    (v.set id version).get? id' = if id' = id then some version else v.get? id' := by
  by_cases h : id' = id
  · simp [get?, set, h]
  · simp [get?, set, List.lookup_cons, h, beq_eq_false_iff_ne.2 h, lookup_filter_ne h]

end Versions

structure Ledger (σ : Type) [Model σ] where
  versions : Versions := {}
  events : List (EventOf σ) := []
  snapshots : List (SnapshotOf σ) := []
  log : List Transaction := []
  checkpoint : Checkpoint := {}

namespace Ledger
variable {σ : Type} [Model σ]

def version (l : Ledger σ) (id : Uuid) : Int := (l.versions.get? id).getD 0

def nextSequence (l : Ledger σ) : Int :=
  match l.log.getLast? with
  | none => 1
  | some t => t.sequence + 1

def record (l : Ledger σ) (id aggregateId : Uuid) : Ledger σ :=
  { l with log := l.log ++ [⟨id, aggregateId, l.nextSequence⟩] }

def sequenceOf (l : Ledger σ) (id : Uuid) : Option Int :=
  (l.log.find? (·.id == id)).map (·.sequence)

def eventsOf (l : Ledger σ) (id : Uuid) : List (EventOf σ) :=
  Order.sortBy Event.version (l.events.filter (·.aggregateId == id))

def snapshotsOf (l : Ledger σ) (id : Uuid) : List (SnapshotOf σ) :=
  Order.sortBy Snapshot.version (l.snapshots.filter (·.aggregateId == id))

/-- Whether a version lies below a bound, if there is one. -/
def isBelow (bound : Option Int) (version : Int) : Bool :=
  match bound with
  | none => true
  | some b => version < b

def isUpTo (bound : Option Int) (version : Int) : Bool :=
  match bound with
  | none => true
  | some b => version ≤ b

def latestSnapshot (l : Ledger σ) (id : Uuid) (before : Option Int) : Option (SnapshotOf σ) :=
  Order.latestBy Snapshot.version
    (l.snapshots.filter fun s => s.aggregateId == id && isBelow before s.version)

def eventsBetween (l : Ledger σ) (id : Uuid) (first : Int) (last : Option Int) :
    List (EventOf σ) :=
  Order.sortBy Event.version
    (l.events.filter fun e =>
      e.aggregateId == id && first ≤ e.version && isUpTo last e.version)

def isInRange (l : Ledger σ) (r : LogRange) (e : EventOf σ) : Bool :=
  match l.sequenceOf e.transactionId with
  | none => false
  | some s => r.contains s

def eventsIn (l : Ledger σ) (id : Uuid) (r : LogRange) : List (EventOf σ) :=
  Order.sortBy Event.version (l.events.filter fun e => e.aggregateId == id && l.isInRange r e)

end Ledger
end Outbox
