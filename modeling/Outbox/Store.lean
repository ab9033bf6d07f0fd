import Outbox.Store.Ledger

/-! The store and its units of work. A unit of work stages what it writes, and a commit makes that
durable; until it ends, it holds a claim on each aggregate it wrote and, once it has read or moved
the checkpoint, the lock on that. However it ends, what it held is free again. -/
namespace Outbox

inductive Operation
  | begin
  | commit
  | rollback
  | readSnapshot
  | readEvents
  | readRange
  | stage
  | readCheckpoint
  | moveCheckpoint
  deriving DecidableEq, Repr

def Operation.name : Operation → String
  | .begin => "Begin"
  | .commit => "Commit"
  | .rollback => "Rollback"
  | .readSnapshot => "GetSnapshot"
  | .readEvents => "GetEvents"
  | .readRange => "GetUnhandledEvents"
  | .stage => "UpdateOrCreateAggregate"
  | .readCheckpoint => "GetSubscription"
  | .moveCheckpoint => "UpdateSubscription"

/-- An aggregate whose stored version moves from one value to another. -/
structure StagedVersion where
  aggregateId : Uuid
  base : Int
  next : Int
  deriving DecidableEq

structure UnitOfWork (σ : Type) [Model σ] where
  claims : List Uuid := []
  versions : List StagedVersion := []
  events : List (EventOf σ) := []
  snapshots : List (SnapshotOf σ) := []
  /-- The transactions to be recorded, each with its aggregate. -/
  transactions : List (Uuid × Uuid) := []
  holdsCheckpoint : Bool := false
  checkpoint : Option Checkpoint := none

structure Store (σ : Type) [Model σ] where
  ledger : Ledger σ := {}
  /-- The aggregates on which some unit of work has a claim. -/
  claimed : List Uuid := []
  /-- Whether some unit of work holds the checkpoint. -/
  checkpointHeld : Bool := false
  failing : List Operation := []
  /-- Whether whoever reads pauses once it has its result. -/
  pausesAfterReads : Bool := false

def injectedFailure (op : Operation) : Error := .persistence s!"injected failure in {op.name}"

def checkpointLocked : Error := .persistence "checkpoint is locked"

namespace Ledger
variable {σ : Type} [Model σ]

def absorb (l : Ledger σ) (u : UnitOfWork σ) : Ledger σ :=
  let l := { l with
    versions := u.versions.foldl (fun v s => v.set s.aggregateId s.next) l.versions
    events := l.events ++ u.events
    snapshots := l.snapshots ++ u.snapshots }
  let l := u.transactions.foldl (fun l t => l.record t.1 t.2) l
  match u.checkpoint, u.holdsCheckpoint with
  | some c, true => { l with checkpoint := c }
  | _, _ => l

/-- The first staged version whose base is not the stored version. -/
def outdated (l : Ledger σ) (u : UnitOfWork σ) : Option StagedVersion :=
  u.versions.find? fun s => l.version s.aggregateId != s.base

end Ledger

namespace Store
variable {σ : Type} [Model σ]

def check (s : Store σ) (op : Operation) : Except Error Unit :=
  if op ∈ s.failing then .error (injectedFailure op) else .ok ()

def release (s : Store σ) (u : UnitOfWork σ) : Store σ :=
  { s with
    claimed := s.claimed.filter (· ∉ u.claims)
    checkpointHeld := s.checkpointHeld && !u.holdsCheckpoint }

@[simp] theorem release_ledger (s : Store σ) (u : UnitOfWork σ) :
    (s.release u).ledger = s.ledger := rfl

def begin (s : Store σ) : Except Error (UnitOfWork σ) :=
  match s.check .begin with
  | .error x => .error x
  | .ok () => .ok {}

def commit (s : Store σ) (u : UnitOfWork σ) : Except Error Unit × Store σ :=
  match s.check .commit with
  | .error x => (.error x, s.release u)
  | .ok () =>
    match s.ledger.outdated u with
    | some v => (.error (.conflict v.aggregateId v.base), s.release u)
    | none => (.ok (), { s with ledger := s.ledger.absorb u }.release u)

def rollback (s : Store σ) (u : UnitOfWork σ) : Except Error Unit × Store σ :=
  (s.check .rollback, s.release u)

/-- Commits a unit of work that went well and rolls one back that did not. -/
def conclude {α : Type} (s : Store σ) (u : UnitOfWork σ) :
    Except Error α → Except Error α × Store σ
  | .ok a =>
    match s.commit u with
    | (.ok (), s) => (.ok a, s)
    | (.error x, s) => (.error x, s)
  | .error cause =>
    match s.rollback u with
    | (.ok (), s) => (.error cause, s)
    | (.error x, s) => (.error (.rollbackFailed cause x), s)

def readSnapshot (s : Store σ) (id : Uuid) (before : Option Int) :
    Except Error (Option (SnapshotOf σ)) :=
  match s.check .readSnapshot with
  | .error x => .error x
  | .ok () => .ok (s.ledger.latestSnapshot id before)

def readEvents (s : Store σ) (id : Uuid) (first : Int) (last : Option Int) :
    Except Error (List (EventOf σ)) :=
  match s.check .readEvents with
  | .error x => .error x
  | .ok () => .ok (s.ledger.eventsBetween id first last)

def readRange (s : Store σ) (id : Uuid) (r : LogRange) :
    Except Error (List (EventOf σ)) :=
  match s.check .readRange with
  | .error x => .error x
  | .ok () => .ok (s.ledger.eventsIn id r)

/-- Whether a unit of work may write an aggregate that was loaded at a version. -/
def admits (s : Store σ) (u : UnitOfWork σ) (id : Uuid) (base : Int) : Bool :=
  s.ledger.version id == base && (u.claims.contains id || !s.claimed.contains id)

/-- Stages the changes of an aggregate under a transaction, with a snapshot if it is due for one,
and claims the aggregate. -/
def stage (s : Store σ) (u : UnitOfWork σ) (transactionId : Uuid) (a : Aggregate σ)
    (snapshot : Model.Snapshot σ) : Except Error Unit × UnitOfWork σ × Store σ :=
  match s.check .stage with
  | .error x => (.error x, u, s)
  | .ok () =>
    if s.admits u a.id a.baseVersion then
      let holds := u.claims.contains a.id
      let u := { u with
        claims := if holds then u.claims else u.claims ++ [a.id]
        versions := u.versions ++ [⟨a.id, a.baseVersion, a.version⟩]
        snapshots := if a.snapshotDue then u.snapshots ++ [⟨a.id, a.version, snapshot⟩]
          else u.snapshots
        events := u.events ++ a.changes
        transactions := u.transactions ++ [(transactionId, a.id)] }
      (.ok (), u, { s with claimed := if holds then s.claimed else a.id :: s.claimed })
    else (.error (.conflict a.id a.baseVersion), u, s)

/-- Reads the checkpoint and locks it; `none` if another unit of work holds it. -/
def readCheckpoint (s : Store σ) (u : UnitOfWork σ) :
    Except Error (Option Checkpoint) × UnitOfWork σ × Store σ :=
  match s.check .readCheckpoint with
  | .error x => (.error x, u, s)
  | .ok () =>
    if u.holdsCheckpoint then (.ok (some s.ledger.checkpoint), u, s)
    else if s.checkpointHeld then (.ok none, u, s)
    else
      (.ok (some s.ledger.checkpoint), { u with holdsCheckpoint := true },
        { s with checkpointHeld := true })

/-- Stages a new checkpoint, which the unit of work locks if it does not hold it. -/
def moveCheckpoint (s : Store σ) (u : UnitOfWork σ) (c : Checkpoint) :
    Except Error Unit × UnitOfWork σ × Store σ :=
  match s.check .moveCheckpoint with
  | .error x => (.error x, u, s)
  | .ok () =>
    if u.holdsCheckpoint then (.ok (), { u with checkpoint := some c }, s)
    else if s.checkpointHeld then (.error checkpointLocked, u, s)
    else
      (.ok (), { u with holdsCheckpoint := true, checkpoint := some c },
        { s with checkpointHeld := true })

/-- Loads an aggregate: its latest snapshot, then the events after it. Besides the aggregate, the
number of events taken over. -/
def load (s : Store σ) (a : Aggregate σ) : Aggregate σ × Except Error Nat :=
  match s.readSnapshot a.id none with
  | .error x => (a, .error x)
  | .ok found =>
    match a.resume found with
    | .error x => (a, .error x)
    | .ok a =>
      match s.readEvents a.id (a.version + 1) none with
      | .error x => (a, .error x)
      | .ok es =>
        match a.build es with
        | (a, .error x) => (a, .error x)
        | (a, .ok ()) => (a, .ok es.length)

end Store
end Outbox
