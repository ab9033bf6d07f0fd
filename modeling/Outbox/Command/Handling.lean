import Outbox.World

/-! Handling a command: load the aggregate, let the wanted events happen, stage them, save the
projection, and commit. A handling goes on step by step; each step works with the answer to the
last call and makes the next one, so between two steps it waits for an answer. -/
namespace Outbox

structure Receipt where
  aggregateId : Uuid
  transactionId : Uuid
  version : Int
  deriving DecidableEq

/-- How far a handling is, with the unit of work it has open and the answer it was given. -/
inductive Handling.Stage (σ : Type) [Model σ]
  | waiting
  | opened (u : UnitOfWork σ)
  | sawSnapshot (u : UnitOfWork σ) (found : Except Error (Option (SnapshotOf σ)))
  | sawEvents (u : UnitOfWork σ) (found : Except Error (List (EventOf σ)))
  | staged (u : UnitOfWork σ) (result : Except Error Unit)
  | saved (u : UnitOfWork σ) (result : Except Error Unit)
  | ended (result : Except Error Receipt)
  | cancelled

/-- A command on its way: the aggregate it is for, and the transaction id and the instant that its
events get. -/
structure Handling (σ : Type) [Model σ] where
  command : Command (Model.Payload σ)
  transactionId : Uuid
  createdAt : Timestamp
  aggregate : Aggregate σ
  stage : Handling.Stage σ := .waiting

namespace Handling
variable {σ : Type} [Model σ]

namespace Stage

def unit? : Stage σ → Option (UnitOfWork σ)
  | opened u | sawSnapshot u _ | sawEvents u _ | staged u _ | saved u _ => some u
  | _ => none

/-- How many steps are left at most. -/
def rank : Stage σ → Nat
  | waiting => 6
  | opened _ => 5
  | sawSnapshot .. => 4
  | sawEvents .. => 3
  | staged .. => 2
  | saved .. => 1
  | ended _ => 0
  | cancelled => 0

def justRead : Stage σ → Bool
  | sawSnapshot _ (.ok _) => true
  | sawEvents _ (.ok _) => true
  | _ => false

end Stage

def newEvents (h : Handling σ) (base : Int) : List (EventOf σ) :=
  Command.eventsAfter h.aggregate.id h.transactionId h.command.commandType h.createdAt base
    h.command.events

def notice (h : Handling σ) : Except Error Receipt → Notice
  | .ok o => .commandHandled o.aggregateId o.transactionId o.version h.command.commandType
  | .error x => .commandFailed h.aggregate.id h.command.commandType x

def conclude (w : World σ) (h : Handling σ) (u : UnitOfWork σ) (r : Except Error Receipt) :
    World σ × Handling σ :=
  match w.store.conclude u r with
  | (r, store) => ({ w with store }.say (h.notice r), { h with stage := .ended r })

def step (peers : Peers σ) (w : World σ) (h : Handling σ) : World σ × Handling σ :=
  match h.stage with
  | .waiting =>
    match w.store.begin with
    | .error x => (w, { h with stage := .ended (.error x) })
    | .ok u => (w, { h with stage := .opened u })
  | .opened u =>
    (w, { h with stage := .sawSnapshot u (w.store.readSnapshot h.aggregate.id none) })
  | .sawSnapshot u (.error x) => h.conclude w u (.error x)
  | .sawSnapshot u (.ok found) =>
    match h.aggregate.resume found with
    | .error x => h.conclude w u (.error x)
    | .ok a =>
      (w, { h with
        aggregate := a
        stage := .sawEvents u (w.store.readEvents a.id (a.version + 1) none) })
  | .sawEvents u (.error x) => h.conclude w u (.error x)
  | .sawEvents u (.ok es) =>
    match h.aggregate.build es with
    | (a, .error x) => { h with aggregate := a }.conclude w u (.error x)
    | (a, .ok ()) =>
      let w := w.say (.aggregateLoaded a.id a.version es.length)
      match a.advanceAll (h.newEvents a.version) with
      | (a, .error x) => { h with aggregate := a }.conclude w u (.error x)
      | (a, .ok ()) =>
        match w.store.stage u h.transactionId a a.snapshot with
        | (r, u, store) => ({ w with store }, { h with aggregate := a, stage := .staged u r })
  | .staged u (.error x) => h.conclude w u (.error x)
  | .staged u (.ok ()) =>
    match w.save peers h.aggregate.projection with
    | (r, w) => (w, { h with stage := .saved u r })
  | .saved u (.error x) => h.conclude w u (.error x)
  | .saved u (.ok ()) =>
    h.conclude w u (.ok ⟨h.aggregate.id, h.transactionId, h.aggregate.version⟩)
  | .ended _ => (w, h)
  | .cancelled => (w, h)

/-- Gives a handling up that waits for an answer; its unit of work is dropped. -/
def cancel (w : World σ) (h : Handling σ) : World σ × Handling σ :=
  match h.stage with
  | .ended _ => (w, h)
  | .cancelled => (w, h)
  | s =>
    match s.unit? with
    | none => (w, { h with stage := .cancelled })
    | some u => ({ w with store := w.store.release u }, { h with stage := .cancelled })

def steps (peers : Peers σ) : Nat → World σ → Handling σ → World σ × Handling σ
  | 0, w, h => (w, h)
  | n + 1, w, h =>
    match h.step peers w with
    | (w, h) => steps peers n w h

def complete (peers : Peers σ) (w : World σ) (h : Handling σ) : World σ × Handling σ :=
  h.steps peers h.stage.rank w

end Handling
end Outbox
