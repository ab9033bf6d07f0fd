import Outbox.World

/-! A round of the relay: lock the checkpoint, take the events of the notified aggregate between the
checkpoint and the notified place of the log, rebuild the aggregate up to just before the first of
them, publish what other systems are told of them, and move the checkpoint, all in one unit of work.
A round goes on step by step, as a handling does. -/
namespace Outbox

/-- How far a round is, with the unit of work it has open and the answer it was given. -/
inductive Round.Stage (σ : Type) [Model σ]
  | waiting
  | opened (u : UnitOfWork σ)
  | sawCheckpoint (u : UnitOfWork σ) (found : Except Error (Option Checkpoint))
  | sawUnhandled (u : UnitOfWork σ) (found : Except Error (List (EventOf σ)))
  | sawSnapshot (u : UnitOfWork σ) (unhandled : List (EventOf σ)) (first : Int) (a : Aggregate σ)
      (found : Except Error (Option (SnapshotOf σ)))
  | sawHistory (u : UnitOfWork σ) (unhandled : List (EventOf σ)) (a : Aggregate σ)
      (found : Except Error (List (EventOf σ)))
  | publishing (u : UnitOfWork σ) (a : Aggregate σ) (batch : List (IntegrationOf σ))
  | published (u : UnitOfWork σ) (a : Aggregate σ) (count : Nat) (result : Except Error Unit)
  | moved (u : UnitOfWork σ) (published : Nat) (result : Except Error Unit)
  | ended (result : Except Error RoundOutcome)
  | cancelled

/-- A round on its way: the transaction it was notified of, and where aggregates to be rebuilt come
from. -/
structure Round (σ : Type) [Model σ] where
  transaction : Transaction
  provider : Uuid → Aggregate σ
  stage : Round.Stage σ := .waiting

namespace Round
variable {σ : Type} [Model σ]

namespace Stage

def unit? : Stage σ → Option (UnitOfWork σ)
  | opened u | sawCheckpoint u _ | sawUnhandled u _ | sawSnapshot u .. | sawHistory u ..
  | publishing u .. | published u .. | moved u .. => some u
  | _ => none

def rank : Stage σ → Nat
  | waiting => 9
  | opened _ => 8
  | sawCheckpoint .. => 7
  | sawUnhandled .. => 6
  | sawSnapshot .. => 5
  | sawHistory .. => 4
  | publishing .. => 3
  | published .. => 2
  | moved .. => 1
  | ended _ => 0
  | cancelled => 0

def justRead : Stage σ → Bool
  | sawUnhandled _ (.ok _) => true
  | sawSnapshot _ _ _ _ (.ok _) => true
  | sawHistory _ _ _ (.ok _) => true
  | _ => false

end Stage

def range (r : Round σ) (c : Checkpoint) : LogRange := ⟨c.last, r.transaction.sequence⟩

def notice (r : Round σ) : Except Error RoundOutcome → Notice
  | .ok (.relayed n c) => .relayed r.transaction n c
  | .ok (.alreadyRelayed c) => .alreadyRelayed r.transaction c
  | .ok .checkpointLocked => .checkpointLocked r.transaction
  | .error x => .relayFailed r.transaction x

def conclude (w : World σ) (r : Round σ) (u : UnitOfWork σ) (result : Except Error RoundOutcome) :
    World σ × Round σ :=
  match w.store.conclude u result with
  | (result, store) => ({ w with store }.say (r.notice result), { r with stage := .ended result })

def standDown (w : World σ) (r : Round σ) (u : UnitOfWork σ) (outcome : RoundOutcome) :
    World σ × Round σ :=
  match w.store.rollback u with
  | (.error x, store) => ({ w with store }, { r with stage := .ended (.error x) })
  | (.ok (), store) =>
    ({ w with store }.say (r.notice (.ok outcome)), { r with stage := .ended (.ok outcome) })

def fail (w : World σ) (r : Round σ) (u : UnitOfWork σ) (step : RelayStep) (about : Option Uuid)
    (x : Error) : World σ × Round σ :=
  r.conclude (w.say (.relayStepFailed step about x)) u (.error x)

def moveCheckpoint (w : World σ) (r : Round σ) (u : UnitOfWork σ) (published : Nat) :
    World σ × Round σ :=
  match w.store.moveCheckpoint u ⟨r.transaction.sequence⟩ with
  | (result, u, store) => ({ w with store }, { r with stage := .moved u published result })

/-- Lets the unhandled events happen to the rebuilt aggregate and makes a batch of what other
systems are told of them. -/
def announce (w : World σ) (r : Round σ) (u : UnitOfWork σ) (unhandled : List (EventOf σ))
    (a : Aggregate σ) : World σ × Round σ :=
  let w := w.say (.aggregateRebuilt r.transaction.aggregateId a.version unhandled.length)
  match a.announce unhandled with
  | (_, .error x) => r.fail w u .publishEvents (some r.transaction.aggregateId) x
  | (a, .ok batch) => (w, { r with stage := .publishing u a batch })

def step (peers : Peers σ) (w : World σ) (r : Round σ) : World σ × Round σ :=
  match r.stage with
  | .waiting =>
    match w.store.begin with
    | .error x =>
      (w.say (.relayNotBegun r.transaction.id x), { r with stage := .ended (.error x) })
    | .ok u => (w, { r with stage := .opened u })
  | .opened u =>
    match w.store.readCheckpoint u with
    | (found, u, store) => ({ w with store }, { r with stage := .sawCheckpoint u found })
  | .sawCheckpoint u (.error x) => r.fail w u .readCheckpoint none x
  | .sawCheckpoint u (.ok none) => r.standDown w u .checkpointLocked
  | .sawCheckpoint u (.ok (some c)) =>
    if (r.range c).isEmpty then r.standDown w u (.alreadyRelayed c.last)
    else
      (w, { r with
        stage := .sawUnhandled u
          (w.store.readRange r.transaction.aggregateId (r.range c)) })
  | .sawUnhandled u (.error x) => r.fail w u .loadUnhandled (some r.transaction.aggregateId) x
  | .sawUnhandled u (.ok []) => r.moveCheckpoint w u 0
  | .sawUnhandled u (.ok (e :: es)) =>
    let a := r.provider r.transaction.aggregateId
    (w, { r with
      stage := .sawSnapshot u (e :: es) e.version a (w.store.readSnapshot a.id (some e.version)) })
  | .sawSnapshot u _ _ a (.error x) => r.fail w u .loadSnapshot (some a.id) x
  | .sawSnapshot u unhandled first a (.ok found) =>
    match a.resume found with
    | .error x => r.fail w u .applySnapshot (some a.id) x
    | .ok a =>
      if a.version + 1 < first then
        (w, { r with
          stage := .sawHistory u unhandled a
            (w.store.readEvents a.id (a.version + 1) (some (first - 1))) })
      else r.announce w u unhandled a
  | .sawHistory u _ a (.error x) => r.fail w u .loadHistory (some a.id) x
  | .sawHistory u unhandled a (.ok es) =>
    match a.build es with
    | (_, .error x) => r.fail w u .replayHistory (some a.id) x
    | (a, .ok ()) => r.announce w u unhandled a
  | .publishing u a batch =>
    match w.publish peers batch with
    | (result, w) => (w, { r with stage := .published u a batch.length result })
  | .published u _ _ (.error x) => r.fail w u .publishEvents (some r.transaction.aggregateId) x
  | .published u a count (.ok ()) => r.moveCheckpoint (w.say (.publishedEvents a.id count)) u count
  | .moved u _ (.error x) => r.fail w u .updateCheckpoint none x
  | .moved u published (.ok ()) => r.conclude w u (.ok (.relayed published r.transaction.sequence))
  | .ended _ => (w, r)
  | .cancelled => (w, r)

/-- Gives a round up that waits for an answer; its unit of work is dropped. -/
def cancel (w : World σ) (r : Round σ) : World σ × Round σ :=
  match r.stage with
  | .ended _ => (w, r)
  | .cancelled => (w, r)
  | s =>
    match s.unit? with
    | none => (w, { r with stage := .cancelled })
    | some u => ({ w with store := w.store.release u }, { r with stage := .cancelled })

def steps (peers : Peers σ) : Nat → World σ → Round σ → World σ × Round σ
  | 0, w, r => (w, r)
  | n + 1, w, r =>
    match r.step peers w with
    | (w, r) => steps peers n w r

def complete (peers : Peers σ) (w : World σ) (r : Round σ) : World σ × Round σ :=
  r.steps peers r.stage.rank w

end Round
end Outbox
