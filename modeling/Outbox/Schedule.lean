import Outbox.Command.Handling
import Outbox.Relay.Round

/-! Handlings and rounds side by side, in turns. -/
namespace Outbox

inductive Task (σ : Type) [Model σ]
  | handling (h : Handling σ)
  | round (r : Round σ)

namespace Task
variable {σ : Type} [Model σ]

def step (peers : Peers σ) (w : World σ) : Task σ → World σ × Task σ
  | handling h => match h.step peers w with | (w, h) => (w, handling h)
  | round r => match r.step peers w with | (w, r) => (w, round r)

def cancel (w : World σ) : Task σ → World σ × Task σ
  | handling h => match h.cancel w with | (w, h) => (w, handling h)
  | round r => match r.cancel w with | (w, r) => (w, round r)

def rank : Task σ → Nat
  | handling h => h.stage.rank
  | round r => r.stage.rank

def justRead : Task σ → Bool
  | handling h => h.stage.justRead
  | round r => r.stage.justRead

def isOver (t : Task σ) : Bool := t.rank == 0

end Task

structure Job (σ : Type) [Model σ] where
  task : Task σ
  peers : Peers σ
  cancelAfter : Option Nat := none

namespace Job
variable {σ : Type} [Model σ]

/-- Goes on until the task is over, pauses after a read, or has made so many steps. -/
def run : Nat → World σ → Job σ → World σ × Job σ
  | 0, w, j => (w, j)
  | n + 1, w, j =>
    match j.task.step j.peers w with
    | (w, t) =>
      if t.isOver || (w.store.pausesAfterReads && t.justRead) then (w, { j with task := t })
      else run n w { j with task := t }

def takeTurn (turn : Nat) (w : World σ) (j : Job σ) : World σ × Job σ :=
  match j.run j.task.rank w with
  | (w, j) =>
    if j.cancelAfter = some turn then
      match j.task.cancel w with
      | (w, t) => (w, { j with task := t })
    else (w, j)

end Job

namespace Schedule
variable {σ : Type} [Model σ]

def hasEnded : Task σ → Bool
  | .handling h => match h.stage with | .ended _ => true | _ => false
  | .round r => match r.stage with | .ended _ => true | _ => false

/-- Gives every job that is not over its turn, in order; `i` is the index of the first. Besides the
jobs, the indices of those that came to their end. -/
def sweep (turn : Nat) : Nat → World σ → List (Job σ) → World σ × List (Job σ) × List Nat
  | _, w, [] => (w, [], [])
  | i, w, j :: js =>
    if j.task.isOver then
      match sweep turn (i + 1) w js with
      | (w, js, done) => (w, j :: js, done)
    else
      match j.takeTurn turn w with
      | (w, j) =>
        match sweep turn (i + 1) w js with
        | (w, js, done) => (w, j :: js, if hasEnded j.task then i :: done else done)

/-- Sweeps until every job is over, or for so many turns. -/
def sweeps : Nat → Nat → World σ → List (Job σ) → World σ × List (Job σ) × List Nat
  | 0, _, w, js => (w, js, [])
  | n + 1, turn, w, js =>
    if js.all (·.task.isOver) then (w, js, [])
    else
      match sweep turn 0 w js with
      | (w, js, done) =>
        match sweeps n (turn + 1) w js with
        | (w, js, later) => (w, js, done ++ later)

/-- Runs jobs side by side: in each turn every job that is not over goes on, in order, until it ends
or pauses. Besides the jobs, their indices in the order in which they ended. -/
def interleave (w : World σ) (js : List (Job σ)) : World σ × List (Job σ) × List Nat :=
  sweeps ((js.map (·.task.rank)).foldr (· + ·) 0) 1 w js

end Schedule
end Outbox
