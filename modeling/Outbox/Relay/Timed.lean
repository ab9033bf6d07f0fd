import Outbox.Relay.Service

/-! Serving in time. Steps take no time; time passes while the consumer waits for the source or the
broker, and whatever is due first happens then. Of the service's own timer and the consumer, due at
one instant, the timer goes first. -/
namespace Outbox

/-- How the broker takes a batch. -/
inductive Pace
  /-- It answers after so many milliseconds. -/
  | after (milliseconds : Nat)
  | never
  /-- The consumer breaks down over it. -/
  | crash
  deriving DecidableEq, Repr

inductive ShutdownRequest
  | never
  | after (milliseconds : Nat)
  /-- By a signal, which is noticed as soon as the consumer has to wait or pauses. -/
  | signal (s : Signal)
  deriving DecidableEq, Repr

def Signal.receive {σ : Type} [Model σ] (w : World σ) (s : Signal) : World σ :=
  w.say (.signalReceived s)

namespace Service
variable {σ : Type} [Model σ]

/-- Where a service is in time, in milliseconds. -/
structure Clock where
  now : Nat := 0
  /-- When the consumer made its last step. -/
  since : Nat := 0
  /-- When the shutdown window ends, once it has begun. -/
  deadline : Nat := 0

def isPublishing (v : Service σ) : Bool :=
  match v.consumer.stage with
  | .relaying r => match r.stage with | .publishing .. => true | _ => false
  | _ => false

def isPausing (w : World σ) (v : Service σ) : Bool :=
  w.store.pausesAfterReads &&
    match v.consumer.stage with
    | .relaying r => r.stage.justRead
    | _ => false

def wait (pace : Pace) (v : Service σ) : Option Nat :=
  if v.isPublishing then
    match pace with
    | .after ms => some ms
    | .never => none
    | .crash => some 0
  else
    match v.consumer.stage with
    | .polling =>
      if v.tellsToStop then some 0
      else
        match v.consumer.source.arrivals with
        | x :: _ => some x.delay
        | [] => if v.consumer.source.closes then some 0 else none
    | _ => some 0

def wake (pace : Pace) (c : Clock) (v : Service σ) : Option Nat :=
  (v.wait pace).map fun d => max c.now (c.since + d)

/-- When the service is next called on: shutdown is requested, or its window ends. -/
def alarm (pace : Pace) (request : ShutdownRequest) (c : Clock) (w : World σ) (v : Service σ) :
    Option Nat :=
  match v.phase with
  | .running =>
    match request with
    | .never => none
    | .after ms => some ms
    | .signal _ =>
      if v.wake pace c = some c.now && !v.isPausing w then none else some c.now
  | .draining => some c.deadline
  | .served _ => none

def ring (peers : Peers σ) (request : ShutdownRequest) (t : Nat) (c : Clock) (w : World σ)
    (v : Service σ) : Clock × World σ × Service σ :=
  match v.phase with
  | .running =>
    let w := match request with
      | .signal s => s.receive w
      | _ => w
    ({ c with now := t, deadline := t + v.window.milliseconds }, v.move peers w .shutdown)
  | _ => ({ c with now := t }, v.move peers w .expire)

def wakeUp (peers : Peers σ) (pace : Pace) (t : Nat) (c : Clock) (w : World σ) (v : Service σ) :
    Clock × World σ × Service σ :=
  ({ c with now := t, since := t },
    v.move peers w (if v.isPublishing && pace == .crash then .crash else .work))

/-- What is due next happens; `none` if nothing ever is. -/
def next? (peers : Peers σ) (pace : Pace) (request : ShutdownRequest) (c : Clock) (w : World σ)
    (v : Service σ) : Option (Clock × World σ × Service σ) :=
  match v.alarm pace request c w, v.wake pace c with
  | some t, some u =>
    some (if t ≤ u then v.ring peers request t c w else v.wakeUp peers pace u c w)
  | some t, none => some (v.ring peers request t c w)
  | none, some u => some (v.wakeUp peers pace u c w)
  | none, none => none

/-- Lets so many things happen, or all until serving is over. -/
def elapse (peers : Peers σ) (pace : Pace) (request : ShutdownRequest) :
    Nat → Clock → World σ → Service σ → World σ × Service σ
  | 0, _, w, v => (w, v)
  | n + 1, c, w, v =>
    match v.phase with
    | .served _ => (w, v)
    | _ =>
      match v.next? peers pace request c w with
      | none => (w, v)
      | some (c, w, v) => elapse peers pace request n c w v

/-- Serves until the source ends or shutdown is over. Every step of the consumer lowers its rank,
and two alarms go off at most. -/
def serve (peers : Peers σ) (pace : Pace) (request : ShutdownRequest) (w : World σ)
    (consumer : Consumer σ) (window : Duration) : World σ × Service σ :=
  match start w consumer window with
  | (w, v) => v.elapse peers pace request (consumer.rank + 2) {} w

end Service
end Outbox
