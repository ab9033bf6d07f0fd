import Outbox.Relay.Round

/-! The consumer: it relays one notified transaction after another. A round that fails is counted
and never stops it; that it is to stop, it only notices between two rounds. -/
namespace Outbox

/-- What a source of notifications answers: a transaction, its end, or an error. -/
abbrev Received := Except Error (Option Transaction)

structure Arrival where
  delay : Nat := 0
  result : Received

/-- What a source has still to answer; after that it reports its end, or stays silent. -/
structure Source where
  arrivals : List Arrival
  closes : Bool := true

inductive Consumer.Stage (σ : Type) [Model σ]
  | polling
  | relaying (r : Round σ)
  | stopped
  | crashed

structure Consumer (σ : Type) [Model σ] where
  provider : Uuid → Aggregate σ
  source : Source
  /-- How often the source was asked. -/
  calls : Nat := 0
  report : Report := {}
  stage : Consumer.Stage σ := .polling

namespace Consumer
variable {σ : Type} [Model σ]

/-- The outcome of a round that is over, reported if it failed. -/
def outcome (w : World σ) (t : Transaction) : Except Error RoundOutcome →
    World σ × Option RoundOutcome
  | .ok o => (w, some o)
  | .error x => (w.say (.roundFailed t x), none)

def relay (peers : Peers σ) (w : World σ) (provider : Uuid → Aggregate σ) (t : Transaction) :
    World σ × Option RoundOutcome :=
  match Round.complete peers w { transaction := t, provider } with
  | (w, r) =>
    match r.stage with
    | .ended result => outcome w t result
    | _ => (w, none)

def account (w : World σ) (k : Consumer σ) (t : Transaction) (result : Except Error RoundOutcome) :
    World σ × Consumer σ :=
  match outcome w t result with
  | (w, o) =>
    let w := match o with
      | some o => if o.advanced then w else w.say (.nothingRelayed o t)
      | none => w
    (w, { k with report := k.report.count o, stage := .polling })

def stop (w : World σ) (k : Consumer σ) : World σ × Consumer σ :=
  (w.say (.consumerStopped k.report), { k with stage := .stopped })

def receive (w : World σ) (k : Consumer σ) : Received → World σ × Consumer σ
  | .ok (some t) =>
    (w, { k with stage := .relaying { transaction := t, provider := k.provider } })
  | .ok none => k.stop (w.say .sourceClosed)
  | .error x =>
    (w.say (.notReceived x), { k with report := { k.report with failed := k.report.failed + 1 } })

/-- Goes on by one step, having been told to stop or not. -/
def step (peers : Peers σ) (told : Bool) (w : World σ) (k : Consumer σ) : World σ × Consumer σ :=
  match k.stage with
  | .polling =>
    if told then k.stop w
    else
      match k.source.arrivals with
      | x :: xs =>
        { k with source := { k.source with arrivals := xs }, calls := k.calls + 1 }.receive w
          x.result
      | [] =>
        if k.source.closes then { k with calls := k.calls + 1 }.receive w (.ok none) else (w, k)
  | .relaying r =>
    match r.step peers w with
    | (w, r) =>
      match r.stage with
      | .ended result => k.account w r.transaction result
      | _ => (w, { k with stage := .relaying r })
  | .stopped => (w, k)
  | .crashed => (w, k)

def abort (w : World σ) (k : Consumer σ) : World σ × Consumer σ :=
  match k.stage with
  | .relaying r =>
    match r.cancel w with
    | (w, _) => (w, { k with stage := .crashed })
  | .polling => (w, { k with stage := .crashed })
  | .stopped => (w, k)
  | .crashed => (w, k)

def isOver (k : Consumer σ) : Bool :=
  match k.stage with
  | .stopped => true
  | .crashed => true
  | _ => false

def rank (k : Consumer σ) : Nat :=
  match k.stage with
  | .polling => 10 * k.source.arrivals.length + 1
  | .relaying r => 10 * k.source.arrivals.length + 1 + r.stage.rank
  | .stopped => 0
  | .crashed => 0

/-- Goes on by a number of steps; `told` says from how often the source was asked whether the
consumer is to stop. -/
def steps (peers : Peers σ) (told : Nat → Bool) : Nat → World σ → Consumer σ → World σ × Consumer σ
  | 0, w, k => (w, k)
  | n + 1, w, k =>
    match k.step peers (told k.calls) w with
    | (w, k) => steps peers told n w k

/-- Relays what the source answers until the source ends or the consumer is told to stop. -/
def run (peers : Peers σ) (told : Nat → Bool) (w : World σ) (k : Consumer σ) :
    World σ × Consumer σ :=
  k.steps peers told k.rank w

end Consumer
end Outbox
