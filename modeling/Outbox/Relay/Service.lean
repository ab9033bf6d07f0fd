import Outbox.Config
import Outbox.Relay.Consumer

/-! The service: it runs a consumer until the source ends or shutdown is requested. Shutdown ends
the intake of notifications and leaves the round on its way a window of time to end; a round that
outlives the window is given up. -/
namespace Outbox

inductive Service.Phase
  | running
  | draining
  | served (result : Except ServiceError Report)

inductive Service.Move
  /-- The consumer goes on by a step. -/
  | work
  | shutdown
  /-- The shutdown window ends. -/
  | expire
  /-- The consumer breaks down. -/
  | crash
  deriving DecidableEq, Repr

structure Service (σ : Type) [Model σ] where
  consumer : Consumer σ
  window : Duration
  phase : Service.Phase := .running

namespace Service
variable {σ : Type} [Model σ]

def defaultWindow : Duration := .ofSeconds Config.defaultShutdownSeconds

def start (w : World σ) (consumer : Consumer σ) (window : Duration) : World σ × Service σ :=
  (w.say .serviceStarted,
    { consumer, window := if window = ⟨0⟩ then defaultWindow else window })

def tellsToStop (v : Service σ) : Bool :=
  match v.phase with
  | .running => false
  | _ => true

def result? (v : Service σ) : Option (Except ServiceError Report) :=
  match v.phase with
  | .served r => some r
  | _ => none

def join (w : World σ) (v : Service σ) : World σ × Service σ :=
  match v.consumer.stage, v.phase with
  | .stopped, .running => (w, { v with phase := .served (.ok v.consumer.report) })
  | .stopped, .draining =>
    (w.say .serviceStopped, { v with phase := .served (.ok v.consumer.report) })
  | _, _ => (w, v)

def giveUp (w : World σ) (v : Service σ) (x : ServiceError) : World σ × Service σ :=
  match v.consumer.abort w with
  | (w, consumer) => (w, { v with consumer, phase := .served (.error x) })

/-- Undergoes a move; what a phase has no place for changes nothing. -/
def move (peers : Peers σ) (w : World σ) (v : Service σ) (m : Move) : World σ × Service σ :=
  match v.phase, m with
  | .served _, _ => (w, v)
  | _, .work =>
    match v.consumer.step peers v.tellsToStop w with
    | (w, consumer) => { v with consumer }.join w
  | _, .crash => v.giveUp w .task
  | .running, .shutdown => (w.say (.draining v.window.milliseconds), { v with phase := .draining })
  | .running, .expire => (w, v)
  | .draining, .shutdown => (w, v)
  | .draining, .expire =>
    match v.giveUp w (.shutdownTimeout v.window) with
    | (w, v) => (w.say (.relayCancelled v.window.milliseconds), v)

end Service
end Outbox
