import Outbox.Log
import Outbox.Store

/-! What the parts of the program share: the store, what has been published, the read model and the
report. -/
namespace Outbox

/-- How the systems around the program answer. -/
structure Peers (σ : Type) [Model σ] where
  publish : List (IntegrationOf σ) → Except Error Unit
  save : Model.Projection σ → Except Error Unit

namespace Peers
variable {σ : Type} [Model σ]

def accepting : Peers σ := ⟨fun _ => .ok (), fun _ => .ok ()⟩

def brokerUnavailable : Error := .publish "broker unavailable"
def readModelUnavailable : Error := .persistence "document store unavailable"

def withoutBroker (p : Peers σ) : Peers σ := { p with publish := fun _ => .error brokerUnavailable }

def withoutReadModel (p : Peers σ) : Peers σ :=
  { p with save := fun _ => .error readModelUnavailable }

end Peers

structure World (σ : Type) [Model σ] where
  store : Store σ := {}
  batches : List (List (IntegrationOf σ)) := []
  saved : List (Model.Projection σ) := []
  notices : List Notice := []

namespace World
variable {σ : Type} [Model σ]

def published (w : World σ) : List (IntegrationOf σ) := w.batches.flatten

def say (w : World σ) (n : Notice) : World σ := { w with notices := w.notices ++ [n] }

@[simp] theorem say_store (w : World σ) (n : Notice) : (w.say n).store = w.store := rfl
@[simp] theorem say_batches (w : World σ) (n : Notice) : (w.say n).batches = w.batches := rfl
@[simp] theorem say_saved (w : World σ) (n : Notice) : (w.say n).saved = w.saved := rfl

def publish (peers : Peers σ) (w : World σ) (batch : List (IntegrationOf σ)) :
    Except Error Unit × World σ :=
  match peers.publish batch with
  | .error x => (.error x, w)
  | .ok () => (.ok (), { w with batches := w.batches ++ [batch] })

def save (peers : Peers σ) (w : World σ) (p : Model.Projection σ) : Except Error Unit × World σ :=
  match peers.save p with
  | .error x => (.error x, w)
  | .ok () => (.ok (), { w with saved := w.saved ++ [p] })

/-- Lets events happen to an aggregate and publishes what other systems are told of them, in one
batch, if there is anything to tell. -/
def publishEvents (peers : Peers σ) (w : World σ) (a : Aggregate σ) (es : List (EventOf σ)) :
    World σ × Aggregate σ × Except Error Nat :=
  match a.announce es with
  | (a, .error x) => (w, a, .error x)
  | (a, .ok []) => (w, a, .ok 0)
  | (a, .ok batch) =>
    match w.publish peers batch with
    | (.error x, w) => (w, a, .error x)
    | (.ok (), w) => (w.say (.publishedEvents a.id batch.length), a, .ok batch.length)

end World
end Outbox
