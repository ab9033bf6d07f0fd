import Outbox.Model

/-! Commands: the events that a user of the system wants to happen to one aggregate. -/
namespace Outbox

structure WantedEvent (P : Type) where
  eventType : String
  payload : P
  deriving DecidableEq

structure Command (P : Type) where
  commandType : String
  events : List (WantedEvent P)
  deriving DecidableEq

namespace Command

/-- A command whose events have the types of what they carry. -/
def ofPayloads (σ : Type) [Model σ] (commandType : String) (payloads : List (Model.Payload σ)) :
    Command (Model.Payload σ) :=
  ⟨commandType, payloads.map fun p => ⟨Model.eventType p, p⟩⟩

/-- The wanted events as events of one transaction, at the versions after a base. -/
def eventsAfter {P : Type} (aggregateId transactionId : Uuid) (commandType : String)
    (createdAt : Timestamp) : Int → List (WantedEvent P) → List (Event P)
  | _, [] => []
  | base, e :: es =>
    { aggregateId, transactionId, commandType, version := base + 1, eventType := e.eventType,
      payload := e.payload, createdAt } ::
      eventsAfter aggregateId transactionId commandType createdAt (base + 1) es

@[simp] theorem length_eventsAfter {P : Type} (a t : Uuid) (c : String) (w : Timestamp) (b : Int)
    (es : List (WantedEvent P)) : (eventsAfter a t c w b es).length = es.length := by
  induction es generalizing b <;> simp_all [eventsAfter]

end Command
end Outbox
