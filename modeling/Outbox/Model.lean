import Outbox.Error
import Outbox.Event

/-! What makes a type the state of an aggregate: its events and how they change it, its snapshots,
and what its readers and other systems are told. -/
namespace Outbox

class Model (σ : Type) where
  /-- What an event carries. -/
  Payload : Type
  Snapshot : Type
  /-- What the read model shows. -/
  Projection : Type
  /-- What other systems are told. -/
  Integration : Type
  initial : σ
  /-- The type of an event by what it carries. -/
  eventType : Payload → String
  apply : σ → Event Payload → Except Error σ
  /-- The state that a snapshot was taken of. -/
  restore : σ → Snapshot → Except Error σ
  snapshot : σ → Snapshot
  projection : σ → Uuid → Int → Projection
  /-- What an event of a type that led to the state tells. -/
  integration : σ → String → Except Error Integration

section
variable (σ : Type) [Model σ]

abbrev EventOf := Event (Model.Payload σ)
abbrev SnapshotOf := Snapshot (Model.Snapshot σ)
abbrev IntegrationOf := IntegrationEvent (Model.Integration σ)

end
end Outbox
