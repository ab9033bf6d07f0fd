import Outbox.Timestamp
import Outbox.Uuid

/-! Events of aggregates, what other systems are told of them, and snapshots. -/
namespace Outbox

structure Event (P : Type) where
  aggregateId : Uuid
  transactionId : Uuid
  commandType : String
  version : Int
  eventType : String
  payload : P
  createdAt : Timestamp
  deriving DecidableEq

/-- An event in the form in which other systems learn of it. -/
structure IntegrationEvent (I : Type) where
  id : Uuid
  eventType : String
  payload : I
  deriving DecidableEq

structure Snapshot (S : Type) where
  aggregateId : Uuid
  version : Int
  payload : S
  deriving DecidableEq

end Outbox
