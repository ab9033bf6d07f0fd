import Outbox.Error
import Outbox.Relay.Outcome

/-! What the program reports while it works. -/
namespace Outbox

inductive Level
  | debug
  | info
  | warn
  | error
  deriving DecidableEq, Repr

inductive FieldValue
  | id (u : Uuid)
  | text (s : String)
  | integer (i : Int)
  deriving DecidableEq

inductive RelayStep
  | readCheckpoint
  | loadUnhandled
  | loadSnapshot
  | applySnapshot
  | loadHistory
  | replayHistory
  | publishEvents
  | updateCheckpoint
  deriving DecidableEq, Repr

def RelayStep.failure : RelayStep → String
  | .readCheckpoint => "failed to read checkpoint"
  | .loadUnhandled => "failed to load unhandled events"
  | .loadSnapshot => "failed to load snapshot"
  | .applySnapshot => "failed to apply snapshot"
  | .loadHistory => "failed to load history"
  | .replayHistory => "failed to replay history"
  | .publishEvents => "failed to handle events"
  | .updateCheckpoint => "failed to update checkpoint"

inductive Signal
  | interrupt
  | terminate
  deriving DecidableEq, Repr

inductive Notice
  | aggregateLoaded (aggregateId : Uuid) (version : Int) (replayed : Nat)
  | commandHandled (aggregateId transactionId : Uuid) (version : Int) (commandType : String)
  | commandFailed (aggregateId : Uuid) (commandType : String) (error : Error)
  | publishedEvents (aggregateId : Uuid) (count : Nat)
  | relayNotBegun (transactionId : Uuid) (error : Error)
  | relayStepFailed (step : RelayStep) (aggregateId : Option Uuid) (error : Error)
  | aggregateRebuilt (aggregateId : Uuid) (version : Int) (unhandled : Nat)
  | relayed (transaction : Transaction) (published : Nat) (checkpoint : Int)
  | alreadyRelayed (transaction : Transaction) (checkpoint : Int)
  | checkpointLocked (transaction : Transaction)
  | relayFailed (transaction : Transaction) (error : Error)
  | roundFailed (transaction : Transaction) (error : Error)
  | nothingRelayed (outcome : RoundOutcome) (transaction : Transaction)
  | sourceClosed
  | notReceived (error : Error)
  | consumerStopped (report : Report)
  | serviceStarted
  | signalReceived (signal : Signal)
  | draining (window : Nat)
  | serviceStopped
  | relayCancelled (window : Nat)

namespace Notice

def level : Notice → Level
  | aggregateLoaded .. | publishedEvents .. | aggregateRebuilt .. | alreadyRelayed ..
  | nothingRelayed .. => .debug
  | commandHandled .. | relayed .. | sourceClosed | consumerStopped .. | serviceStarted
  | signalReceived .. | draining .. | serviceStopped => .info
  | commandFailed .. | checkpointLocked .. | roundFailed .. | notReceived ..
  | relayCancelled .. => .warn
  | relayNotBegun .. | relayStepFailed .. | relayFailed .. => .error

def message : Notice → String
  | aggregateLoaded .. => "aggregate loaded"
  | commandHandled .. => "command handled"
  | commandFailed .. => "command failed"
  | publishedEvents .. => "published integration events"
  | relayNotBegun .. => "failed to begin relay transaction"
  | relayStepFailed step .. => step.failure
  | aggregateRebuilt .. => "aggregate rebuilt for relay"
  | relayed .. => "transaction relayed"
  | alreadyRelayed .. => "transaction already relayed"
  | checkpointLocked .. => "checkpoint locked by another relay, skipping"
  | relayFailed .. => "relay failed, checkpoint unchanged"
  | roundFailed .. => "relay round failed"
  | nothingRelayed .. => "nothing relayed"
  | sourceClosed => "notification source closed"
  | notReceived .. => "failed to receive notification"
  | consumerStopped .. => "consumer stopped"
  | serviceStarted => "relay endpoint started"
  | signalReceived .interrupt => "received Ctrl+C"
  | signalReceived .terminate => "received SIGTERM"
  | draining .. => "shutdown requested, draining"
  | serviceStopped => "relay endpoint stopped"
  | relayCancelled .. => "in-flight relay cancelled"

def fields : Notice → List (String × FieldValue)
  | aggregateLoaded a v n =>
    [("aggregate_id", .id a), ("version", .integer v), ("replayed", .integer n)]
  | commandHandled a t v c =>
    [("aggregate_id", .id a), ("transaction_id", .id t), ("version", .integer v),
      ("command_type", .text c)]
  | commandFailed a c x =>
    [("aggregate_id", .id a), ("command_type", .text c), ("error", .text x.message)]
  | publishedEvents a n => [("aggregate_id", .id a), ("count", .integer n)]
  | relayNotBegun t x => [("transaction_id", .id t), ("error", .text x.message)]
  | relayStepFailed _ none x => [("error", .text x.message)]
  | relayStepFailed _ (some a) x => [("aggregate_id", .id a), ("error", .text x.message)]
  | aggregateRebuilt a v n =>
    [("aggregate_id", .id a), ("version", .integer v), ("unhandled", .integer n)]
  | relayed t n c =>
    [("transaction_id", .id t.id), ("aggregate_id", .id t.aggregateId), ("published", .integer n),
      ("checkpoint", .integer c)]
  | alreadyRelayed t c =>
    [("transaction_id", .id t.id), ("sequence_id", .integer t.sequence), ("checkpoint", .integer c)]
  | checkpointLocked t => [("transaction_id", .id t.id)]
  | relayFailed t x =>
    [("transaction_id", .id t.id), ("sequence_id", .integer t.sequence), ("error", .text x.message)]
  | roundFailed t x =>
    [("transaction_id", .id t.id), ("aggregate_id", .id t.aggregateId),
      ("sequence_id", .integer t.sequence), ("error", .text x.message)]
  | nothingRelayed o t => [("outcome", .text o.text), ("sequence_id", .integer t.sequence)]
  | notReceived x => [("error", .text x.message)]
  | consumerStopped r =>
    [("relayed", .integer r.relayed), ("skipped", .integer r.skipped),
      ("failed", .integer r.failed)]
  | draining ms => [("timeout_ms", .integer ms)]
  | relayCancelled ms => [("timeout_ms", .integer ms)]
  | sourceClosed | serviceStarted | signalReceived _ | serviceStopped => []

end Notice
end Outbox
