import Outbox.Error
import Outbox.Text.Duration

/-! What can go wrong when the relay service starts, runs and stops. -/
namespace Outbox

/-- Why the service did not start, or did not end as it should. -/
inductive ServiceError
  /-- A setting is missing or cannot be used. -/
  | configuration (detail : String)
  | database (detail : String)
  /-- The source of notifications could not be set up. -/
  | relay (cause : Error)
  /-- A round was still on its way at the end of the shutdown window. -/
  | shutdownTimeout (window : Duration)
  /-- The consumer broke down. -/
  | task
  deriving DecidableEq

def ServiceError.message : ServiceError → String
  | configuration detail => s!"configuration error: {detail}"
  | database detail => s!"database error: {detail}"
  | relay cause => s!"relay error: {cause.message}"
  | shutdownTimeout window => s!"graceful shutdown timed out after {window.text}"
  | task => "consumer task failed"

end Outbox
