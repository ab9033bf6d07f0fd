/-! The variables of a process. Their values are bytes. -/
namespace Outbox

structure Environment where
  entries : List (String × ByteArray) := []

namespace Environment

/-- The value of a variable as text; one that is not valid UTF-8 counts as missing. -/
def get? (e : Environment) (name : String) : Option String :=
  (e.entries.lookup name).bind String.fromUTF8?

end Environment
end Outbox
