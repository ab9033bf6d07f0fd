import Outbox.Environment
import Outbox.Log.Directive
import Outbox.ServiceError

/-! Which entries of the report are shown: as the directives have it that want the most of them. -/
namespace Outbox

/-- Directives in order: general ones, to which an entry alone is enough, and contextual ones, to
which spans or fields belong. A field of any value makes a directive both. -/
structure LogFilter where
  general : List Directive := []
  contextual : List Directive := []
  deriving DecidableEq, Repr

namespace LogFilter

/-- Puts a directive before those that want less, in place of one that wants the same. -/
def insert (d : Directive) : List Directive → List Directive
  | [] => [d]
  | e :: es =>
    match compare d e with
    | .eq => d :: es
    | .gt => d :: e :: es
    | .lt => e :: insert d es

/-- Puts directives in order; of two that want the same the later counts. -/
def ordered (ds : List Directive) : List Directive := ds.foldl (fun es d => insert d es) []

def uniform (threshold : Threshold) : LogFilter := ⟨[{ target := none, threshold }], []⟩

def ofDirectives (ds : List Directive) : LogFilter :=
  let contextual := ds.filter (·.isContextual)
  ⟨ordered (ds.filter (!·.isContextual) ++ contextual.filter (·.isGeneral)), ordered contextual⟩

def read? (s : String) : Option LogFilter :=
  let parts := (s.toList.splitOn ',').filter (!·.isEmpty)
  (parts.mapM Directive.read?).map ofDirectives

def variableName : String := "RUST_LOG"

/-- The filter of a process; where none can be read, entries of the level info and above are
shown. -/
def ofEnvironment (e : Environment) : LogFilter :=
  ((e.get? variableName).bind read?).getD (uniform .info)

def text (f : LogFilter) : String :=
  String.intercalate "," ((f.general ++ f.contextual).map Directive.text)

/-- What becomes of setting the report up where that has been done before. -/
def alreadyInstalled : ServiceError :=
  .configuration ("failed to install tracing subscriber: " ++
    "a global default trace dispatcher has already been set")

end LogFilter
end Outbox
