import Arbor.Emit.Monad

/-!
# Logs

The lines in which a run tells about itself. A filter lets through nothing, warnings, or
everything.
-/

namespace Arbor.Cli

/-- What of a log is shown. -/
inductive LogFilter where
  | off
  | warnings
  | everything
deriving DecidableEq

/-- The filter of a run in which the log is shown at all. -/
def LogFilter.ofVerbose (verbose : Bool) : LogFilter :=
  if verbose then .everything else .warnings

/-- The kind of a scope in a log. -/
def scopeKindName : ScopeKind → String
  | .root => "Root"
  | .block => "Block"
  | .function => "Function"

/-- The event is a warning. -/
def isWarning : Event → Bool
  | .droppedReturn => true
  | _ => false

/-- The event as a line. -/
def eventLine : Event → String
  | .droppedReturn =>
    "WARN kythera_core::translator: dropping return statement outside of a function\n"
  | .loweredNew target =>
    "DEBUG kythera_core::translator: lowered target type for new target=" ++ target.display
      ++ "\n"
  | .emitted kind =>
    "DEBUG kythera_core::translator: emitted statement kind=" ++ Text.inspect kind ++ "\n"
  | .openedScope scope parent kind =>
    "DEBUG kythera_core::scope: opened scope scope=" ++ Text.decimal scope ++ " parent="
      ++ Text.decimal parent ++ " kind=" ++ scopeKindName kind ++ "\n"
  | .complete bindings =>
    "DEBUG kythera_cli: translation complete bindings=" ++ Text.decimal bindings ++ "\n"

/-- The lines of a log that a filter lets through. -/
def LogFilter.lines (filter : LogFilter) (log : List Event) : String :=
  match filter with
  | .off => ""
  | .warnings => String.join ((log.filter isWarning).map eventLine)
  | .everything => String.join (log.map eventLine)

end Arbor.Cli
