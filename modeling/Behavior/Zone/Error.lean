import Behavior.Entity
/-!
# Zone errors
-/

namespace Behavior

/-- Why a zone refuses. -/
inductive ZoneError where
  | duplicateEntity (id : EntityId)
  | unknownEntity (id : EntityId)
  | schedulerStopped
  deriving DecidableEq, Repr

def ZoneError.message : ZoneError → String
  | duplicateEntity id => "entity " ++ id.text ++ " is already registered in this zone"
  | unknownEntity id => "entity " ++ id.text ++ " is not registered in this zone"
  | schedulerStopped => "scheduler has been shut down"

end Behavior
