/-!
# Outcomes

The states of a session, and what comes of its operations.
-/

namespace Relabel

namespace Session

/-- Where a session is. -/
inductive State where
  /-- Nothing is to be found and nothing to be put. -/
  | idle
  /-- There is a find text or a replace template. -/
  | previewing
  /-- The names have been given. -/
  | confirmed
  /-- The names have been given up. -/
  | cancelled
  deriving DecidableEq, Repr

namespace State

/-- The session has ended. -/
def isFinal : State → Bool
  | confirmed | cancelled => true
  | idle | previewing => false

def label : State → String
  | idle => "idle"
  | previewing => "previewing"
  | confirmed => "confirmed"
  | cancelled => "cancelled"

end State

/-- What has become of one item. -/
inductive Outcome where
  | renamed (old new : String)
  /-- The new name was the old one. -/
  | skipped (name : String)
  /-- The item has refused its new name. -/
  | failed (name proposed detail : String)
  deriving DecidableEq, Repr

namespace Outcome

def isRenamed : Outcome → Bool
  | renamed .. => true
  | _ => false

def isSkipped : Outcome → Bool
  | skipped .. => true
  | _ => false

def isFailed : Outcome → Bool
  | failed .. => true
  | _ => false

end Outcome

/-- What has come of saving a preset. `persisted` says that the file has been written. -/
inductive SaveOutcome where
  | added (name : String) (persisted : Bool)
  | overwritten (name : String) (persisted : Bool)
  /-- The name was there, and was not to be overwritten. -/
  | declined (name : String)
  /-- No name was given. -/
  | cancelled
  deriving DecidableEq, Repr

/-- What has come of deleting the selected preset. -/
inductive DeleteOutcome where
  /-- Deleted, or put back if the file could not be written. -/
  | deleted (name : String) (persisted : Bool)
  | declined (name : String)
  | nothingSelected
  deriving DecidableEq, Repr

end Session
end Relabel
