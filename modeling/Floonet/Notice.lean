/-!
# Notices to the client

What the relay answers to a message: a plain text, the result of one event, or the
AUTH challenge. An event result counts as success when the event was saved or was
there already.
-/

namespace Floonet

/-- How an event ended. -/
inductive EventResultStatus where
  | saved
  | duplicate
  | invalid
  | blocked
  | rateLimited
  | error
  | restricted
  deriving DecidableEq

namespace EventResultStatus

/-- The event was accepted, or was there before. -/
def toBool : EventResultStatus → Bool
  | duplicate | saved => true
  | invalid | blocked | rateLimited | error | restricted => false

/-- The word in front of the message. -/
def prefixText : EventResultStatus → String
  | saved => "saved"
  | duplicate => "duplicate"
  | invalid => "invalid"
  | blocked => "blocked"
  | rateLimited => "rate-limited"
  | error => "error"
  | restricted => "restricted"

end EventResultStatus

/-- The result of one event, as the `OK` message carries it. -/
structure EventResult where
  id : String
  msg : String
  status : EventResultStatus
  deriving DecidableEq

/-- A notice to the client. -/
inductive Notice where
  | message (msg : String)
  | eventResult (res : EventResult)
  | authChallenge (challenge : String)
  deriving DecidableEq

namespace Notice

/-- The answer to an event, with the word of its status in front. -/
def prefixed (id msg : String) (status : EventResultStatus) : Notice :=
  .eventResult ⟨id, status.prefixText ++ ": " ++ msg, status⟩

/-- The event is not valid. -/
def invalid (id msg : String) : Notice := prefixed id msg .invalid

/-- The author may not publish here. -/
def blocked (id msg : String) : Notice := prefixed id msg .blocked

/-- The event is stored already. -/
def duplicate (id : String) : Notice := prefixed id "" .duplicate

/-- Something went wrong on the side of the relay. -/
def error (id msg : String) : Notice := prefixed id msg .error

/-- The client has to authenticate for that. -/
def restricted (id msg : String) : Notice := prefixed id msg .restricted

/-- NIP-42: not accepted, and the prefix tells the client to AUTH and resend. -/
def authRequired (id msg : String) : Notice :=
  .eventResult ⟨id, "auth-required: " ++ msg, .restricted⟩

/-- The event is stored. -/
def saved (id : String) : Notice := .eventResult ⟨id, "", .saved⟩

end Notice

end Floonet
