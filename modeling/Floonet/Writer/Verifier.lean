import Floonet.Nip05
import Floonet.Payment.Ledger

/-!
# The verifier on a metadata event

The verifier takes the metadata events the writer forwards. An author whose address
answers for them gets a verification record; when verification is required the event was
held back by the writer, so the verifier writes and broadcasts it itself.
-/

namespace Floonet

open Payment (RepoError)

/-- Result of checking user's verification status against DNS/HTTP. -/
inductive UserWebVerificationStatus where
  | verified
  | domainNotAllowed
  | unknown
  | unverified
  deriving DecidableEq

/-- What the calls of the verifier return for one metadata event. -/
structure MetadataCheck where
  /-- `get_latest_user_verification` -/
  latest : Except RepoError VerificationRecord
  /-- what the address answers -/
  web : UserWebVerificationStatus
  /-- `write_event` -/
  write : Except RepoError Nat

/-- What the verifier does with a verified event. -/
inductive VerifierEffect where
  | writeEvent (e : Event)
  | broadcast (e : Event)
  | createVerificationRecord (eventId name : String)

/-- `get_web_verification`; `answer` is what comes of asking the address. -/
def getWebVerification (vu : VerifiedUsers) (nip : Nip05Name) (answer : UserWebVerificationStatus) :
    UserWebVerificationStatus :=
  -- determine if this domain should be checked
  if isDomainAllowed nip.domain vu.domainWhitelist vu.domainBlacklist then answer
  else .domainNotAllowed

/-- Persist an event, create a verification record, and broadcast. -/
def createNewVerifiedUser (vu : VerifiedUsers) (write : Except RepoError Nat) (name : String)
    (e : Event) : List VerifierEffect :=
  -- if we are passive, the event has already been persisted
  (if vu.isEnabled then
    match write with
    | .ok updated => if updated ≠ 0 then [.writeEvent e, .broadcast e] else [.writeEvent e]
    | .error _ => [.writeEvent e]
  else []) ++ [.createVerificationRecord e.id name]

/-- The event is not newer than the one of the latest verification. -/
def isSuperseded (latest : Except RepoError VerificationRecord) (e : Event) : Bool :=
  match latest with
  | .ok lastCheck => e.createdAt ≤ lastCheck.eventCreated
  | .error _ => false

/-- A metadata event. -/
def onMetadata (vu : VerifiedUsers) (rd : Nip05Reader) (c : MetadataCheck) (e : Event) :
    List VerifierEffect :=
  match e.getNip05Addr rd with
  | none => []
  | some naddr =>
    if isSuperseded c.latest e then []
    else if getWebVerification vu naddr c.web = .verified then
      createNewVerifiedUser vu c.write naddr.toString e
    else []

/-- What the verifier writes and broadcasts is the event it was given. -/
theorem event_of_onMetadata {vu : VerifiedUsers} {rd : Nip05Reader} {c : MetadataCheck}
    {e f : Event}
    (h : .writeEvent f ∈ onMetadata vu rd c e ∨ .broadcast f ∈ onMetadata vu rd c e) : f = e := by
  have hnew : ∀ name, .writeEvent f ∈ createNewVerifiedUser vu c.write name e ∨
      .broadcast f ∈ createNewVerifiedUser vu c.write name e → f = e := by
    intro name h
    by_cases hon : vu.isEnabled = true
    · rcases hw : c.write with err | updated <;>
        simp only [createNewVerifiedUser, hon, hw, if_true] at h
      · simpa using h
      · split_ifs at h <;> simpa using h
    · simp [createNewVerifiedUser, hon] at h
  rw [onMetadata] at h
  rcases hn : e.getNip05Addr rd with _ | naddr <;> simp only [hn] at h
  · simp at h
  · by_cases hold : isSuperseded c.latest e = true
    · simp [hold] at h
    · rw [if_neg hold] at h
      by_cases hweb : getWebVerification vu naddr c.web = .verified
      · rw [if_pos hweb] at h
        exact hnew _ h
      · simp [hweb] at h

end Floonet
