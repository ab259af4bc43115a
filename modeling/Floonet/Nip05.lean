import Floonet.Event
import Floonet.Lib.Outcome

/-!
# NIP-05 names and verification records

An author is verified by an internet address in a metadata event. What the relay keeps of
it is a record with the times of the last checks; `isValid` is the test a publishing author
has to pass. Times are in nanoseconds since the epoch, except where the records hold
seconds.
-/

namespace Floonet

/-- A NIP-05 identifier is a local part and domain. -/
structure Nip05Name where
  localPart : String
  domain : String
  deriving DecidableEq

namespace Nip05Name

/-- `Nip05Name::try_from`: break the full name at the `@` boundary. The classes of
characters are those of Unicode. -/
def tryFrom (isAlphanumeric : Char → Bool) (inet : String) : Option Nip05Name :=
  match inet.toList.splitOn '@' with
  | [name, domain] =>
    if name.all fun x => isAlphanumeric x || x == '_' || x == '-' || x == '.' then
      if domain.all fun x => isAlphanumeric x || x == '-' || x == '.' then
        some ⟨String.ofList name, String.ofList domain⟩
      else none
    else none
  | _ => none

/-- A name as it is written. -/
def toString (n : Nip05Name) : String := n.localPart ++ "@" ++ n.domain

end Nip05Name

/-- How names and the profiles they stand in are read, by code from outside the
repository. -/
structure Nip05Reader where
  isAlphanumeric : Char → Bool
  /-- `serde_json::from_str::<Value>` -/
  fromStr : String → Option Json.Value

/-- `map.get`: of the members of one name the last one stays. -/
def memberOf (key : String) : Json.Value → Option Json.Value
  | .object members => (members.reverse.find? fun m => m.1 == key).map Prod.snd
  | _ => none

/-- The NIP-05 address of a metadata event. -/
def Event.getNip05Addr (rd : Nip05Reader) (e : Event) : Option Nip05Name :=
  if e.isKindMetadata then
    -- very quick check if we should attempt to parse this json
    if Json.renderString "nip05" <:+: e.content.toList then do
      let md ← rd.fromStr e.content
      let nip05 ← memberOf "nip05" md
      let nip05 ← nip05.toStr
      Nip05Name.tryFrom rd.isAlphanumeric nip05
    else none
  else none

/-! ## Settings -/

/-- What a relay does about NIP-05 names. -/
inductive VerifiedUsersMode where
  | enabled
  | passive
  | disabled
  deriving DecidableEq

/-- The `[verified_users]` settings. -/
structure VerifiedUsers where
  mode : VerifiedUsersMode
  domainWhitelist : Option (List String)
  domainBlacklist : Option (List String)
  /-- how long a verification is good for, in nanoseconds -/
  verifyExpirationDuration : Option Nat
  /-- how often to attempt to update verification, in nanoseconds -/
  verifyUpdateFrequencyDuration : Option Nat
  /-- failures in a row before future checks cease -/
  maxConsecutiveFailures : Nat

namespace VerifiedUsers

/-- Only verified authors may publish. -/
def isEnabled (vu : VerifiedUsers) : Bool := vu.mode == .enabled

/-- Names are verified, whether or not anything depends on it. -/
def isActive (vu : VerifiedUsers) : Bool := vu.mode == .enabled || vu.mode == .passive

end VerifiedUsers

/-- Check with settings to determine if a given domain is allowed to publish. -/
def isDomainAllowed (domain : String) (whitelist blacklist : Option (List String)) : Bool :=
  match whitelist with
  | some wl => wl.contains domain
  | none =>
    match blacklist with
    | some bl => !bl.contains domain
    | none => true

/-! ## Records -/

/-- A NIP-05 verification record. -/
structure VerificationRecord where
  /-- database row for this verification event -/
  rowid : Nat
  /-- address being verified -/
  name : Nip05Name
  /-- pubkey -/
  address : String
  /-- event ID hash providing the verification -/
  event : String
  eventCreated : Nat
  /-- in seconds; `none` when no verification under this name succeeded -/
  lastSuccess : Option Nat
  lastFailure : Option Nat
  failureCount : Nat
  deriving DecidableEq

namespace VerificationRecord

/-- `SystemTime` counts seconds in 64 signed bits; a subtraction that leaves them panics. -/
def subPanics (now d : Nat) : Bool := now + 2 ^ 63 * 1000000000 < d

/-- Check if this record has been validated since the given duration. -/
def isCurrent (v : VerificationRecord) (now d : Nat) : Outcome Empty Bool :=
  match v.lastSuccess with
  | some s => if subPanics now d then .panic else .ok ((now - d) / 1000000000 < s)
  | none => .ok false

/-- Check if the record is recent enough to be considered valid, and the domain is
allowed. -/
def isValid (v : VerificationRecord) (now : Nat) (vu : VerifiedUsers) : Outcome Empty Bool := do
  let current ←
    match vu.verifyExpirationDuration with
    | some e => v.isCurrent now e
    | none => pure true
  if current then
    pure (isDomainAllowed v.name.domain vu.domainWhitelist vu.domainBlacklist)
  else pure false

end VerificationRecord

end Floonet
