import Floonet.Event

/-!
# NIP-98 HTTP authorization

Verify an `Authorization: Nostr <base64>` header carrying a signed kind-27235
event, including signature, freshness, and the `u`, `method` and `payload` tags
(`nip98.rs`). Base64, the JSON reader and the hash of the raw body come from outside
the repository and are parameters (`Nip98`).
-/

namespace Floonet.NameAuthority

open Hex (Bytes)

/-- NIP-98 HTTP auth event kind. -/
def HTTP_AUTH_KIND : Nat := 27235

/-- The libraries a header is read with. -/
structure Nip98 where
  crypto : Crypto
  /-- `base64::engine::general_purpose::STANDARD.decode` -/
  base64Decode : String → Option Bytes
  /-- `serde_json::from_slice::<Event>` -/
  eventFromSlice : Bytes → Option Event
  /-- SHA-256 of raw bytes -/
  sha256 : Bytes → Bytes

/-- `strip_prefix`. -/
def stripPrefix (pre s : String) : Option String :=
  if pre.toList.isPrefixOf s.toList then some (String.ofList (s.toList.drop pre.toList.length))
  else none

/-- `trim_end_matches('/')`. -/
def trimEndSlashes (s : String) : String :=
  String.ofList ((s.toList.reverse.dropWhile (· == '/')).reverse)

/-- `eq_ignore_ascii_case`. -/
def eqIgnoreAsciiCase (s t : String) : Bool :=
  s.toList.map Char.toLower == t.toList.map Char.toLower

/-- Wrap into the range of an `i64`. -/
def wrapI64 (z : Int) : Int := (z + 2 ^ 63) % 2 ^ 64 - 2 ^ 63

/-- What the tags of an auth event say, the last of each kind counting. -/
structure AuthTags where
  uOk : Bool := false
  methodOk : Bool := false
  payloadHash : Option String := none
  deriving DecidableEq

/-- One round of the loop over the tags. -/
def AuthTags.read (method expected : String) (acc : AuthTags) (tag : List String) : AuthTags :=
  match tag with
  | "u" :: rest =>
    match rest.head? with
    | some u => { acc with uOk := trimEndSlashes u == trimEndSlashes expected }
    | none => acc
  | "method" :: rest =>
    match rest.head? with
    | some m => { acc with methodOk := eqIgnoreAsciiCase m method }
    | none => acc
  | "payload" :: rest => { acc with payloadHash := rest.head? }
  | _ => acc

namespace Nip98

variable (lib : Nip98)

/-- The event of a header, up to its signature. -/
def authEvent (authHeader : Option String) : Except String Event :=
  match authHeader with
  | none => .error "missing Authorization header"
  | some auth =>
    match stripPrefix "Nostr " auth with
    | none => .error "Authorization scheme must be Nostr"
    | some b64 =>
      match lib.base64Decode (trim b64) with
      | none => .error "invalid base64 auth event"
      | some raw =>
        match lib.eventFromSlice raw with
        | none => .error "invalid auth event json"
        | some event =>
          match event.validate lib.crypto with
          | .error _ => .error "bad event signature"
          | .ok () => .ok event

/-- The body is the one that was signed; only an empty body may go unsigned. -/
def checkPayload (payloadHash : Option String) (body : Bytes) : Except String Unit :=
  match payloadHash with
  | some expect =>
    if !eqIgnoreAsciiCase expect (Hex.encode (lib.sha256 body)) then
      .error "auth event payload hash mismatch"
    else .ok ()
  | none => if !body.isEmpty then .error "auth event missing payload hash" else .ok ()

/-- The checks made of the event, at a clock reading in whole seconds. -/
def checkEvent (event : Event) (method urlPath : String) (body : Bytes) (baseUrl : String)
    (authMaxAgeSecs : Int) (unixTime : Nat) : Except String (String × String) :=
  if event.kind ≠ HTTP_AUTH_KIND then .error "auth event kind must be 27235"
  else
    let age := wrapI64 (asI64 unixTime - asI64 event.createdAt)
    if authMaxAgeSecs < age ∨ age < -5 then .error "auth event expired or post-dated"
    else
      let tags := event.tags.foldl (AuthTags.read method (baseUrl ++ urlPath)) {}
      if !tags.uOk then .error "auth event url mismatch"
      else if !tags.methodOk then .error "auth event method mismatch"
      else
        match lib.checkPayload tags.payloadHash body with
        | .error msg => .error msg
        | .ok () => .ok (event.pubkey, event.id)

/-- Verify a NIP-98 auth header for `method` and `urlPath` over `body`. On success
returns the authenticated pubkey hex and the auth event id hex. -/
def verifyNip98 (authHeader : Option String) (method urlPath : String) (body : Bytes)
    (baseUrl : String) (authMaxAgeSecs : Int) (unixTime : Nat) :
    Except String (String × String) :=
  match lib.authEvent authHeader with
  | .error msg => .error msg
  | .ok event => lib.checkEvent event method urlPath body baseUrl authMaxAgeSecs unixTime

/-- The signer of a header: the pubkey of its event, if the signature holds. -/
def signer (authHeader : Option String) : Option String :=
  match lib.authEvent authHeader with
  | .error _ => none
  | .ok event => some event.pubkey

variable {lib}

/-- What an accepted header is made of. -/
theorem verifyNip98_inv {authHeader : Option String} {method urlPath : String} {body : Bytes}
    {baseUrl : String} {authMaxAgeSecs : Int} {unixTime : Nat} {pk id : String}
    (h : lib.verifyNip98 authHeader method urlPath body baseUrl authMaxAgeSecs unixTime =
      .ok (pk, id)) :
    ∃ event, lib.authEvent authHeader = .ok event ∧ event.pubkey = pk ∧ event.id = id ∧
      wrapI64 (asI64 unixTime - asI64 event.createdAt) ≤ authMaxAgeSecs ∧
      -5 ≤ wrapI64 (asI64 unixTime - asI64 event.createdAt) := by
  rw [verifyNip98] at h
  rcases he : lib.authEvent authHeader with msg | event <;> simp only [he] at h
  · cases h
  · refine ⟨event, rfl, ?_⟩
    simp only [checkEvent] at h
    split_ifs at h with hkind hage hu hmethod
    split at h
    · cases h
    · obtain ⟨rfl, rfl⟩ := Prod.mk.inj (Except.ok.inj h)
      exact ⟨rfl, rfl, not_lt.mp fun hlt => hage (.inl hlt), not_lt.mp fun hlt => hage (.inr hlt)⟩

theorem signer_of_verifyNip98 {authHeader : Option String} {method urlPath : String} {body : Bytes}
    {baseUrl : String} {authMaxAgeSecs : Int} {unixTime : Nat} {pk id : String}
    (h : lib.verifyNip98 authHeader method urlPath body baseUrl authMaxAgeSecs unixTime =
      .ok (pk, id)) : lib.signer authHeader = some pk := by
  obtain ⟨event, he, rfl, -⟩ := verifyNip98_inv h
  simp only [signer, he]

end Nip98

end Floonet.NameAuthority
