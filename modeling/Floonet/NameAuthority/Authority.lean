import Floonet.System
import Floonet.NameAuthority.Names
import Floonet.NameAuthority.Nip98

/-!
# The write endpoints of the name authority

`register`, `unregister` and the paid gate, as programs over the atomic operations.
The order of the checks, the answers and their texts are those of
`name_authority/mod.rs`. Between any two operations other requests may run; the
handler itself suspends only while it waits in the paid gate, but with several
requests on several threads that makes no difference.
-/

namespace Floonet.NameAuthority

open Hex (Bytes)
open Process (Proc)
open Payment

/-! ## Configuration -/

/-- The `[name_authority]` settings the write endpoints read. -/
structure Config where
  domain : String
  baseUrl : String
  nameMin : Nat
  nameMax : Nat
  /-- asserted when the settings are read -/
  bounds : 0 < nameMin ∧ nameMin ≤ nameMax
  nameChangeCooldownSecs : Nat
  authMaxAgeSecs : Int
  writeRateMax : Nat
  writeRateWindowSecs : Nat

/-- Resolved paid-names state, for `pay_mode = "name"`. -/
structure PaidNames where
  priceNanogrin : Nat
  priceGrin : Json.Number

/-- The settings of the name authority and the libraries it calls. -/
structure Authority where
  cfg : Config
  /-- operator domain labels and reserved-file names -/
  extraReserved : List String
  /-- `None` is `PaidNames::Free` -/
  paid : Option PaidNames
  nip98 : Nip98
  /-- `serde_json::from_slice::<RegisterBody>`: name and pubkey -/
  registerBody : Bytes → Option (String × String)
  keys : Keys

/-- An HTTP request to a write endpoint. -/
structure HttpRequest where
  ip : String
  authorization : Option String
  /-- `size_hint().upper()` -/
  sizeHint : Option Nat
  /-- `None` when the body cannot be read -/
  body : Option Bytes

/-! ## Responses -/

/-- Status code and JSON body. -/
structure Response where
  status : Nat
  body : Json.Value

/-- A body that only names the error. -/
def errorResponse (status : Nat) (error : String) : Response :=
  ⟨status, .object [("error", .string error)]⟩

/-- Too many requests. -/
def rateLimited : Response := errorResponse 429 "rate_limited"

/-- A failure on the side of the relay, without its reason. -/
def serverError : Response := errorResponse 500 "internal error"

/-- The name and its address, for a claim that stands. -/
def claimResponse (a : Authority) (status : Nat) (name : String) : Response :=
  ⟨status, .object [("name", .string name), ("nip05", .string (name ++ "@" ++ a.cfg.domain))]⟩

/-- 402 carrying everything a client needs to open the GoblinPay pay page. -/
def paymentRequired (invoiceId payUrl : String) (paid : PaidNames) : Response :=
  ⟨402, .object [("error", .string "payment_required"), ("invoice_id", .string invoiceId),
    ("pay_url", .string payUrl), ("price_grin", .number paid.priceGrin),
    ("price_nanogrin", .number (.posInt paid.priceNanogrin))]⟩

/-! ## The sections the endpoints go through

Every access to shared state is one atomic operation: a mutex section, a statement on the pool, a
repository call or a request to the processor. Between two of them any other task may run. -/

/-- Largest register body we accept. -/
def MAX_BODY_BYTES : Nat := 8192

/-- The limiter is asked about a write. -/
abbrev allowWriteOp (a : Authority) (bucket ip : String) : Op :=
  .limits (.allow bucket ip a.cfg.writeRateMax (secs a.cfg.writeRateWindowSecs))

/-- `auth_max_age_secs.max(0) + 5` seconds. -/
def authWindow (a : Authority) : Nat := secs (a.cfg.authMaxAgeSecs.toNat + 5)

/-- An authorization is used up, if it was not before. -/
abbrev freshOp (a : Authority) (authId : String) : Op := .limits (.authEventFresh (authWindow a) authId)

/-- The bucket of the release cooldown. -/
def NAMECHANGE : String := "na-namechange"

/-- Did the key let a name go not long ago? -/
abbrev cooldownOp (a : Authority) (key : String) : Op :=
  .limits (.cooldownActive NAMECHANGE key (secs a.cfg.nameChangeCooldownSecs))

/-- The release is noted down for the cooldown. -/
abbrev recordReleaseOp (key : String) : Op := .limits (.recordOp NAMECHANGE key)

/-- The owner of a name. -/
abbrev lookupOp (name : String) : Op := .claims (.lookup name)

/-- The name of a key. -/
abbrev nameOfOp (pubkey : String) : Op := .claims (.nameOf pubkey)

/-- The claim itself. -/
abbrev insertOp (name pubkey : String) : Op := .claims (.insert name pubkey)

/-- The release itself. -/
abbrev releaseOp (name : String) : Op := .claims (.release name)

/-- The balance of the key and whether it is admitted. -/
abbrev balanceOp (key : String) : Op := .repo (.getAccountBalance key)

/-- The invoice of the key that is still to be paid. -/
abbrev unpaidOp (key : String) : Op := .repo (.getUnpaidInvoice key)

/-- An account for the key, if it has none. -/
abbrev createAccountOp (key : String) : Op := .repo (.createAccount key)

/-- The key is admitted and pays for it. -/
abbrev admitOp (key : String) (cost : Nat) : Op := .repo (.admitAccount key cost)

/-- The new status of an invoice. -/
abbrev updateInvoiceOp (hash : String) (status : InvoiceStatus) : Op :=
  .repo (.updateInvoice hash status)

/-- A new invoice is stored. -/
abbrev recordInvoiceOp (key : String) (info : InvoiceInfo) : Op :=
  .repo (.createInvoiceRecord key info)

/-- The processor makes an invoice. -/
abbrev getInvoiceOp (key : String) (amount : Nat) : Op := .processor (.getInvoice key amount)

/-- The processor says whether an invoice is paid. -/
abbrev checkOp (hash : String) : Op := .processor (.checkInvoice hash)

/-! ## The paid gate

The gate is four functions that call one another, from the account read down to the new invoice.
Errors of the two reads are passed over, as in the source. -/

/-- Create and persist a fresh GoblinPay invoice; respond 402 with the hosted pay page. -/
def newInvoice (paid : PaidNames) (key : String) : Task Response :=
  .call (getInvoiceOp key paid.priceNanogrin) fun
    | some invoice =>
      .call (recordInvoiceOp key invoice) fun
        | .ok () => .ret (paymentRequired invoice.paymentHash invoice.bolt11 paid)
        | .error _ => .ret serverError
    | none => .ret serverError

/-- A confirmed payment: mark the invoice paid, then admit the account. -/
def confirm (paid : PaidNames) (key : String) (invoice : InvoiceInfo) : Task (Option Response) :=
  .call (updateInvoiceOp invoice.paymentHash .paid) fun
    | .error _ => .ret (some serverError)
    | .ok _ =>
      .call (admitOp key paid.priceNanogrin) fun
        | .error _ => .ret (some serverError)
        | .ok () => .ret none

/-- Poll GoblinPay for the status of an invoice. -/
def poll (paid : PaidNames) (key : String) (invoice : InvoiceInfo) : Task (Option Response) :=
  .call (checkOp invoice.paymentHash) fun
    | some .paid => confirm paid key invoice
    | some .unpaid => .ret (some (paymentRequired invoice.paymentHash invoice.bolt11 paid))
    | some .expired =>
      .call (updateInvoiceOp invoice.paymentHash .expired) fun _ => some <$> newInvoice paid key
    | none => .ret (some serverError)

/-- Outstanding invoice, or first contact. -/
def outstanding (paid : PaidNames) (key : String) : Task (Option Response) :=
  .call (unpaidOp key) fun
    | .ok (some invoice) => poll paid key invoice
    -- First contact: create the account row and a fresh invoice.
    | _ => .call (createAccountOp key) fun _ => some <$> newInvoice paid key

/-- The gate for a key that parses. Errors of the two reads are passed over. -/
def gate (paid : PaidNames) (key : String) : Task (Option Response) :=
  .call (balanceOp key) fun
    -- Already paid?
    | .ok (true, _) => .ret none
    | _ => outstanding paid key

/-- The paid gate. Returns None when the claim may proceed; otherwise the response to
send. -/
def paidGate (a : Authority) (pubkey : String) : Task (Option Response) :=
  match a.paid with
  | none => .ret none
  | some paid =>
    match a.keys.fromPkStr pubkey with
    | none => .ret (some (errorResponse 400 "invalid pubkey"))
    | some key => gate paid key

/-! ## Register

A register request is cut where its source is cut by early returns: each part takes what the one
before has established and is a program of its own. -/

/-- The insert and its row count. -/
def claim (a : Authority) (name pubkey : String) : Task Response :=
  .call (insertOp name pubkey) fun
    -- the `ON CONFLICT` no-op fired: the name is already active
    | .ok 0 => .ret (errorResponse 409 "name taken")
    | .ok (_ + 1) => .ret (claimResponse a 201 name)
    | .error .constraintViolation => .ret (errorResponse 409 "pubkey already has a name")
    | .error .other => .ret (errorResponse 500 "db error")

/-- The claim proper, once the request is known to be valid. -/
def registerName (a : Authority) (name pubkey : String) : Task Response :=
  .call (lookupOp name) fun
    | some owner =>
      if owner = pubkey then .ret (claimResponse a 200 name)
      else .ret (errorResponse 409 "name taken")
    | none =>
      .call (nameOfOp pubkey) fun
        | some existing =>
          .ret ⟨409, .object [("error", .string "pubkey already has a name"),
            ("name", .string existing)]⟩
        | none => do
          match ← paidGate a pubkey with
          | some resp => return resp
          | none => claim a name pubkey

/-- The checks on name and pubkey, both already in lower case. -/
def registerChecked (a : Authority) (name pubkey authPubkey : String) : Task Response :=
  if !validPubkeyHex pubkey then .ret (errorResponse 400 "invalid pubkey")
  else if pubkey ≠ authPubkey then
    .ret (errorResponse 401 "auth pubkey does not match body pubkey")
  else if !validName name a.cfg.nameMin a.cfg.nameMax then .ret (errorResponse 400 "invalid name")
  else if isReserved name a.extraReserved then .ret (errorResponse 403 "name reserved")
  else registerName a name pubkey

/-- After `verify_nip98`: the pubkey and the auth event id, or an error. -/
def onAuth (auth : Except String (String × String)) (next : String → String → Task Response) :
    Task Response :=
  match auth with
  | .error msg => .ret (errorResponse 401 msg)
  | .ok (authPubkey, authId) => next authPubkey authId

@[simp] theorem onAuth_error (msg : String) (next : String → String → Task Response) :
    onAuth (.error msg) next = .ret (errorResponse 401 msg) := rfl

@[simp] theorem onAuth_ok (pk id : String) (next : String → String → Task Response) :
    onAuth (.ok (pk, id)) next = next pk id := rfl

/-- The replay check. -/
def onFresh (a : Authority) (authId : String) (next : Task Response) : Task Response :=
  .call (freshOp a authId) fun
    | false => .ret (errorResponse 401 "auth event replayed")
    | true => next

/-- The cooldown is armed by a release, not a claim. -/
def onCooldownOver (a : Authority) (authPubkey : String) (next : Task Response) : Task Response :=
  .call (cooldownOp a authPubkey) fun
    | true => .ret (errorResponse 429 "name_change_cooldown")
    | false => next

/-- The body of a register request. -/
def registerParsed (a : Authority) (body : Option (String × String)) (authPubkey : String) :
    Task Response :=
  match body with
  | none => .ret (errorResponse 400 "invalid body")
  | some (name, pubkey) =>
    registerChecked a (strToLowercase name) (strToLowercase pubkey) authPubkey

/-- After authorization: replay check, cooldown, body. -/
def registerAs (a : Authority) (body : Bytes) (authPubkey authId : String) : Task Response :=
  onFresh a authId (onCooldownOver a authPubkey
    (registerParsed a (a.registerBody body) authPubkey))

/-- The authorization of a register request at a clock reading. -/
def registerAuth (a : Authority) (req : HttpRequest) (body : Bytes) (now : Nat) :
    Except String (String × String) :=
  a.nip98.verifyNip98 req.authorization "POST" "/api/v1/register" body a.cfg.baseUrl
    a.cfg.authMaxAgeSecs now

/-- `POST /api/v1/register`: claim a name. -/
def register (a : Authority) (req : HttpRequest) : Task Response :=
  .call (allowWriteOp a "na-reg" req.ip) fun
    | false => .ret rateLimited
    | true =>
      -- Fail closed on oversized bodies before buffering anything.
      if req.sizeHint.all (MAX_BODY_BYTES < ·) then .ret (errorResponse 413 "body too large")
      else
        match req.body with
        | none => .ret (errorResponse 400 "invalid body")
        | some body =>
          if MAX_BODY_BYTES < body.length then .ret (errorResponse 400 "invalid body")
          else
            .call .unixTime fun now => onAuth (registerAuth a req body now) (registerAs a body)

/-! ## Unregister -/

/-- The authorization of an unregister request at a clock reading. -/
def unregisterAuth (a : Authority) (name : String) (req : HttpRequest) (now : Nat) :
    Except String (String × String) :=
  a.nip98.verifyNip98 req.authorization "DELETE" ("/api/v1/register/" ++ name) []
    a.cfg.baseUrl a.cfg.authMaxAgeSecs now

/-- The release, for the owner that was read. Releasing is what arms the cooldown. -/
def releaseName (name authPubkey : String) : Task Response :=
  .call (releaseOp name) fun
    | .ok _ =>
      .call (recordReleaseOp authPubkey) fun _ =>
        .ret ⟨200, .object [("name", .string name), ("released", .bool true)]⟩
    | .error _ => .ret serverError

/-- After authorization: replay check, owner, release. -/
def unregisterAs (a : Authority) (name authPubkey authId : String) : Task Response :=
  onFresh a authId
    (.call (lookupOp name) fun
      | some owner =>
        if owner = authPubkey then releaseName name authPubkey
        else .ret (errorResponse 403 "not the owner")
      | none => .ret (errorResponse 404 "name not found"))

/-- `DELETE /api/v1/register/{name}`: release a name. -/
def unregister (a : Authority) (name : String) (req : HttpRequest) : Task Response :=
  .call (allowWriteOp a "na-unreg" req.ip) fun
    | false => .ret rateLimited
    | true =>
      .call .unixTime fun now =>
        onAuth (unregisterAuth a (strToLowercase name) req now)
          (unregisterAs a (strToLowercase name))

end Floonet.NameAuthority
