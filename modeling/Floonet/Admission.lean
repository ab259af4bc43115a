import Floonet.Event

/-!
# Event admission: composable write-side policies

Every EVENT a client publishes passes one `Admission.check` before it is queued
for the database writer. The pipeline is an ordered list of small policies and
the first denial wins. The kind whitelist comes first and is default-deny; the
gift-wrap guard keeps expiration tags away from kind 1059, whose rows must never
be removed again.
-/

namespace Floonet

open Hex (Bytes)

/-- The default kind whitelist, applied when none is configured. -/
def DEFAULT_ALLOWED_KINDS : List Nat :=
  [0, 1, 3, 5, 7, 13, 14, 16, 17, 1059, 1111, 10000, 10002, 10050, 24133, 24140, 27235, 30000,
    30003, 30023, 30078, 30402, 30405, 30406, 31990]

/-- The public-note kinds accepted only from authorized authors. -/
def LOCKED_KINDS : List Nat := [1, 30023]

/-- The gift-wrap kind (NIP-59) carrying payment envelopes. -/
def GIFT_WRAP_KIND : Nat := 1059

/-- Outcome of an admission check. -/
inductive Decision where
  | allow
  /-- the reason sent to the client, and whether it is that AUTH is missing -/
  | deny (reason : String) (authRequired : Bool)
  deriving DecidableEq

namespace Decision

/-- A refusal with a reason. -/
def denied (reason : String) : Decision := .deny reason false

/-- A refusal that asks for authentication. -/
def deniedAuth (reason : String) : Decision := .deny reason true

end Decision

/-- The settings the pipeline is built from. -/
structure Settings where
  /-- `limits.event_kind_allowlist` -/
  eventKindAllowlist : Option (List Nat)
  /-- `authorization.public_note_authors` -/
  publicNoteAuthors : Option (List String)
  /-- `authorization.nip42_auth` -/
  nip42Auth : Bool
  /-- `authorization.require_auth_to_write` -/
  requireAuthToWrite : Bool
  /-- `authorization.pubkey_whitelist` -/
  pubkeyWhitelist : Option (List String)
  /-- `pay_to_relay.enabled` -/
  payToRelayEnabled : Bool

/-- The settings the relay ships with. -/
def Settings.default : Settings where
  eventKindAllowlist := some DEFAULT_ALLOWED_KINDS
  publicNoteAuthors := none
  nip42Auth := false
  requireAuthToWrite := false
  pubkeyWhitelist := none
  payToRelayEnabled := false

/-- `nip19_to_hex`; `bech32` is the external decoder down to the payload bytes. -/
def nip19ToHex (bech32 : String → Option Bytes) (s : String) : Option String :=
  (bech32 s).map Hex.encode

/-- One admission policy with its data. -/
inductive AdmissionPolicy where
  | kindWhitelist (allowed : List Nat)
  | giftWrapRetention
  | restrictedKindAuthors (authors : List String)
  | requireAuth
  | pubkeyWhitelist (allowed : List String)

/-- The canonical pubkey of one configured author, an npub or a hex pubkey. -/
def parseAuthorEntry (bech32 : String → Option Bytes) (entry : String) : Option String :=
  let e := trim entry
  if e = "" then none
  else
    let hex :=
      if isNip19 e then nip19ToHex bech32 e
      else if byteLen e = 64 && isHex e then some (toLowercase e)
      else none
    match hex with
    | some h => if byteLen h = 64 then some (toLowercase h) else none
    | none => none

/-- Build from operator config entries; invalid ones are skipped. -/
def AdmissionPolicy.fromEntries (bech32 : String → Option Bytes) (entries : List String) :
    AdmissionPolicy :=
  .restrictedKindAuthors (entries.filterMap (parseAuthorEntry bech32))

/-- The values of the `p` tags of a gift wrap. -/
def giftWrapRecipients (event : Event) : List String :=
  event.tags.filterMap fun tag =>
    match tag with
    | name :: value :: _ => if name = "p" then some value else none
    | _ => none

/-- Exactly one recipient, strictly lower-case. -/
def recipientOk (event : Event) : Bool :=
  match giftWrapRecipients event with
  | [pubkey] => byteLen pubkey = 64 && isLowerHex pubkey
  | _ => false

/-- Gift-wrap retention and shape guard. -/
def giftWrapCheck (event : Event) : Decision :=
  if event.kind ≠ GIFT_WRAP_KIND then .allow
  else if event.tags.any fun tag => tag.head? == some "expiration" then
    .denied "expiration not allowed on gift wraps"
  else if !recipientOk event then .denied "gift wrap missing recipient"
  else if event.tags.length ≠ 1 then .denied "gift wrap has extraneous tags"
  else .allow

/-- `AdmissionPolicy::check`; `authedPubkey` is the authenticated pubkey of the
connection, if any. -/
def AdmissionPolicy.check (event : Event) (authedPubkey : Option String) :
    AdmissionPolicy → Decision
  | .kindWhitelist allowed =>
    if allowed.contains event.kind then .allow
    else .denied ("event kind " ++ toString event.kind ++ " not accepted by this relay")
  | .giftWrapRetention => giftWrapCheck event
  | .restrictedKindAuthors authors =>
    if !LOCKED_KINDS.contains event.kind then .allow
    else if authors.contains (toLowercase event.pubkey) then .allow
    else .denied "this relay accepts public notes only from authorized authors"
  | .requireAuth =>
    if authedPubkey.isSome then .allow
    else .deniedAuth "authentication required to publish events"
  | .pubkeyWhitelist allowed =>
    if allowed.contains event.pubkey then .allow
    else .denied "pubkey is not allowed to publish to this relay"

/-- The composed admission pipeline the server consults. -/
structure Admission where
  policies : List AdmissionPolicy

namespace Admission

/-- Build the policy pipeline from settings. Order matters. -/
def fromSettings (bech32 : String → Option Bytes) (settings : Settings) : Admission where
  policies :=
    [.kindWhitelist (settings.eventKindAllowlist.getD DEFAULT_ALLOWED_KINDS),
      .giftWrapRetention,
      AdmissionPolicy.fromEntries bech32 (settings.publicNoteAuthors.getD [])] ++
    (if settings.nip42Auth && settings.requireAuthToWrite then [.requireAuth] else []) ++
    -- paid relays treat the whitelist as a fee exemption in the payment layer
    (if !settings.payToRelayEnabled then
      match settings.pubkeyWhitelist with
      | some whitelist => [.pubkeyWhitelist whitelist]
      | none => []
    else [])

/-- The policies in order, up to the first denial. -/
def checkPolicies (event : Event) (authedPubkey : Option String) :
    List AdmissionPolicy → Decision
  | [] => .allow
  | policy :: rest =>
    match policy.check event authedPubkey with
    | .allow => checkPolicies event authedPubkey rest
    | deny => deny

/-- Check an event against every policy in order; first denial wins. -/
def check (adm : Admission) (event : Event) (authedPubkey : Option String) : Decision :=
  checkPolicies event authedPubkey adm.policies

/-- An allowed event is allowed by each policy. -/
theorem checkPolicies_eq_allow {event : Event} {authed : Option String}
    {policies : List AdmissionPolicy} :
    checkPolicies event authed policies = .allow ↔
      ∀ policy ∈ policies, policy.check event authed = .allow := by
  induction policies with
  | nil => simp [checkPolicies]
  | cons policy rest ih =>
    rw [List.forall_mem_cons, ← ih, checkPolicies]
    rcases h : policy.check event authed with _ | ⟨reason, auth⟩ <;> simp

end Admission

/-! ## What an admitted gift wrap looks like -/

/-- A gift wrap is addressed well when it has exactly one recipient, a key in lower-case hex. -/
theorem recipientOk_iff {event : Event} : recipientOk event = true ↔
    ∃ recipient, giftWrapRecipients event = [recipient] ∧ byteLen recipient = 64 ∧
      isLowerHex recipient = true := by
  rw [recipientOk]
  split
  · rename_i pubkey h
    simp [h]
  · rename_i h
    simp only [Bool.false_eq_true, false_iff, not_exists, not_and]
    exact fun recipient hr => absurd hr (h recipient)

/-- An admitted gift wrap has exactly one tag, which names its recipient. -/
theorem giftWrapCheck_eq_allow {event : Event} (hk : event.kind = GIFT_WRAP_KIND)
    (h : giftWrapCheck event = .allow) :
    ∃ recipient rest, event.tags = ["p" :: recipient :: rest] ∧
      byteLen recipient = 64 ∧ isLowerHex recipient = true := by
  rw [giftWrapCheck] at h
  rw [if_neg (not_not.mpr hk)] at h
  split_ifs at h with hexp hrec hlen <;> try cases h
  obtain ⟨tag, htag⟩ := List.length_eq_one_iff.mp (not_not.mp hlen)
  obtain ⟨recipient, hp, hok⟩ := recipientOk_iff.mp (by simpa using hrec)
  rw [giftWrapRecipients, htag] at hp
  match tag, htag with
  | [], _ => simp at hp
  | [_], _ => simp at hp
  | name :: value :: rest, htag =>
    by_cases hn : name = "p"
    · subst hn
      simp only [List.filterMap_cons, if_true, List.filterMap_nil, List.cons.injEq,
        and_true] at hp
      subst hp
      exact ⟨value, rest, htag, hok⟩
    · simp [hn] at hp

/-- The recipient of an admitted gift wrap, whatever the settings. -/
theorem Admission.giftWrap_tags {bech32 : String → Option Bytes} {settings : Settings}
    {event : Event} {authed : Option String} (hk : event.kind = GIFT_WRAP_KIND)
    (h : (Admission.fromSettings bech32 settings).check event authed = .allow) :
    ∃ recipient rest, event.tags = ["p" :: recipient :: rest] ∧
      byteLen recipient = 64 ∧ isLowerHex recipient = true := by
  refine giftWrapCheck_eq_allow hk ?_
  exact checkPolicies_eq_allow.mp h .giftWrapRetention (by simp [fromSettings])

/-- An admitted gift wrap never expires. -/
theorem Admission.giftWrap_expiration {bech32 : String → Option Bytes} {settings : Settings}
    {event : Event} {authed : Option String} (hk : event.kind = GIFT_WRAP_KIND)
    (h : (Admission.fromSettings bech32 settings).check event authed = .allow) :
    event.expiration = none := by
  obtain ⟨recipient, rest, htags, -⟩ := giftWrap_tags hk h
  simp [Event.expiration, Event.firstTagValue, htags]

/-! ## The conjunction of the policies -/

/-- What the settings ask of an event, policy by policy. -/
structure Acceptable (bech32 : String → Option Bytes) (settings : Settings) (event : Event)
    (authed : Option String) : Prop where
  kind : event.kind ∈ settings.eventKindAllowlist.getD DEFAULT_ALLOWED_KINDS
  giftWrap : event.kind = 1059 → ∃ recipient rest, event.tags = ["p" :: recipient :: rest] ∧
    byteLen recipient = 64 ∧ isLowerHex recipient = true
  publicNote : event.kind = 1 ∨ event.kind = 30023 →
    ∃ entry ∈ settings.publicNoteAuthors.getD [],
      parseAuthorEntry bech32 entry = some (toLowercase event.pubkey)
  auth : settings.nip42Auth = true → settings.requireAuthToWrite = true → authed.isSome = true
  author : settings.payToRelayEnabled = false →
    ∀ allowed, settings.pubkeyWhitelist = some allowed → event.pubkey ∈ allowed

section Check

variable {bech32 : String → Option Bytes} {settings : Settings} {event : Event}
  {authed : Option String}

/-- The guard asks for nothing but the shape of the tags. -/
theorem giftWrapCheck_iff : giftWrapCheck event = .allow ↔
    (event.kind = 1059 → ∃ recipient rest, event.tags = ["p" :: recipient :: rest] ∧
      byteLen recipient = 64 ∧ isLowerHex recipient = true) := by
  refine ⟨fun h hk => giftWrapCheck_eq_allow hk h, fun h => ?_⟩
  rw [giftWrapCheck]
  by_cases hk : event.kind = GIFT_WRAP_KIND
  · obtain ⟨recipient, rest, htags, hlen, hlow⟩ := h hk
    have hrec : recipientOk event = true :=
      recipientOk_iff.mpr ⟨recipient, by simp [giftWrapRecipients, htags], hlen, hlow⟩
    rw [if_neg (not_not.mpr hk), if_neg (by simp [htags]), if_neg (by simp [hrec]),
      if_neg (by simp [htags])]
  · rw [if_pos hk]

/-- The whitelist of kinds allows what is on it. -/
theorem kindWhitelist_iff {allowed : List Nat} :
    (AdmissionPolicy.kindWhitelist allowed).check event authed = .allow ↔ event.kind ∈ allowed := by
  rw [AdmissionPolicy.check]
  split_ifs with h
  · simpa using h
  · simpa [Decision.denied] using h

/-- Kinds 1 and 30023 are left to the authors on the list, in whatever form the list gives them. -/
theorem restrictedKindAuthors_iff {entries : List String} :
    (AdmissionPolicy.fromEntries bech32 entries).check event authed = .allow ↔
      (event.kind = 1 ∨ event.kind = 30023 →
        ∃ entry ∈ entries, parseAuthorEntry bech32 entry = some (toLowercase event.pubkey)) := by
  have hmem : LOCKED_KINDS.contains event.kind = true ↔ event.kind = 1 ∨ event.kind = 30023 := by
    simp [LOCKED_KINDS]
  have hfound : (entries.filterMap (parseAuthorEntry bech32)).contains (toLowercase event.pubkey) =
      true ↔ ∃ entry ∈ entries, parseAuthorEntry bech32 entry = some (toLowercase event.pubkey) := by
    simp
  rw [AdmissionPolicy.fromEntries, AdmissionPolicy.check, ← hmem, ← hfound]
  by_cases hlocked : LOCKED_KINDS.contains event.kind = true
  · rw [if_neg (by rw [hlocked]; decide)]
    split_ifs with h
    · exact ⟨fun _ _ => h, fun _ => rfl⟩
    · exact ⟨fun hd => (by cases hd), fun hd => absurd (hd hlocked) h⟩
  · rw [if_pos (by rw [Bool.not_eq_true] at hlocked; rw [hlocked]; decide)]
    exact ⟨fun _ hd => absurd hd hlocked, fun _ => rfl⟩

/-- Authentication is all this policy asks for. -/
theorem requireAuth_iff :
    AdmissionPolicy.requireAuth.check event authed = .allow ↔ authed.isSome = true := by
  rw [AdmissionPolicy.check]
  split_ifs with h
  · simp [h]
  · simp [h, Decision.deniedAuth]

/-- The whitelist of authors allows who is on it. -/
theorem pubkeyWhitelist_iff {allowed : List String} :
    (AdmissionPolicy.pubkeyWhitelist allowed).check event authed = .allow ↔
      event.pubkey ∈ allowed := by
  rw [AdmissionPolicy.check]
  split_ifs with h
  · simpa using h
  · simpa [Decision.denied] using h

/-- The pipeline allows exactly the acceptable events. -/
theorem Admission.check_eq_allow_iff :
    (Admission.fromSettings bech32 settings).check event authed = .allow ↔
      Acceptable bech32 settings event authed := by
  have hauth : (∀ policy ∈ (if settings.nip42Auth && settings.requireAuthToWrite then
      [AdmissionPolicy.requireAuth] else []), policy.check event authed = .allow) ↔
      (settings.nip42Auth = true → settings.requireAuthToWrite = true → authed.isSome = true) := by
    by_cases h : settings.nip42Auth = true ∧ settings.requireAuthToWrite = true
    · simp [h, requireAuth_iff]
    · rw [if_neg (by simpa using h)]
      exact ⟨fun _ h₁ h₂ => absurd ⟨h₁, h₂⟩ h, fun _ _ h => absurd h List.not_mem_nil⟩
  have hauthor : (∀ policy ∈ (if !settings.payToRelayEnabled then
      match settings.pubkeyWhitelist with
      | some whitelist => [AdmissionPolicy.pubkeyWhitelist whitelist]
      | none => []
    else []), policy.check event authed = .allow) ↔
      (settings.payToRelayEnabled = false →
        ∀ allowed, settings.pubkeyWhitelist = some allowed → event.pubkey ∈ allowed) := by
    by_cases h : settings.payToRelayEnabled = true
    · simp [h]
    · rcases settings.pubkeyWhitelist with _ | whitelist
      · simp [h]
      · simp [h, pubkeyWhitelist_iff]
  rw [Admission.check, Admission.checkPolicies_eq_allow]
  simp only [Admission.fromSettings, List.forall_mem_append, List.forall_mem_cons, hauth, hauthor,
    kindWhitelist_iff, restrictedKindAuthors_iff]
  rw [AdmissionPolicy.check, giftWrapCheck_iff]
  refine ⟨?_, ?_⟩
  · rintro ⟨⟨⟨hkind, hwrap, hnote, -⟩, ha⟩, hauth⟩
    exact ⟨hkind, hwrap, hnote, ha, hauth⟩
  · rintro ⟨hkind, hwrap, hnote, ha, hauth⟩
    exact ⟨⟨⟨hkind, hwrap, hnote, fun _ h => absurd h List.not_mem_nil⟩, ha⟩, hauth⟩

end Check

end Floonet
