import Floonet.Lib.Base64
import Floonet.Recorded
import Floonet.Relay

/-!
# Signed requests

Requests as a client sends them: a NIP-98 event in an `Authorization` header, base64
over the JSON text of the event, and the JSON body of a register request. `Signed.lib`
is the library as it answers on a list of such requests. With it a well-signed request
runs as the short programs `registerCode` and `unregisterCode` say, where the header
has become a comparison of clock readings.
-/

namespace Floonet.NameAuthority

open Hex (Bytes)
open Payment

/-- An auth event, and the name the request is about. -/
structure Signed where
  auth : Recorded
  name : String
  /-- SHA-256 of the body that registers the name for the signer -/
  digest : Nat

namespace Signed

/-- The bytes of a text. -/
def utf8 (s : String) : Bytes := s.toList.flatMap String.utf8EncodeChar

/-- Texts are told apart by their bytes. -/
theorem utf8_inj {s t : String} (h : utf8 s = utf8 t) : s = t := by
  have hbytes : s.toList.utf8Encode = t.toList.utf8Encode := congrArg List.toByteArray h
  rw [← String.ofList_toList (s := s), ← String.ofList_toList (s := t)]
  exact String.toByteArray_inj.mp hbytes

/-- The bytes of a text are counted by the source. -/
theorem length_utf8 (s : String) : (utf8 s).length = byteLen s := by
  simp only [utf8, byteLen, List.length_flatMap, String.length_utf8EncodeChar]

/-- The key that signs. -/
def pubkey (r : Signed) : String := r.auth.event.pubkey

/-- The JSON text of the auth event. -/
def json (r : Signed) : String :=
  Json.toText (.object [("created_at", .number (.posInt r.auth.createdAt)),
    ("id", .string r.auth.event.id), ("pubkey", .string r.pubkey),
    ("kind", .number (.posInt r.auth.kind)), ("tags", r.auth.event.tagsToCanonical),
    ("content", .string r.auth.content), ("sig", .string r.auth.event.sig)])

/-- The event as it is sent in the header. -/
def token (r : Signed) : String := String.ofList (Base64.encodeChars (utf8 r.json))

/-- The JSON body that registers the name. -/
def body (r : Signed) : Bytes :=
  utf8 (Json.toText (.object [("name", .string r.name), ("pubkey", .string r.pubkey)]))

/-- Escapes make a string at most six times as long. -/
theorem length_stringTail_le (cs : List Char) : (Json.stringTail cs).length ≤ 6 * cs.length + 1 := by
  have hescape : ∀ c, (Json.escapeChar c).length ≤ 6 := by
    intro c
    rw [Json.escapeChar]
    split
    · simp
    · split_ifs <;> simp
  induction cs with
  | nil => simp [Json.stringTail]
  | cons c cs ih =>
    have := hescape c
    simp only [Json.stringTail, List.length_append, List.length_cons]
    omega

theorem byteLen_le (s : String) : byteLen s ≤ 4 * s.toList.length := by
  rw [byteLen]
  induction s.toList with
  | nil => simp
  | cons c cs ih =>
    have := Char.utf8Size_le_four c
    simp only [List.map_cons, List.sum_cons, List.length_cons]
    omega

/-- The size of a body is bounded by that of the name. -/
theorem length_body_le (r : Signed) : r.body.length ≤ 4 * (6 * r.name.toList.length + 420) := by
  have hpk : r.pubkey.toList.length = 64 := by
    change (Hex.encode (Hex.ofNat 32 r.auth.pubkey)).toList.length = 64
    rw [Hex.encode, String.toList_ofList, Hex.length_encodeChars, Hex.length_ofNat]
  have hname := length_stringTail_le r.name.toList
  have hkey := length_stringTail_le r.pubkey.toList
  have hlabels : (Json.renderString "name").length = 6 ∧ (Json.renderString "pubkey").length = 8 := by
    decide
  rw [body, length_utf8]
  refine (byteLen_le _).trans (Nat.mul_le_mul_left 4 ?_)
  rw [Json.toText, String.toList_ofList]
  simp only [Json.render, Json.renderMembers, List.length_cons, List.length_append, hlabels.1,
    hlabels.2, List.length_nil]
  rw [Json.renderString, Json.renderString, List.length_cons, List.length_cons]
  omega

/-- `POST /api/v1/register` -/
def register (r : Signed) (ip : String) : HttpRequest where
  ip := ip
  authorization := some ("Nostr " ++ r.token)
  sizeHint := some r.body.length
  body := some r.body

/-- `DELETE /api/v1/register/{name}` -/
def unregister (r : Signed) (ip : String) : HttpRequest where
  ip := ip
  authorization := some ("Nostr " ++ r.token)
  sizeHint := some 0
  body := some []

/-! ## Reading them back

The time of an event can be read off its JSON text, and its digest off its body. So requests of
different times are told apart by every text they are sent as. -/

/-- The text of an event has its time. -/
theorem createdAt_of_json {r s : Signed} (h : r.json = s.json) :
    r.auth.createdAt = s.auth.createdAt := by
  have h := congrArg String.toList h
  simp only [json, Json.toText, String.toList_ofList, Json.render, Json.renderMembers,
    Json.renderNumber] at h
  simp only [List.cons.injEq, List.append_assoc, List.append_cancel_left_eq, true_and,
    List.cons_append] at h
  exact (Json.toDigits_comma_inj h).1

theorem json_of_token {r s : Signed} (h : r.token = s.token) : r.json = s.json := by
  refine utf8_inj (Base64.encodeChars_inj ?_)
  simpa only [token, String.toList_ofList] using congrArg String.toList h

/-- The body has the name and the key. -/
theorem of_body {r s : Signed} (h : r.body = s.body) : r.name = s.name ∧ r.pubkey = s.pubkey := by
  have h := congrArg String.toList (utf8_inj h)
  simp only [Json.toText, String.toList_ofList, Json.render, Json.renderMembers] at h
  simp only [List.cons.injEq, List.append_assoc, List.append_cancel_left_eq, true_and,
    List.cons_append] at h
  obtain ⟨hname, h⟩ := Json.uniquelyReadable_renderString _ _ _ _ h
  simp only [List.cons.injEq, List.append_cancel_left_eq, true_and] at h
  exact ⟨hname, (Json.uniquelyReadable_renderString _ _ _ _ h).1⟩

/-! ## The library on them

The library answers for a list of recorded requests: it decodes their tokens, parses their bodies
and confirms their signatures. -/

/-- The library on a list of signed requests: it decodes their headers and knows the
digests of their bodies. -/
def lib (rs : List Signed) : Nip98 where
  crypto := Recorded.crypto (rs.map auth)
  base64Decode s := (rs.find? fun r => r.token == s).map fun r => utf8 r.json
  eventFromSlice b := (rs.find? fun r => utf8 r.json == b).map fun r => r.auth.event
  sha256 b := Hex.ofNat 32 (((rs.find? fun r => r.body == b).map digest).getD 0)

/-- `serde_json` on their bodies. -/
def registerBody (rs : List Signed) (b : Bytes) : Option (String × String) :=
  (rs.find? fun r => r.body == b).map fun r => (r.name, r.pubkey)

/-- Signed at different times, and with one digest per body. -/
structure Distinct (rs : List Signed) : Prop where
  createdAt : (rs.map fun r => r.auth.createdAt).Nodup
  digest : ∀ r ∈ rs, ∀ s ∈ rs, r.name = s.name →
    Hex.ofNat 32 r.auth.pubkey = Hex.ofNat 32 s.auth.pubkey → r.digest = s.digest

variable {rs : List Signed} {r : Signed}

theorem stripPrefix_append (pre s : String) : stripPrefix pre (pre ++ s) = some s := by
  rw [stripPrefix, String.toList_append, if_pos (by simp), List.drop_left, String.ofList_toList]

/-- A token has no blanks to trim. -/
theorem trim_token (r : Signed) : trim r.token = r.token := by
  have hspace : ∀ c ∈ Base64.encodeChars (utf8 r.json), isWhitespace c = false := by
    intro c hc
    have hv := Base64.visible_of_mem_encodeChars hc
    simp only [isWhitespace, Bool.or_eq_false_iff, Bool.and_eq_false_iff, beq_eq_false_iff_ne,
      decide_eq_false_iff_not]
    omega
  have hdrop : ∀ cs : List Char, (∀ c ∈ cs, isWhitespace c = false) →
      cs.dropWhile isWhitespace = cs := by
    intro cs hcs
    cases cs with
    | nil => rfl
    | cons c cs => rw [List.dropWhile_cons_of_neg (by simp [hcs c (List.mem_cons_self ..)])]
  rw [trim, token, String.toList_ofList, hdrop _ hspace, hdrop _ (by simpa using hspace),
    List.reverse_reverse]

/-- A request is found by any of its texts that tells its time. -/
theorem find?_eq_self {β : Type} [BEq β] [LawfulBEq β] (f : Signed → β) (hd : Distinct rs)
    (hr : r ∈ rs) (hf : ∀ s, f s = f r → s.auth.createdAt = r.auth.createdAt) :
    rs.find? (fun s => f s == f r) = some r := by
  rcases hfind : rs.find? (fun s => f s == f r) with _ | s
  · exact absurd (List.find?_eq_none.mp hfind r hr) (by simp)
  · have hs : f s = f r := by simpa using List.find?_some hfind
    rw [List.inj_on_of_nodup_map hd.createdAt (List.mem_of_find?_eq_some hfind) hr (hf s hs)]

/-- The header of a signed request carries its event, and the signature holds. -/
theorem authEvent_lib (hd : Distinct rs) (hr : r ∈ rs) :
    (lib rs).authEvent (some ("Nostr " ++ r.token)) = .ok r.auth.event := by
  have hnd : ((rs.map auth).map Recorded.createdAt).Nodup := by
    rw [List.map_map]
    exact hd.createdAt
  have hval : r.auth.event.validate (lib rs).crypto = .ok () :=
    Recorded.validated hnd (List.mem_map_of_mem hr)
  have hdecode : (lib rs).base64Decode (trim r.token) = some (utf8 r.json) := by
    rw [trim_token]
    simp only [lib, find?_eq_self token hd hr fun s h => createdAt_of_json (json_of_token h),
      Option.map_some]
  have hslice : (lib rs).eventFromSlice (utf8 r.json) = some r.auth.event := by
    simp only [lib, find?_eq_self (fun s => utf8 s.json) hd hr fun s h =>
      createdAt_of_json (utf8_inj h), Option.map_some]
  simp only [Nip98.authEvent, stripPrefix_append, hdecode, hslice, hval]

/-- The body found for a body is the same one. -/
theorem find?_body (hr : r ∈ rs) : ∃ s ∈ rs, rs.find? (fun s => s.body == r.body) = some s ∧
    s.name = r.name ∧ s.pubkey = r.pubkey := by
  rcases hf : rs.find? (fun s => s.body == r.body) with _ | s
  · exact absurd (List.find?_eq_none.mp hf r hr) (by simp)
  · have hs : s.body = r.body := by simpa using List.find?_some hf
    exact ⟨s, List.mem_of_find?_eq_some hf, hf, of_body hs⟩

/-- The signer of a sample is its key. -/
theorem signer_lib (hd : Distinct rs) (hr : r ∈ rs) :
    (lib rs).signer (some ("Nostr " ++ r.token)) = some r.pubkey := by
  simp only [Nip98.signer, authEvent_lib hd hr]
  rfl

/-- The body of a sample is read as it was written. -/
theorem registerBody_body (hr : r ∈ rs) : registerBody rs r.body = some (r.name, r.pubkey) := by
  obtain ⟨s, -, hs, hname, hpk⟩ := find?_body hr
  rw [registerBody, hs, Option.map_some, hname, hpk]

/-- The digest of a sample is the recorded one. -/
theorem sha256_body (hd : Distinct rs) (hr : r ∈ rs) :
    (lib rs).sha256 r.body = Hex.ofNat 32 r.digest := by
  obtain ⟨s, hmem, hs, hname, hpk⟩ := find?_body hr
  simp only [lib, hs, Option.map_some, Option.getD_some]
  have hbytes := congrArg Hex.decode hpk
  rw [pubkey, pubkey, Recorded.decode_event_pubkey, Recorded.decode_event_pubkey] at hbytes
  rw [hd.digest s hmem r hr hname (Option.some.inj hbytes)]

/-! ## Authorization -/

/-- A register request signed for a server. -/
structure Registers (baseUrl : String) (r : Signed) : Prop where
  kind : r.auth.kind = HTTP_AUTH_KIND
  tags : r.auth.tags = [["u", baseUrl ++ "/api/v1/register"], ["method", "POST"],
    ["payload", Hex.encode (Hex.ofNat 32 r.digest)]]

/-- An unregister request signed for a server. -/
structure Releases (baseUrl : String) (r : Signed) : Prop where
  kind : r.auth.kind = HTTP_AUTH_KIND
  tags : r.auth.tags = [["u", baseUrl ++ ("/api/v1/register/" ++ r.name)], ["method", "DELETE"]]

/-- The check that depends on the clock. -/
def authAt (authMaxAgeSecs : Int) (r : Signed) (unixTime : Nat) :
    Except String (String × String) :=
  let age := wrapI64 (asI64 unixTime - asI64 r.auth.createdAt)
  if authMaxAgeSecs < age ∨ age < -5 then .error "auth event expired or post-dated"
  else .ok (r.pubkey, r.auth.event.id)

/-- The header of a register sample is accepted while it is fresh. -/
theorem verify_register {baseUrl : String} {maxAge : Int} {now : Nat} (hd : Distinct rs)
    (hr : r ∈ rs) (h : Registers baseUrl r) :
    (lib rs).verifyNip98 (some ("Nostr " ++ r.token)) "POST" "/api/v1/register" r.body baseUrl
      maxAge now = authAt maxAge r now := by
  have htags : r.auth.event.tags.foldl (AuthTags.read "POST" (baseUrl ++ "/api/v1/register")) {} =
      ⟨true, true, some (Hex.encode (Hex.ofNat 32 r.digest))⟩ := by
    rw [Recorded.event_tags, h.tags]
    simp [AuthTags.read, eqIgnoreAsciiCase]
  have hpayload : (lib rs).checkPayload (some (Hex.encode (Hex.ofNat 32 r.digest))) r.body =
      .ok () := by
    simp [Nip98.checkPayload, sha256_body hd hr, eqIgnoreAsciiCase]
  simp only [Nip98.verifyNip98, authEvent_lib hd hr, Nip98.checkEvent, Recorded.event_kind, h.kind,
    htags, hpayload, authAt]
  simp [pubkey]

theorem verify_unregister {baseUrl : String} {maxAge : Int} {now : Nat} (hd : Distinct rs)
    (hr : r ∈ rs) (h : Releases baseUrl r) :
    (lib rs).verifyNip98 (some ("Nostr " ++ r.token)) "DELETE" ("/api/v1/register/" ++ r.name) []
      baseUrl maxAge now = authAt maxAge r now := by
  have htags : r.auth.event.tags.foldl
      (AuthTags.read "DELETE" (baseUrl ++ ("/api/v1/register/" ++ r.name))) {} =
      ⟨true, true, none⟩ := by
    rw [Recorded.event_tags, h.tags]
    simp [AuthTags.read, eqIgnoreAsciiCase]
  have hpayload : (lib rs).checkPayload none [] = .ok () := rfl
  simp only [Nip98.verifyNip98, authEvent_lib hd hr, Nip98.checkEvent, Recorded.event_kind, h.kind,
    htags, hpayload, authAt]
  simp [pubkey]

/-! ## What they run

After the signature is known to be right, a sample runs a short program that computes. A run of
samples is evaluated on these programs and carried over to the real ones. -/

/-- A name and a key that `register` has nothing against. -/
structure Admissible (a : Authority) (r : Signed) : Prop where
  size : r.body.length ≤ MAX_BODY_BYTES
  lowerName : strToLowercase r.name = r.name
  lowerPubkey : strToLowercase r.pubkey = r.pubkey
  hex : validPubkeyHex r.pubkey = true
  valid : validName r.name a.cfg.nameMin a.cfg.nameMax = true
  free : isReserved r.name a.extraReserved = false

/-- `register` on a signed request, from the check of its time on. -/
def registerCode (a : Authority) (r : Signed) (ip : String) : Task Response :=
  .call (allowWriteOp a "na-reg" ip) fun
    | false => .ret rateLimited
    | true =>
      .call .unixTime fun now => onAuth (authAt a.cfg.authMaxAgeSecs r now) fun _ authId =>
        onFresh a authId (onCooldownOver a r.pubkey (registerName a r.name r.pubkey))

/-- `unregister` on a signed request, from the check of its time on. -/
def unregisterCode (a : Authority) (r : Signed) (ip : String) : Task Response :=
  .call (allowWriteOp a "na-unreg" ip) fun
    | false => .ret rateLimited
    | true =>
      .call .unixTime fun now => onAuth (authAt a.cfg.authMaxAgeSecs r now) (unregisterAs a r.name)

section Code

variable {a : Authority} (hlib : a.nip98 = lib rs) (hbody : a.registerBody = registerBody rs)
  (hd : Distinct rs) (hr : r ∈ rs)

include hlib hbody hd hr

theorem register_eq_code (h : Registers a.cfg.baseUrl r) (hadm : Admissible a r) (ip : String) :
    NameAuthority.register a (r.register ip) = registerCode a r ip := by
  have hchecked : registerChecked a (strToLowercase r.name) (strToLowercase r.pubkey) r.pubkey =
      registerName a r.name r.pubkey := by
    rw [hadm.lowerName, hadm.lowerPubkey, registerChecked, hadm.hex, hadm.valid, hadm.free]
    simp
  have hauth : ∀ now, registerAuth a (r.register ip) r.body now =
      authAt a.cfg.authMaxAgeSecs r now := by
    intro now
    rw [registerAuth, hlib]
    exact verify_register hd hr h
  rw [NameAuthority.register, registerCode]
  refine congrArg (Process.Proc.call _) (funext fun allowed => ?_)
  cases allowed with
  | false => rfl
  | true =>
    have hsize : ¬MAX_BODY_BYTES < r.body.length := not_lt.mpr hadm.size
    simp only [Signed.register, Option.all_some, decide_eq_true_eq, if_neg hsize]
    refine congrArg (Process.Proc.call _) (funext fun now => ?_)
    have hnow := hauth now
    rw [Signed.register] at hnow
    rw [hnow, authAt]
    split_ifs
    · rw [onAuth_error, onAuth_error]
    · rw [onAuth_ok, onAuth_ok, registerAs, hbody, registerBody_body hr, registerParsed, hchecked]

omit hbody in
theorem unregister_eq_code (h : Releases a.cfg.baseUrl r)
    (hname : strToLowercase r.name = r.name) (ip : String) :
    NameAuthority.unregister a r.name (r.unregister ip) = unregisterCode a r ip := by
  have hauth : ∀ now, unregisterAuth a r.name (r.unregister ip) now =
      authAt a.cfg.authMaxAgeSecs r now := by
    intro now
    rw [unregisterAuth, hlib]
    exact verify_unregister hd hr h
  rw [NameAuthority.unregister, unregisterCode]
  refine congrArg (Process.Proc.call _) (funext fun allowed => ?_)
  cases allowed with
  | false => rfl
  | true =>
    refine congrArg (Process.Proc.call _) (funext fun now => ?_)
    rw [hname, hauth]

end Code

/-! ## Building them -/

/-- A register request for a server, from its signature. -/
def forRegister (baseUrl name : String) (digest id pubkey sigR sigS createdAt : Nat) : Signed where
  auth := ⟨id, pubkey, sigR, sigS, createdAt, HTTP_AUTH_KIND, [["u", baseUrl ++ "/api/v1/register"],
    ["method", "POST"], ["payload", Hex.encode (Hex.ofNat 32 digest)]], ""⟩
  name := name
  digest := digest

/-- An unregister request for a server, from its signature. -/
def forRelease (baseUrl name : String) (digest id pubkey sigR sigS createdAt : Nat) : Signed where
  auth := ⟨id, pubkey, sigR, sigS, createdAt, HTTP_AUTH_KIND,
    [["u", baseUrl ++ ("/api/v1/register/" ++ name)], ["method", "DELETE"]], ""⟩
  name := name
  digest := digest

theorem registers_forRegister (baseUrl name : String) (digest id pubkey sigR sigS createdAt : Nat) :
    Registers baseUrl (forRegister baseUrl name digest id pubkey sigR sigS createdAt) :=
  ⟨rfl, rfl⟩

theorem releases_forRelease (baseUrl name : String) (digest id pubkey sigR sigS createdAt : Nat) :
    Releases baseUrl (forRelease baseUrl name digest id pubkey sigR sigS createdAt) :=
  ⟨rfl, rfl⟩

/-! ## Samples -/

/-- Where the sample relay is reached. -/
def sampleUrl : String := "https://floonet.example"

/-- Ada's public key. -/
def adaKey : Nat := 0x5cbdf0646e5db4eaa398f365f2ea7a0e3d419b7e0330e39ce92bddedcac4f9bc

/-- Eve's public key. -/
def eveKey : Nat := 0x774ae7f858a9411e5ef4246b70c65aac5649980be5c17891bbec17895da008cb

/-- The digest of the body of Ada's requests. -/
def adaDigest : Nat := 0x771139300538cde20d3e96e218007161d098e7265e7c2339578174d5627dd62a

/-- The digest of the body of Eve's request. -/
def eveDigest : Nat := 0xdf521c17854181cba71ae0d0df490df00bfaf2166f205e5445a31d74b172fa52

/-- Ada registers her name. -/
def registerAda : Signed :=
  forRegister sampleUrl "ada" adaDigest
    0x8684960a643684bde84e6294d35f009e63b8ca78ae8622268c940e813a8f5bec adaKey
    0xbe5878e00979c17ec72730d7bc264dcb485eae916a7ce3ce653c7876f8d559e6
    0xaadfd0cd3a0aa788e56d421397e077a6fd306b04ceb0acabd9a192c2df9dd8d6 1700000000

/-- She asks again. -/
def registerAda2 : Signed :=
  forRegister sampleUrl "ada" adaDigest
    0x8aa76e70321bf59ab54d2248d37da150a0afee6930c37228b9054f97f8b4e886 adaKey
    0x6351845894ddb7cac7a3ed8775b5ec92658171cf0a6776209a3a9c3eba40fc3d
    0x652e96d31550c703fe011f1eb603932963227014a4e0551aea02a8a50b35d914 1700000001

/-- And again. -/
def registerAda3 : Signed :=
  forRegister sampleUrl "ada" adaDigest
    0xba2d942b5305786712ecefa0438ccf7eba8199a52611ba4aeed288c176316a6c adaKey
    0xcc4755a153ed96183a2b48200393aae3368d254cbcab57574183d1a7e8aaed6f
    0x2be5b9a377a34eac531622a0c8b6d7f953f31ebdd72a781b63152d091803ce1e 1700000002

/-- And again, much later. -/
def registerAda4 : Signed :=
  forRegister sampleUrl "ada" adaDigest
    0x3f87c5ff8eaf396b977414122b26f35e4fe95dc4959b463b7b6417ce28081251 adaKey
    0x05a8f91af35a6968ca1696eacf79a9c36e62f92c437068f576bc12504511d090
    0x392e18e0e3c1cbdb2c10ce8d382113aa8b679cd3bde60e3dbaf3d5bab0960005 1700000700

/-- And again, before that. -/
def registerAda5 : Signed :=
  forRegister sampleUrl "ada" adaDigest
    0x218a19deb538924757e66b7d73267dd41c7d8273a80a87270ae566f5ec3b83a8 adaKey
    0x77b17cc0c50818302ed955dffa2003c494d841a823d3d2a3f9dd178e966476b8
    0x94a0e740acaa08ea8aa9990e7a8f2d95976b5a909573a4215a192b2a527d9139 1700000003

/-- Ada releases her name. -/
def releaseAda : Signed :=
  forRelease sampleUrl "ada" adaDigest
    0x9bc2053c6cfa6d56b5db12489e6ddee13ca3aff65eea19c2c4bccb52cd9d80d7 adaKey
    0xa580f1f8c4324ec0542958cf0d12eebb09227108ccf37e9fcfdecdb991211ca5
    0x903c5133527a004fe9144328fc6ab6b48bbf838d43683dd2012dcad4f2764c9e 1700000005

/-- She sends the release twice. -/
def releaseAda2 : Signed :=
  forRelease sampleUrl "ada" adaDigest
    0x2375bce435647c8f1826a0d55dc5b8fd112642f720acf1bf14372406f9292d46 adaKey
    0xd19df9957e71241440c7fea28a8a9add560e25b67597fbb40feaf95f6b19e9f7
    0xe36fc4030c303ccf26ffbebb7cd2184dd6ecbcbd69fa718b33388a3be928f952 1700000006

/-- Somebody else registers the name. -/
def takeAda : Signed :=
  forRegister sampleUrl "ada" eveDigest
    0x018116851a688dc00df3f0a06f915773337e8a9b74d5ead47e4c3be4e089fcad eveKey
    0x40873cf0117aa728f0a9ba911ecda026bb647e8292afbc4795e4069c9f6e6750
    0xce44726979ed995be275506037174215a86e437016d3dab9875370846cec1d97 1700000007

/-- All signed requests of the samples. -/
def samples : List Signed :=
  [registerAda, registerAda2, registerAda3, registerAda4, registerAda5, releaseAda, releaseAda2,
    takeAda]

theorem distinct_samples : Distinct samples where
  createdAt := by decide
  digest := by decide +kernel

end Signed

open Signed

/-- The default settings, for a domain. -/
def sampleConfig : Config where
  domain := "floonet.example"
  baseUrl := sampleUrl
  nameMin := 3
  nameMax := 20
  bounds := by decide
  nameChangeCooldownSecs := 600
  authMaxAgeSecs := 60
  writeRateMax := 10
  writeRateWindowSecs := 3600

/-- The default price. -/
def samplePaid : PaidNames := ⟨1000000000, .float "1.0"⟩

/-- The processor hands out an invoice and reports every invoice as paid. -/
def paidEnv (hash : String) : Env where
  newInvoice := some ⟨hash, "https://pay.example/" ++ hash, .unpaid, "admission"⟩
  checkInvoice := fun _ => some .paid

/-- Keys given as hex text. -/
def sampleKeys : Keys where
  fromPkStr s := if validPubkeyHex s then some s else none
  hex := by
    intro s k h
    split_ifs at h
    cases h
    assumption
  fromPkStr_hex := by
    intro s k h _
    split_ifs at h
    exact (Option.some.inj h).symm
  fromPkStr_idem := by
    intro s k h
    split_ifs at h with hv
    cases h
    exact if_pos hv

/-- A relay that serves the samples. -/
def sampleRelay (paid : Option PaidNames) : Relay where
  authority :=
    { cfg := sampleConfig
      extraReserved := []
      paid := paid
      nip98 := Signed.lib samples
      registerBody := Signed.registerBody samples
      keys := sampleKeys }
  payToRelay := ⟨false, 0, 0, false, false, none⟩
  engine := .inOrder 999

theorem sample_name {r : Signed} (hr : r ∈ samples) : r.name = "ada" := by
  revert r
  decide

theorem admissible_sample {r : Signed} (paid : Option PaidNames) (hr : r ∈ samples) :
    Signed.Admissible (sampleRelay paid).authority r where
  size := by
    refine (length_body_le r).trans ?_
    rw [sample_name hr]
    decide
  lowerName := by
    rw [sample_name hr]
    decide
  lowerPubkey := strToLowercase_of_validPubkeyHex (validPubkeyHex_encode (Hex.length_ofNat 32 _))
  hex := validPubkeyHex_encode (Hex.length_ofNat 32 _)
  valid := by
    rw [sample_name hr]
    change validName "ada" 3 20 = true
    decide
  free := by
    rw [sample_name hr]
    change isReserved "ada" [] = false
    decide +kernel

/-- The samples as they arrive. -/
inductive Arrival where
  | ada
  | ada2
  | ada3
  | ada4
  | ada5
  | release
  | release2
  | eve
  deriving DecidableEq

namespace Arrival

/-- The request as the relay gets it. -/
def request : Arrival → Request
  | ada => .register (registerAda.register "203.0.113.7")
  | ada2 => .register (registerAda2.register "203.0.113.7")
  | ada3 => .register (registerAda3.register "203.0.113.7")
  | ada4 => .register (registerAda4.register "203.0.113.7")
  | ada5 => .register (registerAda5.register "203.0.113.7")
  | release => .unregister releaseAda.name (releaseAda.unregister "203.0.113.7")
  | release2 => .unregister releaseAda2.name (releaseAda2.unregister "203.0.113.7")
  | eve => .register (takeAda.register "203.0.113.8")

/-- What the relay does with it, once the signature is known to be right. -/
def code (a : Authority) : Arrival → Task Answer
  | ada => .http <$> registerCode a registerAda "203.0.113.7"
  | ada2 => .http <$> registerCode a registerAda2 "203.0.113.7"
  | ada3 => .http <$> registerCode a registerAda3 "203.0.113.7"
  | ada4 => .http <$> registerCode a registerAda4 "203.0.113.7"
  | ada5 => .http <$> registerCode a registerAda5 "203.0.113.7"
  | release => .http <$> unregisterCode a releaseAda "203.0.113.7"
  | release2 => .http <$> unregisterCode a releaseAda2 "203.0.113.7"
  | eve => .http <$> registerCode a takeAda "203.0.113.8"

/-- Steps of one thread, with time standing still and no failures. -/
def runs (i n : Nat) : List (Process.Act Arrival Env) := List.replicate n (.run i {})

/-- Steps of one thread with an input. -/
def runsWith (e : Env) (i n : Nat) : List (Process.Act Arrival Env) := List.replicate n (.run i e)

end Arrival

section Run

variable (paid : Option PaidNames)

theorem program_register (r : Signed) (hr : r ∈ samples) (h : Registers sampleUrl r) (ip : String) :
    (sampleRelay paid).program (.register (r.register ip)) =
      .http <$> registerCode (sampleRelay paid).authority r ip := by
  have hlib : (sampleRelay paid).authority.nip98 = Signed.lib samples := rfl
  have hbody : (sampleRelay paid).authority.registerBody = Signed.registerBody samples := rfl
  rw [Relay.program,
    register_eq_code hlib hbody distinct_samples hr h (admissible_sample paid hr) ip]

theorem program_unregister (r : Signed) (hr : r ∈ samples) (h : Releases sampleUrl r)
    (ip : String) : (sampleRelay paid).program (.unregister r.name (r.unregister ip)) =
      .http <$> unregisterCode (sampleRelay paid).authority r ip := by
  have hlib : (sampleRelay paid).authority.nip98 = Signed.lib samples := rfl
  rw [Relay.program,
    unregister_eq_code hlib distinct_samples hr h (admissible_sample paid hr).lowerName ip]

theorem program_arrival (x : Arrival) :
    (sampleRelay paid).program x.request = x.code (sampleRelay paid).authority := by
  cases x with
  | ada => exact program_register paid registerAda (by simp [samples]) (registers_forRegister ..) _
  | ada2 => exact program_register paid registerAda2 (by simp [samples]) (registers_forRegister ..) _
  | ada3 => exact program_register paid registerAda3 (by simp [samples]) (registers_forRegister ..) _
  | ada4 => exact program_register paid registerAda4 (by simp [samples]) (registers_forRegister ..) _
  | ada5 => exact program_register paid registerAda5 (by simp [samples]) (registers_forRegister ..) _
  | release => exact program_unregister paid releaseAda (by simp [samples]) (releases_forRelease ..) _
  | release2 => exact program_unregister paid releaseAda2 (by simp [samples]) (releases_forRelease ..) _
  | eve => exact program_register paid takeAda (by simp [samples]) (registers_forRegister ..) _

/-- What the sample relay does with a schedule of samples. -/
def sampleRun (clock : Nat) (acts : List (Process.Act Arrival Env)) :
    Process.Config Shared Arrival Op Op.Res Answer :=
  Process.System.run ⟨Arrival.code (sampleRelay paid).authority, Op.exec (sampleRelay paid).engine⟩
    (Shared.start clock) acts

theorem run_samples (clock : Nat) (acts : List (Process.Act Arrival Env)) :
    (sampleRelay paid).run clock (acts.map (Process.Act.rename Arrival.request)) =
      (sampleRun paid clock acts).rename Arrival.request :=
  Process.System.run_rename Arrival.request (Arrival.code (sampleRelay paid).authority)
    (Shared.start clock) fun x _ => program_arrival paid x

/-- The state the samples lead to. -/
theorem shared_samples (clock : Nat) (acts : List (Process.Act Arrival Env)) :
    ((sampleRelay paid).run clock (acts.map (Process.Act.rename Arrival.request))).shared =
      (sampleRun paid clock acts).shared := by
  rw [run_samples]
  rfl

section Trace

variable {paid} {clock : Nat} {acts : List (Process.Act Arrival Env)} {i j : Nat}
  {m m' : Process.Move Shared Arrival Op Op.Res Answer}

theorem getElem?_samples (h : (sampleRun paid clock acts).trace[i]? = some m) :
    ((sampleRelay paid).run clock (acts.map (Process.Act.rename Arrival.request))).trace[i]? =
      some (m.rename Arrival.request) := by
  rw [run_samples, Process.Config.rename, List.getElem?_map, h]
  rfl

theorem pairwise_samples {R : Move → Move → Prop}
    (h : ((sampleRelay paid).run clock
      (acts.map (Process.Act.rename Arrival.request))).trace.Pairwise R)
    (hij : i < j) (hi : (sampleRun paid clock acts).trace[i]? = some m)
    (hj : (sampleRun paid clock acts).trace[j]? = some m') :
    R (m.rename Arrival.request) (m'.rename Arrival.request) := by
  obtain ⟨hlt, heq⟩ := List.getElem?_eq_some_iff.mp (getElem?_samples hi)
  obtain ⟨hlt', heq'⟩ := List.getElem?_eq_some_iff.mp (getElem?_samples hj)
  rw [← heq, ← heq']
  exact List.pairwise_iff_getElem.mp h i j hlt hlt' hij

end Trace

/-- A condition on the steps of such a schedule. -/
theorem along_samples {C : Configuration → Action → Prop} {clock : Nat}
    {acts : List (Process.Act Arrival Env)}
    (h : Machine.Along (Process.System.step ⟨Arrival.code (sampleRelay paid).authority,
        Op.exec (sampleRelay paid).engine⟩)
      (fun c a => C (c.rename Arrival.request) (a.rename Arrival.request))
      (Process.System.init (Shared.start clock)) acts) :
    Machine.Along (sampleRelay paid).system.step C (Process.System.init (Shared.start clock))
      (acts.map (Process.Act.rename Arrival.request)) :=
  Process.System.along_rename (c := Process.System.init (Shared.start clock)) Arrival.request
    (Arrival.code (sampleRelay paid).authority) (fun x _ => program_arrival paid x) h

end Run

end Floonet.NameAuthority
