import Floonet.Event

/-!
# Recorded events

Signed events taken from the wire, with their hex fields as numbers, and the
hash and signature library as it answers on them. On recorded events with
pairwise distinct times the library validates each (`Recorded.validated`), and
with distinct ids it has no collision among them (`Recorded.noCollision`).
-/

namespace Floonet

open Hex (Bytes)

/-- A signed event as it was received. -/
structure Recorded where
  id : Nat
  pubkey : Nat
  /-- the two halves of the signature -/
  sigR : Nat
  sigS : Nat
  createdAt : Nat
  kind : Nat
  tags : List (List String)
  content : String

namespace Recorded

/-- The 64 bytes of the signature. -/
def sigBytes (r : Recorded) : Bytes := Hex.ofNat 32 r.sigR ++ Hex.ofNat 32 r.sigS

/-- The event itself, as the deserializer leaves it. -/
def event (r : Recorded) : Event where
  id := Hex.encode (Hex.ofNat 32 r.id)
  pubkey := Hex.encode (Hex.ofNat 32 r.pubkey)
  delegatedBy := none
  createdAt := r.createdAt
  kind := r.kind
  tags := r.tags
  content := r.content
  sig := Hex.encode r.sigBytes
  tagidx := none

@[simp] theorem length_sigBytes (r : Recorded) : r.sigBytes.length = 64 := by
  simp [sigBytes, Hex.length_ofNat]

@[simp] theorem decode_event_id (r : Recorded) :
    Hex.decode r.event.id = some (Hex.ofNat 32 r.id) := Hex.decode_encode _

@[simp] theorem decode_event_pubkey (r : Recorded) :
    Hex.decode r.event.pubkey = some (Hex.ofNat 32 r.pubkey) := Hex.decode_encode _

@[simp] theorem decode_event_sig (r : Recorded) :
    Hex.decode r.event.sig = some r.sigBytes := Hex.decode_encode _

/-- Two recorded events have one id when the id bytes agree. -/
theorem event_id_eq_iff {r s : Recorded} :
    r.event.id = s.event.id ↔ Hex.ofNat 32 r.id = Hex.ofNat 32 s.id := by
  refine ⟨?_, ?_⟩
  · intro h
    have := congrArg Hex.decode h
    rwa [decode_event_id, decode_event_id, Option.some.injEq] at this
  · exact fun h => congrArg Hex.encode h

@[simp] theorem event_createdAt (r : Recorded) : r.event.createdAt = r.createdAt := rfl

@[simp] theorem event_kind (r : Recorded) : r.event.kind = r.kind := rfl

@[simp] theorem event_tags (r : Recorded) : r.event.tags = r.tags := rfl

/-- The library on a list of recorded events: it knows their digests and
signatures. -/
def crypto (rs : List Recorded) : Crypto where
  sha256 c :=
    match rs.find? fun r => decide (r.event.toCanonical = some c) with
    | some r => Hex.ofNat 32 r.id
    | none => Hex.ofNat 32 0
  sha256_length := by
    intro c
    split <;> exact Hex.length_ofNat _ _
  signatureFromStr s := (Hex.decode s).filter fun b => b.length == 64
  messageFromSlice b := if b.length = 32 then some b else none
  xOnlyPublicKeyFromStr s := (Hex.decode s).filter fun b => b.length == 32
  xOnlyPublicKeyFromStr_hex := by
    intro s k h
    rw [Option.filter_eq_some_iff] at h
    exact ⟨h.1, by simpa using h.2⟩
  verifySchnorr sig msg key := rs.any fun r =>
    r.sigBytes == sig && Hex.ofNat 32 r.id == msg && Hex.ofNat 32 r.pubkey == key

variable {rs : List Recorded}

/-- The digest of a recorded event is the id it carries. -/
theorem sha256_crypto (hnd : (rs.map createdAt).Nodup) {r : Recorded} (hr : r ∈ rs) {c : String}
    (hc : r.event.toCanonical = some c) : (crypto rs).sha256 c = Hex.ofNat 32 r.id := by
  have hfind : rs.find? (fun s => decide (s.event.toCanonical = some c)) = some r := by
    rcases hf : rs.find? (fun s => decide (s.event.toCanonical = some c)) with _ | s
    · exact absurd hc (by simpa using List.find?_eq_none.mp hf r hr)
    · have hs : s.event.toCanonical = some c := by simpa using List.find?_some hf
      have hbody := Event.sameBody_of_toCanonical hs hc
      rw [hf, List.inj_on_of_nodup_map hnd (List.mem_of_find?_eq_some hf) hr hbody.createdAt]
  simp only [crypto, hfind]

theorem signatureFromStr_crypto (r : Recorded) :
    (crypto rs).signatureFromStr r.event.sig = some r.sigBytes := by
  simp only [crypto, decode_event_sig, Option.filter_some, length_sigBytes, beq_self_eq_true,
    if_true]

theorem messageFromSlice_crypto (n : Nat) :
    (crypto rs).messageFromSlice (Hex.ofNat 32 n) = some (Hex.ofNat 32 n) := by
  simp only [crypto, Hex.length_ofNat, if_true]

theorem xOnlyPublicKeyFromStr_crypto (r : Recorded) :
    (crypto rs).xOnlyPublicKeyFromStr r.event.pubkey = some (Hex.ofNat 32 r.pubkey) := by
  simp only [crypto, decode_event_pubkey, Option.filter_some, Hex.length_ofNat,
    beq_self_eq_true, if_true]

theorem verifySchnorr_crypto {r : Recorded} (hr : r ∈ rs) :
    (crypto rs).verifySchnorr r.sigBytes (Hex.ofNat 32 r.id) (Hex.ofNat 32 r.pubkey) = true := by
  simp only [crypto, List.any_eq_true, Bool.and_eq_true, beq_iff_eq]
  exact ⟨r, hr, ⟨rfl, rfl⟩, rfl⟩

/-- A recorded event is valid, if times tell the events apart. -/
theorem validated (hnd : (rs.map createdAt).Nodup) {r : Recorded} (hr : r ∈ rs) :
    r.event.Validated (crypto rs) := by
  obtain ⟨c, hc⟩ : ∃ c, r.event.toCanonical = some c := ⟨_, rfl⟩
  have hsha := sha256_crypto hnd hr hc
  refine .intro hc ?_ (signatureFromStr_crypto r) ?_ (xOnlyPublicKeyFromStr_crypto r)
    (verifySchnorr_crypto hr)
  · rw [hsha]
    rfl
  · rw [hsha]
    exact messageFromSlice_crypto r.id

theorem validated_all (hnd : (rs.map createdAt).Nodup) :
    ∀ e ∈ rs.map event, e.Validated (crypto rs) := by
  intro e he
  obtain ⟨r, hr, rfl⟩ := List.mem_map.mp he
  exact validated hnd hr

theorem event_id_nodup (hid : (rs.map fun r => Hex.ofNat 32 r.id).Nodup) :
    ((rs.map event).map Event.id).Nodup := by
  rw [List.map_map]
  refine List.pairwise_map.mpr ((List.pairwise_map.mp hid).imp fun hne heq => hne ?_)
  exact event_id_eq_iff.mp heq

theorem noCollision (hnd : (rs.map createdAt).Nodup)
    (hid : (rs.map fun r => Hex.ofNat 32 r.id).Nodup) :
    (crypto rs).NoCollision (rs.map event) := by
  intro e he f hf h
  obtain ⟨r, hr, rfl⟩ := List.mem_map.mp he
  obtain ⟨s, hs, rfl⟩ := List.mem_map.mp hf
  obtain ⟨c, hc⟩ : ∃ c, r.event.toCanonical = some c := ⟨_, rfl⟩
  obtain ⟨d, hd⟩ : ∃ d, s.event.toCanonical = some d := ⟨_, rfl⟩
  rw [hc, hd, Option.map_some, Option.map_some, sha256_crypto hnd hr hc,
    sha256_crypto hnd hs hd] at h
  rw [List.inj_on_of_nodup_map hid hr hs (Option.some.inj h)]

/-! ## Delegations -/

/-- A delegation token and its signature. -/
structure Token where
  text : String
  digest : Nat
  delegator : Nat
  sigR : Nat
  sigS : Nat

/-- The 64 bytes of the signature. -/
def Token.sigBytes (t : Token) : Bytes := Hex.ofNat 32 t.sigR ++ Hex.ofNat 32 t.sigS

/-- The library when it also knows the signature of a token. -/
def cryptoWith (t : Token) (rs : List Recorded) : Crypto :=
  { crypto rs with
    sha256 := fun c => if c = t.text then Hex.ofNat 32 t.digest else (crypto rs).sha256 c
    sha256_length := by
      intro c
      split_ifs
      · exact Hex.length_ofNat _ _
      · exact (crypto rs).sha256_length c
    verifySchnorr := fun sig msg key => (crypto rs).verifySchnorr sig msg key ||
      (t.sigBytes == sig && Hex.ofNat 32 t.digest == msg && Hex.ofNat 32 t.delegator == key) }

section CryptoWith

variable {t : Token}

theorem signatureFromStr_cryptoWith :
    (cryptoWith t rs).signatureFromStr = (crypto rs).signatureFromStr := rfl

theorem messageFromSlice_cryptoWith :
    (cryptoWith t rs).messageFromSlice = (crypto rs).messageFromSlice := rfl

theorem xOnlyPublicKeyFromStr_cryptoWith :
    (cryptoWith t rs).xOnlyPublicKeyFromStr = (crypto rs).xOnlyPublicKeyFromStr := rfl

/-- An event is validated as before, since its text is not the token. -/
theorem validated_cryptoWith (hnd : (rs.map createdAt).Nodup) {r : Recorded} (hr : r ∈ rs)
    (hne : r.event.toCanonical ≠ some t.text) : r.event.Validated (cryptoWith t rs) := by
  obtain ⟨c, hc⟩ : ∃ c, r.event.toCanonical = some c := ⟨_, rfl⟩
  have hct : c ≠ t.text := fun h => hne (h ▸ hc)
  have hsha : (cryptoWith t rs).sha256 c = Hex.ofNat 32 r.id := by
    rw [← sha256_crypto hnd hr hc]
    exact if_neg hct
  have hsig : (cryptoWith t rs).signatureFromStr r.event.sig = some r.sigBytes := by
    rw [signatureFromStr_cryptoWith, signatureFromStr_crypto]
  have hmsg : (cryptoWith t rs).messageFromSlice ((cryptoWith t rs).sha256 c) =
      some (Hex.ofNat 32 r.id) := by
    rw [hsha, messageFromSlice_cryptoWith, messageFromSlice_crypto]
  have hkey : (cryptoWith t rs).xOnlyPublicKeyFromStr r.event.pubkey =
      some (Hex.ofNat 32 r.pubkey) := by
    rw [xOnlyPublicKeyFromStr_cryptoWith, xOnlyPublicKeyFromStr_crypto]
  have hid : r.event.id = Hex.encode ((cryptoWith t rs).sha256 c) := by
    rw [hsha]
    rfl
  refine .intro hc hid hsig hmsg hkey ?_
  simp only [cryptoWith, verifySchnorr_crypto hr, Bool.true_or]

end CryptoWith

end Recorded

end Floonet
