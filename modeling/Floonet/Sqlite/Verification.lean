import Floonet.Recorded
import Floonet.Sqlite.Frame
import Floonet.Sqlite.Replaceable

/-!
# Verifications and the write path

A NIP-05 verification references the metadata event it was made for, and goes
with it when that row is deleted. Metadata is a replaceable kind, so a newer
metadata event of a verified author takes the old row away, and the verification
with it. No other write touches `user_verification`
(`userVerification_write_iff`).
-/

namespace Floonet.Sqlite

open Hex (Bytes)

variable {crypto : Crypto} {eng : Sql.Engine} {db : Db} {e : Event}

/-! ## The cascade -/

/-- A write keeps the verifications whose event is not swept. -/
theorem userVerification_write_cases (eng : Sql.Engine) (db : Db) (e : Event) :
    (write eng db e).userVerification = db.userVerification ∨
      ∃ hash author, ∃ h : Accepts db e hash author, overLimit eng e = false ∧
        (write eng db e).userVerification = db.userVerification.filter fun v =>
          (inserted db e hash author h.hash_new).survives
            (swept eng (inserted db e hash author h.hash_new) e author) v.metadataEvent := by
  rcases write_cases eng db e with hw | ⟨hash, author, hacc, hlim, hw⟩
  · exact Or.inl (by rw [hw])
  · refine Or.inr ⟨hash, author, hacc, hlim, ?_⟩
    rw [hw, accepted, Db.hideEvents_userVerification, cleaned_eq]
    rfl

theorem mem_userVerification_of_write {v : VerificationRow}
    (h : v ∈ (write eng db e).userVerification) : v ∈ db.userVerification := by
  rcases userVerification_write_cases eng db e with hw | ⟨hash, author, hacc, -, hw⟩
  · exact hw ▸ h
  · rw [hw] at h
    exact (List.mem_filter.mp h).1

/-- The verifications stay exactly when no event they reference is deleted. -/
theorem userVerification_eq_iff :
    (write eng db e).userVerification = db.userVerification ↔
      ∀ v ∈ db.userVerification, ∀ r ∈ db.events, r.id = v.metadataEvent →
        ¬ ∀ r' ∈ (write eng db e).events, r'.id ≠ r.id := by
  refine ⟨?_, ?_⟩
  · intro heq v hv r hr hid hgone
    rw [← heq] at hv
    obtain ⟨r', hr', hid'⟩ := (write eng db e).verification_fk v hv
    exact hgone r' hr' (hid'.trans hid.symm)
  · intro h
    rcases userVerification_write_cases eng db e with hw | ⟨hash, author, hacc, hlim, hw⟩
    · exact hw
    · rw [hw, List.filter_eq_self]
      intro v hv
      obtain ⟨r, hr, hid⟩ := db.verification_fk v hv
      have hr' := (mem_inserted hacc).mpr (Or.inl hr)
      rw [← hid, Db.survives_iff hr']
      by_contra hs
      exact h v hv r hr hid ((deleted_iff hr).mpr ⟨hash, author, hacc, hlim, by simpa using hs⟩)

/-! ## Verifications reference metadata -/

/-- The event a call is about. -/
def Op.event? : Op → Option Event
  | .persistEvent e => some e
  | .createVerificationRecord metadata _ _ => some metadata
  | _ => none

/-- The events the calls are about. -/
def mentioned (ops : List Op) : List Event := ops.filterMap Op.event?

theorem mem_mentioned_of_written {ops : List Op} (h : e ∈ written ops) : e ∈ mentioned ops :=
  List.mem_filterMap.mpr ⟨_, mem_written.mp h, rfl⟩

/-- Calls as the relay makes them: every event was validated, and the verifier
only looks at metadata. -/
structure Calls (crypto : Crypto) (ops : List Op) : Prop where
  validated : ∀ e ∈ mentioned ops, e.Validated crypto
  metadata : ∀ m name now, Op.createVerificationRecord m name now ∈ ops → m.kind = 0

theorem Calls.init {ops : List Op} {op : Op} (h : Calls crypto (ops ++ [op])) :
    Calls crypto ops where
  validated e he := by
    refine h.validated e ?_
    rw [mentioned, List.filterMap_append]
    exact List.mem_append_left _ he
  metadata m name now hm := h.metadata m name now (List.mem_append_left _ hm)

/-- The events verifications reference are metadata. -/
def ReferencesMetadata (db : Db) : Prop :=
  ∀ v ∈ db.userVerification, ∀ r ∈ db.events, r.id = v.metadataEvent → r.kind = 0

/-- A write keeps the records at their metadata. -/
theorem ReferencesMetadata.write (h : ReferencesMetadata db) :
    ReferencesMetadata (write eng db e) := by
  intro v hv r hr hid
  have hv' := mem_userVerification_of_write hv
  obtain ⟨s, hs, hsid⟩ := db.verification_fk v hv'
  rcases write_cases eng db e with hw | ⟨hash, author, hacc, -, hw⟩
  · exact h v hv' r (hw ▸ hr) hid
  · rw [hw] at hr
    obtain ⟨t, ht, -, rfl⟩ := (mem_accepted hacc).mp hr
    rw [Db.hideRow_id] at hid
    rw [Db.hideRow_kind]
    rcases ht with ht | rfl
    · exact h v hv' t ht hid
    · -- the new row has an id nothing references yet
      exact absurd (hsid.trans hid.symm) (ne_nextRowid hs)

theorem ReferencesMetadata.createVerificationRecord {m : Event} {name : String} {now : Nat}
    (h : ReferencesMetadata db)
    (hm : ∀ r ∈ db.events, Hex.decode m.id = some r.eventHash → r.kind = 0) :
    ReferencesMetadata (createVerificationRecord db m.id name now) := by
  intro v hv r hr hid
  rw [createVerificationRecord_events] at hr
  rw [Sqlite.createVerificationRecord] at hv
  split at hv
  · exact h v hv r hr hid
  · rename_i metadata hf
    rw [Db.setVerifications_userVerification] at hv
    rcases List.mem_append.mp (List.mem_filter.mp hv).1 with hv | hv
    · exact h v hv r hr hid
    · rw [List.mem_singleton.mp hv] at hid
      obtain rfl := db.eq_of_id_eq hr (List.mem_of_find?_eq_some hf) hid
      have hhash := List.find?_some hf
      exact hm r hr (beq_iff_eq.mp hhash).symm

theorem ReferencesMetadata.updateVerification {id : Nat} {f : VerificationRow → VerificationRow}
    (h : ReferencesMetadata db) (hid : ∀ v, (f v).id = v.id)
    (hev : ∀ v, (f v).metadataEvent = v.metadataEvent) :
    ReferencesMetadata (updateVerification db id f hid hev) := by
  intro v hv r hr hvid
  obtain ⟨w, hw, rfl⟩ := List.mem_map.mp hv
  refine h w hw r hr (hvid.trans ?_)
  split
  · exact hev w
  · rfl

/-- In every database the relay's calls lead to, verifications reference
metadata. -/
theorem run_referencesMetadata (eng : Sql.Engine) (ops : List Op) :
    Calls crypto ops → crypto.NoCollision (mentioned ops) →
      ReferencesMetadata (run eng ops) := by
  refine Machine.history (P := fun ops db => Calls crypto ops →
    crypto.NoCollision (mentioned ops) → ReferencesMetadata db) ?_ ?_ ops
  · exact fun _ _ v hv => absurd hv List.not_mem_nil
  · intro pre op ih hcalls hnc
    have hsub : ∀ f ∈ mentioned pre, f ∈ mentioned (pre ++ [op]) := by
      intro f hf
      rw [mentioned, List.filterMap_append]
      exact List.mem_append_left _ hf
    have hdb := ih hcalls.init fun f hf g hg => hnc f (hsub f hf) g (hsub g hg)
    cases op with
    | persistEvent e => exact hdb.write
    | deleteExpired now =>
      intro v hv r hr
      exact hdb v (List.mem_filter.mp hv).1 r (Db.mem_deleteEvents.mp hr).1
    | createVerificationRecord m name now =>
      have hop : Op.createVerificationRecord m name now ∈
          pre ++ [.createVerificationRecord m name now] :=
        List.mem_append_right _ (List.mem_singleton_self _)
      refine hdb.createVerificationRecord fun r hr hid => ?_
      obtain ⟨f, hf, -, hrow⟩ := exists_rowOf_run hr
      have hbody := hrow.sameBody hcalls.validated hnc (hsub f (mem_mentioned_of_written hf))
        (List.mem_filterMap.mpr ⟨_, hop, rfl⟩) hid
      rw [hrow.kind, hbody.kind, hcalls.metadata m name now hop]
    | updateVerificationTimestamp id verifTime =>
      refine hdb.updateVerification ?_ ?_ <;> exact fun _ => rfl
    | failVerification id failTime =>
      refine hdb.updateVerification ?_ ?_ <;> exact fun _ => rfl
    | deleteVerification id =>
      intro v hv
      exact hdb v (List.mem_filter.mp hv).1

/-! ## What ends a verification

So a write ends a verification exactly if it sweeps the metadata it refers to, which a newer
metadata event of the same author does. -/

/-- The event is metadata, newer than stored metadata of its author that a
verification references. -/
def ReplacesVerified (db : Db) (e : Event) : Prop :=
  e.kind = 0 ∧ representable e = true ∧ ∃ v ∈ db.userVerification, ∃ r ∈ db.events,
    r.id = v.metadataEvent ∧ Hex.decode e.pubkey = some r.author ∧ r.createdAt < e.createdAt

/-- **What ends a verification.** In every database the relay's calls lead to, the
write of a validated event leaves the verifications as they are exactly unless it
is metadata that replaces the metadata of a verification. -/
theorem userVerification_write_iff (crypto : Crypto) (eng : Sql.Engine) (ops : List Op) (e : Event)
    (hcalls : Calls crypto ops) (hval : e.Validated crypto)
    (hnc : crypto.NoCollision (e :: mentioned ops)) :
    (write eng (run eng ops) e).userVerification = (run eng ops).userVerification ↔
      ¬ ReplacesVerified (run eng ops) e := by
  have hmeta := run_referencesMetadata eng ops hcalls fun f hf g hg =>
    hnc f (List.mem_cons_of_mem _ hf) g (List.mem_cons_of_mem _ hg)
  have hone := run_oneReplaceable eng ops
  rw [userVerification_eq_iff]
  refine ⟨?_, ?_⟩
  · rintro h ⟨hk, hrep, v, hv, r, hr, hid, hpk, hlt⟩
    have hkr := hmeta v hv r hr hid
    have hrepl := isReplaceable_of_kind (e := e) (Or.inl hk) rfl
    obtain ⟨hash, hdec, -⟩ := hval.exists_decode_id
    -- the referenced row is the only metadata of the author, and it is older
    have holder : ∀ s ∈ (run eng ops).events, s.author = r.author → s.kind = e.kind →
        s.createdAt < e.createdAt := by
      intro s hs ha hks
      rwa [hone s hs r hr ha (hks.trans (hk.trans hkr.symm)) (Or.inl (hks.trans hk))]
    have hacc : Accepts (run eng ops) e hash r.author := by
      refine ⟨not_shadowed_of_newer hrepl hpk holder, hrep, hdec, hpk, fun hmem => ?_⟩
      obtain ⟨s, hs, rfl⟩ := List.mem_map.mp hmem
      obtain ⟨f, hf, -, hrow⟩ := exists_rowOf_run hs
      have hbody := hrow.sameBody
        (List.forall_mem_cons.mpr ⟨hval, hcalls.validated⟩) hnc
        (List.mem_cons_of_mem _ (mem_mentioned_of_written hf)) (List.mem_cons_self ..) hdec
      have ha : s.author = r.author :=
        Option.some.inj (hrow.decode_pubkey.symm.trans (hbody.pubkey ▸ hpk))
      have := holder s hs ha (hrow.kind.trans hbody.kind)
      rw [hrow.createdAt, hbody.createdAt] at this
      omega
    refine h v hv r hr hid ((deleted_iff hr).mpr ⟨hash, r.author, hacc, ?_, ?_⟩)
    · rw [overLimit, hk]
      rfl
    · refine (swept_replaceable hacc hrepl ((mem_inserted hacc).mpr (Or.inl hr))).mpr
        ⟨fun hnew => ne_nextRowid hr ?_, hkr.trans hk.symm, rfl⟩
      rw [hnew]
      rfl
  · intro h v hv r hr hid hgone
    have hkr := hmeta v hv r hr hid
    obtain ⟨hash, author, hacc, -, hs⟩ := (deleted_iff hr).mp hgone
    obtain ⟨hk, ha, -⟩ := swept_le hs
    have hr0 : ReplaceableKind e.kind := Or.inl (hk.symm.trans hkr)
    refine h ⟨hk.symm.trans hkr, hacc.representable, v, hv, r, hr, hid, ?_, ?_⟩
    · rw [hacc.decode_pubkey, ha]
    · exact createdAt_lt_of_accepts hacc (isReplaceable_of_kind hr0 rfl) hr hk ha

/-- The metadata of a verified author. -/
def sampleMetadata : Recorded where
  id := 0x9456011ad86881be545065bda6f48eaa188c1bc84968532f18805ea3e1a5395e
  pubkey := 0x5cbdf0646e5db4eaa398f365f2ea7a0e3d419b7e0330e39ce92bddedcac4f9bc
  sigR := 0x7d2d45a5aa6a91384c34c08a5e09f1228d7426dff46f6c1366c2f5bad3d7a930
  sigS := 0xed227b59c48cb446baccefe3fcc4c0ca1d846cf53e136f3563fa2e4bef591391
  createdAt := 1700000060
  kind := 0
  tags := []
  content := "\x7b\"nip05\":\"bob@example.com\"\x7d"

/-- A note of the same author. -/
def sampleVerifiedNote : Recorded where
  id := 0x0beb05ee98f699820eddf27a93c5887fa287e0c66b14573fa39fbc16f6d355fb
  pubkey := 0x5cbdf0646e5db4eaa398f365f2ea7a0e3d419b7e0330e39ce92bddedcac4f9bc
  sigR := 0x6d6820ae3f6a8b135a98e8129fa82a4c6e3fbadc64af067b292c536d71cdf010
  sigS := 0x9761766254a527fddccf170eaf0172130591ed1431c936e0b7cff896cb049f29
  createdAt := 1700000062
  kind := 1
  tags := []
  content := "note"

/-- The author is verified. -/
def sampleVerified : List Op :=
  [.persistEvent sampleMetadata.event,
    .createVerificationRecord sampleMetadata.event "bob@example.com" 1700000070]

theorem sampleVerified_calls {rs : List Recorded} (hnd : (rs.map Recorded.createdAt).Nodup)
    (hmem : sampleMetadata ∈ rs) : Calls (Recorded.crypto rs) sampleVerified := by
  refine ⟨?_, ?_⟩
  · intro e he
    have : e = sampleMetadata.event := by simpa [mentioned, sampleVerified, Op.event?] using he
    rw [this]
    exact Recorded.validated hnd hmem
  · intro m name now hm
    have : m = sampleMetadata.event := by
      simp only [sampleVerified, List.mem_cons, reduceCtorEq, List.not_mem_nil, or_false,
        false_or, Op.createVerificationRecord.injEq] at hm
      exact hm.1
    rw [this]
    rfl

/-- A note of a verified author leaves the verification alone. -/
theorem sampleVerifiedNote_keeps :
    (write (Sql.Engine.inOrder 32766) (run (Sql.Engine.inOrder 32766) sampleVerified)
        sampleVerifiedNote.event).userVerification =
      (run (Sql.Engine.inOrder 32766) sampleVerified).userVerification := by
  have hnd : ([sampleVerifiedNote, sampleMetadata].map Recorded.createdAt).Nodup := by decide
  have hnc := Recorded.noCollision hnd (by decide +kernel)
  refine (userVerification_write_iff (Recorded.crypto [sampleVerifiedNote, sampleMetadata]) _ _ _
    (sampleVerified_calls hnd (by simp)) (Recorded.validated hnd (by simp)) ?_).mpr ?_
  · intro e he f hf
    refine hnc e ?_ f ?_
    · simpa [mentioned, sampleVerified, Op.event?] using he
    · simpa [mentioned, sampleVerified, Op.event?] using hf
  · exact fun h => absurd h.1 (by decide)

/-- Newer metadata of the same author. -/
def sampleMetadataUpdate : Recorded where
  id := 0x6f9a67ecbb28b9da5200f757d313e259ea9b9c7bcc6b8e42c6770f62b48ae1e2
  pubkey := 0x5cbdf0646e5db4eaa398f365f2ea7a0e3d419b7e0330e39ce92bddedcac4f9bc
  sigR := 0x4284359d9c49f70faf332704357ee00feaabb10159ea91dfd690c4d56e8e0c79
  sigS := 0x9f4938ee62a44cc80832c54ae579070fec8f1d110a7aec515a0e96ce1d0652ef
  createdAt := 1700000061
  kind := 0
  tags := []
  content := "\x7b\"nip05\":\"bob@example.com\",\"about\":\"x\"\x7d"

/-- Newer metadata of a verified author ends the verification. -/
theorem sampleMetadataUpdate_drops :
    Calls (Recorded.crypto [sampleMetadata, sampleMetadataUpdate]) sampleVerified ∧
      sampleMetadataUpdate.event.Validated
        (Recorded.crypto [sampleMetadata, sampleMetadataUpdate]) ∧
      (run (Sql.Engine.inOrder 32766) sampleVerified).userVerification =
        [{ id := 1, metadataEvent := 1, name := "bob@example.com",
           verifiedAt := some 1700000070, failedAt := none, failureCount := 0 }] ∧
      (write (Sql.Engine.inOrder 32766) (run (Sql.Engine.inOrder 32766) sampleVerified)
        sampleMetadataUpdate.event).userVerification = [] := by
  have hnd : ([sampleMetadata, sampleMetadataUpdate].map Recorded.createdAt).Nodup := by decide
  refine ⟨sampleVerified_calls hnd (by simp), Recorded.validated hnd (by simp), ?_, ?_⟩
  · decide +kernel
  · decide +kernel

end Floonet.Sqlite
