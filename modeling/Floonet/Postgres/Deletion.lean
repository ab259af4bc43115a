import Floonet.Recorded
import Floonet.Postgres.Step

/-!
# Deletions and their targets on Postgres

A deletion that comes after its target hides it through `id IN (…)`, read off the
tags of the event. A target that comes after its deletion is looked up in the tag
table instead, in the column `value`, as raw bytes. An event id in lower-case hex
is stored in the other column, so this lookup only finds an `e` tag whose text is,
byte for byte, the hash itself (`deletionStored_write_iff`).
`deletionCommutes_iff` draws the conclusion.
-/

namespace Floonet.Postgres

open Hex (Bytes)

variable {server : Server} {db : Db} {e : Event} {id pubKey : Bytes}

/-! ## The lookup of a deletion

The lookup compares the bytes of the hash with `t.value`. A tag value in hex is in the other
column, so it is never found; only a text with the very bytes of the hash is. -/

/-- A deletion of the author is stored with an `e` tag of these raw bytes. -/
def DeletionStored (db : Db) (pubKey id : Bytes) : Prop :=
  ∃ r ∈ db.events, r.pubKey = pubKey ∧ r.kind = 5 ∧
    ∃ t ∈ db.tags, t.eventId = r.id ∧ t.name = "e" ∧ t.value = some id

/-- The event has an `e` tag whose text goes to the `value` column and is these
raw bytes. -/
def NamesRaw (e : Event) (id : Bytes) : Prop :=
  ∃ v ∈ e.tagValuesByName "e", storedAsHex v = false ∧ asBytes v = id

theorem sqlEq_some {o : Option Bytes} : sqlEq o (some id) = true ↔ o = some id := by
  cases o with
  | none => simp [sqlEq]
  | some b => rw [sqlEq, Option.any_some, beq_iff_eq, eq_comm]

theorem deletionRecorded_iff :
    deletionRecorded db pubKey id = true ↔ DeletionStored db pubKey id := by
  have hjoin := Sql.filter_leftJoin (fun (r : EventRow) (t : TagRow) => r.id == t.eventId)
    (fun r t => r.pubKey == pubKey && t.name == "e" && r.kind == 5 && sqlEq t.value (some id))
    db.events db.tags
  rw [deletionRecorded, hjoin, Bool.not_eq_true', List.isEmpty_eq_false_iff_exists_mem]
  simp only [List.mem_flatMap, List.mem_map, List.mem_filter, Bool.and_eq_true, beq_iff_eq,
    sqlEq_some]
  refine ⟨?_, ?_⟩
  · rintro ⟨-, r, hr, t, ⟨ht, ⟨⟨⟨hpk, hn⟩, hk⟩, hv⟩, hid⟩, -⟩
    exact ⟨r, hr, hpk, hk, t, ht, hid.symm, hn, hv⟩
  · rintro ⟨r, hr, hpk, hk, t, ht, hid, hn, hv⟩
    exact ⟨_, r, hr, t, ⟨ht, ⟨⟨⟨hpk, hn⟩, hk⟩, hv⟩, hid.symm⟩, rfl⟩

theorem deletionStored_hideEvents {p : EventRow → Bool} :
    DeletionStored (db.hideEvents p) pubKey id ↔ DeletionStored db pubKey id := by
  simp only [DeletionStored, Db.mem_hideEvents, Db.hideEvents_tags]
  refine ⟨?_, ?_⟩
  · rintro ⟨-, ⟨r, hr, rfl⟩, h⟩
    simp only [Db.hideRow_id, Db.hideRow_pubKey, Db.hideRow_kind] at h
    exact ⟨r, hr, h⟩
  · rintro ⟨r, hr, h⟩
    refine ⟨_, ⟨r, hr, rfl⟩, ?_⟩
    simpa only [Db.hideRow_id, Db.hideRow_pubKey, Db.hideRow_kind] using h

/-- A deletion names the bytes where a row of its tags has them. -/
theorem namesRaw_iff (rowId : Bytes) :
    NamesRaw e id ↔ ∃ t ∈ tagRows rowId e, t.name = "e" ∧ t.value = some id := by
  have hname : (singleCharTagname "e").isSome = true := rfl
  simp only [NamesRaw, tagRows, List.mem_map, Event.mem_tagValuesByName hname]
  refine ⟨?_, ?_⟩
  · rintro ⟨v, hv, hhex, rfl⟩
    exact ⟨_, ⟨_, hv, rfl⟩, rfl, by simp [tagRow, hhex]⟩
  · rintro ⟨-, ⟨⟨n, v⟩, hnv, rfl⟩, rfl, hval⟩
    simp only [tagRow] at hval
    split_ifs at hval with hhex
    exact ⟨v, hnv, by simpa using hhex, Option.some.inj hval⟩

/-- An insert adds the deletions the new event itself records. -/
theorem deletionStored_insertedNew {author xid : Bytes} (hnew : id ∉ db.events.map EventRow.id) :
    DeletionStored (insertedNew db e id pubKey hnew) author xid ↔
      DeletionStored db author xid ∨ pubKey = author ∧ asI64 e.kind = 5 ∧ NamesRaw e xid := by
  rw [DeletionStored, insertedNew_tags, namesRaw_iff id]
  refine ⟨?_, ?_⟩
  · rintro ⟨r, hr, hpk, hk, t, ht, hid, htag⟩
    rcases List.mem_append.mp ht with hold | hadd <;>
      rcases (mem_insertedNew hnew).mp hr with hr' | rfl
    · exact Or.inl ⟨r, hr', hpk, hk, t, hold, hid, htag⟩
    · -- an old tag row belongs to an old event
      obtain ⟨s, hs, hsid⟩ := db.tag_fk t hold
      exact absurd (List.mem_map.mpr ⟨s, hs, hsid.trans hid⟩) hnew
    · have hrow := eventId_of_mem_tagRows t hadd
      exact absurd (List.mem_map.mpr ⟨r, hr', hid.symm.trans hrow⟩) hnew
    · exact Or.inr ⟨hpk, hk, t, hadd, htag⟩
  · rintro (⟨r, hr, hpk, hk, t, ht, h⟩ | ⟨hpk, hk, t, ht, h⟩)
    · exact ⟨r, (mem_insertedNew hnew).mpr (Or.inl hr), hpk, hk, t, List.mem_append_left _ ht, h⟩
    · exact ⟨_, (mem_insertedNew hnew).mpr (Or.inr rfl), hpk, hk, t, List.mem_append_right _ ht,
        eventId_of_mem_tagRows t ht, h⟩

/-! ## Both orders

If the target comes first, the deletion hides it by `id IN (…)`. If it comes second, only the
lookup can hide it. The two orders are compared row by row. -/

/-- The event is stored and hidden. -/
def Hides (db : Db) (id : Bytes) : Prop := ∃ r ∈ db.events, r.id = id ∧ r.hidden = true

/-- What is hidden after hiding some rows. -/
theorem hides_hideEvents {p : EventRow → Bool} :
    Hides (db.hideEvents p) id ↔
      ∃ r ∈ db.events, r.id = id ∧ (r.hidden = true ∨ p r = true) := by
  simp only [Hides, Db.mem_hideEvents]
  refine ⟨?_, ?_⟩
  · rintro ⟨-, ⟨r, hr, rfl⟩, hid, hh⟩
    rw [Db.hideRow_hidden, Bool.or_eq_true] at hh
    exact ⟨r, hr, (Db.hideRow_id p r).symm.trans hid, hh⟩
  · rintro ⟨r, hr, hid, hh⟩
    refine ⟨_, ⟨r, hr, rfl⟩, (Db.hideRow_id p r).trans hid, ?_⟩
    rwa [Db.hideRow_hidden, Bool.or_eq_true]

/-- On a `u64` the cast to `i64` keeps small numbers apart from all others. -/
theorem asI64_ne {n k : Nat} (hn : n < 2 ^ 64) (hk : k < 2 ^ 63) (h : n ≠ k) :
    asI64 n ≠ k := by
  simp only [asI64]
  split_ifs <;> omega

section Orders

variable {x d : Event} {xid did : Bytes}
  (hrepl : x.isReplaceable = false) (hparam : x.isParamReplaceable = false)
  (h5 : x.kind ≠ 5) (h1059 : x.kind ≠ 1059) (hu64 : x.kind < 2 ^ 64)
  (hxid : Hex.decode x.id = some xid) (hxpk : Hex.decode x.pubkey = some pubKey)
  (hxnew : xid ∉ db.events.map EventRow.id)
  (hd5 : d.kind = 5) (hdid : Hex.decode d.id = some did)
  (hdpk : Hex.decode d.pubkey = some pubKey) (hne : xid ≠ did)
  (hdnew : did ∉ db.events.map EventRow.id)

include h5 hu64 in
/-- The target records no deletion itself. -/
theorem deletionStored_target :
    DeletionStored (insertedNew db x xid pubKey hxnew) pubKey xid ↔
      DeletionStored db pubKey xid := by
  rw [deletionStored_insertedNew]
  have := asI64_ne hu64 (by omega : 5 < 2 ^ 63) h5
  exact ⟨fun h => h.resolve_right fun h' => this h'.2.1, Or.inl⟩

include h5 h1059 hu64 in
/-- The end of the target's transaction when its deletion is found. -/
theorem settled_of_deletionStored (hdel : DeletionStored db pubKey xid) :
    settled (insertedNew db x xid pubKey hxnew) x (newRow x xid pubKey) =
      (0, (insertedNew db x xid pubKey hxnew).hideEvents fun r => r.id == xid) := by
  have hrec := deletionRecorded_iff.mpr ((deletionStored_target h5 hu64 hxnew).mpr hdel)
  rw [settled, if_neg h5, newRow_pubKey, newRow_id, if_pos ⟨h1059, hrec⟩]

include h5 hu64 in
/-- The end of the target's transaction when it is not. -/
theorem settled_of_not_deletionStored (hdel : ¬ DeletionStored db pubKey xid) :
    settled (insertedNew db x xid pubKey hxnew) x (newRow x xid pubKey) =
      (1, insertedNew db x xid pubKey hxnew) := by
  have hrec : ¬ deletionRecorded (insertedNew db x xid pubKey hxnew) pubKey xid = true :=
    fun h => hdel ((deletionStored_target h5 hu64 hxnew).mp (deletionRecorded_iff.mp h))
  rw [settled, if_neg h5, newRow_pubKey, newRow_id, if_neg fun h => hrec h.2]

variable (pubKey) in
include h5 h1059 hu64 in
/-- The stored target is hidden exactly when its deletion is found. -/
theorem exists_row_settled :
    ∃ r ∈ (settled (insertedNew db x xid pubKey hxnew) x (newRow x xid pubKey)).2.events,
      r.id = xid ∧ r.pubKey = pubKey ∧ r.kind = asI64 x.kind ∧
        (r.hidden = true ↔ DeletionStored db pubKey xid) := by
  by_cases hdel : DeletionStored db pubKey xid
  · rw [settled_of_deletionStored h5 h1059 hu64 hxnew hdel]
    refine ⟨_, Db.mem_hideEvents.mpr ⟨_, (mem_insertedNew hxnew).mpr (Or.inr rfl), rfl⟩, ?_⟩
    simp [hdel]
  · rw [settled_of_not_deletionStored h5 hu64 hxnew hdel]
    refine ⟨newRow x xid pubKey, ?_, rfl, rfl, rfl, ?_⟩
    · exact (mem_insertedNew hxnew).mpr (Or.inr rfl)
    · simp [newRow, hdel]

variable (server) in
include hrepl hparam h5 h1059 hu64 hxid hxpk hxnew in
/-- A target is hidden on arrival and reported as nothing new exactly when the
lookup finds its deletion. -/
theorem hidden_on_arrival_iff :
    (∃ db', writeEvent server db x = .ok (0, db') ∧ Hides db' xid) ↔
      Storable server x ∧ DeletionStored db pubKey xid := by
  simp only [writeEvent_eq_ok hrepl hparam hxid hxpk hxnew]
  refine ⟨?_, ?_⟩
  · rintro ⟨db', ⟨hs, hres⟩, -⟩
    refine ⟨hs, ?_⟩
    by_contra hdel
    rw [settled_of_not_deletionStored h5 hu64 hxnew hdel, Prod.mk.injEq] at hres
    exact zero_ne_one hres.1
  · rintro ⟨hs, hdel⟩
    obtain ⟨r, hr, hrid, -, -, hh⟩ := exists_row_settled pubKey h5 h1059 hu64 hxnew
    rw [settled_of_deletionStored h5 h1059 hu64 hxnew hdel] at hr ⊢
    exact ⟨_, ⟨hs, rfl⟩, r, hr, hrid, hh.mpr hdel⟩

include hd5 hdid hdpk hdnew in
/-- A stored deletion adds what its `e` tags name byte for byte. -/
theorem deletionStored_write_iff :
    DeletionStored (write server db d) pubKey xid ↔
      DeletionStored db pubKey xid ∨ Storable server d ∧ NamesRaw d xid := by
  obtain ⟨hdrepl, hdparam⟩ := plain_of_kind_five hd5
  by_cases hs : Storable server d
  · have hk : asI64 d.kind = 5 := by rw [hd5]; rfl
    rw [write_of_storable hdrepl hdparam hdid hdpk hdnew hs, settled, if_pos hd5,
      deletionStored_hideEvents, deletionStored_insertedNew]
    simp [hs, hk]
  · rw [write_of_not_storable hdrepl hdparam hdid hdpk hdnew hs]
    simp [hs]

variable (server) in
include hrepl hparam h5 h1059 hu64 hxid hxpk hxnew hd5 hdid hdpk hdnew hne in
/-- After both writes the target is hidden when either of them does it: its own,
or the deletion that names it. -/
theorem hides_write_write_iff (hnames : xid ∈ deletionIds d) :
    Hides (write server (write server db x) d) xid ↔
      Storable server x ∧ (DeletionStored db pubKey xid ∨ Storable server d) := by
  obtain ⟨hdrepl, hdparam⟩ := plain_of_kind_five hd5
  have hdnew' : did ∉ (write server db x).events.map EventRow.id := by
    rw [mem_write_ids hrepl hparam hxid hxpk hxnew]
    rintro (h | ⟨-, h⟩)
    · exact hdnew h
    · exact hne h.symm
  by_cases hs : Storable server x
  · obtain ⟨r, hr, hrid, hrpk, hrk, hh⟩ :=
      exists_row_settled pubKey h5 h1059 hu64 hxnew
    rw [← write_of_storable hrepl hparam hxid hxpk hxnew hs] at hr
    by_cases hds : Storable server d
    · rw [write_of_storable hdrepl hdparam hdid hdpk hdnew' hds, settled, if_pos hd5,
        hides_hideEvents]
      refine ⟨fun _ => ⟨hs, Or.inr hds⟩, fun _ => ?_⟩
      refine ⟨r, (mem_insertedNew hdnew').mpr (Or.inl hr), hrid, Or.inr ?_⟩
      have hk5 := asI64_ne hu64 (by omega : 5 < 2 ^ 63) h5
      have hk1059 := asI64_ne hu64 (by omega : 1059 < 2 ^ 63) h1059
      simp only [deletionTarget, hrk, hrpk, hrid, newRow_pubKey, Bool.and_eq_true, bne_iff_ne,
        beq_iff_eq, List.contains_iff_mem]
      exact ⟨⟨⟨hk5, hk1059⟩, trivial⟩, hnames⟩
    · rw [write_of_not_storable hdrepl hdparam hdid hdpk hdnew' hds]
      refine ⟨?_, ?_⟩
      · rintro ⟨s, hsm, hsid, hsh⟩
        obtain rfl : s = r := List.inj_on_of_nodup_map (write server db x).id_nodup hsm hr
          (hsid.trans hrid.symm)
        exact ⟨hs, Or.inl (hh.mp hsh)⟩
      · rintro ⟨-, h⟩
        exact ⟨r, hr, hrid, hh.mpr (h.resolve_right hds)⟩
  · rw [write_of_not_storable hrepl hparam hxid hxpk hxnew hs]
    refine ⟨?_, fun h => absurd h.1 hs⟩
    rintro ⟨r, hr, hrid, -⟩
    rcases (mem_write_ids hdrepl hdparam hdid hdpk hdnew).mp (List.mem_map.mpr ⟨r, hr, hrid⟩)
      with h | ⟨-, h⟩
    · exact absurd h hxnew
    · exact absurd h hne

end Orders

/-- Deletion and target commute: in both orders the target ends up hidden, and
when it comes second it is not reported as new. -/
def DeletionCommutes (server : Server) (db : Db) (x d : Event) : Prop :=
  ∃ xid, Hex.decode x.id = some xid ∧
    (∃ db', writeEvent server (write server db d) x = .ok (0, db') ∧ Hides db' xid) ∧
    Hides (write server (write server db x) d) xid

/-- The event is not stored. -/
def Absent (db : Db) (e : Event) : Prop := ∀ r ∈ db.events, Hex.decode e.id ≠ some r.id

/-- **When a deletion commutes with its target.** Exactly when the target is
storable and its raw hash, as text, is an `e` tag of a deletion by its author: of
one stored before, or of this one if it is storable itself. An `e` tag in
lower-case hex does not count. -/
theorem deletionCommutes_iff (crypto : Crypto) (server : Server) (db : Db) (x d : Event)
    (hcoll : crypto.NoCollision [x, d]) (hx : x.Validated crypto) (hd : d.Validated crypto)
    (hu64 : x.kind < 2 ^ 64) (hrepl : x.isReplaceable = false)
    (hparam : x.isParamReplaceable = false) (h5 : x.kind ≠ 5) (h1059 : x.kind ≠ 1059)
    (hd5 : d.kind = 5) (hauthor : Hex.decode d.pubkey = Hex.decode x.pubkey)
    (hnames : x.id ∈ d.tagValuesByName "e") (hxnew : Absent db x) (hdnew : Absent db d) :
    DeletionCommutes server db x d ↔
      Storable server x ∧ ∃ xid pubKey,
        Hex.decode x.id = some xid ∧ Hex.decode x.pubkey = some pubKey ∧
        (DeletionStored db pubKey xid ∨ Storable server d ∧ NamesRaw d xid) := by
  obtain ⟨xid, hxid, -⟩ := hx.exists_decode_id
  obtain ⟨did, hdid, -⟩ := hd.exists_decode_id
  obtain ⟨pubKey, hxpk, -⟩ := hx.exists_decode_pubkey
  have hdpk : Hex.decode d.pubkey = some pubKey := hauthor.trans hxpk
  have hne : xid ≠ did := by
    rintro rfl
    have hid := hx.id_eq_of_decode hd (hxid.trans hdid.symm)
    have hkind := (hx.sameBody hcoll (by simp) (by simp) hd hid).kind
    exact h5 (hkind.trans hd5)
  have hnotMem : ∀ {e : Event} {i : Bytes}, Hex.decode e.id = some i → Absent db e →
      i ∉ db.events.map EventRow.id := by
    intro e i hi habs hmem
    obtain ⟨r, hr, rfl⟩ := List.mem_map.mp hmem
    exact habs r hr hi
  have hids : xid ∈ deletionIds d := by
    simp only [deletionIds, List.mem_filterMap, List.mem_filter, Bool.and_eq_true, beq_iff_eq]
    exact ⟨x.id, ⟨hnames, isHex_of_isLowerHex hx.isLowerHex_id, hx.byteLen_id⟩, hxid⟩
  obtain ⟨hdrepl, hdparam⟩ := plain_of_kind_five hd5
  have hxnew' := hnotMem hxid hxnew
  have hdnew' := hnotMem hdid hdnew
  have hxnew'' : xid ∉ (write server db d).events.map EventRow.id := by
    rw [mem_write_ids hdrepl hdparam hdid hdpk hdnew']
    rintro (h | ⟨-, h⟩)
    · exact hxnew' h
    · exact hne h
  have hfirst := hidden_on_arrival_iff server hrepl hparam h5 h1059 hu64 hxid hxpk
    hxnew''
  have hsecond := hides_write_write_iff server hrepl hparam h5 h1059 hu64 hxid hxpk
    hxnew' hd5 hdid hdpk hne hdnew' hids
  rw [deletionStored_write_iff hd5 hdid hdpk hdnew'] at hfirst
  simp only [DeletionCommutes, hxid, hxpk, Option.some.injEq, exists_eq_left', hfirst, hsecond]
  refine ⟨?_, ?_⟩
  · rintro ⟨⟨hs, h⟩, -⟩
    exact ⟨hs, xid, pubKey, rfl, rfl, h⟩
  · rintro ⟨hs, _, _, rfl, rfl, h⟩
    exact ⟨⟨hs, h⟩, hs, h.imp_right And.left⟩

/-- A note whose hash happens to be UTF-8 text. -/
def sampleTarget : Recorded where
  id := 0x1e656b392362586a4c0e762f44713653252f4cd1a1033550422f0b2a0c497e15
  pubkey := 0x5cbdf0646e5db4eaa398f365f2ea7a0e3d419b7e0330e39ce92bddedcac4f9bc
  sigR := 0x933292aadb2380747403c75b2dc4f2899f2d48d4e840459734efc439e73eae71
  sigS := 0x4a23b62ab907c8ff00bd22c26878abf3fa2ba610e7f0df85b10354a29bd12d9c
  createdAt := 1700000070
  kind := 1
  tags := []
  content := "note 1401338843"

/-- A deletion that names the note in hex and as that text. -/
def sampleRawDeletion : Recorded where
  id := 0xba0e04d0debba6feb0398309061f9d19701b36ffbaabf237e2aa757212332dce
  pubkey := 0x5cbdf0646e5db4eaa398f365f2ea7a0e3d419b7e0330e39ce92bddedcac4f9bc
  sigR := 0xcf30abc965e13df674330b23adc54d7bf2d62aa2f34cb6ae4e67c812095a7909
  sigS := 0x24b5e4d8901740bc3fd79bbd155d1ca7a910a253c9ee42fddfa003400eb8d0d9
  createdAt := 1700000071
  kind := 5
  tags :=
    [["e", "1e656b392362586a4c0e762f44713653252f4cd1a1033550422f0b2a0c497e15"],
      ["e", "\x1eek9#bXjL\x0ev/Dq6S%/L\u0461\x035PB/\x0b*\x0cI~\x15"]]
  content := ""

/-- The deletion a client sends. -/
def sampleHexDeletion : Recorded where
  id := 0x56a151047df0d47f12e0f8396db507172bd1dcc7f92a842febaa9dfa5d0abb7b
  pubkey := 0x5cbdf0646e5db4eaa398f365f2ea7a0e3d419b7e0330e39ce92bddedcac4f9bc
  sigR := 0x12e9acdb9ef129609b080ee54d4a9a26ef1991ab32930faa286ca95c82d31371
  sigS := 0x1d040aa8c3303233caf242788317d2b0576d5da992cc4954773930cbd2860cdf
  createdAt := 1700000072
  kind := 5
  tags := [["e", "1e656b392362586a4c0e762f44713653252f4cd1a1033550422f0b2a0c497e15"]]
  content := ""

theorem absent_empty (e : Event) : Absent Db.empty e :=
  fun _ hr => absurd hr List.not_mem_nil

theorem sampleTarget_storable : Storable Server.inOrder sampleTarget.event where
  createdAt := ⟨1700000070, by decide, by decide⟩
  expiresAt := fun _ h => by cases h
  kind := by decide
  tags := fun _ _ _ ht => by cases ht
  deletion := fun h => by cases h

theorem sampleRawDeletion_storable : Storable Server.inOrder sampleRawDeletion.event where
  createdAt := ⟨1700000071, by decide, by decide⟩
  expiresAt := fun _ h => by cases h
  kind := by decide
  tags := by
    -- nothing in the test reads the id of the event
    have hall : ∀ nv ∈ sampleRawDeletion.event.searchableTags,
        refusal Server.inOrder (tagRow [] nv) = none := by
      decide +kernel
    intro id _ t ht
    obtain ⟨nv, hnv, rfl⟩ := List.mem_map.mp ht
    exact hall nv hnv
  deletion := fun _ => by decide +kernel

theorem sampleRawDeletion_commutes :
    DeletionCommutes Server.inOrder Db.empty sampleTarget.event sampleRawDeletion.event := by
  have hnd : ([sampleTarget, sampleRawDeletion].map Recorded.createdAt).Nodup := by decide
  have hid : ([sampleTarget, sampleRawDeletion].map fun r => Hex.ofNat 32 r.id).Nodup := by
    decide +kernel
  refine (deletionCommutes_iff (Recorded.crypto [sampleTarget, sampleRawDeletion]) _ _ _ _
    (Recorded.noCollision hnd hid) (Recorded.validated hnd (by simp))
    (Recorded.validated hnd (by simp)) (by decide) rfl rfl (by decide) (by decide) rfl rfl
    (by decide +kernel) (absent_empty _) (absent_empty _)).mpr ?_
  refine ⟨sampleTarget_storable, _, _, Recorded.decode_event_id _, Recorded.decode_event_pubkey _,
    Or.inr ⟨sampleRawDeletion_storable, ?_⟩⟩
  refine ⟨"\x1eek9#bXjL\x0ev/Dq6S%/L\u0461\x035PB/\x0b*\x0cI~\x15", ?_, ?_, ?_⟩ <;>
    decide +kernel

/-- A deletion in hex that comes first is not found: the note is stored visible
and reported as new. -/
theorem sampleHexDeletion_not_commutes :
    (Recorded.crypto [sampleTarget, sampleHexDeletion]).NoCollision
        [sampleTarget.event, sampleHexDeletion.event] ∧
      sampleTarget.event.Validated (Recorded.crypto [sampleTarget, sampleHexDeletion]) ∧
      sampleHexDeletion.event.Validated (Recorded.crypto [sampleTarget, sampleHexDeletion]) ∧
      sampleTarget.event.isReplaceable = false ∧ sampleTarget.event.isParamReplaceable = false ∧
      sampleTarget.event.isEphemeral = false ∧ sampleTarget.event.kind ≠ 5 ∧
      sampleTarget.event.kind ≠ 1059 ∧ sampleHexDeletion.event.kind = 5 ∧
      sampleHexDeletion.event.pubkey = sampleTarget.event.pubkey ∧
      sampleTarget.event.id ∈ sampleHexDeletion.event.tagValuesByName "e" ∧
      Absent Db.empty sampleTarget.event ∧ Absent Db.empty sampleHexDeletion.event ∧
      ¬ DeletionCommutes Server.inOrder Db.empty sampleTarget.event sampleHexDeletion.event := by
  have hnd : ([sampleTarget, sampleHexDeletion].map Recorded.createdAt).Nodup := by decide
  have hid : ([sampleTarget, sampleHexDeletion].map fun r => Hex.ofNat 32 r.id).Nodup := by
    decide +kernel
  refine ⟨Recorded.noCollision hnd hid, Recorded.validated hnd (by simp),
    Recorded.validated hnd (by simp), rfl, rfl, rfl, by decide, by decide, rfl, rfl,
    by decide +kernel, absent_empty _, absent_empty _, ?_⟩
  have hreported :
      (writeEvent Server.inOrder (write Server.inOrder Db.empty sampleHexDeletion.event)
        sampleTarget.event).toOption.map Prod.fst = some 1 := by
    decide +kernel
  rintro ⟨_, _, ⟨db', hw, _⟩, _⟩
  rw [hw] at hreported
  cases hreported

end Floonet.Postgres
